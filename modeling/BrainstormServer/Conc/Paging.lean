/-
  Reading a list of dated entries page by page, newest first.

  Entries are numbered from the newest on.  `newer t` is how many are later than `t`, so
  the entries of the second `t` are those from `newer t` to `newer (t - 1)`.  A reader
  that has got down to the second `u` sees the entries from `newer u` to `hi`, where the
  page it holds ends.  It goes on at the oldest second it sees, or below it if it sees no
  other one, and the next page begins at that second.

  * `Smooth u hi`: it gets to the end without leaving out an entry;
  * `smooth_of_noFlood`: a reader whose page begins where it stands does so, if no second
    that is not the end fills a page;
  * `smooth_of_seamless`, `seamless_of_smooth`: what it takes for one whose page begins
    one second above;
  * `Reads`: how many entries a reader comes to read that may forget what it has read;
    `Reads.le`: none of them more than twice;
  * `idxOf_lt_countP`, `mem_page`: the numbers of the entries of a sorted list, and which
    of them a page has.
-/
import Mathlib.Order.Monotone.Basic
import Mathlib.Data.List.Basic
import Mathlib.Data.List.Count
import Mathlib.Data.Nat.Find

namespace Conc

namespace Paging

/-- How many entries are later than a second; all are later than `1`. -/
structure Timeline where
  newer : ℕ → ℕ
  total : ℕ
  antitone : Antitone newer
  newer_one : newer 1 = total

namespace Timeline

variable (τ : Timeline) (L : ℕ)

/-- The last of the first `m` entries is of the second `o`. -/
structure Oldest (m o : ℕ) : Prop where
  one_lt : 1 < o
  lt : τ.newer o < m
  le : m ≤ τ.newer (o - 1)

/-- A reader at `u` whose page ends at `hi` gets to the end without leaving out an
    entry; pages have `L` entries. -/
inductive Smooth : ℕ → ℕ → Prop
  /-- there is nothing left -/
  | done {u hi : ℕ} : τ.total ≤ τ.newer u → Smooth u hi
  /-- it sees several seconds and goes on at the oldest -/
  | next {u hi o : ℕ} : τ.Oldest (min hi τ.total) o → τ.newer u < τ.newer o →
      Smooth o (τ.newer o + L) → Smooth u hi
  /-- it sees one second, all of it, and goes on below -/
  | same {u hi o : ℕ} : τ.Oldest (min hi τ.total) o → τ.newer u = τ.newer o →
      τ.newer (o - 1) ≤ hi → Smooth (o - 1) (τ.newer o + L) → Smooth u hi

/-- No second fills a page unless the page reaches the end. -/
def NoFlood : Prop :=
  ∀ s, 1 < s → L < τ.total - τ.newer s → τ.newer (s - 1) - τ.newer s < L

/-- `s'` is the last second before `s` that has entries. -/
structure Next (s s' : ℕ) : Prop where
  one_lt : 1 < s'
  lt : s' < s
  entry : τ.newer s' < τ.newer (s' - 1)
  none_between : τ.newer s' = τ.newer (s - 1)

/-- Below `s` the entries go on in a way that a page that begins at `s` may be cut off
    at `s`: there are none, or those of the next second fit on it with those of `s`; if
    they just fit, the same holds below that second. -/
inductive Seamless : ℕ → Prop
  | oldest {s : ℕ} : τ.total ≤ τ.newer (s - 1) → Seamless s
  | room {s s' : ℕ} : τ.Next s s' → τ.newer (s' - 1) < τ.newer s + L → Seamless s
  | full {s s' : ℕ} : τ.Next s s' → τ.newer (s' - 1) = τ.newer s + L → Seamless s' → Seamless s

variable {τ L} {m o u hi s : ℕ}

theorem newer_le_total (hs : 1 ≤ s) : τ.newer s ≤ τ.total := by
  rw [← τ.newer_one]
  exact τ.antitone hs

/-- If some of the first `m` entries are not later than `u`, the last of them is of a
    second up to `u`. -/
theorem exists_oldest (hu : τ.newer u < m) (hm : m ≤ τ.total) : ∃ o, τ.Oldest m o ∧ o ≤ u := by
  have hex : ∃ t, τ.newer t < m := ⟨u, hu⟩
  have hlt := Nat.find_spec hex
  have hone : 1 < Nat.find hex := by
    by_contra hle
    have hge := τ.antitone (not_lt.1 hle)
    rw [τ.newer_one] at hge
    omega
  refine ⟨Nat.find hex, ⟨hone, hlt, ?_⟩, Nat.find_min' hex hu⟩
  exact not_lt.1 (Nat.find_min hex (by omega))

theorem Oldest.unique {o' : ℕ} (h : τ.Oldest m o) (h' : τ.Oldest m o') : o = o' := by
  by_contra hne
  rcases Nat.lt_or_gt_of_ne hne with hlt | hlt
  · have hge := τ.antitone (show o ≤ o' - 1 by omega)
    have := h.lt
    have := h'.le
    omega
  · have hge := τ.antitone (show o' ≤ o - 1 by omega)
    have := h'.lt
    have := h.le
    omega

/-- An entry is of a second between the reader and the page's end. -/
theorem Oldest.le_of_newer (h : τ.Oldest m o) (hu : τ.newer u < m) : o ≤ u := by
  by_contra hlt
  have hge := τ.antitone (show u ≤ o - 1 by omega)
  have := h.le
  omega

/-- Several seconds are seen only if the oldest is before `u`. -/
theorem lt_of_newer_lt (h : τ.newer u < τ.newer o) : o < u := by
  by_contra hle
  have := τ.antitone (not_lt.1 hle)
  omega

theorem exists_next (hs : 1 ≤ s) (h : τ.newer (s - 1) < τ.total) : ∃ s', τ.Next s s' := by
  obtain ⟨o, ho, hle⟩ := exists_oldest (m := τ.newer (s - 1) + 1) (Nat.lt_succ_self _) h
  have hge := τ.antitone hle
  have hlt := ho.lt
  have hle' := ho.le
  have hone := ho.one_lt
  exact ⟨o, hone, by omega, by omega, by omega⟩

/-! ## A page that begins where the reader stands -/

/-- **If no second floods a page, the reader gets through.** -/
theorem smooth_of_noFlood (hL : 0 < L) (hflood : τ.NoFlood L) (u : ℕ) : τ.Smooth L u (τ.newer u + L) := by
  induction u using Nat.strong_induction_on with
  | _ u ih =>
    by_cases hdone : τ.total ≤ τ.newer u
    · exact .done hdone
    · have hleft : τ.newer u < min (τ.newer u + L) τ.total := by omega
      obtain ⟨o, ho, hou⟩ := exists_oldest hleft (min_le_right _ _)
      have hge := τ.antitone hou
      have hlt := ho.lt
      have hle := ho.le
      have hone := ho.one_lt
      rcases Nat.eq_or_lt_of_le hge with hsame | hmore
      · -- one second only: it does not fill the page, so the page reaches the end
        have hend : τ.newer (o - 1) ≤ τ.total := newer_le_total (by omega)
        have hfull := hflood o hone
        refine .same ho hsame (by omega) (.done (by omega))
      · exact .next ho hmore (ih o (lt_of_newer_lt hmore))

/-- Conversely, a reader that gets through meets no second that floods a page. -/
theorem noFlood_of_smooth (u : ℕ) (h : τ.Smooth L u (τ.newer u + L)) {t : ℕ} (ht : 1 < t) (htu : t ≤ u)
    (hmore : L < τ.total - τ.newer t) : τ.newer (t - 1) - τ.newer t < L := by
  induction u using Nat.strong_induction_on with
  | _ u ih =>
    have htu' := τ.antitone htu
    cases h with
    | done hdone => omega
    | @next _ _ o ho hseen hrest =>
      have hlt := ho.lt
      by_cases hto : t ≤ o
      · exact ih o (lt_of_newer_lt hseen) hrest hto
      · -- the entries of `t` are among the ones that are seen
        have hbefore := τ.antitone (show o ≤ t - 1 by omega)
        omega
    | @same _ _ o ho hseen hall hrest =>
      have hlt := ho.lt
      have hle := ho.le
      have hone := ho.one_lt
      have hend : τ.newer (o - 1) ≤ τ.total := newer_le_total (by omega)
      have hlast : τ.total ≤ τ.newer (o - 1) := by
        by_contra hnot
        -- the page ends with the second, and below it there is nothing on the next one
        cases hrest with
        | done hdone => omega
        | @next _ _ o' ho' hseen' _ =>
          have := ho'.lt
          omega
        | @same _ _ o' ho' hseen' _ _ =>
          have := ho'.lt
          omega
      by_cases hto : t ≤ o - 1
      · have := τ.antitone hto
        omega
      · have hbefore := τ.antitone (show o - 1 ≤ t - 1 by omega)
        rcases Nat.eq_or_lt_of_le (show o ≤ t by omega) with rfl | hot
        · omega
        · have := τ.antitone (show o ≤ t - 1 by omega)
          omega

/-! ## A page that begins one second above -/

/-- **The next second fits on the page, so nothing of it is left out.** -/
theorem smooth_of_seamless (hL : 0 < L) (hflood : τ.NoFlood L) (h : τ.Seamless L s) :
    τ.Smooth L (s - 1) (τ.newer s + L) := by
  induction h with
  | oldest hend => exact .done hend
  | @room s s' hnext hroom =>
    have hentry := hnext.entry
    have hbetween := hnext.none_between
    have hone := hnext.one_lt
    have hend : τ.newer (s' - 1) ≤ τ.total := newer_le_total (by omega)
    have hleft : τ.newer (s - 1) < min (τ.newer s + L) τ.total := by omega
    obtain ⟨o, ho, hos⟩ := exists_oldest hleft (min_le_right _ _)
    have hge := τ.antitone hos
    have hlt := ho.lt
    have hle := ho.le
    rcases Nat.eq_or_lt_of_le hge with hsame | hmore
    · -- `s'` is all that is left
      have hlast : τ.newer (o - 1) ≤ τ.newer (s' - 1) := by
        refine τ.antitone ?_
        by_contra hlt'
        have := τ.antitone (show o ≤ s' - 1 by omega)
        omega
      exact .same ho hsame (by omega) (.done (by omega))
    · exact .next ho hmore (smooth_of_noFlood hL hflood o)
  | @full s s' hnext hfull _ ih =>
    have hentry := hnext.entry
    have hbetween := hnext.none_between
    have hone := hnext.one_lt
    have hend : τ.newer (s' - 1) ≤ τ.total := newer_le_total (by omega)
    have ho : τ.Oldest (min (τ.newer s + L) τ.total) s' := ⟨hone, by omega, by omega⟩
    exact .same ho hbetween.symm (by omega) ih

/-- Conversely, below a second that does not fill a page. -/
theorem seamless_of_smooth (s : ℕ) (hs : 1 < s) (hfew : τ.newer (s - 1) < τ.newer s + L)
    (hentry : τ.newer s < τ.newer (s - 1)) (h : τ.Smooth L (s - 1) (τ.newer s + L)) :
    τ.Seamless L s ∧ ∀ t, 1 < t → t < s → L < τ.total - τ.newer t →
      τ.newer (t - 1) - τ.newer t < L := by
  induction s using Nat.strong_induction_on with
  | _ s ih =>
    cases h with
    | done hdone =>
      refine ⟨.oldest hdone, fun t _ hts hmore => ?_⟩
      have := τ.antitone (show t ≤ s - 1 by omega)
      omega
    | @next _ _ o ho hseen hrest =>
      have hlt := ho.lt
      have hleft : τ.newer (s - 1) < τ.total := by omega
      obtain ⟨s', hnext⟩ := exists_next (by omega) hleft
      have hbetween := hnext.none_between
      -- an entry older than `s'` is seen, so all of `s'` is
      have hos : o < s' := by
        rw [← hbetween] at hseen
        exact lt_of_newer_lt hseen
      have hall := τ.antitone (show o ≤ s' - 1 by omega)
      refine ⟨.room hnext (by omega), fun t ht hts hmore => ?_⟩
      by_cases hto : t ≤ o
      · exact noFlood_of_smooth o hrest ht hto hmore
      · have hbefore := τ.antitone (show o ≤ t - 1 by omega)
        have hafter := τ.antitone (show t ≤ s - 1 by omega)
        omega
    | @same _ _ o ho hseen hall hrest =>
      have hlt := ho.lt
      have hle := ho.le
      have hone := ho.one_lt
      have hend : τ.newer (o - 1) ≤ τ.total := newer_le_total (by omega)
      have hos : o < s := by
        have := ho.le_of_newer (show τ.newer (s - 1) < min (τ.newer s + L) τ.total by omega)
        omega
      have hnext : τ.Next s o := ⟨hone, hos, by omega, hseen.symm⟩
      obtain ⟨hseamless, hbelow⟩ := ih o hos hone (by omega) (by omega) hrest
      refine ⟨?_, fun t ht hts hmore => ?_⟩
      · rcases Nat.eq_or_lt_of_le hall with hfull | hroom
        · exact .full hnext hfull hseamless
        · exact .room hnext hroom
      · rcases Nat.lt_trichotomy t o with hto | rfl | hto
        · exact hbelow t ht hto hmore
        · omega
        · have hbefore := τ.antitone (show o ≤ t - 1 by omega)
          have hafter := τ.antitone (show t ≤ s - 1 by omega)
          omega

/-! ## How much is read -/

variable (τ L) in
/-- A reader at `u` whose page ends at `hi`, and who knows the entries before `k`, can come to
    read `n` entries that it does not know.  It may forget what it knows, and then holds a
    page that begins where it stands. -/
inductive Reads : ℕ → ℕ → ℕ → ℕ → Prop
  | stop {u hi k : ℕ} : Reads u hi k 0
  | forget {u hi k n : ℕ} : Reads u (τ.newer u + L) 0 n → Reads u hi k n
  | turn {u hi k o n : ℕ} : τ.Oldest (min hi τ.total) o → τ.newer u < min hi τ.total →
      Reads (if τ.newer o = τ.newer u then o - 1 else o) (τ.newer o + L) (max k hi) n →
      Reads u hi k (min hi τ.total - max (τ.newer u) k + n)

/-- An entry of the second at which the reader stands is read once more at most, and one
    before it twice at most. -/
theorem Reads.le {k n : ℕ} (h : τ.Reads L u hi k n) (hu : 1 ≤ u) :
    n + τ.newer u + min (τ.newer (u - 1)) τ.total ≤ 2 * τ.total := by
  induction h with
  | stop =>
    have := newer_le_total (τ := τ) hu
    omega
  | forget _ ih => exact ih hu
  | @turn u hi k o n ho hlo _ ih =>
    have hone := ho.one_lt
    have hle := ho.le
    have hou := ho.le_of_newer hlo
    have hge := τ.antitone hou
    by_cases hsame : τ.newer o = τ.newer u
    · -- the next second below is where it stands then
      rw [if_pos hsame] at ih
      have hbelow := τ.antitone (show o - 1 - 1 ≤ u - 1 by omega)
      have := ih (by omega)
      omega
    · rw [if_neg hsame] at ih
      have hlt : o < u := lt_of_newer_lt (show τ.newer u < τ.newer o by omega)
      have hbefore := τ.antitone (show o ≤ u - 1 by omega)
      have := ih (by omega)
      omega

/-! ## A page that begins at the top -/

/-- The first page ends with a second, and below it the entries go on seamlessly. -/
def CutsAtSeam (τ : Timeline) (L : ℕ) : Prop :=
  ∃ s, 1 < s ∧ τ.newer s < L ∧ τ.newer (s - 1) = L ∧ τ.Seamless L s

/-- A reader that stands at the last second of the first page and still holds that page. -/
theorem smooth_top_iff (hL : 0 < L) (htotal : L < τ.total) (ho : τ.Oldest L o) :
    0 < τ.newer o ∧ τ.Smooth L o L ↔ τ.NoFlood L ∧ τ.CutsAtSeam L := by
  have hmin : min L τ.total = L := min_eq_left htotal.le
  have hlt := ho.lt
  have hle := ho.le
  have hone := ho.one_lt
  constructor
  · rintro ⟨hpos, hsmooth⟩
    -- it sees the second again, all of it, and then stands below
    obtain ⟨hcut, hrest⟩ : τ.newer (o - 1) ≤ L ∧ τ.Smooth L (o - 1) (τ.newer o + L) := by
      cases hsmooth with
      | done hdone => omega
      | @next _ _ o' ho' hseen _ =>
        rw [hmin] at ho'
        obtain rfl := ho.unique ho'
        omega
      | @same _ _ o' ho' _ hall hrest =>
        rw [hmin] at ho'
        obtain rfl := ho.unique ho'
        exact ⟨hall, hrest⟩
    obtain ⟨hseamless, hbelow⟩ := seamless_of_smooth o hone (by omega) (by omega) hrest
    refine ⟨fun t ht hmore => ?_, o, hone, hlt, by omega, hseamless⟩
    rcases Nat.lt_trichotomy t o with hto | rfl | hto
    · exact hbelow t ht hto hmore
    · omega
    · have := τ.antitone (show o ≤ t - 1 by omega)
      omega
  · rintro ⟨hflood, s, hs, hslt, hcut, hseamless⟩
    obtain rfl := ho.unique ⟨hs, hslt, hcut.ge⟩
    have hfew := hflood o hone
    refine ⟨by omega, .same (by rwa [hmin]) rfl hcut.le ?_⟩
    exact smooth_of_seamless hL hflood hseamless

end Timeline

/-! ## Sorted lists -/

section
variable {α : Type} [DecidableEq α] {date : α → ℕ} {l : List α} {e : α}

/-- The entries later than `s` come first. -/
theorem idxOf_lt_countP (hsorted : l.Pairwise fun a b => date b ≤ date a) (he : e ∈ l) (s : ℕ) :
    l.idxOf e < l.countP (fun a => s < date a) ↔ s < date e := by
  induction l with
  | nil => cases he
  | cons a l ih =>
    rw [List.pairwise_cons] at hsorted
    by_cases ha : s < date a
    · rw [List.countP_cons_of_pos (by simpa using ha)]
      by_cases hea : a = e
      · rw [List.idxOf_cons_eq l hea, ← hea]
        exact ⟨fun _ => ha, fun _ => by omega⟩
      · have he' : e ∈ l := (List.mem_cons.1 he).resolve_left (Ne.symm hea)
        rw [List.idxOf_cons_ne l hea, ← ih hsorted.2 he']
        omega
    · have hnone : l.countP (fun a => s < date a) = 0 := by
        rw [List.countP_eq_zero]
        intro b hb
        have := hsorted.1 b hb
        simp only [decide_eq_true_eq]
        omega
      rw [List.countP_cons_of_neg (by simpa using ha), hnone]
      refine ⟨fun h => by omega, fun h => ?_⟩
      rcases List.mem_cons.1 he with rfl | he
      · exact absurd h ha
      · have := hsorted.1 e he
        omega

/-- What is on the page of `L` entries that begins at the second `u`. -/
theorem mem_page (hsorted : l.Pairwise fun a b => date b ≤ date a) (u L : ℕ) :
    e ∈ (l.filter fun a => date a ≤ u).take L ↔
      e ∈ l ∧ date e ≤ u ∧ l.idxOf e < l.countP (fun a => u < date a) + L := by
  induction l with
  | nil => simp
  | cons a l ih =>
    rw [List.pairwise_cons] at hsorted
    by_cases ha : date a ≤ u
    · -- from here on nothing is filtered out
      have hall : ∀ b ∈ a :: l, date b ≤ u := by
        intro b hb
        rcases List.mem_cons.1 hb with rfl | hb
        · exact ha
        · exact (hsorted.1 b hb).trans ha
      have hfilter : (a :: l).filter (fun a => date a ≤ u) = a :: l := by
        rw [List.filter_eq_self]
        intro b hb
        exact decide_eq_true (hall b hb)
      have hnone : (a :: l).countP (fun a => u < date a) = 0 := by
        rw [List.countP_eq_zero]
        intro b hb
        have := hall b hb
        simp only [decide_eq_true_eq]
        omega
      rw [hfilter, hnone, Nat.zero_add]
      constructor
      · intro h
        have he := List.mem_of_mem_take h
        exact ⟨he, hall e he, (List.mem_take_iff_idxOf_lt he).1 h⟩
      · rintro ⟨he, -, hidx⟩
        exact (List.mem_take_iff_idxOf_lt he).2 hidx
    · rw [List.filter_cons_of_neg (by simpa using ha), ih hsorted.2,
        List.countP_cons_of_pos (by simpa using ha), List.mem_cons]
      by_cases hea : a = e
      · rw [← hea]
        refine ⟨fun h => absurd h.2.1 ha, fun h => absurd h.2.1 ha⟩
      · rw [List.idxOf_cons_ne l hea]
        constructor
        · rintro ⟨he, hdate, hidx⟩
          exact ⟨Or.inr he, hdate, by omega⟩
        · rintro ⟨he, hdate, hidx⟩
          exact ⟨he.resolve_left (Ne.symm hea), hdate, by omega⟩

variable (date l) in
/-- The timeline of a list. -/
def Timeline.ofList (hdates : ∀ e ∈ l, 2 ≤ date e) : Timeline where
  newer s := l.countP fun a => s < date a
  total := l.length
  antitone s t hst := by
    refine List.countP_mono_left fun a _ ha => ?_
    rw [decide_eq_true_eq] at ha ⊢
    omega
  newer_one := by
    rw [List.countP_eq_length]
    intro a ha
    rw [decide_eq_true_eq]
    exact hdates a ha

end

end Paging

end Conc
