/-
  The follow, mute and report graph, kept up to date event by event
  (`app/message_queue_tasks/process_strfry_event.py`,
  `app/services/report_graph_service.py`).

  The graph is in Neo4j (`edges`), and for every account Redis holds the set of
  those who follow, mute or report it (`sets`).  A handler writes the graph first and
  the sets after it, so it is a program of several commands and may stop between any
  two of them; a message whose handler stops is gone from the queue.

  The specification of a handler (`safe_…`) says what it leaves behind when it ends.
-/
import BrainstormServer.Conc.Crash
import BrainstormServer.Nostr

namespace BrainstormServer

namespace Graph

open Conc Prog Nostr

/-! ## State -/

/-- The types of an edge. -/
inductive Rel
  | follows
  | mutes
  | reports
  deriving DecidableEq

/-- `edges`: who and whom; `sets`: whose set (`followed_by:`, `muted_by:`,
    `reported_by:`) and who is in it. -/
structure Store where
  edges : Rel → List (Pubkey × Pubkey)
  sets : Rel → List (Pubkey × Pubkey)

def Store.empty : Store := ⟨fun _ => [], fun _ => []⟩

/-- Whom `author` has an edge to. -/
def Store.targets (st : Store) (r : Rel) (author : Pubkey) : List Pubkey :=
  ((st.edges r).filter (·.1 = author)).map (·.2)

/-! ## Commands -/

inductive SetCmd
  | sadd (key member : Pubkey)
  | srem (key member : Pubkey)

inductive Cmd
  /-- `MERGE` of the accounts and of the edges to them -/
  | merge (r : Rel) (author : Pubkey) (targets : List Pubkey)
  /-- `DELETE` of the edges to accounts other than these -/
  | deleteOthers (r : Rel) (author : Pubkey) (kept : List Pubkey)
  /-- `DELETE` of the edges to these accounts -/
  | delete (r : Rel) (author : Pubkey) (targets : List Pubkey)
  | currentTargets (r : Rel) (author : Pubkey)
  /-- `fetch_author_user_reports` -/
  | fetchReports (author : Pubkey)
  /-- one command of a pipeline -/
  | redis (r : Rel) (c : SetCmd)

/-- What a command hands back. -/
@[reducible] def Cmd.Ans : Cmd → Type
  | merge _ _ _ => Unit
  | deleteOthers _ _ _ => List Pubkey
  | delete _ _ _ => Unit
  | currentTargets _ _ => List Pubkey
  | fetchReports _ => Option (List Event)
  | redis _ _ => Unit

/-- What the relay answers; `none` if it cannot be read. -/
abbrev Outside := Pubkey → Option (List Event)

def Store.setEdges (st : Store) (r : Rel) (edges : List (Pubkey × Pubkey)) : Store :=
  { st with edges := Function.update st.edges r edges }

def Store.setSets (st : Store) (r : Rel) (sets : List (Pubkey × Pubkey)) : Store :=
  { st with sets := Function.update st.sets r sets }

/-- A set command on the sets of one relation. -/
def SetCmd.run : SetCmd → List (Pubkey × Pubkey) → List (Pubkey × Pubkey)
  | sadd key member, sets => if (key, member) ∈ sets then sets else sets ++ [(key, member)]
  | srem key member, sets => sets.filter (· ≠ (key, member))

/-- The effect of a command. -/
def exec (_ : Unit) : (c : Cmd) → Store → Outside → Option (c.Ans × Store)
  | .merge r author targets, st, _ =>
    some ((), st.setEdges r (st.edges r ++
      (targets.filter (· ∉ st.targets r author)).map (author, ·)))
  | .deleteOthers r author kept, st, _ =>
    some ((st.targets r author).filter (· ∉ kept),
      st.setEdges r ((st.edges r).filter fun e => e.1 ≠ author ∨ e.2 ∈ kept))
  | .delete r author targets, st, _ =>
    some ((), st.setEdges r ((st.edges r).filter fun e => e.1 ≠ author ∨ e.2 ∉ targets))
  | .currentTargets r author, st, _ => some (st.targets r author, st)
  | .fetchReports author, st, ω => some (ω author, st)
  | .redis r c, st, _ => some ((), st.setSets r (c.run (st.sets r)))

/-! ## Handlers -/

abbrev Act (α : Type) := Prog (C := Cmd) Cmd.Ans Empty α

/-- Execute a command. -/
def await (c : Cmd) : Act c.Ans := call c

/-- `pipe.execute()`. -/
def execute (r : Rel) : List SetCmd → Act Unit
  | [] => .ret ()
  | c :: cs => .op (.redis r c) fun _ => execute r cs

/-- `_update_reverse_sets`. -/
def updateReverseSets (r : Rel) (publisher : Pubkey) (added removed : List Pubkey) : Act Unit :=
  if added = [] ∧ removed = [] then
    return
  else
    execute r (added.map (SetCmd.sadd · publisher) ++ removed.map (SetCmd.srem · publisher))

/-- The handlers of kinds 3 and 10000: a list that replaces the one before. -/
def processList (r : Rel) (event : Event) : Act Unit :=
  let named := pTagPubkeys event.tags
  if named = [] then do
    let removed ← await (.deleteOthers r event.pubkey [])
    updateReverseSets r event.pubkey [] removed
  else do
    await (.merge r event.pubkey named)
    let removed ← await (.deleteOthers r event.pubkey named)
    updateReverseSets r event.pubkey named removed

/-- `process_event_kind_3`. -/
def processEventKind3 : Event → Act Unit := processList .follows

/-- `process_event_kind_10000`. -/
def processEventKind10000 : Event → Act Unit := processList .mutes

/-- `extract_report_targets`. -/
def extractReportTargets (event : Event) : List Pubkey :=
  if event.tags.any (isNamed "e") then [] else pTagPubkeys event.tags

/-- `process_event_kind_1984`. -/
def processEventKind1984 (event : Event) : Act Unit :=
  let reported := extractReportTargets event
  if reported = [] then
    return
  else do
    await (.merge .reports event.pubkey reported)
    updateReverseSets .reports event.pubkey reported []

/-- `_deletions_by_report_id`; a dict of sets is the list of its pairs. -/
def deletionsByReportId (deletions : List Event) (reportIds : List String) :
    List (String × Pubkey) :=
  deletions.flatMap fun d =>
    ((tagValues d.tags "e").filter (· ∈ reportIds)).map (·, d.pubkey)

/-- `build_desired_reported_by`: who is reported and by whom. -/
def buildDesiredReportedBy (reports deletions : List Event) : List (Pubkey × Pubkey) :=
  let deleters := if deletions = [] then []
    else deletionsByReportId deletions (reports.map (·.id))
  reports.flatMap fun ev =>
    if (ev.id, ev.pubkey) ∈ deleters then [] else (extractReportTargets ev).map (·, ev.pubkey)

/-- `surviving_report_targets`. -/
def survivingReportTargets (reports : List Event) (author : Pubkey) : List Pubkey :=
  ((buildDesiredReportedBy (reports.filter (·.pubkey = author)) []).filter (·.2 = author)).map (·.1)

/-- `AuthorReportDiff`. -/
structure AuthorReportDiff where
  toAdd : List Pubkey
  toRemove : List Pubkey

/-- `diff_author_targets`. -/
def diffAuthorTargets (desired current : List Pubkey) : AuthorReportDiff :=
  ⟨desired.filter (· ∉ current), current.filter (· ∉ desired)⟩

/-- A write of `process_event_kind_5` that is left out when there is nothing to write;
    the order of a set is of no account. -/
def writeUnlessEmpty (targets : List Pubkey) (write : List Pubkey → Act Unit) : Act Unit :=
  if targets = [] then return else write targets

/-- `process_event_kind_5`. -/
def processEventKind5 (event : Event) : Act Unit := do
  let author := event.pubkey
  let current ← await (.currentTargets .reports author)
  if current = [] then
    return
  else
    match ← await (.fetchReports author) with
    | none => return
    | some reports =>
      let desired := survivingReportTargets reports author
      let diff := diffAuthorTargets desired current
      writeUnlessEmpty diff.toRemove fun targets => await (.delete .reports author targets)
      writeUnlessEmpty diff.toAdd fun targets => await (.merge .reports author targets)
      updateReverseSets .reports author desired diff.toRemove

/-- `process_strfry_event`, for the kinds that make the graph. -/
def processStrfryEvent (event : Event) : Act Unit :=
  if event.kind = 3 then processEventKind3 event
  else if event.kind = 10000 then processEventKind10000 event
  else if event.kind = 1984 then processEventKind1984 event
  else if event.kind = 5 then processEventKind5 event
  else return

/-! ## What the commands do -/

section
variable {st : Store} {r r' : Rel} {author x t : Pubkey} {targets : List Pubkey}

theorem mem_targets : t ∈ st.targets r author ↔ (author, t) ∈ st.edges r := by
  unfold Store.targets
  rw [List.mem_map]
  constructor
  · rintro ⟨⟨y, u⟩, he, rfl⟩
    rw [List.mem_filter, decide_eq_true_iff] at he
    obtain ⟨he, rfl⟩ := he
    exact he
  · intro he
    exact ⟨(author, t), List.mem_filter.2 ⟨he, by simp⟩, rfl⟩

@[simp]
theorem setEdges_edges (edges : List (Pubkey × Pubkey)) : (st.setEdges r edges).edges r = edges :=
  Function.update_self ..

@[simp]
theorem setEdges_sets (edges : List (Pubkey × Pubkey)) : (st.setEdges r edges).sets = st.sets := rfl

@[simp]
theorem setSets_sets (sets : List (Pubkey × Pubkey)) : (st.setSets r sets).sets r = sets :=
  Function.update_self ..

@[simp]
theorem setSets_edges (sets : List (Pubkey × Pubkey)) : (st.setSets r sets).edges = st.edges := rfl

theorem setEdges_edges_ne (h : r' ≠ r) (edges : List (Pubkey × Pubkey)) :
    (st.setEdges r edges).edges r' = st.edges r' :=
  Function.update_of_ne h ..

theorem setSets_sets_ne (h : r' ≠ r) (sets : List (Pubkey × Pubkey)) :
    (st.setSets r sets).sets r' = st.sets r' :=
  Function.update_of_ne h ..

theorem mem_merge : (x, t) ∈ st.edges r ++
    (targets.filter (· ∉ st.targets r author)).map (author, ·) ↔
      (x, t) ∈ st.edges r ∨ (x = author ∧ t ∈ targets) := by
  rw [List.mem_append, List.mem_map]
  constructor
  · rintro (h | ⟨u, hu, he⟩)
    · exact Or.inl h
    · cases he
      exact Or.inr ⟨rfl, List.mem_of_mem_filter hu⟩
  · rintro (h | ⟨rfl, ht⟩)
    · exact Or.inl h
    · by_cases he : (x, t) ∈ st.edges r
      · exact Or.inl he
      · refine Or.inr ⟨t, List.mem_filter.2 ⟨ht, ?_⟩, rfl⟩
        rw [decide_eq_true_iff, mem_targets]
        exact he

/-- The sets after some commands of a pipeline. -/
def runAll (cs : List SetCmd) (sets : List (Pubkey × Pubkey)) : List (Pubkey × Pubkey) :=
  cs.foldl (fun sets c => c.run sets) sets

theorem mem_run_sadd {sets : List (Pubkey × Pubkey)} {key member : Pubkey} {e : Pubkey × Pubkey} :
    e ∈ (SetCmd.sadd key member).run sets ↔ e = (key, member) ∨ e ∈ sets := by
  simp only [SetCmd.run]
  split_ifs with h
  · constructor
    · exact Or.inr
    · rintro (rfl | he)
      · exact h
      · exact he
  · rw [List.mem_append, List.mem_singleton]
    exact Or.comm

theorem mem_run_srem {sets : List (Pubkey × Pubkey)} {key member : Pubkey} {e : Pubkey × Pubkey} :
    e ∈ (SetCmd.srem key member).run sets ↔ e ∈ sets ∧ e ≠ (key, member) := by
  simp only [SetCmd.run]
  rw [List.mem_filter, decide_eq_true_iff]

theorem mem_runAll_sadd {publisher : Pubkey} {e : Pubkey × Pubkey} {added : List Pubkey} :
    ∀ {sets : List (Pubkey × Pubkey)}, e ∈ runAll (added.map (.sadd · publisher)) sets ↔
      (e.2 = publisher ∧ e.1 ∈ added) ∨ e ∈ sets := by
  induction added with
  | nil =>
    intro sets
    simp [runAll]
  | cons a added ih =>
    intro sets
    have hstep := @ih ((SetCmd.sadd a publisher).run sets)
    rw [mem_run_sadd] at hstep
    refine hstep.trans ?_
    obtain ⟨key, member⟩ := e
    simp only [List.mem_cons, Prod.mk.injEq]
    tauto

theorem mem_runAll_srem {publisher : Pubkey} {e : Pubkey × Pubkey} {removed : List Pubkey} :
    ∀ {sets : List (Pubkey × Pubkey)}, e ∈ runAll (removed.map (.srem · publisher)) sets ↔
      e ∈ sets ∧ ¬ (e.2 = publisher ∧ e.1 ∈ removed) := by
  induction removed with
  | nil =>
    intro sets
    simp [runAll]
  | cons a removed ih =>
    intro sets
    have hstep := @ih ((SetCmd.srem a publisher).run sets)
    rw [mem_run_srem] at hstep
    refine hstep.trans ?_
    obtain ⟨key, member⟩ := e
    simp only [List.mem_cons, ne_eq, Prod.mk.injEq]
    tauto

theorem runAll_append (cs cs' : List SetCmd) (sets : List (Pubkey × Pubkey)) :
    runAll (cs ++ cs') sets = runAll cs' (runAll cs sets) :=
  List.foldl_append ..

/-- Who is in the sets after `_update_reverse_sets`. -/
def updated (publisher : Pubkey) (added removed : List Pubkey) (sets : List (Pubkey × Pubkey)) :
    List (Pubkey × Pubkey) :=
  runAll (added.map (SetCmd.sadd · publisher) ++ removed.map (SetCmd.srem · publisher)) sets

theorem mem_updated {publisher : Pubkey} {added removed : List Pubkey}
    {sets : List (Pubkey × Pubkey)} :
    (t, x) ∈ updated publisher added removed sets ↔
      ((x = publisher ∧ t ∈ added) ∨ (t, x) ∈ sets) ∧ ¬ (x = publisher ∧ t ∈ removed) := by
  unfold updated
  rw [runAll_append, mem_runAll_srem, mem_runAll_sadd]

end

/-! ## Pipelines -/

section
variable {I : Store → Prop} {Q : Except Empty Unit → Store → Prop} {r : Rel}

theorem setSets_setSets (st : Store) (sets sets' : List (Pubkey × Pubkey)) :
    (st.setSets r sets).setSets r sets' = st.setSets r sets' := by
  simp only [Store.setSets, Function.update_idem]

/-- A pipeline that keeps `I` with every command. -/
theorem safe_execute {cs : List SetCmd} :
    ∀ {st : Store}, (∀ cs₁ cs₂, cs = cs₁ ++ cs₂ → I (st.setSets r (runAll cs₁ (st.sets r)))) →
      Q (.ok ()) (st.setSets r (runAll cs (st.sets r))) →
      (execute r cs).Safe exec () I Q st := by
  induction cs with
  | nil =>
    intro st _ hQ
    have hst : st.setSets r (st.sets r) = st := by simp [Store.setSets]
    rw [show runAll [] (st.sets r) = st.sets r from rfl, hst] at hQ
    exact hQ
  | cons c cs ih =>
    intro st hI hQ
    refine ⟨?_, ?_⟩
    · have hst : st.setSets r (st.sets r) = st := by simp [Store.setSets]
      have hnil := hI [] (c :: cs) rfl
      rwa [show runAll [] (st.sets r) = st.sets r from rfl, hst] at hnil
    · intro ω out hout
      cases hout
      refine ih (fun cs₁ cs₂ hcs => ?_) ?_
      · rw [setSets_sets, setSets_setSets]
        exact hI (c :: cs₁) cs₂ (by rw [hcs]; rfl)
      · rw [setSets_sets, setSets_setSets]
        exact hQ

theorem safe_updateReverseSets {st : Store} {publisher : Pubkey} {added removed : List Pubkey}
    (hI : ∀ cs₁ cs₂, added.map (SetCmd.sadd · publisher) ++ removed.map (SetCmd.srem · publisher) =
      cs₁ ++ cs₂ → I (st.setSets r (runAll cs₁ (st.sets r))))
    (hQ : Q (.ok ()) (st.setSets r (updated publisher added removed (st.sets r)))) :
    (updateReverseSets r publisher added removed).Safe exec () I Q st := by
  unfold updateReverseSets
  split_ifs with h
  · obtain ⟨rfl, rfl⟩ := h
    have hst : st.setSets r (updated publisher [] [] (st.sets r)) = st := by
      simp [updated, runAll, Store.setSets]
    rw [hst] at hQ
    exact hQ
  · exact safe_execute hI hQ

end

end Graph

end BrainstormServer
