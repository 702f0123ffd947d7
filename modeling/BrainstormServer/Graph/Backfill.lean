/-
  The report backfill beside the consumer (`scripts/backfill_user_reports.py`).

  The script has the reports and deletions of a scan of the relay.  It reads the sets of
  Redis, deletes every `REPORTS` edge, merges those of the scan in batches, and then adds
  to the sets and removes from them what it found missing and in excess when it read them.
  The consumer goes on merging reports, those of the scan and later ones.

  * `backfill` is the script as a program, `backfillRun` its run beside any number of
    reports that are ingested;
  * `Survives` says of one reported account in which order the commands came;
  * `late_reports_kept_iff`: the later reports are all there at the end exactly if every
    one of them survives;
  * `late_report_lost`: a report that is ingested before the script reads the sets.
-/
import BrainstormServer.Conc.Log
import BrainstormServer.Graph.Reports
import BrainstormServer.Publish.Plan
import Mathlib.Data.List.Dedup

namespace BrainstormServer

namespace Graph

open Conc Prog Nostr

/-! ## Commands -/

inductive ScriptCmd
  /-- a command that the consumer has as well -/
  | live (c : Cmd)
  /-- `SCAN` for the keys of the sets -/
  | scanIter
  | smembers (key : Pubkey)
  /-- `DELETE` of every `REPORTS` edge -/
  | deleteReports
  /-- `MERGE` of a batch of edges -/
  | mergePairs (pairs : List (Pubkey × Pubkey))

/-- What a command hands back. -/
@[reducible] def ScriptCmd.Ans : ScriptCmd → Type
  | live c => c.Ans
  | scanIter => List Pubkey
  | smembers _ => List Pubkey
  | deleteReports => Unit
  | mergePairs _ => Unit

/-- What comes from outside: the keys that `SCAN` finds, in its order and however often,
    and the answers of the relay. -/
structure ScriptOutside where
  keys : List Pubkey
  relay : Outside

inductive ScriptError
  /-- `range() arg 3 must not be zero` -/
  | valueError

/-- Who is at work: the script, or the consumer with one of the reports. -/
inductive Worker
  | script
  | consumer (n : ℕ)
  deriving DecidableEq

/-- Who is in the set of an account. -/
def Store.members (st : Store) (r : Rel) (key : Pubkey) : List Pubkey :=
  ((st.sets r).filter (·.1 = key)).map (·.2)

local instance lawfulEdges : LawfulBEq (Pubkey × Pubkey) := inferInstance

/-- The effect of a command. -/
def execScript (_ : Worker) : (c : ScriptCmd) → Store → ScriptOutside → Option (c.Ans × Store)
  | .live c, st, ω => exec () c st ω.relay
  | .scanIter, st, ω => some (ω.keys, st)
  | .smembers key, st, _ => some (st.members .reports key, st)
  | .deleteReports, st, _ => some ((), st.setEdges .reports [])
  | .mergePairs pairs, st, _ =>
    some ((), st.setEdges .reports (st.edges .reports ++ pairs.filter (· ∉ st.edges .reports)))

/-! ## The script -/

abbrev Script (α : Type) := Prog (C := ScriptCmd) ScriptCmd.Ans ScriptError α

/-- A handler of the consumer, beside the script. -/
def lift {α : Type} : Act α → Script α
  | .ret a => .ret a
  | .raise e => e.elim
  | .op c k => .op (.live c) fun a => lift (k a)

/-- `current[target] = set(members)`, unless there are none. -/
def withMembers (current : List (Pubkey × Pubkey)) (key : Pubkey) (members : List Pubkey) :
    List (Pubkey × Pubkey) :=
  if members = [] then current else current.filter (·.1 ≠ key) ++ members.dedup.map (key, ·)

def loadKeys : List Pubkey → List (Pubkey × Pubkey) → Script (List (Pubkey × Pubkey))
  | [], current => .ret current
  | key :: keys, current => .op (.smembers key) fun members =>
    loadKeys keys (withMembers current key members)

/-- `_load_current_reported_by`. -/
def loadCurrentReportedBy : Script (List (Pubkey × Pubkey)) :=
  .op .scanIter fun keys => loadKeys keys []

/-- `ReportedByDiff`. -/
structure ReportedByDiff where
  toAdd : List (Pubkey × Pubkey)
  toRemove : List (Pubkey × Pubkey)

/-- `diff_reported_by`. -/
def diffReportedBy (desired current : List (Pubkey × Pubkey)) : ReportedByDiff :=
  ⟨desired.filter (· ∉ current), current.filter (· ∉ desired)⟩

/-- The batches of `_rebuild_neo4j`; with a negative step `range` is empty. -/
def batches (chunk : ℤ) (pairs : List (Pubkey × Pubkey)) : List (List (Pubkey × Pubkey)) :=
  if 0 < chunk then Publish.chunks chunk.toNat pairs else []

def mergeBatches : List (List (Pubkey × Pubkey)) → Script Unit
  | [] => .ret ()
  | batch :: rest => .op (.mergePairs batch) fun _ => mergeBatches rest

/-- `_rebuild_neo4j`. -/
def rebuildNeo4j (desired : List (Pubkey × Pubkey)) (chunk : ℤ) : Script Unit :=
  .op .deleteReports fun _ =>
    if chunk = 0 then .raise .valueError else mergeBatches (batches chunk (desired.map Prod.swap))

/-- The commands of `_apply_redis`. -/
def ReportedByDiff.ops (diff : ReportedByDiff) : List SetCmd :=
  diff.toAdd.map (fun p => .sadd p.1 p.2) ++ diff.toRemove.map fun p => .srem p.1 p.2

/-- `_apply_redis`; a pipeline is no transaction. -/
def applyRedis (diff : ReportedByDiff) : Script Unit := lift (execute .reports diff.ops)

/-- Who is reported and by whom, according to the scan. -/
def desiredReportedBy (scan : List Event) : List (Pubkey × Pubkey) :=
  (buildDesiredReportedBy (scan.filter (·.kind = 1984)) (scan.filter (·.kind = 5))).dedup

/-- `main`, with `--apply`. -/
def backfill (scan : List Event) (chunk : ℤ) : Script Unit := do
  let desired := desiredReportedBy scan
  let current ← loadCurrentReportedBy
  let diff := diffReportedBy desired current
  rebuildNeo4j desired chunk
  applyRedis diff

/-- The script and the consumer; `report n` is the `n`-th report that the consumer gets,
    from before the scan or from after it. -/
def backfillRun (scan : List Event) (chunk : ℤ) (report : ℕ → Event) (st : Store) :
    Config ScriptCmd.Ans ScriptError Unit Worker Store where
  prog
    | .script => backfill scan chunk
    | .consumer n => lift (processEventKind1984 (report n))
  state := st
  log := []

/-- Whether a program has come to its end. -/
def ended : Script Unit → Bool
  | .ret _ => true
  | .raise _ => false
  | .op _ _ => false

/-! ## The order of the commands -/

/-- The commands of the log of a run. -/
abbrev ScriptLog := List (Entry ScriptCmd.Ans Worker Store)

/-- The consumer merges an edge. -/
def merges (x t : Pubkey) : ScriptCmd → Prop
  | .live (.merge .reports author targets) => author = x ∧ t ∈ targets
  | _ => False

/-- A member is added to a set. -/
def adds (t x : Pubkey) (c : ScriptCmd) : Prop := c = .live (.redis .reports (.sadd t x))

/-- A member is removed from a set. -/
def removes (t x : Pubkey) (c : ScriptCmd) : Prop := c = .live (.redis .reports (.srem t x))

/-- The script reads the set of `t` and finds `x` in it. -/
def Found (log : ScriptLog) (t x : Pubkey) : Prop :=
  ∃ e ∈ log, e.cmd = .smembers t ∧ x ∈ e.before.members .reports t

/-- A report of `t` by `x` survives the script: the scan has it, or
    * its edge is merged after the edges are deleted, and
    * the script does not find it in the set, or it is added after it is removed. -/
structure Survives (scan : List Event) (chunk : ℤ) (log : ScriptLog) (x t : Pubkey) : Prop where
  edge : ((t, x) ∈ desiredReportedBy scan ∧ 0 < chunk) ∨ Since (merges x t) (· = .deleteReports) log
  member : (t, x) ∈ desiredReportedBy scan ∨ ¬ Found log t x ∨ Since (adds t x) (removes t x) log

/-- The report of `t` by `x` is in the graph and in the set. -/
def Recorded (st : Store) (x t : Pubkey) : Prop := (x, t) ∈ st.edges .reports ∧ (t, x) ∈ st.sets .reports

/-! ## What the commands do -/

/-- The commands of the consumer with a report. -/
def OfConsumer : ScriptCmd → Prop
  | .live (.merge .reports _ _) => True
  | .live (.redis .reports (.sadd _ _)) => True
  | _ => False

/-- The commands of a run. -/
def OfRun : ScriptCmd → Prop
  | .live (.merge .reports _ _) => True
  | .live (.redis .reports _) => True
  | .live _ => False
  | _ => True

/-- A batch of the script has the edge. -/
def batched (x t : Pubkey) : ScriptCmd → Prop
  | .mergePairs pairs => (x, t) ∈ pairs
  | _ => False

theorem OfConsumer.ofRun {c : ScriptCmd} (h : OfConsumer c) : OfRun c := by
  cases c with
  | live c =>
    cases c with
    | merge r author targets => cases r <;> exact h
    | redis r c =>
      cases r with
      | reports => trivial
      | follows => exact h
      | mutes => exact h
    | deleteOthers r author kept => exact h
    | delete r author targets => exact h
    | currentTargets r author => exact h
    | fetchReports author => exact h
  | scanIter => exact h.elim
  | smembers key => exact h.elim
  | deleteReports => exact h.elim
  | mergePairs pairs => exact h.elim

section
variable {w : Worker} {st : Store} {cmd : ScriptCmd} {ω : ScriptOutside} {out : cmd.Ans × Store}
  {x t : Pubkey}

theorem mem_members {r : Rel} : x ∈ st.members r t ↔ (t, x) ∈ st.sets r := by
  unfold Store.members
  rw [List.mem_map]
  constructor
  · rintro ⟨⟨u, y⟩, he, rfl⟩
    rw [List.mem_filter, decide_eq_true_iff] at he
    obtain ⟨he, rfl⟩ := he
    exact he
  · intro he
    exact ⟨(t, x), List.mem_filter.2 ⟨he, by simp⟩, rfl⟩

/-- The edges after a command. -/
theorem edges_step (hexec : execScript w cmd st ω = some out) (hrun : OfRun cmd) :
    (x, t) ∈ out.2.edges .reports ↔ (merges x t cmd ∨ batched x t cmd) ∨
      ((x, t) ∈ st.edges .reports ∧ cmd ≠ .deleteReports) := by
  cases cmd with
  | live c =>
    cases c with
    | merge r author targets =>
      cases r with
      | reports =>
        cases hexec
        rw [setEdges_edges, mem_merge]
        simp only [merges, batched, ne_eq, reduceCtorEq, not_false_iff, and_true, or_false]
        constructor
        · rintro (h | ⟨rfl, h⟩)
          · exact .inr h
          · exact .inl ⟨rfl, h⟩
        · rintro (⟨rfl, h⟩ | h)
          · exact .inr ⟨rfl, h⟩
          · exact .inl h
      | follows => exact hrun.elim
      | mutes => exact hrun.elim
    | redis r c =>
      cases hexec
      simp [merges, batched]
    | deleteOthers r author kept => exact hrun.elim
    | delete r author targets => exact hrun.elim
    | currentTargets r author => exact hrun.elim
    | fetchReports author => exact hrun.elim
  | scanIter =>
    cases hexec
    simp [merges, batched]
  | smembers key =>
    cases hexec
    simp [merges, batched]
  | deleteReports =>
    cases hexec
    simp [merges, batched]
  | mergePairs pairs =>
    cases hexec
    rw [setEdges_edges, List.mem_append, List.mem_filter, decide_eq_true_iff]
    simp only [merges, batched, ne_eq, reduceCtorEq, not_false_iff, and_true, false_or]
    constructor
    · rintro (h | h)
      · exact .inr h
      · exact .inl h.1
    · rintro (h | h)
      · by_cases hold : (x, t) ∈ st.edges .reports
        · exact .inl hold
        · exact .inr ⟨h, hold⟩
      · exact .inl h

/-- The sets after a command. -/
theorem sets_step (hexec : execScript w cmd st ω = some out) (hrun : OfRun cmd) :
    (t, x) ∈ out.2.sets .reports ↔ adds t x cmd ∨ ((t, x) ∈ st.sets .reports ∧ ¬ removes t x cmd) := by
  cases cmd with
  | live c =>
    cases c with
    | merge r author targets =>
      cases hexec
      simp [adds, removes]
    | redis r c =>
      cases r with
      | reports =>
        cases hexec
        rw [setSets_sets]
        cases c with
        | sadd key member =>
          rw [mem_run_sadd]
          simp [adds, removes, eq_comm]
        | srem key member =>
          rw [mem_run_srem]
          simp [adds, removes, eq_comm]
      | follows => exact hrun.elim
      | mutes => exact hrun.elim
    | deleteOthers r author kept => exact hrun.elim
    | delete r author targets => exact hrun.elim
    | currentTargets r author => exact hrun.elim
    | fetchReports author => exact hrun.elim
  | scanIter =>
    cases hexec
    simp [adds, removes]
  | smembers key =>
    cases hexec
    simp [adds, removes]
  | deleteReports =>
    cases hexec
    simp [adds, removes]
  | mergePairs pairs =>
    cases hexec
    simp [adds, removes]

end

/-! ## What the programs execute -/

/-- An executed command of a pipeline. -/
def piped (c : SetCmd) : Σ c : ScriptCmd, c.Ans := ⟨.live (.redis .reports c), ()⟩

/-- An executed read of a set. -/
def readSet (r : Pubkey × List Pubkey) : Σ c : ScriptCmd, c.Ans := ⟨.smembers r.1, r.2⟩

/-- An executed batch. -/
def mergedBatch (pairs : List (Pubkey × Pubkey)) : Σ c : ScriptCmd, c.Ans := ⟨.mergePairs pairs, ()⟩

/-- What the script has in `current` after some reads. -/
def afterReads (reads : List (Pubkey × List Pubkey)) (current : List (Pubkey × Pubkey)) :
    List (Pubkey × Pubkey) :=
  reads.foldl (fun current r => withMembers current r.1 r.2) current

/-- What follows the reads. -/
def writes (scan : List Event) (chunk : ℤ) (reads : List (Pubkey × List Pubkey)) :
    History ScriptCmd.Ans :=
  ⟨.deleteReports, ()⟩ :: ((batches chunk ((desiredReportedBy scan).map Prod.swap)).map mergedBatch ++
    (diffReportedBy (desiredReportedBy scan) (afterReads reads [])).ops.map piped)

section
variable {spec : History ScriptCmd.Ans → ScriptCmd → Prop}

theorem obeys_execute {Q : Except ScriptError Unit → History ScriptCmd.Ans → Prop} {cs : List SetCmd}
    (hspec : ∀ h, ∀ c ∈ cs, spec h (.live (.redis .reports c))) :
    ∀ {h}, Q (.ok ()) (h ++ cs.map piped) → (lift (execute .reports cs)).Obeys spec Q h := by
  induction cs with
  | nil =>
    intro h hQ
    rw [List.map_nil, List.append_nil] at hQ
    exact hQ
  | cons c cs ih =>
    intro h hQ
    refine ⟨hspec h c List.mem_cons_self, fun a => ih (fun h c hc => hspec h c (List.mem_cons_of_mem _ hc)) ?_⟩
    rw [List.append_assoc]
    exact hQ

theorem obeys_loadKeys (hspec : ∀ h key, spec h (.smembers key)) {keys : List Pubkey} :
    ∀ {current : List (Pubkey × Pubkey)} {h : History ScriptCmd.Ans}
      {Q : Except ScriptError (List (Pubkey × Pubkey)) → History ScriptCmd.Ans → Prop},
      (∀ reads, Q (.ok (afterReads reads current)) (h ++ reads.map readSet)) →
        (loadKeys keys current).Obeys spec Q h := by
  induction keys with
  | nil =>
    intro current h Q hQ
    have hnil := hQ []
    rw [List.map_nil, List.append_nil] at hnil
    exact hnil
  | cons key keys ih =>
    intro current h Q hQ
    refine ⟨hspec h key, fun members => ih fun reads => ?_⟩
    have hcons := hQ ((key, members) :: reads)
    rw [List.map_cons, List.append_cons] at hcons
    exact hcons

theorem obeys_mergeBatches (hspec : ∀ h pairs, spec h (.mergePairs pairs))
    {Q : Except ScriptError Unit → History ScriptCmd.Ans → Prop} {bs : List (List (Pubkey × Pubkey))} :
    ∀ {h}, Q (.ok ()) (h ++ bs.map mergedBatch) → (mergeBatches bs).Obeys spec Q h := by
  induction bs with
  | nil =>
    intro h hQ
    rw [List.map_nil, List.append_nil] at hQ
    exact hQ
  | cons b bs ih =>
    intro h hQ
    refine ⟨hspec h b, fun a => ih ?_⟩
    rw [List.append_assoc]
    exact hQ

/-- **The script**, when it comes to its end: it reads sets, and then it writes. -/
theorem obeys_backfill (scan : List Event) (chunk : ℤ) : (backfill scan chunk).Obeys (fun _ c => OfRun c)
    (fun r h => r = .ok () → ∃ keys reads, h = ⟨.scanIter, keys⟩ :: (reads.map readSet ++ writes scan chunk reads))
    [] := by
  refine ⟨trivial, fun keys => ?_⟩
  refine obeys_bind.2 (obeys_loadKeys (fun _ _ => trivial) fun reads => ?_)
  refine obeys_bind.2 ⟨trivial, fun _ => ?_⟩
  split_ifs with hchunk
  · intro he
    cases he
  · refine obeys_mergeBatches (fun _ _ => trivial) ?_
    refine obeys_execute (fun _ _ _ => trivial) fun _ => ⟨keys, reads, ?_⟩
    simp [writes]

/-- **The consumer** with a report, when it comes to its end: it has added every member. -/
theorem obeys_processEventKind1984 (event : Event) :
    (lift (processEventKind1984 event)).Obeys (fun _ c => OfConsumer c)
      (fun _ h => ∀ t ∈ extractReportTargets event, piped (.sadd t event.pubkey) ∈ h) [] := by
  unfold processEventKind1984
  dsimp only
  split_ifs with hnil
  · intro t ht
    rw [hnil] at ht
    cases ht
  · refine ⟨trivial, fun _ => ?_⟩
    show (lift (updateReverseSets .reports event.pubkey (extractReportTargets event) [])).Obeys _ _ _
    unfold updateReverseSets
    rw [if_neg fun h => hnil h.1]
    refine obeys_execute ?_ ?_
    · intro _ c hc
      simp only [List.map_nil, List.append_nil, List.mem_map] at hc
      obtain ⟨t, -, rfl⟩ := hc
      trivial
    · intro t ht
      refine List.mem_append_right _ (List.mem_map_of_mem ?_)
      rw [List.map_nil, List.append_nil]
      exact List.mem_map_of_mem ht

end

/-! ## The log of a run -/

/-- What the log of a run says where the script is at its end. -/
structure Finished (scan : List Event) (chunk : ℤ) (log : ScriptLog) : Prop where
  run : ∀ e ∈ log, OfRun e.cmd
  consumer : ∀ e ∈ log, e.session ≠ .script → OfConsumer e.cmd
  script : ∃ keys reads, own .script log = ⟨.scanIter, keys⟩ :: (reads.map readSet ++ writes scan chunk reads)

section
variable {scan : List Event} {chunk : ℤ} {report : ℕ → Event} {st : Store}
  {schedule : List (Worker × ScriptOutside)} {cfg : Config ScriptCmd.Ans ScriptError Unit Worker Store}

/-- What is asked of the commands of a worker. -/
def workerSpec : Worker → History ScriptCmd.Ans → ScriptCmd → Prop
  | .script => fun _ c => OfRun c
  | .consumer _ => fun _ c => OfConsumer c

/-- What holds where a worker has come to its end. -/
def workerEnd (scan : List Event) (chunk : ℤ) (report : ℕ → Event) :
    Worker → Except ScriptError Unit → History ScriptCmd.Ans → Prop
  | .script => fun r h => r = .ok () →
    ∃ keys reads, h = ⟨.scanIter, keys⟩ :: (reads.map readSet ++ writes scan chunk reads)
  | .consumer n => fun _ h => ∀ t ∈ extractReportTargets (report n), piped (.sadd t (report n).pubkey) ∈ h

theorem obeys_backfillRun (w : Worker) : ((backfillRun scan chunk report st).prog w).Obeys (workerSpec w)
    (workerEnd scan chunk report w) [] := by
  cases w with
  | script => exact obeys_backfill scan chunk
  | consumer n => exact obeys_processEventKind1984 (report n)

theorem finished_of_run (hrun : (backfillRun scan chunk report st).run execScript schedule = some cfg)
    (hended : ended (cfg.prog .script) = true) : Finished scan chunk cfg.log := by
  have hspec : ∀ e ∈ cfg.log, ∃ h, workerSpec e.session h e.cmd := by
    intro e he
    obtain ⟨l₁, l₂, hl⟩ := List.append_of_mem he
    exact ⟨_, Config.run_obeys workerSpec _ rfl obeys_backfillRun hrun hl⟩
  refine ⟨fun e he => ?_, fun e he hs => ?_, ?_⟩
  · obtain ⟨h, hspec⟩ := hspec e he
    cases hs : e.session with
    | script =>
      rw [hs] at hspec
      exact hspec
    | consumer n =>
      rw [hs] at hspec
      exact OfConsumer.ofRun hspec
  · obtain ⟨h, hspec⟩ := hspec e he
    cases hs' : e.session with
    | script => exact absurd hs' hs
    | consumer n =>
      rw [hs'] at hspec
      exact hspec
  · have hobeys := (Config.run_obeys_from workerSpec _ (fun w => obeys_backfillRun w) hrun).1 .script
    cases hprog : cfg.prog .script with
    | ret a =>
      rw [hprog] at hobeys
      exact hobeys rfl
    | raise e =>
      rw [hprog] at hended
      cases hended
    | op c k =>
      rw [hprog] at hended
      cases hended

/-- A report that has been ingested has added its members. -/
theorem added_of_run (hrun : (backfillRun scan chunk report st).run execScript schedule = some cfg) {n : ℕ}
    (hended : ended (cfg.prog (.consumer n)) = true) {t : Pubkey} (ht : t ∈ extractReportTargets (report n)) :
    ∃ e ∈ cfg.log, adds t (report n).pubkey e.cmd := by
  have hobeys := (Config.run_obeys_from workerSpec _ (fun w => obeys_backfillRun w) hrun).1 (.consumer n)
  cases hprog : cfg.prog (.consumer n) with
  | ret a =>
    rw [hprog] at hobeys
    obtain ⟨e, he, -, hcmd⟩ := mem_own (hobeys t ht)
    exact ⟨e, he, congrArg Sigma.fst hcmd⟩
  | raise e =>
    rw [hprog] at hended
    cases hended
  | op c k =>
    rw [hprog] at hended
    cases hended

end

/-! ## The edges at the end -/

section
variable {adds adds' clears : ScriptCmd → Prop} {l : ScriptLog}

theorem since_or : Since (fun c => adds c ∨ adds' c) clears l ↔ Since adds clears l ∨ Since adds' clears l := by
  constructor
  · rintro ⟨l₁, e, l₂, hl, h | h, hnot⟩
    · exact .inl ⟨l₁, e, l₂, hl, h, hnot⟩
    · exact .inr ⟨l₁, e, l₂, hl, h, hnot⟩
  · rintro (⟨l₁, e, l₂, hl, h, hnot⟩ | ⟨l₁, e, l₂, hl, h, hnot⟩)
    · exact ⟨l₁, e, l₂, hl, .inl h, hnot⟩
    · exact ⟨l₁, e, l₂, hl, .inr h, hnot⟩

end

theorem mem_batches {chunk : ℤ} {pairs : List (Pubkey × Pubkey)} {p : Pubkey × Pubkey} :
    (∃ b ∈ batches chunk pairs, p ∈ b) ↔ 0 < chunk ∧ p ∈ pairs := by
  unfold batches
  split_ifs with hchunk
  · rw [Publish.mem_chunks (by omega)]
    exact ⟨fun h => ⟨hchunk, h⟩, fun h => h.2⟩
  · simp [hchunk]

theorem mem_swapped {pairs : List (Pubkey × Pubkey)} {x t : Pubkey} :
    (x, t) ∈ pairs.map Prod.swap ↔ (t, x) ∈ pairs := by
  rw [List.mem_map]
  constructor
  · rintro ⟨⟨u, y⟩, hmem, he⟩
    cases he
    exact hmem
  · exact fun hmem => ⟨(t, x), hmem, rfl⟩

section
variable {scan : List Event} {chunk : ℤ} {log : ScriptLog} {st st' : Store} {x t : Pubkey}

/-- Only the script executes what the consumer does not. -/
theorem Finished.of_script (h : Finished scan chunk log) {e : Entry ScriptCmd.Ans Worker Store} (he : e ∈ log)
    (hnot : ¬ OfConsumer e.cmd) : e.session = .script := by
  by_contra hs
  exact hnot (h.consumer e he hs)

theorem Finished.mem_own (h : Finished scan chunk log) {e : Entry ScriptCmd.Ans Worker Store} (he : e ∈ log)
    (hnot : ¬ OfConsumer e.cmd) : (⟨e.cmd, e.ans⟩ : Σ c : ScriptCmd, c.Ans) ∈ own .script log := by
  rw [← h.of_script he hnot]
  exact own_of_mem he

/-- The script merges the edges of the scan after it has deleted all. -/
theorem Finished.since_batched (h : Finished scan chunk log) :
    Since (batched x t) (· = .deleteReports) log ↔ (t, x) ∈ desiredReportedBy scan ∧ 0 < chunk := by
  obtain ⟨keys, reads, hown⟩ := h.script
  rw [and_comm, ← mem_swapped, ← mem_batches]
  constructor
  · rintro ⟨l₁, e, l₂, rfl, hbatched, -⟩
    cases hcmd : e.cmd with
    | mergePairs pairs =>
      rw [hcmd] at hbatched
      refine ⟨pairs, ?_, hbatched⟩
      have hmem := h.mem_own (e := e) (by simp) (by rw [hcmd]; exact not_false)
      have hcmds := List.mem_map_of_mem (f := Sigma.fst) hmem
      rw [hown] at hcmds
      simpa [hcmd, writes, readSet, mergedBatch, piped] using hcmds
    | live c =>
      rw [hcmd] at hbatched
      exact hbatched.elim
    | scanIter =>
      rw [hcmd] at hbatched
      exact hbatched.elim
    | smembers key =>
      rw [hcmd] at hbatched
      exact hbatched.elim
    | deleteReports =>
      rw [hcmd] at hbatched
      exact hbatched.elim
  · rintro ⟨b, hb, hmem⟩
    obtain ⟨bs₁, bs₂, hbs⟩ := List.append_of_mem hb
    have hsplit : own .script log =
        (⟨.scanIter, keys⟩ :: (reads.map readSet ++ ⟨.deleteReports, ()⟩ :: bs₁.map mergedBatch)) ++
          ⟨.mergePairs b, ()⟩ :: (bs₂.map mergedBatch ++
            (diffReportedBy (desiredReportedBy scan) (afterReads reads [])).ops.map piped) := by
      rw [hown, writes, hbs]
      simp [mergedBatch]
    obtain ⟨l₁, e, l₂, rfl, -, hcmd, -, hrest⟩ := own_split hsplit
    have hcmd : e.cmd = .mergePairs b := congrArg Sigma.fst hcmd
    refine ⟨l₁, e, l₂, rfl, by rw [hcmd]; exact hmem, fun e' he' hdelete => ?_⟩
    -- a deletion would be the script's own, after its first batch
    have hs := h.of_script (e := e') (by simp [he']) (by rw [hdelete]; exact not_false)
    have hmem' := own_of_mem he'
    rw [hs, hrest] at hmem'
    have hcmds := List.mem_map_of_mem (f := Sigma.fst) hmem'
    simp [hdelete, mergedBatch, piped] at hcmds

/-- **The edges at the end.** -/
theorem Finished.edges (h : Finished scan chunk log) (ht : Trace execScript st log st') :
    (x, t) ∈ st'.edges .reports ↔
      ((t, x) ∈ desiredReportedBy scan ∧ 0 < chunk) ∨ Since (merges x t) (· = .deleteReports) log := by
  have hdeleted : ∃ e ∈ log, e.cmd = .deleteReports := by
    obtain ⟨keys, reads, hown⟩ := h.script
    obtain ⟨e, he, -, hcmd⟩ := Conc.mem_own (s := Worker.script) (l := log) (x := ⟨.deleteReports, ()⟩)
      (by rw [hown]; simp [writes])
    exact ⟨e, he, congrArg Sigma.fst hcmd⟩
  rw [ht.iff_since (fun st => (x, t) ∈ st.edges .reports) (fun c => merges x t c ∨ batched x t c)
    (· = .deleteReports) log fun e he ⟨ω, hexec⟩ => edges_step hexec (h.run e he), since_or, h.since_batched]
  constructor
  · rintro ((hsince | hdesired) | ⟨-, hnever⟩)
    · exact .inr hsince
    · exact .inl hdesired
    · obtain ⟨e, he, hcmd⟩ := hdeleted
      exact absurd hcmd (hnever e he)
  · rintro (hdesired | hsince)
    · exact .inl (.inr hdesired)
    · exact .inl (.inl hsince)

end

/-! ## The sets at the end -/

section
variable {reads : List (Pubkey × List Pubkey)} {current : List (Pubkey × Pubkey)} {key x t : Pubkey}
  {members : List Pubkey}

theorem mem_withMembers : (t, x) ∈ withMembers current key members ↔
    (key = t ∧ x ∈ members) ∨ ((key = t → members = []) ∧ (t, x) ∈ current) := by
  unfold withMembers
  split_ifs with hnil
  · simp [hnil]
  · rw [List.mem_append, List.mem_filter, decide_eq_true_iff, List.mem_map]
    constructor
    · rintro (⟨hmem, hne⟩ | ⟨y, hy, he⟩)
      · exact .inr ⟨fun hk => absurd hk.symm hne, hmem⟩
      · cases he
        exact .inl ⟨rfl, List.mem_dedup.1 hy⟩
    · rintro (⟨rfl, hx⟩ | ⟨hk, hmem⟩)
      · exact .inr ⟨x, List.mem_dedup.2 hx, rfl⟩
      · exact .inl ⟨hmem, fun he => hnil (hk he.symm)⟩

/-- What is in `current` was read. -/
theorem read_of_mem_afterReads (h : (t, x) ∈ afterReads reads current) :
    (∃ members, (t, members) ∈ reads ∧ x ∈ members) ∨ (t, x) ∈ current := by
  induction reads generalizing current with
  | nil => exact .inr h
  | cons r reads ih =>
    rcases ih h with ⟨members, hmem, hx⟩ | hmem
    · exact .inl ⟨members, List.mem_cons_of_mem _ hmem, hx⟩
    · rcases mem_withMembers.1 hmem with ⟨rfl, hx⟩ | ⟨-, hold⟩
      · exact .inl ⟨r.2, List.mem_cons_self, hx⟩
      · exact .inr hold

/-- What is in `current` stays, if every later read of the set has it. -/
theorem mem_afterReads_of_mem (h : (t, x) ∈ current) (hreads : ∀ members, (t, members) ∈ reads → x ∈ members) :
    (t, x) ∈ afterReads reads current := by
  induction reads generalizing current with
  | nil => exact h
  | cons r reads ih =>
    refine ih (mem_withMembers.2 ?_) fun members hmem => hreads members (List.mem_cons_of_mem _ hmem)
    by_cases hk : r.1 = t
    · exact .inl ⟨hk, hreads r.2 (hk ▸ List.mem_cons_self)⟩
    · exact .inr ⟨fun he => absurd he hk, h⟩

theorem afterReads_append (reads reads' : List (Pubkey × List Pubkey)) (current : List (Pubkey × Pubkey)) :
    afterReads (reads ++ reads') current = afterReads reads' (afterReads reads current) :=
  List.foldl_append

end

section
variable {scan : List Event} {chunk : ℤ} {log : ScriptLog} {st st' : Store} {x t : Pubkey}
  {keys : List Pubkey} {reads : List (Pubkey × List Pubkey)}

/-- What the script removes. -/
theorem Finished.removed (h : Finished scan chunk log)
    (hown : own .script log = ⟨.scanIter, keys⟩ :: (reads.map readSet ++ writes scan chunk reads)) :
    (∃ e ∈ log, removes t x e.cmd) ↔ (t, x) ∈ afterReads reads [] ∧ (t, x) ∉ desiredReportedBy scan := by
  have hops : SetCmd.srem t x ∈ (diffReportedBy (desiredReportedBy scan) (afterReads reads [])).ops ↔
      (t, x) ∈ afterReads reads [] ∧ (t, x) ∉ desiredReportedBy scan := by
    simp [ReportedByDiff.ops, diffReportedBy]
  rw [← hops]
  constructor
  · rintro ⟨e, he, hremoves⟩
    have hcmd : e.cmd = .live (.redis .reports (.srem t x)) := hremoves
    have hmem := h.mem_own he (by rw [hcmd]; exact not_false)
    have hcmds := List.mem_map_of_mem (f := Sigma.fst) hmem
    rw [hown] at hcmds
    simpa [hcmd, writes, readSet, mergedBatch, piped] using hcmds
  · intro hmem
    obtain ⟨e, he, -, hcmd⟩ := Conc.mem_own (s := Worker.script) (l := log) (x := piped (.srem t x)) (by
      rw [hown, writes]
      simp [List.mem_map_of_mem (f := piped) hmem])
    exact ⟨e, he, congrArg Sigma.fst hcmd⟩

/-- A read of the script is one of its reads, and between two of them it removes nothing. -/
theorem Finished.split_read (h : Finished scan chunk log)
    (hown : own .script log = ⟨.scanIter, keys⟩ :: (reads.map readSet ++ writes scan chunk reads))
    {l₁ l₂ : ScriptLog} {e : Entry ScriptCmd.Ans Worker Store} (hl : log = l₁ ++ e :: l₂)
    (hcmd : e.cmd = .smembers t) : ∃ before members after, reads = before ++ (t, members) :: after ∧
      (⟨e.cmd, e.ans⟩ : Σ c : ScriptCmd, c.Ans) = readSet (t, members) ∧
      own .script l₂ = after.map readSet ++ writes scan chunk reads := by
  have hs := h.of_script (e := e) (by simp [hl]) (by rw [hcmd]; exact not_false)
  rw [hl, own_append, own_cons_self hs] at hown
  cases hl₁ : own .script l₁ with
  | nil =>
    rw [hl₁] at hown
    have hfst := congrArg Sigma.fst (List.head_eq_of_cons_eq hown)
    rw [show e.cmd = .scanIter from hfst] at hcmd
    cases hcmd
  | cons y own₁ =>
    rw [hl₁, List.cons_append] at hown
    rcases split_append (List.tail_eq_of_cons_eq hown).symm with ⟨rest, hreads, hrest⟩ | ⟨rest, -, hwrites⟩
    · obtain ⟨before, tail, rfl, -, htail⟩ := List.map_eq_append_iff.1 hreads
      obtain ⟨⟨u, members⟩, after, rfl, hread, rfl⟩ := List.map_eq_cons_iff.1 htail
      have hut : ScriptCmd.smembers u = .smembers t := (congrArg Sigma.fst hread).trans hcmd
      cases hut
      exact ⟨before, members, after, rfl, hread.symm, hrest⟩
    · have hmem : (⟨e.cmd, e.ans⟩ : Σ c : ScriptCmd, c.Ans) ∈ writes scan chunk reads := by
        rw [hwrites]
        simp
      have hcmds := List.mem_map_of_mem (f := Sigma.fst) hmem
      simp [hcmd, writes, mergedBatch, piped] at hcmds

/-- A read of a set gives its members. -/
theorem members_of_read {e : Entry ScriptCmd.Ans Worker Store} (he : e.Executed execScript) {members : List Pubkey}
    (hread : (⟨e.cmd, e.ans⟩ : Σ c : ScriptCmd, c.Ans) = readSet (t, members)) :
    members = e.before.members .reports t := by
  obtain ⟨ω, hexec⟩ := he.as rfl hread
  exact (congrArg Prod.fst (Option.some.inj hexec)).symm

/-- **What the script has in `current`** is what it found in the sets: a member that it
    finds once is there when it reads the set again. -/
theorem Finished.found (h : Finished scan chunk log) (ht : Trace execScript st log st')
    (hown : own .script log = ⟨.scanIter, keys⟩ :: (reads.map readSet ++ writes scan chunk reads)) :
    Found log t x ↔ (t, x) ∈ afterReads reads [] := by
  constructor
  · rintro ⟨e, he, hcmd, hx⟩
    obtain ⟨l₁, l₂, hl⟩ := List.append_of_mem he
    obtain ⟨before, members, after, rfl, hread, hrest⟩ := h.split_read hown hl hcmd
    rw [hl] at ht
    obtain ⟨-, hexec, ht₂⟩ := ht.split_cons
    have hxread : x ∈ members := by rwa [members_of_read hexec hread]
    rw [afterReads_append]
    show (t, x) ∈ afterReads after (withMembers (afterReads before []) t members)
    refine mem_afterReads_of_mem (mem_withMembers.2 (.inl ⟨rfl, hxread⟩)) fun members' hmem => ?_
    -- a later read of the set: the script has only read in between
    obtain ⟨between, later, rfl⟩ := List.append_of_mem hmem
    rw [List.map_append, List.map_cons, List.append_assoc] at hrest
    obtain ⟨m₁, e', m₂, rfl, -, hread', hbetween, -⟩ := own_split hrest
    obtain ⟨ht₁, hexec', -⟩ := ht₂.split_cons
    rw [members_of_read hexec' hread', mem_members]
    refine (ht₁.iff_since (fun st => (t, x) ∈ st.sets .reports) (adds t x) (removes t x) m₁
      fun e₁ he₁ ⟨ω, hω⟩ => sets_step hω (h.run e₁ (by simp [hl, he₁]))).2 (.inr ⟨?_, fun e₁ he₁ hremoves => ?_⟩)
    · obtain ⟨ω, hω⟩ := hexec
      rw [sets_step hω (h.run e he), hcmd]
      refine .inr ⟨mem_members.1 hx, fun hremoves => ?_⟩
      cases hremoves
    · have hcmd₁ : e₁.cmd = .live (.redis .reports (.srem t x)) := hremoves
      have hs := h.of_script (e := e₁) (by simp [hl, he₁]) (by rw [hcmd₁]; exact not_false)
      have hmem₁ := own_of_mem he₁
      rw [hs, hbetween] at hmem₁
      have hcmds := List.mem_map_of_mem (f := Sigma.fst) hmem₁
      simp [hcmd₁, readSet] at hcmds
  · intro hmem
    rcases read_of_mem_afterReads hmem with ⟨members, hread, hx⟩ | hnil
    · obtain ⟨e, he, -, hcmd⟩ := Conc.mem_own (s := Worker.script) (l := log) (x := readSet (t, members)) (by
        rw [hown]
        simp [List.mem_map_of_mem (f := readSet) hread])
      obtain ⟨l₁, l₂, hl⟩ := List.append_of_mem he
      rw [hl] at ht
      rw [members_of_read ht.split_cons.2.1 hcmd] at hx
      exact ⟨e, he, congrArg Sigma.fst hcmd, hx⟩
    · cases hnil

/-- **The sets at the end**, for a member that was added. -/
theorem Finished.sets (h : Finished scan chunk log) (ht : Trace execScript st log st')
    (hadded : ∃ e ∈ log, adds t x e.cmd) : (t, x) ∈ st'.sets .reports ↔
      (t, x) ∈ desiredReportedBy scan ∨ ¬ Found log t x ∨ Since (adds t x) (removes t x) log := by
  obtain ⟨keys, reads, hown⟩ := h.script
  have hremoved := h.removed (t := t) (x := x) hown
  rw [← h.found ht hown] at hremoved
  have hnever : (∀ e ∈ log, ¬ removes t x e.cmd) ↔ (t, x) ∈ desiredReportedBy scan ∨ ¬ Found log t x := by
    have hnot := not_congr hremoved
    push Not at hnot
    rw [hnot, or_comm, imp_iff_not_or]
  rw [ht.iff_since (fun st => (t, x) ∈ st.sets .reports) (adds t x) (removes t x) log
    fun e he ⟨ω, hexec⟩ => sets_step hexec (h.run e he), ← or_assoc, ← hnever]
  constructor
  · rintro (hsince | ⟨-, hnot⟩)
    · exact .inr hsince
    · exact .inl hnot
  · rintro (hnot | hsince)
    · obtain ⟨e, he, hadds⟩ := hadded
      obtain ⟨l₁, l₂, rfl⟩ := List.append_of_mem he
      exact .inl ⟨l₁, e, l₂, rfl, hadds, fun e' he' => hnot e' (by simp [he'])⟩
    · exact .inl hsince

end

/-! ## The later reports -/

/-- **The backfill beside the consumer.**  In every run, when the script is at its end:
    the reports that the scan does not have and that have been ingested are all in the
    graph and in the sets exactly if each of them survives. -/
theorem late_reports_kept_iff (scan : List Event) (chunk : ℤ) (report : ℕ → Event) (st : Store)
    (schedule : List (Worker × ScriptOutside)) (cfg : Config ScriptCmd.Ans ScriptError Unit Worker Store)
    (hrun : (backfillRun scan chunk report st).run execScript schedule = some cfg)
    (hended : ended (cfg.prog .script) = true) :
    (∀ n, report n ∉ scan → ended (cfg.prog (.consumer n)) = true → ∀ t ∈ extractReportTargets (report n),
      Recorded cfg.state (report n).pubkey t) ↔
    ∀ n, report n ∉ scan → ended (cfg.prog (.consumer n)) = true → ∀ t ∈ extractReportTargets (report n),
      Survives scan chunk cfg.log (report n).pubkey t := by
  have hfinished := finished_of_run hrun hended
  obtain ⟨log, hlog, ht⟩ := Config.run_trace hrun
  rw [show cfg.log = log from hlog] at hfinished ⊢
  have hiff : ∀ n, ended (cfg.prog (.consumer n)) = true → ∀ t ∈ extractReportTargets (report n),
      (Recorded cfg.state (report n).pubkey t ↔ Survives scan chunk log (report n).pubkey t) := by
    intro n hn t htarget
    have hadded := added_of_run hrun hn htarget
    rw [show cfg.log = log from hlog] at hadded
    unfold Recorded
    rw [hfinished.edges ht, hfinished.sets ht hadded]
    exact ⟨fun hboth => ⟨hboth.1, hboth.2⟩, fun hs => ⟨hs.edge, hs.member⟩⟩
  constructor
  · intro hall n hlate hn t htarget
    exact (hiff n hn t htarget).1 (hall n hlate hn t htarget)
  · intro hall n hlate hn t htarget
    exact (hiff n hn t htarget).2 (hall n hlate hn t htarget)

/-! ## Two runs -/

/-- An account reports another. -/
def sampleReport (id : String) (x t : Char) : Event :=
  ⟨id, sampleKey x, 1984, 0, [[.str "p", .str (sampleKey t)]], ""⟩

/-- The scan has a report of `b` by `c`, and `b` is also reported by `a` later. -/
def sampleRun : Config ScriptCmd.Ans ScriptError Unit Worker Store :=
  backfillRun [sampleReport "r0" 'c' 'b'] 5000 (fun _ => sampleReport "r1" 'a' 'b') .empty

/-- Some commands of a worker; `SCAN` finds the set of `b`. -/
def turns (w : Worker) (n : ℕ) : List (Worker × ScriptOutside) :=
  List.replicate n (w, ⟨[sampleKey 'b'], fun _ => none⟩)

theorem late_report_notMem : sampleReport "r1" 'a' 'b' ∉ [sampleReport "r0" 'c' 'b'] := by
  intro hmem
  have hid : "r1" = "r0" := congrArg Event.id (List.mem_singleton.1 hmem)
  exact absurd hid (by decide)

/-- The report comes between the deletion of the edges and their merge. -/
theorem late_report_kept : ∃ cfg, sampleRun.run execScript
      (turns .script 3 ++ turns (.consumer 0) 2 ++ turns .script 2) = some cfg ∧
    ended (cfg.prog .script) = true ∧ ended (cfg.prog (.consumer 0)) = true ∧
    Recorded cfg.state (sampleKey 'a') (sampleKey 'b') ∧
    ∀ n, ended (cfg.prog (.consumer n)) = true → ∀ t ∈ extractReportTargets (sampleReport "r1" 'a' 'b'),
      Survives [sampleReport "r0" 'c' 'b'] 5000 cfg.log (sampleKey 'a') t := by
  have hcheck : (sampleRun.run execScript (turns .script 3 ++ turns (.consumer 0) 2 ++ turns .script 2)).map
      (fun cfg => (ended (cfg.prog .script), ended (cfg.prog (.consumer 0)),
        decide ((sampleKey 'a', sampleKey 'b') ∈ cfg.state.edges .reports),
        decide ((sampleKey 'b', sampleKey 'a') ∈ cfg.state.sets .reports))) = some (true, true, true, true) := by
    decide
  have htargets : extractReportTargets (sampleReport "r1" 'a' 'b') = [sampleKey 'b'] := by decide
  obtain ⟨cfg, hrun, hvalues⟩ := Option.map_eq_some_iff.1 hcheck
  simp only [Prod.mk.injEq, decide_eq_true_eq] at hvalues
  obtain ⟨hscript, hconsumer, hedge, hmember⟩ := hvalues
  refine ⟨cfg, hrun, hscript, hconsumer, ⟨hedge, hmember⟩, fun n hn t ht => ?_⟩
  refine (late_reports_kept_iff _ _ _ _ _ cfg hrun hscript).1 (fun m _ _ u hu => ?_) n late_report_notMem hn t ht
  rw [htargets, List.mem_singleton] at hu
  rw [hu]
  exact ⟨hedge, hmember⟩

/-- **A report is lost.**  It is in the graph and in the set when the script reads the set;
    the script deletes the edge and removes the member, and puts neither back. -/
theorem late_report_lost : ∃ cfg, sampleRun.run execScript (turns (.consumer 0) 2 ++ turns .script 6) = some cfg ∧
    ended (cfg.prog .script) = true ∧ sampleReport "r1" 'a' 'b' ∉ [sampleReport "r0" 'c' 'b'] ∧
    ended (cfg.prog (.consumer 0)) = true ∧ sampleKey 'b' ∈ extractReportTargets (sampleReport "r1" 'a' 'b') ∧
    (sampleKey 'a', sampleKey 'b') ∉ cfg.state.edges .reports ∧
    (sampleKey 'b', sampleKey 'a') ∉ cfg.state.sets .reports := by
  have hcheck : (sampleRun.run execScript (turns (.consumer 0) 2 ++ turns .script 6)).map
      (fun cfg => (ended (cfg.prog .script), ended (cfg.prog (.consumer 0)),
        decide ((sampleKey 'a', sampleKey 'b') ∉ cfg.state.edges .reports),
        decide ((sampleKey 'b', sampleKey 'a') ∉ cfg.state.sets .reports))) = some (true, true, true, true) := by
    decide
  have htarget : sampleKey 'b' ∈ extractReportTargets (sampleReport "r1" 'a' 'b') := by decide
  obtain ⟨cfg, hrun, hvalues⟩ := Option.map_eq_some_iff.1 hcheck
  simp only [Prod.mk.injEq, decide_eq_true_eq] at hvalues
  obtain ⟨hscript, hconsumer, hedge, hmember⟩ := hvalues
  exact ⟨cfg, hrun, hscript, late_report_notMem, hconsumer, htarget, hedge, hmember⟩

end Graph

end BrainstormServer
