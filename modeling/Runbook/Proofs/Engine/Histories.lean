import Runbook.Proofs.Engine.Inspection
import Runbook.Proofs.Engine.Traffic

/-!
# What a history vouches for

Whatever the runs of an engine do at the same time, and whichever appends the store refuses, a
history is in order at any time: directly in front of an output stands the result that has it, and
directly in front of an error the failure that has it.

Whether the result can still be *read* is another matter. A failure always can. The text of a success
may hold more than the reader takes, such as metadata that is nested too deeply; then the output
stands behind a result of which nothing is told (`unread_output`).
-/

set_option autoImplicit false

namespace Runbook

open Dialogue RunDialogue Execution Memory RunTrace

/-- The slice tells of a success of that step with that output. -/
def Slice.TellsSuccess (p : Slice) (step text : String) : Prop :=
  ∃ y, recordedResult? p = some y ∧ y.step = step ∧ y.status = .success ∧ y.outputText? = some text

/-- The slice tells of a failure of that step with that message. -/
def Slice.TellsFailure (p : Slice) (step message : String) : Prop :=
  ∃ y f, recordedResult? p = some y ∧ y.step = step ∧ y.status = .failed ∧ y.error = some f ∧
    f.message = message

/-- What stands directly in front of an output: the record of the success that has it. If the text of
the record can be read at all, it tells of that success. -/
def VouchedOutput (front : List Slice) (x : Slice) : Prop :=
  ∃ before p r, front = before ++ [p] ∧ p.step = r.step ∧ p.classification = .stepResult ∧
    p.content = r.encode.compress ∧ r.step = x.step ∧ r.status = .success ∧
    r.outputText? = some x.content ∧ (Readable r → p.TellsSuccess x.step x.content) ∧
    (¬ Readable r → recordedResult? p = none)

/-- What stands directly in front of an error: a failure that is told. -/
def VouchedError (front : List Slice) (x : Slice) : Prop :=
  ∃ before p, front = before ++ [p] ∧ p.step = x.step ∧ p.classification = .stepResult ∧
    p.TellsFailure x.step x.content

theorem recordedResult?_eq (s : Slice) : recordedResult? s = s.entry.result? := rfl

/-- The entry that records a result. -/
def resultEntry (r : StepResult) : Entry := ⟨r.step, .stepResult, r.encode.compress⟩

theorem result?_resultEntry {r x : StepResult} :
    (resultEntry r).result? = some x ↔
      (Json.parse? r.encode.compress).map StepResult.decode = some (.ok x) :=
  @result?_resultSlice "" r x

theorem told_of_readable {r : StepResult} (h : Readable r) :
    ∃ y, (resultEntry r).result? = some y ∧ y.step = r.step ∧ y.status = r.status ∧
      y.outputText? = r.outputText? := by
  obtain ⟨y, read⟩ := h
  obtain ⟨step, status, output, -⟩ := StepResult.tells_of_parse?_encode read
  exact ⟨y, result?_resultEntry.mpr read, step, status, output⟩

theorem untold_of_unreadable {r : StepResult} (h : ¬ Readable r) :
    (resultEntry r).result? = none := by
  cases hr : (resultEntry r).result? with
  | none => rfl
  | some y => exact absurd ⟨y, result?_resultEntry.mp hr⟩ h

theorem vouchedOutput_of_backs {before : List Slice} {p x : Slice} (h : Backs p.entry x.entry)
    (output : x.classification = .output) : VouchedOutput (before ++ [p]) x := by
  generalize hp : p.entry = pe at h
  generalize hx : x.entry = xe at h
  cases h with
  | @output r text status text_eq =>
    obtain ⟨step, -, content⟩ := Entry.mk.inj hx
    obtain ⟨pstep, pclass, pcontent⟩ := Entry.mk.inj hp
    have text_here : r.outputText? = some x.content := text_eq.trans (congrArg some content.symm)
    refine ⟨before, p, r, rfl, pstep, pclass, pcontent, step.symm, status, text_here, ?_, ?_⟩
    · intro readable
      obtain ⟨y, told, ystep, ystatus, youtput⟩ := told_of_readable readable
      refine ⟨y, ?_, ystep.trans step.symm, ystatus.trans status, youtput.trans text_here⟩
      rw [recordedResult?_eq, hp]
      exact told
    · intro unreadable
      rw [recordedResult?_eq, hp]
      exact untold_of_unreadable unreadable
  | error =>
    obtain ⟨-, other, -⟩ := Entry.mk.inj hx
    cases output.symm.trans other

theorem vouchedError_of_backs {before : List Slice} {p x : Slice} (h : Backs p.entry x.entry)
    (error : x.classification = .error) : VouchedError (before ++ [p]) x := by
  generalize hp : p.entry = pe at h
  generalize hx : x.entry = xe at h
  cases h with
  | output =>
    obtain ⟨-, other, -⟩ := Entry.mk.inj hx
    cases error.symm.trans other
  | @error r f status failure told =>
    obtain ⟨step, -, content⟩ := Entry.mk.inj hx
    obtain ⟨pstep, pclass, -⟩ := Entry.mk.inj hp
    refine ⟨before, p, rfl, pstep.trans step.symm, pclass, r, f, ?_, step.symm, status, failure,
      content.symm⟩
    rw [recordedResult?_eq, hp]
    exact result?_resultEntry.mpr told

/-- What a list of entries that is in order says of the slices. -/
theorem vouched_of_backed {front back : List Slice} {x : Slice}
    (backed : Backed ((front ++ x :: back).map Slice.entry)) :
    (x.classification = .output → VouchedOutput front x) ∧
      (x.classification = .error → VouchedError front x) := by
  have found := backed (front.map Slice.entry) x.entry (back.map Slice.entry) (by simp)
  -- the entry in front is one of a slice
  have slice : ∀ {before : List Entry} {e : Entry}, front.map Slice.entry = before ++ [e] →
      ∃ before' p, front = before' ++ [p] ∧ p.entry = e := by
    intro before e same
    obtain ⟨l, l', rfl, -, hl'⟩ := List.map_eq_append_iff.mp same
    obtain ⟨p, rfl, rfl⟩ := List.map_eq_singleton_iff.mp hl'
    exact ⟨l, p, rfl, rfl⟩
  constructor
  · intro output
    obtain ⟨before, e, same, backs⟩ := found (.inl output)
    obtain ⟨before', p, rfl, rfl⟩ := slice same
    exact vouchedOutput_of_backs backs output
  · intro error
    obtain ⟨before, e, same, backs⟩ := found (.inr error)
    obtain ⟨before', p, rfl, rfl⟩ := slice same
    exact vouchedError_of_backs backs error

/-- **In every history each output and each error stands directly behind its result.** The engine
began with an empty store; any number of its runs may be in flight, some may have been dropped, and
any appends may have been refused. -/
theorem history_in_order {σ : Type} [MemoryStore σ] [LogStore σ] {e : Engine} {st : σ}
    (fresh : ∀ id, LogStore.entries id st = []) {s : Traffic σ}
    (reached : Traffic.Reaches e (Traffic.idle st) s) {id : RunId} {front back : List Slice}
    {x : Slice} {st' : σ}
    (listed : MemoryStore.history id s.store = (.ok (front ++ x :: back), st')) :
    (x.classification = .output → VouchedOutput front x) ∧
      (x.classification = .error → VouchedError front x) := by
  have empty : ∀ id, Backed (LogStore.entries id st) := by
    intro id
    rw [fresh id]
    exact backed_nil
  have kept := (Traffic.kept_idle e empty).reaches reached
  have backed : Backed ((front ++ x :: back).map Slice.entry) := by
    rw [LogStore.history_ok listed]
    exact kept.backed id
  exact vouched_of_backed backed

/-! ## Two histories

One step, which succeeds. The first output is plain; the second has metadata that is nested more
deeply than the reader goes. -/

def plainOutput : ToolOutput := ToolOutput.ofText "old"

def nestedOutput : ToolOutput := { output := "old", metadata := [("trail", nested 200)] }

/-- The result of the step with that output. -/
def found (o : ToolOutput) : StepResult := StepResult.success "find" o ⟨0⟩ ⟨0⟩

/-- Nobody interferes, and the tool has that output. -/
def calling (o : ToolOutput) : (q : RunQuestion) → Unit → RunAnswer q × Unit
  | .store (.append _), s => (.ok 0, s)
  | .store (.query _), s => (.ok [], s)
  | .store (.history _), s => (.ok [], s)
  | .time, s => (⟨0⟩, s)
  | .stopRequested, s => (false, s)
  | .approval .., s => (.approved, s)
  | .call .., s => (.ok o, s)

def findTrace (o : ToolOutput) : RunTrace :=
  noteRun.transcript (overStore ⟨0⟩ (calling o)) (({} : RunTable), ())

def findRecord (o : ToolOutput) : RunRecord :=
  (noteRun.answered (overStore ⟨0⟩ (calling o)) (({} : RunTable), ())).1

/-- The store when the run has come to its end. -/
def findStore (o : ToolOutput) : RunTable :=
  (noteRun.answered (overStore ⟨0⟩ (calling o)) (({} : RunTable), ())).2.1

/-- The engine when the run has come to its end. -/
def findTraffic (o : ToolOutput) : Traffic RunTable :=
  ⟨[("r1", [])], [⟨"r1", findTrace o, .done (findRecord o)⟩], findStore o⟩

/-- What stands in front of the output. -/
def findFront (o : ToolOutput) : List Slice :=
  (startSlices "r1" "note" []).map (Slice.ofNew 1 ⟨0⟩) ++
    [Slice.ofNew 2 ⟨0⟩ (resultSlice "r1" (found o))]

def findOutput (o : ToolOutput) : Slice := Slice.ofNew 3 ⟨0⟩ (outputSlice "r1" (found o) o)

theorem find_reached (o : ToolOutput) :
    Traffic.Reaches noteEngine (Traffic.idle ({} : RunTable)) (findTraffic o) := by
  have ran : Yields noteRun (findTrace o) (findRecord o) := yields_transcript _ noteRun _
  have served : Served {} (findTrace o) (findStore o) :=
    served_transcript ⟨0⟩ (calling o) noteRun (({} : RunTable), ())
  have clock : DatedClock (findTrace o) := by
    intro i hi
    obtain ⟨s, hs⟩ := answer_of_mem_transcript hi
    obtain rfl : i = ⟨0⟩ := hs
    exact dated_zero
  exact .head (.start start_note) (Traffic.reaches_run [] [] ran served clock)

theorem find_history (o : ToolOutput) : MemoryStore.history "r1" (findTraffic o).store =
    (.ok (findFront o ++ [findOutput o]), (findTraffic o).store) := rfl

/-- The general statement at the plain output. -/
theorem history_in_order_plain :
    (∀ id, LogStore.entries id ({} : RunTable) = []) ∧
      Traffic.Reaches noteEngine (Traffic.idle ({} : RunTable)) (findTraffic plainOutput) ∧
      MemoryStore.history "r1" (findTraffic plainOutput).store =
        (.ok (findFront plainOutput ++ [findOutput plainOutput]),
          (findTraffic plainOutput).store) ∧
      VouchedOutput (findFront plainOutput) (findOutput plainOutput) :=
  ⟨fun _ => rfl, find_reached plainOutput, find_history plainOutput,
    (history_in_order (fun _ => rfl) (find_reached plainOutput)
      (find_history plainOutput)).1 rfl⟩

theorem unreadable_nested : ¬ Readable (found nestedOutput) := by
  rintro ⟨x, hx⟩
  have metadata : Json.reread 126 (.obj nestedOutput.metadata) = none :=
    reread_obj_eq_none (k := "trail") (List.nodup_singleton _) rfl (reread_nested (by decide))
  have output : Json.reread 127 nestedOutput.encode = none :=
    reread_obj_eq_none nestedOutput.nodup_written nestedOutput.get?_metadata metadata
  have result : Json.reread 128 (found nestedOutput).encode = none :=
    reread_obj_eq_none (found nestedOutput).nodup_written (found nestedOutput).get?_output output
  rw [Json.parse?_compress, result] at hx
  cases hx

/-- **An output may stand behind a result that cannot be read.** The run has come to its end over a
store that works, its output is in the history, and the slice in front of it tells nothing. -/
theorem unread_output :
    (∀ id, LogStore.entries id ({} : RunTable) = []) ∧
      Traffic.Reaches noteEngine (Traffic.idle ({} : RunTable)) (findTraffic nestedOutput) ∧
      ∃ front x, (MemoryStore.history "r1" (findTraffic nestedOutput).store).1 =
          .ok (front ++ [x]) ∧ x.classification = .output ∧
        ∀ before p, front = before ++ [p] → recordedResult? p = none := by
  refine ⟨fun _ => rfl, find_reached nestedOutput, findFront nestedOutput, findOutput nestedOutput,
    congrArg Prod.fst (find_history nestedOutput), rfl, ?_⟩
  intro before p split
  obtain ⟨-, same⟩ := List.append_inj' split rfl
  obtain rfl := List.singleton_inj.mp same
  exact untold_of_unreadable unreadable_nested

end Runbook
