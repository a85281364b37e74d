import Runbook.Proofs.Engine.Succession
import Runbook.Proofs.Run.Fate

/-!
# Records that were torn

A store may fail at any append of a run. What the run returns and what is told of it later can then
differ: a success that could not be recorded in full is returned as a failure, but if its result
was stored and only its output refused, the store still tells a success, unless the failure gets
into the store as well.

`torn_records` says exactly when this happens, for a run under a fresh id. It is the same reason
for which a record that failed can leave something behind: the two slices of a record are appended
one after the other, and nothing takes the first one back.
-/

set_option autoImplicit false

namespace Runbook

open Dialogue RunDialogue Execution Memory RunTrace

/-! ## 1. What a failed record leaves behind -/

namespace Execution

/-- A record that failed was refused at its first slice, or has begun with it. -/
theorem record_failed {run : RunId} {r : StepResult} {t : RunTrace} {e : StoreError}
    (h : Yields (record run r) t (.error e)) :
    (∃ e', t = [.refused (resultSlice run r) e']) ∨
      ∃ i u, t = .appended (resultSlice run r) i :: u := by
  rcases yields_appendAll h with ⟨hok, -⟩ | ⟨front, s, back, u, e', split, hu, rfl, -⟩
  · cases hok
  · cases hu with
    | nil =>
      obtain ⟨rfl, -⟩ := List.cons.inj split
      exact .inl ⟨e', rfl⟩
    | cons a i hu =>
      obtain ⟨rfl, -⟩ := List.cons.inj split
      exact .inr ⟨i, _, rfl⟩

section

variable {σ : Type} [MemoryStore σ] [LogStore σ]

/-- **A failed record leaves nothing behind exactly if its first slice was refused.** -/
theorem leaves_nothing_iff {run : RunId} {r : StepResult} {t : RunTrace} {e : StoreError}
    {st st' : σ} (h : Yields (record run r) t (.error e)) (served : Served st t st') :
    (∀ id, LogStore.entries id st' = LogStore.entries id st) ↔
      ∃ e', t = [.refused (resultSlice run r) e'] := by
  have proper : t.Proper := by
    intro s hs
    obtain ⟨id, hx⟩ := mem_stored hs
    cases recordOf_record h _ hx with
    | append step slice => exact (run_of_mem_stepSlices slice).2.2
  constructor
  · intro unchanged
    rcases record_failed h with refused | ⟨i, u, rfl⟩
    · exact refused
    · -- the slice is in the log now, under the id of the run
      have grown := congrArg List.length ((unchanged run).symm.trans (served.entries_eq proper run))
      rw [entriesOf_cons_stored (RunExchange.stored?_appended _ i),
        if_pos (show (resultSlice run r).run = run from rfl)] at grown
      simp at grown
  · rintro ⟨e', rfl⟩ id
    rw [served.entries_eq proper id, entriesOf_cons_none rfl]
    simp

/-! ## 2. What is told of a run -/

/-- A history that was asked for does not change the log. -/
theorem Served.history (run : RunId) {of : RunId} {x : StoreAnswer (.history of)} {t : RunTrace}
    {st st' : σ} (h : Served st (⟨.store (.history of), x⟩ :: t) st') :
    ∃ m, MemoryStore.history of st = (x, m) ∧ Served m t st' ∧
      LogStore.entries run m = LogStore.entries run st := by
  cases h with
  | @store _ _ _ _ m _ _ answered later =>
    refine ⟨m, answered, later, ?_⟩
    obtain rfl : (MemoryStore.history of st).2 = m := congrArg Prod.snd answered
    exact LogStore.history_keeps of st run
  | other other => exact absurd rfl (other _)

/-- An inspection lists what the entries of the run tell. -/
theorem steps_of_inspect {run : RunId} {t : RunTrace} {i : Engine.Inspection} {st st' : σ}
    (h : Yields (ofStore (Engine.inspect run)) t (.ok i)) (served : Served st t st') :
    ∃ history, i.steps = stepResults history ∧
      history.map Slice.entry = LogStore.entries run st := by
  obtain ⟨_, rfl, asked⟩ := yields_ofStore_iff.mp h
  obtain ⟨x, u, rfl, hu⟩ := yields_question_do_iff.mp asked
  obtain ⟨m, -, later, kept⟩ := Served.history run served
  split at hu
  · cases (yields_pure_iff.mp hu).2
  · cases (yields_pure_iff.mp hu).2
  · obtain ⟨again, v, rfl, hv⟩ := yields_question_do_iff.mp hu
    obtain ⟨m', answered, -, -⟩ := Served.history run later
    cases again with
    | error e => cases (yields_pure_iff.mp hv).2
    | ok again =>
      obtain ⟨-, hi⟩ := yields_pure_iff.mp hv
      cases hi
      exact ⟨again, rfl, (LogStore.history_ok answered).trans kept⟩

/-- A step is listed as a success exactly if a success is the last that is told of it. -/
theorem listed_iff {run : RunId} {name : String} {t u : RunTrace} {i : Engine.Inspection}
    {st st' st'' : σ} (served : Served st t st') (proper : t.Proper)
    (fresh : LogStore.entries run st = [])
    (inspected : Yields (ofStore (Engine.inspect run)) u (.ok i)) (answered : Served st' u st'') :
    (∃ x ∈ i.steps, x.step = name ∧ x.status = .success) ↔ ToldSuccess run name t := by
  obtain ⟨history, steps, listed⟩ := steps_of_inspect inspected answered
  -- the id is fresh, so all that is told of it is from this run
  have told : ∀ x, x ∈ i.steps ↔ (readingsOf run x.step t).getLast? = some x := by
    intro x
    rw [steps, mem_stepResults_iff, listed, served.entries_eq proper, fresh, List.nil_append]
    rfl
  constructor
  · rintro ⟨x, hx, rfl, success⟩
    exact ⟨x, (told x).mp hx, success⟩
  · rintro ⟨x, last, success⟩
    have hx : x.step = name := by
      have := (List.mem_filter.mp (List.mem_of_getLast? last)).2
      simpa using this
    exact ⟨x, (told x).mpr (hx ▸ last), hx, success⟩

end

end Execution

/-! ## 3. Runs under a fresh id -/

/-- **A step that failed is told as a success exactly if its record was left torn.** The run was
started by an engine, under an id without entries, over a store that may have failed at any time;
`i` is what an inspection says of it afterwards. And whatever is recorded at whatever time, a
record that failed leaves nothing behind exactly if its first slice was refused. -/
theorem torn_records {σ : Type} [MemoryStore σ] [LogStore σ] {c : Config} {registry : Registry}
    {ws : List Workflow} {e : Engine} (made : Engine.make c registry ws = .ok e)
    {active active' : ActiveRuns} {name : String} {run : RunId} {provided : Fields Json}
    {signal : Schedule.Signal} {d : RunDialogue RunRecord}
    (started : e.start active name run provided signal = .ok (d, active')) {t u : RunTrace}
    {rec : RunRecord} {i : Engine.Inspection} {st st' st'' : σ} (ran : Yields d t rec)
    (served : Served st t st') (fresh : LogStore.entries run st = []) (clock : DatedClock t)
    (inspected : Yields (ofStore (Engine.inspect run)) u (.ok i)) (answered : Served st' u st'') :
    (∀ kept ∈ rec.steps, kept.status = .failed →
      ((∃ x ∈ i.steps, x.step = kept.step ∧ x.status = .success) ↔ LeftTorn run kept t)) ∧
    ∀ (r : StepResult) (records : RunTrace) (error : StoreError) (m m' : σ),
      Yields (record run r) records (.error error) → Served m records m' →
      ((∀ id, LogStore.entries id m' = LogStore.entries id m) ↔
        ∃ e', records = [.refused (resultSlice run r) e']) := by
  refine ⟨?_, fun _ _ _ _ _ failed => leaves_nothing_iff failed⟩
  obtain ⟨w, params, hw, -, -, -, rfl, -⟩ := Engine.start_ok started
  have names := Workflow.nodup_of_check (Engine.check_of_make made w hw)
  have proper := (inOrder_of_yields ran).proper
  obtain ⟨t₀, t₁, start, ss, abort, rfl, course, -⟩ := yields_execute ran
  obtain ⟨ps, turns⟩ := course.turns
  have hstart := course.startOf_timed t₀
  have hfinish : ∀ x ∈ ([⟨.time, t₁⟩] : RunTrace), x.question = .time := by simp
  intro kept hkept failed
  rw [← turns.results_eq] at hkept
  obtain ⟨p, hp, rfl⟩ := List.mem_map.mp hkept
  have named := (turns.own p hp).named
  have inside : ∀ x ∈ p.trace, x ∈ runTrace t₀ t₁ start ss := by
    intro x hx
    simp [runTrace, turns.mem_traces_of_mem hp hx]
  -- from the listing to the log, to the turn of the step, to its fate, and back to the run
  calc (∃ x ∈ i.steps, x.step = p.result.step ∧ x.status = .success)
      ↔ ToldSuccess run p.result.step (runTrace t₀ t₁ start ss) :=
        listed_iff served proper fresh inspected answered
    _ ↔ ToldSuccess run p.result.step p.records := by
        rw [ToldSuccess, named, runTrace, turns.readingsOf_eq names hstart hfinish hp, ToldSuccess]
    _ ↔ LeftTorn run p.result p.records :=
        (turns.fate course.fates p hp).toldSuccess_iff failed fun i hi => clock i (inside _ hi)
    _ ↔ LeftTorn run p.result (runTrace t₀ t₁ start ss) :=
        (turns.leftTorn_iff names hstart hfinish hp).symm

/-! ## 4. A record that was torn

One step, and a store that refuses the third append of the run and the fourth: the output of the
success, and the failure that the success is turned into. -/

def noteWorkflow : Workflow where
  name := "note"
  description := none
  params := []
  steps := [{ name := "find", tool := some "lookup" }]

def noteEngine : Engine :=
  { config := {}, registry := lookupRegistry, workflows := [noteWorkflow] }

def noteRun : RunDialogue RunRecord := execute {} noteWorkflow "r1" []

def noteStore : Rehearsal.FaultyStore RunTable × Nat :=
  ({ store := {}, writeFaults := { numbers := [3, 4] } }, 0)

def noteTrace : RunTrace := noteRun.transcript (overStore ⟨0⟩ thirdCallFails) noteStore

def noteRecord : RunRecord := (noteRun.answered (overStore ⟨0⟩ thirdCallFails) noteStore).1

/-- The store when the run has been started, before its step. -/
def startedStore : Rehearsal.FaultyStore RunTable × Nat :=
  ((ofStore (startRun "r1" "note" [])).answered (overStore ⟨0⟩ thirdCallFails) noteStore).2

/-- The store after the run. -/
def notedStore : Rehearsal.FaultyStore RunTable × Nat :=
  (noteRun.answered (overStore ⟨0⟩ thirdCallFails) noteStore).2

def noteSuccess : StepResult := StepResult.success "find" (ToolOutput.ofText "old") ⟨0⟩ ⟨0⟩

/-- What the run has left: its start, and the result that became a failure. -/
def noteHistory : List Slice :=
  (startSlices "r1" "note" []).map (Slice.ofNew 1 ⟨0⟩) ++
    [Slice.ofNew 2 ⟨0⟩ (resultSlice "r1" noteSuccess)]

def noteInspection : Engine.Inspection := ⟨"r1", stepResults noteHistory, noteHistory⟩

/-- What is exchanged when the run is inspected. -/
def inspectionTrace : RunTrace :=
  (ofStore (Engine.inspect "r1")).transcript (overStore ⟨0⟩ thirdCallFails) notedStore

theorem make_noteEngine : Engine.make {} lookupRegistry [noteWorkflow] = .ok noteEngine := by
  rw [Engine.make, names_lookupRegistry]
  rfl

theorem start_note : noteEngine.start [] "note" "r1" [] [] = .ok (noteRun, [("r1", [])]) := rfl

theorem note_ran : Yields noteRun noteTrace noteRecord := yields_transcript _ noteRun noteStore

theorem note_served : Served noteStore.1 noteTrace notedStore.1 :=
  served_transcript ⟨0⟩ thirdCallFails noteRun noteStore

theorem note_fresh : LogStore.entries "r1" noteStore.1 = [] := rfl

theorem dated_zero : (⟨0⟩ : Instant).Dated := rfl

theorem note_clock : DatedClock noteTrace := by
  intro i hi
  obtain ⟨s, hs⟩ := answer_of_mem_transcript hi
  obtain rfl : i = ⟨0⟩ := hs
  exact dated_zero

theorem note_inspected :
    Yields (ofStore (Engine.inspect "r1")) inspectionTrace (.ok noteInspection) := by
  have answered : ((ofStore (Engine.inspect "r1")).answered (overStore ⟨0⟩ thirdCallFails)
      notedStore).1 = .ok noteInspection := rfl
  rw [← answered]
  exact yields_transcript _ _ notedStore

/-- The general statement at this run. -/
theorem torn_records_note :
    Engine.make {} lookupRegistry [noteWorkflow] = .ok noteEngine ∧
      noteEngine.start [] "note" "r1" [] [] = .ok (noteRun, [("r1", [])]) ∧
      Yields noteRun noteTrace noteRecord ∧ Served noteStore.1 noteTrace notedStore.1 ∧
      LogStore.entries "r1" noteStore.1 = [] ∧ DatedClock noteTrace ∧
      Yields (ofStore (Engine.inspect "r1")) inspectionTrace (.ok noteInspection) ∧
      (∃ st, Served notedStore.1 inspectionTrace st) ∧
      (∀ kept ∈ noteRecord.steps, kept.status = .failed →
        ((∃ x ∈ noteInspection.steps, x.step = kept.step ∧ x.status = .success) ↔
          LeftTorn "r1" kept noteTrace)) ∧
      ∀ (r : StepResult) (records : RunTrace) (error : StoreError)
        (m m' : Rehearsal.FaultyStore RunTable),
        Yields (record "r1" r) records (.error error) → Served m records m' →
        ((∀ id, LogStore.entries id m' = LogStore.entries id m) ↔
          ∃ e', records = [.refused (resultSlice "r1" r) e']) := by
  have answered := served_transcript ⟨0⟩ thirdCallFails (ofStore (Engine.inspect "r1")) notedStore
  exact ⟨make_noteEngine, start_note, note_ran, note_served, note_fresh, note_clock,
    note_inspected, ⟨_, answered⟩, torn_records make_noteEngine start_note note_ran note_served
      note_fresh note_clock note_inspected answered⟩

theorem decode_noteSuccess : StepResult.decode noteSuccess.encode = .ok noteSuccess := by
  have times := StepResult.decode_text dated_zero
  simp [noteSuccess, StepResult.encode, StepResult.success, StepResult.decode, Encode.optional,
    Decode.record, Decode.checkFields, StepResult.knownFields, Decode.field, Decode.spare,
    Decode.required, Decode.optional, Decode.withDefault, Decode.option, Bind.bind, Except.bind,
    pure, Except.pure, Decode.text, times, Except.map]
  rfl

theorem stepResults_noteHistory : stepResults noteHistory = [noteSuccess] := by
  have whole : Json.reread 128 noteSuccess.encode = some noteSuccess.encode := rfl
  have told : (resultSlice "r1" noteSuccess).entry.result? = some noteSuccess := by
    rw [result?_resultSlice, Json.parse?_compress, whole, Option.map_some, decode_noteSuccess]
  have entries : noteHistory.map Slice.entry =
      [⟨"__run__", .parameters, "\x7b\x7d"⟩, (resultSlice "r1" noteSuccess).entry] := rfl
  have unread : (⟨"__run__", .parameters, "\x7b\x7d"⟩ : Entry).result? = none := rfl
  rw [stepResults, filterMap_recordedResult?, entries, readings, List.filterMap_cons_none unread,
    List.filterMap_cons_some told]
  rfl

/-- **A step that failed is told as a success.** The run returns the step as one whose record could
not be written, an inspection lists it as a success, and the record that failed has left its first
slice in the store. -/
theorem torn_record_told :
    Engine.make {} lookupRegistry [noteWorkflow] = .ok noteEngine ∧
      noteEngine.start [] "note" "r1" [] [] = .ok (noteRun, [("r1", [])]) ∧
      Yields noteRun noteTrace noteRecord ∧ Served noteStore.1 noteTrace notedStore.1 ∧
      LogStore.entries "r1" noteStore.1 = [] ∧
      noteRecord.steps.map (fun r => (r.step, r.status, r.error.map (·.kind))) =
        [("find", .failed, some .storeWrite)] ∧
      Yields (ofStore (Engine.inspect "r1")) inspectionTrace (.ok noteInspection) ∧
      (∃ st, Served notedStore.1 inspectionTrace st) ∧
      noteInspection.steps.map (fun r => (r.step, r.status)) = [("find", .success)] ∧
      ∃ records m', Yields (record "r1" noteSuccess) records (.error (.write "disk full")) ∧
        Served startedStore.1 records m' ∧
        LogStore.entries "r1" m' =
          LogStore.entries "r1" startedStore.1 ++ [(resultSlice "r1" noteSuccess).entry] := by
  have answered := served_transcript ⟨0⟩ thirdCallFails (ofStore (Engine.inspect "r1")) notedStore
  have recorded := served_transcript ⟨0⟩ thirdCallFails (record "r1" noteSuccess) startedStore
  have steps : noteInspection.steps = [noteSuccess] := stepResults_noteHistory
  refine ⟨make_noteEngine, start_note, note_ran, note_served, note_fresh, rfl, note_inspected,
    ⟨_, answered⟩, ?_, _, _, ?_, recorded, rfl⟩
  · rw [steps]
    rfl
  · exact yields_transcript _ (record "r1" noteSuccess) startedStore

end Runbook
