import Runbook.Proofs.Engine.SingleRefusal
import Runbook.Proofs.Engine.TornRecords
import Runbook.Proofs.Run.Served

/-!
# What an inspection shows

A run is told twice: in the record that it returns, and in the log of its store, which an inspection
reads back. If the store works, and texts and times are read back as they were written, the two
agree in every field; and the log has a fixed layout, in which each result says what follows it.

Nothing is assumed of the outcome: the layout is the same for runs that completed and for runs that
were aborted.
-/

set_option autoImplicit false

namespace Runbook

open Dialogue RunDialogue Execution Memory RunTrace

/-! ## 1. The layout of a log -/

/-- The entries with which a run starts: the prompt, if there is one, and the parameters. -/
def startEntries (params : Fields Json) : List Entry :=
  ((Fields.get? userPromptParam params).map fun p =>
      ⟨initialPromptStep, .userPrompt, p.display⟩).toList ++
    [⟨runStartStep, .parameters, (Json.obj params).compress⟩]

/-- The entries of one step: its result, and then what its status asks for. -/
inductive StepEntries : StepResult → List Entry → Prop where
  | success {r : StepResult} {text : String} (status : r.status = .success)
      (output : r.outputText? = some text) :
      StepEntries r [⟨r.step, .stepResult, r.encode.compress⟩, ⟨r.step, .output, text⟩]
  | failed {r : StepResult} {f : Failure} (status : r.status = .failed) (error : r.error = some f) :
      StepEntries r [⟨r.step, .stepResult, r.encode.compress⟩, ⟨r.step, .error, f.message⟩]
  | skipped {r : StepResult} (status : r.status = .skipped) :
      StepEntries r [⟨r.step, .stepResult, r.encode.compress⟩]

/-- The log of a run: its start, and the entries of each step in turn. -/
def Layout (params : Fields Json) (rs : List StepResult) (log : List Entry) : Prop :=
  ∃ blocks, List.Forall₂ StepEntries rs blocks ∧ log = startEntries params ++ blocks.flatten

theorem entry_startSlices (run : RunId) (workflow : String) (params : Fields Json) :
    (startSlices run workflow params).map NewSlice.entry = startEntries params := by
  rw [startSlices, startEntries, List.map_append]
  cases Fields.get? userPromptParam params <;> rfl

/-- The result of a step has what its status promises. -/
def StepResult.Whole (r : StepResult) : Prop :=
  CarriedOut r.step r ∨ r = StepResult.skipped r.step

theorem StepResult.Whole.entries {run : RunId} {r : StepResult} (h : r.Whole) :
    StepEntries r ((stepSlices run r).map NewSlice.entry) := by
  rcases h with carriedOut | skipped
  · generalize r.step = name at carriedOut
    cases carriedOut with
    | success o t₀ t₁ => exact .success rfl rfl
    | failed f t₀ t₁ => exact .failed rfl rfl
  · generalize r.step = name at skipped
    subst skipped
    exact .skipped rfl

theorem Execution.Tally.whole {steps : List Step} {rs : List StepResult} (h : Tally steps rs) :
    ∀ r ∈ rs, r.Whole := by
  induction h with
  | skipped steps =>
    intro r hr
    obtain ⟨s, -, rfl⟩ := List.mem_map.mp hr
    exact .inr rfl
  | carriedOut h _ ih =>
    refine List.forall_mem_cons.mpr ⟨?_, ih⟩
    rw [StepResult.Whole, h.step_eq]
    exact .inl h

theorem layout_of_slices {run : RunId} {workflow : String} {params : Fields Json}
    {rs : List StepResult} (whole : ∀ r ∈ rs, r.Whole) :
    Layout params rs
      ((startSlices run workflow params ++ rs.flatMap (stepSlices run)).map NewSlice.entry) := by
  refine ⟨rs.map fun r => (stepSlices run r).map NewSlice.entry, ?_, ?_⟩
  · rw [List.forall₂_map_right_iff]
    exact List.forall₂_same.mpr fun r hr => (whole r hr).entries
  · rw [List.map_append, entry_startSlices, List.map_flatMap, List.flatMap_def]

/-! ## 2. Reading it back -/

/-- A result that is not a success has nothing in it that could be lost. -/
theorem StepResult.Whole.lossless {r : StepResult} (h : r.Whole) (other : r.status ≠ .success) :
    r.encode.Lossless := by
  rw [Json.lossless_iff]
  rcases h with carriedOut | skipped
  · generalize r.step = name at carriedOut
    cases carriedOut with
    | success o t₀ t₁ => exact absurd rfl other
    | failed f t₀ t₁ => exact StepResult.reread_failed name f t₀ t₁
  · generalize r.step = name at skipped
    subst skipped
    rfl

theorem readings_startEntries (params : Fields Json) : readings (startEntries params) = [] := by
  rw [startEntries]
  cases Fields.get? userPromptParam params <;> rfl

/-- Of the entries of a step, the first tells its result. -/
theorem readings_stepSlices (run : RunId) {r : StepResult} (text : r.encode.Lossless)
    (clocked : r.Clocked) : readings ((stepSlices run r).map NewSlice.entry) = [r] := by
  have told : (resultSlice run r).entry.result? = some r :=
    result?_resultSlice.mpr (StepResult.parse?_encode text clocked)
  have silent : readings ((detailSlice? run r).toList.map NewSlice.entry) = [] := by
    refine List.filterMap_eq_nil_iff.mpr fun e he => ?_
    obtain ⟨s, hs, rfl⟩ := List.mem_map.mp he
    have detail := Option.mem_toList.mp hs
    unfold detailSlice? at detail
    split at detail
    · obtain ⟨o, -, rfl⟩ := Option.map_eq_some_iff.mp detail
      rfl
    · obtain ⟨f, -, rfl⟩ := Option.map_eq_some_iff.mp detail
      rfl
    · cases detail
  rw [stepSlices, List.map_cons, readings, List.filterMap_cons_some told]
  exact congrArg (r :: ·) silent

theorem readings_flatMap (run : RunId) {rs : List StepResult}
    (texts : ∀ r ∈ rs, r.encode.Lossless) (clocked : ∀ r ∈ rs, r.Clocked) :
    readings ((rs.flatMap (stepSlices run)).map NewSlice.entry) = rs := by
  induction rs with
  | nil => rfl
  | cons r rs ih =>
    rw [List.forall_mem_cons] at texts clocked
    have first := readings_stepSlices run texts.1 clocked.1
    have later := ih texts.2 clocked.2
    rw [readings] at first later ⊢
    rw [List.flatMap_cons, List.map_append, List.filterMap_append, first, later]
    rfl

/-- Results of different steps are listed as they are told. -/
theorem foldl_putResult_distinct {rs : List StepResult} (names : (rs.map (·.step)).Nodup) :
    rs.foldl (fun acc r => putResult r acc) [] = rs := by
  have single : ∀ r ∈ rs, ∀ y ∈ [r], y.step = r.step := by simp
  have empty : ∀ r ∈ rs, ∀ y ∈ ([] : List StepResult), y.step ≠ r.step := by simp
  simpa using foldl_putResult_blocks (fun r : StepResult => r.step) single names empty

section

variable {σ : Type} [MemoryStore σ] [LogStore σ]

/-- A history that a working store answers lists the log of the run, and leaves it as it is. -/
theorem Shared.listed {run : RunId} {st st' : σ} {x : StoreAnswer (.history run)} {t : RunTrace}
    (h : Shared run st (⟨.store (.history run), x⟩ :: t) st')
    (working : ¬ RunExchange.Faulty ⟨.store (.history run), x⟩) :
    ∃ slices m, x = .ok slices ∧ slices.map Slice.entry = LogStore.entries run st ∧
      LogStore.entries run m = LogStore.entries run st ∧ Shared run m t st' := by
  obtain ⟨now, m, m', same, answered, later⟩ := h.answered
  cases x with
  | error e => exact absurd (.history run e) working
  | ok slices =>
    have kept : LogStore.entries run m' = LogStore.entries run m := by
      obtain rfl : (MemoryStore.history run m).2 = m' := congrArg Prod.snd answered
      exact LogStore.history_keeps run m run
    exact ⟨slices, m', rfl, (LogStore.history_ok answered).trans same, kept.trans same, later⟩

/-- **An inspection succeeds if there is anything to see**, and shows the log. -/
theorem inspect_shows {run : RunId} {t : RunTrace} {x : Except EngineError Engine.Inspection}
    {st st' : σ} (h : Yields (ofStore (Engine.inspect run)) t x) (shared : Shared run st t st')
    (working : t.Working) (known : LogStore.entries run st ≠ []) :
    ∃ i history, x = .ok i ∧ i.run = run ∧ i.slices.map Slice.entry = LogStore.entries run st ∧
      i.steps = stepResults history ∧ history.map Slice.entry = LogStore.entries run st := by
  obtain ⟨_, rfl, asked⟩ := yields_ofStore_iff.mp h
  obtain ⟨first, u, rfl, hu⟩ := yields_question_do_iff.mp asked
  obtain ⟨slices, m, rfl, shown, same, later⟩ := shared.listed (working _ (by simp))
  cases slices with
  | nil => exact absurd shown.symm known
  | cons s rest =>
    obtain ⟨second, v, rfl, hv⟩ := yields_question_do_iff.mp hu
    obtain ⟨history, m', rfl, told, -, -⟩ := later.listed (working _ (by simp))
    obtain ⟨-, rfl⟩ := yields_pure_iff.mp hv
    exact ⟨_, history, rfl, rfl, shown, rfl, told.trans same⟩

end

/-! ## 3. The run and its log -/

/-- What a run leaves in its own log is all that it stores. -/
theorem entriesOf_own {run : RunId} {t : RunTrace} (own : ∀ s ∈ stored t, s.run = run) :
    t.entriesOf run = (stored t).map NewSlice.entry := by
  rw [entriesOf, List.filter_eq_self.mpr fun s hs => beq_iff_eq.mpr (own s hs)]

/-- What a run has stored is all under its id. -/
theorem own_of_mem_slices {run : RunId} {workflow : String} {params : Fields Json}
    {rs : List StepResult} {s : NewSlice}
    (hs : s ∈ startSlices run workflow params ++ rs.flatMap (stepSlices run)) :
    s.run = run ∧ s.classification.Proper := by
  rcases List.mem_append.mp hs with hs | hs
  · obtain ⟨here, h | h⟩ := mem_startSlices hs <;>
      exact ⟨here, by rw [Classification.Proper, h]; rfl⟩
  · obtain ⟨r, -, hs⟩ := List.mem_flatMap.mp hs
    exact ⟨(run_of_mem_stepSlices hs).1, (run_of_mem_stepSlices hs).2.2⟩

/-- **An inspection shows the run as it was returned.** The run was started by an engine, under an
id without entries, over a store that others used at the same time. As long as the store works, and
the texts of the successes and all times are read back as they were written, the inspection
succeeds, lists the results of the run in every field, and shows the log in its layout. -/
theorem inspect_shows_run {σ : Type} [MemoryStore σ] [LogStore σ] {c : Config}
    {registry : Registry} {ws : List Workflow} {e : Engine}
    (made : Engine.make c registry ws = .ok e) {active active' : ActiveRuns} {name : String}
    {run : RunId} {provided : Fields Json} {signal : Schedule.Signal} {d : RunDialogue RunRecord}
    (started : e.start active name run provided signal = .ok (d, active')) {t u : RunTrace}
    {rec : RunRecord} {x : Except EngineError Engine.Inspection} {st st' st'' : σ}
    (ran : Yields d t rec) (shared : Shared run st t st') (fresh : LogStore.entries run st = [])
    (works : t.Working) (inspected : Yields (ofStore (Engine.inspect run)) u x)
    (answered : Shared run st' u st'') (answers : u.Working)
    (texts : ∀ r ∈ rec.steps, r.status = .success → r.encode.Lossless)
    (clocked : ∀ r ∈ rec.steps, r.Clocked) :
    ∃ w ∈ e.workflows, w.name = name ∧ rec.steps.map (·.step) = w.stepNames ∧
      ∃ i, x = .ok i ∧ i.run = run ∧ i.steps = rec.steps ∧
        Layout rec.params rec.steps (i.slices.map Slice.entry) := by
  obtain ⟨w, params, hw, named, -, -, rfl, -⟩ := Engine.start_ok started
  have distinct := Workflow.nodup_of_check (Engine.check_of_make made w hw)
  have order := inOrder_of_yields ran
  obtain ⟨t₀, t₁, start, ss, abort, rfl, course, hrec⟩ := yields_execute ran
  have names : rec.steps.map (·.step) = w.stepNames := course.tally.names
  have whole := course.tally.whole
  have params_eq : rec.params = params := by rw [hrec]
  -- the log of the run is what the run has stored
  have left := course.stored works
  have own : ∀ s ∈ stored (runTrace t₀ t₁ start ss), s.run = run := by
    rw [left]
    exact fun s hs => (own_of_mem_slices hs).1
  have log : LogStore.entries run st' =
      (startSlices run w.name params ++ rec.steps.flatMap (stepSlices run)).map NewSlice.entry := by
    rw [shared.entries_eq order.proper, fresh, List.nil_append, entriesOf_own own, left]
  have known : LogStore.entries run st' ≠ [] := by
    rw [log, List.map_append, entry_startSlices, startEntries]
    simp
  obtain ⟨i, history, rfl, hrun, slices, steps, told⟩ := inspect_shows inspected answered answers
    known
  refine ⟨w, hw, named, names, i, rfl, hrun, ?_, ?_⟩
  · have lossless : ∀ r ∈ rec.steps, r.encode.Lossless := by
      intro r hr
      by_cases success : r.status = .success
      · exact texts r hr success
      · exact (whole r hr).lossless success
    have read : readings (LogStore.entries run st') = rec.steps := by
      have later := readings_flatMap run lossless clocked
      rw [readings] at later ⊢
      rw [log, List.map_append, List.filterMap_append, later, entry_startSlices]
      exact congrArg (· ++ rec.steps) (readings_startEntries params)
    rw [steps, stepResults, filterMap_recordedResult?, told, read]
    exact foldl_putResult_distinct (names ▸ distinct)
  · rw [slices, log, params_eq]
    exact layout_of_slices whole

/-! ### A run that was aborted, and its inspection

The first of three steps succeeds, the second one fails and aborts the run. -/

def chainEngine : Engine :=
  { config := {}, registry := lookupRegistry, workflows := [chainWorkflow] }

/-- The store of one process, and one call made before. -/
def cutStore : RunTable × Nat := ({}, 1)

def cutTrace : RunTrace := chainRun.transcript (overStore ⟨0⟩ thirdCallFails) cutStore

def cutRecord : RunRecord := (chainRun.answered (overStore ⟨0⟩ thirdCallFails) cutStore).1

/-- The store after the run. -/
def storeOfCut : RunTable × Nat := (chainRun.answered (overStore ⟨0⟩ thirdCallFails) cutStore).2

theorem make_chainEngine : Engine.make {} lookupRegistry [chainWorkflow] = .ok chainEngine := by
  rw [Engine.make, names_lookupRegistry]
  rfl

theorem cut_steps : cutRecord.steps =
    [StepResult.success "find" (ToolOutput.ofText "old") ⟨0⟩ ⟨0⟩,
      StepResult.failed "show" ⟨.toolExecution, "not found"⟩ ⟨0⟩ ⟨0⟩,
      StepResult.skipped "send"] := rfl

/-- The general statement at this run. -/
theorem inspect_shows_run_cut :
    Engine.make {} lookupRegistry [chainWorkflow] = .ok chainEngine ∧
      chainEngine.start [] "chain" "r1" [] [] = .ok (chainRun, [("r1", [])]) ∧
      cutRecord.abort = some (.stepFailed "show" .toolExecution "not found") ∧
      ∃ i : Engine.Inspection, i.run = "r1" ∧ i.steps = cutRecord.steps ∧
        Layout cutRecord.params cutRecord.steps (i.slices.map Slice.entry) := by
  have started : chainEngine.start [] "chain" "r1" [] [] = .ok (chainRun, [("r1", [])]) := rfl
  have ran : Yields chainRun cutTrace cutRecord := yields_transcript _ chainRun cutStore
  have served : Served cutStore.1 cutTrace storeOfCut.1 :=
    served_transcript ⟨0⟩ thirdCallFails chainRun cutStore
  have inspected := yields_transcript (overStore ⟨0⟩ thirdCallFails)
    (ofStore (Engine.inspect "r1")) storeOfCut
  have answered := served_transcript ⟨0⟩ thirdCallFails (ofStore (Engine.inspect "r1")) storeOfCut
  have texts : ∀ r ∈ cutRecord.steps, r.status = .success → r.encode.Lossless := by
    rw [cut_steps]
    intro r hr success
    simp only [List.mem_cons, List.not_mem_nil, or_false] at hr
    rcases hr with rfl | rfl | rfl
    · exact Json.lossless_iff.mpr rfl
    · cases success
    · cases success
  have clocked : ∀ r ∈ cutRecord.steps, r.Clocked := by
    rw [cut_steps]
    intro r hr
    refine StepResult.clocked_of_dated fun t ht => ?_
    simp only [List.mem_cons, List.not_mem_nil, or_false] at hr
    rcases hr with rfl | rfl | rfl <;> rcases ht with ht | ht <;> cases ht <;> exact dated_zero
  obtain ⟨w, -, -, -, i, -, hrun, steps, layout⟩ := inspect_shows_run make_chainEngine started ran
    served.shared rfl (working_of_runTable served) inspected answered.shared
    (working_of_runTable answered) texts clocked
  exact ⟨make_chainEngine, started, rfl, i, hrun, steps, layout⟩

end Runbook
