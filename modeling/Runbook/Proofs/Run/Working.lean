import Runbook.Proofs.Run.Served

/-!
# Runs over a working store

As long as the store works, what a run leaves there is determined by its record alone: its start,
and the slices of each result (`RunCourse.stored`). In particular it leaves an output under a name
exactly if it has a success of that name.

And a step whose outcome lets the run go on is followed by the next one (`Course.next`), in the
context of all results so far.
-/

set_option autoImplicit false

namespace Runbook

open Memory

/-! ## 1. Stores that work -/

/-- The store failed. -/
inductive RunExchange.Faulty : RunExchange → Prop where
  | append (s : NewSlice) (e : StoreError) : Faulty ⟨.store (.append s), .error e⟩
  | query (q : SliceQuery) (e : StoreError) : Faulty ⟨.store (.query q), .error e⟩
  | history (run : RunId) (e : StoreError) : Faulty ⟨.store (.history run), .error e⟩

/-- The store did not fail. -/
def RunTrace.Working (t : RunTrace) : Prop := ∀ x ∈ t, ¬ x.Faulty

theorem RunTrace.working_append {t u : RunTrace} : Working (t ++ u) ↔ Working t ∧ Working u :=
  List.forall_mem_append

/-- The store of one process always works. -/
theorem working_of_runTable {st st' : RunTable} {t : RunTrace} (h : Served st t st') :
    t.Working := by
  induction h with
  | nil => simp [RunTrace.Working]
  | store answered _ ih =>
    refine List.forall_mem_cons.mpr ⟨fun faulty => ?_, ih⟩
    cases faulty <;> exact absurd (congrArg Prod.fst answered) (by
      simp [reply, MemoryStore.append, MemoryStore.query, MemoryStore.history])
  | other other _ ih =>
    refine List.forall_mem_cons.mpr ⟨fun faulty => ?_, ih⟩
    cases faulty <;> exact other _ rfl

namespace Execution

open Dialogue RunDialogue RunTrace

theorem ok_of_appendAll {slices : List NewSlice} {t : RunTrace} {x : Except StoreError Unit}
    (h : Yields (ofStore (appendAll slices)) t x) (working : t.Working) :
    x = .ok () ∧ RunTrace.Appends slices t := by
  rcases yields_appendAll h with all | ⟨_, s, _, u, e, -, -, rfl, -⟩
  · exact all
  · exact absurd (.append s e) (working _ (by simp [RunExchange.refused]))

theorem stored_record {run : RunId} {r : StepResult} {t : RunTrace} {x : Except StoreError Unit}
    (h : Yields (record run r) t x) (working : t.Working) : stored t = stepSlices run r :=
  (ok_of_appendAll h working).2.stored

theorem stored_attempt {c : Config} {run : RunId} {ctx : RunContext} {step : Step} {t : RunTrace}
    {r : StepResult} {abort : Option AbortReason}
    (h : Yields (attempt c run ctx step) t (r, abort)) : stored t = [] :=
  stored_eq_nil fun x hx => ((yields_attempt h).own x hx).stored?_eq_none

/-! ## 2. What a run leaves in the store -/

theorem Skips.stored {run : RunId} {steps : List Step} {ss : List Stretch}
    (h : Skips run steps ss) (working : (Stretch.traces ss).Working) :
    RunTrace.stored (Stretch.traces ss) = (skippedResults steps).flatMap (stepSlices run) := by
  induction h with
  | nil => rfl
  | @cons step t _ rest ss tried _ ih =>
    obtain ⟨ht, hss⟩ := working_append.mp working
    rw [Stretch.traces_cons, List.nil_append, stored_append, stored_record tried ht, ih hss]
    rfl

theorem Course.stored {c : Config} {run : RunId} {ctx : RunContext} {steps : List Step}
    {ss : List Stretch} {rs : List StepResult} {abort : Option AbortReason}
    (h : Course c run ctx steps ss rs abort) (working : (Stretch.traces ss).Working) :
    RunTrace.stored (Stretch.traces ss) = rs.flatMap (stepSlices run) := by
  induction h with
  | ended => rfl
  | goesOn attempted recorded _ ih =>
    obtain ⟨ht, hss⟩ := working_append.mp working
    rw [Stretch.traces_cons, stored_append, stored_append, stored_attempt attempted,
      stored_record recorded (working_append.mp ht).2, ih hss]
    rfl
  | aborted attempted recorded skipped =>
    obtain ⟨ht, hss⟩ := working_append.mp working
    rw [Stretch.traces_cons, stored_append, stored_append, stored_attempt attempted,
      stored_record recorded (working_append.mp ht).2, skipped.stored hss]
    rfl
  | unrecorded attempted failed =>
    -- a store that works refuses no record
    rw [Stretch.traces_cons, working_append, working_append, working_append,
      working_append] at working
    obtain ⟨⟨-, ⟨hfailed, -⟩, -⟩, -⟩ := working
    exact absurd (ok_of_appendAll failed hfailed).1 (by simp)

theorem working_runTrace {t₀ t₁ : Instant} {start : RunTrace} {ss : List Stretch}
    (working : (runTrace t₀ t₁ start ss).Working) :
    start.Working ∧ (Stretch.traces ss).Working := by
  rw [runTrace, working_append, List.cons_append, ← List.singleton_append, working_append,
    working_append] at working
  exact working.1.2

/-- Over a working store, a run is started. -/
theorem RunCourse.course {c : Config} {w : Workflow} {run : RunId} {params : Fields Json}
    {start : RunTrace} {ss : List Stretch} {rs : List StepResult} {abort : Option AbortReason}
    (h : RunCourse c w run params start ss rs abort) (working : start.Working) :
    RunTrace.stored start = startSlices run w.name params ∧
      Course c run (openingContext c params) w.steps ss rs abort := by
  cases h with
  | unstarted failed => exact absurd (ok_of_appendAll failed working).1 (by simp)
  | started recorded course => exact ⟨(ok_of_appendAll recorded working).2.stored, course⟩

/-- **Over a working store, a run leaves its start and the slices of its results.** -/
theorem RunCourse.stored {c : Config} {w : Workflow} {run : RunId} {params : Fields Json}
    {start : RunTrace} {ss : List Stretch} {rs : List StepResult} {abort : Option AbortReason}
    (h : RunCourse c w run params start ss rs abort) {t₀ t₁ : Instant}
    (working : (runTrace t₀ t₁ start ss).Working) :
    RunTrace.stored (runTrace t₀ t₁ start ss) =
      startSlices run w.name params ++ rs.flatMap (stepSlices run) := by
  obtain ⟨hstart, hss⟩ := working_runTrace working
  obtain ⟨started, course⟩ := h.course hstart
  have times : ∀ t, RunTrace.stored [⟨.time, t⟩] = [] := fun _ => rfl
  rw [runTrace, stored_append, stored_append, ← List.singleton_append, stored_append, times, times,
    List.nil_append, List.append_nil, started, course.stored hss]

/-- An output of that name is among the entries. -/
def HasOutput (name : String) (entries : List Entry) : Prop :=
  ∃ e ∈ entries, e.step = name ∧ e.classification = .output

theorem hasOutput_append {name : String} {l l' : List Entry} :
    HasOutput name (l ++ l') ↔ HasOutput name l ∨ HasOutput name l' := by
  simp only [HasOutput, List.mem_append, or_and_right, exists_or]

theorem hasOutput_entriesOf {name : String} {run : RunId} {t : RunTrace} :
    HasOutput name (t.entriesOf run) ↔
      ∃ s ∈ RunTrace.stored t, s.run = run ∧ s.step = name ∧ s.classification = .output := by
  constructor
  · rintro ⟨e, he, step, output⟩
    obtain ⟨s, hs, hrun, rfl⟩ := mem_entriesOf.mp he
    exact ⟨s, hs, hrun, step, output⟩
  · rintro ⟨s, hs, hrun, step, output⟩
    exact ⟨s.entry, mem_entriesOf.mpr ⟨s, hs, hrun, rfl⟩, step, output⟩

theorem Tally.success_output {steps : List Step} {rs : List StepResult} (h : Tally steps rs)
    {r : StepResult} (hr : r ∈ rs) (success : r.status = .success) : ∃ o, r.output = some o := by
  induction h with
  | skipped steps => rw [skipped_of_mem hr] at success; cases success
  | carriedOut h _ ih =>
    rcases List.mem_cons.mp hr with rfl | hr
    · cases h with
      | success o => exact ⟨o, rfl⟩
      | failed => cases success
    · exact ih hr

/-- A run leaves outputs under its own id only, and one for each success. -/
theorem hasOutput_execute {c : Config} {w : Workflow} {run : RunId} {params : Fields Json}
    {t : RunTrace} {rec : RunRecord} (h : Yields (execute c w run params) t rec)
    (working : t.Working) (id : RunId) (name : String) :
    HasOutput name (t.entriesOf id) ↔
      run = id ∧ ∃ r ∈ rec.steps, r.step = name ∧ r.status = .success := by
  obtain ⟨t₀, t₁, start, ss, abort, rfl, course, -⟩ := yields_execute h
  rw [hasOutput_entriesOf, course.stored working]
  constructor
  · rintro ⟨s, hs, hrun, step, output⟩
    rcases List.mem_append.mp hs with hs | hs
    · rcases (mem_startSlices hs).2 with other | other <;> rw [output] at other <;> cases other
    · obtain ⟨r, hr, hs⟩ := List.mem_flatMap.mp hs
      obtain ⟨hrun', hstep, -⟩ := run_of_mem_stepSlices hs
      exact ⟨hrun'.symm.trans hrun, r, hr, hstep.symm.trans step, success_of_output hs output⟩
  · rintro ⟨rfl, r, hr, step, success⟩
    obtain ⟨o, ho⟩ := course.tally.success_output hr success
    refine ⟨outputSlice run r o, ?_, rfl, step, rfl⟩
    refine List.mem_append_right _ (List.mem_flatMap.mpr ⟨r, hr, ?_⟩)
    rw [stepSlices, detailSlice?, success, ho]
    exact List.mem_cons_of_mem _ (List.mem_singleton.mpr rfl)

/-! ## 3. The next step -/

/-- The step had its turn: it ran, unless the run had been told to stop. -/
def Turn.Taken (c : Config) (run : RunId) (ctx : RunContext) (q : Turn) : Prop :=
  q.work = [⟨.stopRequested, true⟩] ∨
    ∃ t e, q.work = ⟨.stopRequested, false⟩ :: t ∧ Yields (runStep c run ctx q.step) t e ∧
      q.result = (e.outcome q.step).1

/-- The first step of a course had its turn, and it decides whether the others have one. -/
theorem Course.head {c : Config} {run : RunId} {ctx : RunContext} {step : Step} {rest : List Step}
    {s : Stretch} {ss : List Stretch} {r : StepResult} {rs : List StepResult}
    {abort : Option AbortReason} (h : Course c run ctx (step :: rest) (s :: ss) (r :: rs) abort)
    (working : (Stretch.traces (s :: ss)).Working) :
    ∃ a, Yields (attempt c run ctx step) s.work (r, a) ∧
      ((a = none ∧ Course c run (ctx.record r) rest ss rs abort) ∨
        (a.isSome ∧ rs = skippedResults rest)) := by
  cases h with
  | goesOn attempted _ later => exact ⟨none, attempted, .inl ⟨rfl, later⟩⟩
  | aborted attempted _ _ _ => exact ⟨_, attempted, .inr ⟨rfl, rfl⟩⟩
  | unrecorded _ failed =>
    rw [Stretch.traces_cons, working_append, working_append, working_append,
      working_append] at working
    obtain ⟨⟨-, ⟨hfailed, -⟩, -⟩, -⟩ := working
    exact absurd (ok_of_appendAll failed hfailed).1 (by simp)

theorem taken_of_attempt {c : Config} {run : RunId} {ctx : RunContext} {q : Turn}
    {a : Option AbortReason} (h : Yields (attempt c run ctx q.step) q.work (q.result, a)) :
    q.Taken c run ctx := by
  rcases attempt_cases h with ⟨stopped, -⟩ | ⟨t, e, work, ran, result⟩
  · exact .inl stopped
  · exact .inr ⟨t, e, work, ran, congrArg Prod.fst result⟩

/-- **A step that lets the run go on is followed by the next one**, in the context of all results
so far. -/
theorem Course.next {c : Config} {run : RunId} {ctx : RunContext} {front back : List Turn}
    {p q : Turn} {abort : Option AbortReason}
    (h : Course c run ctx ((front ++ p :: q :: back).map (·.step))
      ((front ++ p :: q :: back).map (·.toStretch)) ((front ++ p :: q :: back).map (·.result))
      abort)
    (working : (Stretch.traces ((front ++ p :: q :: back).map (·.toStretch))).Working)
    (goesOn : p.LetsGoOn) :
    q.Taken c run (((front ++ [p]).map (·.result)).foldl RunContext.record ctx) := by
  induction front generalizing ctx with
  | nil =>
    obtain ⟨a, attempted, ⟨-, later⟩ | ⟨aborts, -⟩⟩ := h.head working
    · obtain ⟨a', attempted', -⟩ := later.head (working_append.mp working).2
      exact taken_of_attempt attempted'
    · rcases (yields_attempt attempted).result with ⟨-, ha⟩ | ⟨skipped, -⟩
      · rw [ha, goesOn.2] at aborts
        cases aborts
      · exact absurd (congrArg StepResult.status skipped) goesOn.1
  | cons a front ih =>
    obtain ⟨_, -, ⟨-, later⟩ | ⟨-, skipped⟩⟩ := h.head working
    · exact ih later (working_append.mp working).2
    · have hp : p.result ∈ skippedResults ((front ++ p :: q :: back).map (·.step)) :=
        skipped ▸ List.mem_map.mpr ⟨p, by simp, rfl⟩
      exact absurd (skipped_of_mem hp) goesOn.1

end Execution
end Runbook
