import Runbook.Proofs.Run.StepCourse

/-!
# The course of a run

The exchanges of a run fall into stretches, one for each step of its workflow and in their order.
A stretch has the work of its step in front and the recording of its result behind; a step that is
never reached has no work.

`Course` says how the stretches follow one another, with one rule for each way in which a step can
leave the run: it goes on, it is aborted, or a record could not be written. `yields_execute` says
that every run starts with its parameters and then takes such a course, or is not started at all.
What is proved of runs is proved by induction on it.
-/

set_option autoImplicit false

namespace Runbook
namespace Execution

open Dialogue RunDialogue

/-- What was exchanged for one step: up to its result, and to record it. -/
structure Stretch where
  work : RunTrace := []
  records : RunTrace := []

namespace Stretch

def trace (s : Stretch) : RunTrace := s.work ++ s.records

/-- The exchanges of stretches that follow one another. -/
def traces (ss : List Stretch) : RunTrace := ss.flatMap trace

@[simp] theorem traces_nil : traces [] = [] := rfl

@[simp] theorem traces_cons (s : Stretch) (ss : List Stretch) :
    traces (s :: ss) = s.work ++ s.records ++ traces ss := rfl

end Stretch

/-! ## 1. Skipping -/

/-- The results of steps that are skipped. -/
def skippedResults (steps : List Step) : List StepResult :=
  steps.map fun s => StepResult.skipped s.name

/-- Steps are skipped: each is recorded, or at least it is tried. -/
inductive Skips (run : RunId) : List Step → List Stretch → Prop where
  | nil : Skips run [] []
  | cons {step : Step} {t : RunTrace} {x : Except StoreError Unit} {rest : List Step}
      {ss : List Stretch} (tried : Yields (record run (StepResult.skipped step.name)) t x)
      (later : Skips run rest ss) : Skips run (step :: rest) ({ records := t } :: ss)

theorem yields_skipAfterFault {run : RunId} {steps : List Step} {t : RunTrace}
    {rs : List StepResult} (h : Yields (skipAfterFault run steps) t rs) :
    ∃ ss, t = Stretch.traces ss ∧ Skips run steps ss ∧ rs = skippedResults steps := by
  induction steps generalizing t rs with
  | nil =>
    obtain ⟨rfl, rfl⟩ := yields_pure_iff.mp h
    exact ⟨[], rfl, .nil, rfl⟩
  | cons step rest ih =>
    obtain ⟨u, v, x, rfl, hu, hv⟩ := yields_do_iff.mp h
    obtain ⟨w, w', rs', rfl, hw, hw'⟩ := yields_do_iff.mp hv
    obtain ⟨rfl, rfl⟩ := yields_pure_iff.mp hw'
    obtain ⟨ss, rfl, hss, rfl⟩ := ih hw
    exact ⟨{ records := u } :: ss, by simp, .cons hu hss, rfl⟩

theorem yields_skip {run : RunId} {reason reason' : AbortReason} {steps : List Step} {t : RunTrace}
    {rs : List StepResult} (h : Yields (skip run reason steps) t (rs, reason')) :
    ∃ ss, t = Stretch.traces ss ∧ Skips run steps ss ∧ rs = skippedResults steps ∧
      (reason' = reason ∨ ∃ s e, RunExchange.refused s e ∈ t) := by
  induction steps generalizing t rs with
  | nil =>
    obtain ⟨rfl, hr⟩ := yields_pure_iff.mp h
    obtain ⟨rfl, rfl⟩ := Prod.mk.inj hr
    exact ⟨[], rfl, .nil, rfl, .inl rfl⟩
  | cons step rest ih =>
    obtain ⟨u, v, x, rfl, hu, hv⟩ := yields_do_iff.mp h
    cases x with
    | ok _ =>
      obtain ⟨w, w', ⟨rs', r'⟩, rfl, hw, hw'⟩ := yields_do_iff.mp hv
      obtain ⟨rfl, hr⟩ := yields_pure_iff.mp hw'
      obtain ⟨rfl, rfl⟩ := Prod.mk.inj hr
      obtain ⟨ss, rfl, hss, rfl, why⟩ := ih hw
      refine ⟨{ records := u } :: ss, by simp, .cons hu hss, rfl, why.imp_right ?_⟩
      rintro ⟨s, e, hm⟩
      exact ⟨s, e, by simp [hm]⟩
    | error err =>
      -- from here on the reason of the abort is the record that failed
      obtain ⟨w, w', rs', rfl, hw, hw'⟩ := yields_do_iff.mp hv
      obtain ⟨rfl, hr⟩ := yields_pure_iff.mp hw'
      obtain ⟨rfl, rfl⟩ := Prod.mk.inj hr
      obtain ⟨ss, rfl, hss, rfl⟩ := yields_skipAfterFault hw
      refine ⟨{ records := u } :: ss, by simp, .cons hu hss, rfl, .inr ?_⟩
      rcases yields_appendAll hu with ⟨hok, -⟩ | ⟨_, s, _, u', e, -, -, rfl, -⟩
      · exact absurd hok (by simp)
      · exact ⟨s, e, by simp⟩

/-! ## 2. A record that could not be written -/

/-- What becomes of a result that could not be recorded: a success turns into a failure. -/
inductive Demoted (r : StepResult) (message : String) : RunTrace → StepResult → Prop where
  | success {t : RunTrace} (h : r.status = .success) (t₀ t₁ : Instant)
      (times : ∀ x ∈ t, ∃ i, x = ⟨.time, i⟩) (started : r.startedAt = some t₀ ∨ ⟨.time, t₀⟩ ∈ t)
      (finished : ⟨.time, t₁⟩ ∈ t) :
      Demoted r message t
        (StepResult.failed r.step
          ⟨.storeWrite, s!"step result could not be recorded: {message}"⟩ t₀ t₁)
  | other (h : r.status ≠ .success) : Demoted r message [] r

theorem yields_unrecorded {r kept : StepResult} {message : String} {t : RunTrace}
    (h : Yields (unrecorded r message) t kept) : Demoted r message t kept := by
  unfold unrecorded at h
  split at h
  · next success =>
    dsimp only at h
    split at h
    · next t₀ started =>
      obtain ⟨u, v, t₀', rfl, hu, hv⟩ := yields_do_iff.mp h
      obtain ⟨rfl, rfl⟩ := yields_pure_iff.mp hu
      obtain ⟨t₁, w, rfl, hw⟩ := yields_question_do_iff.mp hv
      obtain ⟨rfl, rfl⟩ := yields_pure_iff.mp hw
      refine .success success t₀' t₁ ?_ (.inl started) (by simp)
      intro x hx
      exact ⟨t₁, by simpa using hx⟩
    · obtain ⟨t₀, v, rfl, hv⟩ := yields_question_do_iff.mp h
      obtain ⟨t₁, w, rfl, hw⟩ := yields_question_do_iff.mp hv
      obtain ⟨rfl, rfl⟩ := yields_pure_iff.mp hw
      refine .success success t₀ t₁ ?_ (.inr (by simp)) (by simp)
      intro x hx
      rcases List.mem_cons.mp hx with rfl | hx
      · exact ⟨t₀, rfl⟩
      · exact ⟨t₁, by simpa using hx⟩
  · next other =>
    obtain ⟨rfl, rfl⟩ := yields_pure_iff.mp h
    exact .other other

/-- A failure is recorded once more, as far as the store allows. -/
inductive Amends (run : RunId) (kept : StepResult) : RunTrace → Prop where
  | tried {t : RunTrace} {x : Except StoreError Unit} (h : kept.status = .failed)
      (tried : Yields (record run kept) t x) : Amends run kept t
  | none (h : kept.status ≠ .failed) : Amends run kept []

theorem yields_endUnrecorded {run : RunId} {r : StepResult} {e : StoreError} {rest : List Step}
    {t : RunTrace} {rs : List StepResult} (h : Yields (endUnrecorded run r e rest) t rs) :
    ∃ demotion kept again ss, t = demotion ++ again ++ Stretch.traces ss ∧
      Demoted r e.message demotion kept ∧ Amends run kept again ∧ Skips run rest ss ∧
      rs = kept :: skippedResults rest := by
  obtain ⟨demotion, u, kept, rfl, hd, hu⟩ := yields_do_iff.mp h
  have demoted := yields_unrecorded hd
  -- both branches go on in the same way, with or without a second record
  have skipped : ∀ {v}, Yields (do return kept :: (← skipAfterFault run rest)) v rs →
      ∃ ss, v = Stretch.traces ss ∧ Skips run rest ss ∧ rs = kept :: skippedResults rest := by
    intro v hv
    obtain ⟨w, w', rs', rfl, hw, hw'⟩ := yields_do_iff.mp hv
    obtain ⟨rfl, rfl⟩ := yields_pure_iff.mp hw'
    obtain ⟨ss, rfl, hss, rfl⟩ := yields_skipAfterFault hw
    exact ⟨ss, by simp, hss, rfl⟩
  dsimp only at hu
  split at hu
  · next failed =>
    obtain ⟨again, v, x, rfl, hx, hv⟩ := yields_do_iff.mp hu
    obtain ⟨ss, rfl, hss, rfl⟩ := skipped hv
    exact ⟨demotion, kept, again, ss, by simp, demoted, .tried failed hx, hss, rfl⟩
  · next other =>
    obtain ⟨ss, rfl, hss, rfl⟩ := skipped hu
    exact ⟨demotion, kept, [], ss, by simp, demoted, .none other, hss, rfl⟩

/-! ## 3. The steps of a run -/

/-- How the steps of a run go. -/
inductive Course (c : Config) (run : RunId) :
    RunContext → List Step → List Stretch → List StepResult → Option AbortReason → Prop where
  | ended (ctx : RunContext) : Course c run ctx [] [] [] none
  /-- The step is recorded, and the next one has its turn. -/
  | goesOn {ctx : RunContext} {step : Step} {rest : List Step} {work records : RunTrace}
      {r : StepResult} {ss : List Stretch} {rs : List StepResult} {abort : Option AbortReason}
      (attempted : Yields (attempt c run ctx step) work (r, none))
      (recorded : Yields (record run r) records (.ok ()))
      (later : Course c run (ctx.record r) rest ss rs abort) :
      Course c run ctx (step :: rest) (⟨work, records⟩ :: ss) (r :: rs) abort
  /-- The step is recorded, and its outcome aborts the run. -/
  | aborted {ctx : RunContext} {step : Step} {rest : List Step} {work records : RunTrace}
      {r : StepResult} {ss : List Stretch} {reason reason' : AbortReason}
      (attempted : Yields (attempt c run ctx step) work (r, some reason))
      (recorded : Yields (record run r) records (.ok ())) (skipped : Skips run rest ss)
      (why : reason' = reason ∨ ∃ s e, RunExchange.refused s e ∈ Stretch.traces ss) :
      Course c run ctx (step :: rest) (⟨work, records⟩ :: ss) (r :: skippedResults rest)
        (some reason')
  /-- The step could not be recorded, which aborts the run. -/
  | unrecorded {ctx : RunContext} {step : Step} {rest : List Step}
      {work records demotion again : RunTrace} {r kept : StepResult} {ss : List Stretch}
      {abort : Option AbortReason} {e : StoreError}
      (attempted : Yields (attempt c run ctx step) work (r, abort))
      (failed : Yields (record run r) records (.error e))
      (demoted : Demoted r e.message demotion kept) (amended : Amends run kept again)
      (skipped : Skips run rest ss) :
      Course c run ctx (step :: rest) (⟨work, records ++ demotion ++ again⟩ :: ss)
        (kept :: skippedResults rest) (some (.storeWrite step.name e.message))

theorem yields_runSteps {c : Config} {run : RunId} {ctx : RunContext} {steps : List Step}
    {t : RunTrace} {rs : List StepResult} {abort : Option AbortReason}
    (h : Yields (runSteps c run ctx steps) t (rs, abort)) :
    ∃ ss, t = Stretch.traces ss ∧ Course c run ctx steps ss rs abort := by
  induction steps generalizing ctx t rs abort with
  | nil =>
    obtain ⟨rfl, hr⟩ := yields_pure_iff.mp h
    obtain ⟨rfl, rfl⟩ := Prod.mk.inj hr
    exact ⟨[], rfl, .ended ctx⟩
  | cons step rest ih =>
    obtain ⟨work, u, ⟨r, a⟩, rfl, hwork, hu⟩ := yields_do_iff.mp h
    obtain ⟨records, v, x, rfl, hrec, hv⟩ := yields_do_iff.mp hu
    -- whether the step was recorded is looked at before its consequence
    cases x with
    | error e =>
      obtain ⟨w, w', rs', rfl, hw, hw'⟩ := yields_do_iff.mp hv
      obtain ⟨rfl, hr⟩ := yields_pure_iff.mp hw'
      obtain ⟨rfl, rfl⟩ := Prod.mk.inj hr
      obtain ⟨demotion, kept, again, ss, rfl, hd, ha, hss, rfl⟩ := yields_endUnrecorded hw
      exact ⟨⟨work, records ++ demotion ++ again⟩ :: ss, by simp,
        .unrecorded hwork hrec hd ha hss⟩
    | ok _ =>
      cases a with
      | some reason =>
        obtain ⟨w, w', ⟨rs', reason'⟩, rfl, hw, hw'⟩ := yields_do_iff.mp hv
        obtain ⟨rfl, hr⟩ := yields_pure_iff.mp hw'
        obtain ⟨rfl, rfl⟩ := Prod.mk.inj hr
        obtain ⟨ss, rfl, hss, rfl, why⟩ := yields_skip hw
        exact ⟨⟨work, records⟩ :: ss, by simp, .aborted hwork hrec hss why⟩
      | none =>
        obtain ⟨w, w', ⟨rs', abort'⟩, rfl, hw, hw'⟩ := yields_do_iff.mp hv
        obtain ⟨rfl, hr⟩ := yields_pure_iff.mp hw'
        obtain ⟨rfl, rfl⟩ := Prod.mk.inj hr
        obtain ⟨ss, rfl, later⟩ := ih hw
        exact ⟨⟨work, records⟩ :: ss, by simp, .goesOn hwork hrec later⟩

/-! ## 4. The run -/

/-- What the first step of a run sees of earlier ones: nothing. -/
def openingContext (c : Config) (params : Fields Json) : RunContext :=
  { params, maxOutputBytes := c.maxStepOutputBytes }

/-- How a run goes: its start is recorded before everything else. -/
inductive RunCourse (c : Config) (w : Workflow) (run : RunId) (params : Fields Json) :
    RunTrace → List Stretch → List StepResult → Option AbortReason → Prop where
  /-- The start could not be recorded, so no step has a turn. -/
  | unstarted {start : RunTrace} {e : StoreError}
      (failed : Yields (ofStore (Memory.startRun run w.name params)) start (.error e)) :
      RunCourse c w run params start (w.steps.map fun _ => {}) (skippedResults w.steps)
        (some (.storeWrite Memory.runStartStep e.message))
  | started {start : RunTrace} {ss : List Stretch} {rs : List StepResult}
      {abort : Option AbortReason}
      (recorded : Yields (ofStore (Memory.startRun run w.name params)) start (.ok ()))
      (course : Course c run (openingContext c params) w.steps ss rs abort) :
      RunCourse c w run params start ss rs abort

/-- The exchanges of a run: the time, its start, its steps, and the time. -/
def runTrace (t₀ t₁ : Instant) (start : RunTrace) (ss : List Stretch) : RunTrace :=
  ⟨.time, t₀⟩ :: start ++ Stretch.traces ss ++ [⟨.time, t₁⟩]

/-- **Every run takes a course**, and its record tells the outcome. -/
theorem yields_execute {c : Config} {w : Workflow} {run : RunId} {params : Fields Json}
    {t : RunTrace} {rec : RunRecord} (h : Yields (execute c w run params) t rec) :
    ∃ t₀ t₁ start ss abort, t = runTrace t₀ t₁ start ss ∧
      RunCourse c w run params start ss rec.steps abort ∧
      rec = { id := run, workflow := w.name, params
              status := if abort.isSome then .aborted else .completed
              steps := rec.steps, abort, startedAt := t₀, finishedAt := some t₁ } := by
  obtain ⟨t₀, u, rfl, hu⟩ := yields_question_do_iff.mp h
  obtain ⟨body, v, ⟨rs, abort⟩, rfl, hbody, hv⟩ := yields_do_iff.mp hu
  obtain ⟨t₁, v', rfl, hv'⟩ := yields_question_do_iff.mp hv
  obtain ⟨rfl, rfl⟩ := yields_pure_iff.mp hv'
  obtain ⟨start, steps, x, rfl, hstart, hsteps⟩ := yields_do_iff.mp hbody
  cases x with
  | error e =>
    obtain ⟨rfl, hr⟩ := yields_pure_iff.mp hsteps
    obtain ⟨rfl, rfl⟩ := Prod.mk.inj hr
    refine ⟨t₀, t₁, start, _, _, ?_, .unstarted hstart, rfl⟩
    simp [runTrace, Stretch.traces, Stretch.trace]
  | ok _ =>
    obtain ⟨ss, rfl, course⟩ := yields_runSteps hsteps
    exact ⟨t₀, t₁, start, ss, abort, by simp [runTrace], .started hstart course, rfl⟩

end Execution
end Runbook
