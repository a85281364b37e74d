import Runbook.Proofs.Run.Exchange
import Runbook.Run.Execution

/-!
# The course of a step

`StepCourse c run ctx step t r abort` lists the ways in which a step can go: what was exchanged,
with what result, and with what meaning for the run. There is one rule for each ending, and
`yields_attempt` says that there are no others. Everything later about a step is read off these
rules, so that `runStep` is opened here and nowhere else.

The last section collects what the course of a whole run needs to know of a step: what its result
looks like, which exchanges are its own, and that nothing is engaged once the run is to end.
-/

set_option autoImplicit false

namespace Runbook
namespace Execution

open Dialogue RunDialogue

/-! ## 1. The gate and the work -/

/-- What the answer at a gate means for the run, unless it is a yes. -/
def refusal (step : Step) : Approval → Option AbortReason
  | .approved => none
  | .denied => some (.gateDenied step.name)
  | .expired => some (.gateExpired step.name)
  | .stopped => some (.cancelled (some step.name))

/-- What came of a gate and was exchanged for it. -/
inductive GateCourse (c : Config) (scope : Scope) (step : Step) : RunTrace → GatePass → Prop where
  | absent (gate : step.gatePrompt? = none) : GateCourse c scope step [] (.passed none)
  | unprompted {template : String} {e : Template.ResolveError}
      (gate : step.gatePrompt? = some template)
      (rendered : Template.render c.missingPath scope template = .error e) :
      GateCourse c scope step [] (.failed ⟨.templateResolution, e.message⟩)
  | approved {template prompt : String} (gate : step.gatePrompt? = some template)
      (rendered : Template.render c.missingPath scope template = .ok prompt) :
      GateCourse c scope step [⟨.approval step.name prompt c.gateTimeoutSecs, .approved⟩]
        (.passed (some prompt))
  | refused {template prompt : String} (gate : step.gatePrompt? = some template)
      (rendered : Template.render c.missingPath scope template = .ok prompt) {a : Approval}
      {reason : AbortReason} (h : refusal step a = some reason) :
      GateCourse c scope step [⟨.approval step.name prompt c.gateTimeoutSecs, a⟩] (.halted reason)

theorem yields_passGate {c : Config} {scope : Scope} {step : Step} {t : RunTrace} {p : GatePass}
    (h : Yields (passGate c scope step) t p) : GateCourse c scope step t p := by
  unfold passGate at h
  split at h
  · next gate =>
    obtain ⟨rfl, rfl⟩ := yields_pure_iff.mp h
    exact .absent gate
  · next template gate =>
    split at h
    · next e rendered =>
      obtain ⟨rfl, rfl⟩ := yields_pure_iff.mp h
      exact .unprompted gate rendered
    · next prompt rendered =>
      obtain ⟨a, u, rfl, hu⟩ := yields_question_do_iff.mp h
      cases a with
      | approved =>
        obtain ⟨rfl, rfl⟩ := yields_pure_iff.mp hu
        exact .approved gate rendered
      | denied | expired | stopped =>
        obtain ⟨rfl, rfl⟩ := yields_pure_iff.mp hu
        exact .refused gate rendered rfl

/-- What came of the work of a step and was exchanged for it. -/
inductive WorkCourse (step : Step) (inputs : Fields Json) (prompt : Option String) (t₀ : Instant) :
    RunTrace → StepResult → Prop where
  /-- Without a tool, the approved prompt is the output. -/
  | confirmed (tool : step.tool = none) (t₁ : Instant) :
      WorkCourse step inputs prompt t₀ [⟨.time, t₁⟩]
        (StepResult.success step.name (ToolOutput.ofText (prompt.getD "")) t₀ t₁)
  | succeeded {tool : String} (h : step.tool = some tool) (o : ToolOutput) (t₁ : Instant) :
      WorkCourse step inputs prompt t₀ [⟨.call tool inputs step.timeoutSecs, .ok o⟩, ⟨.time, t₁⟩]
        (StepResult.success step.name o t₀ t₁)
  | failed {tool : String} (h : step.tool = some tool) (f : Failure) (t₁ : Instant) :
      WorkCourse step inputs prompt t₀ [⟨.call tool inputs step.timeoutSecs, .error f⟩, ⟨.time, t₁⟩]
        (StepResult.failed step.name f t₀ t₁)

theorem yields_failedNow {step : Step} {f : Failure} {t₀ : Instant} {t : RunTrace} {r : StepResult}
    (h : Yields (failedNow step f t₀) t r) :
    ∃ t₁, t = [⟨.time, t₁⟩] ∧ r = StepResult.failed step.name f t₀ t₁ := by
  obtain ⟨t₁, u, rfl, hu⟩ := yields_question_do_iff.mp h
  obtain ⟨rfl, rfl⟩ := yields_pure_iff.mp hu
  exact ⟨t₁, rfl, rfl⟩

theorem yields_succeededNow {step : Step} {o : ToolOutput} {t₀ : Instant} {t : RunTrace}
    {r : StepResult} (h : Yields (succeededNow step o t₀) t r) :
    ∃ t₁, t = [⟨.time, t₁⟩] ∧ r = StepResult.success step.name o t₀ t₁ := by
  obtain ⟨t₁, u, rfl, hu⟩ := yields_question_do_iff.mp h
  obtain ⟨rfl, rfl⟩ := yields_pure_iff.mp hu
  exact ⟨t₁, rfl, rfl⟩

theorem yields_work {step : Step} {inputs : Fields Json} {prompt : Option String} {t₀ : Instant}
    {t : RunTrace} {r : StepResult} (h : Yields (work step inputs prompt t₀) t r) :
    WorkCourse step inputs prompt t₀ t r := by
  unfold work at h
  split at h
  · next tool =>
    obtain ⟨t₁, rfl, rfl⟩ := yields_succeededNow h
    exact .confirmed tool t₁
  · next tool =>
    obtain ⟨x, u, rfl, hu⟩ := yields_question_do_iff.mp h
    cases x with
    | ok o =>
      obtain ⟨t₁, rfl, rfl⟩ := yields_succeededNow hu
      exact .succeeded tool o t₁
    | error f =>
      obtain ⟨t₁, rfl, rfl⟩ := yields_failedNow hu
      exact .failed tool f t₁

/-! ## 2. The step -/

/-- The exchanges in front of everything else, if the run goes on: the time, and the reads. -/
def approach (t₀ : Instant) (reads : RunTrace) : RunTrace :=
  ⟨.stopRequested, false⟩ :: ⟨.time, t₀⟩ :: reads

/-- How a step goes. -/
inductive StepCourse (c : Config) (run : RunId) (ctx : RunContext) (step : Step) :
    RunTrace → StepResult → Option AbortReason → Prop where
  /-- The run has been told to stop. -/
  | stopped :
      StepCourse c run ctx step [⟨.stopRequested, true⟩] (StepResult.skipped step.name)
        (some (.cancelled none))
  /-- Memory could not be read. -/
  | unread {reads : RunTrace} {e : StoreError} {r : StepResult} (t₀ t₁ : Instant)
      (memory : Yields (stepMemory c run step) reads (.error e))
      (result : r = StepResult.failed step.name ⟨.storeRead, e.message⟩ t₀ t₁) :
      StepCourse c run ctx step (approach t₀ reads ++ [⟨.time, t₁⟩]) r (consequence step r)
  /-- An input could not be resolved. -/
  | unresolved {reads : RunTrace} {memory : Fields Json} {f : Failure} {r : StepResult}
      (t₀ t₁ : Instant) (read : Yields (stepMemory c run step) reads (.ok memory))
      (failed : resolveInputs c.missingPath (ctx.scope memory) step.inputs = .error f)
      (result : r = StepResult.failed step.name f t₀ t₁) :
      StepCourse c run ctx step (approach t₀ reads ++ [⟨.time, t₁⟩]) r (consequence step r)
  /-- The gate failed before anyone was asked. -/
  | unprompted {reads gate : RunTrace} {memory inputs : Fields Json} {f : Failure} {r : StepResult}
      (t₀ t₁ : Instant) (read : Yields (stepMemory c run step) reads (.ok memory))
      (resolved : resolveInputs c.missingPath (ctx.scope memory) step.inputs = .ok inputs)
      (failed : GateCourse c (ctx.scope memory) step gate (.failed f))
      (result : r = StepResult.failed step.name f t₀ t₁) :
      StepCourse c run ctx step (approach t₀ reads ++ gate ++ [⟨.time, t₁⟩]) r (consequence step r)
  /-- The gate was not passed. -/
  | refused {reads gate : RunTrace} {memory inputs : Fields Json} {reason : AbortReason}
      (t₀ : Instant) (read : Yields (stepMemory c run step) reads (.ok memory))
      (resolved : resolveInputs c.missingPath (ctx.scope memory) step.inputs = .ok inputs)
      (halted : GateCourse c (ctx.scope memory) step gate (.halted reason)) :
      StepCourse c run ctx step (approach t₀ reads ++ gate) (StepResult.skipped step.name)
        (some reason)
  /-- The step did its work. -/
  | worked {reads gate labour : RunTrace} {memory inputs : Fields Json} {prompt : Option String}
      {r : StepResult} (t₀ : Instant) (read : Yields (stepMemory c run step) reads (.ok memory))
      (resolved : resolveInputs c.missingPath (ctx.scope memory) step.inputs = .ok inputs)
      (passed : GateCourse c (ctx.scope memory) step gate (.passed prompt))
      (worked : WorkCourse step inputs prompt t₀ labour r) :
      StepCourse c run ctx step (approach t₀ reads ++ gate ++ labour) r (consequence step r)

/-- What the end of a step means for its result and for the run. -/
def StepEnd.outcome (step : Step) : StepEnd → StepResult × Option AbortReason
  | .finished r => (r, consequence step r)
  | .halted r reason => (r, some reason)

theorem yields_runStep {c : Config} {run : RunId} {ctx : RunContext} {step : Step} {t : RunTrace}
    {e : StepEnd} (h : Yields (runStep c run ctx step) t e) :
    StepCourse c run ctx step (⟨.stopRequested, false⟩ :: t) (e.outcome step).1
      (e.outcome step).2 := by
  obtain ⟨t₀, u, rfl, hu⟩ := yields_question_do_iff.mp h
  obtain ⟨reads, v, read, rfl, hread, hv⟩ := yields_do_iff.mp hu
  -- one case for each exit of `runStep`, in the order of its lines
  cases read with
  | error err =>
    obtain ⟨w, w', r, rfl, hw, hw'⟩ := yields_do_iff.mp hv
    obtain ⟨t₁, rfl, rfl⟩ := yields_failedNow hw
    obtain ⟨rfl, rfl⟩ := yields_pure_iff.mp hw'
    exact .unread t₀ t₁ hread rfl
  | ok memory =>
    dsimp only at hv
    split at hv
    · next f failed =>
      obtain ⟨w, w', r, rfl, hw, hw'⟩ := yields_do_iff.mp hv
      obtain ⟨t₁, rfl, rfl⟩ := yields_failedNow hw
      obtain ⟨rfl, rfl⟩ := yields_pure_iff.mp hw'
      exact .unresolved t₀ t₁ hread failed rfl
    · next inputs resolved =>
      obtain ⟨gate, w, pass, rfl, hgate, hw⟩ := yields_do_iff.mp hv
      have course := yields_passGate hgate
      cases pass with
      | failed f =>
        obtain ⟨w₁, w₂, r, rfl, hw₁, hw₂⟩ := yields_do_iff.mp hw
        obtain ⟨t₁, rfl, rfl⟩ := yields_failedNow hw₁
        obtain ⟨rfl, rfl⟩ := yields_pure_iff.mp hw₂
        simpa [StepEnd.outcome, approach] using
          StepCourse.unprompted t₀ t₁ hread resolved course rfl
      | halted reason =>
        obtain ⟨rfl, rfl⟩ := yields_pure_iff.mp hw
        simpa [StepEnd.outcome, approach] using StepCourse.refused t₀ hread resolved course
      | passed prompt =>
        obtain ⟨w₁, w₂, r, rfl, hw₁, hw₂⟩ := yields_do_iff.mp hw
        obtain ⟨rfl, rfl⟩ := yields_pure_iff.mp hw₂
        simpa [StepEnd.outcome, approach] using
          StepCourse.worked t₀ hread resolved course (yields_work hw₁)

/-- A step is run, unless the run has been told to stop. -/
theorem attempt_cases {c : Config} {run : RunId} {ctx : RunContext} {step : Step} {t : RunTrace}
    {r : StepResult} {abort : Option AbortReason}
    (h : Yields (attempt c run ctx step) t (r, abort)) :
    (t = [⟨.stopRequested, true⟩] ∧ r = StepResult.skipped step.name ∧
        abort = some (.cancelled none)) ∨
      ∃ u e, t = ⟨.stopRequested, false⟩ :: u ∧ Yields (runStep c run ctx step) u e ∧
        (r, abort) = e.outcome step := by
  obtain ⟨stop, u, rfl, hu⟩ := yields_question_do_iff.mp h
  cases stop with
  | true =>
    obtain ⟨rfl, hr⟩ := yields_pure_iff.mp hu
    obtain ⟨rfl, rfl⟩ := Prod.mk.inj hr
    exact .inl ⟨rfl, rfl, rfl⟩
  | false =>
    obtain ⟨v, w, e, rfl, hv, hw⟩ := yields_do_iff.mp hu
    refine .inr ⟨v, e, ?_⟩
    cases e with
    | finished | halted =>
      obtain ⟨rfl, hr⟩ := yields_pure_iff.mp hw
      exact ⟨by rw [List.append_nil], hv, hr⟩

/-- **A step goes in one of these ways, and in no other.** -/
theorem yields_attempt {c : Config} {run : RunId} {ctx : RunContext} {step : Step} {t : RunTrace}
    {r : StepResult} {abort : Option AbortReason}
    (h : Yields (attempt c run ctx step) t (r, abort)) : StepCourse c run ctx step t r abort := by
  rcases attempt_cases h with ⟨rfl, rfl, rfl⟩ | ⟨u, e, rfl, hu, he⟩
  · exact .stopped
  · obtain ⟨rfl, rfl⟩ := Prod.mk.inj he
    exact yields_runStep hu

/-! ## 3. What a run needs to know of a step -/

/-- The step was carried out: it succeeded with an output or failed with an error. -/
inductive CarriedOut (name : String) : StepResult → Prop where
  | success (o : ToolOutput) (t₀ t₁ : Instant) : CarriedOut name (StepResult.success name o t₀ t₁)
  | failed (f : Failure) (t₀ t₁ : Instant) : CarriedOut name (StepResult.failed name f t₀ t₁)

/-- A step is carried out, or it is skipped and the run ends. -/
theorem StepCourse.result {c : Config} {run : RunId} {ctx : RunContext} {step : Step} {t : RunTrace}
    {r : StepResult} {abort : Option AbortReason} (h : StepCourse c run ctx step t r abort) :
    (CarriedOut step.name r ∧ abort = consequence step r) ∨
      (r = StepResult.skipped step.name ∧ abort.isSome) := by
  cases h with
  | stopped => exact .inr ⟨rfl, rfl⟩
  | unread t₀ t₁ _ result | unresolved t₀ t₁ _ _ result | unprompted t₀ t₁ _ _ _ result =>
    subst result
    exact .inl ⟨.failed _ t₀ t₁, rfl⟩
  | refused => exact .inr ⟨rfl, rfl⟩
  | worked t₀ _ _ _ worked =>
    cases worked with
    | confirmed _ t₁ | succeeded _ _ t₁ => exact .inl ⟨.success _ t₀ t₁, rfl⟩
    | failed _ _ t₁ => exact .inl ⟨.failed _ t₀ t₁, rfl⟩

/-- The newest slice was asked for that meets a need of the step. -/
inductive ReadOf (run : RunId) (step : Step) : RunExchange → Prop where
  | intro {need : Need} (h : need ∈ step.needs) (found : Except StoreError (List Slice)) :
      ReadOf run step ⟨.store (.query { need.query run with limit := some 1 }), found⟩

/-- The exchanges that are a step's own up to its result: they read for its needs, ask at its gate
and call its tool. -/
inductive WorkOf (run : RunId) (step : Step) : RunExchange → Prop where
  | stop (b : Bool) : WorkOf run step ⟨.stopRequested, b⟩
  | time (t : Instant) : WorkOf run step ⟨.time, t⟩
  | read {x : RunExchange} (h : ReadOf run step x) : WorkOf run step x
  | gate (h : step.gate.isSome) (prompt : String) (limit : Option Nat) (a : Approval) :
      WorkOf run step ⟨.approval step.name prompt limit, a⟩
  | call {tool : String} (h : step.tool = some tool) (inputs : Fields Json)
      (x : Except Failure ToolOutput) : WorkOf run step ⟨.call tool inputs step.timeoutSecs, x⟩

theorem readOf_recall {tolerant : Bool} {run : RunId} {step : Step} {bound : Fields Json}
    {needs : List Need} (hs : ∀ need ∈ needs, need ∈ step.needs) {t : RunTrace}
    {r : Except StoreError (Fields Json)}
    (h : Yields (ofStore (Memory.recall tolerant run bound needs)) t r) :
    ∀ x ∈ t, ReadOf run step x := by
  induction needs generalizing bound t with
  | nil =>
    obtain ⟨rfl, -⟩ := yields_done_iff.mp h
    intro x hx
    exact absurd hx (by simp)
  | cons need rest ih =>
    -- a read that fails ends the recall, unless the needs are met as far as possible
    obtain ⟨found, u, rfl, hu⟩ := yields_ask_iff.mp h
    have hrest : ∀ n ∈ rest, n ∈ step.needs := fun n hn => hs n (List.mem_cons_of_mem _ hn)
    intro x hx
    rcases List.mem_cons.mp hx with rfl | hx
    · exact .intro (hs need (by simp)) found
    · dsimp only at hu
      split at hu
      · exact ih hrest hu x hx
      · split at hu
        · exact ih hrest hu x hx
        · obtain ⟨rfl, -⟩ := yields_done_iff.mp hu
          exact absurd hx (by simp)

theorem readOf_stepMemory {c : Config} {run : RunId} {step : Step} {t : RunTrace}
    {r : Except StoreError (Fields Json)} (h : Yields (stepMemory c run step) t r) :
    ∀ x ∈ t, ReadOf run step x := by
  unfold stepMemory at h
  split at h
  · obtain ⟨rfl, -⟩ := yields_pure_iff.mp h
    intro x hx
    exact absurd hx (by simp)
  · exact readOf_recall (fun _ hn => hn) h

theorem GateCourse.own {c : Config} {scope : Scope} {run : RunId} {step : Step} {t : RunTrace}
    {p : GatePass} (h : GateCourse c scope step t p) : ∀ x ∈ t, WorkOf run step x := by
  have asked : ∀ {template : String}, step.gatePrompt? = some template → step.gate.isSome := by
    intro template gate
    rw [← Option.isSome_map, show step.gate.map _ = step.gatePrompt? from rfl, gate]
    rfl
  intro x hx
  cases h with
  | absent | unprompted => exact absurd hx (by simp)
  | approved gate | refused gate =>
    rw [List.mem_singleton.mp hx]
    exact .gate (asked gate) _ _ _

theorem WorkCourse.own {run : RunId} {step : Step} {inputs : Fields Json} {prompt : Option String}
    {t₀ : Instant} {t : RunTrace} {r : StepResult} (h : WorkCourse step inputs prompt t₀ t r) :
    ∀ x ∈ t, WorkOf run step x := by
  intro x hx
  cases h with
  | confirmed =>
    rw [List.mem_singleton.mp hx]
    exact .time _
  | succeeded tool | failed tool =>
    rcases List.mem_cons.mp hx with rfl | hx
    · exact .call tool _ _
    · rw [List.mem_singleton.mp hx]
      exact .time _

theorem own_approach {c : Config} {run : RunId} {step : Step} {t₀ : Instant} {reads : RunTrace}
    {m : Except StoreError (Fields Json)} (h : Yields (stepMemory c run step) reads m) :
    ∀ x ∈ approach t₀ reads, WorkOf run step x := by
  intro x hx
  rcases List.mem_cons.mp hx with rfl | hx
  · exact .stop false
  · rcases List.mem_cons.mp hx with rfl | hx
    · exact .time t₀
    · exact .read (readOf_stepMemory h x hx)

/-- Up to its result a step has only exchanges of its own. -/
theorem StepCourse.own {c : Config} {run : RunId} {ctx : RunContext} {step : Step} {t : RunTrace}
    {r : StepResult} {abort : Option AbortReason} (h : StepCourse c run ctx step t r abort) :
    ∀ x ∈ t, WorkOf run step x := by
  intro x hx
  cases h with
  | stopped =>
    rw [List.mem_singleton.mp hx]
    exact .stop true
  | unread _ _ read | unresolved _ _ read =>
    rcases List.mem_append.mp hx with hx | hx
    · exact own_approach read x hx
    · rw [List.mem_singleton.mp hx]
      exact .time _
  | unprompted _ _ read _ gate =>
    rcases List.mem_append.mp hx with hx | hx
    · rcases List.mem_append.mp hx with hx | hx
      · exact own_approach read x hx
      · exact gate.own x hx
    · rw [List.mem_singleton.mp hx]
      exact .time _
  | refused _ read _ gate =>
    rcases List.mem_append.mp hx with hx | hx
    · exact own_approach read x hx
    · exact gate.own x hx
  | worked _ read _ gate worked =>
    rcases List.mem_append.mp hx with hx | hx
    · rcases List.mem_append.mp hx with hx | hx
      · exact own_approach read x hx
      · exact gate.own x hx
    · exact worked.own x hx

theorem WorkOf.stored?_eq_none {run : RunId} {step : Step} {x : RunExchange}
    (h : WorkOf run step x) : x.stored? = none := by
  cases h with
  | read h => cases h; rfl
  | _ => rfl

/-! ### Where a run ends within a step

A refused gate and an order to stop are the last exchanges of a step, and such a step is skipped. -/

theorem not_endsRun_approach {c : Config} {run : RunId} {step : Step} {t₀ : Instant}
    {reads : RunTrace} {m : Except StoreError (Fields Json)}
    (h : Yields (stepMemory c run step) reads m) : ∀ x ∈ approach t₀ reads, ¬ x.EndsRun := by
  intro x hx hend
  rcases List.mem_cons.mp hx with rfl | hx
  · cases hend
  · rcases List.mem_cons.mp hx with rfl | hx
    · cases hend
    · cases readOf_stepMemory h x hx
      cases hend

theorem not_endsRun_time (t₁ : Instant) (x : RunExchange) (hx : x ∈ [⟨.time, t₁⟩]) :
    ¬ x.EndsRun := by
  intro hend
  rw [List.mem_singleton.mp hx] at hend
  cases hend

theorem GateCourse.not_endsRun {c : Config} {scope : Scope} {step : Step} {t : RunTrace}
    {prompt : Option String} (h : GateCourse c scope step t (.passed prompt)) :
    ∀ x ∈ t, ¬ x.EndsRun := by
  intro x hx hend
  cases h with
  | absent => exact absurd hx (by simp)
  | approved =>
    rw [List.mem_singleton.mp hx] at hend
    cases hend with
    | gate _ _ _ _ h => exact absurd rfl h

theorem WorkCourse.not_endsRun {step : Step} {inputs : Fields Json} {prompt : Option String}
    {t₀ : Instant} {t : RunTrace} {r : StepResult} (h : WorkCourse step inputs prompt t₀ t r) :
    ∀ x ∈ t, ¬ x.EndsRun := by
  cases h with
  | confirmed _ t₁ => exact not_endsRun_time t₁
  | succeeded _ _ t₁ | failed _ _ t₁ =>
    intro x hx hend
    rcases List.mem_cons.mp hx with rfl | hx
    · cases hend
    · exact not_endsRun_time t₁ x hx hend

/-- An exchange that ends the run is the last one of its step, if the step has one at all. -/
theorem StepCourse.endsRun_last {c : Config} {run : RunId} {ctx : RunContext} {step : Step}
    {t : RunTrace} {r : StepResult} {abort : Option AbortReason}
    (h : StepCourse c run ctx step t r abort) :
    (∀ x ∈ t, ¬ x.EndsRun) ∨
      (r = StepResult.skipped step.name ∧
        ∃ front x, t = front ++ [x] ∧ ∀ y ∈ front, ¬ y.EndsRun) := by
  cases h with
  | stopped => exact .inr ⟨rfl, [], _, rfl, by simp⟩
  | unread t₀ t₁ read | unresolved t₀ t₁ read =>
    left
    intro x hx
    rcases List.mem_append.mp hx with hx | hx
    · exact not_endsRun_approach read x hx
    · exact not_endsRun_time t₁ x hx
  | unprompted t₀ t₁ read _ gate =>
    left
    intro x hx
    -- a gate that fails has asked nobody
    cases gate
    rw [List.append_nil] at hx
    rcases List.mem_append.mp hx with hx | hx
    · exact not_endsRun_approach read x hx
    · exact not_endsRun_time t₁ x hx
  | refused t₀ read _ gate =>
    cases gate
    exact .inr ⟨rfl, _, _, rfl, not_endsRun_approach read⟩
  | worked t₀ read _ gate worked =>
    left
    intro x hx
    rcases List.mem_append.mp hx with hx | hx
    · rcases List.mem_append.mp hx with hx | hx
      · exact not_endsRun_approach read x hx
      · exact gate.not_endsRun x hx
    · exact worked.not_endsRun x hx

end Execution
end Runbook
