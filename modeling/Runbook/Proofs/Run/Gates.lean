import Runbook.Proofs.Run.Context

/-!
# Gates

A step involves others twice at most: someone is asked at its gate, and its tool is called. A
`Passage` shows in which order. The gate comes first and is asked once; the call comes only behind a
yes, and with the inputs that were resolved in the scope of the prompt.

A step whose gate is not passed is skipped, and so is everything behind it.
-/

set_option autoImplicit false

namespace Runbook

open Dialogue RunDialogue

/-- Someone is asked for approval, or a tool is called. -/
inductive RunExchange.Involves : RunExchange → Prop where
  | approval (step prompt : String) (limit : Option Nat) (a : Approval) :
      Involves ⟨.approval step prompt limit, a⟩
  | call (tool : String) (inputs : Fields Json) (limit : Option Nat)
      (x : Except Failure ToolOutput) : Involves ⟨.call tool inputs limit, x⟩

theorem RunExchange.Involves.engages {x : RunExchange} (h : x.Involves) : x.Engages := by
  cases h <;> trivial

namespace Execution

/-! ## 1. One step -/

/-- What a step asks with and works on: its prompt and its inputs are from one scope, that of the
results so far with the memory that was read. -/
inductive Prepared (c : Config) (run : RunId) (ctx : RunContext) (step : Step) :
    RunTrace → Fields Json → Option String → Prop where
  | ungated {reads : RunTrace} {memory inputs : Fields Json}
      (read : Yields (stepMemory c run step) reads (.ok memory))
      (resolved : resolveInputs c.missingPath (ctx.scope memory) step.inputs = .ok inputs)
      (gate : step.gatePrompt? = none) : Prepared c run ctx step reads inputs none
  | gated {reads : RunTrace} {memory inputs : Fields Json} {template prompt : String}
      (read : Yields (stepMemory c run step) reads (.ok memory))
      (resolved : resolveInputs c.missingPath (ctx.scope memory) step.inputs = .ok inputs)
      (gate : step.gatePrompt? = some template)
      (rendered : Template.render c.missingPath (ctx.scope memory) template = .ok prompt) :
      Prepared c run ctx step reads inputs (some prompt)

/-- What a step exchanges up to its result, and how it comes to its tool. -/
inductive Passage (c : Config) (run : RunId) (ctx : RunContext) (step : Step) :
    RunTrace → StepResult → Prop where
  /-- The run has ended before the step. -/
  | unreached : Passage c run ctx step [] (StepResult.skipped step.name)
  /-- The run has been told to stop when the turn of the step comes. -/
  | stopped : Passage c run ctx step [⟨.stopRequested, true⟩] (StepResult.skipped step.name)
  /-- The step fails before it involves anyone. -/
  | unprepared {t : RunTrace} {r : StepResult} (alone : ∀ x ∈ t, ¬ x.Involves)
      (failed : r.status = .failed) : Passage c run ctx step (⟨.stopRequested, false⟩ :: t) r
  /-- The gate is not passed. -/
  | refused {reads : RunTrace} {inputs : Fields Json} {prompt : String} {a : Approval}
      (t₀ : Instant) (prepared : Prepared c run ctx step reads inputs (some prompt))
      (no : a ≠ .approved) :
      Passage c run ctx step
        (approach t₀ reads ++ [⟨.approval step.name prompt c.gateTimeoutSecs, a⟩])
        (StepResult.skipped step.name)
  /-- The gate is passed, and the step does its work. -/
  | passed {reads labour : RunTrace} {inputs : Fields Json} {prompt : String}
      {worked r : StepResult} (t₀ : Instant)
      (prepared : Prepared c run ctx step reads inputs (some prompt))
      (work : WorkCourse step inputs (some prompt) t₀ labour worked) :
      Passage c run ctx step
        (approach t₀ reads ++ ⟨.approval step.name prompt c.gateTimeoutSecs, .approved⟩ :: labour) r
  /-- There is no gate. -/
  | ungated {reads labour : RunTrace} {inputs : Fields Json} {worked r : StepResult} (t₀ : Instant)
      (prepared : Prepared c run ctx step reads inputs none)
      (work : WorkCourse step inputs none t₀ labour worked) :
      Passage c run ctx step (approach t₀ reads ++ labour) r

theorem store_of_stepMemory {c : Config} {run : RunId} {step : Step} {reads : RunTrace}
    {m : Except StoreError (Fields Json)} (h : Yields (stepMemory c run step) reads m) :
    ∀ x ∈ reads, ∃ q, x.question = .store q := by
  intro x hx
  cases readOf_stepMemory h x hx with
  | intro => exact ⟨_, rfl⟩

theorem not_involves_store {x : RunExchange} (h : ∃ q, x.question = .store q) : ¬ x.Involves := by
  obtain ⟨q, hq⟩ := h
  intro involves
  cases involves <;> cases hq

theorem not_involves_time {x : RunExchange} (h : x.question = .time) : ¬ x.Involves := by
  intro involves
  cases involves <;> cases h

theorem StepCourse.passage {c : Config} {run : RunId} {ctx : RunContext} {step : Step}
    {t : RunTrace} {r : StepResult} {abort : Option AbortReason}
    (h : StepCourse c run ctx step t r abort) : Passage c run ctx step t r := by
  -- the reads and the readings of the clock involve nobody
  have alone : ∀ {t₀ t₁ : Instant} {reads : RunTrace} {m},
      Yields (stepMemory c run step) reads m →
      ∀ x ∈ (⟨.time, t₀⟩ :: reads ++ [⟨.time, t₁⟩] : RunTrace), ¬ x.Involves := by
    intro t₀ t₁ reads m read x hx
    simp only [List.mem_append, List.mem_cons, List.not_mem_nil, or_false] at hx
    rcases hx with (rfl | hx) | rfl
    · exact not_involves_time rfl
    · exact not_involves_store (store_of_stepMemory read x hx)
    · exact not_involves_time rfl
  cases h with
  | stopped => exact .stopped
  | unread t₀ t₁ read result =>
    subst result
    exact .unprepared (alone read) rfl
  | unresolved t₀ t₁ read _ result =>
    subst result
    exact .unprepared (alone read) rfl
  | unprompted t₀ t₁ read _ gate result =>
    subst result
    cases gate
    rw [List.append_nil]
    exact .unprepared (alone read) rfl
  | refused t₀ read resolved gate =>
    cases gate with
    | refused gate rendered reason =>
      refine .refused t₀ (.gated read resolved gate rendered) ?_
      rintro rfl
      cases reason
  | worked t₀ read resolved gate work =>
    cases gate with
    | absent gate =>
      rw [List.append_nil]
      exact .ungated t₀ (.ungated read resolved gate) work
    | approved gate rendered =>
      rw [List.append_assoc]
      exact .passed t₀ (.gated read resolved gate rendered) work

/-- A record that could not be written changes the result of a success only. -/
theorem Passage.demoted {c : Config} {run : RunId} {ctx : RunContext} {step : Step}
    {t demotion : RunTrace} {r kept : StepResult} {message : String}
    (h : Passage c run ctx step t r) (demoted : Demoted r message demotion kept) :
    Passage c run ctx step t kept := by
  cases h with
  | unreached =>
    rw [demoted.skipped]
    exact .unreached
  | stopped =>
    rw [demoted.skipped]
    exact .stopped
  | unprepared alone failed =>
    cases demoted with
    | success success => cases success.symm.trans failed
    | other => exact .unprepared alone failed
  | refused t₀ prepared no =>
    rw [demoted.skipped]
    exact .refused t₀ prepared no
  | passed t₀ prepared work => exact .passed t₀ prepared work
  | ungated t₀ prepared work => exact .ungated t₀ prepared work

/-! ## 2. A run -/

/-- The results of steps that are skipped. -/
theorem skipped_of_results {ps : List Turn}
    (h : ps.map (·.result) = skippedResults (ps.map (·.step))) {q : Turn} (hq : q ∈ ps) :
    q.result = StepResult.skipped q.step.name := by
  rw [skippedResults, List.map_map] at h
  exact List.map_inj_left.mp h q hq

/-- **Each step of a run takes such a passage**, in the context of the results before it. -/
theorem Course.passage {c : Config} {run : RunId} {ctx : RunContext} {ps front back : List Turn}
    {q : Turn} {abort : Option AbortReason}
    (h : Course c run ctx (ps.map (·.step)) (ps.map (·.toStretch)) (ps.map (·.result)) abort)
    (hps : ps = front ++ q :: back) :
    Passage c run ((front.map (·.result)).foldl RunContext.record ctx) q.step q.work q.result := by
  -- behind the end of the run no step has a turn
  have unreached : ∀ {qs : List Turn} {ctx : RunContext},
      Skips run (qs.map (·.step)) (qs.map (·.toStretch)) →
      qs.map (·.result) = skippedResults (qs.map (·.step)) → q ∈ qs →
      Passage c run ctx q.step q.work q.result := by
    intro qs ctx skips results hq
    rw [skips.silent q.toStretch (List.mem_map.mpr ⟨q, hq, rfl⟩), skipped_of_results results hq]
    exact .unreached
  induction front generalizing ctx ps with
  | nil =>
    subst hps
    rw [List.nil_append, List.map_cons, List.map_cons, List.map_cons] at h
    obtain ⟨⟨work, records⟩, step, result⟩ := q
    generalize results : back.map (·.result) = rs at h
    cases h with
    | goesOn attempted | aborted attempted => exact (yields_attempt attempted).passage
    | unrecorded attempted _ demoted => exact (yields_attempt attempted).passage.demoted demoted
  | cons p front ih =>
    subst hps
    have later : q ∈ front ++ q :: back := by simp
    rw [List.cons_append, List.map_cons, List.map_cons, List.map_cons] at h
    obtain ⟨⟨work, records⟩, step, result⟩ := p
    generalize results : (front ++ q :: back).map (·.result) = rs at h
    cases h with
    | goesOn _ _ rest =>
      subst results
      exact ih rest rfl
    | aborted _ _ skipped => exact unreached skipped results later
    | unrecorded _ _ _ _ skipped => exact unreached skipped results later

/-- Behind a step that is skipped all are. -/
theorem Tally.rest_skipped {steps : List Step} {rs front back : List StepResult} {r : StepResult}
    (h : Tally steps rs) (hrs : rs = front ++ r :: back) (skipped : r.status = .skipped) :
    ∀ x ∈ back, x.status = .skipped := by
  induction h generalizing front with
  | skipped steps =>
    intro x hx
    exact @skipped_of_mem steps x (hrs ▸ by simp [hx])
  | carriedOut carriedOut _ ih =>
    cases front with
    | nil =>
      obtain ⟨rfl, -⟩ := List.cons.inj hrs
      exact absurd skipped carriedOut.not_skipped
    | cons a front =>
      obtain ⟨-, later⟩ := List.cons.inj hrs
      exact ih later

/-- Nothing happens behind a step that is skipped. -/
theorem Turns.rest_quiet {run : RunId} {steps : List Step} {rs : List StepResult}
    {ss : List Stretch} {ps front back : List Turn} {q : Turn} (h : Turns run steps rs ss ps)
    (hps : ps = front ++ q :: back) (skipped : q.result.status = .skipped) :
    ∀ p ∈ back, ¬ p.Engages := by
  intro p hp engages
  have before := h.before
  rw [hps] at before
  have pair := (List.pairwise_cons.mp (List.pairwise_append.mp before).2.1).1 p hp
  exact (pair engages).2.1 skipped

/-! ## 3. In front of a gate and of a call -/

/-- What has to stand in front of an exchange. -/
inductive Warranted (steps : List Step) : RunTrace → RunExchange → Prop where
  | alone {x : RunExchange} (front : RunTrace) (h : ¬ x.Involves) : Warranted steps front x
  /-- Someone is asked in a turn in which the run has not been told to stop, and after nothing but
  reads. -/
  | approval {before lead : RunTrace}
      (reads : ∀ x ∈ lead, x.question = .time ∨ ∃ q, x.question = .store q)
      (step prompt : String) (limit : Option Nat) (a : Approval) :
      Warranted steps (before ++ ⟨.stopRequested, false⟩ :: lead) ⟨.approval step prompt limit, a⟩
  /-- The tool of a step with a gate is called directly behind a yes for that step. -/
  | call {front : RunTrace} {step : Step} {tool : String} (there : step ∈ steps)
      (h : step.tool = some tool)
      (gated : step.gatePrompt? ≠ none → ∃ before prompt limit,
        front = before ++ [⟨.approval step.name prompt limit, .approved⟩])
      (inputs : Fields Json) (limit : Option Nat) (x : Except Failure ToolOutput) :
      Warranted steps front ⟨.call tool inputs limit, x⟩

/-- What stands further in front does not matter. -/
theorem Warranted.further {steps : List Step} {front : RunTrace} {x : RunExchange}
    (h : Warranted steps front x) (more : RunTrace) : Warranted steps (more ++ front) x := by
  cases h with
  | alone _ h => exact .alone _ h
  | approval reads =>
    rw [← List.append_assoc]
    exact .approval reads ..
  | call there tool gated =>
    refine .call there tool (fun gate => ?_) ..
    obtain ⟨before, prompt, limit, rfl⟩ := gated gate
    exact ⟨more ++ before, prompt, limit, (List.append_assoc ..).symm⟩

/-- Every exchange has in front of it what it has to. -/
def Led (steps : List Step) (t : RunTrace) : Prop :=
  ∀ front x back, t = front ++ x :: back → Warranted steps front x

theorem led_of_alone {steps : List Step} {t : RunTrace} (h : ∀ x ∈ t, ¬ x.Involves) :
    Led steps t := by
  rintro front x back rfl
  exact .alone front (h x (by simp))

theorem Led.append {steps : List Step} {t u : RunTrace} (ht : Led steps t) (hu : Led steps u) :
    Led steps (t ++ u) := by
  intro front x back split
  rcases List.append_eq_append_iff.mp split with ⟨mid, rfl, hmid⟩ | ⟨mid, rfl, hmid⟩
  · exact (hu mid x back hmid).further t
  · cases mid with
    | nil =>
      have first := hu [] x back hmid.symm
      simpa using first.further front
    | cons y mid =>
      obtain ⟨rfl, rfl⟩ := List.cons.inj hmid
      exact ht front x mid rfl

theorem Led.snoc {steps : List Step} {t : RunTrace} {x : RunExchange} (h : Led steps t)
    (warranted : Warranted steps t x) : Led steps (t ++ [x]) := by
  intro front y back split
  rcases List.eq_nil_or_concat back with rfl | ⟨mid, z, rfl⟩
  · obtain ⟨rfl, last⟩ := List.append_inj' split rfl
    obtain rfl := List.singleton_inj.mp last
    exact warranted
  · rw [List.concat_eq_append, ← List.cons_append, ← List.append_assoc] at split
    exact h front y mid (List.append_inj' split rfl).1

theorem not_involves_stop {b : Bool} : ¬ RunExchange.Involves ⟨.stopRequested, b⟩ := by
  intro involves
  cases involves

theorem Prepared.store {c : Config} {run : RunId} {ctx : RunContext} {step : Step}
    {reads : RunTrace} {inputs : Fields Json} {prompt : Option String}
    (h : Prepared c run ctx step reads inputs prompt) : ∀ x ∈ reads, ∃ q, x.question = .store q := by
  cases h with
  | ungated read | gated read => exact store_of_stepMemory read

theorem not_involves_approach {t₀ : Instant} {reads : RunTrace}
    (store : ∀ x ∈ reads, ∃ q, x.question = .store q) : ∀ x ∈ approach t₀ reads, ¬ x.Involves := by
  intro x hx
  rcases List.mem_cons.mp hx with rfl | hx
  · exact not_involves_stop
  · rcases List.mem_cons.mp hx with rfl | hx
    · exact not_involves_time rfl
    · exact not_involves_store (store x hx)

theorem led_approach {steps : List Step} {t₀ : Instant} {reads : RunTrace}
    (store : ∀ x ∈ reads, ∃ q, x.question = .store q) : Led steps (approach t₀ reads) :=
  led_of_alone (not_involves_approach store)

/-- The reads of a step lead to its gate. -/
theorem led_gate {steps : List Step} {t₀ : Instant} {reads : RunTrace}
    (store : ∀ x ∈ reads, ∃ q, x.question = .store q) (step prompt : String) (limit : Option Nat)
    (a : Approval) : Led steps (approach t₀ reads ++ [⟨.approval step prompt limit, a⟩]) := by
  have reads : ∀ x ∈ (⟨.time, t₀⟩ :: reads : RunTrace),
      x.question = .time ∨ ∃ q, x.question = .store q :=
    List.forall_mem_cons.mpr ⟨.inl rfl, fun x hx => .inr (store x hx)⟩
  exact (led_approach store).snoc (@Warranted.approval steps [] _ reads step prompt limit a)

/-- The work of a step is led by what stands in front of it. -/
theorem Led.work {steps : List Step} {front labour : RunTrace} {step : Step}
    {inputs : Fields Json} {prompt : Option String} {t₀ : Instant} {r : StepResult}
    (h : Led steps front) (there : step ∈ steps)
    (gated : step.gatePrompt? ≠ none → ∃ before prompt limit,
      front = before ++ [⟨.approval step.name prompt limit, .approved⟩])
    (work : WorkCourse step inputs prompt t₀ labour r) : Led steps (front ++ labour) := by
  cases work with
  | confirmed => exact h.snoc (.alone _ (not_involves_time rfl))
  | succeeded tool | failed tool =>
    rw [List.append_cons]
    exact (h.snoc (.call there tool gated ..)).snoc (.alone _ (not_involves_time rfl))

theorem Passage.led {c : Config} {run : RunId} {ctx : RunContext} {steps : List Step} {step : Step}
    {t : RunTrace} {r : StepResult} (h : Passage c run ctx step t r) (there : step ∈ steps) :
    Led steps t := by
  cases h with
  | unreached => exact led_of_alone (by simp)
  | stopped => exact led_of_alone (by simp [not_involves_stop])
  | unprepared alone => exact led_of_alone (List.forall_mem_cons.mpr ⟨not_involves_stop, alone⟩)
  | refused t₀ prepared => exact led_gate prepared.store _ _ _ _
  | passed t₀ prepared work =>
    rw [List.append_cons]
    exact (led_gate prepared.store _ _ _ _).work there (fun _ => ⟨_, _, _, rfl⟩) work
  | ungated t₀ prepared work =>
    refine (led_approach prepared.store).work there (fun gate => ?_) work
    cases prepared with
    | ungated _ _ none => exact absurd none gate

/-! ## 4. The run -/

/-- A run with this record and these exchanges keeps to the gates of its steps. -/
structure KeepsGates (c : Config) (w : Workflow) (run : RunId) (params : Fields Json) (t : RunTrace)
    (rec : RunRecord) : Prop where
  /-- Others are involved in the turns of the steps, and only up to their results. Each turn is a
  passage, and behind a step that is skipped all are skipped and nothing is engaged. -/
  turns : ∃ start ss ps finish, t = start ++ Stretch.traces ss ++ finish ∧
    (∀ x ∈ start ++ finish, ¬ x.Involves) ∧ Turns run w.steps rec.steps ss ps ∧
    ∀ front q back, ps = front ++ q :: back →
      Passage c run
        ((front.map (·.result)).foldl RunContext.record (openingContext c params))
        q.step q.work q.result ∧
      (∀ x ∈ q.records, ¬ x.Involves) ∧
      (q.result.status = .skipped → ∀ p ∈ back, p.result.status = .skipped ∧ ¬ p.Engages)
  led : Led w.steps t

theorem RunCourse.passage {c : Config} {w : Workflow} {run : RunId} {params : Fields Json}
    {start : RunTrace} {rs : List StepResult} {ss : List Stretch} {abort : Option AbortReason}
    (h : RunCourse c w run params start ss rs abort) {ps front back : List Turn} {q : Turn}
    (turns : Turns run w.steps rs ss ps) (hps : ps = front ++ q :: back) :
    Passage c run ((front.map (·.result)).foldl RunContext.record (openingContext c params))
      q.step q.work q.result := by
  have hq : q ∈ ps := by simp [hps]
  cases h with
  | unstarted =>
    have silent : q.toStretch ∈ w.steps.map fun _ => ({} : Stretch) := by
      rw [← turns.stretches_eq]
      exact List.mem_map.mpr ⟨q, hq, rfl⟩
    obtain ⟨_, -, empty⟩ := List.mem_map.mp silent
    have results := turns.results_eq
    rw [← turns.steps_eq] at results
    rw [← congrArg Stretch.work empty, skipped_of_results results hq]
    exact .unreached
  | started _ course =>
    rw [← turns.steps_eq, ← turns.stretches_eq, ← turns.results_eq] at course
    exact course.passage hps

theorem led_traces {steps : List Step} {ps : List Turn}
    (h : ∀ p ∈ ps, Led steps p.work ∧ ∀ x ∈ p.records, ¬ x.Involves) :
    Led steps (Stretch.traces (ps.map (·.toStretch))) := by
  induction ps with
  | nil => exact led_of_alone (by simp)
  | cons p ps ih =>
    obtain ⟨⟨work, records⟩, later⟩ := List.forall_mem_cons.mp h
    exact (work.append (led_of_alone records)).append (ih later)

/-- **Every run keeps to the gates of its steps**, whatever is answered. -/
theorem keepsGates_of_yields {c : Config} {w : Workflow} {run : RunId} {params : Fields Json}
    {t : RunTrace} {rec : RunRecord} (h : Yields (execute c w run params) t rec) :
    KeepsGates c w run params t rec := by
  obtain ⟨t₀, t₁, start, ss, abort, rfl, course, -⟩ := yields_execute h
  obtain ⟨ps, turns⟩ := course.turns
  have records : ∀ p ∈ ps, ∀ x ∈ p.records, ¬ x.Involves := fun p hp x hx involves =>
    ((turns.own p hp).records x hx).quiet involves.engages
  have opening : ∀ x ∈ (⟨.time, t₀⟩ :: start : RunTrace), ¬ x.Involves := fun x hx involves =>
    (course.startOf_timed t₀ x hx).quiet involves.engages
  have closing : ∀ x ∈ ([⟨.time, t₁⟩] : RunTrace), ¬ x.Involves := by
    intro x hx
    rw [List.mem_singleton.mp hx]
    exact not_involves_time rfl
  constructor
  · refine ⟨⟨.time, t₀⟩ :: start, ss, ps, [⟨.time, t₁⟩], rfl, ?_, turns, ?_⟩
    · exact List.forall_mem_append.mpr ⟨opening, closing⟩
    · intro front q back hps
      refine ⟨course.passage turns hps, records q (by simp [hps]), fun skipped p hp => ?_⟩
      have results := turns.results_eq
      rw [hps, List.map_append, List.map_cons] at results
      exact ⟨course.tally.rest_skipped results.symm skipped _ (List.mem_map.mpr ⟨p, hp, rfl⟩),
        turns.rest_quiet hps skipped p hp⟩
  · have steps : Led w.steps (Stretch.traces ss) := by
      rw [← turns.stretches_eq]
      refine led_traces fun p hp => ⟨?_, records p hp⟩
      obtain ⟨front, back, hps⟩ := List.append_of_mem hp
      refine (course.passage turns hps).led ?_
      rw [← turns.steps_eq]
      exact List.mem_map.mpr ⟨p, hp, rfl⟩
    exact ((led_of_alone opening).append steps).append (led_of_alone closing)

end Execution
end Runbook
