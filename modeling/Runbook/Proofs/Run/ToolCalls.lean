import Mathlib.Data.List.Forall2
import Runbook.Proofs.Run.Gates

/-!
# Whom a run calls

A run calls the tools of its steps, each with inputs that were resolved from what the step says, and
the result of the step quotes the answer (`errands_of_yields`). What else a step may fail from are the
run's own failures: that a tool is unknown is no invention of the run.
-/

set_option autoImplicit false

namespace Runbook

/-- The failures of a run, as opposed to those of its tools. -/
inductive FailureKind.OfRun : FailureKind → Prop where
  | templateResolution : OfRun .templateResolution
  | storeRead : OfRun .storeRead
  | storeWrite : OfRun .storeWrite

namespace Execution

open Dialogue RunDialogue

/-- The tool of the step was called with its inputs, and answered so. -/
structure Called (c : Config) (t : RunTrace) (step : Step) (tool : String) (inputs : Fields Json)
    (x : Except Failure ToolOutput) : Prop where
  named : step.tool = some tool
  resolved : ∃ scope, resolveInputs c.missingPath scope step.inputs = .ok inputs
  there : ⟨.call tool inputs step.timeoutSecs, x⟩ ∈ t

/-- What the result of a step says has come of its tool is what the tool answered. -/
structure Quotes (c : Config) (t : RunTrace) (step : Step) (r : StepResult) : Prop where
  output : ∀ o, r.output = some o →
    step.tool = none ∨ ∃ tool inputs, Called c t step tool inputs (.ok o)
  error : ∀ f, r.error = some f →
    f.kind.OfRun ∨ ∃ tool inputs, Called c t step tool inputs (.error f)

/-- Whom the steps call, and what their results say of it. -/
structure Errands (c : Config) (steps : List Step) (t : RunTrace) (rs : List StepResult) : Prop where
  calls : ∀ tool inputs limit x, ⟨.call tool inputs limit, x⟩ ∈ t →
    ∃ step ∈ steps, Called c t step tool inputs x
  results : List.Forall₂ (Quotes c t) steps rs

variable {c : Config} {run : RunId} {ctx : RunContext} {step : Step} {steps steps' : List Step}
  {t t' : RunTrace} {r : StepResult} {rs rs' : List StepResult} {abort : Option AbortReason}

theorem Called.mono {tool : String} {inputs : Fields Json} {x : Except Failure ToolOutput}
    (h : Called c t step tool inputs x) (more : ∀ y ∈ t, y ∈ t') : Called c t' step tool inputs x :=
  ⟨h.named, h.resolved, more _ h.there⟩

theorem Quotes.mono (h : Quotes c t step r) (more : ∀ y ∈ t, y ∈ t') : Quotes c t' step r where
  output o said := (h.output o said).imp_right fun ⟨tool, inputs, called⟩ =>
    ⟨tool, inputs, called.mono more⟩
  error f said := (h.error f said).imp_right fun ⟨tool, inputs, called⟩ =>
    ⟨tool, inputs, called.mono more⟩

theorem Errands.append (h : Errands c steps t rs) (h' : Errands c steps' t' rs') :
    Errands c (steps ++ steps') (t ++ t') (rs ++ rs') where
  calls tool inputs limit x hx := by
    rcases List.mem_append.mp hx with hx | hx
    · obtain ⟨step, there, called⟩ := h.calls tool inputs limit x hx
      exact ⟨step, List.mem_append_left _ there, called.mono fun _ => List.mem_append_left _⟩
    · obtain ⟨step, there, called⟩ := h'.calls tool inputs limit x hx
      exact ⟨step, List.mem_append_right _ there, called.mono fun _ => List.mem_append_right _⟩
  results :=
    List.rel_append (h.results.imp fun _ _ quotes => quotes.mono fun _ => List.mem_append_left _)
      (h'.results.imp fun _ _ quotes => quotes.mono fun _ => List.mem_append_right _)

/-- Nobody is called. -/
theorem Errands.of_quiet (quiet : ∀ x ∈ t, ¬ x.Involves)
    (results : List.Forall₂ (Quotes c t) steps rs) : Errands c steps t rs :=
  ⟨fun _ _ _ _ hx => absurd (.call ..) (quiet _ hx), results⟩

theorem Errands.of_unengaged (quiet : ∀ x ∈ t, ¬ x.Engages)
    (results : List.Forall₂ (Quotes c t) steps rs) : Errands c steps t rs :=
  .of_quiet (fun x hx involves => quiet x hx involves.engages) results

/-! ## 1. A step -/

theorem quotes_skipped (name : String) : Quotes c t step (StepResult.skipped name) where
  output _ said := by cases said
  error _ said := by cases said

/-- A failure of the run itself quotes nobody. -/
theorem quotes_failed {f : Failure} (own : f.kind.OfRun) (name : String) (t₀ t₁ : Instant) :
    Quotes c t step (StepResult.failed name f t₀ t₁) where
  output _ said := by cases said
  error _ said := by
    cases said
    exact .inl own

/-- A result that could not be recorded says no more than it did. -/
theorem Quotes.demoted {kept : StepResult} {message : String} {demotion : RunTrace}
    (h : Quotes c t step r) (demoted : Demoted r message demotion kept) : Quotes c t step kept := by
  cases demoted with
  | success => exact quotes_failed .storeWrite ..
  | other => exact h

theorem Errands.demoted {kept : StepResult} {message : String} {demotion : RunTrace}
    (h : Errands c [step] t [r]) (demoted : Demoted r message demotion kept) :
    Errands c [step] t [kept] := by
  refine ⟨h.calls, .cons ?_ .nil⟩
  cases h.results with
  | cons quotes => exact quotes.demoted demoted

/-- An input that cannot be resolved is a failure of the run. -/
theorem ofRun_of_resolveInputs {policy : MissingPath} {scope : Scope} {fs : Fields Template}
    {f : Failure} (h : resolveInputs policy scope fs = .error f) : f.kind.OfRun := by
  induction fs with
  | nil => cases h
  | cons e fs ih =>
    rw [resolveInputs] at h
    split at h
    · cases h
      exact .templateResolution
    · split at h
      · next later =>
        cases h
        exact ih later
      · cases h

theorem WorkCourse.errands {inputs : Fields Json} {prompt : Option String} {t₀ : Instant}
    {scope : Scope} (h : WorkCourse step inputs prompt t₀ t r)
    (resolved : resolveInputs c.missingPath scope step.inputs = .ok inputs) :
    Errands c [step] t [r] := by
  -- the tool is called once
  have once {tool : String} (named : step.tool = some tool) (x : Except Failure ToolOutput)
      (t₁ : Instant)
      (quotes : Called c [⟨.call tool inputs step.timeoutSecs, x⟩, ⟨.time, t₁⟩] step tool inputs x →
        Quotes c [⟨.call tool inputs step.timeoutSecs, x⟩, ⟨.time, t₁⟩] step r) :
      Errands c [step] [⟨.call tool inputs step.timeoutSecs, x⟩, ⟨.time, t₁⟩] [r] := by
    have called : Called c [⟨.call tool inputs step.timeoutSecs, x⟩, ⟨.time, t₁⟩] step tool inputs x :=
      ⟨named, ⟨scope, resolved⟩, List.mem_cons_self ..⟩
    refine ⟨fun tool' inputs' limit x' hx => ?_, .cons (quotes called) .nil⟩
    rcases List.mem_cons.mp hx with same | hx
    · cases same
      exact ⟨step, List.mem_singleton_self step, called⟩
    · cases List.mem_singleton.mp hx
  cases h with
  | confirmed none t₁ =>
    have quiet : ¬ RunExchange.Involves ⟨.time, t₁⟩ := not_involves_time rfl
    refine .of_quiet (by simpa using quiet) (.cons ⟨fun _ _ => .inl none, fun _ said => ?_⟩ .nil)
    cases said
  | succeeded named o t₁ =>
    refine once named (.ok o) t₁ fun called => ⟨fun _ said => ?_, fun _ said => ?_⟩
    · cases said
      exact .inr ⟨_, _, called⟩
    · cases said
  | failed named f t₁ =>
    refine once named (.error f) t₁ fun called => ⟨fun _ said => ?_, fun _ said => ?_⟩
    · cases said
    · cases said
      exact .inr ⟨_, _, called⟩

/-- A gate calls no tool. -/
theorem GateCourse.errands {scope : Scope} {p : GatePass} (h : GateCourse c scope step t p) :
    Errands c [] t [] := by
  refine ⟨fun tool inputs limit x hx => ?_, .nil⟩
  cases h with
  | absent | unprompted => cases hx
  | approved | refused => cases List.mem_singleton.mp hx

theorem StepCourse.errands (h : StepCourse c run ctx step t r abort) : Errands c [step] t [r] := by
  have lead {reads : RunTrace} {m : Except StoreError (Fields Json)} (t₀ : Instant)
      (read : Yields (stepMemory c run step) reads m) : Errands c [] (approach t₀ reads) [] :=
    .of_quiet (not_involves_approach (store_of_stepMemory read)) .nil
  -- the step fails before its work
  have fails {t : RunTrace} (quiet : Errands c [] t []) {f : Failure} (own : f.kind.OfRun)
      (t₀ t₁ : Instant) :
      Errands c [step] (t ++ [⟨.time, t₁⟩]) [StepResult.failed step.name f t₀ t₁] :=
    quiet.append (.of_quiet (by simpa using not_involves_time rfl)
      (.cons (quotes_failed own ..) .nil))
  have skips {t : RunTrace} (quiet : Errands c [] t []) :
      Errands c [step] t [StepResult.skipped step.name] :=
    ⟨fun tool inputs limit x hx => by simpa using quiet.calls tool inputs limit x hx,
      .cons (quotes_skipped _) .nil⟩
  cases h with
  | stopped => exact skips (.of_quiet (by simpa using not_involves_stop) .nil)
  | unread t₀ t₁ read result =>
    subst result
    exact fails (lead t₀ read) .storeRead t₀ t₁
  | unresolved t₀ t₁ read unresolved result =>
    subst result
    exact fails (lead t₀ read) (ofRun_of_resolveInputs unresolved) t₀ t₁
  | unprompted t₀ t₁ read resolved gate result =>
    subst result
    refine fails ((lead t₀ read).append gate.errands) ?_ t₀ t₁
    cases gate
    exact .templateResolution
  | refused t₀ read resolved gate => exact skips ((lead t₀ read).append gate.errands)
  | worked t₀ read resolved gate work =>
    exact ((lead t₀ read).append gate.errands).append (work.errands resolved)

/-! ## 2. A run -/

theorem errands_skipped {steps : List Step} (quiet : ∀ x ∈ t, ¬ x.Engages) :
    Errands c steps t (skippedResults steps) := by
  refine .of_unengaged quiet (List.forall₂_map_right_iff.mpr (List.forall₂_same.mpr fun s _ => ?_))
  exact quotes_skipped s.name

theorem Course.errands {ss : List Stretch} (h : Course c run ctx steps ss rs abort) :
    Errands c steps (Stretch.traces ss) rs := by
  have unengaged {t : RunTrace} (quiet : ∀ x ∈ t, ¬ x.Engages) : Errands c [] t [] :=
    .of_unengaged quiet .nil
  induction h with
  | ended => exact .of_quiet (by simp) .nil
  | goesOn attempted recorded _ ih =>
    exact ((yields_attempt attempted).errands.append (unengaged (quiet_record recorded))).append ih
  | aborted attempted recorded skipped =>
    exact ((yields_attempt attempted).errands.append (unengaged (quiet_record recorded))).append
      (errands_skipped skipped.quiet)
  | @unrecorded _ step _ _ records demotion again _ kept _ _ _ attempted failed demoted amended
      skipped =>
    have quiet : ∀ x ∈ records ++ demotion ++ again, ¬ x.Engages := by
      refine List.forall_mem_append.mpr ⟨List.forall_mem_append.mpr ⟨quiet_record failed, ?_⟩, ?_⟩
      · exact fun x hx => (demoted.own run kept.step x hx).quiet
      · exact fun x hx => (amended.own x hx).quiet
    exact (((yields_attempt attempted).errands.demoted demoted).append (unengaged quiet)).append
      (errands_skipped skipped.quiet)

/-- **A run calls the tools of its steps**, and the result of each quotes the answer to its call. -/
theorem errands_of_yields {w : Workflow} {params : Fields Json} {rec : RunRecord}
    (h : Yields (execute c w run params) t rec) : Errands c w.steps t rec.steps := by
  obtain ⟨t₀, t₁, start, ss, abort, rfl, course, -⟩ := yields_execute h
  have opening : Errands c [] (⟨.time, t₀⟩ :: start) [] :=
    .of_unengaged (fun x hx => (course.startOf_timed t₀ x hx).quiet) .nil
  have closing : Errands c [] [⟨.time, t₁⟩] [] :=
    .of_quiet (by simpa using not_involves_time rfl) .nil
  have steps : Errands c w.steps (Stretch.traces ss) rec.steps := by
    generalize rec.steps = rs at course
    cases course with
    | unstarted =>
      have silent : Stretch.traces (w.steps.map fun _ => {}) = [] := by
        simp [Stretch.traces, Stretch.trace]
      rw [silent]
      exact errands_skipped (by simp)
    | started _ course => exact course.errands
  simpa [runTrace] using (opening.append steps).append closing

end Execution
end Runbook
