import Runbook.Proofs.Run.Course

/-!
# The results of a run

A record accounts for its workflow: it has one result for each step, in the order of the steps;
the steps were carried out up to some point and skipped from there; and a completed run skipped
none and only went past failures that its workflow allows.

`Tally` is the shape of the results, and every course of a run has it, whichever way the run is
left. Whether the run completed depends on the abort reason alone, so the last claims are about
courses without one.
-/

set_option autoImplicit false

namespace Runbook
namespace Execution

open Dialogue RunDialogue

/-! ## 1. Single results -/

theorem CarriedOut.step_eq {name : String} {r : StepResult} (h : CarriedOut name r) :
    r.step = name := by
  cases h <;> rfl

theorem CarriedOut.status {name : String} {r : StepResult} (h : CarriedOut name r) :
    r.status = .success ∨ r.status = .failed := by
  cases h with
  | success => exact .inl rfl
  | failed => exact .inr rfl

theorem CarriedOut.not_skipped {name : String} {r : StepResult} (h : CarriedOut name r) :
    r.status ≠ .skipped := by
  cases h <;> simp [StepResult.success, StepResult.failed]

/-- A failure that does not abort the run is one that the policy allows. -/
theorem CarriedOut.tolerated {step : Step} {r : StepResult} (h : CarriedOut step.name r)
    (failed : r.status = .failed) (goesOn : consequence step r = none) :
    step.onFailure = .proceed := by
  cases h with
  | success => exact absurd failed (by simp [StepResult.success])
  | failed f t₀ t₁ =>
    simp only [consequence, StepResult.failed] at goesOn
    split at goesOn
    · exact absurd goesOn (by simp)
    · split at goesOn
      · assumption
      · exact absurd goesOn (by simp)

/-- A result that could not be recorded stays one of its step. -/
theorem Demoted.carriedOut {name message : String} {r kept : StepResult} {t : RunTrace}
    (h : Demoted r message t kept) (hr : CarriedOut name r) : CarriedOut name kept := by
  cases h with
  | success =>
    rw [hr.step_eq]
    exact .failed _ _ _
  | other => exact hr

theorem Demoted.skipped {name message : String} {kept : StepResult} {t : RunTrace}
    (h : Demoted (StepResult.skipped name) message t kept) : kept = StepResult.skipped name := by
  cases h with
  | success h => exact absurd h (by simp [StepResult.skipped])
  | other => rfl

/-! ## 2. Their shape -/

/-- Steps are carried out up to some point, and skipped from there. -/
inductive Tally : List Step → List StepResult → Prop where
  | skipped (steps : List Step) : Tally steps (skippedResults steps)
  | carriedOut {step : Step} {rest : List Step} {r : StepResult} {rs : List StepResult}
      (h : CarriedOut step.name r) (later : Tally rest rs) : Tally (step :: rest) (r :: rs)

theorem names_skippedResults (steps : List Step) :
    (skippedResults steps).map (·.step) = steps.map (·.name) := by
  rw [skippedResults, List.map_map]
  rfl

theorem skipped_of_mem {steps : List Step} {r : StepResult} (h : r ∈ skippedResults steps) :
    r.status = .skipped := by
  obtain ⟨s, -, rfl⟩ := List.mem_map.mp h
  rfl

theorem Tally.names {steps : List Step} {rs : List StepResult} (h : Tally steps rs) :
    rs.map (·.step) = steps.map (·.name) := by
  induction h with
  | skipped steps => exact names_skippedResults steps
  | carriedOut h _ ih => rw [List.map_cons, List.map_cons, h.step_eq, ih]

theorem Tally.blocks {steps : List Step} {rs : List StepResult} (h : Tally steps rs) :
    ∃ front back, rs = front ++ back ∧
      (∀ r ∈ front, r.status = .success ∨ r.status = .failed) ∧
        ∀ r ∈ back, r.status = .skipped := by
  induction h with
  | skipped steps => exact ⟨[], _, rfl, by simp, fun _ => skipped_of_mem⟩
  | carriedOut h _ ih =>
    obtain ⟨front, back, rfl, hfront, hback⟩ := ih
    refine ⟨_ :: front, back, rfl, ?_, hback⟩
    intro r hr
    rcases List.mem_cons.mp hr with rfl | hr
    · exact h.status
    · exact hfront r hr

/-- The step at hand is carried out or skipped, and all steps behind it are skipped. -/
theorem tally_last {step : Step} {rest : List Step} {r : StepResult}
    (h : CarriedOut step.name r ∨ r = StepResult.skipped step.name) :
    Tally (step :: rest) (r :: skippedResults rest) := by
  rcases h with h | rfl
  · exact .carriedOut h (.skipped rest)
  · exact .skipped (step :: rest)

theorem Course.tally {c : Config} {run : RunId} {ctx : RunContext} {steps : List Step}
    {ss : List Stretch} {rs : List StepResult} {abort : Option AbortReason}
    (h : Course c run ctx steps ss rs abort) : Tally steps rs := by
  induction h with
  | ended => exact .skipped []
  | goesOn attempted _ _ ih =>
    rcases (yields_attempt attempted).result with ⟨carriedOut, -⟩ | ⟨-, aborts⟩
    · exact .carriedOut carriedOut ih
    · exact absurd aborts (by simp)
  | aborted attempted => exact tally_last ((yields_attempt attempted).result.imp (·.1) (·.1))
  | unrecorded attempted _ demoted =>
    rcases (yields_attempt attempted).result with ⟨carriedOut, -⟩ | ⟨rfl, -⟩
    · exact tally_last (.inl (demoted.carriedOut carriedOut))
    · exact tally_last (.inr demoted.skipped)

theorem RunCourse.tally {c : Config} {w : Workflow} {run : RunId} {params : Fields Json}
    {start : RunTrace} {ss : List Stretch} {rs : List StepResult} {abort : Option AbortReason}
    (h : RunCourse c w run params start ss rs abort) : Tally w.steps rs := by
  cases h with
  | unstarted => exact .skipped w.steps
  | started _ course => exact course.tally

/-! ## 3. Runs that are not aborted -/

/-- Without a reason to abort, each step was carried out and allowed the run to go on. -/
theorem Course.unaborted {c : Config} {run : RunId} {ctx : RunContext} {steps : List Step}
    {ss : List Stretch} {rs : List StepResult} {abort : Option AbortReason}
    (h : Course c run ctx steps ss rs abort) (unaborted : abort = none) :
    ∀ p ∈ steps.zip rs, CarriedOut p.1.name p.2 ∧ consequence p.1 p.2 = none := by
  induction h with
  | ended =>
    intro p hp
    exact absurd hp (by simp)
  | goesOn attempted _ _ ih =>
    intro p hp
    rcases List.mem_cons.mp hp with rfl | hp
    · rcases (yields_attempt attempted).result with ⟨carriedOut, goesOn⟩ | ⟨-, aborts⟩
      · exact ⟨carriedOut, goesOn.symm⟩
      · exact absurd aborts (by simp)
    · exact ih unaborted p hp
  | aborted | unrecorded => exact absurd unaborted (by simp)

theorem RunCourse.unaborted {c : Config} {w : Workflow} {run : RunId} {params : Fields Json}
    {start : RunTrace} {ss : List Stretch} {rs : List StepResult} {abort : Option AbortReason}
    (h : RunCourse c w run params start ss rs abort) (unaborted : abort = none) :
    ∀ p ∈ w.steps.zip rs, CarriedOut p.1.name p.2 ∧ consequence p.1 p.2 = none := by
  cases h with
  | unstarted => exact absurd unaborted (by simp)
  | started _ course => exact course.unaborted unaborted

/-- If all steps with a result were carried out, none was skipped. -/
theorem Tally.none_skipped {steps : List Step} {rs : List StepResult} (h : Tally steps rs)
    (all : ∀ p ∈ steps.zip rs, CarriedOut p.1.name p.2) : ∀ r ∈ rs, r.status ≠ .skipped := by
  -- there are as many results as steps, so each result is paired with a step
  have len : steps.length = rs.length := by simpa using congrArg List.length h.names.symm
  intro r hr
  obtain ⟨i, hi, rfl⟩ := List.mem_iff_getElem.mp hr
  have hp : (steps[i], rs[i]) ∈ steps.zip rs :=
    List.mem_iff_getElem.mpr ⟨i, by simp [len, hi], by simp⟩
  exact (all _ hp).not_skipped

/-! ## 4. The record -/

/-- The record accounts for the workflow. -/
structure Accounts (w : Workflow) (rec : RunRecord) : Prop where
  /-- One result for each step, in the order of the steps. -/
  names : rec.steps.map (·.step) = w.steps.map (·.name)
  blocks : ∃ front back, rec.steps = front ++ back ∧
    (∀ r ∈ front, r.status = .success ∨ r.status = .failed) ∧ ∀ r ∈ back, r.status = .skipped
  completed_iff : rec.status = .completed ↔ rec.abort = none
  aborted_iff : rec.status = .aborted ↔ rec.abort ≠ none
  none_skipped : rec.status = .completed → ∀ r ∈ rec.steps, r.status ≠ .skipped
  tolerated : rec.status = .completed →
    ∀ p ∈ w.steps.zip rec.steps, p.2.status = .failed → p.1.onFailure = .proceed

theorem accounts_of_yields {c : Config} {w : Workflow} {run : RunId} {params : Fields Json}
    {t : RunTrace} {rec : RunRecord} (h : Yields (execute c w run params) t rec) :
    Accounts w rec := by
  obtain ⟨t₀, t₁, start, ss, abort, -, course, hrec⟩ := yields_execute h
  have status : rec.status = if abort.isSome then .aborted else .completed := by rw [hrec]
  have habort : rec.abort = abort := by rw [hrec]
  have completed_iff : rec.status = .completed ↔ rec.abort = none := by
    rw [status, habort]
    cases abort <;> simp
  have carriedOut : rec.status = .completed →
      ∀ p ∈ w.steps.zip rec.steps, CarriedOut p.1.name p.2 ∧ consequence p.1 p.2 = none := by
    intro completed
    exact course.unaborted (habort.symm.trans (completed_iff.mp completed))
  refine ⟨course.tally.names, course.tally.blocks, completed_iff, ?_, ?_, ?_⟩
  · rw [status, habort]
    cases abort <;> simp
  · intro completed
    exact course.tally.none_skipped fun p hp => (carriedOut completed p hp).1
  · intro completed p hp failed
    obtain ⟨result, goesOn⟩ := carriedOut completed p hp
    exact result.tolerated failed goesOn

/-- **Whatever the surroundings answer, a run comes to a record, and it accounts for the
workflow.** -/
theorem execute_accounts {σ : Type} (reply : (q : RunQuestion) → σ → RunAnswer q × σ) (s : σ)
    (c : Config) (w : Workflow) (run : RunId) (params : Fields Json) :
    Accounts w ((execute c w run params).answered reply s).1 :=
  accounts_of_yields (yields_transcript reply _ s)

end Execution
end Runbook
