import Runbook.Engine.Basic

/-!
# Accepted workflows

What may be relied on in a workflow that keeps the rules, and in the workflows of an engine, which
all keep them. The rules are checked in one pass that carries the names seen so far; what it
promises of a list of steps is therefore stated relative to the names before it.
-/

set_option autoImplicit false

namespace Runbook

namespace Workflow

/-- Names of accepted steps are new, and differ from one another. -/
theorem nodup_of_checkSteps {w : String} {params all earlier : List String} {steps : List Step}
    (h : checkSteps w params all earlier steps = .ok ()) :
    (∀ s ∈ steps, s.name ∉ earlier) ∧ (steps.map (·.name)).Nodup := by
  induction steps generalizing earlier with
  | nil => exact ⟨by simp, .nil⟩
  | cons s rest ih =>
    unfold checkSteps at h
    split at h
    · cases h
    · split at h
      · cases h
      · next checked =>
        obtain ⟨later, distinct⟩ := ih h
        have new : s.name ∉ earlier := by
          intro hm
          rw [checkStep, if_pos (List.contains_iff_mem.mpr hm)] at checked
          cases checked
        constructor
        · intro x hx hm
          rcases List.mem_cons.mp hx with rfl | hx
          · exact new hm
          · exact later x hx (List.mem_cons_of_mem _ hm)
        · refine List.nodup_cons.mpr ⟨fun hm => ?_, distinct⟩
          obtain ⟨x, hx, hn⟩ := List.mem_map.mp hm
          exact later x hx (by simp [hn])

theorem nodup_of_check {w : Workflow} (h : w.check = .ok ()) : w.stepNames.Nodup := by
  unfold check at h
  split at h
  · cases h
  · split at h
    · cases h
    · split at h
      · cases h
      · exact (nodup_of_checkSteps h).2

end Workflow

namespace Engine

theorem check_of_checkWorkflows {tools seen : List String} {ws : List Workflow}
    (h : checkWorkflows tools seen ws = .ok ()) : ∀ w ∈ ws, w.check = .ok () := by
  induction ws generalizing seen with
  | nil => simp
  | cons w rest ih =>
    unfold checkWorkflows at h
    split at h
    · cases h
    · next checked =>
      split at h
      · cases h
      · split at h
        · cases h
        · intro x hx
          rcases List.mem_cons.mp hx with rfl | hx
          · exact checked
          · exact ih h x hx

/-- An engine has accepted workflows only. -/
theorem check_of_make {c : Config} {r : Registry} {ws : List Workflow} {e : Engine}
    (h : make c r ws = .ok e) : ∀ w ∈ e.workflows, w.check = .ok () := by
  unfold make at h
  split at h
  · cases h
  · next checked =>
    cases h
    exact check_of_checkWorkflows checked

/-- A run that starts is one of a workflow of the engine, with parameters that could be bound. -/
theorem start_ok {e : Engine} {active active' : ActiveRuns} {name : String} {run : RunId}
    {provided : Fields Json} {signal : Schedule.Signal} {d : RunDialogue RunRecord}
    (h : e.start active name run provided signal = .ok (d, active')) :
    ∃ w params, w ∈ e.workflows ∧ w.name = name ∧ w.bindParams provided = .ok params ∧
      Fields.has run active = false ∧ d = Execution.execute e.config w run params ∧
      active' = active ++ [(run, signal)] := by
  unfold start at h
  split at h
  · cases h
  · next w found =>
    split at h
    · cases h
    · next params bound =>
      split at h
      · cases h
      · next idle =>
        cases h
        have named := List.find?_some found
        exact ⟨w, params, List.mem_of_find?_eq_some found, of_decide_eq_true named, bound,
          Bool.eq_false_iff.mpr idle, rfl, rfl⟩

end Engine
end Runbook
