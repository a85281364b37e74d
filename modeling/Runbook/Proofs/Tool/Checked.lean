import Runbook.Proofs.Tool.FanOut
import Runbook.Tool.Registry

/-!
# The inputs of a fan-out that have passed the check

They have a list of tables as queries, and say how many workers there are to be, if they say so at
all, with a positive number. Inputs that have not are rejected as such, not as a failure of the work.
-/

set_option autoImplicit false

namespace Runbook

/-- The registries that can be made. -/
inductive Registry.Built : Registry → Prop where
  | empty : Built {}
  | ofConfig (c : Config) : Built (.ofConfig c)
  | register {r : Registry} (h : Built r) (t : Tool) : Built (r.register t)
  | setTimeout {r : Registry} (h : Built r) (tool : String) (ms : Nat) : Built (r.setTimeout tool ms)

/-- The ceiling on the workers is never zero. -/
theorem Registry.Built.ceiling {r : Registry} (h : r.Built) : 0 < r.maxFanOut := by
  induction h with
  | empty => exact Nat.succ_pos 3
  | ofConfig c => exact Nat.le_max_left 1 c.maxFanOutWorkers
  | register _ _ ih => exact ih
  | setTimeout _ _ _ ih => exact ih

namespace FanOut

theorem check_ok {inputs : Fields Json} (h : check inputs = .ok ()) :
    checkQueryList inputs = .ok () ∧ checkWorkers inputs = .ok () ∧
      checkFailFast inputs = .ok () := by
  unfold check at h
  cases queries : checkQueryList inputs with
  | error e =>
    rw [queries] at h
    cases h
  | ok =>
    cases workers : checkWorkers inputs with
    | error e =>
      rw [queries, workers] at h
      cases h
    | ok =>
      rw [queries, workers] at h
      exact ⟨rfl, rfl, h⟩

/-- The tool that a query names is a text. -/
def Texted (fs : Fields Json) : Prop := ∀ v, Fields.get? "tool" fs = some v → ∃ s, v = .str s

/-- What the check asks of a query. -/
structure Admissible (fs : Fields Json) : Prop where
  texted : Texted fs
  /-- It names another tool than the fan-out, if it names one. -/
  apart : Fields.get? "tool" fs ≠ some (.str Workflow.fanOutTool)

theorem admissible_of_checkQuery {index : Nat} {fs : Fields Json}
    (h : checkQuery index (.obj fs) = .ok ()) : Admissible fs := by
  unfold checkQuery at h
  dsimp only at h
  split at h
  · next unnamed =>
    have nothing (v : Json) : Fields.get? "tool" fs ≠ some v := by simp [unnamed]
    exact ⟨fun v found => absurd found (nothing v), nothing _⟩
  · next tool named =>
    split at h
    · cases h
    · next other =>
      refine ⟨fun v found => ⟨tool, Option.some.inj (found.symm.trans named)⟩, fun found => ?_⟩
      exact other (Json.str.inj (Option.some.inj (named.symm.trans found)))
  · cases h

theorem checkQueries_ok {index : Nat} {vs : List Json} (h : checkQueries index vs = .ok ()) :
    ∃ fss : List (Fields Json), vs = fss.map .obj ∧ ∀ fs ∈ fss, Admissible fs := by
  induction vs generalizing index with
  | nil => exact ⟨[], rfl, by simp⟩
  | cons v vs ih =>
    rw [checkQueries] at h
    split at h
    · cases h
    · next one =>
      obtain ⟨fss, rfl, admissible⟩ := ih h
      cases v with
      | obj fs =>
        exact ⟨fs :: fss, rfl,
          List.forall_mem_cons.mpr ⟨admissible_of_checkQuery one, admissible⟩⟩
      | null | bool | num | str | arr => cases one

/-- The queries are a list of tables. -/
theorem queries_of_check {inputs : Fields Json} (h : check inputs = .ok ()) :
    ∃ fss : List (Fields Json), Fields.get? "queries" inputs = some (.arr (fss.map .obj)) ∧
      ∀ fs ∈ fss, Admissible fs := by
  obtain ⟨listed, -, -⟩ := check_ok h
  unfold checkQueryList at listed
  split at listed
  · cases listed
  · next vs _ found =>
    obtain ⟨fss, rfl, admissible⟩ := checkQueries_ok listed
    exact ⟨fss, found, admissible⟩
  · cases listed
  · cases listed

theorem tool_accepts {inputs : Fields Json} :
    tool.check inputs = .accepted ↔ check inputs = .ok () := by
  show Tool.Check.ofExcept (check inputs) = .accepted ↔ _
  cases check inputs <;> simp [Tool.Check.ofExcept]

theorem tool_rejects {inputs : Fields Json} {e : ToolError} :
    tool.check inputs = .rejected e ↔ check inputs = .error e := by
  show Tool.Check.ofExcept (check inputs) = .rejected e ↔ _
  cases check inputs <;> simp [Tool.Check.ofExcept]

theorem checkQuery_error {index : Nat} {v : Json} {e : ToolError}
    (h : checkQuery index v = .error e) : ∃ m, e = .validation m := by
  unfold checkQuery at h
  split at h
  · split at h
    · cases h
    · split at h
      · exact ⟨_, (Except.error.inj h).symm⟩
      · cases h
    · exact ⟨_, (Except.error.inj h).symm⟩
  · exact ⟨_, (Except.error.inj h).symm⟩

theorem checkQueries_error {index : Nat} {vs : List Json} {e : ToolError}
    (h : checkQueries index vs = .error e) : ∃ m, e = .validation m := by
  induction vs generalizing index with
  | nil => cases h
  | cons v vs ih =>
    rw [checkQueries] at h
    split at h
    · next one =>
      cases h
      exact checkQuery_error one
    · exact ih h

theorem checkQueryList_error {inputs : Fields Json} {e : ToolError}
    (h : checkQueryList inputs = .error e) : ∃ m, e = .validation m := by
  unfold checkQueryList at h
  split at h
  · exact ⟨_, (Except.error.inj h).symm⟩
  · exact checkQueries_error h
  · exact ⟨_, (Except.error.inj h).symm⟩
  · exact ⟨_, (Except.error.inj h).symm⟩

theorem checkWorkers_error {inputs : Fields Json} {e : ToolError}
    (h : checkWorkers inputs = .error e) : ∃ m, e = .validation m := by
  unfold checkWorkers at h
  split at h
  · cases h
  · split at h
    · cases h
    · exact ⟨_, (Except.error.inj h).symm⟩

theorem checkFailFast_error {inputs : Fields Json} {e : ToolError}
    (h : checkFailFast inputs = .error e) : ∃ m, e = .validation m := by
  unfold checkFailFast at h
  split at h
  · cases h
  · cases h
  · exact ⟨_, (Except.error.inj h).symm⟩

/-- Inputs are rejected as such. -/
theorem check_error {inputs : Fields Json} {e : ToolError} (h : check inputs = .error e) :
    ∃ m, e = .validation m := by
  unfold check at h
  cases queries : checkQueryList inputs with
  | error e =>
    rw [queries] at h
    cases h
    exact checkQueryList_error queries
  | ok =>
    cases workers : checkWorkers inputs with
    | error e =>
      rw [queries, workers] at h
      cases h
      exact checkWorkers_error workers
    | ok =>
      rw [queries, workers] at h
      exact checkFailFast_error h

theorem planQueries_error {index : Nat} {vs : List Json} {e : ToolError}
    (h : planQueries index vs = .error e) : ∃ m, e = .validation m := by
  induction vs generalizing index with
  | nil => cases h
  | cons v vs ih =>
    cases v with
    | obj fs =>
      rw [planQueries] at h
      split at h
      · next later =>
        cases h
        exact ih later
      · cases h
    | null | bool | num | str | arr => exact ⟨_, (Except.error.inj h).symm⟩

theorem plan_error {ceiling : Nat} {inputs : Fields Json} {e : ToolError}
    (h : plan ceiling inputs = .error e) : ∃ m, e = .validation m := by
  unfold plan at h
  split at h
  · split at h
    · next queries =>
      cases h
      exact planQueries_error queries
    · cases h
  · exact ⟨_, (Except.error.inj h).symm⟩

/-- As many workers as the inputs ask for, within the ceiling; as many as that if they do not. -/
def width (ceiling : Nat) (inputs : Fields Json) : Nat :=
  match (Fields.get? "max_workers" inputs).bind Json.nat? with
  | none => ceiling
  | some wanted => min wanted ceiling

/-- Neither end of the range is in the way. -/
theorem workersOf_eq {ceiling : Nat} {inputs : Fields Json} (positive : 0 < ceiling)
    (h : check inputs = .ok ()) :
    workersOf ceiling inputs = width ceiling inputs ∧ 1 ≤ width ceiling inputs := by
  obtain ⟨-, workers, -⟩ := check_ok h
  unfold checkWorkers at workers
  unfold workersOf width
  cases found : Fields.get? "max_workers" inputs with
  | none =>
    simp only [Option.bind_none, Option.getD_none]
    omega
  | some v =>
    rw [found] at workers
    dsimp only at workers
    split at workers
    · next n wanted =>
      simp only [Option.bind_some, wanted, Option.getD_some]
      omega
    · cases workers

end FanOut
end Runbook
