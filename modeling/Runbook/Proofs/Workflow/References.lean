import Runbook.Proofs.Template.Lookup
import Runbook.Proofs.Workflow.Accepted
import Runbook.Workflow.Binding

/-!
# References of accepted workflows

What the rules promise of a reference. Its path begins with one of the three layers of a scope. A
reference to a step names an earlier one. A reference to a parameter begins with a declared name,
but the rule looks for it in the text of the path, whereas a lookup goes by trimmed segments. The
two agree on a path that is plain and has one `params.` in front (`declared_of_plain`); for other
paths the rule may accept what no lookup can find.

All declared parameters are bound before a run (`get?_bindParams`).
-/

set_option autoImplicit false

namespace Runbook.Workflow

open Scope

/-! ## 1. Rules that were kept -/

theorem firstFault_ok {α ε : Type} {check : α → Except ε Unit} {xs : List α}
    (h : firstFault check xs = .ok ()) : ∀ x ∈ xs, check x = .ok () := by
  induction xs with
  | nil => simp
  | cons x xs ih =>
    unfold firstFault at h
    split at h
    · cases h
    · next here =>
      exact List.forall_mem_cons.mpr ⟨here, ih h⟩

/-- Each step keeps the rules, given the names before it. -/
theorem checkStep_of_checkSteps {w : String} {params all earlier : List String}
    {front back : List Step} {s : Step}
    (h : checkSteps w params all earlier (front ++ s :: back) = .ok ()) :
    Text.allBlank s.name = false ∧
      checkStep ⟨params, (front.map (·.name)).reverse ++ earlier, all⟩ s = .ok () := by
  induction front generalizing earlier with
  | nil =>
    rw [List.nil_append, checkSteps] at h
    split at h
    · cases h
    · next named =>
      split at h
      · cases h
      · next checked => exact ⟨Bool.eq_false_iff.mpr named, checked⟩
  | cons a front ih =>
    rw [List.cons_append, checkSteps] at h
    split at h
    · cases h
    · split at h
      · cases h
      · have later := ih h
        simpa using later

theorem checkReference_of_checkStep {r : References} {s : Step} (h : checkStep r s = .ok ()) :
    ∀ path ∈ referencesOf s, checkReference r path = .ok () := by
  unfold checkStep at h
  split at h
  · cases h
  · split at h
    · cases h
    · split at h
      · cases h
      · split at h
        · cases h
        · next checked => exact firstFault_ok checked

/-- No declared name is blank. -/
theorem named_of_checkParams {w : String} {seen : List String} {ps : List Param}
    (h : checkParams w seen ps = .ok ()) : ∀ p ∈ ps, Text.allBlank p.name = false := by
  induction ps generalizing seen with
  | nil => simp
  | cons p ps ih =>
    unfold checkParams at h
    split at h
    · cases h
    · next named =>
      split at h
      · cases h
      · exact List.forall_mem_cons.mpr ⟨Bool.eq_false_iff.mpr named, ih h⟩

theorem check_cases {w : Workflow} (h : w.check = .ok ()) :
    checkParams w.name [] w.params = .ok () ∧
      checkSteps w.name (w.params.map (·.name)) w.stepNames [] w.steps = .ok () := by
  unfold check at h
  split at h
  · cases h
  · split at h
    · cases h
    · split at h
      · cases h
      · next checked => exact ⟨checked, h⟩

/-- The names that a step may refer to are those of the steps before it. -/
theorem checkReference_of_check {w : Workflow} (h : w.check = .ok ()) {front back : List Step}
    {s : Step} (hs : w.steps = front ++ s :: back) :
    ∀ path ∈ referencesOf s,
      checkReference ⟨w.params.map (·.name), (front.map (·.name)).reverse, w.stepNames⟩ path =
        .ok () := by
  have steps := (check_cases h).2
  rw [hs] at steps
  have checked := (checkStep_of_checkSteps steps).2
  rw [List.append_nil] at checked
  exact checkReference_of_checkStep checked

/-! ## 2. What a path names -/

/-- What an accepted path names. -/
inductive Names (r : References) (path : String) : Prop where
  | param {param : String} {rest : List String} (root : segments path = "params" :: param :: rest)
      (named : namesParam r.params path param = true)
  | step {step : String} {rest : List String} (root : segments path = "steps" :: step :: rest)
      (earlier : step ∈ r.earlier)
  | memory {need : String} {rest : List String} (root : segments path = "memory" :: need :: rest)

theorem names_of_checkReference {r : References} {path : String}
    (h : checkReference r path = .ok ()) : Names r path := by
  unfold checkReference at h
  split at h
  · next root =>
    split at h
    · next named => exact .param root named
    · cases h
  · next root =>
    split at h
    · next checked =>
      unfold checkStepReference at checked
      split at checked
      · next earlier => exact .step root (List.contains_iff_mem.mp earlier)
      · split at checked <;> cases checked
    · cases h
  · next root => exact .memory root
  · cases h

/-! ## 3. Declared parameters -/

/-- A declared name, read segment by segment, begins the rest of the path. -/
def Declared (params : List String) (rest : List String) : Prop :=
  ∃ p ∈ params, Plain p ∧ Text.split '.' p <+: rest

/-- A segment that is a declared name is one to begin with. -/
theorem declared_of_mem {params : List String} (named : ∀ p ∈ params, Text.allBlank p = false)
    {path param : String} {rest : List String} (segment : param ∈ segments path)
    (h : param ∈ params) : Declared params (param :: rest) := by
  have dotless := dotless_of_mem_segments segment
  have one : Text.split '.' param = [param] := Text.split_of_dotless dotless
  refine ⟨param, h, ?_, ?_⟩
  · intro s hs
    rw [one, List.mem_singleton] at hs
    subst hs
    constructor
    · rintro rfl
      cases named _ h
    · obtain ⟨t, -, rfl⟩ := List.mem_map.mp segment
      exact Text.trim_trim t
  · rw [one]
    exact ⟨rest, rfl⟩

/-- What a text that starts with a name and a dot is cut into. -/
theorem split_of_startsWith {p s : String} (h : Text.startsWith (p ++ ".") s = true) :
    Text.split '.' p <+: Text.split '.' s := by
  obtain ⟨rest, rfl⟩ := Text.startsWith_iff.mp h
  rw [Text.split_append]
  exact List.prefix_append _ _

/-- **The rule agrees with the lookup** on plain paths with one `params.` in front. -/
theorem declared_of_plain {params : List String} {path param : String} {rest : List String}
    (named : ∀ p ∈ params, Text.allBlank p = false)
    (root : segments path = "params" :: param :: rest) (h : namesParam params path param = true)
    (plain : Plain path) (once : path = "params." ++ afterParams path) :
    Declared params (param :: rest) := by
  have segment : param ∈ segments path := by simp [root]
  rw [namesParam, Bool.or_eq_true] at h
  rcases h with h | h
  · exact declared_of_mem named segment (List.contains_iff_mem.mp h)
  · obtain ⟨p, hp, begins⟩ := List.any_eq_true.mp h
    have whole : Text.split '.' path = "params" :: param :: rest := by
      rw [← plain.segments_eq, root]
    generalize afterParams path = tail at once begins
    have cut : Text.split '.' path = "params" :: Text.split '.' tail := by
      have first : Text.split '.' "params" = ["params"] := by decide
      rw [once, show "params." ++ tail = "params" ++ "." ++ tail from rfl, Text.split_append, first]
      rfl
    have front : Text.split '.' p <+: Text.split '.' tail := by
      rw [Bool.or_eq_true, beq_iff_eq] at begins
      rcases begins with rfl | begins
      · exact List.prefix_refl _
      · exact split_of_startsWith begins
    refine ⟨p, hp, ?_, ?_⟩
    · intro s hs
      apply plain s
      rw [cut]
      exact List.mem_cons_of_mem _ (front.subset hs)
    · rw [(List.cons.inj (whole.symm.trans cut)).2]
      exact front

/-! ## 4. Bound parameters -/

theorem mem_names_put {α : Type} {name other : String} {v : α} {fs : Fields α} :
    name ∈ (Fields.put other v fs).names ↔ name = other ∨ name ∈ fs.names := by
  by_cases h : other ∈ fs.names
  · rw [Fields.names_put_of_mem v h]
    refine ⟨.inr, ?_⟩
    rintro (rfl | hn)
    · exact h
    · exact hn
  · rw [Fields.put_of_not_mem v h]
    simp [Fields.names, or_comm]

theorem mem_names_extend {α : Type} {name : String} {fs more : Fields α} :
    name ∈ (Fields.extend fs more).names ↔ name ∈ fs.names ∨ name ∈ more.names := by
  induction more generalizing fs with
  | nil => simp [Fields.extend, Fields.names]
  | cons e more ih =>
    have later : name ∈ (Fields.extend fs (e :: more)).names ↔
        name ∈ (Fields.put e.1 e.2 fs).names ∨ name ∈ Fields.names more := ih
    rw [later, mem_names_put, or_comm (a := name = e.1), or_assoc]
    simp [Fields.names]

/-- Binding a parameter takes nothing back, and the parameter is bound or missing. -/
theorem Binding.add_spec (b : Binding) (p : Param) :
    (∀ name ∈ b.bound.names, name ∈ (b.add p).bound.names) ∧
      (∀ name ∈ b.missing, name ∈ (b.add p).missing) ∧
        (p.name ∈ (b.add p).bound.names ∨ p.name ∈ (b.add p).missing) := by
  unfold Binding.add
  split
  · exact ⟨fun _ h => mem_names_put.mpr (.inr h), fun _ h => h, .inl (mem_names_put.mpr (.inl rfl))⟩
  · exact ⟨fun _ h => mem_names_put.mpr (.inr h), fun _ h => h, .inl (mem_names_put.mpr (.inl rfl))⟩
  · exact ⟨fun _ h => h, fun _ h => List.mem_append_left _ h, .inr (by simp)⟩

theorem Binding.foldl_add_spec (ps : List Param) (b : Binding) :
    (∀ name ∈ b.bound.names, name ∈ (ps.foldl Binding.add b).bound.names) ∧
      (∀ name ∈ b.missing, name ∈ (ps.foldl Binding.add b).missing) ∧
        ∀ p ∈ ps, p.name ∈ (ps.foldl Binding.add b).bound.names ∨
          p.name ∈ (ps.foldl Binding.add b).missing := by
  induction ps generalizing b with
  | nil => simp
  | cons p ps ih =>
    obtain ⟨bound, missing, here⟩ := b.add_spec p
    obtain ⟨later_bound, later_missing, later⟩ := ih (b.add p)
    refine ⟨fun name h => later_bound name (bound name h),
      fun name h => later_missing name (missing name h), List.forall_mem_cons.mpr ⟨?_, later⟩⟩
    exact here.imp (later_bound p.name) (later_missing p.name)

/-- **Declared parameters are bound.** -/
theorem get?_bindParams {w : Workflow} {provided params : Fields Json}
    (h : w.bindParams provided = .ok params) {name : String} (hn : name ∈ w.params.map (·.name)) :
    ∃ v, Fields.get? name params = some v := by
  obtain ⟨p, hp, rfl⟩ := List.mem_map.mp hn
  unfold bindParams at h
  dsimp only at h
  split at h
  · next complete =>
    cases h
    have spec := (Binding.foldl_add_spec w.params ⟨provided, [], []⟩).2.2 p hp
    rw [List.isEmpty_iff.mp complete] at spec
    have bound := spec.resolve_right List.not_mem_nil
    exact Option.isSome_iff_exists.mp
      ((Fields.get?_isSome_iff _ _).mpr (mem_names_extend.mpr (.inl bound)))
  · cases h

end Runbook.Workflow
