import Mathlib.Data.List.Induction
import Runbook.Proofs.Json.Lossless
import Runbook.Proofs.Json.Taking
import Runbook.Workflow.Binding

/-!
# What parameters are bound to

Binding goes through the declared parameters. After any number of them, the table holds these in
their order, each with what it is bound to, the names of those that had to be provided and were not
are noted, and what is left over are the provided entries under other names (`Binds`). One more
parameter changes nothing about this (`Binds.add`), since its name is a new one.

So a run is refused exactly if a parameter is unmet, and otherwise has the declared parameters first
and then all others that were provided.
-/

set_option autoImplicit false

namespace Runbook

/-- The parameter has to be provided and is not. -/
def Param.Unmet (provided : Fields Json) (p : Param) : Prop :=
  p.isRequired = true ∧ p.name ∉ provided.names

instance (provided : Fields Json) (p : Param) : Decidable (p.Unmet provided) :=
  inferInstanceAs (Decidable (_ ∧ _))

/-- The parameter is bound to what is provided for it, be it null, or else to its default. -/
def Param.BoundTo (provided : Fields Json) (p : Param) (e : String × Json) : Prop :=
  e.1 = p.name ∧ (e ∈ provided ∨ p.name ∉ provided.names ∧ p.default = some e.2)

namespace Workflow

/-- The names of those that are unmet, in their order. -/
def unmet (ps : List Param) (provided : Fields Json) : List String :=
  (ps.filter (·.Unmet provided)).map (·.name)

/-- The others. -/
def met (ps : List Param) (provided : Fields Json) : List Param :=
  ps.filter (¬ ·.Unmet provided)

/-- The entries under other names than those of these parameters. -/
def extras (ps : List Param) (provided : Fields Json) : Fields Json :=
  provided.filter fun e => e.1 ∉ ps.map (·.name)

/-- How far a binding is after these parameters. -/
structure Binds (provided : Fields Json) (ps : List Param) (b : Binding) : Prop where
  unused : b.unused.Perm (extras ps provided)
  bound : List.Forall₂ (Param.BoundTo provided) (met ps provided) b.bound
  missing : b.missing = unmet ps provided

variable {provided : Fields Json} {ps : List Param} {p : Param} {b : Binding}

theorem unmet_iff : p.Unmet provided ↔ Fields.get? p.name provided = none ∧ p.default = none := by
  rw [Param.Unmet, Param.isRequired, Option.isNone_iff_eq_none, ← Fields.get?_isSome_iff,
    Option.not_isSome_iff_eq_none, and_comm]

theorem unmet_concat (ps : List Param) (p : Param) (provided : Fields Json) :
    unmet (ps ++ [p]) provided = unmet ps provided ++ if p.Unmet provided then [p.name] else [] := by
  rw [unmet, List.filter_append, List.map_append]
  split <;> simp_all [unmet]

theorem met_concat (ps : List Param) (p : Param) (provided : Fields Json) :
    met (ps ++ [p]) provided = met ps provided ++ if p.Unmet provided then [] else [p] := by
  rw [met, List.filter_append]
  split <;> simp_all [met]

theorem extras_concat (ps : List Param) (p : Param) (provided : Fields Json) :
    extras (ps ++ [p]) provided = (extras ps provided).filter (·.1 ≠ p.name) := by
  rw [extras, extras, List.filter_filter]
  refine List.filter_congr fun e _ => ?_
  simp only [List.map_append, List.mem_append, not_or, List.map_cons, List.map_nil,
    List.mem_singleton, Bool.decide_and, Bool.and_comm, ne_eq]

/-- A name under which nothing is provided makes no difference. -/
theorem extras_concat_of_absent (absent : Fields.get? p.name provided = none) :
    extras (ps ++ [p]) provided = extras ps provided := by
  rw [extras_concat, List.filter_eq_self]
  intro e he
  have there : e.1 ∈ provided.names := List.mem_map_of_mem (List.mem_of_mem_filter he)
  refine decide_eq_true fun same => ?_
  rw [same, ← Fields.get?_isSome_iff, absent] at there
  cases there

theorem nodup_extras (distinct : provided.names.Nodup) (ps : List Param) :
    (extras ps provided).names.Nodup :=
  distinct.sublist (List.filter_sublist.map _)

theorem names_of_bound {fs : Fields Json} (h : List.Forall₂ (Param.BoundTo provided) ps fs) :
    fs.names = ps.map (·.name) := by
  induction h with
  | nil => rfl
  | cons bound _ ih =>
    rw [Fields.names, List.map_cons, List.map_cons, bound.1]
    exact congrArg _ ih

theorem Binds.nodup (h : Binds provided ps b) (distinct : provided.names.Nodup) :
    b.unused.names.Nodup := (h.unused.map _).nodup_iff.mpr (nodup_extras distinct ps)

/-- What is left over has all that was provided under a new name. -/
theorem Binds.get?_unused (h : Binds provided ps b) (distinct : provided.names.Nodup)
    (new : p.name ∉ ps.map (·.name)) :
    Fields.get? p.name b.unused = Fields.get? p.name provided := by
  refine Option.ext fun v => ⟨fun found => ?_, fun found => ?_⟩
  · have left := h.unused.mem_iff.mp (Fields.mem_of_get? found)
    exact Fields.get?_of_mem distinct (List.mem_of_mem_filter left)
  · refine Fields.get?_of_mem (h.nodup distinct) (h.unused.mem_iff.mpr (List.mem_filter.mpr ?_))
    exact ⟨Fields.mem_of_get? found, decide_eq_true new⟩

/-- A new parameter is written behind those that are bound. -/
theorem Binds.put (h : Binds provided ps b) (new : p.name ∉ ps.map (·.name))
    (isMet : ¬ p.Unmet provided) {v : Json} (value : p.BoundTo provided (p.name, v)) :
    List.Forall₂ (Param.BoundTo provided) (met (ps ++ [p]) provided)
      (Fields.put p.name v b.bound) := by
  have fresh : p.name ∉ b.bound.names := by
    rw [names_of_bound h.bound]
    exact fun there => new ((List.filter_sublist.map _).subset there)
  rw [Fields.put_of_not_mem v fresh, met_concat, if_neg isMet]
  exact List.rel_append h.bound (.cons value .nil)

/-- One more parameter. -/
theorem Binds.add (h : Binds provided ps b) (distinct : provided.names.Nodup)
    (new : p.name ∉ ps.map (·.name)) : Binds provided (ps ++ [p]) (b.add p) := by
  have missing (isMet : ¬ p.Unmet provided) : b.missing = unmet (ps ++ [p]) provided := by
    rw [unmet_concat, if_neg isMet, List.append_nil]
    exact h.missing
  rw [Binding.add, h.get?_unused distinct new]
  cases given : Fields.get? p.name provided with
  | some v =>
    have isMet : ¬ p.Unmet provided := by simp [unmet_iff, given]
    refine ⟨?_, h.put new isMet ⟨rfl, .inl (Fields.mem_of_get? given)⟩, missing isMet⟩
    rw [extras_concat]
    exact (Fields.take_perm (h.nodup distinct)).trans (h.unused.filter _)
  | none =>
    have unused : b.unused.Perm (extras (ps ++ [p]) provided) := by
      rw [extras_concat_of_absent given]
      exact h.unused
    cases default : p.default with
    | some v =>
      have isMet : ¬ p.Unmet provided := by simp [unmet_iff, default]
      have absent : p.name ∉ provided.names := by
        rw [← Fields.get?_isSome_iff, given]
        exact Bool.false_ne_true
      exact ⟨unused, h.put new isMet ⟨rfl, .inr ⟨absent, default⟩⟩, missing isMet⟩
    | none =>
      have isUnmet : p.Unmet provided := unmet_iff.mpr ⟨given, default⟩
      refine ⟨unused, ?_, ?_⟩
      · rw [met_concat, if_pos isUnmet, List.append_nil]
        exact h.bound
      · rw [unmet_concat, if_pos isUnmet, ← h.missing]

/-- All parameters in turn. -/
theorem binds_foldl (distinct : provided.names.Nodup) (declared : (ps.map (·.name)).Nodup) :
    Binds provided ps (ps.foldl Binding.add ⟨provided, [], []⟩) := by
  induction ps using List.reverseRecOn with
  | nil => exact ⟨by simp [extras], .nil, rfl⟩
  | append_singleton ps p ih =>
    rw [List.map_append, List.nodup_append] at declared
    rw [List.foldl_concat]
    refine (ih declared.1).add distinct fun there => ?_
    exact declared.2.2 _ there _ (by simp) rfl

theorem unmet_eq_nil_iff : unmet ps provided = [] ↔ ∀ p ∈ ps, ¬ p.Unmet provided := by
  simp [unmet]

/-- What is bound and what is left over have no name in common. -/
theorem Binds.nodup_bound_unused (h : Binds provided ps b) (distinct : provided.names.Nodup)
    (declared : (ps.map (·.name)).Nodup) : (b.bound ++ b.unused).names.Nodup := by
  have bound : b.bound.names = (met ps provided).map (·.name) := names_of_bound h.bound
  rw [Fields.names, List.map_append, List.nodup_append]
  refine ⟨?_, h.nodup distinct, ?_⟩
  · rw [← Fields.names, bound]
    exact declared.sublist (List.filter_sublist.map _)
  · rintro name there _ left rfl
    obtain ⟨e, he, rfl⟩ := List.mem_map.mp left
    have other := (List.mem_filter.mp (h.unused.mem_iff.mp he)).2
    rw [← Fields.names, bound] at there
    exact of_decide_eq_true other ((List.filter_sublist.map _).subset there)

variable {w : Workflow}

theorem bindParams_of_unmet (distinct : provided.names.Nodup)
    (declared : (w.params.map (·.name)).Nodup) (some : unmet w.params provided ≠ []) :
    w.bindParams provided = .error (.missingParams w.name (unmet w.params provided)) := by
  have binds := binds_foldl distinct declared
  rw [bindParams, binds.missing]
  exact if_neg (mt List.isEmpty_iff.mp some)

theorem bindParams_of_met (distinct : provided.names.Nodup)
    (declared : (w.params.map (·.name)).Nodup) (none : unmet w.params provided = []) :
    ∃ b, Binds provided w.params b ∧ w.bindParams provided = .ok (b.bound ++ b.unused) := by
  have binds := binds_foldl distinct declared
  refine ⟨_, binds, ?_⟩
  rw [← Fields.extend_of_nodup (binds.nodup_bound_unused distinct declared), bindParams,
    binds.missing, none]
  rfl

/-- What binding the provided entries comes to. -/
structure Bindings (w : Workflow) (provided : Fields Json) : Prop where
  refused_iff : (∃ fault, w.bindParams provided = .error fault) ↔
    ∃ p ∈ w.params, p.Unmet provided
  /-- All unmet parameters are told of. -/
  told : ∀ fault, w.bindParams provided = .error fault →
    (Error.invalid fault).message = "validation error: " ++ ("workflow '" ++ w.name ++
      "' is missing required parameter(s): " ++ Text.join ", " (unmet w.params provided))
  /-- The declared parameters come first, and all others that were provided follow. -/
  bound : ∀ params, w.bindParams provided = .ok params → params.names.Nodup ∧
    ∃ front back, params = front ++ back ∧
      List.Forall₂ (Param.BoundTo provided) w.params front ∧ back.Perm (extras w.params provided)

/-- **Parameters are bound in the order of their declarations**, in front of all others that are
provided, unless one of them has to be provided and is not. -/
theorem declared_before_extras {w : Workflow} {provided : Fields Json}
    (declared : (w.params.map (·.name)).Nodup) (distinct : provided.names.Nodup) :
    Bindings w provided := by
  by_cases none : unmet w.params provided = []
  · obtain ⟨b, binds, bound⟩ := bindParams_of_met distinct declared none
    have allMet := unmet_eq_nil_iff.mp none
    refine ⟨?_, fun fault refused => ?_, fun params given => ?_⟩
    · simp only [bound, reduceCtorEq, exists_false, false_iff, not_exists, not_and]
      exact allMet
    · rw [bound] at refused
      cases refused
    · rw [bound] at given
      cases given
      have all : met w.params provided = w.params :=
        List.filter_eq_self.mpr fun p hp => decide_eq_true (allMet p hp)
      exact ⟨binds.nodup_bound_unused distinct declared, b.bound, b.unused, rfl,
        all ▸ binds.bound, binds.unused⟩
  · have refused := bindParams_of_unmet distinct declared none
    refine ⟨iff_of_true ⟨_, refused⟩ ?_, fun fault told => ?_, fun params given => ?_⟩
    · simpa [unmet_eq_nil_iff] using none
    · rw [refused] at told
      cases told
      rfl
    · rw [refused] at given
      cases given

/-- A workflow with a parameter that has to be provided between two others. -/
def surveyWorkflow : Workflow where
  name := "survey"
  description := none
  params := [⟨"depth", some (Json.nat 2), none⟩, .mandatory "topic", ⟨"tone", some .null, none⟩]
  steps := []

/-- The topic is null, and two more entries are given. -/
def surveyParams : Fields Json :=
  [("first", .str "a"), ("topic", .null), ("second", .str "b"), ("tone", .str "dry")]

theorem declared_before_extras_survey :
    (surveyWorkflow.params.map (·.name)).Nodup ∧ surveyParams.names.Nodup ∧
      (surveyWorkflow.bindParams surveyParams).toOption.map Fields.names =
        some ["depth", "topic", "tone", "first", "second"] ∧
      Bindings surveyWorkflow surveyParams :=
  ⟨by decide, by decide, by decide +kernel, declared_before_extras (by decide) (by decide)⟩

end Workflow
end Runbook
