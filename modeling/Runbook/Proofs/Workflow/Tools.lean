import Mathlib.Data.Option.Basic
import Runbook.Proofs.Template.Reads
import Runbook.Proofs.Tool.Checked
import Runbook.Proofs.Tool.Queries
import Runbook.Proofs.Workflow.References

/-!
# Tools of accepted workflows

The tool of a step is registered. The queries of a fan-out are looked at before the run as far as they
are written out; a query that is `Dynamic` is only known when the step has its turn. Of the others most
name a registered tool: the check lets a query pass that names no tool, one whose tool has opening
braces that begin no placeholder, and one whose tool is a literal (`Overlooked`).
-/

set_option autoImplicit false

namespace Runbook

/-! ## 1. The names of a registry -/

theorem Fields.mem_names_sorted {α : Type} {name : String} {fs : Fields α} :
    name ∈ (Fields.sorted fs).names ↔ name ∈ fs.names := by
  have perm : (Fields.sorted fs).Perm (Fields.ofWrites fs) := List.mergeSort_perm _ _
  rw [Fields.names, (perm.map _).mem_iff]
  exact Workflow.mem_names_extend.trans (by simp [Fields.names])

theorem Registry.mem_names {r : Registry} {name : String} :
    name ∈ r.names ↔ (r.tool? name).isSome = true :=
  Fields.mem_names_sorted.trans (Fields.get?_isSome_iff name r.tools).symm

/-! ## 2. What was checked -/

namespace Workflow

/-- The tools of the workflow are known. -/
structure Equipped (tools : List String) (w : Workflow) : Prop where
  known : ∀ s ∈ w.steps, ∀ tool, s.tool = some tool → tool ∈ tools
  queries : ∀ s ∈ w.steps, s.tool = some fanOutTool →
    checkQueries tools (Fields.get? "queries" s.inputs) = .ok ()

theorem equipped_of_checkTools {tools : List String} {w : Workflow}
    (h : w.checkTools tools = .ok ()) : w.Equipped tools := by
  have each (s : Step) (hs : s ∈ w.steps) : checkStepTool tools s = .ok () := by
    have checked := firstFault_ok h s hs
    cases one : checkStepTool tools s with
    | ok => rfl
    | error e =>
      rw [one] at checked
      cases checked
  refine ⟨fun s hs tool named => ?_, fun s hs named => ?_⟩
  all_goals have checked := each s hs
  all_goals rw [checkStepTool, named] at checked
  all_goals dsimp only at checked
  all_goals split at checked
  · cases checked
  · next known => simpa using known
  · cases checked
  · exact (if_pos rfl).symm.trans checked

theorem checkQuery_of_checkQueries {tools : List String} {items : List Template}
    (h : checkQueries tools (some (.list items)) = .ok ()) {i : Nat} {item : Template}
    (there : items[i]? = some item) : checkQuery tools i item = .ok () := by
  refine firstFault_ok h (i, item) (List.mem_map.mpr ⟨(item, i), ?_, rfl⟩)
  exact List.mem_zipIdx_iff_getElem?.mpr there

/-- Of a written query the tool is looked up, unless there are opening braces in its text. -/
theorem known_of_checkQuery {tools : List String} {i : Nat} {fs : Fields Template} {s : String}
    (h : checkQuery tools i (.map fs) = .ok ()) (tool : Fields.get? "tool" fs = some (.text s)) :
    Text.contains "\x7b\x7b" s = true ∨ s ∈ tools := by
  rw [checkQuery, tool] at h
  dsimp only at h
  split at h
  · cases h
  · split at h
    · cases h
    · next passed =>
      rw [Bool.and_eq_true, Bool.not_eq_true', Bool.not_eq_true', not_and, Bool.not_eq_false] at passed
      by_cases braces : Text.contains "\x7b\x7b" s = true
      · exact .inl braces
      · exact .inr (List.contains_iff_mem.mp (passed (Bool.eq_false_iff.mpr braces)))

end Workflow

namespace Engine

theorem equipped_of_checkWorkflows {tools seen : List String} {ws : List Workflow}
    (h : checkWorkflows tools seen ws = .ok ()) : ∀ w ∈ ws, w.Equipped tools := by
  induction ws generalizing seen with
  | nil => simp
  | cons w rest ih =>
    unfold checkWorkflows at h
    split at h
    · cases h
    · split at h
      · cases h
      · next checked =>
        split at h
        · cases h
        · exact List.forall_mem_cons.mpr ⟨Workflow.equipped_of_checkTools checked, ih h⟩

/-- **An engine has the tools of its workflows.** -/
theorem equipped_of_make {c : Config} {r : Registry} {ws : List Workflow} {e : Engine}
    (h : make c r ws = .ok e) : ∀ w ∈ e.workflows, w.Equipped e.registry.names := by
  unfold make at h
  split at h
  · cases h
  · next checked =>
    cases h
    exact equipped_of_checkWorkflows checked

end Engine

/-! ## 3. What becomes of a template -/

namespace Template

section

variable {policy : MissingPath} {scope : Scope}

/-- The value is what becomes of the template. -/
def Becomes (policy : MissingPath) (scope : Scope) (t : Template) (v : Json) : Prop :=
  resolve policy scope t = .ok v

theorem becomes_items {ts : List Template} {vs : List Json}
    (h : resolveItems policy scope ts = .ok vs) : List.Forall₂ (Becomes policy scope) ts vs := by
  induction ts generalizing vs with
  | nil =>
    cases h
    exact .nil
  | cons t ts ih =>
    rw [resolveItems] at h
    split at h
    · cases h
    · next first =>
      split at h
      · cases h
      · next later =>
        cases h
        exact .cons first (ih later)

/-- Each entry of a table becomes one under the same name. -/
theorem becomes_fields {fs : Fields Template} {gs : Fields Json}
    (h : resolveFields policy scope fs = .ok gs) (name : String) :
    Option.Rel (Becomes policy scope) (Fields.get? name fs) (Fields.get? name gs) := by
  induction fs generalizing gs with
  | nil =>
    cases h
    exact .none
  | cons f fs ih =>
    obtain ⟨key, t⟩ := f
    rw [resolveFields] at h
    split at h
    · cases h
    · next first =>
      split at h
      · cases h
      · next later =>
        cases h
        rw [Fields.get?_cons, Fields.get?_cons]
        split
        · exact .some first
        · exact ih later

/-- The inputs of a step are resolved as a table is. -/
theorem resolveFields_of_inputs {fs : Fields Template} {gs : Fields Json}
    (h : Execution.resolveInputs policy scope fs = .ok gs) :
    resolveFields policy scope fs = .ok gs := by
  induction fs generalizing gs with
  | nil =>
    cases h
    rfl
  | cons f fs ih =>
    rw [Execution.resolveInputs] at h
    rw [resolveFields]
    cases first : resolve policy scope f.2 with
    | error e =>
      rw [first] at h
      cases h
    | ok v =>
      rw [first] at h
      cases later : Execution.resolveInputs policy scope fs with
      | error e =>
        rw [later] at h
        cases h
      | ok gs' =>
        rw [later] at h
        cases h
        rw [ih later]

/-- Without placeholders nothing is filled in. -/
theorem renderPieces_plain (cs : List Char) (plain : holesOf cs = []) :
    renderPieces policy scope (piecesOf cs) = .ok (String.ofList cs) := by
  rw [piecesOf]
  split
  · exact renderPieces_stretch cs
  · next before after first =>
    split
    · exact renderPieces_stretch cs
    · next inner rest second =>
      rw [holesOf_eq] at plain
      simp only [first, second] at plain
      split
      · next isPlain =>
        have shorter : after.length < cs.length := by
          rw [cutPair?_eq_some first]
          simp
          omega
        rw [if_pos isPlain] at plain
        rw [renderPieces, renderPiece]
        simp only [renderPieces_plain after plain]
        rw [cutPair?_eq_some first, ← String.ofList_append]
        simp
      · next notPlain =>
        rw [if_neg notPlain] at plain
        cases plain
termination_by cs.length
decreasing_by exact shorter

/-- **A text without placeholders stays what it is.** -/
theorem resolveText_plain {s : String} (plain : placeholders s = []) :
    resolveText policy scope s = .ok (.str s) := by
  have alone : lonePath? s = none := by
    cases lone : lonePath? s with
    | none => rfl
    | some path =>
      have there := mem_placeholders_of_lonePath? lone
      rw [plain] at there
      cases there
  rw [placeholders_eq] at plain
  rw [resolveText, alone]
  simp only [render, pieces, renderPieces_plain _ plain, String.ofList_toList]

end

end Template

/-! ## 4. Queries -/

namespace Workflow

open FanOut (named defaultTool)

/-- The tool of the query is only known when it has been resolved. -/
inductive Dynamic : Template → Prop where
  /-- The query itself is a placeholder. -/
  | query {s : String} (placeholder : Template.placeholders s ≠ []) : Dynamic (.text s)
  | literal (fs : Fields Json) : Dynamic (.literal (.obj fs))
  | tool {fs : Fields Template} {s : String} (h : Fields.get? "tool" fs = some (.text s))
      (placeholder : Template.placeholders s ≠ []) : Dynamic (.map fs)

/-- The check lets the query pass, though there is no such tool. -/
inductive Overlooked (r : Registry) : Template → Prop where
  /-- The query names no tool, and there is none to stand in. -/
  | unnamed {fs : Fields Template} (h : Fields.get? "tool" fs = none)
      (missing : r.tool? defaultTool = none) : Overlooked r (.map fs)
  /-- There are opening braces in the text, and no placeholder. -/
  | braces {fs : Fields Template} {s : String} (h : Fields.get? "tool" fs = some (.text s))
      (plain : Template.placeholders s = []) (braces : Text.contains "\x7b\x7b" s = true)
      (missing : r.tool? s = none) : Overlooked r (.map fs)
  | literal {fs : Fields Template} {s : String}
      (h : Fields.get? "tool" fs = some (.literal (.str s))) (missing : r.tool? s = none) :
      Overlooked r (.map fs)

/-- It may turn out that there is no such tool as the query wants. -/
def Unforeseen (r : Registry) (item : Template) : Prop := Dynamic item ∨ Overlooked r item

variable {policy : MissingPath} {scope : Scope} {r : Registry}

/-- What is written as the tool of a query, and becomes the name of no registered tool. -/
theorem unforeseen_of_tool {i : Nat} {fs : Fields Template} {t : Template} {s : String}
    (checked : checkQuery r.names i (.map fs) = .ok ()) (written : Fields.get? "tool" fs = some t)
    (becomes : Template.Becomes policy scope t (.str s)) (missing : r.tool? s = none) :
    Unforeseen r (.map fs) := by
  have unregistered : s ∉ r.names := by simp [Registry.mem_names, missing]
  rw [Template.Becomes] at becomes
  cases t with
  | text text =>
    by_cases plain : Template.placeholders text = []
    · rw [Template.resolve, Template.resolveText_plain plain] at becomes
      cases becomes
      have braces := (known_of_checkQuery checked written).resolve_right unregistered
      exact .inr (.braces written plain braces missing)
    · exact .inl (.tool written plain)
  | list | map =>
    rw [Template.resolve] at becomes
    split at becomes <;> cases becomes
  | literal =>
    rw [Template.resolve] at becomes
    cases becomes
    exact .inr (.literal written missing)

/-- **A query that names no registered tool** is dynamic, or was overlooked. -/
theorem unforeseen_of_checkQuery {i : Nat} {item : Template} {fs : Fields Json}
    (checked : checkQuery r.names i item = .ok ())
    (becomes : Template.Becomes policy scope item (.obj fs)) (texted : FanOut.Texted fs)
    (missing : r.tool? (named fs) = none) : Unforeseen r item := by
  rw [Template.Becomes] at becomes
  cases item with
  | text s =>
    refine .inl (.query fun plain => ?_)
    rw [Template.resolve, Template.resolveText_plain plain] at becomes
    cases becomes
  | list items =>
    rw [Template.resolve] at becomes
    split at becomes <;> cases becomes
  | literal v =>
    rw [Template.resolve] at becomes
    cases becomes
    exact .inl (.literal fs)
  | map written =>
    rw [Template.resolve] at becomes
    split at becomes
    · next resolved =>
      cases becomes
      have entry := Template.becomes_fields resolved "tool"
      generalize written' : Fields.get? "tool" written = t at entry
      generalize value : Fields.get? "tool" fs = v at entry
      cases entry with
      | none =>
        have stands : named fs = defaultTool := by rw [named, value]
        exact .inr (.unnamed written' (stands ▸ missing))
      | @some t v becomes =>
        obtain ⟨s, rfl⟩ := texted v value
        have stands : named fs = s := by rw [named, value]
        exact unforeseen_of_tool checked written' becomes (stands ▸ missing)
    · cases becomes

/-- The queries of a fan-out whose list is written out. -/
theorem unknown_of_plan {items : List Template} {inputs : Fields Json} {ceiling : Nat}
    {plan : FanOut.Plan} {v : Json} (checked : checkQueries r.names (some (.list items)) = .ok ())
    (becomes : Template.Becomes policy scope (.list items) v)
    (found : Fields.get? "queries" inputs = some v) (accepted : FanOut.check inputs = .ok ())
    (planned : FanOut.plan ceiling inputs = .ok plan) :
    plan.queries.length = items.length ∧
      ∀ (i : Nat) (q : FanOut.Query) (item : Template), plan.queries[i]? = some q →
        items[i]? = some item → r.tool? q.tool = none → Unforeseen r item := by
  obtain ⟨fss, listed, admissible⟩ := FanOut.queries_of_check accepted
  obtain rfl := Except.ok.inj ((FanOut.plan_eq ceiling listed).symm.trans planned)
  obtain rfl := Option.some.inj (found.symm.trans listed)
  have each : List.Forall₂ (Template.Becomes policy scope) items (fss.map .obj) := by
    rw [Template.Becomes, Template.resolve] at becomes
    split at becomes
    · next resolved =>
      cases becomes
      exact Template.becomes_items resolved
    · cases becomes
  refine ⟨by simpa using each.length_eq.symm, fun i q item there written missing => ?_⟩
  obtain ⟨fs, entry, rfl⟩ := Option.map_eq_some_iff.mp (List.getElem?_mapIdx.symm.trans there)
  rw [FanOut.tool_ofFields] at missing
  have value : (fss.map Json.obj)[i]? = some (.obj fs) := by rw [List.getElem?_map, entry]; rfl
  have one : Template.Becomes policy scope item (.obj fs) := by
    obtain ⟨small, rfl⟩ := List.getElem?_eq_some_iff.mp written
    obtain ⟨small', same⟩ := List.getElem?_eq_some_iff.mp value
    have there := (List.forall₂_iff_get.mp each).2 i small small'
    rwa [List.get_eq_getElem, List.get_eq_getElem, same] at there
  exact unforeseen_of_checkQuery (checkQuery_of_checkQueries checked written) one
    (admissible fs (List.mem_of_getElem? entry)).texted missing

end Workflow
end Runbook
