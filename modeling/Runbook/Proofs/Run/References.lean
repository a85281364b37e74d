import Runbook.Proofs.Run.Context
import Runbook.Proofs.Template.Reads
import Runbook.Proofs.Workflow.References

/-!
# What the placeholders of a step lead to

A step fills in its inputs and the question of its gate, and nothing of that depends on more than
the paths of their placeholders. In an accepted workflow these are the references that were
checked, and those in the name of the step, if its gate has to make up a question.

A checked reference is *grounded*: it goes to memory, to an earlier step that the scope has, or to a
declared parameter with its value. For parameters this needs that a declared name begins the path
segment by segment, which is more than the rule asks for. `references_grounded` is the exact
statement, and `ungrounded_paths` a workflow that is accepted although none does.
-/

set_option autoImplicit false

namespace Runbook

open Scope Workflow

/-! ## 1. What a step fills in -/

namespace Step

/-- The texts that are filled in when a step runs: its inputs, and the question of its gate. -/
def filledTexts (s : Step) : List String := Template.textsFields s.inputs ++ s.gatePrompt?.toList

/-- The paths that a step looks up. -/
def filledPaths (s : Step) : List String := s.filledTexts.flatMap Template.placeholders

/-- They are the references that are checked, but for those of a question that is made up. -/
theorem filledPaths_eq (s : Step) :
    s.filledPaths = referencesOf s ++
      (if s.gate = some ⟨none⟩ then Template.placeholders s.name else []) := by
  unfold filledPaths filledTexts referencesOf templatesOf gatePrompt?
  match s.gate with
  | none => simp
  | some ⟨some prompt⟩ => simp
  | some ⟨none⟩ =>
    have question : Template.placeholders s!"Approve step '{s.name}'?" =
        Template.placeholders s.name :=
      Template.placeholders_quoted s.name (by decide) (by decide) (by decide)
    simp [question]

end Step

namespace Execution

open Dialogue RunDialogue RunTrace Memory

theorem resolveInputs_congr {policy : MissingPath} {scope scope' : Scope} {inputs : Fields Template}
    (h : ∀ path ∈ (Template.textsFields inputs).flatMap Template.placeholders,
      scope.lookup path = scope'.lookup path) :
    resolveInputs policy scope inputs = resolveInputs policy scope' inputs := by
  induction inputs with
  | nil => rfl
  | cons e rest ih =>
    obtain ⟨key, template⟩ := e
    rw [Template.textsFields, List.flatMap_append, List.forall_mem_append] at h
    rw [resolveInputs, resolveInputs, Template.resolve_congr template h.1, ih h.2]

theorem passGate_congr {c : Config} {scope scope' : Scope} {step : Step}
    (h : ∀ path ∈ step.gatePrompt?.toList.flatMap Template.placeholders,
      scope.lookup path = scope'.lookup path) :
    passGate c scope step = passGate c scope' step := by
  unfold passGate
  split
  · rfl
  · next template gate =>
    rw [gate, Option.toList_some, List.flatMap_singleton] at h
    rw [Template.render_congr h]

/-! ## 2. Grounded paths -/

/-- The path leads to a layer of the scope, and there to something that is known to be there: a
declared parameter with its value, or an earlier step. -/
inductive Grounded (declared earlier : List String) (scope : Scope) (path : String) : Prop where
  | param {rest : List String} {params : Fields Json} {v : Json}
      (root : segments path = "params" :: rest) (n : Nat) (pos : 0 < n) (hn : n ≤ rest.length)
      (named : groupName rest n ∈ declared) (layer : scope.params = some params)
      (bound : Fields.get? (groupName rest n) params = some v)
      (found : scope.lookup ("params." ++ groupName rest n) = some v) :
      Grounded declared earlier scope path
  | step {step : String} {rest : List String} {steps : Fields Json}
      (root : segments path = "steps" :: step :: rest) (before : step ∈ earlier)
      (layer : scope.steps = some steps) (present : Fields.has step steps = true) :
      Grounded declared earlier scope path
  | memory {rest : List String} (root : segments path = "memory" :: rest) :
      Grounded declared earlier scope path

theorem segments_param (name : String) :
    segments ("params." ++ name) = "params" :: segments name := by
  have first : segments "params" = ["params"] := by decide
  rw [show "params." ++ name = "params" ++ "." ++ name from rfl, segments_append, first]
  rfl

/-- A parameter with a plain name is found under its whole name. -/
theorem lookup_param {scope : Scope} {params : Fields Json} {p : String} {v : Json}
    (layer : scope.params = some params) (plain : Plain p)
    (bound : Fields.get? p params = some v) : scope.lookup ("params." ++ p) = some v := by
  have path := segments_param p
  rw [plain.segments_eq] at path
  have filled : "" ∉ segments ("params." ++ p) := by
    rw [path, ← plain.segments_eq]
    simp [plain.filled]
  have here : Fields.get? "params" scope.root = some (.obj params) := by
    unfold root
    rw [layer]
    rfl
  have whole := groupName_of_begins (List.prefix_refl (Text.split '.' p))
  rw [lookup_layer scope path filled, here, Option.bind_some]
  refine follow_obj_of_longest (Text.split_length_pos p) (Nat.le_refl _) (whole.symm ▸ bound) ?_ ?_
  · rw [List.drop_length, follow_nil]
  · intro m child longer hm
    exact absurd hm (Nat.not_le_of_lt longer)

section

variable {declared earlier : List String} {scope : Scope} {params : Fields Json} {path : String}

/-- **A path to a parameter is grounded exactly if a declared name begins it**, segment by
segment. -/
theorem grounded_param_iff (layer : scope.params = some params)
    (bound : ∀ name ∈ declared, ∃ v, Fields.get? name params = some v) {rest : List String}
    (root : segments path = "params" :: rest) :
    Grounded declared earlier scope path ↔ Declared declared rest := by
  have segment : ∀ s ∈ rest, s ∈ segments path := by simp +contextual [root]
  constructor
  · intro grounded
    cases grounded with
    | param root' n pos hn named _ _ found =>
      obtain rfl := (List.cons.inj (root.symm.trans root')).2
      have cut : Text.split '.' (groupName rest n) = rest.take n :=
        split_groupName (fun s hs => dotless_of_mem_segments (segment s hs)) pos hn
      refine ⟨_, named, ?_, cut ▸ List.take_prefix n rest⟩
      intro s hs
      have taken : s ∈ rest.take n := cut ▸ hs
      obtain ⟨t, -, segment_eq⟩ := List.mem_map.mp (segment s (List.mem_of_mem_take taken))
      have trimmed : Text.trim s = s := by rw [← segment_eq, Text.trim_trim]
      refine ⟨?_, trimmed⟩
      rintro rfl
      -- a path with an empty segment leads nowhere
      have empty : "" ∈ segments ("params." ++ groupName rest n) := by
        rw [segments_param, Scope.segments, cut]
        exact List.mem_cons_of_mem _ (List.mem_map.mpr ⟨"", taken, trimmed⟩)
      rw [lookup_eq_none_of_empty scope empty] at found
      cases found
    | step other => exact absurd (List.cons.inj (root.symm.trans other)).1 (by decide)
    | memory other => exact absurd (List.cons.inj (root.symm.trans other)).1 (by decide)
  · rintro ⟨p, hp, plain, front⟩
    obtain ⟨v, hv⟩ := bound p hp
    have whole := groupName_of_begins front
    refine .param root (Text.split '.' p).length (Text.split_length_pos p) front.length_le
      (whole.symm ▸ hp) layer (whole.symm ▸ hv) ?_
    rw [whole]
    exact lookup_param layer plain hv

end

/-! ## 3. Steps of accepted workflows -/

/-- What the paths of a step lead to. -/
structure FillsIn (c : Config) (declared earlier : List String) (scope : Scope) (step : Step) :
    Prop where
  /-- What is filled in depends on these paths alone. -/
  reads : ∀ scope', (∀ path ∈ step.filledPaths, scope.lookup path = Scope.lookup scope' path) →
    resolveInputs c.missingPath scope step.inputs = resolveInputs c.missingPath scope' step.inputs ∧
      passGate c scope step = passGate c scope' step
  /-- All of them are checked, except those in the name of a step that is asked about. -/
  paths : step.filledPaths = referencesOf step ++
    (if step.gate = some ⟨none⟩ then Template.placeholders step.name else [])
  grounded : ∀ path ∈ referencesOf step, Grounded declared earlier scope path ∨
    ∃ rest, segments path = "params" :: rest ∧ ¬ Declared declared rest ∧
      ¬ (Plain path ∧ path = "params." ++ afterParams path)
  /-- A checked path to a parameter is grounded only if a declared name begins it. -/
  grounded_iff : ∀ path ∈ referencesOf step, ∀ rest, segments path = "params" :: rest →
    (Grounded declared earlier scope path ↔ Declared declared rest)

/-- A step that keeps the rules finds what its references name. -/
theorem fillsIn {c : Config} {r : Workflow.References} {scope : Scope} {params steps : Fields Json}
    {step : Step} {earlier : List String}
    (checked : ∀ path ∈ referencesOf step, checkReference r path = .ok ())
    (named : ∀ name ∈ r.params, Text.allBlank name = false)
    (bound : ∀ name ∈ r.params, ∃ v, Fields.get? name params = some v)
    (before : ∀ name ∈ r.earlier, name ∈ earlier ∧ Fields.has name steps = true)
    (params_layer : scope.params = some params) (steps_layer : scope.steps = some steps) :
    FillsIn c r.params earlier scope step where
  reads := by
    intro scope' same
    unfold Step.filledPaths Step.filledTexts at same
    rw [List.flatMap_append, List.forall_mem_append] at same
    exact ⟨resolveInputs_congr same.1, passGate_congr same.2⟩
  paths := step.filledPaths_eq
  grounded := by
    intro path hpath
    cases names_of_checkReference (checked path hpath) with
    | @param param rest root begins =>
      by_cases declared : Declared r.params (param :: rest)
      · exact .inl ((grounded_param_iff params_layer bound root).mpr declared)
      · refine .inr ⟨_, root, declared, ?_⟩
        rintro ⟨plain, once⟩
        exact declared (declared_of_plain named root begins plain once)
    | step root h =>
      obtain ⟨before, present⟩ := before _ h
      exact .inl (.step root before steps_layer present)
    | memory root => exact .inl (.memory root)
  grounded_iff := by
    intro path _ rest root
    exact grounded_param_iff params_layer bound root

/-- **What the placeholders of a step lead to.** In a run of an accepted workflow, whatever its
store does, a step fills in what its references lead to; each is grounded, unless it is one to a
parameter, and no declared name begins it. -/
theorem references_grounded {c : Config} {w : Workflow} {run : RunId}
    {provided params : Fields Json} {t : RunTrace} {rec : RunRecord} (checked : w.check = .ok ())
    (bound : w.bindParams provided = .ok params) (ran : Yields (execute c w run params) t rec) :
    ∃ start ss ps finish, t = start ++ Stretch.traces ss ++ finish ∧
      Turns run w.steps rec.steps ss ps ∧
      ∀ front q back, ps = front ++ q :: back → q.work ≠ [] →
        (∃ r a, Yields (attempt c run
          ((front.map (·.result)).foldl RunContext.record (openingContext c params)) q.step)
            q.work (r, a)) ∧
        ∀ memory, FillsIn c (w.params.map (·.name)) (front.map (·.step.name))
          (((front.map (·.result)).foldl RunContext.record (openingContext c params)).scope memory)
          q.step := by
  obtain ⟨t₀, t₁, start, ss, abort, rfl, course, -⟩ := yields_execute ran
  obtain ⟨ps, turns⟩ := course.turns
  refine ⟨⟨.time, t₀⟩ :: start, ss, ps, [⟨.time, t₁⟩], rfl, turns, ?_⟩
  intro front q back hps worked
  obtain ⟨attempted, -⟩ := course.attempted turns hps worked
  refine ⟨attempted, fun memory => ?_⟩
  have split : w.steps = front.map (·.step) ++ q.step :: back.map (·.step) := by
    rw [← turns.steps_eq, hps, List.map_append, List.map_cons]
  obtain ⟨same, distinct⟩ := turns.front_names (Workflow.nodup_of_check checked) hps
  have context : (front.map (·.result)).foldl RunContext.record (openingContext c params) = _ :=
    RunContext.foldl_record_eq (same ▸ distinct) (by simp [openingContext, Fields.names])
  rw [context]
  refine fillsIn (checkReference_of_check checked split) ?_ ?_ ?_ rfl rfl
  · intro name hname
    obtain ⟨p, hp, rfl⟩ := List.mem_map.mp hname
    exact named_of_checkParams (check_cases checked).1 p hp
  · intro name hname
    exact get?_bindParams bound hname
  · intro name hname
    rw [List.mem_reverse, List.map_map] at hname
    refine ⟨hname, (Fields.get?_isSome_iff _ _).mpr ?_⟩
    have entries : ∀ f : StepResult → Json,
        Fields.names (((front.map (·.result)).map fun r => (r.step, f r))) =
          front.map (·.step.name) := by
      intro f
      rw [Fields.names, ← same, List.map_map]
      rfl
    rw [show (openingContext c params).steps = [] from rfl, List.nil_append, entries]
    exact hname

/-! ## 4. Paths that are accepted and lead nowhere

The first step refers to its parameter with one `params.` too many, and the name of the second step
has a placeholder that ends up in the question of its gate. -/

def askWorkflow : Workflow where
  name := "ask"
  description := none
  params := [{ name := "topic", default := none, description := none }]
  steps :=
    [{ name := "find", tool := some "lookup"
       inputs := [("text", .text "\x7b\x7bparams.params.topic\x7d\x7d")] },
      { name := "\x7b\x7bvault.key\x7d\x7d", gate := some ⟨none⟩ }]

def askParams : Fields Json := [("topic", .str "oak")]

def askRun : RunDialogue RunRecord := execute {} askWorkflow "r1" askParams

def askTrace : RunTrace := askRun.transcript (overStore ⟨0⟩ thirdCallFails) (({} : RunTable), 0)

def askRecord : RunRecord :=
  (askRun.answered (overStore ⟨0⟩ thirdCallFails) (({} : RunTable), 0)).1

/-- The general statement at this run. -/
theorem references_grounded_ask :
    askWorkflow.check = .ok () ∧ askWorkflow.bindParams askParams = .ok askParams ∧
      Yields askRun askTrace askRecord ∧
      ∃ start ss ps finish, askTrace = start ++ Stretch.traces ss ++ finish ∧
        Turns "r1" askWorkflow.steps askRecord.steps ss ps ∧
        ∀ front q back, ps = front ++ q :: back → q.work ≠ [] →
          (∃ r a, Yields (attempt {} "r1"
            ((front.map (·.result)).foldl RunContext.record (openingContext {} askParams)) q.step)
              q.work (r, a)) ∧
          ∀ memory, FillsIn {} (askWorkflow.params.map (·.name)) (front.map (·.step.name))
            (((front.map (·.result)).foldl RunContext.record (openingContext {} askParams)).scope
              memory) q.step := by
  have checked : askWorkflow.check = .ok () := by decide +kernel
  have bound : askWorkflow.bindParams askParams = .ok askParams := rfl
  have ran : Yields askRun askTrace askRecord := yields_transcript _ askRun _
  exact ⟨checked, bound, ran, references_grounded checked bound ran⟩

/-- **Accepted paths that are not grounded.** The first step looks up a parameter that is not
declared, and gets nothing for it; the second one asks a question with a path that does not begin
with a layer. -/
theorem ungrounded_paths :
    askWorkflow.check = .ok () ∧ askWorkflow.bindParams askParams = .ok askParams ∧
      Yields askRun askTrace askRecord ∧
      askWorkflow.params.map (·.name) = ["topic"] ∧
      askWorkflow.steps.map Step.filledPaths = [["params.params.topic"], ["vault.key"]] ∧
      askRecord.steps.map (fun r => (r.status, r.outputText?)) =
        [(.success, some "old"), (.success, some "Approve step ''?")] ∧
      askTrace.filterMap (givenAt ["text"]) = [""] ∧
      ∀ earlier scope, ¬ Grounded ["topic"] earlier scope "params.params.topic" ∧
        ¬ Grounded ["topic"] earlier scope "vault.key" := by
  refine ⟨by decide +kernel, rfl, yields_transcript _ askRun _, rfl, by decide +kernel,
    by decide +kernel, by decide +kernel, ?_⟩
  have first : segments "params.params.topic" = ["params", "params", "topic"] := by decide +kernel
  have second : segments "vault.key" = ["vault", "key"] := by decide +kernel
  intro earlier scope
  constructor
  · intro grounded
    cases grounded with
    | @param rest _ _ root n pos hn named =>
      obtain rfl := (List.cons.inj (first.symm.trans root)).2
      have group : ∀ n, n < 3 → 0 < n → groupName ["params", "topic"] n ∉ ["topic"] := by decide
      exact group n (Nat.lt_succ_of_le hn) pos named
    | step root => exact absurd (List.cons.inj (first.symm.trans root)).1 (by decide)
    | memory root => exact absurd (List.cons.inj (first.symm.trans root)).1 (by decide)
  · intro grounded
    cases grounded with
    | param root => exact absurd (List.cons.inj (second.symm.trans root)).1 (by decide)
    | step root => exact absurd (List.cons.inj (second.symm.trans root)).1 (by decide)
    | memory root => exact absurd (List.cons.inj (second.symm.trans root)).1 (by decide)

end Execution
end Runbook
