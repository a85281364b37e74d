import Runbook.Proofs.Workflow.Needs
import Runbook.Proofs.Workflow.References

/-!
# The rules are exactly those

The rules of a workflow as one reads them, without the pass that checks them: what holds of its
names, of each step, and of each reference given the steps in front of it. `Workflow.Sound` puts
them together, and `check_ok_iff` says that the pass accepts the sound workflows and no others.

The pass carries the names seen so far, latest first, while the rules speak of the steps in front
of a step, first first. Only membership counts, so the two agree (`Step.Sound.of_mem_iff`).
-/

set_option autoImplicit false

namespace Runbook

open Scope

/-! ## 1. The rules -/

/-- Some character is not blank. -/
def Text.Filled (s : String) : Prop := ∃ c ∈ s.toList, isBlank c = false

theorem Text.filled_iff {s : String} : Text.Filled s ↔ Text.allBlank s = false := by
  simp [Text.Filled, Text.allBlank, List.all_eq_false]

namespace Template

/-- The text is a leaf of the template: the template itself, or a leaf of one of its parts. -/
inductive Leaf (s : String) : Template → Prop where
  | text : Leaf s (.text s)
  | list {t : Template} {items : List Template} : t ∈ items → Leaf s t → Leaf s (.list items)
  | map {key : String} {t : Template} {fields : Fields Template} :
      (key, t) ∈ fields → Leaf s t → Leaf s (.map fields)

end Template

namespace Workflow

/-- The rule for parameters: the second segment is declared, or what follows the leading `params.`
of the path is a declared name or goes on behind one with a dot. -/
def NamesParam (params : List String) (path second : String) : Prop :=
  second ∈ params ∨
    ∃ p ∈ params, afterParams path = p ∨ ∃ rest, afterParams path = p ++ "." ++ rest

/-- The paths that a placeholder may have, given the declared parameters and the earlier steps. -/
inductive Admits (params earlier : List String) (path : String) : Prop where
  | memory {x : String} {rest : List String} (root : segments path = "memory" :: x :: rest)
  | step {x : String} {rest : List String} (root : segments path = "steps" :: x :: rest)
      (before : x ∈ earlier)
  | param {x : String} {rest : List String} (root : segments path = "params" :: x :: rest)
      (declared : NamesParam params path x)

end Workflow

namespace Step

/-- The text is a leaf of an input, or the prompt that the gate gives. -/
def Shows (s : Step) (text : String) : Prop :=
  (∃ key t, (key, t) ∈ s.inputs ∧ Template.Leaf text t) ∨ ∃ g, s.gate = some g ∧
    g.prompt = some text

/-- The step has a placeholder of that path. -/
def Mentions (s : Step) (path : String) : Prop :=
  ∃ text, s.Shows text ∧ path ∈ Template.placeholders text

/-- The step needs the result of the step of that name. -/
def NeedsStep (s : Step) (name : String) : Prop :=
  .toolOutput name ∈ s.needs ∨ .step name ∈ s.needs

/-- The step refers to a step of that name, in a placeholder or in a need. -/
def RefersTo (s : Step) (name : String) : Prop :=
  (∃ path rest, s.Mentions path ∧ segments path = "steps" :: name :: rest) ∨ s.NeedsStep name

/-- The rules of one step. -/
structure Sound (params earlier : List String) (s : Step) : Prop where
  named : Text.Filled s.name
  acts : (∃ tool, s.tool = some tool ∧ Text.Filled tool) ∨ s.tool = none ∧ s.gate ≠ none
  timeout : s.timeoutSecs ≠ some 0
  references : ∀ path, s.Mentions path → Workflow.Admits params earlier path
  needs : ∀ name, s.NeedsStep name → name ∈ earlier

end Step

namespace Workflow

/-- The rules of a workflow. -/
structure Sound (w : Workflow) : Prop where
  named : Text.Filled w.name
  some_step : w.steps ≠ []
  params_named : ∀ p ∈ w.params, Text.Filled p.name
  params_distinct : (w.params.map (·.name)).Nodup
  steps_distinct : (w.steps.map (·.name)).Nodup
  steps_sound : ∀ front s back, w.steps = front ++ s :: back →
    s.Sound (w.params.map (·.name)) (front.map (·.name))

end Workflow

/-! ## 2. Texts and references -/

namespace Template

mutual

/-- The texts collected are the leaves. -/
theorem mem_texts_iff {s : String} : (t : Template) → (s ∈ texts t ↔ Leaf s t)
  | .text a => by
      rw [texts, List.mem_singleton]
      constructor
      · rintro rfl
        exact .text
      · rintro ⟨⟩
        rfl
  | .list items => by
      rw [texts, mem_textsItems_iff items]
      constructor
      · rintro ⟨t, ht, leaf⟩
        exact .list ht leaf
      · rintro (_ | ⟨ht, leaf⟩)
        exact ⟨_, ht, leaf⟩
  | .map fields => by
      rw [texts, mem_textsFields_iff fields]
      constructor
      · rintro ⟨key, t, ht, leaf⟩
        exact .map ht leaf
      · rintro (_ | _ | ⟨ht, leaf⟩)
        exact ⟨_, _, ht, leaf⟩
  | .literal _ => by
      rw [texts]
      constructor
      · rintro ⟨⟩
      · rintro ⟨⟩

theorem mem_textsItems_iff {s : String} :
    (ts : List Template) → (s ∈ textsItems ts ↔ ∃ t ∈ ts, Leaf s t)
  | [] => by simp [textsItems]
  | t :: ts => by
      rw [textsItems, List.mem_append, mem_texts_iff t, mem_textsItems_iff ts]
      simp

theorem mem_textsFields_iff {s : String} :
    (fs : Fields Template) → (s ∈ textsFields fs ↔ ∃ key t, (key, t) ∈ fs ∧ Leaf s t)
  | [] => by simp [textsFields]
  | (k, t) :: fs => by
      rw [textsFields, List.mem_append, mem_texts_iff t, mem_textsFields_iff fs]
      constructor
      · rintro (leaf | ⟨key, u, hu, leaf⟩)
        · exact ⟨k, t, List.mem_cons_self, leaf⟩
        · exact ⟨key, u, List.mem_cons_of_mem _ hu, leaf⟩
      · rintro ⟨key, u, hu, leaf⟩
        rcases List.mem_cons.mp hu with here | hu
        · cases here
          exact .inl leaf
        · exact .inr ⟨key, u, hu, leaf⟩

end

end Template

namespace Workflow

theorem namesParam_iff {params : List String} {path second : String} :
    namesParam params path second = true ↔ NamesParam params path second := by
  rw [namesParam, Bool.or_eq_true, List.contains_iff_mem, List.any_eq_true]
  refine or_congr_right (exists_congr fun p => and_congr_right fun _ => ?_)
  rw [Bool.or_eq_true, beq_iff_eq, Text.startsWith_iff]

theorem checkStepReference_ok_iff {r : References} {name : String} :
    checkStepReference r name = .ok () ↔ name ∈ r.earlier := by
  unfold checkStepReference
  split
  · next h => exact iff_of_true rfl (List.contains_iff_mem.mp h)
  · next h =>
    have outside : name ∉ r.earlier := fun hm => h (List.contains_iff_mem.mpr hm)
    split <;> exact iff_of_false (by rintro ⟨⟩) outside

/-- A path is accepted exactly if it is one of the admitted ones. -/
theorem checkReference_ok_iff {r : References} {path : String} :
    checkReference r path = .ok () ↔ Admits r.params r.earlier path := by
  constructor
  · intro h
    cases names_of_checkReference h with
    | param root named => exact .param root (namesParam_iff.mp named)
    | step root earlier => exact .step root earlier
    | memory root => exact .memory root
  · intro h
    have cut : (Text.split '.' path).map Text.trim = segments path := rfl
    rw [checkReference, cut]
    cases h with
    | memory root => simp only [root]
    | step root before =>
      simp only [root, checkStepReference_ok_iff.mpr before]
    | param root declared =>
      simp only [root, namesParam_iff.mpr declared, if_true]

/-! ## 3. One step -/

theorem firstFault_ok_iff {α ε : Type} {check : α → Except ε Unit} {xs : List α} :
    firstFault check xs = .ok () ↔ ∀ x ∈ xs, check x = .ok () := by
  refine ⟨firstFault_ok, fun h => ?_⟩
  induction xs with
  | nil => rfl
  | cons x xs ih =>
    obtain ⟨here, later⟩ := List.forall_mem_cons.mp h
    rw [firstFault, here]
    exact ih later

theorem mem_referencesOf_iff {s : Step} {path : String} :
    path ∈ referencesOf s ↔ s.Mentions path := by
  rw [referencesOf, List.mem_flatMap]
  refine exists_congr fun text => and_congr_left fun _ => ?_
  rw [templatesOf, List.mem_append, Template.mem_textsFields_iff]
  refine or_congr_right ?_
  cases s.gate with
  | none => simp
  | some g => cases hg : g.prompt <;> simp [hg, eq_comm]

theorem checkAction_ok_iff {s : Step} :
    checkAction s = .ok () ↔
      (∃ tool, s.tool = some tool ∧ Text.Filled tool) ∨ s.tool = none ∧ s.gate ≠ none := by
  unfold checkAction
  cases s.tool with
  | some tool =>
    cases blank : Text.allBlank tool <;> simp [Text.filled_iff, blank]
  | none => cases s.gate <;> simp

theorem checkNeed_ok_iff {r : References} {need : Need} :
    checkNeed r need = .ok () ↔ ∀ name, need.referencedStep? = some name → name ∈ r.earlier := by
  unfold checkNeed
  cases need.referencedStep? with
  | none => simp
  | some name =>
    have one : (∀ x, some name = some x → x ∈ r.earlier) ↔ name ∈ r.earlier := by simp
    rw [one, ← checkStepReference_ok_iff]
    dsimp only
    cases checkStepReference r name <;> simp

theorem referencedStep?_eq_some {need : Need} {name : String} :
    need.referencedStep? = some name ↔ need = .toolOutput name ∨ need = .step name := by
  cases need <;> simp [Need.referencedStep?]

theorem needs_iff {r : References} {s : Step} :
    firstFault (checkNeed r) s.needs = .ok () ↔ ∀ name, s.NeedsStep name → name ∈ r.earlier := by
  rw [firstFault_ok_iff]
  constructor
  · rintro h name (hm | hm)
    · exact checkNeed_ok_iff.mp (h _ hm) name rfl
    · exact checkNeed_ok_iff.mp (h _ hm) name rfl
  · intro h need hm
    refine checkNeed_ok_iff.mpr fun name hname => h name ?_
    rcases referencedStep?_eq_some.mp hname with rfl | rfl
    · exact .inl hm
    · exact .inr hm

/-- A step with a name is accepted exactly if the name is new and the step is sound. -/
theorem checkStep_ok_iff {r : References} {s : Step} (named : Text.allBlank s.name = false) :
    checkStep r s = .ok () ↔ s.name ∉ r.earlier ∧ s.Sound r.params r.earlier := by
  unfold checkStep
  split
  · next known =>
    exact iff_of_false (by rintro ⟨⟩) fun h => h.1 (List.contains_iff_mem.mp known)
  · next new =>
    have fresh : s.name ∉ r.earlier := fun hm => new (List.contains_iff_mem.mpr hm)
    split
    · next inert =>
      refine iff_of_false (by rintro ⟨⟩) fun h => ?_
      cases inert.symm.trans (checkAction_ok_iff.mpr h.2.acts)
    · next active =>
      have acts := checkAction_ok_iff.mp active
      split
      · next zero => exact iff_of_false (by rintro ⟨⟩) fun h => h.2.timeout zero
      · next timeout =>
        split
        · next faulty =>
          refine iff_of_false (by rintro ⟨⟩) fun h => ?_
          have fine := firstFault_ok_iff.mpr fun path hp =>
            checkReference_ok_iff.mpr (h.2.references path (mem_referencesOf_iff.mp hp))
          cases faulty.symm.trans fine
        · next fine =>
          have references : ∀ path, s.Mentions path →
            Admits r.params r.earlier path := fun path hp =>
            checkReference_ok_iff.mp (firstFault_ok fine path (mem_referencesOf_iff.mpr hp))
          rw [needs_iff]
          exact ⟨fun h => ⟨fresh, Text.filled_iff.mpr named, acts, timeout, references, h⟩,
            fun h => h.2.needs⟩

theorem Admits.of_mem_iff {params front earlier : List String} {path : String}
    (same : ∀ x, x ∈ front ↔ x ∈ earlier) (h : Admits params front path) :
    Admits params earlier path := by
  cases h with
  | memory root => exact .memory root
  | step root before => exact .step root ((same _).mp before)
  | param root declared => exact .param root declared

end Workflow

/-- The order of the earlier names does not count. -/
theorem Step.Sound.of_mem_iff {params front earlier : List String} {s : Step}
    (same : ∀ x, x ∈ front ↔ x ∈ earlier) (h : s.Sound params front) : s.Sound params earlier :=
  { h with
    references := fun path hp => (h.references path hp).of_mem_iff same
    needs := fun name hn => (same name).mp (h.needs name hn) }

/-! ## 4. The whole workflow -/

namespace Workflow

/-- Parameters are accepted if no name is blank, repeated, or among those seen. -/
theorem checkParams_ok_iff {w : String} {seen : List String} {ps : List Param} :
    checkParams w seen ps = .ok () ↔
      (∀ p ∈ ps, Text.Filled p.name) ∧ (∀ p ∈ ps, p.name ∉ seen) ∧ (ps.map (·.name)).Nodup := by
  induction ps generalizing seen with
  | nil => simp [checkParams]
  | cons p ps ih =>
    unfold checkParams
    split
    · next blank =>
      refine iff_of_false (by rintro ⟨⟩) fun h => ?_
      cases blank.symm.trans (Text.filled_iff.mp (h.1 p List.mem_cons_self))
    · next named =>
      split
      · next known =>
        exact iff_of_false (by rintro ⟨⟩) fun h =>
          h.2.1 p List.mem_cons_self (List.contains_iff_mem.mp known)
      · next new =>
        have filled : Text.Filled p.name := Text.filled_iff.mpr (Bool.eq_false_iff.mpr named)
        have fresh : p.name ∉ seen := fun hm => new (List.contains_iff_mem.mpr hm)
        rw [ih, List.map_cons, List.nodup_cons, List.forall_mem_cons, List.forall_mem_cons]
        constructor
        · rintro ⟨hnamed, hnew, distinct⟩
          refine ⟨⟨filled, hnamed⟩,
            ⟨fresh, fun q hq hm => hnew q hq (List.mem_cons_of_mem _ hm)⟩, ?_, distinct⟩
          intro hm
          obtain ⟨q, hq, hn⟩ := List.mem_map.mp hm
          exact hnew q hq (by simp [hn])
        · rintro ⟨⟨-, hnamed⟩, ⟨-, hnew⟩, apart, distinct⟩
          refine ⟨hnamed, fun q hq hm => ?_, distinct⟩
          rcases List.mem_cons.mp hm with same | hm
          · exact apart (List.mem_map.mpr ⟨q, hq, same⟩)
          · exact hnew q hq hm

/-- The pass accepts the steps exactly if it accepts each, given the names before it. -/
theorem checkSteps_ok_iff {w : String} {params all earlier : List String} {steps : List Step} :
    checkSteps w params all earlier steps = .ok () ↔
      ∀ front s back, steps = front ++ s :: back → Text.allBlank s.name = false ∧
        checkStep ⟨params, (front.map (·.name)).reverse ++ earlier, all⟩ s = .ok () := by
  refine ⟨fun h front s back hs => checkStep_of_checkSteps (hs ▸ h), fun h => ?_⟩
  induction steps generalizing earlier with
  | nil => rfl
  | cons a steps ih =>
    obtain ⟨named, first⟩ := h [] a steps rfl
    have rest : checkSteps w params all (a.name :: earlier) steps = .ok () := by
      refine ih fun front s back hs => ?_
      simpa using h (a :: front) s back (by rw [hs]; rfl)
    rw [List.map_nil, List.reverse_nil, List.nil_append] at first
    rw [checkSteps, if_neg (by simp [named]), first]
    exact rest

/-- A step with a name is accepted behind the given steps exactly if its name is not among theirs
and it is sound. -/
theorem checkStep_behind_iff {params all : List String} {front : List Step} {s : Step}
    (named : Text.allBlank s.name = false) :
    checkStep ⟨params, (front.map (·.name)).reverse ++ [], all⟩ s = .ok () ↔
      s.name ∉ front.map (·.name) ∧ s.Sound params (front.map (·.name)) := by
  have same : ∀ x, x ∈ (front.map (·.name)).reverse ++ [] ↔ x ∈ front.map (·.name) := by simp
  rw [checkStep_ok_iff named]
  refine and_congr (not_congr (same _)) ⟨.of_mem_iff same, .of_mem_iff fun x => (same x).symm⟩

theorem steps_ok_iff {w : String} {params all : List String} {steps : List Step} :
    checkSteps w params all [] steps = .ok () ↔
      (steps.map (·.name)).Nodup ∧ ∀ front s back, steps = front ++ s :: back →
        s.Sound params (front.map (·.name)) := by
  constructor
  · intro h
    refine ⟨(nodup_of_checkSteps h).2, fun front s back hs => ?_⟩
    obtain ⟨named, checked⟩ := checkSteps_ok_iff.mp h front s back hs
    exact ((checkStep_behind_iff named).mp checked).2
  · rintro ⟨distinct, sound⟩
    refine checkSteps_ok_iff.mpr fun front s back hs => ?_
    have here := sound front s back hs
    have named := Text.filled_iff.mp here.named
    have apart : s.name ∉ front.map (·.name) := by
      rw [hs, List.map_append, List.map_cons] at distinct
      intro hm
      exact (List.nodup_append.mp distinct).2.2 _ hm _ List.mem_cons_self rfl
    exact ⟨named, (checkStep_behind_iff named).mpr ⟨apart, here⟩⟩

/-- **The pass accepts the sound workflows and no others.** -/
theorem check_ok_iff {w : Workflow} : w.check = .ok () ↔ w.Sound := by
  unfold check
  split
  · next blank =>
    refine iff_of_false (by rintro ⟨⟩) fun h => ?_
    cases blank.symm.trans (Text.filled_iff.mp h.named)
  · next named =>
    split
    · next idle =>
      exact iff_of_false (by rintro ⟨⟩) fun h => h.some_step (List.isEmpty_iff.mp idle)
    · next busy =>
      have some_step : w.steps ≠ [] := fun h => busy (List.isEmpty_iff.mpr h)
      split
      · next faulty =>
        refine iff_of_false (by rintro ⟨⟩) fun h => ?_
        have fine : checkParams w.name [] w.params = .ok () :=
          checkParams_ok_iff.mpr ⟨h.params_named, by simp, h.params_distinct⟩
        cases faulty.symm.trans fine
      · next fine =>
        obtain ⟨params_named, -, params_distinct⟩ := checkParams_ok_iff.mp fine
        rw [steps_ok_iff]
        exact ⟨fun h => ⟨Text.filled_iff.mpr (Bool.eq_false_iff.mpr named), some_step, params_named,
          params_distinct, h.1, h.2⟩, fun h => ⟨h.steps_distinct, h.steps_sound⟩⟩

/-- What a sound step refers to stands in front of it. -/
theorem earlier_of_refersTo {params earlier : List String} {s : Step} {name : String}
    (h : s.Sound params earlier) (refers : s.RefersTo name) : name ∈ earlier := by
  rcases refers with ⟨path, rest, mentions, root⟩ | need
  · cases h.references path mentions with
    | memory other => simp [other] at root
    | step other before =>
      cases other.symm.trans root
      exact before
    | param other _ => simp [other] at root
  · exact h.needs name need

/-- **Which workflows are accepted, and what follows for their references**: those that keep the
rules; and in these no step refers to itself or to a later step. -/
theorem accepted_iff_sound {w : Workflow} :
    (w.check = .ok () ↔ w.Sound) ∧
      (w.check = .ok () → ∀ front s back, w.steps = front ++ s :: back →
        ∀ t ∈ s :: back, ¬ s.RefersTo t.name) := by
  refine ⟨check_ok_iff, fun h front s back hs t ht refers => ?_⟩
  have sound := check_ok_iff.mp h
  have before := earlier_of_refersTo (sound.steps_sound front s back hs) refers
  have distinct := sound.steps_distinct
  rw [hs, List.map_append] at distinct
  exact (List.nodup_append.mp distinct).2.2 _ before _ (List.mem_map_of_mem ht) rfl

/-- Two steps, of which the second reads the first. -/
def relay : Workflow where
  name := "relay"
  description := none
  params := [Param.mandatory "topic"]
  steps :=
    [(Step.run "draft" "echo").withInput "text" (.text "{{ params.topic }}"),
      ((Step.run "print" "echo").withInput "text" (.text "{{ steps.draft.output }}")).withNeed
        (.step "draft")]

theorem accepted_iff_sound_relay :
    relay.check = .ok () ∧ relay.Sound ∧ ∀ s ∈ relay.steps, ¬ s.RefersTo s.name := by
  have accepted : relay.check = .ok () := by decide +kernel
  refine ⟨accepted, accepted_iff_sound.1.mp accepted, fun s hs => ?_⟩
  obtain ⟨front, back, split⟩ := List.append_of_mem hs
  exact accepted_iff_sound.2 accepted front s back split s List.mem_cons_self

end Workflow
end Runbook
