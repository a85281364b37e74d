import Runbook.Proofs.Json.Lossless
import Runbook.Proofs.Memory.Needs

/-!
# Bindings in one table

The needs of a step are documented one by one: each binds a name, or the names of the parameters
(`Need.Documents`). All of them are written into one table, the later over the earlier. So a binding
is there as documented exactly if no need behind it binds its name to something else, and all of
them are exactly if no two needs disagree on a name (`recalled_iff_agreed`).

Names are not kept apart by anything: `tool_output(last)` and `last_output` bind one name
(`overwritten_binding`). But needs that have different names do not disagree unless one of them is
`parameters`, and a parameter has the name of the other (`Need.Owes.names`).
-/

set_option autoImplicit false

namespace Runbook

open Dialogue RunDialogue Memory

variable {content key : String} {created : Instant} {need : Need} {es : List Entry} {v w : Json}

namespace Need

/-! ## 1. What is documented -/

/-- What a need is documented to bind, if this is the content of its slice. -/
inductive Documents (content : String) (created : Instant) : Need → String → Json → Prop where
  | userPrompt : Documents content created .userPrompt "user_prompt" (.str content)
  | parameter {params : Fields Json} {key : String} {v : Json}
      (told : Json.parse? content = some (.obj params)) (bound : Fields.get? key params = some v) :
      Documents content created .parameters key v
  | output (name : String) :
      Documents content created (.toolOutput name) (name ++ "_output") (.str content)
  | result {name : String} {r : StepResult}
      (told : (Json.parse? content).map StepResult.decode = some (.ok r)) :
      Documents content created (.step name) name (shownResult r created)
  | lastOutput : Documents content created .lastOutput "last_output" (.str content)
  | tagged (tag : String) : Documents content created (.classification tag) tag (.str content)

/-- The content is something that the need can read. -/
def Legible (content : String) : Need → Prop
  | .parameters => ∃ params, Json.parse? content = some (.obj params)
  | .step _ => ∃ r, (Json.parse? content).map StepResult.decode = some (.ok r)
  | _ => True

/-- The slice of the need is there, and the need is documented to bind this. -/
def Owes (es : List Entry) (created : Instant) (need : Need) (key : String) (v : Json) : Prop :=
  ∃ content, need.newest? es = some content ∧ Documents content created need key v

/-- The name that the need binds, unless it binds those of the parameters. -/
def name? : Need → Option String
  | .userPrompt => some "user_prompt"
  | .parameters => none
  | .toolOutput name => some (name ++ "_output")
  | .step name => some name
  | .lastOutput => some "last_output"
  | .classification tag => some tag

theorem Documents.name (h : Documents content created need key v) :
    need = .parameters ∨ need.name? = some key := by
  cases h with
  | parameter => exact .inl rfl
  | userPrompt | output | result | lastOutput | tagged => exact .inr rfl

theorem Documents.unique (h : Documents content created need key v)
    (h' : Documents content created need key w) : v = w := by
  cases h with
  | parameter told bound =>
    cases h' with
    | parameter told' bound' =>
      cases told.symm.trans told'
      exact Option.some.inj (bound.symm.trans bound')
  | result told =>
    cases h' with
    | result told' =>
      cases told.symm.trans told'
      rfl
  | userPrompt | output | lastOutput | tagged =>
    cases h'
    rfl

theorem Owes.unique (h : Owes es created need key v) (h' : Owes es created need key w) : v = w := by
  obtain ⟨content, found, documented⟩ := h
  obtain ⟨content', found', documented'⟩ := h'
  cases found.symm.trans found'
  exact documented.unique documented'

/-- **Needs of different names do not disagree**, if no parameter has one of these names either. -/
theorem agreed_of_names {needs : List Need} {created : Need → Instant}
    (names : (needs.map name?).Nodup)
    (apart : ∀ key v, Owes es (created .parameters) .parameters key v →
      some key ∉ needs.map name?) :
    ∀ need ∈ needs, ∀ other ∈ needs, ∀ key v w, Owes es (created need) need key v →
      Owes es (created other) other key w → v = w := by
  have named : ∀ need other : Need, other ∈ needs → ∀ key v w, need = .parameters →
      Owes es (created need) need key v → Owes es (created other) other key w → v = w := by
    rintro _ other hother key v w rfl owes owes'
    obtain ⟨content, found, documented⟩ := id owes'
    rcases documented.name with rfl | bound
    · exact owes.unique owes'
    · exact absurd (List.mem_map.mpr ⟨other, hother, bound⟩) (apart key v owes)
  intro need hneed other hother key v w owes owes'
  obtain ⟨content, found, documented⟩ := id owes
  obtain ⟨content', found', documented'⟩ := id owes'
  rcases documented.name with plain | bound
  · exact named need other hother key v w plain owes owes'
  · rcases documented'.name with plain | bound'
    · exact (named other need hneed key w v plain owes' owes).symm
    · obtain rfl := List.inj_on_of_nodup_map names hneed hother (bound.trans bound'.symm)
      exact owes.unique owes'

/-! ## 2. What is answered -/

/-- What an answer has under a name. -/
def given? (key : String) : Except StoreError (Fields Json) → Option Json
  | .ok more => Fields.get? key more
  | .error _ => none

/-- One binding of one name. -/
theorem given?_single {name : String} {value : Json} :
    given? key (.ok [(name, value)]) = some v ↔ key = name ∧ v = value := by
  rw [given?, Fields.get?_cons]
  split
  · next same => simp [same.symm, eq_comm]
  · next other => simp [Ne.symm other]

theorem given?_bindings (need : Need) (s : Slice) :
    given? key (need.bindings s) = some v ↔ Documents s.content s.createdAt need key v := by
  cases need with
  | userPrompt | toolOutput | lastOutput | classification =>
    rw [bindings, given?_single]
    constructor
    · rintro ⟨rfl, rfl⟩
      constructor
    · intro documented
      cases documented
      exact ⟨rfl, rfl⟩
  | parameters =>
    rw [bindings]
    constructor
    · intro given
      split at given
      · next params told => exact .parameter told given
      · cases given
      · cases given
    · intro documented
      cases documented with
      | parameter told bound =>
        simp only [told]
        exact bound
  | step name =>
    rw [bindings]
    constructor
    · intro given
      split at given
      · next r told =>
        obtain ⟨rfl, rfl⟩ := given?_single.mp given
        exact resultBinding_eq r s.createdAt ▸ .result told
      · cases given
      · cases given
    · intro documented
      cases documented with
      | result told =>
        simp only [told]
        exact given?_single.mpr ⟨rfl, (resultBinding_eq ..).symm⟩

theorem bindings_ok_iff (need : Need) (s : Slice) :
    (∃ more, need.bindings s = .ok more) ↔ need.Legible s.content := by
  cases need with
  | userPrompt | toolOutput | lastOutput | classification => exact iff_of_true ⟨_, rfl⟩ trivial
  | parameters =>
    rw [bindings, Legible]
    split
    · next params told => exact iff_of_true ⟨params, rfl⟩ ⟨params, told⟩
    · next v other told => simpa [told] using other
    · next told => simp [told]
  | step name =>
    rw [bindings, Legible]
    split
    · next r told => exact iff_of_true ⟨_, rfl⟩ ⟨r, told⟩
    · next told => simp [told]
    · next told => simp [told]

theorem nodup_bindings {s : Slice} {more : Fields Json} (h : need.bindings s = .ok more) :
    more.names.Nodup := by
  cases need with
  | userPrompt | toolOutput | lastOutput | classification =>
    cases h
    exact List.nodup_singleton _
  | parameters =>
    rw [bindings] at h
    split at h
    · next params told =>
      cases h
      exact Json.nodup_of_parse? told
    · cases h
    · cases h
  | step name =>
    rw [bindings] at h
    split at h
    · cases h
      exact List.nodup_singleton _
    · cases h
    · cases h

/-- A need is answered by its documented bindings. -/
theorem given?_answer :
    given? key (need.answer (need.newest? es) created) = some v ↔ Owes es created need key v := by
  rw [Owes]
  cases need.newest? es with
  | none => simp [answer, given?]
  | some content => simp [answer, given?_bindings]

theorem answer_ok_iff :
    (∃ more, need.answer (need.newest? es) created = .ok more) ↔
      ∀ content, need.newest? es = some content → need.Legible content := by
  cases need.newest? es with
  | none => simp [answer]
  | some content => simp [answer, bindings_ok_iff]

theorem nodup_answer {found : Option String} {more : Fields Json}
    (h : need.answer found created = .ok more) : more.names.Nodup := by
  cases found with
  | none =>
    cases h
    exact List.nodup_nil
  | some content => exact nodup_bindings h

end Need

/-! ## 3. One answer after another -/

section

variable {tolerant : Bool} {bound table : Fields Json}
  {answers : List (Except StoreError (Fields Json))}

theorem gather_ok_iff :
    (∃ table, gather tolerant bound answers = .ok table) ↔
      tolerant = true ∨ ∀ a ∈ answers, ∃ more, a = .ok more := by
  induction answers generalizing bound with
  | nil => simp [gather]
  | cons a answers ih =>
    cases a with
    | ok more => simp [gather, ih]
    | error e =>
      cases tolerant with
      | true => simpa [gather] using ih
      | false => simp [gather]

/-- The last answer that has something under a name decides. -/
theorem get?_gather (h : gather tolerant bound answers = .ok table)
    (distinct : ∀ more, .ok more ∈ answers → more.names.Nodup) :
    Fields.get? key table =
      (answers.reverse.findSome? (Need.given? key)).or (Fields.get? key bound) := by
  induction answers generalizing bound with
  | nil =>
    cases h
    rfl
  | cons a answers ih =>
    have behind : ∀ more, .ok more ∈ answers → more.names.Nodup :=
      fun more hm => distinct more (List.mem_cons_of_mem _ hm)
    rw [List.reverse_cons, List.findSome?_append, Option.or_assoc]
    cases a with
    | ok more =>
      rw [ih h behind, Fields.get?_extend (distinct more (List.mem_cons_self ..))]
      simp [Need.given?]
    | error e =>
      cases tolerant with
      | false => cases h
      | true =>
        rw [ih h behind]
        simp [Need.given?]

end

/-- Answers that were chosen one by one are chosen by one function, if nothing was asked twice. -/
theorem exists_map_of_forall₂ {α β γ : Type} [DecidableEq α] {f : α → γ → β} {xs : List α}
    {ys : List β} (h : List.Forall₂ (fun x y => ∃ c, y = f x c) xs ys) (c₀ : γ)
    (distinct : xs.Nodup) : ∃ g : α → γ, ys = xs.map fun x => f x (g x) := by
  induction h with
  | nil => exact ⟨fun _ => c₀, rfl⟩
  | @cons x y xs ys here _ ih =>
    obtain ⟨c, rfl⟩ := here
    obtain ⟨new, others⟩ := List.nodup_cons.mp distinct
    obtain ⟨g, rfl⟩ := ih others
    refine ⟨Function.update g x c, ?_⟩
    rw [List.map_cons, Function.update_self]
    congr 1
    refine List.map_congr_left fun z hz => ?_
    have other : z ≠ x := by
      rintro rfl
      exact new hz
    rw [Function.update_of_ne other]

/-! ## 4. All needs of a step -/

section

variable {needs : List Need} {created : Need → Instant} {tolerant : Bool} {table : Fields Json}
  (h : gather tolerant [] (needs.map fun need => need.answer (need.newest? es) (created need)) =
    .ok table)

include h

theorem get?_gather_answers :
    Fields.get? key table = needs.reverse.findSome? fun need =>
      Need.given? key (need.answer (need.newest? es) (created need)) := by
  have distinct : ∀ more, .ok more ∈ needs.map (fun need =>
      need.answer (need.newest? es) (created need)) → more.names.Nodup := by
    intro more hm
    obtain ⟨need, -, answered⟩ := List.mem_map.mp hm
    exact Need.nodup_answer answered
  rw [get?_gather h distinct, Fields.get?_nil, Option.or_none, ← List.map_reverse,
    List.findSome?_map]
  rfl

/-- What a need owes is in the table if no need behind it has something under that name. -/
theorem get?_gather_iff :
    Fields.get? key table = some v ↔ ∃ front need back, needs = front ++ need :: back ∧
      need.Owes es (created need) key v ∧
      ∀ later ∈ back, ∀ w, ¬ later.Owes es (created later) key w := by
  rw [get?_gather_answers h, List.findSome?_eq_some_iff]
  simp only [Option.eq_none_iff_forall_ne_some, ne_eq, Need.given?_answer]
  constructor
  · rintro ⟨back, need, front, whole, owes, none⟩
    refine ⟨front.reverse, need, back.reverse, ?_, owes, ?_⟩
    · rw [← needs.reverse_reverse, whole]
      simp
    · simpa using none
  · rintro ⟨front, need, back, rfl, owes, none⟩
    exact ⟨back.reverse, need, front.reverse, by simp, owes, by simpa using none⟩

/-- All that is owed is in the table exactly if no two needs disagree on a name. -/
theorem kept_iff_agreed :
    (∀ need ∈ needs, ∀ key v, need.Owes es (created need) key v →
        Fields.get? key table = some v) ↔
      ∀ need ∈ needs, ∀ other ∈ needs, ∀ key v w, need.Owes es (created need) key v →
        other.Owes es (created other) key w → v = w := by
  constructor
  · intro kept need hneed other hother key v w owes owes'
    have first := kept need hneed key v owes
    have second := kept other hother key w owes'
    exact Option.some.inj (first.symm.trans second)
  · intro agreed need hneed key v owes
    -- something is in the table under the name, and it is owed by some need
    have found : (Fields.get? key table).isSome := by
      rw [get?_gather_answers h, List.findSome?_isSome_iff]
      exact ⟨need, List.mem_reverse.mpr hneed, by rw [Need.given?_answer.mpr owes]; rfl⟩
    obtain ⟨w, hw⟩ := Option.isSome_iff_exists.mp found
    obtain ⟨front, last, back, rfl, owes', -⟩ := (get?_gather_iff h).mp hw
    rw [hw, agreed need hneed last (by simp) key v w owes owes']

end

section

variable {σ : Type} [MemoryStore σ] [LogStore σ]

/-- **What is owed is bound exactly if no two needs disagree on a name.** Whatever is in the log of
the run, recalling needs is refused only if a slice cannot be read and this is not tolerated. Under
each name the last need counts that has something for it. -/
theorem recalled_iff_agreed {run : RunId} {tolerant : Bool} {needs : List Need}
    (distinct : needs.Nodup) {t : RunTrace} {x : Except StoreError (Fields Json)} {st st' : σ}
    (asked : Yields (ofStore («recall» tolerant run [] needs)) t x) (shared : Shared run st t st')
    (working : t.Working) :
    ∃ created : Need → Instant,
      ((∃ table, x = .ok table) ↔ tolerant = true ∨
        ∀ need ∈ needs, ∀ content, need.newest? (LogStore.entries run st) = some content →
          need.Legible content) ∧
      ∀ table, x = .ok table →
        (∀ key v, Fields.get? key table = some v ↔ ∃ front need back,
          needs = front ++ need :: back ∧
          need.Owes (LogStore.entries run st) (created need) key v ∧
          ∀ later ∈ back, ∀ w, ¬ later.Owes (LogStore.entries run st) (created later) key w) ∧
        ((∀ need ∈ needs, ∀ key v, need.Owes (LogStore.entries run st) (created need) key v →
            Fields.get? key table = some v) ↔
          ∀ need ∈ needs, ∀ other ∈ needs, ∀ key v w,
            need.Owes (LogStore.entries run st) (created need) key v →
            other.Owes (LogStore.entries run st) (created other) key w → v = w) := by
  obtain ⟨answers, met, rfl⟩ := gathered_of_recall asked shared working
  obtain ⟨created, rfl⟩ := exists_map_of_forall₂ met ⟨0⟩ distinct
  refine ⟨created, ?_, fun table told => ⟨fun key v => get?_gather_iff told, kept_iff_agreed told⟩⟩
  rw [gather_ok_iff, List.forall_mem_map]
  simp only [Need.answer_ok_iff]

end

/-! ## 5. Two outputs -/

/-- A store answers whatever is asked of it. -/
theorem exists_answered {σ α : Type} [MemoryStore σ] (now : Instant) (d : StoreDialogue α) (st : σ) :
    ∃ t, Yields (ofStore d) t (d.answered (reply now) st).1 ∧
      Served st t (d.answered (reply now) st).2 := by
  induction d generalizing st with
  | done a => exact ⟨[], .done a, .nil st⟩
  | ask q next ih =>
    obtain ⟨t, yields, served⟩ := ih (reply now q st).1 (reply now q st).2
    exact ⟨⟨.store q, (reply now q st).1⟩ :: t, yields_ask_iff.mpr ⟨_, t, rfl, yields⟩,
      .store rfl served⟩

/-- A run in which a step named `last` and then another one have left their outputs. -/
def twoOutputs : RunTable :=
  let append (st : RunTable) (step content : String) : RunTable :=
    (MemoryStore.append { run := "r1", step, classification := .output, content } ⟨0⟩ st).2
  append (append {} "last" "one") "other" "two"

/-- Two steps have outputs of different names. -/
theorem recalled_iff_agreed_outputs : ∃ (t : RunTrace) (st' : RunTable) (table : Fields Json),
    Yields (ofStore («recall» false "r1" [] [.toolOutput "last", .toolOutput "other"])) t
      (.ok table) ∧
    Shared "r1" twoOutputs t st' ∧ t.Working ∧
    Fields.get? "last_output" table = some (.str "one") ∧
    Fields.get? "other_output" table = some (.str "two") := by
  obtain ⟨t, asked, served⟩ := exists_answered ⟨0⟩
    («recall» false "r1" [] [.toolOutput "last", .toolOutput "other"]) twoOutputs
  obtain ⟨created, -, told⟩ := recalled_iff_agreed (by decide) asked served.shared
    (working_of_runTable served)
  have kept := (told _ rfl).2.mpr (Need.agreed_of_names (by decide) ?_)
  · refine ⟨t, _, _, asked, served.shared, working_of_runTable served, ?_, ?_⟩
    · exact kept (.toolOutput "last") (by decide) _ _ ⟨"one", rfl, .output "last"⟩
    · exact kept (.toolOutput "other") (by decide) _ _ ⟨"two", rfl, .output "other"⟩
  · rintro key v ⟨content, found, -⟩
    cases found

/-- **A binding may be overwritten by another.** The step `last` has left an output, and the need for
it is documented to bind `last_output` to that. -/
theorem overwritten_binding : ∃ (t : RunTrace) (st' : RunTable) (table : Fields Json),
    Yields (ofStore («recall» false "r1" [] [.toolOutput "last", .lastOutput])) t (.ok table) ∧
    Shared "r1" twoOutputs t st' ∧ t.Working ∧
    (Need.toolOutput "last").Owes (LogStore.entries "r1" twoOutputs) ⟨0⟩ "last_output" (.str "one") ∧
    Fields.get? "last_output" table ≠ some (.str "one") := by
  obtain ⟨t, asked, served⟩ := exists_answered ⟨0⟩
    («recall» false "r1" [] [.toolOutput "last", .lastOutput]) twoOutputs
  refine ⟨t, _, [("last_output", .str "two")], asked, served.shared, working_of_runTable served,
    ⟨"one", rfl, .output "last"⟩, ?_⟩
  simp [Fields.get?]

end Runbook
