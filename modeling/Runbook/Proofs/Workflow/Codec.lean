import Runbook.Proofs.Json.Records
import Runbook.Proofs.Template.Shapes
import Runbook.Proofs.Workflow.Needs
import Runbook.Workflow.Check
import Runbook.Workflow.Codec

/-!
# Workflows that are written and read again

A workflow may be spelled in many ways and is written in one. What was read of any spelling is
read again of the written form, with all its parts in their order (`Workflow.settled`).

Each part that is read has a property of its own that makes it come back: a default of a parameter
is never null, an input of a step has the shape of a JSON value, a need has an argument that can be
written, and a timeout fits a word (`Workflow.Readable`). These are all that is needed, since what
is left out of the written form is what is put in for a field that is not there.
-/

set_option autoImplicit false

namespace Runbook

theorem Json.isNull_eq_false {v : Json} (h : v ≠ .null) : v.isNull = false := by
  cases v with
  | null => exact absurd rfl h
  | bool | num | str | arr | obj => rfl

/-! ## 1. Parameters -/

namespace Param

/-- The default, if there is one, is a value. -/
def Solid (p : Param) : Prop := ∀ v, p.default = some v → v.isNull = false

theorem solid_mandatory (name : String) : (mandatory name).Solid := by
  intro v h
  cases h

theorem solid_ofDescription (name : String) (fs : Fields Json) : (ofDescription name fs).Solid := by
  intro v h
  simp only [ofDescription] at h
  split at h
  · cases h
  · simpa using (Option.filter_eq_some_iff.mp h).2

theorem solid_ofEntry (name : String) (v : Json) : (ofEntry name v).Solid := by
  unfold ofEntry
  split
  · exact solid_mandatory name
  · split
    · exact solid_ofDescription name _
    · rintro w ⟨⟩
      rfl
  · next null _ =>
    rintro w ⟨⟩
    exact Json.isNull_eq_false null

theorem solid_ofNamed {name : String} {fs : Fields Json} {p : Param} (h : ofNamed name fs = .ok p) :
    p.Solid := by
  unfold ofNamed at h
  split at h
  · cases h
  · cases h
    exact solid_ofDescription name fs

theorem solid_ofItem {v : Json} {p : Param} (h : ofItem v = .ok p) : p.Solid := by
  unfold ofItem at h
  dsimp only at h
  split at h
  · cases h
    exact solid_mandatory _
  · split at h
    · exact solid_ofNamed h
    · split at h
      · cases h
        exact solid_ofEntry _ _
      · cases h
  · cases h

def written (p : Param) : Fields Json :=
  Encode.field "name" (.str p.name) ++ Encode.optional "default" p.default ++
    Encode.optional "description" (p.description.map .str)

theorem names_written (p : Param) : p.written.names.Sublist ["name", "default", "description"] := by
  rw [written, Fields.names, List.map_append, List.map_append]
  exact ((List.Sublist.refl _).append (Encode.names_optional ..)).append (Encode.names_optional ..)

/-- A parameter is read from the table that is written of it. -/
theorem ofItem_encode {p : Param} (h : p.Solid) : ofItem p.encode = .ok p := by
  have name : Fields.get? "name" p.written = some (.str p.name) := rfl
  have required : Fields.get? "required" p.written = none := by
    simp [written, Encode.field, Fields.get?_append, Encode.get?_optional, Fields.get?_cons]
  have default : Fields.get? "default" p.written = p.default := by
    simp [written, Encode.field, Fields.get?_append, Encode.get?_optional, Fields.get?_cons]
  have description : Fields.get? "description" p.written = p.description.map .str := by
    simp [written, Encode.field, Fields.get?_append, Encode.get?_optional, Fields.get?_cons]
  have known : p.written.names.find? (fun k => !specKeys.contains k) = none := by
    refine List.find?_eq_none.mpr fun k hk => ?_
    have listed := p.names_written.subset hk
    simp only [List.mem_cons, List.not_mem_nil, or_false] at listed
    rcases listed with rfl | rfl | rfl <;> decide
  have kept : p.default.filter (fun v => !v.isNull) = p.default := by
    cases hd : p.default with
    | none => rfl
    | some v => rw [Option.filter_some, h v hd, Bool.not_false, if_pos rfl]
  have back : (p.description.map Json.str).bind Json.str? = p.description := by
    cases p.description <;> rfl
  have read : ofItem p.encode = ofNamed p.name p.written := by
    show ofItem (.obj p.written) = _
    simp only [ofItem, name]
  rw [read, ofNamed, known, ofDescription, required, default, description, kept, back]
  rfl

theorem decodeList_encode {ps : List Param} (h : ∀ p ∈ ps, p.Solid) :
    decodeList (.arr (ps.map encode)) = .ok ps :=
  Decode.itemsWith_map fun p hp => ofItem_encode (h p hp)

/-- Parameters that are read, in any spelling, have no default of null. -/
theorem solid_of_decodeList {v : Json} {ps : List Param} (h : decodeList v = .ok ps) :
    ∀ p ∈ ps, p.Solid := by
  intro p hp
  cases v with
  | null =>
    cases h
    cases hp
  | arr items =>
    obtain ⟨v, hv⟩ := Decode.gives_of_itemsWith h p hp
    exact solid_ofItem hv
  | obj fs =>
    cases h
    obtain ⟨e, -, rfl⟩ := List.mem_map.mp hp
    exact solid_ofEntry e.1 e.2
  | bool | num | str => cases h

end Param

/-! ## 2. Needs, inputs, gates and policies -/

theorem OnFailure.decode_display (p : OnFailure) : decode (.str p.display) = .ok p := by
  cases p <;> rfl

theorem Gate.decode_encode (g : Gate) : decode g.encode = .ok g := by
  cases g with
  | mk prompt => cases prompt <;> rfl

namespace Need

theorem decode_display {n : Need} (h : n.Named) : decode (.str n.display) = .ok n := by
  rw [decode, Decode.text_str]
  simp only [parse_display h]
  rfl

theorem named_of_decode {n : Need} (h : Decode.Gives decode n) : n.Named := by
  obtain ⟨v, h⟩ := h
  rw [decode] at h
  split at h
  · cases h
  · next s _ =>
    cases hp : parse s with
    | error e =>
      rw [hp] at h
      cases h
    | ok m =>
      rw [hp] at h
      cases h
      exact named_of_parse hp

theorem decodeList_encodeList {ns : List Need} (h : ∀ n ∈ ns, n.Named) :
    decodeList (encodeList ns) = .ok ns := by
  have back : Decode.list decode (.arr (ns.map fun n => .str n.display)) = .ok ns :=
    Decode.itemsWith_map fun n hn => decode_display (h n hn)
  have found : Fields.get? "needs" (Encode.field "needs" (.arr (ns.map fun n => .str n.display))) =
      some (.arr (ns.map fun n => .str n.display)) := rfl
  have known : Decode.record "MemorySpec" [Decode.spare "needs" (Decode.list decode)]
      (encodeList ns) = .ok (Encode.field "needs" (.arr (ns.map fun n => .str n.display))) := by
    refine Decode.record_obj (by simp [Encode.field, Fields.names]) ?_
    simp only [List.forall_mem_cons]
    exact ⟨Decode.passes_of_get? found back, by simp⟩
  rw [decodeList, known, Decode.ok_bind, Decode.withDefault_of_get? found back]

theorem named_of_decodeList {ns : List Need} (h : Decode.Gives decodeList ns) :
    ∀ n ∈ ns, n.Named := by
  intro n hn
  obtain ⟨v, h⟩ := h
  obtain ⟨fs, -, read⟩ := Decode.bind_ok h
  rcases Decode.gives_of_withDefault read with rfl | ⟨w, hw⟩
  · cases hn
  · exact named_of_decode (Decode.gives_of_list hw n hn)

end Need

namespace Template

/-- The table of template values has the shape of a table of values. -/
def Shaped (ts : Fields Template) : Prop := ∃ fs, ts = readFields fs

theorem entriesWith_decode (fs : Fields Json) :
    Decode.entriesWith decode fs = .ok (readFields fs) := by
  induction fs with
  | nil => simp only [Decode.entriesWith, readFields]
  | cons f fs ih => simp only [Decode.entriesWith, readFields, decode, ih]

theorem decode_toFields {ts : Fields Template} (h : Shaped ts) :
    Decode.table decode (.obj (toFields ts)) = .ok ts := by
  obtain ⟨fs, rfl⟩ := h
  rw [toFields_readFields, Decode.table, entriesWith_decode]

theorem shaped_of_table {ts : Fields Template} (h : Decode.Gives (Decode.table decode) ts) :
    Shaped ts := by
  obtain ⟨v, h⟩ := h
  cases v with
  | obj fs =>
    rw [Decode.table, entriesWith_decode] at h
    exact ⟨fs, (Except.ok.inj h).symm⟩
  | null | bool | num | str | arr => cases h

end Template

/-! ## 3. Steps -/

namespace Step

/-- The parts of a step that have to be of a kind that can be read. -/
structure Readable (s : Step) : Prop where
  inputs : Template.Shaped s.inputs
  needs : ∀ n ∈ s.needs, n.Named
  timeout : ∀ n, s.timeoutSecs = some n → n < 2 ^ 64

theorem readable_of_decode {v : Json} {s : Step} (h : decode v = .ok s) : s.Readable := by
  obtain ⟨fs, -, h⟩ := Decode.bind_ok h
  obtain ⟨name, -, h⟩ := Decode.bind_ok h
  obtain ⟨tool, -, h⟩ := Decode.bind_ok h
  obtain ⟨inputs, hinputs, h⟩ := Decode.bind_ok h
  obtain ⟨needs, hneeds, h⟩ := Decode.bind_ok h
  obtain ⟨gate, -, h⟩ := Decode.bind_ok h
  obtain ⟨onFailure, -, h⟩ := Decode.bind_ok h
  obtain ⟨timeout, htimeout, h⟩ := Decode.bind_ok h
  cases h
  refine ⟨?_, ?_, ?_⟩
  · rcases Decode.gives_of_withDefault hinputs with rfl | given
    · exact ⟨[], by rw [Template.readFields]⟩
    · exact Template.shaped_of_table given
  · rcases Decode.gives_of_withDefault hneeds with rfl | given
    · exact fun n hn => absurd hn List.not_mem_nil
    · exact Need.named_of_decodeList given
  · rintro n rfl
    exact Decode.lt_of_gives_word (Decode.gives_of_optional htimeout)

def written (s : Step) : Fields Json :=
  Encode.field "name" (.str s.name) ++
    Encode.optional "tool" (s.tool.map .str) ++
    Encode.when (!s.inputs.isEmpty) "inputs" (.obj (Template.toFields s.inputs)) ++
    Encode.when (!s.needs.isEmpty) "memory" (Need.encodeList s.needs) ++
    Encode.optional "gate" (s.gate.map Gate.encode) ++
    Encode.field "on_failure" (.str s.onFailure.display) ++
    Encode.optional "timeout_secs" (s.timeoutSecs.map Json.nat)

theorem nodup_written (s : Step) : s.written.names.Nodup := by
  refine List.Nodup.sublist (?_ : List.Sublist _
    ["name", "tool", "inputs", "memory", "gate", "on_failure", "timeout_secs"]) (by decide)
  simp only [written, Fields.names, List.map_append]
  exact ((((((List.Sublist.refl _).append (Encode.names_optional ..)).append
    (Encode.names_when ..)).append (Encode.names_when ..)).append
    (Encode.names_optional ..)).append (List.Sublist.refl _)).append (Encode.names_optional ..)

/-- Looks a name up among the written fields, one after the other. -/
theorem get?_written (s : Step) (k : String) : Fields.get? k s.written =
    ((((((if "name" = k then some (.str s.name) else none).or
      (if "tool" = k then s.tool.map .str else none)).or
      (if "inputs" = k ∧ !s.inputs.isEmpty then some (.obj (Template.toFields s.inputs))
        else none)).or
      (if "memory" = k ∧ !s.needs.isEmpty then some (Need.encodeList s.needs) else none)).or
      (if "gate" = k then s.gate.map Gate.encode else none)).or
      (if "on_failure" = k then some (.str s.onFailure.display) else none)).or
      (if "timeout_secs" = k then s.timeoutSecs.map Json.nat else none) := by
  simp only [written, Encode.field, Fields.get?_append, Encode.get?_optional, Encode.get?_when,
    Fields.get?_cons, Fields.get?_nil]

/-- A step of readable parts is read from the table that is written of it. -/
theorem decode_encode {s : Step} (h : s.Readable) : decode s.encode = .ok s := by
  have name : Fields.get? "name" s.written = some (.str s.name) := by simp [get?_written]
  have tool : Fields.get? "tool" s.written = s.tool.map .str := by simp [get?_written]
  have inputs : Fields.get? "inputs" s.written =
      if !s.inputs.isEmpty then some (.obj (Template.toFields s.inputs)) else none := by
    simp [get?_written]
  have memory : Fields.get? "memory" s.written =
      if !s.needs.isEmpty then some (Need.encodeList s.needs) else none := by simp [get?_written]
  have gate : Fields.get? "gate" s.written = s.gate.map Gate.encode := by simp [get?_written]
  have policy : Fields.get? "on_failure" s.written = some (.str s.onFailure.display) := by
    simp [get?_written]
  have timeout : Fields.get? "timeout_secs" s.written = s.timeoutSecs.map Json.nat := by
    simp [get?_written]
  have textBack : ∀ a, s.tool = some a → Decode.option Decode.text (.str a) = .ok (some a) :=
    fun a _ => Decode.option_some rfl (Decode.text_str a)
  have inputsBack := Template.decode_toFields h.inputs
  have needsBack := Need.decodeList_encodeList h.needs
  have gateBack : ∀ g, s.gate = some g → Decode.option Gate.decode g.encode = .ok (some g) :=
    fun g _ => Decode.option_some rfl g.decode_encode
  have policyBack := s.onFailure.decode_display
  have timeoutBack : ∀ n, s.timeoutSecs = some n →
      Decode.option Decode.word64 (Json.nat n) = .ok (some n) :=
    fun n hn => Decode.option_some rfl (Decode.word_nat "u64" (h.timeout n hn))
  have noInputs : (!s.inputs.isEmpty) = false → s.inputs = [] := by simp
  have noNeeds : (!s.needs.isEmpty) = false → s.needs = [] := by simp
  have known : Decode.record "StepDefinition" knownFields s.encode = .ok s.written := by
    refine Decode.record_obj s.nodup_written ?_
    simp only [knownFields, List.forall_mem_cons]
    exact ⟨Decode.passes_of_get? name (Decode.text_str _), Decode.passes_optional tool textBack,
      Decode.passes_when (d := Decode.table Template.decode) inputs inputsBack,
      Decode.passes_when (d := Need.decodeList) memory needsBack,
      Decode.passes_optional gate gateBack, Decode.passes_of_get? policy policyBack,
      Decode.passes_optional timeout timeoutBack, by simp⟩
  rw [decode, known, Decode.ok_bind, Decode.required_of_get? name (Decode.text_str _),
    Decode.ok_bind, Decode.optional_of_get? tool textBack, Decode.ok_bind,
    Decode.withDefault_of_when inputs inputsBack noInputs, Decode.ok_bind,
    Decode.withDefault_of_when memory needsBack noNeeds, Decode.ok_bind,
    Decode.optional_of_get? gate gateBack, Decode.ok_bind,
    Decode.withDefault_of_get? policy policyBack, Decode.ok_bind,
    Decode.optional_of_get? timeout timeoutBack]
  rfl

end Step

/-! ## 4. Workflows -/

namespace Workflow

/-- The parts of a workflow that have to be of a kind that can be read. -/
structure Readable (w : Workflow) : Prop where
  params : ∀ p ∈ w.params, p.Solid
  steps : ∀ s ∈ w.steps, s.Readable

theorem readable_of_decode {v : Json} {w : Workflow} (h : decode v = .ok w) : w.Readable := by
  obtain ⟨fs, -, h⟩ := Decode.bind_ok h
  obtain ⟨name, -, h⟩ := Decode.bind_ok h
  obtain ⟨description, -, h⟩ := Decode.bind_ok h
  obtain ⟨params, hparams, h⟩ := Decode.bind_ok h
  obtain ⟨steps, hsteps, h⟩ := Decode.bind_ok h
  cases h
  refine ⟨?_, ?_⟩
  · rcases Decode.gives_of_withDefault hparams with rfl | ⟨v, hv⟩
    · exact fun p hp => absurd hp List.not_mem_nil
    · exact Param.solid_of_decodeList hv
  · obtain ⟨v, hv⟩ := Decode.gives_of_required hsteps
    intro s hs
    obtain ⟨u, hu⟩ := Decode.gives_of_list hv s hs
    exact Step.readable_of_decode hu

def written (w : Workflow) : Fields Json :=
  Encode.field "name" (.str w.name) ++
    Encode.optional "description" (w.description.map .str) ++
    Encode.field "params" (.arr (w.params.map Param.encode)) ++
    Encode.field "steps" (.arr (w.steps.map Step.encode))

theorem nodup_written (w : Workflow) : w.written.names.Nodup := by
  refine List.Nodup.sublist (?_ : List.Sublist _ ["name", "description", "params", "steps"])
    (by decide)
  simp only [written, Fields.names, List.map_append]
  exact (((List.Sublist.refl _).append (Encode.names_optional ..)).append
    (List.Sublist.refl _)).append (List.Sublist.refl _)

/-- **A workflow of readable parts is read from the table that is written of it.** -/
theorem decode_encode {w : Workflow} (h : w.Readable) : decode w.encode = .ok w := by
  have name : Fields.get? "name" w.written = some (.str w.name) := rfl
  have description : Fields.get? "description" w.written = w.description.map .str := by
    simp [written, Encode.field, Fields.get?_append, Encode.get?_optional, Fields.get?_cons]
  have params : Fields.get? "params" w.written = some (.arr (w.params.map Param.encode)) := by
    simp [written, Encode.field, Fields.get?_append, Encode.get?_optional, Fields.get?_cons]
  have steps : Fields.get? "steps" w.written = some (.arr (w.steps.map Step.encode)) := by
    simp [written, Encode.field, Fields.get?_append, Encode.get?_optional, Fields.get?_cons]
  have textBack : ∀ a, w.description = some a →
      Decode.option Decode.text (.str a) = .ok (some a) :=
    fun a _ => Decode.option_some rfl (Decode.text_str a)
  have paramsBack := Param.decodeList_encode h.params
  have stepsBack : Decode.list Step.decode (.arr (w.steps.map Step.encode)) = .ok w.steps :=
    Decode.itemsWith_map fun s hs => Step.decode_encode (h.steps s hs)
  have known : Decode.record "WorkflowDefinition" knownFields w.encode = .ok w.written := by
    refine Decode.record_obj w.nodup_written ?_
    simp only [knownFields, List.forall_mem_cons]
    exact ⟨Decode.passes_of_get? name (Decode.text_str _),
      Decode.passes_optional description textBack, Decode.passes_of_get? params paramsBack,
      Decode.passes_of_get? steps stepsBack, by simp⟩
  rw [decode, known, Decode.ok_bind, Decode.withDefault_of_get? name (Decode.text_str _),
    Decode.ok_bind, Decode.optional_of_get? description textBack, Decode.ok_bind,
    Decode.withDefault_of_get? params paramsBack, Decode.ok_bind,
    Decode.required_of_get? steps stepsBack]
  rfl

/-- Exactly the workflows of readable parts are read from what is written of them. -/
theorem decode_encode_iff {w : Workflow} : decode w.encode = .ok w ↔ w.Readable :=
  ⟨readable_of_decode, decode_encode⟩

/-- **What was read of any spelling is read again from the written form**, with its parts in their
order; so what is written no longer changes, and the rules are kept by both or by neither. -/
theorem settled {v : Json} {w : Workflow} (h : decode v = .ok w) :
    decode w.encode = .ok w ∧
      (decode w.encode).map encode = .ok w.encode ∧
      (decode w.encode).map check = (decode v).map check := by
  have back := decode_encode (readable_of_decode h)
  refine ⟨back, ?_, ?_⟩
  · rw [back]
    rfl
  · rw [back, h]

/-- A workflow with parameters of every spelling, nested inputs, second names of needs and a gate
that does not say what it asks. -/
def spelledOut : Json :=
  .obj [("steps", .arr [.obj [("memory", .obj [("needs", .arr [.str " previous_output",
      .str "step_output ( draft-1 )"])]), ("gate", .obj []), ("tool", .str "echo"),
      ("inputs", .obj [("text", .str "{{params.topic}}"),
        ("deep", .arr [.null, .obj [("b", Json.nat 1), ("a", .bool true)]])]),
      ("timeout_secs", Json.nat 5), ("name", .str "show")]]),
    ("params", .arr [.str "topic", .obj [("depth", Json.nat 2)],
      .obj [("style", .obj [("default", .str "brief"), ("description", .str "how it reads")])],
      .obj [("required", .bool true), ("name", .str "audience"), ("default", Json.nat 0)],
      .obj [("extra", .obj [("name", .str "x")])]])]

/-- The workflow that it spells. -/
def spelled : Workflow where
  name := ""
  description := none
  params := [⟨"topic", none, none⟩, ⟨"depth", some (Json.nat 2), none⟩,
    ⟨"style", some (.str "brief"), some "how it reads"⟩, ⟨"audience", none, none⟩,
    ⟨"extra", some (.obj [("name", .str "x")]), none⟩]
  steps := [{
    name := "show"
    tool := some "echo"
    inputs := [("text", .text "{{params.topic}}"),
      ("deep", .list [.literal .null, .map [("b", .literal (Json.nat 1)), ("a", .literal (.bool true))]])]
    needs := [.lastOutput, .toolOutput "draft-1"]
    gate := some ⟨none⟩
    timeoutSecs := some 5 }]

theorem settled_spelledOut :
    decode spelledOut = .ok spelled ∧ decode spelled.encode = .ok spelled ∧
      (decode spelled.encode).map encode = .ok spelled.encode ∧
      (decode spelled.encode).map check = .ok (.error .emptyName) :=
  have read : decode spelledOut = .ok spelled := rfl
  ⟨read, (settled read).1, (settled read).2.1, (settled read).2.2.trans (by rw [read]; rfl)⟩

end Workflow

end Runbook
