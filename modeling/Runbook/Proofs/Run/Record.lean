import Runbook.Proofs.Run.Outcome
import Runbook.Run.Record

/-!
# Records of runs and their JSON

A record of a run is decoded as it was encoded, with everything in it: results with the outputs of
their queries, the reason of an abort, and the times (`RunRecord.told_whole`). So of two different
step results different values are written: an empty output, for one, is not no output.

Nothing is asked of a record but what its fields can hold: the index of a query is a word of 64
bits, and the year of a time is one that has dates.
-/

set_option autoImplicit false

namespace Runbook

/-! ## 1. Reasons of an abort -/

theorem RunStatus.decode_display (s : RunStatus) : RunStatus.decode (.str s.display) = .ok s := by
  cases s <;> rfl

/-- Every reason is read from its tag and the fields that belong to it. -/
theorem AbortReason.decode_encode (a : AbortReason) : decode a.encode = .ok a := by
  cases a with
  | stepFailed step kind message => cases kind <;> rfl
  | gateDenied step => rfl
  | gateExpired step => rfl
  | storeWrite step message => rfl
  | cancelled step => cases step <;> rfl

/-! ## 2. Results -/

namespace StepResult

/-- The result is one that can be held: its indices are words, and its years have dates. -/
structure Representable (r : StepResult) : Prop where
  indexed : ∀ o ∈ r.output, o.Indexed
  started : ∀ t ∈ r.startedAt, t.Dated
  finished : ∀ t ∈ r.finishedAt, t.Dated

instance (r : StepResult) : Decidable r.Representable :=
  decidable_of_iff ((∀ o ∈ r.output, o.Indexed) ∧ (∀ t ∈ r.startedAt, t.Dated) ∧
      ∀ t ∈ r.finishedAt, t.Dated)
    ⟨fun ⟨indexed, started, finished⟩ => ⟨indexed, started, finished⟩,
      fun ⟨indexed, started, finished⟩ => ⟨indexed, started, finished⟩⟩

theorem decode_encode_of_representable {r : StepResult} (h : r.Representable) :
    decode r.encode = .ok r := by
  refine decode_encode h.indexed ?_
  rintro t (ht | ht)
  · exact Instant.parse?_text (h.started t ht)
  · exact Instant.parse?_text (h.finished t ht)

/-- What is written tells results apart. -/
theorem eq_of_encode {x y : StepResult} (hx : x.Representable) (hy : y.Representable)
    (h : x.encode = y.encode) : x = y := by
  have read := decode_encode_of_representable hx
  rw [h, decode_encode_of_representable hy] at read
  exact (Except.ok.inj read).symm

end StepResult

/-! ## 3. Runs -/

namespace RunRecord

/-- The record is one that can be held. -/
structure Representable (r : RunRecord) : Prop where
  steps : ∀ x ∈ r.steps, x.Representable
  started : r.startedAt.Dated
  finished : ∀ t ∈ r.finishedAt, t.Dated

instance (r : RunRecord) : Decidable r.Representable :=
  decidable_of_iff ((∀ x ∈ r.steps, x.Representable) ∧ r.startedAt.Dated ∧
      ∀ t ∈ r.finishedAt, t.Dated)
    ⟨fun ⟨steps, started, finished⟩ => ⟨steps, started, finished⟩,
      fun ⟨steps, started, finished⟩ => ⟨steps, started, finished⟩⟩

def written (r : RunRecord) : Fields Json :=
  [("id", .str r.id), ("workflow_name", .str r.workflow), ("params", .obj r.params),
      ("status", .str r.status.display), ("steps", .arr (r.steps.map StepResult.encode))] ++
    Encode.optional "abort" (r.abort.map AbortReason.encode) ++
    Encode.field "started_at" (.str r.startedAt.text) ++
    Encode.optional "finished_at" (r.finishedAt.map fun t => .str t.text)

theorem nodup_written (r : RunRecord) : r.written.names.Nodup := by
  refine List.Nodup.sublist (?_ : List.Sublist _ ["id", "workflow_name", "params", "status",
    "steps", "abort", "started_at", "finished_at"]) (by decide)
  simp only [written, Fields.names, List.map_append]
  exact (((List.Sublist.refl _).append (Encode.names_optional ..)).append
    (List.Sublist.refl _)).append (Encode.names_optional ..)

theorem decode_encode {r : RunRecord} (h : r.Representable) : decode r.encode = .ok r := by
  have id : Fields.get? "id" r.written = some (.str r.id) := rfl
  have workflow : Fields.get? "workflow_name" r.written = some (.str r.workflow) := rfl
  have params : Fields.get? "params" r.written = some (.obj r.params) := rfl
  have status : Fields.get? "status" r.written = some (.str r.status.display) := rfl
  have steps : Fields.get? "steps" r.written = some (.arr (r.steps.map StepResult.encode)) := rfl
  have abort : Fields.get? "abort" r.written = r.abort.map AbortReason.encode := by
    simp [written, Encode.field, Fields.get?_append, Encode.get?_optional, Fields.get?_cons]
  have started : Fields.get? "started_at" r.written = some (.str r.startedAt.text) := by
    simp [written, Encode.field, Fields.get?_append, Encode.get?_optional, Fields.get?_cons]
  have finished : Fields.get? "finished_at" r.written =
      r.finishedAt.map fun t => .str t.text := by
    simp [written, Encode.field, Fields.get?_append, Encode.get?_optional, Fields.get?_cons]
  have paramsBack := Decode.table_any r.params
  have statusBack := r.status.decode_display
  have stepsBack : Decode.list StepResult.decode (.arr (r.steps.map StepResult.encode)) =
      .ok r.steps :=
    Decode.itemsWith_map fun x hx => StepResult.decode_encode_of_representable (h.steps x hx)
  have abortBack : ∀ a, r.abort = some a →
      Decode.option AbortReason.decode a.encode = .ok (some a) :=
    fun a _ => Decode.option_some rfl a.decode_encode
  have startedBack := Instant.decode_text (Instant.parse?_text h.started)
  have finishedBack : ∀ t, r.finishedAt = some t →
      Decode.option Instant.decode (.str t.text) = .ok (some t) :=
    fun t ht => Decode.option_some rfl (Instant.decode_text (Instant.parse?_text (h.finished t ht)))
  have known : Decode.record "WorkflowRun" knownFields r.encode = .ok r.written := by
    refine Decode.record_obj r.nodup_written ?_
    simp only [knownFields, List.forall_mem_cons]
    exact ⟨Decode.passes_of_get? id (Decode.text_str _),
      Decode.passes_of_get? workflow (Decode.text_str _), Decode.passes_of_get? params paramsBack,
      Decode.passes_of_get? status statusBack, Decode.passes_of_get? steps stepsBack,
      Decode.passes_optional abort abortBack, Decode.passes_of_get? started startedBack,
      Decode.passes_optional finished finishedBack, by simp⟩
  rw [decode, known, Decode.ok_bind, Decode.required_of_get? id (Decode.text_str _),
    Decode.ok_bind, Decode.required_of_get? workflow (Decode.text_str _), Decode.ok_bind,
    Decode.required_of_get? params paramsBack, Decode.ok_bind,
    Decode.required_of_get? status statusBack, Decode.ok_bind,
    Decode.required_of_get? steps stepsBack, Decode.ok_bind,
    Decode.optional_of_get? abort abortBack, Decode.ok_bind,
    Decode.required_of_get? started startedBack, Decode.ok_bind,
    Decode.optional_of_get? finished finishedBack]
  rfl

/-- **A record is decoded as it was encoded, and different results are encoded differently.** -/
theorem told_whole :
    (∀ r : RunRecord, r.Representable → decode r.encode = .ok r) ∧
      ∀ x y : StepResult, x.Representable → y.Representable → x ≠ y → x.encode ≠ y.encode :=
  ⟨fun _ h => decode_encode h,
    fun _ _ hx hy other same => other (StepResult.eq_of_encode hx hy same)⟩

/-- A run that was cancelled between two steps, after a fan-out of which one query failed. -/
def halted : RunRecord where
  id := "w_20260101_000000_0000abcd"
  workflow := "w"
  params := [("depth", Json.nat 2), ("topic", .str "tides")]
  status := .aborted
  steps := [{
      step := "ask"
      status := .success
      output := some {
        output := ""
        outputs := [⟨0, "echo", .success, "one", [("text", .str "one")], none⟩,
          ⟨1, "echo", .failed, "", [], some ⟨.timeout, "timed out"⟩⟩]
        metadata := [("query_count", Json.nat 2)] }
      startedAt := some ⟨1767225600000000000⟩
      finishedAt := some ⟨1767225600123456789⟩ }, .skipped "show"]
  abort := some (.cancelled none)
  startedAt := ⟨1767225599500000000⟩
  finishedAt := some ⟨1767225601000000000⟩

/-- A step that succeeded with an empty output. -/
def silent : StepResult := { step := "show", status := .success, output := some {} }

/-- A step that succeeded without an output. -/
def approved : StepResult := { step := "show", status := .success }

theorem told_whole_halted :
    halted.Representable ∧ decode halted.encode = .ok halted ∧
      silent.Representable ∧ approved.Representable ∧ silent ≠ approved ∧
      silent.encode ≠ approved.encode := by
  have halt : halted.Representable := by decide
  have silence : silent.Representable := by decide
  have approval : approved.Representable := by decide
  have other : silent ≠ approved := fun h => nomatch congrArg StepResult.output h
  exact ⟨halt, told_whole.1 halted halt, silence, approval, other,
    told_whole.2 silent approved silence approval other⟩

end RunRecord
end Runbook
