import Runbook.Proofs.InstantText
import Runbook.Proofs.Json.Lossless
import Runbook.Proofs.Json.Records
import Runbook.Run.Outcome

/-!
# Outcomes and their JSON

A result that is encoded is decoded to itself (`StepResult.decode_encode`), as long as its times
have texts that are read back and the indices of its queries fit a word. Each record is taken apart
in the same way: the fields that were written are looked up by their names, and each known field
passes both passes of the decoder with what was written there.

If the text of a result is lossless, the indices need no assumption: what comes back as a natural
number fits a word.
-/

set_option autoImplicit false

namespace Runbook

/-! ## 1. Statuses, failures and times -/

theorem Status.decode_display (s : Status) : Status.decode (.str s.display) = .ok s := by
  cases s <;> rfl

theorem Failure.decode_encode (f : Failure) : decode f.encode = .ok f := by
  cases f with
  | mk kind message => cases kind <;> rfl

theorem Instant.decode_text {t : Instant} (h : parse? t.text = some t) :
    decode (.str t.text) = .ok t := by
  rw [decode, Decode.text]
  simp only [h]

/-! ## 2. Query results -/

namespace QueryResult

def written (q : QueryResult) : Fields Json :=
  [("index", Json.nat q.index), ("tool", .str q.tool), ("status", .str q.status.display),
      ("output", .str q.output), ("metadata", .obj q.metadata)] ++
    Encode.optional "error" (q.error.map Failure.encode)

theorem nodup_written (q : QueryResult) : q.written.names.Nodup := by
  refine List.Nodup.sublist (?_ : List.Sublist _
    ["index", "tool", "status", "output", "metadata", "error"]) (by decide)
  rw [written, Fields.names, List.map_append]
  exact (List.Sublist.refl _).append (Encode.names_optional ..)

theorem index_of_reread {depth : Nat} {q : QueryResult}
    (h : Json.reread (depth + 1) q.encode = some q.encode) : q.index < 2 ^ 64 :=
  Json.lt_of_reread_nat (Json.reread_field (k := "index") q.nodup_written h rfl)

theorem decode_encode {q : QueryResult} (small : q.index < 2 ^ 64) :
    decode q.encode = .ok q := by
  have index : Fields.get? "index" q.written = some (Json.nat q.index) := rfl
  have tool : Fields.get? "tool" q.written = some (.str q.tool) := rfl
  have status : Fields.get? "status" q.written = some (.str q.status.display) := rfl
  have output : Fields.get? "output" q.written = some (.str q.output) := rfl
  have metadata : Fields.get? "metadata" q.written = some (.obj q.metadata) := rfl
  have error : Fields.get? "error" q.written = q.error.map Failure.encode :=
    Encode.get?_optional "error" "error" _
  have failure : ∀ f, q.error = some f → Decode.option Failure.decode f.encode = .ok (some f) :=
    fun f _ => Decode.option_some rfl f.decode_encode
  have size := Decode.size_nat small
  have table := Decode.table_any q.metadata
  have known : Decode.record "SubResult" knownFields q.encode = .ok q.written := by
    refine Decode.record_obj q.nodup_written ?_
    simp only [knownFields, List.forall_mem_cons]
    exact ⟨Decode.passes_of_get? index size, Decode.passes_of_get? tool (Decode.text_str _),
      Decode.passes_of_get? status q.status.decode_display,
      Decode.passes_of_get? output (Decode.text_str _),
      Decode.passes_of_get? metadata table, Decode.passes_optional error failure, by simp⟩
  rw [decode, known, Decode.ok_bind, Decode.required_of_get? index size, Decode.ok_bind,
    Decode.required_of_get? tool (Decode.text_str _), Decode.ok_bind,
    Decode.required_of_get? status q.status.decode_display, Decode.ok_bind,
    Decode.withDefault_of_get? output (Decode.text_str _), Decode.ok_bind,
    Decode.withDefault_of_get? metadata table, Decode.ok_bind,
    Decode.optional_of_get? error failure]
  rfl

end QueryResult

/-! ## 3. Outputs -/

namespace ToolOutput

def written (o : ToolOutput) : Fields Json :=
  Encode.field "output" (.str o.output) ++
    Encode.when (!o.outputs.isEmpty) "outputs" (.arr (o.outputs.map QueryResult.encode)) ++
    Encode.field "metadata" (.obj o.metadata)

theorem nodup_written (o : ToolOutput) : o.written.names.Nodup := by
  refine List.Nodup.sublist (?_ : List.Sublist _ ["output", "outputs", "metadata"]) (by decide)
  rw [written, Fields.names, List.map_append, List.map_append]
  exact ((List.Sublist.refl _).append (Encode.names_when ..)).append (List.Sublist.refl _)

theorem get?_output (o : ToolOutput) : Fields.get? "output" o.written = some (.str o.output) := rfl

theorem get?_outputs (o : ToolOutput) : Fields.get? "outputs" o.written =
    if o.outputs.isEmpty then none else some (.arr (o.outputs.map QueryResult.encode)) := by
  rw [written, Fields.get?_append, Fields.get?_append, Encode.get?_when]
  cases o.outputs <;> rfl

theorem get?_metadata (o : ToolOutput) :
    Fields.get? "metadata" o.written = some (.obj o.metadata) := by
  rw [written, Fields.get?_append, Fields.get?_append, Encode.get?_when]
  cases o.outputs <;> rfl

/-- The index of each query fits a word. -/
def Indexed (o : ToolOutput) : Prop := ∀ q ∈ o.outputs, q.index < 2 ^ 64

instance (o : ToolOutput) : Decidable o.Indexed :=
  inferInstanceAs (Decidable (∀ q ∈ o.outputs, q.index < 2 ^ 64))

theorem indexed_of_reread {depth : Nat} {o : ToolOutput}
    (h : Json.reread (depth + 3) o.encode = some o.encode) : o.Indexed := by
  intro q hq
  have some_query : o.outputs.isEmpty = false := by
    cases hs : o.outputs with
    | nil =>
      rw [hs] at hq
      cases hq
    | cons => rfl
  have found := o.get?_outputs
  rw [some_query, if_neg Bool.false_ne_true] at found
  have items := Json.reread_item (Json.reread_field o.nodup_written h found)
  exact QueryResult.index_of_reread (items q.encode (List.mem_map.mpr ⟨q, hq, rfl⟩))

theorem decode_encode {o : ToolOutput} (indexed : o.Indexed) : decode o.encode = .ok o := by
  have output := o.get?_output
  have metadata := o.get?_metadata
  have table := Decode.table_any o.metadata
  have items : Decode.itemsWith QueryResult.decode (o.outputs.map QueryResult.encode) =
      .ok o.outputs := Decode.itemsWith_map fun q hq => QueryResult.decode_encode (indexed q hq)
  have outputs : Fields.get? "outputs" o.written =
      if !o.outputs.isEmpty then some (.arr (o.outputs.map QueryResult.encode)) else none := by
    rw [o.get?_outputs]
    cases o.outputs <;> rfl
  have none : (!o.outputs.isEmpty) = false → o.outputs = [] := by simp
  have known : Decode.record "ToolOutput" knownFields o.encode = .ok o.written := by
    refine Decode.record_obj o.nodup_written ?_
    simp only [knownFields, List.forall_mem_cons]
    exact ⟨Decode.passes_of_get? output (Decode.text_str _),
      Decode.passes_when (d := Decode.list QueryResult.decode) outputs items,
      Decode.passes_of_get? metadata table, by simp⟩
  rw [decode, known, Decode.ok_bind, Decode.required_of_get? output (Decode.text_str _),
    Decode.ok_bind, Decode.withDefault_of_when (d := Decode.list QueryResult.decode) outputs items none,
    Decode.ok_bind, Decode.withDefault_of_get? metadata table]
  rfl

end ToolOutput

/-! ## 4. Results -/

namespace StepResult

def written (r : StepResult) : Fields Json :=
  [("step_name", .str r.step), ("status", .str r.status.display)] ++
    Encode.optional "output" (r.output.map ToolOutput.encode) ++
    Encode.optional "error" (r.error.map Failure.encode) ++
    Encode.optional "started_at" (r.startedAt.map fun t => .str t.text) ++
    Encode.optional "finished_at" (r.finishedAt.map fun t => .str t.text)

theorem nodup_written (r : StepResult) : r.written.names.Nodup := by
  refine List.Nodup.sublist (?_ : List.Sublist _
    ["step_name", "status", "output", "error", "started_at", "finished_at"]) (by decide)
  rw [written, Fields.names, List.map_append, List.map_append, List.map_append, List.map_append]
  exact ((((List.Sublist.refl _).append (Encode.names_optional ..)).append
    (Encode.names_optional ..)).append (Encode.names_optional ..)).append
    (Encode.names_optional ..)

theorem get?_step (r : StepResult) : Fields.get? "step_name" r.written = some (.str r.step) := rfl

theorem get?_status (r : StepResult) :
    Fields.get? "status" r.written = some (.str r.status.display) := rfl

theorem get?_output (r : StepResult) :
    Fields.get? "output" r.written = r.output.map ToolOutput.encode := by
  simp [written, Fields.get?_append, Encode.get?_optional, Fields.get?_cons]

theorem get?_error (r : StepResult) :
    Fields.get? "error" r.written = r.error.map Failure.encode := by
  simp [written, Fields.get?_append, Encode.get?_optional, Fields.get?_cons]

theorem get?_startedAt (r : StepResult) :
    Fields.get? "started_at" r.written = r.startedAt.map fun t => .str t.text := by
  simp [written, Fields.get?_append, Encode.get?_optional, Fields.get?_cons]

theorem get?_finishedAt (r : StepResult) :
    Fields.get? "finished_at" r.written = r.finishedAt.map fun t => .str t.text := by
  simp [written, Fields.get?_append, Encode.get?_optional, Fields.get?_cons]

/-- The times of the result have texts that are read back. -/
def Clocked (r : StepResult) : Prop :=
  ∀ t, r.startedAt = some t ∨ r.finishedAt = some t → Instant.parse? t.text = some t

/-- **A result is decoded as it was encoded.** -/
theorem decode_encode {r : StepResult} (indexed : ∀ o, r.output = some o → o.Indexed)
    (clocked : r.Clocked) : decode r.encode = .ok r := by
  have output : ∀ o, r.output = some o →
      Decode.option ToolOutput.decode o.encode = .ok (some o) :=
    fun o h => Decode.option_some rfl (ToolOutput.decode_encode (indexed o h))
  have error : ∀ f, r.error = some f → Decode.option Failure.decode f.encode = .ok (some f) :=
    fun f _ => Decode.option_some rfl f.decode_encode
  have time : ∀ t, r.startedAt = some t ∨ r.finishedAt = some t →
      Decode.option Instant.decode (.str t.text) = .ok (some t) :=
    fun t h => Decode.option_some rfl (Instant.decode_text (clocked t h))
  have started := fun t h => time t (.inl h)
  have finished := fun t h => time t (.inr h)
  have known : Decode.record "StepResult" knownFields r.encode = .ok r.written := by
    refine Decode.record_obj r.nodup_written ?_
    simp only [knownFields, List.forall_mem_cons]
    exact ⟨Decode.passes_of_get? r.get?_step (Decode.text_str _),
      Decode.passes_of_get? r.get?_status r.status.decode_display,
      Decode.passes_optional r.get?_output output, Decode.passes_optional r.get?_error error,
      Decode.passes_optional r.get?_startedAt started,
      Decode.passes_optional r.get?_finishedAt finished, by simp⟩
  rw [decode, known, Decode.ok_bind, Decode.required_of_get? r.get?_step (Decode.text_str _),
    Decode.ok_bind, Decode.required_of_get? r.get?_status r.status.decode_display, Decode.ok_bind,
    Decode.optional_of_get? r.get?_output output, Decode.ok_bind,
    Decode.optional_of_get? r.get?_error error, Decode.ok_bind,
    Decode.optional_of_get? r.get?_startedAt started, Decode.ok_bind,
    Decode.optional_of_get? r.get?_finishedAt finished]
  rfl

/-- **A result whose text is lossless is read back whole.** -/
theorem parse?_encode {r : StepResult} (text : r.encode.Lossless) (clocked : r.Clocked) :
    (Json.parse? r.encode.compress).map decode = some (.ok r) := by
  have whole := Json.lossless_iff.mp text
  have indexed : ∀ o, r.output = some o → o.Indexed := by
    intro o ho
    have found := r.get?_output
    rw [ho] at found
    exact ToolOutput.indexed_of_reread (Json.reread_field r.nodup_written whole found)
  have read : Json.parse? r.encode.compress = some r.encode := text
  rw [read, Option.map_some, decode_encode indexed clocked]

end StepResult
end Runbook
