import Runbook.Memory.History
import Runbook.Proofs.Memory.Log
import Runbook.Proofs.Run.Outcome

/-!
# Recorded results that are read back

A step result is recorded as a text, and what a history tells is what can be read from the texts.
Not every text can be read: the output of a tool may hold numbers or depths that the reader does
not know. But what is read has the name, the status, the text of the output and the error that were
recorded (`StepResult.tells_of_parse?_encode`), and a failure is always read back whole, since there
is nothing in it but texts.

The results in a history are put into a list one after another, and a later one of the same step
takes the place of an earlier one. If the results of each step stand together, as they do after a
run, what is left is the last of each block, in the order of the blocks (`foldl_putResult_blocks`).
-/

set_option autoImplicit false

namespace Runbook

/-! ## 1. What is read -/

namespace StepResult

/-- What is read of the text of a result has the fields that were written, each read on its own. -/
theorem reread_encode {r : StepResult} {v : Json} (h : Json.reread 128 r.encode = some v) :
    ∃ fs, v = .obj fs ∧
      ∀ k, (Fields.get? k r.written).map (Json.reread 127) = (Fields.get? k fs).map some :=
  Json.reread_table r.nodup_written h

theorem decode_obj {fs : Fields Json} {x : StepResult} (h : decode (.obj fs) = .ok x) :
    Decode.required "step_name" Decode.text fs = .ok x.step ∧
      Decode.required "status" Status.decode fs = .ok x.status ∧
      Decode.optional "output" ToolOutput.decode fs = .ok x.output ∧
      Decode.optional "error" Failure.decode fs = .ok x.error := by
  obtain ⟨gs, known, read⟩ := Decode.bind_ok h
  obtain rfl := Decode.eq_of_record known
  obtain ⟨step, hstep, read⟩ := Decode.bind_ok read
  obtain ⟨status, hstatus, read⟩ := Decode.bind_ok read
  obtain ⟨output, houtput, read⟩ := Decode.bind_ok read
  obtain ⟨error, herror, read⟩ := Decode.bind_ok read
  obtain ⟨started, -, read⟩ := Decode.bind_ok read
  obtain ⟨finished, -, read⟩ := Decode.bind_ok read
  cases read
  exact ⟨hstep, hstatus, houtput, herror⟩

theorem decode_output_obj {fs : Fields Json} {o : ToolOutput}
    (h : ToolOutput.decode (.obj fs) = .ok o) :
    Decode.required "output" Decode.text fs = .ok o.output := by
  obtain ⟨gs, known, read⟩ := Decode.bind_ok h
  obtain rfl := Decode.eq_of_record known
  obtain ⟨output, houtput, read⟩ := Decode.bind_ok read
  obtain ⟨outputs, -, read⟩ := Decode.bind_ok read
  obtain ⟨metadata, -, read⟩ := Decode.bind_ok read
  cases read
  exact houtput

/-- Texts come back as they are. -/
theorem get?_of_reread {fs gs : Fields Json} {depth : Nat} {k s : String}
    (h : (Fields.get? k fs).map (Json.reread (depth + 1)) = (Fields.get? k gs).map some)
    (hs : Fields.get? k fs = some (.str s)) : Fields.get? k gs = some (.str s) := by
  rw [hs] at h
  obtain ⟨v, hv, heq⟩ := Option.map_eq_some_iff.mp h.symm
  cases heq
  exact hv

section

variable {α : Type} {d : Decoder α} {name : String} {fs gs : Fields Json} {depth : Nat}
  {enc : α → Json} {x y : Option α}

/-- A field that may be absent is there in what is read if it was written, and what is decoded of
it agrees with what was written if that is so of each value. -/
theorem optional_of_reread {β : Type} (view : α → β)
    (found : (Fields.get? name fs).map (Json.reread depth) = (Fields.get? name gs).map some)
    (written : Fields.get? name fs = x.map enc)
    (agrees : ∀ a v b, Json.reread depth (enc a) = some v → Decode.option d v = .ok b →
      b.map view = some (view a))
    (h : Decode.optional name d gs = .ok y) : y.map view = x.map view := by
  rw [written] at found
  cases x with
  | none =>
    have absent : Fields.get? name gs = none := Option.map_eq_none_iff.mp found.symm
    rw [Decode.optional, Decode.withDefault, absent] at h
    cases h
    rfl
  | some a =>
    obtain ⟨v, there, read⟩ := Option.map_eq_some_iff.mp found.symm
    rw [Decode.optional, Decode.withDefault, there] at h
    exact agrees a v y read.symm h

end

/-- Of an output that is read the text is the one that was written. -/
theorem output_of_reread {o : ToolOutput} {v : Json} {b : Option ToolOutput}
    (h : Json.reread 127 o.encode = some v) (hb : Decode.option ToolOutput.decode v = .ok b) :
    b.map (·.output) = some o.output := by
  obtain ⟨gs, rfl, read⟩ := Json.reread_table o.nodup_written h
  have decoded : (ToolOutput.decode (.obj gs)).map some = .ok b := hb
  cases hd : ToolOutput.decode (.obj gs) with
  | error e =>
    rw [hd] at decoded
    cases decoded
  | ok o' =>
    rw [hd] at decoded
    cases decoded
    have text := decode_output_obj hd
    rw [Decode.required_of_get? (get?_of_reread (read _) o.get?_output) (Decode.text_str _)] at text
    exact congrArg some (Except.ok.inj text).symm

/-- An error has nothing in it but texts, so it is read back whole. -/
theorem error_of_reread {f : Failure} {v : Json} {b : Option Failure}
    (h : Json.reread 127 f.encode = some v) (hb : Decode.option Failure.decode v = .ok b) :
    b.map id = some f := by
  have whole : Json.reread 127 f.encode = some f.encode := rfl
  cases h.symm.trans whole
  rw [Decode.option_some rfl f.decode_encode] at hb
  cases hb
  rfl

/-- **What is read of a recorded result has its name, its status, the text of its output and its
error.** -/
theorem tells_of_parse?_encode {r x : StepResult}
    (h : (Json.parse? r.encode.compress).map decode = some (.ok x)) :
    x.step = r.step ∧ x.status = r.status ∧ x.outputText? = r.outputText? ∧ x.error = r.error := by
  rw [Json.parse?_compress] at h
  obtain ⟨v, hv, hx⟩ := Option.map_eq_some_iff.mp h
  obtain ⟨fs, rfl, read⟩ := reread_encode hv
  obtain ⟨step, status, output, error⟩ := decode_obj hx
  refine ⟨?_, ?_, ?_, ?_⟩
  · rw [Decode.required_of_get? (get?_of_reread (read _) r.get?_step) (Decode.text_str _)] at step
    exact (Except.ok.inj step).symm
  · rw [Decode.required_of_get? (get?_of_reread (read _) r.get?_status)
      r.status.decode_display] at status
    exact (Except.ok.inj status).symm
  · exact optional_of_reread (·.output) (read _) r.get?_output (fun _ _ _ => output_of_reread) output
  · have same := optional_of_reread id (read _) r.get?_error (fun _ _ _ => error_of_reread) error
    rwa [Option.map_id] at same

/-- What is read of a recorded result has its name and its status. -/
theorem of_parse?_encode {r x : StepResult}
    (h : (Json.parse? r.encode.compress).map decode = some (.ok x)) :
    x.step = r.step ∧ x.status = r.status :=
  ⟨(tells_of_parse?_encode h).1, (tells_of_parse?_encode h).2.1⟩

theorem decode_text {t : Instant} (h : t.Dated) : Instant.decode (.str t.text) = .ok t :=
  Instant.decode_text (Instant.parse?_text h)

theorem reread_failed (name : String) (f : Failure) (t₀ t₁ : Instant) :
    Json.reread 128 (failed name f t₀ t₁).encode = some (failed name f t₀ t₁).encode := by
  rfl

theorem clocked_of_dated {r : StepResult}
    (h : ∀ t, r.startedAt = some t ∨ r.finishedAt = some t → t.Dated) : r.Clocked :=
  fun t ht => Instant.parse?_text (h t ht)

theorem decode_failed {name : String} {f : Failure} {t₀ t₁ : Instant} (h₀ : t₀.Dated)
    (h₁ : t₁.Dated) : decode (failed name f t₀ t₁).encode = .ok (failed name f t₀ t₁) := by
  refine decode_encode (fun o ho => by cases ho) (clocked_of_dated ?_)
  rintro t (ht | ht)
  · cases ht
    exact h₀
  · cases ht
    exact h₁

/-- **A failure that is recorded is read back whole.** -/
theorem parse?_encode_failed {name : String} {f : Failure} {t₀ t₁ : Instant} (h₀ : t₀.Dated)
    (h₁ : t₁.Dated) :
    (Json.parse? (failed name f t₀ t₁).encode.compress).map decode =
      some (.ok (failed name f t₀ t₁)) := by
  rw [Json.parse?_compress, reread_failed, Option.map_some, decode_failed h₀ h₁]

/-- A skipped step is read back whole. -/
theorem parse?_encode_skipped (name : String) :
    (Json.parse? (skipped name).encode.compress).map decode = some (.ok (skipped name)) := by
  have whole : Json.reread 128 (skipped name).encode = some (skipped name).encode := rfl
  rw [Json.parse?_compress, whole, Option.map_some]
  rfl

end StepResult

namespace Memory

/-! ## 2. What a history tells -/

/-- The step result that an entry records. -/
def Entry.result? (e : Entry) : Option StepResult :=
  if e.classification = .stepResult then
    match (Json.parse? e.content).map StepResult.decode with
    | some (.ok r) => some r
    | _ => none
  else none

theorem Entry.classification_of_result {e : Entry} {x : StepResult} (h : e.result? = some x) :
    e.classification = .stepResult := by
  unfold result? at h
  split at h
  · assumption
  · cases h

theorem result?_resultSlice {run : RunId} {r x : StepResult} :
    (resultSlice run r).entry.result? = some x ↔
      (Json.parse? r.encode.compress).map StepResult.decode = some (.ok x) := by
  have unfolded : (resultSlice run r).entry.result? =
      match (Json.parse? r.encode.compress).map StepResult.decode with
      | some (.ok r) => some r
      | _ => none := if_pos rfl
  rw [unfolded]
  constructor
  · intro h
    split at h
    · next heq =>
      cases h
      exact heq
    · cases h
  · intro h
    rw [h]

/-- The step results that can be read from entries, oldest first. -/
def readings (es : List Entry) : List StepResult := es.filterMap Entry.result?

theorem filterMap_recordedResult? (slices : List Slice) :
    slices.filterMap recordedResult? = readings (slices.map Slice.entry) := by
  rw [readings, List.filterMap_map]
  rfl

theorem mem_putResult {r x : StepResult} {rs : List StepResult} (h : (rs.map (·.step)).Nodup) :
    x ∈ putResult r rs ↔ x = r ∨ x ∈ rs ∧ x.step ≠ r.step := by
  induction rs with
  | nil => simp [putResult]
  | cons y rs ih =>
    rw [List.map_cons, List.nodup_cons] at h
    have others : ∀ z ∈ rs, z.step ≠ y.step :=
      fun z hz heq => h.1 (List.mem_map.mpr ⟨z, hz, heq⟩)
    rw [putResult]
    split
    · next same =>
      simp only [List.mem_cons]
      constructor
      · rintro (rfl | hx)
        · exact .inl rfl
        · exact .inr ⟨.inr hx, same ▸ others x hx⟩
      · rintro (rfl | ⟨rfl | hx, other⟩)
        · exact .inl rfl
        · exact absurd same other
        · exact .inr hx
    · next other =>
      rw [List.mem_cons, ih h.2, List.mem_cons]
      constructor
      · rintro (rfl | rfl | ⟨hx, hne⟩)
        · exact .inr ⟨.inl rfl, other⟩
        · exact .inl rfl
        · exact .inr ⟨.inr hx, hne⟩
      · rintro (rfl | ⟨rfl | hx, hne⟩)
        · exact .inr (.inl rfl)
        · exact .inl rfl
        · exact .inr (.inr ⟨hx, hne⟩)

theorem nodup_putResult {r : StepResult} {rs : List StepResult} (h : (rs.map (·.step)).Nodup) :
    ((putResult r rs).map (·.step)).Nodup := by
  induction rs with
  | nil => simp [putResult]
  | cons y rs ih =>
    have distinct := h
    rw [List.map_cons, List.nodup_cons] at distinct
    rw [putResult]
    split
    · next same =>
      rw [List.map_cons, ← same, ← List.map_cons]
      exact h
    · next other =>
      rw [List.map_cons, List.nodup_cons]
      refine ⟨fun hm => ?_, ih distinct.2⟩
      obtain ⟨z, hz, heq⟩ := List.mem_map.mp hm
      rcases (mem_putResult distinct.2).mp hz with rfl | ⟨hz, -⟩
      · exact other heq.symm
      · exact distinct.1 (List.mem_map.mpr ⟨z, hz, heq⟩)

/-- The last of the results of that step. -/
def lastOf (name : String) (rs : List StepResult) : Option StepResult :=
  (rs.filter (·.step = name)).getLast?

theorem mem_foldl_putResult {x : StepResult} (rs : List StepResult) {acc : List StepResult}
    (h : (acc.map (·.step)).Nodup) :
    x ∈ rs.foldl (fun acc r => putResult r acc) acc ↔
      lastOf x.step rs = some x ∨ (lastOf x.step rs = none ∧ x ∈ acc) := by
  induction rs generalizing acc with
  | nil => simp [lastOf]
  | cons r rs ih =>
    rw [List.foldl_cons, ih (nodup_putResult h), mem_putResult h]
    by_cases same : r.step = x.step
    · have front : lastOf x.step (r :: rs) = some ((lastOf x.step rs).getD r) := by
        rw [lastOf, List.filter_cons_of_pos (by simpa using same), List.getLast?_cons]
        rfl
      rw [front]
      cases lastOf x.step rs with
      | none => simp [same, eq_comm]
      | some y => simp
    · have front : lastOf x.step (r :: rs) = lastOf x.step rs := by
        rw [lastOf, List.filter_cons_of_neg (by simpa using same)]
        rfl
      rw [front]
      have other : x ≠ r := by
        rintro rfl
        exact same rfl
      simp [other, Ne.symm same]

/-- **A history tells of each step the last result that can be read.** -/
theorem mem_stepResults_iff {history : List Slice} {x : StepResult} :
    x ∈ stepResults history ↔ lastOf x.step (readings (history.map Slice.entry)) = some x := by
  have empty : (([] : List StepResult).map (·.step)).Nodup := .nil
  rw [stepResults, filterMap_recordedResult?, mem_foldl_putResult _ empty]
  simp

theorem told_skipped (run : RunId) (name : String) :
    (resultSlice run (StepResult.skipped name)).entry.result? = some (StepResult.skipped name) :=
  result?_resultSlice.mpr (StepResult.parse?_encode_skipped name)

/-! ## 3. Blocks of results -/

section

variable {acc : List StepResult} {r x : StepResult}

theorem putResult_new (new : ∀ y ∈ acc, y.step ≠ r.step) : putResult r acc = acc ++ [r] := by
  induction acc with
  | nil => rfl
  | cons y acc ih =>
    rw [List.forall_mem_cons] at new
    rw [putResult, if_neg new.1, ih new.2]
    rfl

theorem putResult_last (new : ∀ y ∈ acc, y.step ≠ r.step) (same : x.step = r.step) :
    putResult r (acc ++ [x]) = acc ++ [r] := by
  induction acc with
  | nil =>
    rw [List.nil_append, putResult, if_pos same]
    rfl
  | cons y acc ih =>
    rw [List.forall_mem_cons] at new
    rw [List.cons_append, putResult, if_neg new.1, ih new.2]
    rfl

/-- Later results of the same step go in the place of the first. -/
theorem foldl_putResult_last {block : List StepResult} (own : ∀ y ∈ block, y.step = x.step)
    (new : ∀ y ∈ acc, y.step ≠ x.step) :
    block.foldl (fun acc r => putResult r acc) (acc ++ [x]) =
      acc ++ [block.getLast?.getD x] := by
  induction block generalizing x with
  | nil => rfl
  | cons y block ih =>
    rw [List.forall_mem_cons] at own
    have others : ∀ z ∈ acc, z.step ≠ y.step := by
      rw [own.1]
      exact new
    have later : ∀ z ∈ block, z.step = y.step := by
      rw [own.1]
      exact own.2
    rw [List.foldl_cons, putResult_last others own.1.symm, ih later others, List.getLast?_cons]
    rfl

theorem foldl_putResult_block {name : String} {block : List StepResult}
    (own : ∀ y ∈ block, y.step = name) (new : ∀ y ∈ acc, y.step ≠ name) :
    block.foldl (fun acc r => putResult r acc) acc = acc ++ block.getLast?.toList := by
  cases block with
  | nil => simp
  | cons x block =>
    obtain ⟨rfl, later⟩ := List.forall_mem_cons.mp own
    rw [List.foldl_cons, putResult_new new, foldl_putResult_last later new, List.getLast?_cons]
    rfl

end

/-- **Of each block the last result is left.** -/
theorem foldl_putResult_blocks {α : Type} (key : α → String) {block : α → List StepResult}
    {as : List α} {acc : List StepResult} (own : ∀ a ∈ as, ∀ y ∈ block a, y.step = key a)
    (apart : (as.map key).Nodup) (new : ∀ a ∈ as, ∀ y ∈ acc, y.step ≠ key a) :
    (as.flatMap block).foldl (fun acc r => putResult r acc) acc =
      acc ++ as.filterMap fun a => (block a).getLast? := by
  induction as generalizing acc with
  | nil => simp
  | cons a as ih =>
    rw [List.forall_mem_cons] at own new
    rw [List.map_cons, List.nodup_cons] at apart
    rw [List.flatMap_cons, List.foldl_append, foldl_putResult_block own.1 new.1, ih own.2 apart.2]
    · cases last : (block a).getLast? with
      | none => simp [last]
      | some y => simp [last]
    · intro b hb y hy
      rcases List.mem_append.mp hy with hy | hy
      · exact new.2 b hb y hy
      · have step := own.1 y (List.mem_of_getLast? (Option.mem_toList.mp hy))
        rintro same
        exact apart.1 (List.mem_map.mpr ⟨b, hb, same.symm.trans step⟩)

end Memory
end Runbook
