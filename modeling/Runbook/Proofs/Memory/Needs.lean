import Runbook.Proofs.Memory.Readback
import Runbook.Proofs.Run.Served
import Runbook.Proofs.Run.Working

/-!
# What needs are met by

The log of a run has its start in front and the slices of its results behind. A need is met by the
newest slice of its kind, so what it finds is a matter of the parameters and of the results so far
(`newest?_runEntries`). Of most slices the text itself is bound. The parameters and the result of a
step are read back from their texts, and come back as they were only if the texts say all of it
(`retold_eq_owed_iff`).
-/

set_option autoImplicit false

namespace Runbook

open Dialogue RunDialogue Memory

/-! ## 1. What a run leaves -/

namespace StepResult

/-- The text of the output, if the step succeeded. -/
def success? (r : StepResult) : Option String :=
  match r.status with
  | .success => r.outputText?
  | _ => none

/-- The message of the error, if the step failed. -/
def failure? (r : StepResult) : Option String :=
  match r.status with
  | .failed => r.error.map (·.message)
  | _ => none

/-- What the record of a step has under a classification. -/
def left? (r : StepResult) : Classification → Option String
  | .stepResult => some r.encode.compress
  | .output => r.success?
  | .error => r.failure?
  | _ => none

end StepResult

namespace Memory

/-- What the start of a run has under a classification. -/
def startLeft? (params : Fields Json) : Classification → Option String
  | .userPrompt => (Fields.get? userPromptParam params).map Json.display
  | .parameters => some (Json.obj params).compress
  | _ => none

/-- The log of a run with these results so far. -/
def runEntries (run : RunId) (workflow : String) (params : Fields Json) (rs : List StepResult) :
    List Entry :=
  (startSlices run workflow params ++ rs.flatMap (stepSlices run)).map NewSlice.entry

theorem contents_stepSlices (run : RunId) (r : StepResult) (c : Classification) :
    ((stepSlices run r).filter (c == ·.classification)).map (·.content) = (r.left? c).toList := by
  unfold stepSlices detailSlice? StepResult.left? StepResult.success? StepResult.failure?
    StepResult.outputText?
  cases r.status with
  | success => cases r.output <;> cases c <;> rfl
  | failed => cases r.error <;> cases c <;> rfl
  | skipped => cases c <;> rfl

end Memory

/-! ## 2. What a need asks for -/

namespace Need

/-- The classification of the slices that meet the need. -/
def tag : Need → Classification
  | .userPrompt => .userPrompt
  | .parameters => .parameters
  | .toolOutput _ => .output
  | .step _ => .stepResult
  | .lastOutput => .output
  | .classification tag => .ofName tag

/-- The need asks for an entry. -/
def asks (need : Need) (e : Entry) : Bool := (need.query e.step).admits e

/-- The content of the newest entry that the need asks for. -/
def newest? (need : Need) (es : List Entry) : Option String :=
  ((es.filter need.asks).map (·.content)).getLast?

/-- The results that the need looks at: those of one step, or all. -/
def looksAt (need : Need) (r : StepResult) : Bool := need.referencedStep?.all (· == r.step)

theorem admits_query (need : Need) (run : RunId) (limit : Option Nat) (e : Entry) :
    SliceQuery.admits { need.query run with limit } e = need.asks e := by
  cases need <;> rfl

/-- Of the start of a run a need finds what is there under its classification. -/
theorem filter_startSlices (need : Need) (run : RunId) (workflow : String) (params : Fields Json) :
    (((startSlices run workflow params).map NewSlice.entry).filter need.asks).map (·.content) =
      (startLeft? params need.tag).toList := by
  have prompt : ∀ s, need.asks ⟨initialPromptStep, .userPrompt, s⟩ = (need.tag == .userPrompt) := by
    intro s
    cases need <;> simp [asks, query, SliceQuery.admits, tag]
  have bound : ∀ s, need.asks ⟨runStartStep, .parameters, s⟩ = (need.tag == .parameters) := by
    intro s
    cases need <;> simp [asks, query, SliceQuery.admits, tag]
  rw [startSlices, List.map_append]
  generalize need.tag = c at *
  cases hp : Fields.get? userPromptParam params <;> cases c <;>
    simp [NewSlice.entry, startLeft?, prompt, bound, hp]

/-- Of the record of a step a need asks for what is there under its classification, if it looks at
the step. -/
theorem asks_record (need : Need) {run : RunId} {r : StepResult} {s : NewSlice}
    (hs : s ∈ stepSlices run r) :
    need.asks s.entry = (need.looksAt r && need.tag == s.classification) := by
  have step : s.entry.step = r.step := (run_of_mem_stepSlices hs).2.1
  have other : s.entry.classification ≠ .parameters := by
    rcases mem_stepSlices hs with rfl | ⟨-, o, -, rfl⟩ | ⟨-, f, -, rfl⟩ <;> exact fun h => by cases h
  change need.asks s.entry = (need.looksAt r && need.tag == s.entry.classification)
  cases need <;>
    simp [asks, query, SliceQuery.admits, tag, looksAt, referencedStep?, step, other.symm]

theorem filter_stepSlices (need : Need) (run : RunId) (r : StepResult) :
    (((stepSlices run r).map NewSlice.entry).filter need.asks).map (·.content) =
      if need.looksAt r then (r.left? need.tag).toList else [] := by
  have asked : (stepSlices run r).filter (need.asks ∘ NewSlice.entry) =
      (stepSlices run r).filter fun s => need.looksAt r && need.tag == s.classification :=
    List.filter_congr fun s hs => need.asks_record hs
  rw [List.filter_map, asked]
  cases need.looksAt r with
  | false => simp
  | true =>
    simp only [Bool.true_and, if_true, List.map_map]
    exact contents_stepSlices run r need.tag

/-- What is left of the results that a need looks at. -/
def leftOf (need : Need) (rs : List StepResult) : List String :=
  (rs.filter need.looksAt).filterMap (·.left? need.tag)

/-- **A need finds the newest of what the start and the results have left for it.** -/
theorem newest?_runEntries (need : Need) (run : RunId) (workflow : String) (params : Fields Json)
    (rs : List StepResult) :
    need.newest? (runEntries run workflow params rs) =
      ((startLeft? params need.tag).toList ++ need.leftOf rs).getLast? := by
  have blocks : (((rs.flatMap (stepSlices run)).map NewSlice.entry).filter need.asks).map
      (·.content) = need.leftOf rs := by
    induction rs with
    | nil => rfl
    | cons r rs ih =>
      rw [List.flatMap_cons, List.map_append, List.filter_append, List.map_append, ih,
        filter_stepSlices, leftOf, leftOf, List.filter_cons]
      cases need.looksAt r with
      | false => rfl
      | true => cases hl : r.left? need.tag <;> simp [hl]
  rw [newest?, runEntries, List.map_append, List.filter_append, List.map_append, blocks,
    filter_startSlices]

end Need

/-! ## 3. What a need is owed -/

/-- The result of that step. -/
def resultOf (name : String) (rs : List StepResult) : Option StepResult :=
  rs.find? (·.step = name)

/-- The content that was last recorded under a classification. -/
def lastUnder (params : Fields Json) (rs : List StepResult) : Classification → Option String
  | .userPrompt => (Fields.get? userPromptParam params).map Json.display
  | .parameters => some (Json.obj params).compress
  | .output => (rs.filterMap (·.success?)).getLast?
  | .error => (rs.filterMap (·.failure?)).getLast?
  | .stepResult => (rs.map fun r => r.encode.compress).getLast?
  | .custom _ => none

/-- One binding, if there is something to bind. -/
def bind? (name : String) (content : Option String) : Fields Json :=
  (content.map fun text => (name, Json.str text)).toList

namespace Need

/-- What a step is shown of the result of another: how it ended, what it has put out or why it failed,
and when it was recorded. -/
def shownResult (r : StepResult) (created : Instant) : Json :=
  .obj [
    ("status", .str (match r.status with
      | .success => "success"
      | .failed => "failed"
      | .skipped => "skipped")),
    ("output", .str (match r.output with
      | some o => o.output
      | none => "")),
    ("outputs", .arr (match r.output with
      | some o => o.outputs.map QueryResult.encode
      | none => [])),
    ("metadata", .obj (match r.output with
      | some o => o.metadata
      | none => [])),
    ("error", match r.error with
      | some f => f.encode
      | none => .null),
    ("created_at", .str created.offsetText)]

theorem resultBinding_eq (r : StepResult) (created : Instant) :
    resultBinding r created = shownResult r created := by
  obtain ⟨_, status, output, error, _, _⟩ := r
  cases status <;> cases output <;> cases error <;> rfl

/-- The bindings of a need after these results. A result was recorded at the given time. -/
def owed (params : Fields Json) (rs : List StepResult) (created : Instant) : Need → Fields Json
  | .userPrompt => bind? "user_prompt" ((Fields.get? userPromptParam params).map Json.display)
  | .parameters => params
  | .toolOutput name => bind? (name ++ "_output") ((resultOf name rs).bind (·.success?))
  | .step name => ((resultOf name rs).map fun r => (name, shownResult r created)).toList
  | .lastOutput => bind? "last_output" (rs.filterMap (·.success?)).getLast?
  | .classification tag => bind? tag (lastUnder params rs (.ofName tag))

/-- What a need finds after these results. -/
def finds (params : Fields Json) (rs : List StepResult) : Need → Option String
  | .userPrompt => lastUnder params rs .userPrompt
  | .parameters => lastUnder params rs .parameters
  | .toolOutput name => (resultOf name rs).bind (·.success?)
  | .step name => (resultOf name rs).map fun r => r.encode.compress
  | .lastOutput => lastUnder params rs .output
  | .classification tag => lastUnder params rs (.ofName tag)

end Need

/-- Among results of different steps there is at most one of a name. -/
theorem filter_step_eq {rs : List StepResult} (names : (rs.map (·.step)).Nodup) (name : String) :
    rs.filter (name == ·.step) = (resultOf name rs).toList := by
  induction rs with
  | nil => rfl
  | cons r rs ih =>
    rw [List.map_cons, List.nodup_cons] at names
    by_cases same : r.step = name
    · have others : rs.filter (name == ·.step) = [] := by
        refine List.filter_eq_nil_iff.mpr fun x hx heq => names.1 ?_
        exact List.mem_map.mpr ⟨x, hx, (beq_iff_eq.mp heq).symm.trans same.symm⟩
      rw [List.filter_cons_of_pos (by simp [same]), others, resultOf,
        List.find?_cons_of_pos (by simp [same])]
      rfl
    · rw [List.filter_cons_of_neg (by simp [Ne.symm same]), ih names.2, resultOf, resultOf,
        List.find?_cons_of_neg (by simp [same])]

/-- Under one classification the newest slice is the last that was recorded. -/
theorem getLast?_left (params : Fields Json) (rs : List StepResult) (c : Classification) :
    ((startLeft? params c).toList ++ rs.filterMap (·.left? c)).getLast? =
      lastUnder params rs c := by
  have silent : rs.filterMap (fun _ => (none : Option String)) = [] := by simp
  have told : rs.filterMap (fun r => some r.encode.compress) = rs.map (·.encode.compress) :=
    congrFun List.filterMap_eq_map rs
  cases c with
  | userPrompt =>
    simp only [startLeft?, StepResult.left?, lastUnder, silent, List.append_nil]
    cases (Fields.get? userPromptParam params).map Json.display <;> rfl
  | parameters =>
    simp only [startLeft?, StepResult.left?, lastUnder, silent, List.append_nil]
    rfl
  | custom =>
    simp only [startLeft?, StepResult.left?, lastUnder, silent, List.append_nil]
    rfl
  | output | error => rfl
  | stepResult =>
    simp only [startLeft?, StepResult.left?, lastUnder, told]
    rfl

namespace Need

theorem filter_looksAt_all {need : Need} (h : need.referencedStep? = none) (rs : List StepResult) :
    rs.filter need.looksAt = rs := by
  refine List.filter_eq_self.mpr fun r _ => ?_
  rw [looksAt, h]
  rfl

theorem filter_looksAt_one {need : Need} {name : String} (h : need.referencedStep? = some name)
    {rs : List StepResult} (names : (rs.map (·.step)).Nodup) :
    rs.filter need.looksAt = (resultOf name rs).toList := by
  rw [← filter_step_eq names name]
  refine List.filter_congr fun r _ => ?_
  rw [looksAt, h]
  rfl

theorem newest?_eq_finds (need : Need) (run : RunId) (workflow : String) (params : Fields Json)
    {rs : List StepResult} (names : (rs.map (·.step)).Nodup) :
    need.newest? (runEntries run workflow params rs) = need.finds params rs := by
  rw [newest?_runEntries, leftOf]
  cases need with
  | toolOutput name =>
    rw [filter_looksAt_one rfl names, finds]
    cases resultOf name rs with
    | none => rfl
    | some r => cases h : r.success? <;> simp [tag, startLeft?, StepResult.left?, h]
  | step name =>
    rw [filter_looksAt_one rfl names, finds]
    cases resultOf name rs <;> rfl
  | userPrompt | parameters | lastOutput | classification =>
    rw [filter_looksAt_all rfl]
    exact getLast?_left params rs _

end Need

/-! ## 4. What is told again -/

/-- What the record of a step says can be read back, with the parts of its output as they were. -/
def StepResult.Restored (r : StepResult) : Prop :=
  ∃ x, (Json.parse? r.encode.compress).map decode = some (.ok x) ∧
    (x.output.getD {}).outputs.map QueryResult.encode =
      (r.output.getD {}).outputs.map QueryResult.encode ∧
    (x.output.getD {}).metadata = (r.output.getD {}).metadata

theorem StepResult.output_getD (r : StepResult) :
    (r.output.getD {}).output = r.outputText?.getD "" := by
  rw [outputText?]
  cases r.output <;> rfl

namespace Need

/-- The bindings of a need, given the content of the newest slice. -/
def answer (need : Need) (content : Option String) (created : Instant) :
    Except StoreError (Fields Json) :=
  match content with
  | none => .ok []
  | some content => need.bindings { (default : Slice) with content, createdAt := created }

/-- The bindings that a need is given after these results. -/
def retold (params : Fields Json) (rs : List StepResult) (created : Instant) (need : Need) :
    Except StoreError (Fields Json) :=
  need.answer (need.finds params rs) created

/-- What the need finds says all that it is owed. -/
def Faithful (params : Fields Json) (rs : List StepResult) : Need → Prop
  | .parameters => (Json.obj params).Lossless
  | .step name => ∀ r, resultOf name rs = some r → r.Restored
  | _ => True

/-- A need for a text binds the text that it finds. -/
theorem answer_text {need : Need} {key : String}
    (text : ∀ s, need.bindings s = .ok [(key, .str s.content)]) (content : Option String)
    (created : Instant) : need.answer content created = .ok (bind? key content) := by
  cases content with
  | none => rfl
  | some content => exact text _

theorem retold_parameters_iff (params : Fields Json) (rs : List StepResult) (created : Instant) :
    retold params rs created .parameters = .ok params ↔ (Json.obj params).Lossless := by
  rw [retold, finds, lastUnder, answer, bindings, Json.Lossless]
  dsimp only
  split
  · next read => simp [read]
  · next v other read => simpa [read] using other params
  · next read => simp [read]

/-- The result of a step is bound as it was exactly if its record is restored. -/
theorem answer_result_iff (name : String) (r : StepResult) (created : Instant) :
    answer (.step name) (some r.encode.compress) created =
      .ok [(name, shownResult r created)] ↔ r.Restored := by
  rw [answer, bindings, StepResult.Restored, ← resultBinding_eq]
  dsimp only
  split
  · next x read =>
    obtain ⟨-, status, output, error⟩ := StepResult.tells_of_parse?_encode read
    have text : (x.output.getD {}).output = (r.output.getD {}).output := by
      rw [x.output_getD, r.output_getD, output]
    simp [read, resultBinding, status, error, text]
  · next read => simp [read]
  · next read => simp [read]

/-- **A need is given what it is owed exactly if what it finds says all of that.** -/
theorem retold_eq_owed_iff (params : Fields Json) (rs : List StepResult) (created : Instant)
    (need : Need) :
    need.retold params rs created = .ok (need.owed params rs created) ↔
      need.Faithful params rs := by
  cases need with
  | parameters => exact retold_parameters_iff params rs created
  | step name =>
    rw [retold, finds, owed, Faithful]
    cases hr : resultOf name rs with
    | none => simp [answer]
    | some r => simp [answer_result_iff]
  | userPrompt | toolOutput | lastOutput | classification =>
    exact iff_of_true (answer_text (fun _ => rfl) _ created) trivial

end Need

/-! ## 5. Meeting all needs of a step -/

/-- The bindings of one need after another; a failure ends them, unless it is tolerated. -/
def gather (tolerant : Bool) (bound : Fields Json) :
    List (Except StoreError (Fields Json)) → Except StoreError (Fields Json)
  | [] => .ok bound
  | .ok more :: rest => gather tolerant (Fields.extend bound more) rest
  | .error e :: rest => if tolerant then gather tolerant bound rest else .error e

theorem gather_ok (tolerant : Bool) (bound : Fields Json) (bs : List (Fields Json)) :
    gather tolerant bound (bs.map .ok) = .ok (bs.foldl Fields.extend bound) := by
  induction bs generalizing bound with
  | nil => rfl
  | cons b bs ih => exact ih _

section

variable {σ : Type} [MemoryStore σ] [LogStore σ]

/-- What is bound for a need is an answer to the content of the newest slice. -/
theorem bindingsOf_eq {need : Need} {run : RunId} {now : Instant} {st st' : σ}
    {found : Except StoreError (List Slice)}
    (answered : reply now (.query { need.query run with limit := some 1 }) st = (found, st'))
    (working : ¬ RunExchange.Faulty
      ⟨.store (.query { need.query run with limit := some 1 }), found⟩) :
    ∃ created, bindingsOf need found =
      need.answer (need.newest? (LogStore.entries run st)) created := by
  cases found with
  | error e => exact absurd (.query _ e) working
  | ok found =>
    have asked : SliceQuery.admits { need.query run with limit := some 1 } = need.asks :=
      funext (need.admits_query run (some 1))
    have newest : (found.head?).map (·.content) = need.newest? (LogStore.entries run st) := by
      have listed := LogStore.query_ok answered (need.query_proper run (some 1))
      have here : SliceQuery.run { need.query run with limit := some 1 } = run := by
        cases need <;> rfl
      rw [here, asked, upTo] at listed
      have first := congrArg List.head? listed
      rw [List.head?_take, if_neg Nat.one_ne_zero, List.head?_reverse, List.head?_map] at first
      rw [Need.newest?, List.getLast?_map, ← first]
      simp [Function.comp_def, Slice.entry]
    rw [← newest]
    cases found with
    | nil => exact ⟨⟨0⟩, rfl⟩
    | cons s rest => exact ⟨s.createdAt, by cases need <;> rfl⟩

/-- **Needs are met from the log of the run, in their order.** -/
theorem gathered_of_recall {run : RunId} {tolerant : Bool} {bound : Fields Json}
    {needs : List Need} {t : RunTrace} {x : Except StoreError (Fields Json)} {st st' : σ}
    (h : Yields (ofStore («recall» tolerant run bound needs)) t x) (shared : Shared run st t st')
    (working : t.Working) :
    ∃ answers, List.Forall₂ (fun need a => ∃ created,
        a = need.answer (need.newest? (LogStore.entries run st)) created) needs answers ∧
      x = gather tolerant bound answers := by
  induction needs generalizing bound t st with
  | nil =>
    obtain ⟨-, rfl⟩ := yields_done_iff.mp h
    exact ⟨[], .nil, rfl⟩
  | cons need rest ih =>
    obtain ⟨found, u, rfl, hu⟩ := yields_ask_iff.mp h
    obtain ⟨hfound, hworking⟩ := List.forall_mem_cons.mp working
    obtain ⟨now, m, m', same, answered, later⟩ := shared.answered
    obtain ⟨created, bound_eq⟩ := bindingsOf_eq answered hfound
    have kept : LogStore.entries run m' = LogStore.entries run st := by
      obtain rfl : (MemoryStore.query { need.query run with limit := some 1 } m).2 = m' :=
        congrArg Prod.snd answered
      exact (LogStore.query_keeps _ m run).trans same
    rw [same] at bound_eq
    dsimp only at hu
    cases answer_eq : bindingsOf need found with
    | ok more =>
      rw [answer_eq] at hu
      obtain ⟨answers, met, rfl⟩ := ih hu later hworking
      rw [kept] at met
      exact ⟨.ok more :: answers, .cons ⟨created, answer_eq.symm.trans bound_eq⟩ met, rfl⟩
    | error e =>
      rw [answer_eq] at hu
      cases tolerant with
      | true =>
        obtain ⟨answers, met, rfl⟩ := ih hu later hworking
        rw [kept] at met
        exact ⟨.error e :: answers, .cons ⟨created, answer_eq.symm.trans bound_eq⟩ met, rfl⟩
      | false =>
        -- the needs behind are not looked at any more
        obtain ⟨-, rfl⟩ := yields_done_iff.mp hu
        refine ⟨.error e :: rest.map fun need =>
          need.answer (need.newest? (LogStore.entries run st)) created,
          .cons ⟨created, answer_eq.symm.trans bound_eq⟩ ?_, rfl⟩
        rw [List.forall₂_map_right_iff]
        exact List.forall₂_same.mpr fun _ _ => ⟨created, rfl⟩

end
end Runbook
