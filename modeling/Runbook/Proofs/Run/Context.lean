import Runbook.Proofs.Engine.Succession
import Runbook.Proofs.Run.Fate
import Runbook.Proofs.Template.Lookup

/-!
# What a step sees of earlier ones

A step is attempted in the context of all results before it, and each of them was carried out
(`Course.attempted`). The context holds one entry for each, under the name of its step.

The path `steps.<name>.output` goes through these entries with the longest name first. So it leads
to the output of a step that succeeded, unless another step is called `<name>.output`; and for a
step that failed it leads nowhere, unless there is such a step or an earlier success whose name
begins the path shows something on the rest of it. `earlier_outputs` makes this exact, for all names
that an accepted workflow may have.
-/

set_option autoImplicit false

namespace Runbook

open Scope

/-! ## 1. The context of a step -/

theorem Execution.CarriedOut.output {name : String} {r : StepResult} (h : CarriedOut name r)
    (success : r.status = .success) : ∃ o, r.output = some o := by
  cases h with
  | success o => exact ⟨o, rfl⟩
  | failed => cases success

namespace RunContext

/-- Results of different steps are kept side by side. -/
theorem foldl_record_eq {ctx : RunContext} {rs : List StepResult}
    (names : (rs.map (·.step)).Nodup) (fresh : ∀ r ∈ rs, r.step ∉ ctx.steps.names) :
    rs.foldl record ctx =
      { ctx with steps := ctx.steps ++ rs.map fun r => (r.step, entry ctx.maxOutputBytes r) } := by
  induction rs generalizing ctx with
  | nil => simp
  | cons r rs ih =>
    rw [List.map_cons, List.nodup_cons] at names
    have new : ctx.record r =
        { ctx with steps := ctx.steps ++ [(r.step, entry ctx.maxOutputBytes r)] } := by
      rw [record, Fields.put_of_not_mem _ (fresh r (List.mem_cons_self ..))]
    rw [List.foldl_cons, new, ih names.2]
    · simp
    · intro a ha hm
      simp only [Fields.names, List.map_append, List.mem_append, List.map_cons, List.map_nil,
        List.mem_singleton] at hm
      rcases hm with hm | same
      · exact fresh a (List.mem_cons_of_mem _ ha) hm
      · exact names.1 (List.mem_map.mpr ⟨a, ha, same⟩)

/-- An entry is that of the step with its name. -/
theorem get?_entries_iff {rs : List StepResult} (names : (rs.map (·.step)).Nodup) (max : Nat)
    {name : String} {v : Json} :
    Fields.get? name (rs.map fun r => (r.step, entry max r)) = some v ↔
      ∃ r ∈ rs, r.step = name ∧ entry max r = v := by
  induction rs with
  | nil => simp
  | cons r rs ih =>
    rw [List.map_cons, List.nodup_cons] at names
    rw [List.map_cons, Fields.get?_cons]
    split
    · next same =>
      dsimp only at same
      have others : ∀ a ∈ rs, a.step ≠ name := by
        rintro a ha rfl
        exact names.1 (List.mem_map.mpr ⟨a, ha, same.symm⟩)
      simp only [Option.some.injEq, List.mem_cons, exists_eq_or_imp, same, true_and]
      refine ⟨.inl, ?_⟩
      rintro (here | ⟨a, ha, step, -⟩)
      · exact here
      · exact absurd step (others a ha)
    · next other =>
      dsimp only at other
      simp only [ih names.2, List.mem_cons, exists_eq_or_imp, other, false_and, false_or]

end RunContext

/-! ## 2. What an entry leads to -/

/-- The path of the output of a step. -/
def outputPath (name : String) : String := s!"steps.{name}.output"

theorem segments_outputPath (name : String) :
    segments (outputPath name) = "steps" :: (segments name ++ ["output"]) := by
  have parts : outputPath name = "steps" ++ "." ++ name ++ "." ++ "output" := by
    simp [outputPath, String.append_assoc]
    rfl
  have first : segments "steps" = ["steps"] := by decide
  have last : segments "output" = ["output"] := by decide
  rw [parts, segments_append, segments_append, first, last]
  rfl

namespace RunContext

/-- The entry of a success shows its output. -/
theorem follow_entry_success {max : Nat} {r : StepResult} {o : ToolOutput}
    (success : r.status = .success) (output : r.output = some o) :
    follow (entry max r) ["output"] = some (.str (Text.truncated max o.output)) := by
  simp only [entry, success, output]
  rw [follow_dotless (by simp [Fields.names])]
  simp [Fields.get?]

/-- No path through the value ends in an output. -/
def Outputless (v : Json) : Prop := ∀ segs, follow v (segs ++ ["output"]) = none

theorem outputless_str (t : String) : Outputless (.str t) := by
  intro segs
  cases segs <;> rfl

theorem outputless_obj {fs : Fields Json}
    (h : ∀ e ∈ fs, '.' ∉ e.1.toList ∧ e.1 ≠ "output" ∧ Outputless e.2) :
    Outputless (.obj fs) := by
  have dotless : ∀ name ∈ fs.names, '.' ∉ name.toList := by
    intro name hname
    obtain ⟨e, he, rfl⟩ := List.mem_map.mp hname
    exact (h e he).1
  intro segs
  cases segs with
  | nil =>
    rw [List.nil_append, follow_dotless dotless, Option.bind_eq_none_iff]
    intro v found
    exact absurd rfl (h _ (Fields.mem_of_get? found)).2.1
  | cons s segs =>
    rw [List.cons_append, follow_dotless dotless, Option.bind_eq_none_iff]
    intro v found
    exact (h _ (Fields.mem_of_get? found)).2.2 segs

/-- The entry of a failure shows no output. -/
theorem outputless_entry_failed {name : String} {max : Nat} {r : StepResult}
    (h : Execution.CarriedOut name r) (failed : r.status = .failed) :
    Outputless (entry max r) := by
  obtain ⟨f, t₀, t₁, rfl⟩ := h.eq_failed failed
  have error : Outputless f.encode := by
    apply outputless_obj
    simp [outputless_str]
  apply outputless_obj
  simp [StepResult.failed, Json.ofOption, outputless_str, error]

end RunContext

/-! ## 3. Paths to outputs -/

section

variable {c : Config} {params memory : Fields Json} {rs : List StepResult}

/-- What a step sees after these results. -/
def seen (c : Config) (params : Fields Json) (rs : List StepResult) (memory : Fields Json) :
    Scope :=
  (rs.foldl RunContext.record (Execution.openingContext c params)).scope memory

/-- After these results, an entry is that of the step with its name. -/
theorem lookup_seen (names : (rs.map (·.step)).Nodup) {path : String} {rest : List String}
    (h : segments path = "steps" :: rest) (filled : "" ∉ segments path) :
    (seen c params rs memory).lookup path =
      follow (.obj (rs.map fun r => (r.step, RunContext.entry c.maxStepOutputBytes r))) rest := by
  rw [lookup_layer _ h filled, seen, RunContext.foldl_record_eq names (by simp
    [Execution.openingContext, Fields.names])]
  rfl

/-- The path to an output goes through the entries. -/
theorem lookup_outputPath (names : (rs.map (·.step)).Nodup) {name : String}
    (filled : "" ∉ segments name) :
    (seen c params rs memory).lookup (outputPath name) =
      follow (.obj (rs.map fun r => (r.step, RunContext.entry c.maxStepOutputBytes r)))
        (segments name ++ ["output"]) := by
  have path := segments_outputPath name
  apply lookup_seen names path
  rw [path]
  simp [filled]

/-- It leads nowhere if no entry whose name begins it leads anywhere along the rest. -/
theorem lookup_outputPath_eq_none_iff (names : (rs.map (·.step)).Nodup) {name : String}
    (filled : "" ∉ segments name) :
    (seen c params rs memory).lookup (outputPath name) = none ↔
      ∀ a ∈ rs, ∀ rest, Text.split '.' a.step ++ rest = segments name ++ ["output"] →
        follow (RunContext.entry c.maxStepOutputBytes a) rest = none := by
  have dotless : ∀ s ∈ segments name ++ ["output"], '.' ∉ s.toList := by
    intro s hs
    rcases List.mem_append.mp hs with hs | hs
    · exact dotless_of_mem_segments hs
    · rw [List.mem_singleton.mp hs]
      decide
  rw [lookup_outputPath names filled, follow_obj_eq_none_iff (by simp)]
  generalize segments name ++ ["output"] = segs at dotless
  constructor
  · intro nowhere a ha rest split
    have front : Text.split '.' a.step <+: segs := ⟨rest, split⟩
    have back : segs.drop (Text.split '.' a.step).length = rest := by
      rw [← split, List.drop_left']
      rfl
    rw [← back]
    apply nowhere _ _ (Text.split_length_pos a.step) front.length_le
    rw [groupName_of_begins front]
    exact (RunContext.get?_entries_iff names _).mpr ⟨a, ha, rfl, rfl⟩
  · intro nowhere k child pos hk found
    obtain ⟨a, ha, step, rfl⟩ := (RunContext.get?_entries_iff names _).mp found
    apply nowhere a ha
    rw [step, split_groupName dotless pos hk, List.take_append_drop]

theorem split_output (name : String) :
    Text.split '.' (name ++ ".output") = Text.split '.' name ++ ["output"] := by
  have parts : name ++ ".output" = name ++ "." ++ "output" := by
    rw [String.append_assoc]
    rfl
  have last : Text.split '.' "output" = ["output"] := by decide
  rw [parts, Text.split_append, last]

/-- **The output of a success is found under its path**, unless a step is called like the rest of
the path. -/
theorem lookup_outputPath_success_iff (names : (rs.map (·.step)).Nodup) {r : StepResult}
    (hr : r ∈ rs) (plain : Plain r.step) {o : ToolOutput} (success : r.status = .success)
    (output : r.output = some o) :
    (seen c params rs memory).lookup (outputPath r.step) =
        some (.str (Text.truncated c.maxStepOutputBytes o.output)) ↔
      ∀ a ∈ rs, a.step ≠ r.step ++ ".output" := by
  rw [lookup_outputPath names plain.filled, plain.segments_eq]
  -- the path has two groups of interest: the name, and the name with the rest
  have name : groupName (Text.split '.' r.step ++ ["output"]) (Text.split '.' r.step).length =
      r.step := groupName_of_begins (List.prefix_append _ _)
  have whole : groupName (Text.split '.' r.step ++ ["output"])
      ((Text.split '.' r.step).length + 1) = r.step ++ ".output" := by
    have all := groupName_of_begins (List.prefix_refl (Text.split '.' (r.step ++ ".output")))
    rwa [split_output, List.length_append] at all
  constructor
  · intro leads a ha same
    have found := (RunContext.get?_entries_iff names c.maxStepOutputBytes).mpr ⟨a, ha, same, rfl⟩
    have entry : follow (.obj (rs.map fun r =>
          (r.step, RunContext.entry c.maxStepOutputBytes r)))
        (Text.split '.' r.step ++ ["output"]) =
          some (RunContext.entry c.maxStepOutputBytes a) := by
      refine follow_obj_of_longest (Nat.succ_pos _) (by simp) (whole ▸ found) (by simp) ?_
      intro m child longer hm
      rw [List.length_append] at hm
      exact absurd hm (Nat.not_le_of_lt longer)
    rw [entry] at leads
    unfold RunContext.entry at leads
    split at leads <;> cases leads
  · intro unlike
    have found := (RunContext.get?_entries_iff names c.maxStepOutputBytes).mpr ⟨r, hr, rfl, rfl⟩
    refine follow_obj_of_longest (Text.split_length_pos r.step) (by simp) (name.symm ▸ found) ?_ ?_
    · rw [List.drop_left' rfl]
      exact RunContext.follow_entry_success success output
    · intro m child longer hm found
      obtain rfl : m = (Text.split '.' r.step).length + 1 := by
        rw [List.length_append] at hm
        exact Nat.le_antisymm hm longer
      rw [whole] at found
      obtain ⟨a, ha, same, -⟩ := (RunContext.get?_entries_iff names _).mp found
      exact absurd same (unlike a ha)

/-- **The path of a failure leads nowhere**, unless a step is called like the rest of it, or leads
along the rest of it from the beginning of the name. -/
theorem lookup_outputPath_failed_iff (names : (rs.map (·.step)).Nodup)
    (carriedOut : ∀ a ∈ rs, Execution.CarriedOut a.step a) {r : StepResult} (hr : r ∈ rs)
    (plain : Plain r.step) (failed : r.status = .failed) :
    (seen c params rs memory).lookup (outputPath r.step) = none ↔
      (∀ a ∈ rs, a.step ≠ r.step ++ ".output") ∧
        ∀ a ∈ rs, a.status = .success → ∀ inner, r.step = a.step ++ "." ++ inner →
          follow (RunContext.entry c.maxStepOutputBytes a) (segments inner ++ ["output"]) = none := by
  rw [lookup_outputPath_eq_none_iff names plain.filled, plain.segments_eq]
  constructor
  · intro nowhere
    constructor
    · intro a ha same
      have leads := nowhere a ha [] (by rw [same, split_output, List.append_nil])
      cases leads
    · intro a ha _ inner hr
      rw [hr] at plain
      apply nowhere a ha
      rw [plain.inner.segments_eq, hr, Text.split_append, List.append_assoc]
  · rintro ⟨unlike, inner⟩ a ha rest hrest
    rcases List.eq_nil_or_concat rest with rfl | ⟨segs, last, rfl⟩
    · rw [List.append_nil, ← split_output] at hrest
      exact absurd (Text.split_injective hrest) (unlike a ha)
    · rw [List.concat_eq_append, ← List.append_assoc] at hrest
      obtain ⟨parts, last⟩ := List.append_inj' hrest rfl
      cases last
      rw [List.concat_eq_append]
      rcases (carriedOut a ha).status with success | failed'
      · cases segs with
        | nil =>
          rw [List.append_nil] at parts
          have same := List.inj_on_of_nodup_map names ha hr (Text.split_injective parts)
          rw [same, failed] at success
          cases success
        | cons s segs =>
          obtain ⟨cut, hr⟩ := Text.inner_of_split parts (List.cons_ne_nil _ _)
          rw [hr] at plain
          have leads := inner a ha success _ hr
          rwa [plain.inner.segments_eq, cut] at leads
      · exact RunContext.outputless_entry_failed (carriedOut a ha) failed' segs

/-- A name is looked up without the blanks around its segments. -/
theorem lookup_outputPath_trimmed (scope : Scope) (name : String) :
    scope.lookup (outputPath name) =
      scope.lookup (outputPath (Text.join "." (segments name))) := by
  unfold lookup
  rw [segments_outputPath, segments_outputPath, segments_join_segments]

/-- Where the paths to outputs lead after these results. -/
structure ShowsOutputs (max : Nat) (scope : Scope) (rs : List StepResult) : Prop where
  success : ∀ r ∈ rs, r.status = .success → Plain r.step → ∃ o, r.output = some o ∧
    (scope.lookup (outputPath r.step) = some (.str (Text.truncated max o.output)) ↔
      ∀ a ∈ rs, a.step ≠ r.step ++ ".output")
  failed : ∀ r ∈ rs, r.status = .failed → Plain r.step →
    (scope.lookup (outputPath r.step) = none ↔
      (∀ a ∈ rs, a.step ≠ r.step ++ ".output") ∧
        ∀ a ∈ rs, a.status = .success → ∀ inner, r.step = a.step ++ "." ++ inner →
          follow (RunContext.entry max a) (segments inner ++ ["output"]) = none)
  /-- Other names are looked up as plain ones, or not at all. -/
  untidy : ∀ name, ¬ Plain name →
    ("" ∈ segments name ∧ scope.lookup (outputPath name) = none) ∨
      (Plain (Text.join "." (segments name)) ∧ Text.join "." (segments name) ≠ name ∧
        scope.lookup (outputPath name) =
          scope.lookup (outputPath (Text.join "." (segments name))))

theorem showsOutputs_seen (names : (rs.map (·.step)).Nodup)
    (carriedOut : ∀ a ∈ rs, Execution.CarriedOut a.step a) :
    ShowsOutputs c.maxStepOutputBytes (seen c params rs memory) rs where
  success := by
    intro r hr success plain
    obtain ⟨o, output⟩ := (carriedOut r hr).output success
    exact ⟨o, output, lookup_outputPath_success_iff names hr plain success output⟩
  failed := by
    intro r hr failed plain
    exact lookup_outputPath_failed_iff names carriedOut hr plain failed
  untidy := by
    intro name untidy
    by_cases empty : "" ∈ segments name
    · refine .inl ⟨empty, lookup_eq_none_of_empty _ ?_⟩
      rw [segments_outputPath]
      simp [empty]
    · refine .inr ⟨plain_join_segments empty, ?_, lookup_outputPath_trimmed _ name⟩
      intro same
      exact untidy (same ▸ plain_join_segments empty)

end

/-! ## 4. Runs -/

namespace Execution

open Dialogue RunDialogue RunTrace Memory

theorem Skips.silent {run : RunId} {steps : List Step} {ss : List Stretch}
    (h : Skips run steps ss) : ∀ s ∈ ss, s.work = [] := by
  induction h with
  | nil => simp
  | cons _ _ ih => exact List.forall_mem_cons.mpr ⟨rfl, ih⟩

/-- **A step that did any work was attempted in the context of all results before it**, and all
those steps were carried out. -/
theorem Course.attempted {c : Config} {run : RunId} {ctx : RunContext} {ps front back : List Turn}
    {q : Turn} {abort : Option AbortReason}
    (h : Course c run ctx (ps.map (·.step)) (ps.map (·.toStretch)) (ps.map (·.result)) abort)
    (hps : ps = front ++ q :: back) (worked : q.work ≠ []) :
    (∃ r a, Yields (attempt c run ((front.map (·.result)).foldl RunContext.record ctx) q.step)
        q.work (r, a)) ∧
      ∀ p ∈ front, CarriedOut p.step.name p.result := by
  induction front generalizing ctx ps with
  | nil =>
    subst hps
    rw [List.nil_append, List.map_cons, List.map_cons, List.map_cons] at h
    obtain ⟨⟨work, records⟩, step, result⟩ := q
    generalize results : back.map (·.result) = rs at h
    cases h with
    | goesOn attempted | aborted attempted | unrecorded attempted =>
      exact ⟨⟨_, _, attempted⟩, by simp⟩
  | cons p front ih =>
    subst hps
    rw [List.cons_append, List.map_cons, List.map_cons, List.map_cons] at h
    have later : q.toStretch ∈ (front ++ q :: back).map (·.toStretch) :=
      List.mem_map.mpr ⟨q, by simp, rfl⟩
    obtain ⟨⟨work, records⟩, step, result⟩ := p
    generalize results : (front ++ q :: back).map (·.result) = rs at h
    cases h with
    | goesOn attempted _ rest =>
      subst results
      obtain ⟨here, carriedOut⟩ := ih rest rfl
      refine ⟨here, List.forall_mem_cons.mpr ⟨?_, carriedOut⟩⟩
      rcases (yields_attempt attempted).result with ⟨carriedOut, -⟩ | ⟨-, aborts⟩
      · exact carriedOut
      · cases aborts
    | aborted _ _ skipped => exact absurd (skipped.silent _ later) worked
    | unrecorded _ _ _ _ skipped => exact absurd (skipped.silent _ later) worked

/-- In a run, a step that did any work was attempted after its start was recorded. -/
theorem RunCourse.attempted {c : Config} {w : Workflow} {run : RunId} {params : Fields Json}
    {start : RunTrace} {rs : List StepResult} {ss : List Stretch} {abort : Option AbortReason}
    (h : RunCourse c w run params start ss rs abort) {ps front back : List Turn} {q : Turn}
    (turns : Turns run w.steps rs ss ps) (hps : ps = front ++ q :: back) (worked : q.work ≠ []) :
    (∃ r a, Yields (attempt c run
        ((front.map (·.result)).foldl RunContext.record (openingContext c params)) q.step)
          q.work (r, a)) ∧
      ∀ p ∈ front, CarriedOut p.step.name p.result := by
  cases h with
  | unstarted =>
    -- nothing was exchanged for any step
    have silent : q.toStretch ∈ w.steps.map fun _ => ({} : Stretch) := by
      rw [← turns.stretches_eq, hps]
      exact List.mem_map.mpr ⟨q, by simp, rfl⟩
    obtain ⟨_, -, empty⟩ := List.mem_map.mp silent
    exact absurd (congrArg Stretch.work empty).symm worked
  | started _ course =>
    rw [← turns.steps_eq, ← turns.stretches_eq, ← turns.results_eq] at course
    exact course.attempted hps worked

/-- The results before a turn are of different steps. -/
theorem Turns.front_names {w : Workflow} {run : RunId} {rs : List StepResult} {ss : List Stretch}
    {ps front back : List Turn} {q : Turn} (h : Turns run w.steps rs ss ps)
    (names : w.stepNames.Nodup) (hps : ps = front ++ q :: back) :
    (front.map (·.result)).map (·.step) = front.map (·.step.name) ∧
      (front.map (·.step.name)).Nodup := by
  constructor
  · rw [List.map_map]
    exact List.map_congr_left fun p hp => (h.own p (by simp [hps, hp])).named
  · rw [Workflow.stepNames, ← h.steps_eq, List.map_map, hps, List.map_append] at names
    exact names.of_append_left

/-- **What a step sees of the outputs of earlier ones.** In a run of an accepted workflow, whatever
its store does, a step is attempted in the context of all earlier results, and this is where the
paths to their outputs lead. -/
theorem earlier_outputs {c : Config} {w : Workflow} {run : RunId} {params : Fields Json}
    {t : RunTrace} {rec : RunRecord} (checked : w.check = .ok ())
    (ran : Yields (execute c w run params) t rec) :
    ∃ start ss ps finish, t = start ++ Stretch.traces ss ++ finish ∧
      Turns run w.steps rec.steps ss ps ∧
      ∀ front q back, ps = front ++ q :: back → q.work ≠ [] →
        (∃ r a, Yields (attempt c run
          ((front.map (·.result)).foldl RunContext.record (openingContext c params)) q.step)
            q.work (r, a)) ∧
        ∀ memory, ShowsOutputs c.maxStepOutputBytes
          (((front.map (·.result)).foldl RunContext.record (openingContext c params)).scope memory)
          (front.map (·.result)) := by
  obtain ⟨t₀, t₁, start, ss, abort, rfl, course, -⟩ := yields_execute ran
  obtain ⟨ps, turns⟩ := course.turns
  refine ⟨⟨.time, t₀⟩ :: start, ss, ps, [⟨.time, t₁⟩], rfl, turns, ?_⟩
  intro front q back hps worked
  obtain ⟨attempted, carriedOut⟩ := course.attempted turns hps worked
  refine ⟨attempted, fun memory => ?_⟩
  obtain ⟨same, distinct⟩ := turns.front_names (Workflow.nodup_of_check checked) hps
  apply showsOutputs_seen
  · rw [same]
    exact distinct
  · intro a ha
    obtain ⟨p, hp, rfl⟩ := List.mem_map.mp ha
    rw [(turns.own p (by simp [hps, hp])).named]
    exact carriedOut p hp

/-! ## 5. A step that is called like a path

The first step fails, and the path to its output is read by the third one. -/

def draftWorkflow : Workflow where
  name := "draft"
  description := none
  params := []
  steps :=
    [{ name := "draft", tool := some "lookup", onFailure := .proceed },
      { name := "draft.output", tool := some "lookup" },
      { name := "show", tool := some "lookup"
        inputs := [("text", .text "\x7b\x7bsteps.draft.output\x7d\x7d")] }]

def draftRun : RunDialogue RunRecord := execute {} draftWorkflow "r1" []

/-- Two calls have been made before, so the first one fails. -/
def draftTrace : RunTrace := draftRun.transcript (overStore ⟨0⟩ thirdCallFails) (({} : RunTable), 2)

def draftRecord : RunRecord :=
  (draftRun.answered (overStore ⟨0⟩ thirdCallFails) (({} : RunTable), 2)).1

/-- The text that a call was given at this place of its inputs. -/
def givenAt (segs : List String) : RunExchange → Option String
  | ⟨.call _ inputs _, _⟩ =>
      match follow (.obj inputs) segs with
      | some (.str s) => some s
      | _ => none
  | _ => none

/-- The general statement at this run. -/
theorem earlier_outputs_draft :
    draftWorkflow.check = .ok () ∧ Yields draftRun draftTrace draftRecord ∧
      ∃ start ss ps finish, draftTrace = start ++ Stretch.traces ss ++ finish ∧
        Turns "r1" draftWorkflow.steps draftRecord.steps ss ps ∧
        ∀ front q back, ps = front ++ q :: back → q.work ≠ [] →
          (∃ r a, Yields (attempt {} "r1"
            ((front.map (·.result)).foldl RunContext.record (openingContext {} [])) q.step)
              q.work (r, a)) ∧
          ∀ memory, ShowsOutputs ({} : Config).maxStepOutputBytes
            (((front.map (·.result)).foldl RunContext.record (openingContext {} [])).scope memory)
            (front.map (·.result)) := by
  have checked : draftWorkflow.check = .ok () := by decide +kernel
  have ran : Yields draftRun draftTrace draftRecord := yields_transcript _ draftRun _
  exact ⟨checked, ran, earlier_outputs checked ran⟩

/-- **The path to the output of a failed step leads somewhere.** The first step failed, and yet the
third one was given something for `steps.draft.output`: the whole entry of the second step. -/
theorem path_of_failure_leads :
    draftWorkflow.check = .ok () ∧ Yields draftRun draftTrace draftRecord ∧
      draftRecord.steps.map (fun r => (r.step, r.status)) =
        [("draft", .failed), ("draft.output", .success), ("show", .success)] ∧
      draftWorkflow.steps.map (fun s => Template.textsFields s.inputs) =
        [[], [], ["\x7b\x7b" ++ outputPath "draft" ++ "\x7d\x7d"]] ∧
      draftTrace.filterMap (givenAt ["text", "status"]) = ["success"] ∧
      draftTrace.filterMap (givenAt ["text", "output"]) = ["old"] := by
  refine ⟨by decide +kernel, yields_transcript _ draftRun _, by decide +kernel, by decide +kernel,
    by decide +kernel, by decide +kernel⟩

end Execution
end Runbook
