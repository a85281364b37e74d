import Runbook.Proofs.Engine.Succession
import Runbook.Proofs.Memory.Readback
import Runbook.Proofs.Run.Fate

/-!
# A store that refuses one append

If a store refuses a single append of a run, what is told of the run later agrees with what the
run returned. A success that could not be recorded is turned into a failure, and the failure is
recorded again, since the store works again by then. So all steps that were carried out are listed
with their status.

There is one exception: a step that was skipped is recorded in a single append, and if that is the
one that is refused, nobody tries again. `lists_of_single_refusal` is the exact statement, and
`skipped_step_unlisted` such a run.
-/

set_option autoImplicit false

namespace Runbook

open Dialogue RunDialogue Memory

/-- The slice that could not be appended. -/
def RunExchange.refused? : RunExchange → Option NewSlice
  | ⟨.store (.append s), .error _⟩ => some s
  | _ => none

namespace RunTrace

/-- The slices that could not be appended, in their order. -/
def refusals (t : RunTrace) : List NewSlice := t.filterMap RunExchange.refused?

theorem refusals_append (t u : RunTrace) : refusals (t ++ u) = refusals t ++ refusals u :=
  List.filterMap_append

theorem mem_refusals {t : RunTrace} {s : NewSlice} :
    s ∈ refusals t ↔ ∃ e, RunExchange.refused s e ∈ t := by
  rw [refusals, List.mem_filterMap]
  constructor
  · rintro ⟨x, hx, hs⟩
    unfold RunExchange.refused? at hs
    split at hs
    · cases hs
      exact ⟨_, hx⟩
    · cases hs
  · rintro ⟨e, hx⟩
    exact ⟨_, hx, rfl⟩

end RunTrace

namespace Execution

open RunTrace

/-! ## 1. What is recorded of a step -/

/-- The times of the result were told, and a step that was skipped is recorded at least once. -/
structure Kept (run : RunId) (r : StepResult) (s : Stretch) : Prop where
  timed : Timed r s.trace
  tried : r.status = .skipped → ∃ x, Yields (record run r) s.records x

theorem kept_skipped {run : RunId} {name : String} {work records : RunTrace}
    {x : Except StoreError Unit} (tried : Yields (record run (StepResult.skipped name)) records x) :
    Kept run (StepResult.skipped name) ⟨work, records⟩ :=
  ⟨timed_skipped name _, fun _ => ⟨x, tried⟩⟩

theorem Skips.kept {run : RunId} {steps : List Step} {ss : List Stretch}
    (h : Skips run steps ss) : List.Forall₂ (Kept run) (skippedResults steps) ss := by
  induction h with
  | nil => exact .nil
  | cons tried _ ih => exact .cons (kept_skipped tried) ih

theorem Timed.mono {r : StepResult} {t u : RunTrace} (h : Timed r t) (sub : ∀ x ∈ t, x ∈ u) :
    Timed r u :=
  fun i hi => sub _ (h i hi)

theorem StepCourse.kept {c : Config} {run : RunId} {ctx : RunContext} {step : Step}
    {work records : RunTrace} {r : StepResult} {abort : Option AbortReason}
    (h : StepCourse c run ctx step work r abort) {x : Except StoreError Unit}
    (tried : Yields (record run r) records x) : Kept run r ⟨work, records⟩ :=
  ⟨h.timed.mono fun _ hx => List.mem_append_left _ hx, fun _ => ⟨x, tried⟩⟩

theorem Course.kept {c : Config} {run : RunId} {ctx : RunContext} {steps : List Step}
    {ss : List Stretch} {rs : List StepResult} {abort : Option AbortReason}
    (h : Course c run ctx steps ss rs abort) : List.Forall₂ (Kept run) rs ss := by
  induction h with
  | ended => exact .nil
  | goesOn attempted recorded _ ih => exact .cons ((yields_attempt attempted).kept recorded) ih
  | aborted attempted recorded skipped =>
    exact .cons ((yields_attempt attempted).kept recorded) skipped.kept
  | unrecorded attempted failed demoted amended skipped =>
    have course := yields_attempt attempted
    refine .cons ?_ skipped.kept
    rcases course.result with ⟨carriedOut, -⟩ | ⟨rfl, -⟩
    · constructor
      · refine (demoted.timed course.timed).mono fun x hx => ?_
        simp only [Stretch.trace, List.mem_append] at hx ⊢
        exact hx.imp_right fun hx => .inl (.inr hx)
      · intro skipped
        exact absurd skipped (demoted.carriedOut carriedOut).not_skipped
    · -- a step that was skipped is not recorded once more
      cases demoted with
      | success h => cases h
      | other =>
        cases amended with
        | tried h => cases h
        | none =>
          rw [List.append_nil, List.append_nil]
          exact kept_skipped failed

/-! ## 2. What is told of a step -/

/-- The step cannot be listed: it was skipped and its record refused, or its success cannot be
read. -/
def Unlisted (run : RunId) (r : StepResult) (t : RunTrace) : Prop :=
  (r.status = .skipped ∧ resultSlice run r ∈ refusals t) ∨ (r.status = .success ∧ ¬ Readable r)

/-- The last thing that is told of a step, if anything is, agrees with its result. -/
structure ToldAs (run : RunId) (r : StepResult) (t : RunTrace) : Prop where
  agrees : ∀ x, (readingsOf run r.step t).getLast? = some x → x.step = r.step ∧ x.status = r.status
  none_iff : (readingsOf run r.step t).getLast? = none ↔ Unlisted run r t

section

variable {run : RunId} {r kept : StepResult} {records : RunTrace} {x : Except StoreError Unit}

theorem ToldAs.listed {y : StepResult} (last : (readingsOf run r.step records).getLast? = some y)
    (step : y.step = r.step) (status : y.status = r.status) (h : ¬ Unlisted run r records) :
    ToldAs run r records := by
  constructor
  · intro x hx
    rw [last] at hx
    cases hx
    exact ⟨step, status⟩
  · rw [last]
    exact ⟨fun none => (by cases none), fun unlisted => absurd unlisted h⟩

theorem ToldAs.missing (none : readingsOf run r.step records = []) (h : Unlisted run r records) :
    ToldAs run r records := by
  constructor
  · intro x hx
    rw [none] at hx
    cases hx
  · rw [none]
    exact ⟨fun _ => h, fun _ => rfl⟩

/-- A skipped step is told as such, unless its record was refused. -/
theorem toldAs_skipped {name : String}
    (tried : Yields (record run (StepResult.skipped name)) records x) :
    ToldAs run (StepResult.skipped name) records := by
  have one : stepSlices run (StepResult.skipped name) =
      [resultSlice run (StepResult.skipped name)] := rfl
  unfold record recordStep at tried
  rw [one] at tried
  rcases yields_appendAll tried with ⟨-, all⟩ | ⟨front, s, back, u, e, split, hu, rfl, -⟩
  · cases all with
    | cons _ i all =>
      cases all
      have told : readingsOf run (StepResult.skipped name).step
          [.appended (resultSlice run (StepResult.skipped name)) i] =
            [StepResult.skipped name] := by
        rw [readingsOf_result rfl, told_skipped]
        rfl
      refine .listed (by rw [told]; rfl) rfl rfl ?_
      rintro (⟨-, refused⟩ | ⟨success, -⟩)
      · cases refused
      · cases success
  · cases front with
    | nil =>
      obtain ⟨rfl, rfl⟩ := List.cons.inj split
      cases hu
      exact .missing rfl (.inl ⟨rfl, List.mem_singleton.mpr rfl⟩)
    | cons a front => cases front <;> cases split

/-- A step that was recorded in full is told as it was, if it can be read. -/
theorem toldAs_recorded {t : RunTrace} {name : String} (carriedOut : CarriedOut name r)
    (recorded : Yields (record run r) records (.ok ())) (timed : Timed r t)
    (clock : DatedClock t) : ToldAs run r records := by
  obtain ⟨d, slices, two⟩ := carriedOut.record recorded
  have told : readingsOf run r.step records = (resultSlice run r).entry.result?.toList := by
    rcases two.readings slices.not_result with ⟨e, rfl, -⟩ | told
    · cases two
    · exact told
  have kept := carriedOut.not_skipped
  constructor
  · intro y hy
    rw [told] at hy
    obtain ⟨read, status⟩ := status_of_last hy
    exact ⟨(StepResult.of_parse?_encode (result?_resultSlice.mp read)).1, status⟩
  · rw [told, List.getLast?_eq_none_iff, Option.toList_eq_nil_iff]
    rcases carriedOut.status with success | failed
    · have readable_iff : Readable r ↔ (resultSlice run r).entry.result? ≠ none := by
        rw [← Option.isSome_iff_ne_none, Option.isSome_iff_exists]
        exact exists_congr fun y => result?_resultSlice.symm
      simp [Unlisted, success, readable_iff]
    · rw [told_failed run carriedOut failed timed clock]
      simp [Unlisted, failed]

/-- A failure that was recorded once more is told as it was. -/
theorem toldAs_unrecorded {message name : String} {t demotion again : RunTrace} {e : StoreError}
    (carriedOut : CarriedOut name r) (failed : Yields (record run r) records (.error e))
    (demoted : Demoted r message demotion kept) (amended : Amends run kept again)
    (timed : Timed kept t) (clock : DatedClock t)
    (single : (refusals (records ++ demotion ++ again)).length ≤ 1) :
    ToldAs run kept (records ++ demotion ++ again) := by
  have keptOut : CarriedOut name kept := demoted.carriedOut carriedOut
  have status : kept.status = .failed := by
    cases demoted with
    | success => rfl
    | other h => exact carriedOut.status.resolve_left h
  cases amended with
  | none h => exact absurd status h
  | tried _ tried =>
    obtain ⟨d, slices, two⟩ := keptOut.record tried
    -- the one refusal was in the first record
    have first : refusals records ≠ [] := by
      obtain ⟨d', -, two'⟩ := carriedOut.record failed
      cases two' <;> simp [refusals, RunExchange.refused?, RunExchange.refused]
    have second : refusals again = [] := by
      rw [refusals_append, refusals_append, List.length_append, List.length_append] at single
      have pos := List.length_pos_of_ne_nil first
      exact List.eq_nil_of_length_eq_zero (by omega)
    have told : readingsOf run kept.step again = [kept] := by
      rcases two.readings slices.not_result with ⟨e', rfl, -⟩ | told
      · cases second
      · rw [told, told_failed run keptOut status timed clock]
        rfl
    refine .listed ?_ rfl rfl ?_
    · rw [readingsOf_unrecorded demoted, told]
      exact List.getLast?_concat
    · rintro (⟨skipped, -⟩ | ⟨success, -⟩)
      · exact absurd skipped (by simp [status])
      · exact absurd success (by simp [status])

end

/-- **What is told of a step**, if at most one of its slices was refused. -/
theorem Fate.toldAs {run : RunId} {r : StepResult} {s : Stretch} (h : Fate run r.step r s)
    (kept : Kept run r s) (clock : DatedClock s.trace) (single : (refusals s.records).length ≤ 1) :
    ToldAs run r s.records := by
  generalize hname : r.step = name at h
  cases h with
  | skipped =>
    obtain ⟨x, tried⟩ := kept.tried rfl
    exact toldAs_skipped tried
  | recorded carriedOut recorded => exact toldAs_recorded carriedOut recorded kept.timed clock
  | unrecorded carriedOut _ failed demoted amended =>
    exact toldAs_unrecorded carriedOut failed demoted amended kept.timed clock single

/-! ## 3. What is told of a run -/

theorem readings_eq_nil {run : RunId} {t : RunTrace}
    (h : ∀ s ∈ stored t, s.classification ≠ .stepResult) : readings (t.entriesOf run) = [] := by
  refine List.filterMap_eq_nil_iff.mpr fun e he => ?_
  obtain ⟨s, hs, -, rfl⟩ := mem_entriesOf.mp he
  cases hr : s.entry.result? with
  | none => rfl
  | some x => exact absurd (Entry.classification_of_result hr) (h s hs)

theorem readings_append (run : RunId) (t u : RunTrace) :
    readings ((t ++ u).entriesOf run) =
      readings (t.entriesOf run) ++ readings (u.entriesOf run) := by
  rw [entriesOf_append, readings, List.filterMap_append]
  rfl

/-- In the turn of a step, results of that step are told. -/
theorem Turn.Own.readings_eq {run : RunId} {p : Turn} (h : p.Own run) :
    readings (p.trace.entriesOf run) = readingsOf run p.step.name p.records := by
  have silent : readings (p.work.entriesOf run) = [] := by
    apply readings_eq_nil
    rw [stored_work h (List.append_nil _).symm]
    simp
  rw [Stretch.trace, readings_append, silent, List.nil_append, readingsOf, eq_comm,
    List.filter_eq_self]
  intro x hx
  obtain ⟨e, he, hr⟩ := List.mem_filterMap.mp hx
  obtain ⟨s, hs, -, rfl⟩ := mem_entriesOf.mp he
  have turn : s ∈ stored p.trace := by
    rw [Stretch.trace, stored_append]
    exact List.mem_append_right _ hs
  obtain ⟨r, step, slice⟩ := h.mem_stored turn
  exact decide_eq_true ((step_of_result slice hr).trans step)

/-- Turn by turn, the results of the steps are told. -/
theorem readings_traces {run : RunId} {ps : List Turn} (own : ∀ p ∈ ps, p.Own run) :
    readings ((Stretch.traces (ps.map (·.toStretch))).entriesOf run) =
      ps.flatMap fun p => readingsOf run p.step.name p.records := by
  induction ps with
  | nil => rfl
  | cons p ps ih =>
    rw [List.forall_mem_cons] at own
    rw [List.map_cons, Stretch.traces_cons, readings_append, ih own.2, List.flatMap_cons]
    exact congrArg (· ++ _) own.1.readings_eq

/-- What a listing shows of the turn. -/
def Turn.listed? (run : RunId) (p : Turn) : Option StepResult :=
  (readingsOf run p.step.name p.records).getLast?

/-- What a listing says of a run, compared with what the run returned. -/
structure Lists (run : RunId) (t : RunTrace) (returned listed : List StepResult) : Prop where
  /-- No step is listed twice or with another status, and the order is the one of the run. -/
  agrees : (listed.map fun x => (x.step, x.status)).Sublist
    (returned.map fun r => (r.step, r.status))
  missing_iff : ∀ r ∈ returned, r.step ∉ listed.map (·.step) ↔ Unlisted run r t
  whole_iff : (listed.map fun x => (x.step, x.status)) = (returned.map fun r => (r.step, r.status)) ↔
    (∀ r ∈ returned, r.status = .skipped → resultSlice run r ∉ refusals t) ∧
      ∀ r ∈ returned, r.status = .success → Readable r

section

variable {α β γ : Type} {f : α → Option β} {g : β → γ} {k : α → γ} {as : List α}

theorem filterMap_sublist (h : ∀ a ∈ as, ∀ b, f a = some b → g b = k a) :
    ((as.filterMap f).map g).Sublist (as.map k) := by
  induction as with
  | nil => exact .slnil
  | cons a as ih =>
    rw [List.forall_mem_cons] at h
    rw [List.map_cons]
    cases found : f a with
    | none =>
      rw [List.filterMap_cons_none found]
      exact (ih h.2).cons _
    | some b =>
      rw [List.filterMap_cons_some found, List.map_cons, h.1 b found]
      exact (ih h.2).cons_cons _

theorem filterMap_whole (h : ∀ a ∈ as, ∀ b, f a = some b → g b = k a)
    (all : ∀ a ∈ as, f a ≠ none) : (as.filterMap f).map g = as.map k := by
  apply (filterMap_sublist h).eq_of_length
  rw [List.length_map, List.length_map, List.length_filterMap_eq_countP, List.countP_eq_length]
  intro a ha
  exact Option.isSome_iff_ne_none.mpr (all a ha)

end

/-! ## 4. Runs under a fresh id -/

section

variable {w : Workflow} {run : RunId} {params : Fields Json} {rs : List StepResult}
  {ss : List Stretch} {ps : List Turn} {start finish : RunTrace}

/-- **The results of a run are told turn by turn.** -/
theorem Turns.readings_eq (h : Turns run w.steps rs ss ps)
    (hstart : ∀ x ∈ start, StartOf w run params x) (hfinish : ∀ x ∈ finish, x.question = .time) :
    readings ((start ++ Stretch.traces ss ++ finish).entriesOf run) =
      ps.flatMap fun p => readingsOf run p.step.name p.records := by
  have none_start : readings (start.entriesOf run) = [] := by
    apply readings_eq_nil
    intro s hs result
    rcases (mem_startSlices (StartOf.stored hstart hs)).2 with other | other <;>
      exact absurd (result.symm.trans other) (by simp)
  have none_finish : readings (finish.entriesOf run) = [] := by
    apply readings_eq_nil
    intro s hs
    obtain ⟨id, hx⟩ := mem_stored hs
    cases hfinish _ hx
  rw [readings_append, readings_append, none_start, none_finish, List.nil_append, List.append_nil,
    ← h.stretches_eq, readings_traces h.own]

/-- A listing shows the turns one after another. -/
theorem Turns.stepResults_eq (h : Turns run w.steps rs ss ps) (names : w.stepNames.Nodup)
    (hstart : ∀ x ∈ start, StartOf w run params x) (hfinish : ∀ x ∈ finish, x.question = .time)
    {history : List Slice}
    (told : history.map Slice.entry = (start ++ Stretch.traces ss ++ finish).entriesOf run) :
    stepResults history = ps.filterMap (Turn.listed? run) := by
  have apart : (ps.map (·.step.name)).Nodup := by
    rwa [Workflow.stepNames, ← h.steps_eq, List.map_map] at names
  rw [stepResults, filterMap_recordedResult?, told, h.readings_eq hstart hfinish,
    foldl_putResult_blocks (fun p : Turn => p.step.name) _ apart (by simp)]
  · rfl
  · intro p hp x hx
    simpa using (List.mem_filter.mp hx).2

/-- The refusal of a skipped step stands in the turn of the step. -/
theorem Turns.unlisted_iff (h : Turns run w.steps rs ss ps) (names : w.stepNames.Nodup)
    (hstart : ∀ x ∈ start, StartOf w run params x) (hfinish : ∀ x ∈ finish, x.question = .time)
    {p : Turn} (hp : p ∈ ps) :
    Unlisted run p.result (start ++ Stretch.traces ss ++ finish) ↔
      Unlisted run p.result p.records := by
  have same : resultSlice run p.result ∈ refusals (start ++ Stretch.traces ss ++ finish) ↔
      resultSlice run p.result ∈ refusals p.records := by
    rw [mem_refusals, mem_refusals]
    apply exists_congr
    intro e
    constructor
    · intro hx
      exact h.mem_records names hstart hfinish hp hx (h.own p hp).named ⟨by simp [resultSlice],
        by simp [resultSlice]⟩
    · intro hx
      have whole := h.mem_traces_of_mem hp (List.mem_append_right _ hx)
      exact List.mem_append_left _ (List.mem_append_right _ whole)
  unfold Unlisted
  rw [same]

theorem Turns.listed_agrees (h : Turns run w.steps rs ss ps) {p : Turn} (hp : p ∈ ps)
    (told : ToldAs run p.result p.records) {x : StepResult} (hx : p.listed? run = some x) :
    (x.step, x.status) = (p.result.step, p.result.status) := by
  rw [Turn.listed?, ← (h.own p hp).named] at hx
  obtain ⟨step, status⟩ := told.agrees x hx
  rw [step, status]

/-- A step is listed in its own turn or not at all. -/
theorem Turns.not_mem_listed_iff (h : Turns run w.steps rs ss ps) (names : w.stepNames.Nodup)
    (told : ∀ p ∈ ps, ToldAs run p.result p.records) {p : Turn} (hp : p ∈ ps) :
    p.result.step ∉ (ps.filterMap (Turn.listed? run)).map (·.step) ↔ p.listed? run = none := by
  constructor
  · intro missing
    cases here : p.listed? run with
    | none => rfl
    | some x =>
      refine absurd (List.mem_map.mpr ⟨x, List.mem_filterMap.mpr ⟨p, hp, here⟩, ?_⟩) missing
      exact (Prod.mk.inj (h.listed_agrees hp (told p hp) here)).1
  · intro none hm
    obtain ⟨x, hx, step⟩ := List.mem_map.mp hm
    obtain ⟨q, hq, here⟩ := List.mem_filterMap.mp hx
    have same : q.step.name = p.step.name := by
      rw [← (h.own q hq).named, ← (h.own p hp).named, ← step,
        (Prod.mk.inj (h.listed_agrees hq (told q hq) here)).1]
    rw [h.eq_of_name names hp hq same, none] at here
    cases here

theorem Turns.lists (h : Turns run w.steps rs ss ps) (names : w.stepNames.Nodup)
    (hstart : ∀ x ∈ start, StartOf w run params x) (hfinish : ∀ x ∈ finish, x.question = .time)
    (told : ∀ p ∈ ps, ToldAs run p.result p.records) :
    Lists run (start ++ Stretch.traces ss ++ finish) rs (ps.filterMap (Turn.listed? run)) := by
  have agrees : ∀ p ∈ ps, ∀ x, p.listed? run = some x →
      (x.step, x.status) = (p.result.step, p.result.status) :=
    fun p hp _ hx => h.listed_agrees hp (told p hp) hx
  have none_iff : ∀ p ∈ ps, p.listed? run = none ↔
      Unlisted run p.result (start ++ Stretch.traces ss ++ finish) := by
    intro p hp
    rw [h.unlisted_iff names hstart hfinish hp, ← (told p hp).none_iff, Turn.listed?,
      (h.own p hp).named]
  have missing_iff : ∀ r ∈ rs, r.step ∉ (ps.filterMap (Turn.listed? run)).map (·.step) ↔
      Unlisted run r (start ++ Stretch.traces ss ++ finish) := by
    intro r hr
    rw [← h.results_eq] at hr
    obtain ⟨p, hp, rfl⟩ := List.mem_map.mp hr
    rw [h.not_mem_listed_iff names told hp, none_iff p hp]
  refine ⟨?_, missing_iff, ?_⟩
  · rw [← h.results_eq, List.map_map]
    exact filterMap_sublist agrees
  · constructor
    · intro whole
      have steps := congrArg (List.map Prod.fst) whole
      simp only [List.map_map, Function.comp_def] at steps
      have all : ∀ r ∈ rs, ¬ Unlisted run r (start ++ Stretch.traces ss ++ finish) := by
        intro r hr unlisted
        apply (missing_iff r hr).mpr unlisted
        rw [steps]
        exact List.mem_map.mpr ⟨r, hr, rfl⟩
      constructor
      · exact fun r hr skipped refused => all r hr (.inl ⟨skipped, refused⟩)
      · exact fun r hr success => not_not.mp fun unread => all r hr (.inr ⟨success, unread⟩)
    · rintro ⟨skipped, success⟩
      rw [← h.results_eq] at skipped success
      rw [← h.results_eq, List.map_map]
      apply filterMap_whole agrees
      intro p hp none
      have hr : p.result ∈ ps.map (·.result) := List.mem_map.mpr ⟨p, hp, rfl⟩
      rcases (none_iff p hp).mp none with ⟨status, refused⟩ | ⟨status, unread⟩
      · exact skipped _ hr status refused
      · exact unread (success _ hr status)

end

/-- A run of which the start was recorded keeps what its steps told. -/
theorem RunCourse.kept {c : Config} {w : Workflow} {run : RunId} {params : Fields Json}
    {start : RunTrace} {ss : List Stretch} {rs : List StepResult} {abort : Option AbortReason}
    (h : RunCourse c w run params start ss rs abort)
    (started : ∀ s ∈ startSlices run w.name params, s ∉ refusals start) :
    List.Forall₂ (Kept run) rs ss := by
  cases h with
  | started _ course => exact course.kept
  | unstarted failed =>
    rcases yields_appendAll failed with ⟨hok, -⟩ | ⟨front, s, back, u, e, split, -, rfl, -⟩
    · cases hok
    · have hs : s ∈ startSlices run w.name params := by simp [split]
      exact absurd (mem_refusals.mpr ⟨e, by simp⟩) (started s hs)

theorem Turns.split_trace {run : RunId} {steps : List Step} {rs : List StepResult}
    {ss : List Stretch} {ps : List Turn} (h : Turns run steps rs ss ps) {p : Turn} (hp : p ∈ ps) :
    ∃ t u, Stretch.traces ss = t ++ p.trace ++ u := by
  obtain ⟨front, back, rfl⟩ := List.append_of_mem hp
  refine ⟨Stretch.traces (front.map (·.toStretch)), Stretch.traces (back.map (·.toStretch)), ?_⟩
  rw [← h.stretches_eq, List.map_append, List.map_cons]
  simp [Stretch.traces]

/-- **What is told of a run in which at most one append was refused**, after its start. All steps
are listed with the status they were returned with, except those whose success cannot be read, and
a skipped step whose record is the one that was refused. -/
theorem lists_of_single_refusal {σ : Type} [MemoryStore σ] [LogStore σ] {c : Config} {w : Workflow}
    {run : RunId} {params : Fields Json} {t : RunTrace} {rec : RunRecord} {st st' st'' : σ}
    {history : List Slice} (checked : w.check = .ok ())
    (ran : Yields (execute c w run params) t rec) (served : Served st t st')
    (fresh : LogStore.entries run st = []) (clock : DatedClock t)
    (single : (refusals t).length ≤ 1)
    (started : ∀ s ∈ startSlices run w.name params, s ∉ refusals t)
    (answered : MemoryStore.history run st' = (.ok history, st'')) :
    Lists run t rec.steps (stepResults history) := by
  have names := Workflow.nodup_of_check checked
  have proper := (inOrder_of_yields ran).proper
  obtain ⟨t₀, t₁, start, ss, abort, rfl, course, -⟩ := yields_execute ran
  obtain ⟨ps, turns⟩ := course.turns
  have hstart := course.startOf_timed t₀
  have hfinish : ∀ x ∈ ([⟨.time, t₁⟩] : RunTrace), x.question = .time := by simp
  have told : history.map Slice.entry = (runTrace t₀ t₁ start ss).entriesOf run := by
    rw [LogStore.history_ok answered, served.entries_eq proper, fresh, List.nil_append]
  rw [turns.stepResults_eq names hstart hfinish told]
  refine turns.lists names hstart hfinish fun p hp => ?_
  obtain ⟨t, u, split⟩ := turns.split_trace hp
  have parts : refusals (runTrace t₀ t₁ start ss) =
      refusals start ++ refusals (Stretch.traces ss) := by
    have times : ∀ i, refusals [⟨.time, i⟩] = [] := fun _ => rfl
    rw [runTrace, ← List.singleton_append, refusals_append, refusals_append, refusals_append, times,
      times, List.nil_append, List.append_nil]
  have kept : List.Forall₂ (Kept run) rec.steps ss := by
    refine course.kept fun s hs refused => started s hs ?_
    rw [parts]
    exact List.mem_append_left _ refused
  refine (turns.fate course.fates p hp).toldAs (turns.forall₂ kept p hp) ?_ ?_
  · intro i hi
    apply clock i
    simp [runTrace, split, hi]
  · rw [parts, split, Stretch.trace, refusals_append, refusals_append, refusals_append] at single
    simp only [List.length_append] at single
    omega

/-! ## 5. A skipped step that is not listed

The first of three steps fails and aborts the run, and the store refuses the fourth append: the
record of the second step. -/

def chainWorkflow : Workflow where
  name := "chain"
  description := none
  params := []
  steps := [Step.run "find" "lookup", Step.run "show" "lookup", Step.run "send" "lookup"]

def chainRun : RunDialogue RunRecord := execute {} chainWorkflow "r1" []

/-- Two calls have been made before, so the first one fails. -/
def chainStore : Rehearsal.FaultyStore RunTable × Nat :=
  ({ store := {}, writeFaults := { numbers := [4] } }, 2)

def chainTrace : RunTrace := chainRun.transcript (overStore ⟨0⟩ thirdCallFails) chainStore

def chainRecord : RunRecord := (chainRun.answered (overStore ⟨0⟩ thirdCallFails) chainStore).1

/-- The store after the run. -/
def chainedStore : Rehearsal.FaultyStore RunTable :=
  (chainRun.answered (overStore ⟨0⟩ thirdCallFails) chainStore).2.1

def chainFailure : StepResult := StepResult.failed "find" ⟨.toolExecution, "not found"⟩ ⟨0⟩ ⟨0⟩

/-- What the run has left: its start, the failure, and the last of the skipped steps. -/
def chainHistory : List Slice :=
  (startSlices "r1" "chain" []).map (Slice.ofNew 1 ⟨0⟩) ++
    [Slice.ofNew 2 ⟨0⟩ (resultSlice "r1" chainFailure),
      Slice.ofNew 3 ⟨0⟩ (errorSlice "r1" chainFailure ⟨.toolExecution, "not found"⟩),
      Slice.ofNew 4 ⟨0⟩ (resultSlice "r1" (StepResult.skipped "send"))]

theorem chain_ran : Yields chainRun chainTrace chainRecord :=
  yields_transcript _ chainRun chainStore

theorem chain_served : Served chainStore.1 chainTrace chainedStore :=
  served_transcript ⟨0⟩ thirdCallFails chainRun chainStore

theorem chain_clock : DatedClock chainTrace := by
  intro i hi
  obtain ⟨s, hs⟩ := answer_of_mem_transcript hi
  obtain rfl : i = ⟨0⟩ := hs
  rfl

theorem chain_refusals :
    refusals chainTrace = [resultSlice "r1" (StepResult.skipped "show")] := rfl

theorem chain_history : MemoryStore.history "r1" chainedStore =
    (.ok chainHistory, (MemoryStore.history "r1" chainedStore).2) := rfl

/-- The general statement at this run. -/
theorem lists_of_single_refusal_chain :
    chainWorkflow.check = .ok () ∧ Yields chainRun chainTrace chainRecord ∧
      Served chainStore.1 chainTrace chainedStore ∧ LogStore.entries "r1" chainStore.1 = [] ∧
      DatedClock chainTrace ∧ (refusals chainTrace).length = 1 ∧
      (∀ s ∈ startSlices "r1" chainWorkflow.name [], s ∉ refusals chainTrace) ∧
      MemoryStore.history "r1" chainedStore =
        (.ok chainHistory, (MemoryStore.history "r1" chainedStore).2) ∧
      Lists "r1" chainTrace chainRecord.steps (stepResults chainHistory) := by
  have checked : chainWorkflow.check = .ok () := by decide +kernel
  have single : (refusals chainTrace).length = 1 := by
    rw [chain_refusals]
    rfl
  have started : ∀ s ∈ startSlices "r1" chainWorkflow.name [], s ∉ refusals chainTrace := by
    intro s hs refused
    rw [chain_refusals, List.mem_singleton] at refused
    subst refused
    rcases (mem_startSlices hs).2 with other | other <;> cases other
  exact ⟨checked, chain_ran, chain_served, rfl, chain_clock, single, started, chain_history,
    lists_of_single_refusal checked chain_ran chain_served rfl chain_clock (Nat.le_of_eq single)
      started chain_history⟩

theorem stepResults_chainHistory :
    stepResults chainHistory = [chainFailure, StepResult.skipped "send"] := by
  have failed : (resultSlice "r1" chainFailure).entry.result? = some chainFailure :=
    result?_resultSlice.mpr (StepResult.parse?_encode_failed rfl rfl)
  have skipped := told_skipped "r1" "send"
  have entries : chainHistory.map Slice.entry =
      [⟨"__run__", .parameters, "\x7b\x7d"⟩, (resultSlice "r1" chainFailure).entry,
        ⟨"find", .error, "not found"⟩, (resultSlice "r1" (StepResult.skipped "send")).entry] := rfl
  have start : (⟨"__run__", .parameters, "\x7b\x7d"⟩ : Entry).result? = none := rfl
  have error : (⟨"find", .error, "not found"⟩ : Entry).result? = none := rfl
  rw [stepResults, filterMap_recordedResult?, entries, readings, List.filterMap_cons_none start,
    List.filterMap_cons_some failed, List.filterMap_cons_none error,
    List.filterMap_cons_some skipped]
  rfl

/-- **A skipped step is not listed.** One append was refused after the start of the run, the record
of a step that was skipped, and nothing is told of that step. -/
theorem skipped_step_unlisted :
    chainWorkflow.check = .ok () ∧ Yields chainRun chainTrace chainRecord ∧
      Served chainStore.1 chainTrace chainedStore ∧ LogStore.entries "r1" chainStore.1 = [] ∧
      refusals chainTrace = [resultSlice "r1" (StepResult.skipped "show")] ∧
      (MemoryStore.history "r1" chainedStore).1 = .ok chainHistory ∧
      chainRecord.steps.map (fun r => (r.step, r.status)) =
        [("find", .failed), ("show", .skipped), ("send", .skipped)] ∧
      (stepResults chainHistory).map (fun r => (r.step, r.status)) =
        [("find", .failed), ("send", .skipped)] := by
  refine ⟨by decide +kernel, chain_ran, chain_served, rfl, chain_refusals, rfl, rfl, ?_⟩
  rw [stepResults_chainHistory]
  rfl

end Execution
end Runbook
