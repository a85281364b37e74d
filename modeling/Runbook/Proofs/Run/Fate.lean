import Mathlib.Data.List.Forall2
import Runbook.Proofs.Memory.Readback
import Runbook.Proofs.Run.Served

/-!
# What becomes of a result

A step that was carried out is recorded in two appends, its result and then its output or its
error. Either can be refused, and if the second one is, the first one stays: the record is *torn*.
A result that is not recorded in full ends the run; a success is then turned into a failure, and
that is recorded in two appends again, as far as the store allows.

`Fate` puts together what can have become of a result, and `Turn.told` what a history tells of it
later on.
-/

set_option autoImplicit false

namespace Runbook
namespace Execution

open Dialogue RunDialogue Memory RunTrace

/-! ## 1. Two appends -/

/-- Two slices are appended one after the other, as far as the store allows. -/
inductive TwoAppends (s d : NewSlice) : RunTrace → Except StoreError Unit → Prop where
  | stored (i j : Nat) : TwoAppends s d [.appended s i, .appended d j] (.ok ())
  | refused (e : StoreError) : TwoAppends s d [.refused s e] (.error (asWriteError e))
  | torn (i : Nat) (e : StoreError) :
      TwoAppends s d [.appended s i, .refused d e] (.error (asWriteError e))

theorem Appends.pair {s d : NewSlice} {t : RunTrace} (h : Appends [s, d] t) :
    ∃ i j, t = [.appended s i, .appended d j] := by
  cases h with
  | cons _ i h =>
    cases h with
    | cons _ j h =>
      cases h
      exact ⟨i, j, rfl⟩

theorem twoAppends {s d : NewSlice} {t : RunTrace} {x : Except StoreError Unit}
    (h : Yields (ofStore (appendAll [s, d])) t x) : TwoAppends s d t x := by
  rcases yields_appendAll h with ⟨rfl, all⟩ | ⟨front, s', back, u, e, split, hu, rfl, rfl⟩
  · obtain ⟨i, j, rfl⟩ := Appends.pair all
    exact .stored i j
  · cases front with
    | nil =>
      cases hu
      cases split
      exact .refused e
    | cons a front =>
      cases hu with
      | cons _ i hu =>
        cases front with
        | nil =>
          cases hu
          cases split
          exact .torn i e
        | cons b front => cases front <;> cases split

/-- The slices of a step that was carried out. -/
inductive Slices (run : RunId) (r : StepResult) : NewSlice → Prop where
  | success {o : ToolOutput} (status : r.status = .success) (output : r.output = some o) :
      Slices run r (outputSlice run r o)
  | failed {f : Failure} (status : r.status = .failed) (error : r.error = some f) :
      Slices run r (errorSlice run r f)

theorem CarriedOut.slices {name : String} {r : StepResult} (h : CarriedOut name r) (run : RunId) :
    ∃ d, Slices run r d ∧ stepSlices run r = [resultSlice run r, d] := by
  cases h with
  | success o t₀ t₁ => exact ⟨_, .success rfl rfl, rfl⟩
  | failed f t₀ t₁ => exact ⟨_, .failed rfl rfl, rfl⟩

theorem Slices.not_result {run : RunId} {r : StepResult} {d : NewSlice} (h : Slices run r d) :
    d.classification ≠ .stepResult := by
  cases h <;> exact fun h => nomatch h

/-- A step that was carried out is recorded in two appends. -/
theorem CarriedOut.record {name : String} {run : RunId} {r : StepResult} {t : RunTrace}
    {x : Except StoreError Unit} (h : CarriedOut name r) (tried : Yields (record run r) t x) :
    ∃ d, Slices run r d ∧ TwoAppends (resultSlice run r) d t x := by
  obtain ⟨d, slices, two⟩ := h.slices run
  refine ⟨d, slices, twoAppends ?_⟩
  rw [← two]
  exact tried

/-! ## 2. Times -/

/-- The times of the result are answers of the clock. -/
def Timed (r : StepResult) (t : RunTrace) : Prop :=
  ∀ i, r.startedAt = some i ∨ r.finishedAt = some i → ⟨.time, i⟩ ∈ t

theorem timed_skipped (name : String) (t : RunTrace) : Timed (StepResult.skipped name) t := by
  rintro i (h | h) <;> cases h

theorem timed_failed {name : String} {f : Failure} {t₀ t₁ : Instant} {t : RunTrace}
    (h₀ : ⟨.time, t₀⟩ ∈ t) (h₁ : ⟨.time, t₁⟩ ∈ t) : Timed (StepResult.failed name f t₀ t₁) t := by
  rintro i (h | h) <;> cases h <;> assumption

theorem timed_success {name : String} {o : ToolOutput} {t₀ t₁ : Instant} {t : RunTrace}
    (h₀ : ⟨.time, t₀⟩ ∈ t) (h₁ : ⟨.time, t₁⟩ ∈ t) : Timed (StepResult.success name o t₀ t₁) t := by
  rintro i (h | h) <;> cases h <;> assumption

theorem StepCourse.timed {c : Config} {run : RunId} {ctx : RunContext} {step : Step} {t : RunTrace}
    {r : StepResult} {abort : Option AbortReason} (h : StepCourse c run ctx step t r abort) :
    Timed r t := by
  cases h with
  | stopped | refused => exact timed_skipped step.name _
  | unread t₀ t₁ _ result | unresolved t₀ t₁ _ _ result | unprompted t₀ t₁ _ _ _ result =>
    subst result
    exact timed_failed (by simp [approach]) (by simp)
  | worked t₀ _ _ _ worked =>
    cases worked with
    | confirmed | succeeded => exact timed_success (by simp [approach]) (by simp)
    | failed => exact timed_failed (by simp [approach]) (by simp)

theorem Demoted.timed {r kept : StepResult} {message : String} {t u : RunTrace}
    (h : Demoted r message u kept) (hr : Timed r t) : Timed kept (t ++ u) := by
  cases h with
  | success _ t₀ t₁ _ started finished =>
    refine timed_failed ?_ (List.mem_append_right _ finished)
    rcases started with started | started
    · exact List.mem_append_left _ (hr t₀ (.inl started))
    · exact List.mem_append_right _ started
  | other => simpa using hr

/-! ## 3. Fates -/

/-- What became of the result of a step. -/
inductive Fate (run : RunId) (name : String) : StepResult → Stretch → Prop where
  | skipped (s : Stretch) : Fate run name (StepResult.skipped name) s
  | recorded {work records : RunTrace} {r : StepResult} (carriedOut : CarriedOut name r)
      (recorded : Yields (record run r) records (.ok ())) : Fate run name r ⟨work, records⟩
  | unrecorded {work records demotion again : RunTrace} {r kept : StepResult} {e : StoreError}
      (carriedOut : CarriedOut name r) (timed : Timed kept (work ++ demotion))
      (failed : Yields (record run r) records (.error e))
      (demoted : Demoted r e.message demotion kept) (amended : Amends run kept again) :
      Fate run name kept ⟨work, records ++ demotion ++ again⟩

/-- Each of the results met its fate. -/
def Fates (run : RunId) : List StepResult → List Stretch → Prop :=
  List.Forall₂ fun r s => Fate run r.step r s

theorem Skips.fates {run : RunId} {steps : List Step} {ss : List Stretch}
    (h : Skips run steps ss) : Fates run (skippedResults steps) ss := by
  induction h with
  | nil => exact .nil
  | cons _ _ ih => exact .cons (.skipped _) ih

theorem StepCourse.fate {c : Config} {run : RunId} {ctx : RunContext} {step : Step}
    {work records : RunTrace} {r : StepResult} {abort : Option AbortReason}
    (h : StepCourse c run ctx step work r abort)
    (recorded : Yields (record run r) records (.ok ())) :
    Fate run r.step r ⟨work, records⟩ := by
  rcases h.result with ⟨carriedOut, -⟩ | ⟨rfl, -⟩
  · exact .recorded (carriedOut.step_eq ▸ carriedOut) recorded
  · exact .skipped _

theorem Course.fates {c : Config} {run : RunId} {ctx : RunContext} {steps : List Step}
    {ss : List Stretch} {rs : List StepResult} {abort : Option AbortReason}
    (h : Course c run ctx steps ss rs abort) : Fates run rs ss := by
  induction h with
  | ended => exact .nil
  | goesOn attempted recorded _ ih => exact .cons ((yields_attempt attempted).fate recorded) ih
  | aborted attempted recorded skipped =>
    exact .cons ((yields_attempt attempted).fate recorded) skipped.fates
  | unrecorded attempted failed demoted amended skipped =>
    have course := yields_attempt attempted
    rcases course.result with ⟨carriedOut, -⟩ | ⟨rfl, -⟩
    · have name := demoted.step_eq.trans carriedOut.step_eq
      exact .cons (.unrecorded (name ▸ carriedOut) (demoted.timed course.timed) failed demoted
        amended) skipped.fates
    · rw [demoted.skipped]
      exact .cons (.skipped _) skipped.fates

theorem RunCourse.fates {c : Config} {w : Workflow} {run : RunId} {params : Fields Json}
    {start : RunTrace} {ss : List Stretch} {rs : List StepResult} {abort : Option AbortReason}
    (h : RunCourse c w run params start ss rs abort) : Fates run rs ss := by
  cases h with
  | unstarted =>
    -- nothing was tried for any of them
    rw [Fates, skippedResults, List.forall₂_map_left_iff, List.forall₂_map_right_iff,
      List.forall₂_same]
    exact fun step _ => .skipped _
  | started _ course => exact course.fates

/-- What holds of all results and their stretches holds of the turns. -/
theorem Turns.forall₂ {run : RunId} {steps : List Step} {rs : List StepResult} {ss : List Stretch}
    {ps : List Turn} (h : Turns run steps rs ss ps) {R : StepResult → Stretch → Prop}
    (all : List.Forall₂ R rs ss) : ∀ p ∈ ps, R p.result p.toStretch := by
  rw [← h.results_eq, ← h.stretches_eq, List.forall₂_map_left_iff, List.forall₂_map_right_iff,
    List.forall₂_same] at all
  exact all

theorem Turns.fate {run : RunId} {steps : List Step} {rs : List StepResult} {ss : List Stretch}
    {ps : List Turn} (h : Turns run steps rs ss ps) (fates : Fates run rs ss) :
    ∀ p ∈ ps, Fate run p.result.step p.result p.toStretch :=
  h.forall₂ fates

/-! ## 4. What is told of a step -/

/-- The text of the result can be read. -/
def Readable (r : StepResult) : Prop :=
  ∃ x, (Json.parse? r.encode.compress).map StepResult.decode = some (.ok x)

/-- The results of a step that can be read from what the exchanges have stored. -/
def readingsOf (run : RunId) (name : String) (t : RunTrace) : List StepResult :=
  (readings (t.entriesOf run)).filter (·.step = name)

section

variable {run : RunId} {name : String}

theorem readingsOf_nil : readingsOf run name [] = [] := rfl

theorem readingsOf_append (t u : RunTrace) :
    readingsOf run name (t ++ u) = readingsOf run name t ++ readingsOf run name u := by
  rw [readingsOf, entriesOf_append, readings, List.filterMap_append, List.filter_append]
  rfl

theorem readingsOf_unstored {x : RunExchange} (h : x.stored? = none) (t : RunTrace) :
    readingsOf run name (x :: t) = readingsOf run name t := by
  rw [readingsOf, entriesOf_cons_none h]
  rfl

theorem readingsOf_result {r : StepResult} (h : r.step = name) (i : Nat) (t : RunTrace) :
    readingsOf run name (.appended (resultSlice run r) i :: t) =
      (resultSlice run r).entry.result?.toList ++ readingsOf run name t := by
  rw [readingsOf, entriesOf_cons_stored (RunExchange.stored?_appended _ i),
    if_pos (show (resultSlice run r).run = run from rfl), readings, List.filterMap_append,
    List.filter_append]
  refine congrArg (· ++ readingsOf run name t) ?_
  cases hx : (resultSlice run r).entry.result? with
  | none => simp [hx]
  | some x =>
    have same := StepResult.of_parse?_encode (result?_resultSlice.mp hx)
    simp [hx, same.1, h]

theorem readingsOf_detail {d : NewSlice} (h : d.classification ≠ .stepResult) (i : Nat)
    (t : RunTrace) : readingsOf run name (.appended d i :: t) = readingsOf run name t := by
  have unread : d.entry.result? = none := if_neg h
  rw [readingsOf, entriesOf_cons_stored (RunExchange.stored?_appended d i), readings,
    List.filterMap_append, List.filter_append]
  split <;> simp [unread, readingsOf, readings]

theorem readingsOf_eq_nil {t : RunTrace}
    (h : ∀ s ∈ stored t, ∀ x, s.entry.result? = some x → x.step ≠ name) :
    readingsOf run name t = [] := by
  refine List.filter_eq_nil_iff.mpr fun x hx => ?_
  obtain ⟨e, he, hr⟩ := List.mem_filterMap.mp hx
  obtain ⟨s, hs, -, rfl⟩ := mem_entriesOf.mp he
  simpa using h s hs x hr

end

/-- Of the slices of a step, only its result can be read as one. -/
theorem step_of_result {run : RunId} {r x : StepResult} {s : NewSlice} (hs : s ∈ stepSlices run r)
    (h : s.entry.result? = some x) : x.step = r.step := by
  have result : s.classification = .stepResult := Entry.classification_of_result h
  rcases mem_stepSlices hs with rfl | ⟨-, o, -, rfl⟩ | ⟨-, f, -, rfl⟩
  · exact (StepResult.of_parse?_encode (result?_resultSlice.mp h)).1
  · cases result
  · cases result

/-- What is told of a step is what was recorded in its turn. -/
theorem Turns.readingsOf_eq {w : Workflow} {run : RunId} {params : Fields Json}
    {rs : List StepResult} {ss : List Stretch} {ps : List Turn} {start finish : RunTrace}
    (h : Turns run w.steps rs ss ps) (names : w.stepNames.Nodup)
    (hstart : ∀ x ∈ start, StartOf w run params x) (hfinish : ∀ x ∈ finish, x.question = .time)
    {p : Turn} (hp : p ∈ ps) :
    readingsOf run p.step.name (start ++ Stretch.traces ss ++ finish) =
      readingsOf run p.step.name p.records := by
  obtain ⟨front, back, hps⟩ := List.append_of_mem hp
  have others := h.apart names hps
  have silent : ∀ qs : List Turn, (∀ q ∈ qs, q ∈ front ++ back) →
      readingsOf run p.step.name (Stretch.traces (qs.map (·.toStretch))) = [] := by
    intro qs hqs
    refine readingsOf_eq_nil fun s hs x hx => ?_
    obtain ⟨q, hq, hs⟩ := mem_stored_traces hs
    have own := h.own q (by
      have := hqs q hq
      rw [hps]
      simp only [List.mem_append, List.mem_cons] at this ⊢
      exact this.imp_right .inr)
    obtain ⟨r, step, hs⟩ := own.mem_stored hs
    rw [step_of_result hs hx, step]
    exact others q (hqs q hq)
  have none_start : readingsOf run p.step.name start = [] := by
    refine readingsOf_eq_nil fun s hs x hx => ?_
    have result := Entry.classification_of_result hx
    rcases (mem_startSlices (StartOf.stored hstart hs)).2 with other | other <;>
      exact absurd (result.symm.trans other) (by simp)
  have none_finish : readingsOf run p.step.name finish = [] := by
    refine readingsOf_eq_nil fun s hs => ?_
    obtain ⟨id, hx⟩ := mem_stored hs
    cases hfinish _ hx
  have none_work : readingsOf run p.step.name p.work = [] := by
    refine readingsOf_eq_nil fun s hs => ?_
    rw [stored_work (h.own p hp) (List.append_nil _).symm] at hs
    cases hs
  rw [← h.stretches_eq, hps, List.map_append, List.map_cons, Stretch.traces, List.flatMap_append,
    ← Stretch.traces, ← Stretch.traces, Stretch.traces_cons, readingsOf_append, readingsOf_append,
    readingsOf_append, readingsOf_append, readingsOf_append, none_start, none_finish, none_work,
    silent front fun q hq => List.mem_append_left _ hq,
    silent back fun q hq => List.mem_append_right _ hq]
  simp

/-! ## 5. Torn records -/

/-- The record of a success was torn, and the failure that the success was turned into could not be
recorded either. -/
inductive LeftTorn (run : RunId) (kept : StepResult) (t : RunTrace) : Prop where
  | intro {r : StepResult} {o : ToolOutput} {e e' : StoreError} (i : Nat)
      (step : r.step = kept.step) (status : r.status = .success) (output : r.output = some o)
      (readable : Readable r) (stored : .appended (resultSlice run r) i ∈ t)
      (torn : .refused (outputSlice run r o) e ∈ t)
      (unamended : .refused (resultSlice run kept) e' ∈ t)

theorem LeftTorn.mono {run : RunId} {kept : StepResult} {t u : RunTrace}
    (h : LeftTorn run kept t) (sub : ∀ x ∈ t, x ∈ u) : LeftTorn run kept u := by
  cases h with
  | intro i step status output readable stored torn unamended =>
    exact .intro i step status output readable (sub _ stored) (sub _ torn) (sub _ unamended)

/-- The slices of results with different statuses differ. -/
theorem status_of_resultSlice {run : RunId} {r r' : StepResult}
    (h : resultSlice run r = resultSlice run r') : r.status = r'.status := by
  have metadata : [("status", Json.str r.status.display)] = [("status", .str r'.status.display)] :=
    congrArg NewSlice.metadata h
  simp only [List.cons.injEq, Prod.mk.injEq, Json.str.injEq, true_and, and_true] at metadata
  have back := Status.decode_display r.status
  rw [metadata, Status.decode_display] at back
  exact (Except.ok.inj back).symm

/-- Every time that the clock has told has a date. -/
def DatedClock (t : RunTrace) : Prop := ∀ i, ⟨.time, i⟩ ∈ t → i.Dated

theorem readingsOf_demotion {run : RunId} {name message : String} {r kept : StepResult}
    {t : RunTrace} (h : Demoted r message t kept) : readingsOf run name t = [] := by
  refine readingsOf_eq_nil fun s hs => ?_
  obtain ⟨id, hx⟩ := mem_stored hs
  cases h with
  | success _ _ _ times =>
    obtain ⟨i, hi⟩ := times _ hx
    cases hi
  | other => cases hx

/-- What two appends tell of the step: the result, unless it was refused. -/
theorem TwoAppends.readings {run : RunId} {r : StepResult} {d : NewSlice} {t : RunTrace}
    {x : Except StoreError Unit} (h : TwoAppends (resultSlice run r) d t x)
    (hd : d.classification ≠ .stepResult) :
    (∃ e, t = [.refused (resultSlice run r) e] ∧ readingsOf run r.step t = []) ∨
      readingsOf run r.step t = (resultSlice run r).entry.result?.toList := by
  cases h with
  | stored i j =>
    right
    rw [readingsOf_result rfl, readingsOf_detail hd]
    exact List.append_nil _
  | refused e => exact .inl ⟨e, rfl, rfl⟩
  | torn i e =>
    right
    rw [readingsOf_result rfl, readingsOf_unstored rfl]
    exact List.append_nil _

/-- A result that was refused was the first slice, and the last one. -/
theorem TwoAppends.of_refused {s d s' : NewSlice} {t : RunTrace} {x : Except StoreError Unit}
    {e : StoreError} (h : TwoAppends s d t x) (hd : d.classification ≠ .stepResult)
    (hs : s'.classification = .stepResult) (hm : .refused s' e ∈ t) :
    s' = s ∧ t = [.refused s e] := by
  cases h with
  | stored i j =>
    rcases List.mem_cons.mp hm with hm | hm
    · cases hm
    · cases List.mem_singleton.mp hm
  | refused e =>
    cases List.mem_singleton.mp hm
    exact ⟨rfl, rfl⟩
  | torn i e =>
    rcases List.mem_cons.mp hm with hm | hm
    · cases hm
    · cases List.mem_singleton.mp hm
      exact absurd hs hd

/-- A result that was stored was the first slice. -/
theorem TwoAppends.of_appended {s d s' : NewSlice} {t : RunTrace} {x : Except StoreError Unit}
    {i : Nat} (h : TwoAppends s d t x) (hd : d.classification ≠ .stepResult)
    (hs : s'.classification = .stepResult) (hm : .appended s' i ∈ t) :
    s' = s ∧ ∀ e, t ≠ [.refused s e] := by
  cases h with
  | stored i j =>
    rcases List.mem_cons.mp hm with hm | hm
    · cases hm
      exact ⟨rfl, fun _ heq => by cases heq⟩
    · cases List.mem_singleton.mp hm
      exact absurd hs hd
  | refused e => cases List.mem_singleton.mp hm
  | torn i e =>
    rcases List.mem_cons.mp hm with hm | hm
    · cases hm
      exact ⟨rfl, fun _ heq => by cases heq⟩
    · cases List.mem_singleton.mp hm

theorem CarriedOut.eq_failed {name : String} {r : StepResult} (h : CarriedOut name r)
    (failed : r.status = .failed) : ∃ f t₀ t₁, r = StepResult.failed name f t₀ t₁ := by
  cases h with
  | success => cases failed
  | failed f t₀ t₁ => exact ⟨f, t₀, t₁, rfl⟩

/-- A failure at dated times is told as it was. -/
theorem told_failed (run : RunId) {name : String} {r : StepResult} {t : RunTrace}
    (h : CarriedOut name r) (failed : r.status = .failed) (timed : Timed r t)
    (clock : DatedClock t) : (resultSlice run r).entry.result? = some r := by
  obtain ⟨f, t₀, t₁, rfl⟩ := h.eq_failed failed
  exact result?_resultSlice.mpr (StepResult.parse?_encode_failed (clock _ (timed t₀ (.inl rfl)))
    (clock _ (timed t₁ (.inr rfl))))

/-- The last thing that is told of the step is a success. -/
def ToldSuccess (run : RunId) (name : String) (t : RunTrace) : Prop :=
  ∃ x, (readingsOf run name t).getLast? = some x ∧ x.status = .success

/-- A result that is told last is told with its status. -/
theorem status_of_last {run : RunId} {r x : StepResult}
    (h : (resultSlice run r).entry.result?.toList.getLast? = some x) :
    (resultSlice run r).entry.result? = some x ∧ x.status = r.status := by
  cases hr : (resultSlice run r).entry.result? with
  | none =>
    rw [hr] at h
    cases h
  | some y =>
    rw [hr] at h
    cases h
    exact ⟨rfl, (StepResult.of_parse?_encode (result?_resultSlice.mp hr)).2⟩

theorem Demoted.not_append {r kept : StepResult} {message : String} {t : RunTrace}
    (h : Demoted r message t kept) {s : NewSlice} {x : Except StoreError Nat} :
    (⟨.store (.append s), x⟩ : RunExchange) ∉ t := by
  intro hm
  cases h with
  | success _ _ _ times =>
    obtain ⟨i, hi⟩ := times _ hm
    cases hi
  | other => cases hm

/-! ### A record that failed, and another one of the failure -/

section

variable {run : RunId} {r kept : StepResult} {d d' : NewSlice} {x : Except StoreError Unit}
  {records demotion again : RunTrace} {e : StoreError} {message : String}

theorem readingsOf_unrecorded (demoted : Demoted r message demotion kept) :
    readingsOf run kept.step (records ++ demotion ++ again) =
      readingsOf run r.step records ++ readingsOf run kept.step again := by
  rw [readingsOf_append, readingsOf_append, readingsOf_demotion demoted, List.append_nil,
    demoted.step_eq]

/-- Between the two records nothing is appended. -/
theorem Demoted.append_apart (demoted : Demoted r message demotion kept) {s : NewSlice}
    {a : Except StoreError Nat} (hm : ⟨.store (.append s), a⟩ ∈ records ++ demotion ++ again) :
    ⟨.store (.append s), a⟩ ∈ records ∨ ⟨.store (.append s), a⟩ ∈ again := by
  rcases List.mem_append.mp hm with hm | hm
  · rcases List.mem_append.mp hm with hm | hm
    · exact .inl hm
    · exact absurd hm demoted.not_append
  · exact .inr hm

variable (slices : Slices run r d) (slices' : Slices run kept d')
  (first : TwoAppends (resultSlice run r) d records (.error e))
  (demoted : Demoted r message demotion kept)
  (second : TwoAppends (resultSlice run kept) d' again x) (failed : kept.status = .failed)
include slices slices' first demoted second failed

/-- If the failure is told as it was, a success can be told last only for want of it. -/
theorem leftTorn_of_toldSuccess (told_kept : (resultSlice run kept).entry.result? = some kept)
    (told : ToldSuccess run kept.step (records ++ demotion ++ again)) :
    LeftTorn run kept (records ++ demotion ++ again) := by
  obtain ⟨y, last, success⟩ := told
  rw [readingsOf_unrecorded demoted] at last
  rcases second.readings slices'.not_result with ⟨e', rfl, none⟩ | told
  · rw [none, List.append_nil] at last
    cases first with
    | refused => cases last
    | torn i e =>
      rw [readingsOf_result rfl, readingsOf_unstored rfl, readingsOf_nil, List.append_nil] at last
      obtain ⟨told, status⟩ := status_of_last last
      rw [success] at status
      have torn : RunExchange.refused d e ∈ [.appended (resultSlice run r) i, .refused d e] :=
        List.mem_cons_of_mem _ (List.mem_singleton.mpr rfl)
      cases slices with
      | success _ output =>
        exact .intro i demoted.step_eq.symm status.symm output
          ⟨y, result?_resultSlice.mp told⟩ (by simp)
          (List.mem_append_left _ (List.mem_append_left _ torn))
          (List.mem_append_right _ (List.mem_singleton.mpr rfl))
      | failed status' => exact absurd (status.trans status') (by simp)
  · -- the failure is told last
    rw [told, told_kept] at last
    rw [Option.toList_some, List.getLast?_concat] at last
    cases last
    rw [failed] at success
    cases success

theorem toldSuccess_of_leftTorn (left : LeftTorn run kept (records ++ demotion ++ again)) :
    ToldSuccess run kept.step (records ++ demotion ++ again) := by
  obtain @⟨r₀, _, _, _, i, -, status, -, ⟨y, readable⟩, stored, -, unamended⟩ := left
  -- the success was recorded at first, since the second record was of a failure
  have first_stored : resultSlice run r₀ = resultSlice run r ∧
      ∀ e, records ≠ [.refused (resultSlice run r) e] := by
    rcases demoted.append_apart stored with stored | stored
    · exact first.of_appended slices.not_result rfl stored
    · have other := (second.of_appended slices'.not_result rfl stored).1
      exact absurd (status.symm.trans (status_of_resultSlice other)) (by simp [failed])
  obtain ⟨here, accepted⟩ := first_stored
  have second_refused : ∃ e, again = [.refused (resultSlice run kept) e] := by
    rcases demoted.append_apart unamended with refused | refused
    · have first_refused := first.of_refused slices.not_result rfl refused
      exact absurd first_refused.2 (accepted _)
    · exact ⟨_, (second.of_refused slices'.not_result rfl refused).2⟩
  obtain ⟨e', rfl⟩ := second_refused
  have told : (resultSlice run r₀).entry.result? = some y := result?_resultSlice.mpr readable
  refine ⟨y, ?_, (StepResult.of_parse?_encode readable).2.trans status⟩
  rw [readingsOf_unrecorded demoted, readingsOf_unstored rfl, readingsOf_nil, List.append_nil]
  rcases first.readings slices.not_result with ⟨e, refused, -⟩ | told_first
  · exact absurd refused (accepted e)
  · rw [told_first, ← here, told]
    rfl

end

/-- **A step that failed is told as a success exactly if its record was left torn.** -/
theorem Fate.toldSuccess_iff {run : RunId} {kept : StepResult} {s : Stretch}
    (h : Fate run kept.step kept s) (failed : kept.status = .failed) (clock : DatedClock s.trace) :
    ToldSuccess run kept.step s.records ↔ LeftTorn run kept s.records := by
  generalize hname : kept.step = name at h
  cases h with
  | skipped => cases failed
  | recorded carriedOut recorded =>
    -- the failure is in the store, and nothing was refused
    obtain ⟨d, slices, two⟩ := carriedOut.record recorded
    constructor
    · rintro ⟨x, last, success⟩
      rcases two.readings slices.not_result with ⟨e, -, none⟩ | told
      · rw [← hname, none] at last
        cases last
      · rw [← hname, told] at last
        rw [(status_of_last last).2, failed] at success
        cases success
    · rintro ⟨i, -, -, -, -, -, -, unamended⟩
      obtain ⟨-, rfl⟩ := two.of_refused slices.not_result rfl unamended
      cases two
  | @unrecorded work records demotion again r kept e carriedOut timed notRecorded demoted amended =>
    obtain ⟨d, slices, first⟩ := carriedOut.record notRecorded
    have keptOut := demoted.carriedOut carriedOut
    have told_kept := told_failed run keptOut failed timed fun i hi => clock i (by
      simpa [Stretch.trace] using (List.mem_append.mp hi).imp_right fun h => .inr (.inl h))
    cases amended with
    | tried _ tried =>
      obtain ⟨d', slices', second⟩ := keptOut.record tried
      subst hname
      exact ⟨leftTorn_of_toldSuccess slices slices' first demoted second failed told_kept,
        toldSuccess_of_leftTorn slices slices' first demoted second failed⟩
    | none other => exact absurd failed other

/-! ## 6. The turn of a step -/

/-- A record of a step stands in the turn of the step. -/
theorem Turns.mem_records {w : Workflow} {run : RunId} {params : Fields Json}
    {rs : List StepResult} {ss : List Stretch} {ps : List Turn} {start finish : RunTrace}
    (h : Turns run w.steps rs ss ps) (names : w.stepNames.Nodup)
    (hstart : ∀ x ∈ start, StartOf w run params x) (hfinish : ∀ x ∈ finish, x.question = .time)
    {p : Turn} (hp : p ∈ ps) {s : NewSlice} {a : Except StoreError Nat}
    (hx : ⟨.store (.append s), a⟩ ∈ start ++ Stretch.traces ss ++ finish)
    (step : s.step = p.step.name)
    (opening : s.classification ≠ .userPrompt ∧ s.classification ≠ .parameters) :
    ⟨.store (.append s), a⟩ ∈ p.records := by
  rcases List.mem_append.mp hx with hx | hx
  · rcases List.mem_append.mp hx with hx | hx
    · rcases hstart _ hx with other | ⟨s', hs', same⟩
      · cases other
      · cases same
        rcases (mem_startSlices hs').2 with other | other
        · exact absurd other opening.1
        · exact absurd other opening.2
    · obtain ⟨q, hq, hx⟩ := h.mem_traces hx
      rcases hx with hx | hx
      · cases (h.own q hq).work _ hx with
        | read h => cases h
      · have here : q = p := by
          cases (h.own q hq).records _ hx with
          | append name slice =>
            refine h.eq_of_name names hp hq ?_
            rw [← name, ← (run_of_mem_stepSlices slice).2.1, step]
        exact here ▸ hx
  · cases hfinish _ hx

theorem Turns.leftTorn_iff {w : Workflow} {run : RunId} {params : Fields Json}
    {rs : List StepResult} {ss : List Stretch} {ps : List Turn} {start finish : RunTrace}
    (h : Turns run w.steps rs ss ps) (names : w.stepNames.Nodup)
    (hstart : ∀ x ∈ start, StartOf w run params x) (hfinish : ∀ x ∈ finish, x.question = .time)
    {p : Turn} (hp : p ∈ ps) :
    LeftTorn run p.result (start ++ Stretch.traces ss ++ finish) ↔
      LeftTorn run p.result p.records := by
  have named := (h.own p hp).named
  constructor
  · intro left
    cases left with
    | intro i step status output readable stored torn unamended =>
      have name := step.trans named
      have result : Classification.stepResult ≠ .userPrompt ∧
          Classification.stepResult ≠ .parameters := by simp
      have detail : Classification.output ≠ .userPrompt ∧
          Classification.output ≠ .parameters := by simp
      exact .intro i step status output readable
        (h.mem_records names hstart hfinish hp stored name result)
        (h.mem_records names hstart hfinish hp torn name detail)
        (h.mem_records names hstart hfinish hp unamended named result)
  · intro left
    refine left.mono fun x hx => ?_
    have whole := h.mem_traces_of_mem hp (List.mem_append_right _ hx)
    exact List.mem_append_left _ (List.mem_append_right _ whole)

end Execution
end Runbook
