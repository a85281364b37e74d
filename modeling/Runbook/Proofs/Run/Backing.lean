import Runbook.Proofs.Run.Fate
import Runbook.Proofs.Run.Working

/-!
# What stands in front of an output

An output is a copy of what the result in front of it says, and so is an error. This holds of the
log of a run at any time and whatever the store refuses: the two slices of a record are appended in
order, so the second one never stands without the first, and a record that is written again begins
with its result again.

`Backed` says so of a list of entries. It is kept when the list is cut off anywhere and when another
one is put behind, so it is enough to look at one record.
-/

set_option autoImplicit false

namespace Runbook

open Dialogue RunDialogue Memory RunTrace

namespace Memory

/-! ## 1. Entries that stand behind their results -/

/-- The first entry records a result, and the second one has its output or its error. -/
inductive Backs : Entry → Entry → Prop where
  | output {r : StepResult} {text : String} (status : r.status = .success)
      (output : r.outputText? = some text) :
      Backs ⟨r.step, .stepResult, r.encode.compress⟩ ⟨r.step, .output, text⟩
  | error {r : StepResult} {f : Failure} (status : r.status = .failed) (error : r.error = some f)
      (told : (Json.parse? r.encode.compress).map StepResult.decode = some (.ok r)) :
      Backs ⟨r.step, .stepResult, r.encode.compress⟩ ⟨r.step, .error, f.message⟩

/-- The entry is an output or an error. -/
def Entry.Detail (e : Entry) : Prop := e.classification = .output ∨ e.classification = .error

/-- Each output and each error stands directly behind its result. -/
def Backed (es : List Entry) : Prop :=
  ∀ front e back, es = front ++ e :: back → e.Detail → ∃ before p, front = before ++ [p] ∧ Backs p e

theorem backed_of_silent {es : List Entry} (h : ∀ e ∈ es, ¬ e.Detail) : Backed es := by
  rintro front e back rfl detail
  exact absurd detail (h e (by simp))

theorem backed_nil : Backed [] := backed_of_silent (by simp)

theorem Backed.append {es fs : List Entry} (hes : Backed es) (hfs : Backed fs) :
    Backed (es ++ fs) := by
  intro front e back split detail
  rcases List.append_eq_append_iff.mp split with ⟨mid, rfl, hmid⟩ | ⟨mid, rfl, hmid⟩
  · -- the entry is in the second list, and so is the one in front of it
    obtain ⟨before, p, rfl, backs⟩ := hfs mid e back hmid detail
    exact ⟨es ++ before, p, (List.append_assoc ..).symm, backs⟩
  · cases mid with
    | nil =>
      obtain ⟨before, p, nothing, -⟩ := hfs [] e back hmid.symm detail
      simp at nothing
    | cons x mid =>
      obtain ⟨rfl, rfl⟩ := List.cons.inj hmid
      exact hes front e mid rfl detail

theorem Backed.cut {es fs : List Entry} (h : Backed (es ++ fs)) : Backed es := by
  rintro front e back rfl detail
  exact h front e (back ++ fs) (by simp) detail

theorem backed_pair {p e : Entry} (hp : ¬ p.Detail) (h : Backs p e) : Backed [p, e] := by
  intro front x back split detail
  cases front with
  | nil =>
    obtain ⟨rfl, -⟩ := List.cons.inj split
    exact absurd detail hp
  | cons a front =>
    obtain ⟨rfl, later⟩ := List.cons.inj split
    cases front with
    | nil =>
      obtain ⟨rfl, -⟩ := List.cons.inj later
      exact ⟨[], p, rfl, h⟩
    | cons b front =>
      obtain ⟨-, none⟩ := List.cons.inj later
      simp at none

end Memory

namespace Execution

/-! ## 2. One record -/

theorem not_detail_result (run : RunId) (r : StepResult) : ¬ (resultSlice run r).entry.Detail := by
  rintro (h | h) <;> cases h

/-- The slices of a step that was carried out, or skipped, stand in order. -/
theorem CarriedOut.backed {name : String} {run : RunId} {r : StepResult} {t : RunTrace}
    (h : CarriedOut name r) (timed : Timed r t) (clock : DatedClock t) :
    Backed ((stepSlices run r).map NewSlice.entry) := by
  have hr := not_detail_result run r
  cases h with
  | success o t₀ t₁ => exact backed_pair hr (.output rfl rfl)
  | failed f t₀ t₁ =>
    refine backed_pair hr (.error (r := StepResult.failed name f t₀ t₁) rfl rfl ?_)
    exact StepResult.parse?_encode_failed (clock t₀ (timed t₀ (.inl rfl)))
      (clock t₁ (timed t₁ (.inr rfl)))

theorem backed_skipped (name : String) (run : RunId) :
    Backed ((stepSlices run (StepResult.skipped name)).map NewSlice.entry) := by
  refine backed_of_silent fun e he => ?_
  rw [List.mem_singleton.mp he]
  exact not_detail_result run _

/-- What was stored of a record is a front part of its slices. -/
theorem stored_appendAll {slices : List NewSlice} {t : RunTrace} {x : Except StoreError Unit}
    (h : Yields (ofStore (appendAll slices)) t x) : ∃ rest, slices = stored t ++ rest := by
  rcases yields_appendAll h with ⟨-, all⟩ | ⟨front, s, back, u, e, rfl, hu, rfl, -⟩
  · exact ⟨[], by rw [all.stored, List.append_nil]⟩
  · refine ⟨s :: back, ?_⟩
    rw [stored_append, hu.stored, stored_eq_nil (by simp), List.append_nil]

theorem backed_of_stored {run : RunId} {t : RunTrace} {slices rest : List NewSlice}
    (own : ∀ s ∈ slices, s.run = run) (h : Backed (slices.map NewSlice.entry))
    (split : slices = stored t ++ rest) : Backed (t.entriesOf run) := by
  subst split
  rw [List.map_append] at h
  have here : (stored t).filter (·.run == run) = stored t :=
    List.filter_eq_self.mpr fun s hs => beq_iff_eq.mpr (own s (List.mem_append_left _ hs))
  rw [entriesOf, here]
  exact h.cut

theorem backed_record {run : RunId} {r : StepResult} {t : RunTrace} {x : Except StoreError Unit}
    (h : Yields (record run r) t x) (backed : Backed ((stepSlices run r).map NewSlice.entry)) :
    Backed (t.entriesOf run) := by
  obtain ⟨rest, split⟩ := stored_appendAll h
  exact backed_of_stored (fun s hs => (run_of_mem_stepSlices hs).1) backed split

/-! ## 3. The run -/

theorem DatedClock.append {t u : RunTrace} (ht : DatedClock t) (hu : DatedClock u) :
    DatedClock (t ++ u) :=
  fun i hi => (List.mem_append.mp hi).elim (ht i) (hu i)

theorem DatedClock.left {t u : RunTrace} (h : DatedClock (t ++ u)) : DatedClock t :=
  fun i hi => h i (List.mem_append_left _ hi)

theorem DatedClock.right {t u : RunTrace} (h : DatedClock (t ++ u)) : DatedClock u :=
  fun i hi => h i (List.mem_append_right _ hi)

theorem entriesOf_stored_nil (run : RunId) {t : RunTrace} (h : stored t = []) :
    t.entriesOf run = [] := by
  rw [entriesOf, h]
  rfl

theorem Demoted.stored_eq_nil {r kept : StepResult} {message : String} {t : RunTrace}
    (h : Demoted r message t kept) : stored t = [] := by
  refine RunTrace.stored_eq_nil fun x hx => ?_
  cases hs : x.stored? with
  | none => rfl
  | some s =>
    obtain ⟨id, rfl⟩ := RunExchange.stored?_eq_some hs
    exact absurd hx h.not_append

theorem Skips.backed {run : RunId} {steps : List Step} {ss : List Stretch}
    (h : Skips run steps ss) : Backed ((Stretch.traces ss).entriesOf run) := by
  induction h with
  | nil => exact backed_nil
  | @cons step _ _ _ _ tried _ ih =>
    rw [Stretch.traces_cons, List.nil_append, entriesOf_append]
    exact (backed_record tried (backed_skipped step.name run)).append ih

/-- The result of a step stands in front of what it says, whether it was carried out or skipped. -/
theorem StepCourse.backed {c : Config} {run : RunId} {ctx : RunContext} {step : Step}
    {t : RunTrace} {r : StepResult} {abort : Option AbortReason}
    (h : StepCourse c run ctx step t r abort) (clock : DatedClock t) :
    Backed ((stepSlices run r).map NewSlice.entry) := by
  rcases h.result with ⟨carriedOut, -⟩ | ⟨rfl, -⟩
  · exact carriedOut.backed h.timed clock
  · exact backed_skipped step.name run

theorem Course.backed {c : Config} {run : RunId} {ctx : RunContext} {steps : List Step}
    {ss : List Stretch} {rs : List StepResult} {abort : Option AbortReason}
    (h : Course c run ctx steps ss rs abort) (clock : DatedClock (Stretch.traces ss)) :
    Backed ((Stretch.traces ss).entriesOf run) := by
  induction h with
  | ended => exact backed_nil
  | goesOn attempted recorded _ ih =>
    rw [Stretch.traces_cons] at clock
    have silent := entriesOf_stored_nil run (stored_attempt attempted)
    rw [Stretch.traces_cons, entriesOf_append, entriesOf_append, silent, List.nil_append]
    have own := (yields_attempt attempted).backed clock.left.left
    exact (backed_record recorded own).append (ih clock.right)
  | aborted attempted recorded skipped =>
    rw [Stretch.traces_cons] at clock
    have silent := entriesOf_stored_nil run (stored_attempt attempted)
    rw [Stretch.traces_cons, entriesOf_append, entriesOf_append, silent, List.nil_append]
    have own := (yields_attempt attempted).backed clock.left.left
    exact (backed_record recorded own).append skipped.backed
  | @unrecorded _ _ _ work records demotion again r kept _ _ e attempted failed demoted amended
      skipped =>
    rw [Stretch.traces_cons] at clock
    have course := yields_attempt attempted
    have silent := entriesOf_stored_nil run (stored_attempt attempted)
    have between := entriesOf_stored_nil run demoted.stored_eq_nil
    rw [Stretch.traces_cons, entriesOf_append, entriesOf_append, entriesOf_append,
      entriesOf_append, silent, between, List.nil_append, List.append_nil]
    have first := backed_record failed (course.backed clock.left.left)
    -- a failure that is recorded again was carried out, at times that the clock has told
    have second : Backed (again.entriesOf run) := by
      cases amended with
      | none => exact backed_nil
      | tried status tried =>
        refine backed_record tried ?_
        rcases course.result with ⟨carriedOut, -⟩ | ⟨rfl, -⟩
        · have timed := demoted.timed course.timed
          refine (demoted.carriedOut carriedOut).backed timed fun i hi => clock i ?_
          rcases List.mem_append.mp hi with hi | hi
          · simp [hi]
          · simp [hi]
        · rw [demoted.skipped] at status
          cases status
    exact (first.append second).append skipped.backed

theorem RunCourse.backed {c : Config} {w : Workflow} {run : RunId} {params : Fields Json}
    {start : RunTrace} {ss : List Stretch} {rs : List StepResult} {abort : Option AbortReason}
    (h : RunCourse c w run params start ss rs abort) (clock : DatedClock (Stretch.traces ss)) :
    Backed ((Stretch.traces ss).entriesOf run) := by
  cases h with
  | unstarted =>
    have silent : Stretch.traces (w.steps.map fun _ => ({} : Stretch)) = [] := by
      simp [Stretch.traces, Stretch.trace]
    rw [silent]
    exact backed_nil
  | started _ course => exact course.backed clock

/-- **In the log of a run each output and each error stands behind its result**, whatever the store
refused. -/
theorem backed_of_yields {c : Config} {w : Workflow} {run : RunId} {params : Fields Json}
    {t : RunTrace} {rec : RunRecord} (h : Yields (execute c w run params) t rec)
    (clock : DatedClock t) : Backed (t.entriesOf run) := by
  obtain ⟨t₀, t₁, start, ss, abort, rfl, course, -⟩ := yields_execute h
  have opening : Backed (RunTrace.entriesOf run (⟨.time, t₀⟩ :: start)) := by
    refine backed_of_silent fun e he => ?_
    obtain ⟨s, hs, -, rfl⟩ := mem_entriesOf.mp he
    rcases (mem_startSlices (StartOf.stored (course.startOf_timed t₀) hs)).2 with other | other
    · rintro (detail | detail) <;> cases other.symm.trans detail
    · rintro (detail | detail) <;> cases other.symm.trans detail
  have finish : RunTrace.entriesOf run [⟨.time, t₁⟩] = [] := rfl
  rw [runTrace] at clock ⊢
  rw [entriesOf_append, entriesOf_append, finish, List.append_nil]
  exact opening.append (course.backed clock.left.right)

end Execution
end Runbook
