import Mathlib.Data.List.Induction
import Mathlib.Data.List.Nodup
import Runbook.Proofs.Memory.Readback

/-!
# One result for each step

A step may be recorded any number of times, and a record may be one that cannot be read. What a
history tells is one result for each step of which some record can be read: the last of them, in the
place of the first. Everything else in the history might as well not be there.

`Summary history rs` says this of a list of results, slice by slice and without the scan that makes
the list. It is kept by one more slice (`Summary.silent`, `Summary.record`), so it holds of every
history; and no two lists are summaries of one history (`Summary.unique`).
-/

set_option autoImplicit false

namespace Runbook

open Memory

variable {history : List Slice} {rs rs' : List StepResult} {r r' x y : StepResult} {s : Slice}
  {i j : Nat}

/-! ## 1. Records -/

/-- The slice is a record, and this result is read from its text. -/
def Slice.Tells (s : Slice) (r : StepResult) : Prop :=
  s.classification = .stepResult ∧
    (Json.parse? s.content).map StepResult.decode = some (.ok r)

theorem Slice.tells_iff : s.Tells r ↔ recordedResult? s = some r := by
  unfold Tells recordedResult?
  constructor
  · rintro ⟨record, read⟩
    rw [if_pos record, read]
  · intro recorded
    split at recorded
    · next record =>
      refine ⟨record, ?_⟩
      split at recorded
      · next read =>
        cases recorded
        exact read
      · cases recorded
    · cases recorded

theorem Slice.Tells.unique (h : s.Tells r) (h' : s.Tells r') : r = r' := by
  rw [Slice.tells_iff] at h h'
  exact Option.some.inj (h.symm.trans h')

namespace Memory

/-- The slice in this place of the history tells the result. -/
def TellsAt (history : List Slice) (i : Nat) (r : StepResult) : Prop :=
  ∃ s, history[i]? = some s ∧ s.Tells r

theorem TellsAt.lt_length (h : TellsAt history i r) : i < history.length := by
  obtain ⟨s, there, -⟩ := h
  exact (List.getElem?_eq_some_iff.mp there).1

theorem TellsAt.unique (h : TellsAt history i r) (h' : TellsAt history i r') : r = r' := by
  obtain ⟨s, there, tells⟩ := h
  obtain ⟨s', there', tells'⟩ := h'
  cases there.symm.trans there'
  exact tells.unique tells'

theorem tellsAt_concat :
    TellsAt (history ++ [s]) i r ↔ TellsAt history i r ∨ i = history.length ∧ s.Tells r := by
  rcases Nat.lt_trichotomy i history.length with lt | rfl | gt
  · simp [TellsAt, List.getElem?_append_left lt, Nat.ne_of_lt lt]
  · simp [TellsAt]
  · have beyond : (history ++ [s])[i]? = none := by
      rw [List.getElem?_eq_none_iff, List.length_append, List.length_singleton]
      omega
    have behind : history[i]? = none := List.getElem?_eq_none_iff.mpr (Nat.le_of_lt gt)
    simp [TellsAt, beyond, behind, Nat.ne_of_gt gt]

/-! ## 2. Summaries -/

/-- Some record of the one step stands before all records of the other. -/
def Before (history : List Slice) (name other : String) : Prop :=
  ∃ i x, TellsAt history i x ∧ x.step = name ∧ ∀ j y, TellsAt history j y → y.step = other → i < j

/-- No record of this step stands behind the one that tells this result. -/
def LastOf (history : List Slice) (r : StepResult) : Prop :=
  ∃ i, TellsAt history i r ∧ ∀ j x, TellsAt history j x → x.step = r.step → j ≤ i

/-- Of each step that is told of there is one result, the last, in the place of the first. -/
structure Summary (history : List Slice) (rs : List StepResult) : Prop where
  distinct : (rs.map (·.step)).Nodup
  named : ∀ name, name ∈ rs.map (·.step) ↔ ∃ i x, TellsAt history i x ∧ x.step = name
  last : ∀ r ∈ rs, LastOf history r
  ordered : (rs.map (·.step)).Pairwise (Before history)

theorem Before.asymm {name other : String} (h : Before history name other)
    (h' : Before history other name) : False := by
  obtain ⟨i, x, tells, own, first⟩ := h
  obtain ⟨j, y, tells', own', first'⟩ := h'
  exact Nat.lt_asymm (first j y tells' own') (first' i x tells own)

theorem LastOf.unique (h : LastOf history r) (h' : LastOf history r') (same : r.step = r'.step) :
    r = r' := by
  obtain ⟨i, tells, last⟩ := h
  obtain ⟨j, tells', last'⟩ := h'
  obtain rfl : i = j := Nat.le_antisymm (last' i r tells same) (last j r' tells' same.symm)
  exact tells.unique tells'

theorem Summary.mem_iff (h : Summary history rs) :
    r ∈ rs ↔ LastOf history r := by
  constructor
  · exact h.last r
  · intro last
    obtain ⟨i, tells, -⟩ := id last
    obtain ⟨x, there, same⟩ := List.mem_map.mp ((h.named r.step).mpr ⟨i, r, tells, rfl⟩)
    rwa [← (h.last x there).unique last same]

/-- **A history has one summary.** -/
theorem Summary.unique (h : Summary history rs) (h' : Summary history rs') : rs = rs' := by
  have perm : rs.Perm rs' :=
    (List.perm_ext_iff_of_nodup (List.Nodup.of_map _ h.distinct)
      (List.Nodup.of_map _ h'.distinct)).mpr fun r => h.mem_iff.trans h'.mem_iff.symm
  exact perm.eq_of_pairwise (fun a b _ _ ab ba => (ab.asymm ba).elim)
    (List.pairwise_map.mp h.ordered) (List.pairwise_map.mp h'.ordered)

/-! ## 3. One more slice -/

theorem Before.concat {name other : String} (h : Before history name other)
    (there : ∃ i x, TellsAt history i x ∧ x.step = other) :
    Before (history ++ [s]) name other := by
  obtain ⟨i, x, tells, own, first⟩ := h
  obtain ⟨k, z, told, of⟩ := there
  refine ⟨i, x, tellsAt_concat.mpr (.inl tells), own, fun j y tells' own' => ?_⟩
  rcases tellsAt_concat.mp tells' with old | ⟨rfl, -⟩
  · exact first j y old own'
  · exact tells.lt_length

theorem LastOf.concat (h : LastOf history r) (other : ∀ x, s.Tells x → x.step ≠ r.step) :
    LastOf (history ++ [s]) r := by
  obtain ⟨i, tells, last⟩ := h
  refine ⟨i, tellsAt_concat.mpr (.inl tells), fun j x tells' same => ?_⟩
  rcases tellsAt_concat.mp tells' with old | ⟨-, new⟩
  · exact last j x old same
  · exact absurd same (other x new)

theorem lastOf_record (tells : s.Tells r) : LastOf (history ++ [s]) r := by
  refine ⟨history.length, tellsAt_concat.mpr (.inr ⟨rfl, tells⟩), fun j x tells' _ => ?_⟩
  rcases tellsAt_concat.mp tells' with old | ⟨rfl, -⟩
  · exact Nat.le_of_lt old.lt_length
  · exact Nat.le_refl _

/-- A step that has not been told of comes behind the others. -/
theorem before_new {name : String} (there : ∃ i x, TellsAt history i x ∧ x.step = name)
    (new : ¬ ∃ i x, TellsAt history i x ∧ x.step = r.step) :
    Before (history ++ [s]) name r.step := by
  obtain ⟨i, x, tells, own⟩ := there
  refine ⟨i, x, tellsAt_concat.mpr (.inl tells), own, fun j y tells' own' => ?_⟩
  rcases tellsAt_concat.mp tells' with old | ⟨rfl, -⟩
  · exact absurd ⟨j, y, old, own'⟩ new
  · exact tells.lt_length

theorem names_putResult (r : StepResult) (rs : List StepResult) :
    (putResult r rs).map (·.step) =
      if r.step ∈ rs.map (·.step) then rs.map (·.step) else rs.map (·.step) ++ [r.step] := by
  induction rs with
  | nil => rfl
  | cons y rs ih =>
    by_cases here : y.step = r.step
    · simp [putResult, here]
    · rw [putResult, if_neg here, List.map_cons, List.map_cons, ih]
      split
      · next there => rw [if_pos (List.mem_cons_of_mem _ there)]
      · next missing =>
        rw [if_neg, List.cons_append]
        exact fun h => (List.mem_cons.mp h).elim (fun eq => here eq.symm) missing

theorem Summary.empty : Summary [] [] where
  distinct := List.nodup_nil
  named name := by simp [TellsAt]
  last r h := absurd h List.not_mem_nil
  ordered := List.Pairwise.nil

/-- A slice of which nothing can be read changes nothing. -/
theorem Summary.silent (h : Summary history rs) (silent : ∀ x, ¬ s.Tells x) :
    Summary (history ++ [s]) rs where
  distinct := h.distinct
  named name := by simp [h.named, tellsAt_concat, silent]
  last r hr := (h.last r hr).concat fun x tells => absurd tells (silent x)
  ordered := h.ordered.imp_of_mem fun _ there before => before.concat ((h.named _).mp there)

/-- A record takes the place of an earlier one of its step, or the last place. -/
theorem Summary.record (h : Summary history rs) (tells : s.Tells r) :
    Summary (history ++ [s]) (putResult r rs) where
  distinct := nodup_putResult h.distinct
  named name := by
    have told : (∃ i x, TellsAt (history ++ [s]) i x ∧ x.step = name) ↔
        (∃ i x, TellsAt history i x ∧ x.step = name) ∨ r.step = name := by
      simp only [tellsAt_concat]
      constructor
      · rintro ⟨i, x, old | ⟨rfl, new⟩, own⟩
        · exact .inl ⟨i, x, old, own⟩
        · exact .inr (new.unique tells ▸ own)
      · rintro (⟨i, x, old, own⟩ | own)
        · exact ⟨i, x, .inl old, own⟩
        · exact ⟨_, r, .inr ⟨rfl, tells⟩, own⟩
    rw [told, ← h.named, names_putResult]
    split
    · next there =>
      refine ⟨.inl, fun h => h.elim id fun own => own ▸ there⟩
    · simp [eq_comm]
  last x hx := by
    rcases (mem_putResult h.distinct).mp hx with rfl | ⟨old, other⟩
    · exact lastOf_record tells
    · exact (h.last x old).concat fun y new => new.unique tells ▸ Ne.symm other
  ordered := by
    have old : (rs.map (·.step)).Pairwise (Before (history ++ [s])) :=
      h.ordered.imp_of_mem fun _ there before => before.concat ((h.named _).mp there)
    -- a step that is told of again keeps its place, and a new one comes behind the others
    rw [names_putResult]
    split
    · exact old
    · next new =>
      refine List.pairwise_append.mpr ⟨old, List.pairwise_singleton .., fun name there other ho => ?_⟩
      obtain rfl := List.mem_singleton.mp ho
      exact before_new ((h.named name).mp there) (mt (h.named r.step).mpr new)

/-! ## 4. All slices -/

theorem stepResults_silent {front back : List Slice} (silent : ∀ x, ¬ s.Tells x) :
    stepResults (front ++ s :: back) = stepResults (front ++ back) := by
  have nothing : recordedResult? s = none := by
    rw [Option.eq_none_iff_forall_ne_some]
    exact fun x hx => silent x (Slice.tells_iff.mpr hx)
  rw [stepResults, stepResults, List.filterMap_append, List.filterMap_append,
    List.filterMap_cons_none nothing]

theorem stepResults_record (tells : s.Tells r) :
    stepResults (history ++ [s]) = putResult r (stepResults history) := by
  rw [stepResults, stepResults, List.filterMap_append,
    List.filterMap_cons_some (Slice.tells_iff.mp tells), List.foldl_append]
  rfl

theorem summary_stepResults (history : List Slice) : Summary history (stepResults history) := by
  induction history using List.reverseRecOn with
  | nil => exact .empty
  | append_singleton history s ih =>
    by_cases told : ∃ x, s.Tells x
    · obtain ⟨r, tells⟩ := told
      rw [stepResults_record tells]
      exact ih.record tells
    · have silent : ∀ x, ¬ s.Tells x := not_exists.mp told
      rw [stepResults_silent silent, List.append_nil]
      exact ih.silent silent

/-- **A history tells one result for each step**: there is one for each name that is in a record that
can be read, the last under that name, and the names are in the order of their first such records.
Nothing else is such a list. A slice that is no record, or cannot be read, has no part in it. What is
appended to a store that keeps a log comes last in the history. -/
theorem one_result_for_each_step (history : List Slice) :
    (∀ rs, rs = stepResults history ↔ Summary history rs) ∧
    (∀ front s back, history = front ++ s :: back → (∀ r, ¬ s.Tells r) →
      stepResults (front ++ back) = stepResults history) ∧
    ∀ {σ : Type} [MemoryStore σ] [LogStore σ] (s : NewSlice) (now : Instant) (id : Nat)
      (st st₁ st₂ st₃ : σ) (found found' : List Slice), s.classification.Proper →
      MemoryStore.history s.run st = (.ok found, st₁) →
      MemoryStore.append s now st₁ = (.ok id, st₂) →
      MemoryStore.history s.run st₂ = (.ok found', st₃) →
      found'.map Slice.entry = found.map Slice.entry ++ [s.entry] := by
  refine ⟨fun rs => ⟨?_, fun h => h.unique (summary_stepResults history)⟩, ?_, ?_⟩
  · rintro rfl
    exact summary_stepResults history
  · rintro front s back rfl silent
    exact (stepResults_silent silent).symm
  · intro σ _ _ s now id st st₁ st₂ st₃ found found' proper first appended second
    have kept : LogStore.entries s.run st₁ = LogStore.entries s.run st := by
      obtain rfl : (MemoryStore.history s.run st).2 = st₁ := congrArg Prod.snd first
      exact LogStore.history_keeps s.run st s.run
    rw [LogStore.history_ok second, LogStore.append_ok appended proper, kept,
      LogStore.history_ok first, if_pos rfl]

end Memory
end Runbook
