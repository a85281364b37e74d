import Mathlib.Data.List.Nodup
import Runbook.Proofs.Memory.Log
import Runbook.Proofs.Run.Order

/-!
# Runs and their store

`Served st t st'` says that a store answered the exchanges of a run that are with a store, one
after another, and was `st` before and `st'` afterwards. All other answers are free.

An answer only adds to the log of its store, and what it adds can be read off the exchange
(`entries_reply`). So what a later query finds is a matter of earlier exchanges alone.

While a run goes on, others may use its store: other runs of the engine have other ids, and leave
the log of this run alone. `Shared run st t st'` says that the store answered the exchanges of the
run, and that whatever happened to it in between has left the entries of that run as they were.
What holds of the entries of a run in a shared store holds in a store that it has for itself.
-/

set_option autoImplicit false

namespace Runbook

open Memory

namespace RunTrace

/-- The entries that the exchanges add to the log of a run. -/
def entriesOf (run : RunId) (t : RunTrace) : List Entry :=
  ((stored t).filter (·.run == run)).map NewSlice.entry

@[simp] theorem entriesOf_nil (run : RunId) : entriesOf run [] = [] := rfl

@[simp] theorem entriesOf_append (run : RunId) (t u : RunTrace) :
    entriesOf run (t ++ u) = entriesOf run t ++ entriesOf run u := by
  rw [entriesOf, stored_append, List.filter_append, List.map_append]
  rfl

theorem entriesOf_cons_stored {x : RunExchange} {s : NewSlice} (h : x.stored? = some s)
    (run : RunId) (t : RunTrace) :
    entriesOf run (x :: t) = (if s.run = run then [s.entry] else []) ++ entriesOf run t := by
  rw [entriesOf, stored, List.filterMap_cons_some h, List.filter_cons]
  by_cases hr : s.run = run
  · simp [hr, entriesOf, stored]
  · simp [hr, entriesOf, stored]

theorem entriesOf_cons_none {x : RunExchange} (h : x.stored? = none) (run : RunId)
    (t : RunTrace) : entriesOf run (x :: t) = entriesOf run t := by
  rw [entriesOf, stored, List.filterMap_cons_none h]
  rfl

theorem mem_entriesOf {run : RunId} {t : RunTrace} {e : Entry} :
    e ∈ entriesOf run t ↔ ∃ s ∈ stored t, s.run = run ∧ s.entry = e := by
  simp only [entriesOf, List.mem_map, List.mem_filter, beq_iff_eq, and_assoc]

/-- No slice has a classification that is read back as another one. -/
def Proper (t : RunTrace) : Prop := ∀ s ∈ stored t, s.classification.Proper

theorem proper_append {t u : RunTrace} : Proper (t ++ u) ↔ Proper t ∧ Proper u := by
  simp only [Proper, stored_append, List.mem_append]
  constructor
  · exact fun h => ⟨fun s hs => h s (.inl hs), fun s hs => h s (.inr hs)⟩
  · rintro ⟨ht, hu⟩ s (hs | hs)
    · exact ht s hs
    · exact hu s hs

theorem Proper.tail {x : RunExchange} {t : RunTrace} (h : Proper (x :: t)) : Proper t :=
  (proper_append.mp (show Proper ([x] ++ t) from h)).2

end RunTrace

/-! ## 1. A store that answers -/

section

variable {σ : Type} [MemoryStore σ]

/-- The store answered its exchanges, each at some time. -/
inductive Served : σ → RunTrace → σ → Prop where
  | nil (st : σ) : Served st [] st
  | store {q : StoreQuestion} {x : StoreAnswer q} {now : Instant} {st st₁ st₂ : σ} {t : RunTrace}
      (answered : reply now q st = (x, st₁)) (later : Served st₁ t st₂) :
      Served st (⟨.store q, x⟩ :: t) st₂
  | other {x : RunExchange} {st st' : σ} {t : RunTrace} (h : ∀ q, x.question ≠ .store q)
      (later : Served st t st') : Served st (x :: t) st'

theorem served_append_iff {st st' : σ} {t u : RunTrace} :
    Served st (t ++ u) st' ↔ ∃ m, Served st t m ∧ Served m u st' := by
  constructor
  · intro h
    induction t generalizing st with
    | nil => exact ⟨st, .nil st, h⟩
    | cons x t ih =>
      cases h with
      | store answered later =>
        obtain ⟨m, ht, hu⟩ := ih later
        exact ⟨m, .store answered ht, hu⟩
      | other other later =>
        obtain ⟨m, ht, hu⟩ := ih later
        exact ⟨m, .other other ht, hu⟩
  · rintro ⟨m, ht, hu⟩
    induction ht with
    | nil => exact hu
    | store answered _ ih => exact .store answered (ih hu)
    | other other _ ih => exact .other other (ih hu)

variable [LogStore σ]

/-- What the answer to one question does to the log. -/
theorem entries_reply {q : StoreQuestion} {x : StoreAnswer q} {now : Instant} {st st' : σ}
    (h : reply now q st = (x, st'))
    (proper : RunTrace.Proper [⟨.store q, x⟩]) (run : RunId) :
    LogStore.entries run st' =
      LogStore.entries run st ++ RunTrace.entriesOf run [⟨.store q, x⟩] := by
  cases q with
  | append s =>
    cases x with
    | ok id =>
      have hs := proper s (List.mem_singleton.mpr rfl)
      have added := RunTrace.entriesOf_cons_stored (RunExchange.stored?_appended s id) run []
      rw [RunTrace.entriesOf_nil, List.append_nil] at added
      rw [LogStore.append_ok h hs run]
      exact congrArg _ added.symm
    | error e =>
      have nothing := RunTrace.entriesOf_cons_none (RunExchange.stored?_refused s e) run []
      rw [LogStore.append_error h run]
      exact (List.append_nil _).symm.trans (congrArg _ nothing.symm)
  | query q =>
    obtain rfl : (MemoryStore.query q st).2 = st' := congrArg Prod.snd h
    rw [LogStore.query_keeps, RunTrace.entriesOf_cons_none rfl]
    simp
  | history of =>
    obtain rfl : (MemoryStore.history of st).2 = st' := congrArg Prod.snd h
    rw [LogStore.history_keeps, RunTrace.entriesOf_cons_none rfl]
    simp

end

/-! ### Surroundings with a store

Any way to answer the other questions can be joined with a store. The store then serves every run,
so nothing that is proved of served runs is about nothing. -/

section

variable {σ τ α : Type} [MemoryStore σ]

/-- The store answers its questions at the given time, and the rest is left to others. -/
def overStore (now : Instant) (others : (q : RunQuestion) → τ → RunAnswer q × τ) :
    (q : RunQuestion) → σ × τ → RunAnswer q × (σ × τ)
  | .store q, (st, s) =>
      let (x, st) := reply now q st
      (x, st, s)
  | q, (st, s) =>
      let (x, s) := others q s
      (x, st, s)

theorem served_transcript (now : Instant) (others : (q : RunQuestion) → τ → RunAnswer q × τ)
    (d : RunDialogue α) (s : σ × τ) :
    Served s.1 (d.transcript (overStore now others) s)
      (d.answered (overStore now others) s).2.1 := by
  induction d generalizing s with
  | done a => exact .nil s.1
  | ask q next ih =>
    have later := ih (overStore now others q s).1 (overStore now others q s).2
    cases q with
    | store q => exact .store rfl later
    | time | stopRequested | approval | call => exact .other (fun _ h => by cases h) later

end

/-! ## 2. What a run may store -/

namespace Execution

open Dialogue

theorem Turns.mem_traces {run : RunId} {steps : List Step} {rs : List StepResult}
    {ss : List Stretch} {ps : List Turn} (h : Turns run steps rs ss ps) {x : RunExchange}
    (hx : x ∈ Stretch.traces ss) : ∃ p ∈ ps, x ∈ p.work ∨ x ∈ p.records := by
  rw [← h.stretches_eq, Stretch.traces, List.flatMap_map] at hx
  obtain ⟨p, hp, hx⟩ := List.mem_flatMap.mp hx
  exact ⟨p, hp, List.mem_append.mp hx⟩

/-- What is exchanged in a turn is exchanged in the run. -/
theorem Turns.mem_traces_of_mem {run : RunId} {steps : List Step} {rs : List StepResult}
    {ss : List Stretch} {ps : List Turn} (h : Turns run steps rs ss ps) {p : Turn} (hp : p ∈ ps)
    {x : RunExchange} (hx : x ∈ p.trace) : x ∈ Stretch.traces ss := by
  rw [← h.stretches_eq, Stretch.traces, List.flatMap_map]
  exact List.mem_flatMap.mpr ⟨p, hp, hx⟩

/-- The work of a step stores nothing. -/
theorem stored_work {run : RunId} {q : Turn} (h : q.Own run) {t u : RunTrace}
    (hq : q.work = t ++ u) : RunTrace.stored t = [] :=
  RunTrace.stored_eq_nil fun x hx => (h.work x (by simp [hq, hx])).stored?_eq_none

/-- A turn stores slices of its own step. -/
theorem Turn.Own.mem_stored {run : RunId} {p : Turn} (h : p.Own run) {s : NewSlice}
    (hs : s ∈ RunTrace.stored p.trace) : ∃ r, r.step = p.step.name ∧ s ∈ stepSlices run r := by
  obtain ⟨id, hx⟩ := RunTrace.mem_stored hs
  rcases List.mem_append.mp hx with hx | hx
  · cases h.work _ hx with
    | read h => cases h
  · cases h.records _ hx with
    | append step slice => exact ⟨_, step, slice⟩

theorem mem_stored_traces {ps : List Turn} {s : NewSlice}
    (h : s ∈ RunTrace.stored (Stretch.traces (ps.map (·.toStretch)))) :
    ∃ p ∈ ps, s ∈ RunTrace.stored p.trace := by
  rw [Stretch.traces, List.flatMap_map, RunTrace.stored, List.filterMap_flatMap] at h
  exact List.mem_flatMap.mp h

theorem StartOf.stored {w : Workflow} {run : RunId} {params : Fields Json} {t : RunTrace}
    (h : ∀ x ∈ t, StartOf w run params x) {s : NewSlice} (hs : s ∈ RunTrace.stored t) :
    s ∈ startSlices run w.name params := by
  obtain ⟨id, hx⟩ := RunTrace.mem_stored hs
  rcases h _ hx with other | ⟨s', hs', same⟩
  · cases other
  · cases same
    exact hs'

/-- Steps of one workflow have different names, and so have their turns. -/
theorem Turns.apart {w : Workflow} {run : RunId} {rs : List StepResult} {ss : List Stretch}
    {ps front back : List Turn} {p : Turn} (h : Turns run w.steps rs ss ps)
    (names : w.stepNames.Nodup) (hps : ps = front ++ p :: back) :
    ∀ q ∈ front ++ back, q.step.name ≠ p.step.name := by
  rw [Workflow.stepNames, ← h.steps_eq, List.map_map, hps, List.map_append, List.map_cons,
    List.nodup_middle, ← List.map_append] at names
  intro q hq same
  exact (List.nodup_cons.mp names).1 (List.mem_map.mpr ⟨q, hq, same⟩)

theorem Turns.eq_of_name {w : Workflow} {run : RunId} {rs : List StepResult} {ss : List Stretch}
    {ps : List Turn} {p q : Turn} (h : Turns run w.steps rs ss ps) (names : w.stepNames.Nodup)
    (hp : p ∈ ps) (hq : q ∈ ps) (same : q.step.name = p.step.name) : q = p := by
  obtain ⟨front, back, hps⟩ := List.append_of_mem hp
  by_contra other
  refine h.apart names hps q ?_ same
  rw [hps] at hq
  rcases List.mem_append.mp hq with hq | hq
  · exact List.mem_append_left _ hq
  · rcases List.mem_cons.mp hq with rfl | hq
    · exact absurd rfl other
    · exact List.mem_append_right _ hq

/-- A run stores nothing but its start and results of its steps. -/
theorem InOrder.stored {w : Workflow} {run : RunId} {params : Fields Json} {t : RunTrace}
    {rec : RunRecord} (h : InOrder w run params t rec) {s : NewSlice} (hs : s ∈ RunTrace.stored t) :
    s ∈ startSlices run w.name params ∨
      ∃ r, r.step ∈ w.stepNames ∧ s ∈ stepSlices run r := by
  obtain ⟨start, ss, ps, finish, rfl, hstart, hfinish, turns⟩ := h.turns
  rw [RunTrace.stored_append, RunTrace.stored_append, ← turns.stretches_eq] at hs
  rcases List.mem_append.mp hs with hs | hs
  · rcases List.mem_append.mp hs with hs | hs
    · exact .inl (StartOf.stored hstart hs)
    · obtain ⟨p, hp, hs⟩ := mem_stored_traces hs
      obtain ⟨r, step, hs⟩ := (turns.own p hp).mem_stored hs
      refine .inr ⟨r, ?_, hs⟩
      rw [step, Workflow.stepNames, ← turns.steps_eq, List.map_map]
      exact List.mem_map.mpr ⟨p, hp, rfl⟩
  · obtain ⟨id, hx⟩ := RunTrace.mem_stored hs
    cases hfinish _ hx

theorem InOrder.proper {w : Workflow} {run : RunId} {params : Fields Json} {t : RunTrace}
    {rec : RunRecord} (h : InOrder w run params t rec) : t.Proper := by
  intro s hs
  rcases h.stored hs with hs | ⟨r, -, hs⟩
  · rcases (mem_startSlices hs).2 with h | h <;> rw [Classification.Proper, h] <;> rfl
  · exact (run_of_mem_stepSlices hs).2.2

end Execution

/-! ## 3. A store with other users -/

section

variable {σ : Type} [MemoryStore σ] [LogStore σ]

/-- The store answered the exchanges of a run, each at some time, and others left its log alone. -/
inductive Shared (run : RunId) : σ → RunTrace → σ → Prop where
  | nil (st : σ) : Shared run st [] st
  | store {q : StoreQuestion} {x : StoreAnswer q} {now : Instant} {st st₁ st₂ : σ} {t : RunTrace}
      (answered : reply now q st = (x, st₁)) (later : Shared run st₁ t st₂) :
      Shared run st (⟨.store q, x⟩ :: t) st₂
  | other {x : RunExchange} {st st' : σ} {t : RunTrace} (h : ∀ q, x.question ≠ .store q)
      (later : Shared run st t st') : Shared run st (x :: t) st'
  | aside {st st₁ st₂ : σ} {t : RunTrace}
      (kept : LogStore.entries run st₁ = LogStore.entries run st) (later : Shared run st₁ t st₂) :
      Shared run st t st₂

variable {run : RunId}

/-- A store that a run has for itself is one that nobody else uses. -/
theorem Served.shared {st st' : σ} {t : RunTrace} (h : Served st t st') : Shared run st t st' := by
  induction h with
  | nil st => exact .nil st
  | store answered _ ih => exact .store answered ih
  | other other _ ih => exact .other other ih

theorem shared_append {st m st' : σ} {t u : RunTrace} (front : Shared run st t m)
    (back : Shared run m u st') : Shared run st (t ++ u) st' := by
  induction front with
  | nil => exact back
  | store answered _ ih => exact .store answered (ih back)
  | other other _ ih => exact .other other (ih back)
  | aside kept _ ih => exact .aside kept (ih back)

/-- **The log of the run afterwards is the log before, and what the run has appended.** -/
theorem Shared.entries_eq {st st' : σ} {t : RunTrace} (h : Shared run st t st')
    (proper : t.Proper) : LogStore.entries run st' = LogStore.entries run st ++ t.entriesOf run := by
  induction h with
  | nil => simp
  | @store q x now st st₁ st₂ t answered _ ih =>
    have both : RunTrace.Proper ([⟨.store q, x⟩] ++ t) := proper
    obtain ⟨hx, ht⟩ := RunTrace.proper_append.mp both
    rw [ih ht, entries_reply answered hx run, List.append_assoc, ← RunTrace.entriesOf_append]
    rfl
  | other other _ ih =>
    rw [ih proper.tail, RunTrace.entriesOf_cons_none]
    exact RunExchange.stored?_eq_none_of_other other
  | aside kept _ ih => rw [ih proper, kept]

/-- A question was answered by a store with the log that the run knows. -/
theorem Shared.answered {st st' : σ} {q : StoreQuestion} {x : StoreAnswer q} {t : RunTrace}
    (h : Shared run st (⟨.store q, x⟩ :: t) st') :
    ∃ now m m', LogStore.entries run m = LogStore.entries run st ∧ reply now q m = (x, m') ∧
      Shared run m' t st' := by
  generalize heq : (⟨.store q, x⟩ : RunExchange) :: t = v at h
  induction h with
  | nil => cases heq
  | store answered later =>
    cases heq
    exact ⟨_, _, _, rfl, answered, later⟩
  | other other =>
    cases heq
    exact absurd rfl (other _)
  | aside kept _ ih =>
    obtain ⟨now, m, m', same, answered, later⟩ := ih heq
    exact ⟨now, m, m', same.trans kept, answered, later⟩

/-! ### A store that a run has for itself -/

/-- **The log afterwards is the log before, and what was appended.** -/
theorem Served.entries_eq {st st' : σ} {t : RunTrace} (h : Served st t st')
    (proper : t.Proper) (run : RunId) :
    LogStore.entries run st' = LogStore.entries run st ++ t.entriesOf run :=
  h.shared.entries_eq proper

/-- What a query finds is what was in the log before, or was appended before. -/
theorem Served.found_eq {st st' : σ} {t u : RunTrace} {q : SliceQuery} {found : List Slice}
    (h : Served st (t ++ ⟨.store (.query q), .ok found⟩ :: u) st') (proper : t.Proper)
    (hq : q.Proper) :
    found.map Slice.entry = upTo q.limit
      ((LogStore.entries q.run st ++ t.entriesOf q.run).filter q.admits).reverse := by
  obtain ⟨m, ht, hu⟩ := served_append_iff.mp h
  cases hu with
  | store answered _ => rw [LogStore.query_ok answered hq, ht.entries_eq proper]
  | other other _ => exact absurd rfl (other _)

end
end Runbook
