import Mathlib.Logic.Relation
import Runbook.Proofs.Run.Backing
import Runbook.Proofs.Run.Served
import Runbook.Proofs.Workflow.Accepted

/-!
# An engine at work

An engine may have several runs in flight, all over one store. Each of them puts its questions in
its own order, and nothing is said about the order among them; a run leaves the engine when it is
finished, or earlier, when it is dropped. Others may read the store at any time.

`Traffic.Step` lists what can happen. Since no two runs in flight have the same id, the log of an
id gets longer by what its one run appends and by nothing else: so each run has, among all the
others, a store that is `Shared` (`Traffic.Kept.shared`), and what holds of the log of any single run
holds of the whole log (`Traffic.Kept.backed`).
-/

set_option autoImplicit false

namespace Runbook

open Dialogue RunDialogue Execution Memory RunTrace

/-- A run in flight: what it has exchanged, and what it is still to do. -/
structure Underway where
  id : RunId
  log : RunTrace
  rest : RunDialogue RunRecord

/-- The runs that an engine has in flight, and their store. -/
structure Traffic (σ : Type) where
  active : ActiveRuns
  flights : List Underway
  store : σ

namespace Traffic

section

variable {σ : Type} [MemoryStore σ]

/-- One thing that happens. -/
inductive Step (e : Engine) : Traffic σ → Traffic σ → Prop where
  | start {active active' : ActiveRuns} {flights : List Underway} {st : σ} {name : String}
      {id : RunId} {provided : Fields Json} {signal : Schedule.Signal} {d : RunDialogue RunRecord}
      (started : e.start active name id provided signal = .ok (d, active')) :
      Step e ⟨active, flights, st⟩ ⟨active', flights ++ [⟨id, [], d⟩], st⟩
  /-- A run puts a question to the store. -/
  | store {active : ActiveRuns} {front back : List Underway} {id : RunId} {log : RunTrace}
      {q : StoreQuestion} {next : RunAnswer (.store q) → RunDialogue RunRecord}
      {x : StoreAnswer q} {now : Instant} {st st' : σ} (answered : reply now q st = (x, st')) :
      Step e ⟨active, front ++ ⟨id, log, .ask (.store q) next⟩ :: back, st⟩
        ⟨active, front ++ ⟨id, log ++ [⟨.store q, x⟩], next x⟩ :: back, st'⟩
  /-- A run puts a question to others; the clock tells times that have a date. -/
  | other {active : ActiveRuns} {front back : List Underway} {id : RunId} {log : RunTrace}
      {q : RunQuestion} {next : RunAnswer q → RunDialogue RunRecord} {x : RunAnswer q} {st : σ}
      (h : ∀ s, q ≠ .store s) (dated : DatedClock [⟨q, x⟩]) :
      Step e ⟨active, front ++ ⟨id, log, .ask q next⟩ :: back, st⟩
        ⟨active, front ++ ⟨id, log ++ [⟨q, x⟩], next x⟩ :: back, st⟩
  /-- A run is finished or dropped. -/
  | leave {active : ActiveRuns} {front back : List Underway} {f : Underway} {st : σ} :
      Step e ⟨active, front ++ f :: back, st⟩ ⟨Engine.release f.id active, front ++ back, st⟩
  /-- Someone else reads the store. -/
  | read {active : ActiveRuns} {flights : List Underway} {q : StoreQuestion} {x : StoreAnswer q}
      {now : Instant} {st st' : σ} (h : ∀ s, q ≠ .append s) (answered : reply now q st = (x, st')) :
      Step e ⟨active, flights, st⟩ ⟨active, flights, st'⟩

/-- From the first state to the second, one step after another. -/
def Reaches (e : Engine) : Traffic σ → Traffic σ → Prop := Relation.ReflTransGen (Step e)

/-- Before any run is started. -/
def idle (st : σ) : Traffic σ := ⟨[], [], st⟩

/-- A run may go to its end while nothing else happens. -/
theorem reaches_run {e : Engine} {active : ActiveRuns} (front back : List Underway) {id : RunId}
    {log : RunTrace} {d : RunDialogue RunRecord} {t : RunTrace} {rec : RunRecord} {st st' : σ}
    (ran : Yields d t rec) (served : Served st t st') (clock : DatedClock t) :
    Reaches e ⟨active, front ++ ⟨id, log, d⟩ :: back, st⟩
      ⟨active, front ++ ⟨id, log ++ t, .done rec⟩ :: back, st'⟩ := by
  induction ran generalizing log st with
  | done rec =>
    cases served
    rw [List.append_nil]
    exact .refl
  | @ask q next x u rec _ ih =>
    have later : DatedClock u := fun i hi => clock i (List.mem_cons_of_mem _ hi)
    have moved : log ++ ⟨q, x⟩ :: u = log ++ [⟨q, x⟩] ++ u := by simp
    rw [moved]
    cases served with
    | store answered served => exact .head (.store answered) (ih served later)
    | other outside served =>
      have first : DatedClock [⟨q, x⟩] := fun i hi => clock i (by simp [List.mem_singleton.mp hi])
      exact .head (.other outside first) (ih served later)

end

/-- What a run has exchanged is the front part of what some run of the workflow exchanges. -/
def Begun (e : Engine) (f : Underway) : Prop :=
  ∃ w ∈ e.workflows, ∃ params, ∀ u rec, Yields f.rest u rec →
    Yields (execute e.config w f.id params) (f.log ++ u) rec

theorem Begun.ask {e : Engine} {id : RunId} {log : RunTrace} {q : RunQuestion}
    {next : RunAnswer q → RunDialogue RunRecord} (h : Begun e ⟨id, log, .ask q next⟩)
    (x : RunAnswer q) : Begun e ⟨id, log ++ [⟨q, x⟩], next x⟩ := by
  obtain ⟨w, hw, params, continues⟩ := h
  refine ⟨w, hw, params, fun u rec hu => ?_⟩
  have whole := continues (⟨q, x⟩ :: u) rec (yields_ask_iff.mpr ⟨x, u, rfl, hu⟩)
  rwa [List.append_assoc]

/-- Answers that let every run come to an end. -/
def plainly : (q : RunQuestion) → Unit → RunAnswer q × Unit
  | .store (.append _), s => (.ok 0, s)
  | .store (.query _), s => (.ok [], s)
  | .store (.history _), s => (.ok [], s)
  | .time, s => (⟨0⟩, s)
  | .stopRequested, s => (true, s)
  | .approval .., s => (.denied, s)
  | .call .., s => (.ok {}, s)

/-- A run that has begun can be seen as the front part of one that came to an end. -/
theorem Begun.completed {e : Engine} {f : Underway} (h : Begun e f) (clock : DatedClock f.log) :
    ∃ w ∈ e.workflows, ∃ params u rec,
      Yields (execute e.config w f.id params) (f.log ++ u) rec ∧ DatedClock (f.log ++ u) := by
  obtain ⟨w, hw, params, continues⟩ := h
  refine ⟨w, hw, params, _, _, continues _ _ (yields_transcript plainly f.rest ()),
    clock.append fun i hi => ?_⟩
  obtain ⟨_, answer⟩ := answer_of_mem_transcript hi
  obtain rfl : i = ⟨0⟩ := answer
  rfl

theorem Begun.backed {e : Engine} {f : Underway} (h : Begun e f) (clock : DatedClock f.log) :
    Backed (f.log.entriesOf f.id) := by
  obtain ⟨w, -, params, u, rec, ran, dated⟩ := h.completed clock
  have whole := backed_of_yields ran dated
  rw [entriesOf_append] at whole
  exact whole.cut

theorem Begun.proper {e : Engine} {f : Underway} (h : Begun e f) (clock : DatedClock f.log) :
    f.log.Proper := by
  obtain ⟨w, -, params, u, rec, ran, -⟩ := h.completed clock
  exact (proper_append.mp (inOrder_of_yields ran).proper).1

/-- A run adds to the log of its own id only. -/
theorem Begun.elsewhere {e : Engine} {f : Underway} (h : Begun e f) (clock : DatedClock f.log)
    {id : RunId} (other : f.id ≠ id) : f.log.entriesOf id = [] := by
  obtain ⟨w, -, params, u, rec, ran, -⟩ := h.completed clock
  refine List.eq_nil_iff_forall_not_mem.mpr fun x hx => ?_
  obtain ⟨s, hs, hrun, -⟩ := mem_entriesOf.mp hx
  have stored : s ∈ stored (f.log ++ u) := by
    rw [stored_append]
    exact List.mem_append_left _ hs
  rcases (inOrder_of_yields ran).stored stored with hs | ⟨r, -, hs⟩
  · exact other ((mem_startSlices hs).1.symm.trans hrun)
  · exact other ((run_of_mem_stepSlices hs).1.symm.trans hrun)

section

variable {σ : Type} [MemoryStore σ] [LogStore σ]

/-- What is kept by every step. -/
structure Kept (e : Engine) (s : Traffic σ) : Prop where
  apart : (s.flights.map Underway.id).Nodup
  active : ∀ f ∈ s.flights, Fields.has f.id s.active = true
  begun : ∀ f ∈ s.flights, Begun e f
  clock : ∀ f ∈ s.flights, DatedClock f.log
  /-- A run in flight has found a log in order, and has only added what it has exchanged. -/
  shared : ∀ f ∈ s.flights, ∃ st, Shared f.id st f.log s.store ∧ Backed (LogStore.entries f.id st)
  /-- The logs of other ids are in order. -/
  quiet : ∀ id, (∀ f ∈ s.flights, f.id ≠ id) → Backed (LogStore.entries id s.store)

/-- The log of a run that is in flight is in order. -/
theorem Kept.backed_of_mem {e : Engine} {s : Traffic σ} (h : Kept e s) {f : Underway}
    (hf : f ∈ s.flights) : Backed (LogStore.entries f.id s.store) := by
  obtain ⟨st, shared, old⟩ := h.shared f hf
  have clock := h.clock f hf
  rw [shared.entries_eq ((h.begun f hf).proper clock)]
  exact old.append ((h.begun f hf).backed clock)

/-- **Every log is in order at any time.** -/
theorem Kept.backed {e : Engine} {s : Traffic σ} (h : Kept e s) (id : RunId) :
    Backed (LogStore.entries id s.store) := by
  by_cases there : ∃ f ∈ s.flights, f.id = id
  · obtain ⟨f, hf, rfl⟩ := there
    exact h.backed_of_mem hf
  · exact h.quiet id fun f hf same => there ⟨f, hf, same⟩

theorem kept_idle (e : Engine) {st : σ} (h : ∀ id, Backed (LogStore.entries id st)) :
    Kept e (idle st) where
  apart := .nil
  active := by simp [idle]
  begun := by simp [idle]
  clock := by simp [idle]
  shared := by simp [idle]
  quiet id _ := h id

/-- A store that has changed, but not in the log of the run, is still one that the run shares. -/
theorem shared_aside {id : RunId} {st m m' : σ} {t : RunTrace} (h : Shared id st t m)
    (kept : LogStore.entries id m' = LogStore.entries id m) : Shared id st t m' := by
  rw [← List.append_nil t]
  exact shared_append h (.aside kept (.nil m'))

/-- One run goes on, and leaves the logs of the others alone. -/
theorem Kept.goOn {e : Engine} {active : ActiveRuns} {front back : List Underway} {f f' : Underway}
    {st st' : σ} (h : Kept e ⟨active, front ++ f :: back, st⟩) (same : f'.id = f.id)
    (begun : Begun e f') (clock : DatedClock f'.log)
    (shared : ∀ st₀, Shared f.id st₀ f.log st → Shared f.id st₀ f'.log st')
    (elsewhere : ∀ id, f.id ≠ id → LogStore.entries id st' = LogStore.entries id st) :
    Kept e ⟨active, front ++ f' :: back, st'⟩ := by
  have here : f ∈ front ++ f :: back := by simp
  have apart := h.apart
  rw [List.map_append, List.map_cons, List.nodup_middle] at apart
  have others : ∀ g ∈ front ++ back, g ∈ front ++ f :: back ∧ f.id ≠ g.id := by
    intro g hg
    constructor
    · rcases List.mem_append.mp hg with hg | hg <;> simp [hg]
    · intro equal
      rw [← List.map_append] at apart
      exact (List.nodup_cons.mp apart).1 (List.mem_map.mpr ⟨g, hg, equal.symm⟩)
  -- whoever is in flight now is the run that went on, or was in flight before under another id
  have cases : ∀ g ∈ front ++ f' :: back, g = f' ∨ g ∈ front ++ back := by
    intro g hg
    simp only [List.mem_append, List.mem_cons] at hg ⊢
    tauto
  constructor
  · show ((front ++ f' :: back).map Underway.id).Nodup
    rwa [List.map_append, List.map_cons, List.nodup_middle, same]
  · intro g hg
    rcases cases g hg with rfl | hg
    · exact same ▸ h.active f here
    · exact h.active g (others g hg).1
  · intro g hg
    rcases cases g hg with rfl | hg
    · exact begun
    · exact h.begun g (others g hg).1
  · intro g hg
    rcases cases g hg with rfl | hg
    · exact clock
    · exact h.clock g (others g hg).1
  · intro g hg
    rcases cases g hg with rfl | hg
    · obtain ⟨st₀, found, old⟩ := h.shared f here
      rw [same]
      exact ⟨st₀, shared st₀ found, old⟩
    · obtain ⟨st₀, found, old⟩ := h.shared g (others g hg).1
      exact ⟨st₀, shared_aside found (elsewhere g.id (others g hg).2), old⟩
  · intro id away
    have other : f.id ≠ id := same ▸ away f' (by simp)
    show Backed (LogStore.entries id st')
    rw [elsewhere id other]
    refine h.quiet id fun g hg => ?_
    simp only [List.mem_append, List.mem_cons] at hg
    rcases hg with hg | rfl | hg
    · exact away g (by simp [hg])
    · exact other
    · exact away g (by simp [hg])

/-- The id of a new run was not active, so no run in flight has it. -/
theorem Kept.start {e : Engine} {active : ActiveRuns} {flights : List Underway} {st : σ}
    (h : Kept e ⟨active, flights, st⟩) {id : RunId} {d : RunDialogue RunRecord}
    {signal : Schedule.Signal} (begun : Begun e ⟨id, [], d⟩)
    (idle : Fields.has id active = false) :
    Kept e ⟨active ++ [(id, signal)], flights ++ [⟨id, [], d⟩], st⟩ := by
  have new : ∀ f ∈ flights, f.id ≠ id := by
    rintro f hf rfl
    exact absurd (h.active f hf) (by simp [idle])
  constructor
  · show ((flights ++ [_]).map Underway.id).Nodup
    rw [List.map_append, List.nodup_append]
    refine ⟨h.apart, by simp, fun a ha b hb => ?_⟩
    obtain ⟨f, hf, rfl⟩ := List.mem_map.mp ha
    rw [List.mem_singleton.mp hb]
    exact new f hf
  · refine List.forall_mem_append.mpr ⟨fun f hf => ?_, fun f hf => ?_⟩
    · have there := h.active f hf
      rw [Fields.has, Fields.get?_isSome_iff] at there ⊢
      rw [Fields.names, List.map_append]
      exact List.mem_append_left _ there
    · rw [List.mem_singleton.mp hf, Fields.has, Fields.get?_isSome_iff, Fields.names]
      simp
  · exact List.forall_mem_append.mpr ⟨h.begun, List.forall_mem_singleton.mpr begun⟩
  · refine List.forall_mem_append.mpr ⟨h.clock, List.forall_mem_singleton.mpr fun i hi => ?_⟩
    cases hi
  · exact List.forall_mem_append.mpr
      ⟨h.shared, List.forall_mem_singleton.mpr ⟨st, .nil st, h.quiet id new⟩⟩
  · intro other away
    exact h.quiet other fun f hf => away f (List.mem_append_left _ hf)

/-- A question of one run is answered. -/
theorem Kept.ask {e : Engine} {active : ActiveRuns} {front back : List Underway} {id : RunId}
    {log : RunTrace} {q : RunQuestion} {next : RunAnswer q → RunDialogue RunRecord} {st st' : σ}
    (h : Kept e ⟨active, front ++ ⟨id, log, .ask q next⟩ :: back, st⟩) (x : RunAnswer q)
    (dated : DatedClock [⟨q, x⟩]) (shared : Shared id st [⟨q, x⟩] st')
    (elsewhere : Proper [⟨q, x⟩] → ∀ other, entriesOf other [⟨q, x⟩] = [] →
      LogStore.entries other st' = LogStore.entries other st) :
    Kept e ⟨active, front ++ ⟨id, log ++ [⟨q, x⟩], next x⟩ :: back, st'⟩ := by
  have here : ⟨id, log, .ask q next⟩ ∈ front ++ ⟨id, log, .ask q next⟩ :: back := by simp
  have begun := (h.begun _ here).ask x
  have clock : DatedClock (log ++ [⟨q, x⟩]) := (h.clock _ here).append dated
  refine h.goOn rfl begun clock (fun st₀ found => shared_append found shared) fun other away => ?_
  have nothing := begun.elsewhere clock away
  rw [entriesOf_append] at nothing
  exact elsewhere (proper_append.mp (begun.proper clock)).2 other
    (List.append_eq_nil_iff.mp nothing).2

/-- The id of a run that leaves is free again, and its log is in order. -/
theorem Kept.leave {e : Engine} {active : ActiveRuns} {front back : List Underway} {f : Underway}
    {st : σ} (h : Kept e ⟨active, front ++ f :: back, st⟩) :
    Kept e ⟨Engine.release f.id active, front ++ back, st⟩ := by
  have apart := h.apart
  rw [List.map_append, List.map_cons, List.nodup_middle, ← List.map_append,
    List.nodup_cons] at apart
  have still : ∀ g ∈ front ++ back, g ∈ front ++ f :: back := by
    intro g hg
    rcases List.mem_append.mp hg with hg | hg <;> simp [hg]
  constructor
  · exact apart.2
  · intro g hg
    have other : g.id ≠ f.id := fun same => apart.1 (List.mem_map.mpr ⟨g, hg, same⟩)
    have there := h.active g (still g hg)
    rw [Fields.has, Fields.get?_isSome_iff] at there ⊢
    obtain ⟨entry, hentry, name⟩ := List.mem_map.mp there
    exact List.mem_map.mpr ⟨entry, List.mem_filter.mpr ⟨hentry, by simpa [name] using other⟩, name⟩
  · exact fun g hg => h.begun g (still g hg)
  · exact fun g hg => h.clock g (still g hg)
  · exact fun g hg => h.shared g (still g hg)
  · intro id away
    by_cases own : f.id = id
    · subst own
      exact h.backed_of_mem (by simp)
    · refine h.quiet id fun g hg => ?_
      simp only [List.mem_append, List.mem_cons] at hg
      rcases hg with hg | rfl | hg
      · exact away g (List.mem_append_left _ hg)
      · exact own
      · exact away g (List.mem_append_right _ hg)

/-- The logs are the same in another store. -/
theorem Kept.sameLogs {e : Engine} {active : ActiveRuns} {flights : List Underway} {st st' : σ}
    (h : Kept e ⟨active, flights, st⟩)
    (same : ∀ id, LogStore.entries id st' = LogStore.entries id st) :
    Kept e ⟨active, flights, st'⟩ :=
  { h with
    shared := fun f hf => by
      obtain ⟨st₀, shared, old⟩ := h.shared f hf
      exact ⟨st₀, shared_aside shared (same f.id), old⟩
    quiet := fun id away => by
      show Backed (LogStore.entries id st')
      rw [same id]
      exact h.quiet id away }

/-- Reading adds nothing to a log. -/
theorem entries_of_read {q : StoreQuestion} {x : StoreAnswer q} {now : Instant} {st st' : σ}
    (reads : ∀ s, q ≠ .append s) (answered : reply now q st = (x, st')) (id : RunId) :
    LogStore.entries id st' = LogStore.entries id st := by
  have unstored : RunExchange.stored? ⟨.store q, x⟩ = none := by
    cases q with
    | append s => exact absurd rfl (reads s)
    | query | history => rfl
  have proper : Proper [⟨.store q, x⟩] := by
    intro s hs
    rw [stored_eq_nil (by simpa using unstored)] at hs
    cases hs
  rw [entries_reply answered proper id, entriesOf_cons_none unstored, entriesOf_nil,
    List.append_nil]

theorem Kept.step {e : Engine} {s s' : Traffic σ} (h : Kept e s) (happens : Step e s s') :
    Kept e s' := by
  cases happens with
  | start started =>
    obtain ⟨w, params, hw, -, -, idle, rfl, rfl⟩ := Engine.start_ok started
    exact h.start ⟨w, hw, params, fun u rec hu => hu⟩ idle
  | @store active front back id log q next x now st st' answered =>
    refine h.ask x (by simp [DatedClock]) (.store answered (.nil st')) fun proper other nothing => ?_
    rw [entries_reply answered proper other, nothing, List.append_nil]
  | other outside dated => exact h.ask _ dated (.other outside (.nil _)) fun _ _ _ => rfl
  | leave => exact h.leave
  | read reads answered => exact h.sameLogs (entries_of_read reads answered)

/-- **Whatever happens, every log stays in order.** -/
theorem Kept.reaches {e : Engine} {s s' : Traffic σ} (h : Kept e s) (steps : Reaches e s s') :
    Kept e s' := by
  induction steps with
  | refl => exact h
  | tail _ happens ih => exact ih.step happens

end
end Traffic
end Runbook
