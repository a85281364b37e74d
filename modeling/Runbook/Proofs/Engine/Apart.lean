import Mathlib.Logic.Function.Basic
import Runbook.Proofs.Engine.Succession
import Runbook.Proofs.Engine.Traffic
import Runbook.Proofs.Memory.Scoped

/-!
# Runs that do not notice each other

Several runs of one engine are over one store, and take turns in any order; a turn is one question
with its answer. A run that takes its turns alone, over a store that looks the same to it, goes the
same way: it has the same exchanges and memory but for ids and times, and the same record but for
times.

What answers a run besides the store is of two kinds. Approvers and tools are functions of what
they are asked. The clock and the requests to stop are functions of how far the run has come; the
clocks of the two runs are related by `T`. If that is equality, so are the exchanges and records,
but for ids. For other clocks no need may bind times, since whatever uses such a binding would go
by the time.
-/

set_option autoImplicit false

namespace Runbook

open Memory Execution

/-- What answers a run besides the store. -/
structure Surroundings where
  /-- The time of the n-th exchange of the run. -/
  clock : Nat → Instant
  /-- The run has been told to stop, if it asks with its n-th exchange. -/
  stop : Nat → Bool
  approver : (step prompt : String) → (limitSecs : Option Nat) → Approval
  tools : (tool : String) → (inputs : Fields Json) → (limitSecs : Option Nat) →
    Except Failure ToolOutput

namespace Surroundings

/-- The surroundings differ in their clocks only. -/
structure Like (T : Instant → Instant → Prop) (s s' : Surroundings) : Prop where
  clock : ∀ n, T (s.clock n) (s'.clock n)
  stop : s.stop = s'.stop
  approver : s.approver = s'.approver
  tools : s.tools = s'.tools

variable {σ : Type} [MemoryStore σ]

/-- The answer to the n-th question of a run. -/
def answer (s : Surroundings) (n : Nat) : (q : RunQuestion) → σ → RunAnswer q × σ
  | .store q, st => reply (s.clock n) q st
  | .time, st => (s.clock n, st)
  | .stopRequested, st => (s.stop n, st)
  | .approval step prompt limit, st => (s.approver step prompt limit, st)
  | .call tool inputs limit, st => (s.tools tool inputs limit, st)

end Surroundings

section

variable {ι σ : Type} [DecidableEq ι] [MemoryStore σ]

/-- One turn of a run. -/
def Underway.turn (s : Surroundings) : Underway × σ → Underway × σ
  | (⟨id, log, .done rec⟩, st) => (⟨id, log, .done rec⟩, st)
  | (⟨id, log, .ask q next⟩, st) =>
      let (x, st) := s.answer log.length q st
      (⟨id, log ++ [⟨q, x⟩], next x⟩, st)

/-- A run takes so many turns. -/
def Underway.alone (s : Surroundings) : Nat → Underway × σ → Underway × σ
  | 0, x => x
  | n + 1, x => alone s n (turn s x)

/-- Runs take turns in the given order. -/
def Underway.together (s : ι → Surroundings) : List ι → (ι → Underway) × σ → (ι → Underway) × σ
  | [], x => x
  | i :: rest, (fs, st) =>
      let (f, st) := turn (s i) (fs i, st)
      together s rest (Function.update fs i f, st)

/-- The need was met by the exchange of that number, and gave these bindings. -/
def Underway.Binds (f : Underway) (need : Need) (n : Nat)
    (b : Except StoreError (Fields Json)) : Prop :=
  ∃ found, f.log[n]? = some ⟨.store (.query { need.query f.id with limit := some 1 }), found⟩ ∧
    bindingsOf need found = b

end

/-! ## 1. Twins over two stores -/

section

variable {σ : Type} [MemoryStore σ] {T : Instant → Instant → Prop} [ScopedStore T σ]

open ScopedStore

/-- The run has come as far as its twin over the other store. -/
structure Mirrors (T : Instant → Instant → Prop) [ScopedStore T σ] (x x' : Underway × σ) :
    Prop where
  id : x.1.id = x'.1.id
  log : List.Forall₂ (Agrees T) x.1.log x'.1.log
  rest : Twin T x.1.id (RunRecord.Like T) x.1.rest x'.1.rest
  store : Same T x.1.id x.2 x'.2

/-- A run and its twin are answered alike. -/
theorem Surroundings.Like.answer {s s' : Surroundings} (alike : s.Like T s') {run : RunId}
    {q q' : RunQuestion} (asks : Asks T run q q') {st st' : σ} (same : Same T run st st')
    (n : Nat) :
    Agrees T ⟨q, (s.answer n q st).1⟩ ⟨q', (s'.answer n q' st').1⟩ ∧
      Same T run (s.answer n q st).2 (s'.answer n q' st').2 := by
  cases asks with
  | append like run => exact own same (.append like run) (alike.clock n)
  | query proper run => exact own same (.query proper run) (alike.clock n)
  | time => exact ⟨.time (alike.clock n), same⟩
  | stopRequested =>
    have equal : s.stop n = s'.stop n := congrFun alike.stop n
    refine ⟨?_, same⟩
    show Agrees T ⟨.stopRequested, s.stop n⟩ ⟨.stopRequested, s'.stop n⟩
    exact equal ▸ .stopRequested _
  | approval step prompt limit =>
    have equal : s.approver step prompt limit = s'.approver step prompt limit := by
      rw [alike.approver]
    refine ⟨?_, same⟩
    show Agrees T ⟨.approval step prompt limit, s.approver step prompt limit⟩
      ⟨.approval step prompt limit, s'.approver step prompt limit⟩
    exact equal ▸ .approval ..
  | call tool inputs limit =>
    have equal : s.tools tool inputs limit = s'.tools tool inputs limit := by rw [alike.tools]
    refine ⟨?_, same⟩
    show Agrees T ⟨.call tool inputs limit, s.tools tool inputs limit⟩
      ⟨.call tool inputs limit, s'.tools tool inputs limit⟩
    exact equal ▸ .call ..

/-- What one run asks is not seen by another. -/
theorem same_answer {run other : RunId} {q q' : RunQuestion} (asks : Asks T other q q')
    (apart : other ≠ run) {st st' : σ} (same : Same T run st st') (s : Surroundings) (n : Nat) :
    Same T run (s.answer n q st).2 st' := by
  cases asks with
  | append like own => exact aside same (.append like own) apart (s.clock n)
  | query proper own => exact aside same (.query proper own) apart (s.clock n)
  | time | stopRequested | approval | call => exact same

omit [ScopedStore T σ] in
theorem turn_id (s : Surroundings) (x : Underway × σ) : (Underway.turn s x).1.id = x.1.id := by
  obtain ⟨⟨id, log, rest⟩, st⟩ := x
  cases rest <;> rfl

theorem Mirrors.turn {x x' : Underway × σ} (h : Mirrors T x x') {s s' : Surroundings}
    (alike : s.Like T s') : Mirrors T (Underway.turn s x) (Underway.turn s' x') := by
  obtain ⟨⟨id, log, rest⟩, st⟩ := x
  obtain ⟨⟨id', log', rest'⟩, st'⟩ := x'
  obtain ⟨rfl : id = id', logs, twins, same⟩ := h
  cases twins with
  | done like => exact ⟨rfl, logs, .done like, same⟩
  | @ask q q' next next' asks later =>
    obtain ⟨agrees, kept⟩ := alike.answer asks same log.length
    have length : log.length = log'.length := logs.length_eq
    show Mirrors T (⟨id, log ++ [⟨q, (s.answer log.length q st).1⟩], next _⟩, _)
      (⟨id, log' ++ [⟨q', (s'.answer log'.length q' st').1⟩], next' _⟩, _)
    rw [← length]
    exact ⟨rfl, List.rel_append logs (.cons agrees .nil), later _ _ agrees, kept⟩

/-- A turn of another run changes nothing for this one. -/
theorem Mirrors.aside {x x' : Underway × σ} (h : Mirrors T x x') {f : Underway}
    {y' : Underway × σ} (other : Mirrors T (f, x.2) y') (apart : f.id ≠ x.1.id)
    (s : Surroundings) : Mirrors T (x.1, (Underway.turn s (f, x.2)).2) x' := by
  refine ⟨h.id, h.log, h.rest, ?_⟩
  obtain ⟨id, log, rest⟩ := f
  obtain ⟨⟨id', log', rest'⟩, st'⟩ := y'
  have twins := other.rest
  cases twins with
  | done => exact h.store
  | ask asks => exact same_answer asks apart h.store s _

/-- **In any order of turns, each run keeps up with its twin.** -/
theorem mirrors_together {ι : Type} [DecidableEq ι] {s s' : ι → Surroundings}
    (alike : ∀ i, (s i).Like T (s' i)) (schedule : List ι) {fs : ι → Underway} (st : σ)
    {twins : ι → Underway × σ} (apart : Function.Injective fun i => (fs i).id)
    (h : ∀ i, Mirrors T (fs i, st) (twins i)) (i : ι) :
    Mirrors T ((Underway.together s schedule (fs, st)).1 i,
        (Underway.together s schedule (fs, st)).2)
      (Underway.alone (s' i) (schedule.count i) (twins i)) := by
  induction schedule generalizing fs st twins with
  | nil => exact h i
  | cons j rest ih =>
    -- the twin of the run whose turn it is takes one, and the other twins wait
    have ids : (fun i => (Function.update fs j (Underway.turn (s j) (fs j, st)).1 i).id) =
        fun i => (fs i).id := by
      funext i
      by_cases hi : i = j
      · subst hi
        rw [Function.update_self, turn_id]
      · rw [Function.update_of_ne hi]
    have next (i : ι) : Mirrors T
        (Function.update fs j (Underway.turn (s j) (fs j, st)).1 i,
          (Underway.turn (s j) (fs j, st)).2)
        (Function.update twins j (Underway.turn (s' j) (twins j)) i) := by
      by_cases hi : i = j
      · subst hi
        rw [Function.update_self, Function.update_self]
        exact (h i).turn (alike i)
      · rw [Function.update_of_ne hi, Function.update_of_ne hi]
        exact (h i).aside (h j) (fun same => hi (apart same).symm) (s j)
    have later := ih _ (ids ▸ apart) next
    by_cases hi : i = j
    · subst hi
      rw [Function.update_self] at later
      rw [List.count_cons_self]
      exact later
    · rw [Function.update_of_ne hi] at later
      rw [List.count_cons_of_ne (Ne.symm hi)]
      exact later

end

/-! ## 2. A run alone -/

section

variable {σ : Type} [MemoryStore σ]

namespace Underway

/-- A run that is done takes no more turns. -/
theorem alone_done (s : Surroundings) (n : Nat) {x : Underway × σ} {rec : RunRecord}
    (h : x.1.rest = .done rec) : alone s n x = x := by
  induction n with
  | zero => rfl
  | succ n ih =>
    obtain ⟨⟨id, log, rest⟩, st⟩ := x
    cases h
    exact ih

theorem alone_add (s : Surroundings) (m n : Nat) (x : Underway × σ) :
    alone s (m + n) x = alone s n (alone s m x) := by
  induction m generalizing x with
  | zero => rw [Nat.zero_add, alone]
  | succ m ih => rw [Nat.succ_add, alone, alone, ih]

theorem alone_of_le {s : Surroundings} {m n : Nat} (h : m ≤ n) {x : Underway × σ} {rec : RunRecord}
    (done : (alone s m x).1.rest = .done rec) : alone s n x = alone s m x := by
  rw [← Nat.add_sub_cancel' h, alone_add, alone_done s _ done]

/-- It has one record only. -/
theorem alone_unique {s : Surroundings} {m n : Nat} {x : Underway × σ} {rec rec' : RunRecord}
    (h : (alone s m x).1.rest = .done rec) (h' : (alone s n x).1.rest = .done rec') :
    rec = rec' := by
  rcases Nat.le_total m n with le | le
  · rw [alone_of_le le h, h] at h'
    exact Dialogue.done.inj h'
  · rw [alone_of_le le h', h'] at h
    exact (Dialogue.done.inj h).symm

/-- **A run alone comes to its end.** -/
theorem exists_alone_done (s : Surroundings) (x : Underway × σ) :
    ∃ k rec, (alone s k x).1.rest = .done rec := by
  obtain ⟨⟨id, log, rest⟩, st⟩ := x
  induction rest generalizing log st with
  | done rec => exact ⟨0, rec, rfl⟩
  | ask q next ih =>
    let x := (s.answer log.length q st).1
    obtain ⟨k, rec, h⟩ := ih x (s.answer log.length q st).2 (log ++ [⟨q, x⟩])
    exact ⟨k + 1, rec, h⟩

end Underway

/-! ## 3. Runs of one engine -/

/-- The run goes as the other run does that is alone and ends with the record. -/
structure GoesAlike (T : Instant → Instant → Prop) (f f' : Underway) (rec' : RunRecord) :
    Prop where
  /-- They have asked the same and were answered alike. -/
  log : List.Forall₂ (Agrees T) f.log f'.log
  /-- Their needs have the same bindings. -/
  memory : ∀ need : Need, need.Sees T → ∀ n b, f.Binds need n b ↔ f'.Binds need n b
  record : ∀ rec, f.rest = .done rec → rec.Like T rec'

variable {T : Instant → Instant → Prop}

theorem agrees_getElem? {t t' : RunTrace} (h : List.Forall₂ (Agrees T) t t') (n : Nat) :
    Option.Rel (Agrees T) t[n]? t'[n]? := by
  induction h generalizing n with
  | nil => exact .none
  | cons first _ ih =>
    cases n with
    | zero => exact .some first
    | succ n =>
      rw [List.getElem?_cons_succ, List.getElem?_cons_succ]
      exact ih n

theorem binds_iff {f f' : Underway} (id : f.id = f'.id) (log : List.Forall₂ (Agrees T) f.log f'.log)
    {need : Need} (sees : need.Sees T) (n : Nat) (b : Except StoreError (Fields Json)) :
    f.Binds need n b ↔ f'.Binds need n b := by
  unfold Underway.Binds
  rw [← id]
  have both := agrees_getElem? log n
  generalize f.log[n]? = x at both ⊢
  generalize f'.log[n]? = x' at both ⊢
  constructor
  · rintro ⟨found, rfl, rfl⟩
    cases both with
    | some agrees =>
      obtain ⟨found', rfl⟩ := agrees.query_left
      exact ⟨found', rfl, (bindingsOf_congr sees agrees).symm⟩
  · rintro ⟨found', rfl, rfl⟩
    cases both with
    | some agrees =>
      obtain ⟨found, rfl⟩ := agrees.query_right
      exact ⟨found, rfl, bindingsOf_congr sees agrees⟩

/-- **A run among others goes as it would alone.** -/
theorem runs_keep_apart {ι : Type} [DecidableEq ι] [ScopedStore T σ] {e : Engine}
    {active active' : ι → ActiveRuns} {workflow : ι → String} {id : ι → RunId}
    {provided : ι → Fields Json} {signal : ι → Schedule.Signal}
    {d : ι → RunDialogue RunRecord} {s s' : ι → Surroundings} {st : σ} {own : ι → σ}
    (started : ∀ i, e.start (active i) (workflow i) (id i) (provided i) (signal i) =
      .ok (d i, active' i))
    (distinct : Function.Injective id)
    (sees : ∀ w ∈ e.workflows, ∀ step ∈ w.steps, ∀ need ∈ step.needs, need.Sees T)
    (alike : ∀ i, (s i).Like T (s' i))
    (same : ∀ i, ScopedStore.Same T (id i) st (own i)) (i : ι) :
    ∃ k rec', (Underway.alone (s' i) k (⟨id i, [], d i⟩, own i)).1.rest = .done rec' ∧
      ∀ schedule : List ι,
        let among := (Underway.together s schedule (fun i => ⟨id i, [], d i⟩, st)).1 i
        let alone := (Underway.alone (s' i) (schedule.count i) (⟨id i, [], d i⟩, own i)).1
        GoesAlike T among alone rec' ∧
          (k ≤ schedule.count i → ∃ rec, among.rest = .done rec) := by
  obtain ⟨k, rec', ends⟩ := Underway.exists_alone_done (s' i) (⟨id i, [], d i⟩, own i)
  refine ⟨k, rec', ends, fun schedule => ?_⟩
  intro among alone
  have start (i : ι) : Mirrors T (⟨id i, [], d i⟩, st) (⟨id i, [], d i⟩, own i) := by
    obtain ⟨w, params, hw, -, -, -, run, -⟩ := Engine.start_ok (started i)
    refine ⟨rfl, .nil, ?_, same i⟩
    show Twin T (id i) (RunRecord.Like T) (d i) (d i)
    rw [run]
    exact twin_execute e.config w (id i) params (sees w hw)
  have h := mirrors_together alike schedule st distinct start i
  refine ⟨⟨h.log, fun need sees n b => binds_iff h.id h.log sees n b, ?_⟩, ?_⟩
  · intro rec done
    obtain ⟨rec'', there, like⟩ := Twin.done_left (done ▸ h.rest)
    rwa [Underway.alone_unique ends there]
  · intro enough
    have there : alone.rest = .done rec' :=
      (congrArg (·.1.rest) (Underway.alone_of_le enough ends)).trans ends
    obtain ⟨rec, here, -⟩ := Twin.done_right (there ▸ h.rest)
    exact ⟨rec, here⟩

end

/-! ### Two runs under different clocks -/

def lookupIds : Bool → RunId
  | false => "r1"
  | true => "r2"

/-- Every call finds the same, and each exchange takes so long. -/
def steadyLookup (nanos : Int) : Surroundings where
  clock n := ⟨n * nanos⟩
  stop _ := false
  approver _ _ _ := .denied
  tools _ _ _ := .ok (.ofText "old")

def lookupOf (i : Bool) : RunDialogue RunRecord := execute {} lookupWorkflow (lookupIds i) []

/-- The general statement at two runs of one workflow, the second of which is started while the
first one is in flight. -/
theorem runs_keep_apart_lookup :
    (∀ i, lookupEngine.start (if i then [("r1", [])] else []) "report" (lookupIds i) [] [] =
      .ok (lookupOf i, if i then [("r1", []), ("r2", [])] else [("r1", [])])) ∧
    Function.Injective lookupIds ∧
    (∀ w ∈ lookupEngine.workflows, ∀ step ∈ w.steps, ∀ need ∈ step.needs,
      need.Sees fun _ _ => True) ∧
    (∀ _ : Bool, (steadyLookup 5).Like (fun _ _ => True) (steadyLookup 3)) ∧
    (∀ i, ScopedStore.Same (fun _ _ => True) (lookupIds i) ({} : RunTable) ({} : RunTable)) ∧
    ∃ k rec', (Underway.alone (steadyLookup 3) k
        (⟨"r2", [], lookupOf true⟩, ({} : RunTable))).1.rest = .done rec' ∧
      ∀ schedule : List Bool,
        let among := (Underway.together (fun _ => steadyLookup 5) schedule
          (fun i => ⟨lookupIds i, [], lookupOf i⟩, ({} : RunTable))).1 true
        let alone := (Underway.alone (steadyLookup 3) (schedule.count true)
          (⟨"r2", [], lookupOf true⟩, ({} : RunTable))).1
        GoesAlike (fun _ _ => True) among alone rec' ∧
          (k ≤ schedule.count true → ∃ rec, among.rest = .done rec) := by
  have started (i : Bool) :
      lookupEngine.start (if i then [("r1", [])] else []) "report" (lookupIds i) [] [] =
        .ok (lookupOf i, if i then [("r1", []), ("r2", [])] else [("r1", [])]) := by
    cases i <;> rfl
  have distinct : Function.Injective lookupIds := by
    intro i j
    cases i <;> cases j <;> simp [lookupIds]
  have sees : ∀ w ∈ lookupEngine.workflows, ∀ step ∈ w.steps, ∀ need ∈ step.needs,
      need.Sees fun _ _ => True := by
    simp [lookupEngine, lookupWorkflow, Need.Sees, Need.Timeless]
  have alike (_ : Bool) : (steadyLookup 5).Like (fun _ _ => True) (steadyLookup 3) :=
    ⟨fun _ => trivial, rfl, rfl, rfl⟩
  have same (i : Bool) :
      ScopedStore.Same (fun _ _ => True) (lookupIds i) ({} : RunTable) ({} : RunTable) :=
    List.Forall₂.nil
  exact ⟨started, distinct, sees, alike, same, runs_keep_apart started distinct sees alike same true⟩

end Runbook
