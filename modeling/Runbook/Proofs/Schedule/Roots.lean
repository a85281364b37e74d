import Runbook.Proofs.Schedule.Acts
import Runbook.Proofs.Schedule.Moments

/-!
# Who fires the signal of a run

A run has a signal that is below no other, and the calls that are made for it, and by these again,
have theirs below. A task fires signals below its own only. So whatever tasks do, in whatever order,
the signals of runs stay as they are (`Proceeds.discreet`); what a client does for its run can fire no
other signal of a run.
-/

set_option autoImplicit false

namespace Runbook.Schedule

namespace World

variable {L : Leave} {r : Registry} {w w' w'' : World} {id : TaskId} {c : Call} {k : Worker}
  {s t : Signal} {own : Option Nat}

/-! ## 1. Signals -/

theorem hasFired_iff {fired : List Signal} : hasFired fired s = true ↔ ∃ t ∈ fired, t <:+ s := by
  induction s with
  | nil => simp [hasFired, List.suffix_nil]
  | cons n above ih =>
    rw [hasFired, Bool.or_eq_true, ih, List.contains_iff_mem]
    constructor
    · rintro (own | ⟨t, fired, below⟩)
      · exact ⟨_, own, List.suffix_rfl⟩
      · exact ⟨t, fired, below.trans (List.suffix_cons n above)⟩
    · rintro ⟨t, fired, below⟩
      rcases List.suffix_cons_iff.mp below with rfl | below
      · exact .inl fired
      · exact .inr ⟨t, fired, below⟩

/-- A signal that fires takes those below it along. -/
theorem isStopped_fire_iff : (w.fire s).isStopped t = true ↔ w.isStopped t = true ∨ s <:+ t := by
  unfold fire
  split
  · next stopped =>
    refine ⟨.inl, fun h => h.elim (fun h => h) fun below => ?_⟩
    obtain ⟨u, fired, above⟩ := hasFired_iff.mp stopped
    exact hasFired_iff.mpr ⟨u, fired, above.trans below⟩
  · rw [isStopped, (wakes_keep _ _).2.2.2, isStopped, hasFired_iff, hasFired_iff]
    simp only [List.mem_cons, exists_eq_or_imp]
    exact Or.comm

theorem isStopped_fire_of_not (apart : ¬ s <:+ t) : (w.fire s).isStopped t = w.isStopped t := by
  rw [Bool.eq_iff_iff, isStopped_fire_iff]
  exact or_iff_left apart

/-- Only signals below the base fire. -/
theorem Acts.unfired (h : Acts L w w') (apart : ¬ L.base <:+ t) : w'.isStopped t = w.isStopped t := by
  induction h with
  | refl => rfl
  | tail _ act ih =>
    cases act with
    | quiet _ fired => rw [← ih, isStopped, fired, isStopped]
    | fire below => exact (isStopped_fire_of_not fun h => apart (below.trans h)).trans ih
    | call | worker | hire | make => exact ih

/-! ## 2. Calls below calls -/

/-- Calls and workers have signals below other signals. -/
structure Nested (w : World) : Prop where
  calls : ∀ x c, w.task? x = some (.call c) → 2 ≤ c.signal.length
  workers : ∀ x k, w.task? x = some (.worker k) → 2 ≤ k.signal.length
  waits : ∀ x k wait, w.task? x = some (.worker k) → k.phase = .calling wait → k.signal <:+ wait.own

theorem nested_empty : Nested {} := by
  constructor <;> simp [task?]

theorem Nested.of_tasks (h : w.Nested)
    (calls : ∀ x c, w'.task? x = some (.call c) → w.task? x = some (.call c))
    (workers : ∀ x k, w'.task? x = some (.worker k) → w.task? x = some (.worker k)) : w'.Nested :=
  ⟨fun x c there => h.calls x c (calls x c there), fun x k there => h.workers x k (workers x k there),
    fun x k wait there => h.waits x k wait (workers x k there)⟩

/-- Acts keep to this, if none but a worker's own call is below it. -/
theorem Nested.acts (h : w.Nested) (acts : Acts L w w') (based : L.base ≠ [])
    (change : ∀ x p wait, L.change x p (.calling wait) →
      ∃ k, w.task? x = some (.worker k) ∧ k.signal <:+ wait.own) : w'.Nested := by
  have calls (x : TaskId) (c : Call) (there : w'.task? x = some (.call c)) : 2 ≤ c.signal.length := by
    rcases acts.wasCall there with ⟨c₀, here, alike⟩ | made
    · rw [alike.signal]
      exact h.calls x c₀ here
    · obtain ⟨n, above, signal, below, -⟩ := made.signal
      have long : 0 < L.base.length := List.length_pos_iff.mpr based
      have := below.length_le
      rw [signal, List.length_cons]
      omega
  refine ⟨calls, fun x k there => ?_, fun x k wait there calling => ?_⟩
  · rcases acts.wasWorker there with none | ⟨k₀, here⟩
    · obtain ⟨-, -, c, hires⟩ := acts.newWorker none there
      rw [hires.signal]
      exact calls _ c hires.maker
    · obtain ⟨k₁, there₁, alike, -⟩ := acts.worker here
      cases there.symm.trans there₁
      rw [alike.signal]
      exact h.workers x k₀ here
  · rcases acts.wasWorker there with none | ⟨k₀, here⟩
    · obtain ⟨-, phase, -⟩ := acts.newWorker none there
      rw [calling] at phase
      rcases Relation.ReflTransGen.cases_tail phase with same | ⟨p, -, one⟩
      · cases same
      · obtain ⟨k', here, -⟩ := change x p wait one
        cases here.symm.trans none
    · obtain ⟨k₁, there₁, alike, phase⟩ := acts.worker here
      cases there.symm.trans there₁
      rw [calling] at phase
      rw [alike.signal]
      rcases Relation.ReflTransGen.cases_tail phase with same | ⟨p, -, one⟩
      · exact h.waits x k₀ wait here same.symm
      · obtain ⟨k', here', below⟩ := change x p wait one
        cases here.symm.trans here'
        exact below

/-! ## 3. What is spared -/

/-- Of the signals of runs none but `[n]` for the given `n` may have fired. -/
structure Discreet (own : Option Nat) (w w' : World) : Prop where
  nested : w'.Nested
  roots : ∀ n, own ≠ some n → w'.isStopped [n] = w.isStopped [n]
  signals : w.signals ≤ w'.signals

theorem Discreet.refl (h : w.Nested) : Discreet own w w := ⟨h, fun _ _ => rfl, Nat.le_refl _⟩

theorem Discreet.trans (first : Discreet own w w') (later : Discreet own w' w'') :
    Discreet own w w'' :=
  ⟨later.nested, fun n other => (later.roots n other).trans (first.roots n other),
    Nat.le_trans first.signals later.signals⟩

theorem not_suffix_root (long : 2 ≤ s.length) (n : Nat) : ¬ s <:+ [n] := by
  intro below
  have := below.length_le
  simp only [List.length_singleton] at this
  omega

theorem Discreet.of_acts (acts : Acts L w w') (nested : w'.Nested) (long : 2 ≤ L.base.length) :
    Discreet own w w' :=
  ⟨nested, fun n _ => acts.unfired (not_suffix_root long n), acts.signals⟩

/-- Nothing has fired, and no call or worker is new or has changed. -/
theorem Discreet.of_quiet (h : w.Nested)
    (calls : ∀ x c, w'.task? x = some (.call c) → w.task? x = some (.call c))
    (workers : ∀ x k, w'.task? x = some (.worker k) → w.task? x = some (.worker k))
    (fired : w'.fired = w.fired) (signals : w.signals ≤ w'.signals) : Discreet own w w' :=
  ⟨h.of_tasks calls workers, fun n _ => by rw [isStopped, fired, isStopped], signals⟩

theorem Discreet.of_tasks (h : w.Nested) (tasks : w'.tasks = w.tasks) (fired : w'.fired = w.fired)
    (signals : w.signals ≤ w'.signals) : Discreet own w w' := by
  have same (x : TaskId) : w'.task? x = w.task? x := congrArg (·[x]?) tasks
  exact .of_quiet h (fun x c there => (same x).symm.trans there)
    (fun x k there => (same x).symm.trans there) fired signals

theorem discreet_wake (h : w.Nested) (id : TaskId) : Discreet own w (w.wake id) :=
  .of_tasks h (tasks_wake w id) (fired_wake w id) (Nat.le_of_eq (signals_wake w id).symm)

theorem discreet_setTimer (h : w.Nested) (moment : Nat) (id : TaskId) :
    Discreet own w (w.setTimer moment id) :=
  .of_tasks h rfl rfl (Nat.le_refl _)

theorem discreet_spawnIdle (h : w.Nested) (watched : Option Signal) :
    Discreet own w (w.spawnIdle (.client watched)).2 := by
  have new {x : TaskId} {t : Task} (there : (w.spawnIdle (.client watched)).2.task? x = some t) :
      t = .client watched ∨ w.task? x = some t := by
    rcases task?_spawn_cases w (.client watched) x with ⟨-, client⟩ | same
    · exact .inl (Option.some.inj (there.symm.trans client))
    · exact .inr (same.symm.trans there)
  refine .of_quiet h (fun x c there => ?_) (fun x k there => ?_) rfl (Nat.le_refl _)
  · exact (new there).resolve_left (by simp)
  · exact (new there).resolve_left (by simp)

theorem discreet_setClient (h : w.Nested) (id : TaskId) (watched : Option Signal) :
    Discreet own w (w.setTask id (.client watched)) := by
  have new {x : TaskId} {t : Task} (there : (w.setTask id (.client watched)).task? x = some t) :
      t = .client watched ∨ w.task? x = some t := by
    by_cases same : id = x
    · subst same
      rw [task?, setTask, Array.getElem?_setIfInBounds_self] at there
      split at there
      · exact .inl (Option.some.inj there).symm
      · cases there
    · exact .inr ((task?_setTask_ne _ same).symm.trans there)
  refine .of_quiet h (fun x c there => ?_) (fun x k there => ?_) rfl (Nat.le_refl _)
  · exact (new there).resolve_left (by simp)
  · exact (new there).resolve_left (by simp)

theorem Discreet.of_fire (h : w.Nested) (roots : ∀ n, own ≠ some n → ¬ s <:+ [n]) :
    Discreet own w (w.fire s) :=
  ⟨h.of_tasks (fun x _ there => (task?_fire w s x).symm.trans there)
    (fun x _ there => (task?_fire w s x).symm.trans there),
    fun n other => isStopped_fire_of_not (roots n other), Nat.le_of_eq (signals_fire w s).symm⟩

theorem discreet_fire (h : w.Nested) (long : 2 ≤ s.length) : Discreet own w (w.fire s) :=
  .of_fire h fun n _ => not_suffix_root long n

theorem discreet_fire_own (h : w.Nested) (n : Nat) : Discreet (some n) w (w.fire [n]) := by
  refine .of_fire h fun m other below => other ?_
  rcases List.suffix_cons_iff.mp below with same | below
  · rw [List.cons.inj same |>.1]
  · simp at below

/-- Nobody's call is below it. -/
theorem discreet_pollWait (h : w.Nested) {wait : Wait} (long : 2 ≤ wait.own.length) :
    Discreet own w (w.pollWait wait).2 := by
  let L : Leave := ⟨wait.own, fun _ => True, fun _ => True, fun _ _ _ => False⟩
  have acts : Acts L w (w.pollWait wait).2 := acts_pollWait w List.suffix_rfl
  have based : wait.own ≠ [] := by
    rintro none
    simp [none] at long
  exact .of_acts acts (h.acts acts based fun _ _ _ never => never.elim) long

/-- The call that is made for a run has a signal below that of the run. -/
theorem discreet_startCall (h : w.Nested) (r : Registry) (tool : String) (inputs : Fields Json)
    {n : Nat} (limit : Option Nat) (caller : TaskId) :
    Discreet own w (startCall r w tool inputs [n] limit caller).2 := by
  let L : Leave := ⟨[n], fun _ => True, fun _ => True, fun _ _ _ => False⟩
  have acts : Acts L w (startCall r w tool inputs [n] limit caller).2 :=
    acts_startCall r w tool inputs List.suffix_rfl limit caller
  refine ⟨h.acts acts (by simp [L]) fun _ _ _ never => never.elim, fun m _ => ?_, acts.signals⟩
  unfold startCall
  split <;> rfl

theorem startCall_long {n : Nat} {tool : String} {inputs : Fields Json} {limit : Option Nat}
    {caller : TaskId} {wait : Wait}
    (h : startCall r w tool inputs [n] limit caller = (.ok wait, w')) : 2 ≤ wait.own.length := by
  unfold startCall at h
  split at h
  · cases h
  · cases h
    exact Nat.le_refl 2

/-! ## 4. Tasks go on -/

/-- A task goes on, or time passes; in any order. -/
inductive Proceeds (r : Registry) (w : World) : World → Prop where
  | call {id : TaskId} {c : Call} {ready : List TaskId} (here : w.task? id = some (.call c)) :
      Proceeds r w (pollCall { w with ready } r id c)
  | worker {id : TaskId} {k : Worker} {ready : List TaskId} (here : w.task? id = some (.worker k)) :
      Proceeds r w (pollWorker { w with ready } r id k)
  | time {w' : World} (tasks : w'.tasks = w.tasks) (fired : w'.fired = w.fired)
      (signals : w'.signals = w.signals) : Proceeds r w w'

/-- What a worker may do. -/
def workerLeave (id : TaskId) (k : Worker) : Leave :=
  ⟨k.signal, fun _ => True, fun _ => True,
    fun x _ p => ∀ wait, p = .calling wait → x = id ∧ k.signal <:+ wait.own⟩

theorem acts_pollWorker (r : Registry) (here : w.task? id = some (.worker k))
    (waits : ∀ wait, k.phase = .calling wait → k.signal <:+ wait.own) :
    Acts (workerLeave id k) w (w.pollWorker r id k) := by
  have turn : MayTurn (workerLeave id k) w k := ⟨trivial, by rintro _ _ _ _ _ _ ⟨⟩⟩
  by_cases starts : k.aborted = false ∧ ∃ m, Starts w k m
  · obtain ⟨kept, m, starts⟩ := starts
    refine acts_starts r here kept starts List.suffix_rfl ?_ (by rintro _ ⟨⟩) turn
    rintro wait below _ ⟨⟩
    exact ⟨rfl, below⟩
  · refine acts_silent r here (fun kept m h => starts ⟨kept, m, h⟩) waits ?_ ?_ turn
    · rintro _ _ ⟨⟩
    · rintro _ _ ⟨⟩

/-- **What tasks do fires no signal of a run.** -/
theorem Proceeds.discreet (h : Proceeds r w w') (nested : w.Nested) : Discreet none w w' := by
  cases h with
  | @call id c ready here =>
    have popped : Nested { w with ready } := ⟨nested.calls, nested.workers, nested.waits⟩
    let L : Leave := ⟨c.signal, fun _ => True, fun _ => True, fun _ _ _ => False⟩
    have acts : Acts L { w with ready } (pollCall { w with ready } r id c) :=
      acts_pollCall r here trivial trivial List.suffix_rfl
    have long := nested.calls id c here
    have based : L.base ≠ [] := List.ne_nil_of_length_pos (by show 0 < c.signal.length; omega)
    have discreet : Discreet none { w with ready } _ :=
      .of_acts acts (popped.acts acts based fun _ _ _ never => never.elim) long
    exact ⟨discreet.nested, discreet.roots, discreet.signals⟩
  | @worker id k ready here =>
    have popped : Nested { w with ready } := ⟨nested.calls, nested.workers, nested.waits⟩
    have acts : Acts (workerLeave id k) { w with ready } (pollWorker { w with ready } r id k) :=
      acts_pollWorker r here fun wait => nested.waits id k wait here
    have long := nested.workers id k here
    have based : (workerLeave id k).base ≠ [] :=
      List.ne_nil_of_length_pos (by show 0 < k.signal.length; omega)
    have discreet : Discreet none { w with ready } _ :=
      .of_acts acts (popped.acts acts based fun x p wait change => by
        obtain ⟨rfl, below⟩ := change wait rfl
        exact ⟨k, here, below⟩) long
    exact ⟨discreet.nested, discreet.roots, discreet.signals⟩
  | time tasks fired signals => exact .of_tasks nested tasks fired (Nat.le_of_eq signals.symm)

/-- One step of the schedule. -/
theorem proceeds_of_step (h : w.step r = (none, w')) : Proceeds r w w' := by
  unfold step at h
  split at h
  · cases h
  · next id ready line =>
    dsimp only at h
    split at h
    · next c here =>
      cases h
      exact .call here
    · next k here =>
      cases h
      exact .worker here
    · cases h
    · cases h
      exact .time rfl rfl rfl

/-- Time passes. -/
theorem proceeds_of_advance? (h : w.advance? = some w') : Proceeds r w w' := by
  obtain ⟨-, -, -, -, tasks, fired, -, -⟩ := advance?_cases h
  refine .time tasks fired ?_
  unfold advance? at h
  split at h
  · cases h
  · obtain rfl := Option.some.inj h
    rw [← List.foldl_map, signals_wakes]

end World
end Runbook.Schedule
