import Runbook.Proofs.Schedule.Clients
import Runbook.Proofs.Tool.FanOut

/-!
# What the going on of a task leaves alone

Tasks of the schedule do not get in each other's way. A task that goes on sets itself and its
*family*, the workers of a fan-out with the call that gathers from them; it may start calls and give
some up. `Within S w w'` says that no tasks have been set but those in `S`, that nobody in line has
left it, and that whoever waits for something that has happened is in line.

There is one lemma for each operation of the world, in the order of the definitions. What an
operation needs to know of the tasks that it is about stands in its hypotheses.
-/

set_option autoImplicit false

namespace Runbook.Schedule

/-! ## 1. What stays of a task -/

/-- What becomes of a task that is left alone: a call may be given up, and someone outside may watch
another signal. -/
inductive Task.Kept : Task → Task → Prop where
  | same (t : Task) : Kept t t
  | aborted (c : Call) : Kept (.call c) (.call { c with aborted := true })
  | watched (s s' : Option Signal) : Kept (.client s) (.client s')

theorem Task.Kept.trans {t t' t'' : Task} (first : t.Kept t') (later : t'.Kept t'') :
    t.Kept t'' := by
  cases first with
  | same => exact later
  | aborted c =>
    cases later with
    | same => exact .aborted c
    | aborted => exact .aborted c
  | watched s =>
    cases later with
    | same => exact .watched s _
    | watched => exact .watched s _

theorem Task.Kept.worker {k : Worker} {t : Task} (h : (Task.worker k).Kept t) : t = .worker k := by
  cases h
  rfl

/-- A task that others may have made: a call that has not begun, or someone outside. -/
inductive Task.New : Task → Prop where
  | call (c : Call) (fresh : c.phase = .fresh) : New (.call c)
  | client (watched : Option Signal) : New (.client watched)

theorem Task.New.kept {t t' : Task} (new : t.New) (h : t.Kept t') : t'.New := by
  cases h with
  | same => exact new
  | aborted c =>
    cases new with
    | call _ fresh => exact .call _ fresh
  | watched s s' => exact .client s'

/-- What was asked for is the same. -/
structure Call.Alike (c c' : Call) : Prop where
  tool : c'.tool = c.tool
  inputs : c'.inputs = c.inputs
  unchecked : c'.unchecked = c.unchecked
  signal : c'.signal = c.signal
  limit : c'.limit = c.limit
  caller : c'.caller = c.caller

theorem Call.Alike.refl (c : Call) : c.Alike c := ⟨rfl, rfl, rfl, rfl, rfl, rfl⟩

theorem Call.alike_aborted (c : Call) : c.Alike { c with aborted := true } :=
  ⟨rfl, rfl, rfl, rfl, rfl, rfl⟩

theorem Call.alike_phase (c : Call) (phase : CallPhase) : c.Alike { c with phase } :=
  ⟨rfl, rfl, rfl, rfl, rfl, rfl⟩

theorem Call.Alike.trans {c c' c'' : Call} (first : c.Alike c') (later : c'.Alike c'') :
    c.Alike c'' where
  tool := later.tool.trans first.tool
  inputs := later.inputs.trans first.inputs
  unchecked := later.unchecked.trans first.unchecked
  signal := later.signal.trans first.signal
  limit := later.limit.trans first.limit
  caller := later.caller.trans first.caller

theorem Call.Alike.symm {c c' : Call} (h : c.Alike c') : c'.Alike c :=
  ⟨h.tool.symm, h.inputs.symm, h.unchecked.symm, h.signal.symm, h.limit.symm, h.caller.symm⟩

/-- The call has gone on, if at all: a call that has begun has done so, and one that is over stays
so. -/
structure Call.Grows (c c' : Call) : Prop extends c.Alike c' where
  begun : c.phase ≠ .fresh → c'.phase ≠ .fresh
  isOver : ∀ e, c.phase = .over e → c'.phase = .over e

theorem Call.Grows.refl (c : Call) : c.Grows c := ⟨.refl c, fun h => h, fun _ h => h⟩

theorem Call.Grows.trans {c c' c'' : Call} (first : c.Grows c') (later : c'.Grows c'') :
    c.Grows c'' :=
  ⟨first.toAlike.trans later.toAlike, fun h => later.begun (first.begun h),
    fun e h => later.isOver e (first.isOver e h)⟩

theorem Call.grows_aborted (c : Call) : c.Grows { c with aborted := true } :=
  ⟨c.alike_aborted, fun h => h, fun _ h => h⟩

/-- The worker is for the same query. -/
structure Worker.Alike (k k' : Worker) : Prop where
  gatherer : k'.gatherer = k.gatherer
  query : k'.query = k.query
  signal : k'.signal = k.signal

theorem Worker.Alike.refl (k : Worker) : k.Alike k := ⟨rfl, rfl, rfl⟩

theorem Worker.alike_aborted (k : Worker) : k.Alike { k with aborted := true } := ⟨rfl, rfl, rfl⟩

theorem Worker.alike_phase (k : Worker) (phase : WorkerPhase) : k.Alike { k with phase } :=
  ⟨rfl, rfl, rfl⟩

theorem Worker.Alike.trans {k k' k'' : Worker} (first : k.Alike k') (later : k'.Alike k'') :
    k.Alike k'' :=
  ⟨later.gatherer.trans first.gatherer, later.query.trans first.query,
    later.signal.trans first.signal⟩

namespace World

/-! ## 2. Footprints -/

/-- The call is over only since someone wakes its maker. -/
def Announced (w : World) (c c' : Call) : Prop :=
  ∀ e, c'.phase = .over e → c.phase = .over e ∨ c.caller ∈ w.ready

/-- There is a call of that name. -/
def HasCall (w : World) (id : TaskId) : Prop := ∃ c, w.task? id = some (.call c)

/-- If the worker waits for a call now, it did before, or there is that call. -/
def Employs (w : World) (k k' : Worker) : Prop :=
  ∀ wait, k'.phase = .calling wait → k.phase = .calling wait ∨ w.HasCall wait.call

/-- No tasks are set but those in `S`. -/
structure Within (S : TaskId → Prop) (w w' : World) : Prop where
  kept : ∀ x t, ¬ S x → w.task? x = some t → ∃ t', w'.task? x = some t' ∧ t.Kept t'
  born : ∀ x t, ¬ S x → w.task? x = none → w'.task? x = some t → t.New
  line : ∀ x c, ¬ S x → w.task? x = none → w'.task? x = some (.call c) → x ∈ w'.ready
  calls : ∀ x c, w.task? x = some (.call c) →
    ∃ c', w'.task? x = some (.call c') ∧ c.Grows c' ∧ w'.Announced c c'
  workers : ∀ x k, w.task? x = some (.worker k) →
    ∃ k', w'.task? x = some (.worker k') ∧ k.Alike k' ∧ w'.Employs k k'
  ready : ∀ x ∈ w.ready, x ∈ w'.ready
  fired : ∀ s, w.isStopped s = true → w'.isStopped s = true
  /-- A worker that waits is woken if its signal fires. -/
  woken : ∀ x k wait, ¬ S x → w.task? x = some (.worker k) → k.phase = .calling wait →
    w'.isStopped wait.signal = true → w.isStopped wait.signal = true ∨ x ∈ w'.ready

variable {S S' : TaskId → Prop} {w w' w'' : World}

namespace Within

theorem refl (w : World) : Within S w w where
  kept _ t _ h := ⟨t, h, .same t⟩
  born _ _ _ none some := by simp [none] at some
  line _ _ _ none some := by simp [none] at some
  calls _ c h := ⟨c, h, .refl c, fun _ isOver => .inl isOver⟩
  workers _ k h := ⟨k, h, .refl k, fun _ calling => .inl calling⟩
  ready _ h := h
  fired _ h := h
  woken _ _ _ _ _ _ h := .inl h

/-- A worker that is left alone stays the same. -/
theorem keptWorker (h : Within S w w') {x : TaskId} {k : Worker} (outside : ¬ S x)
    (here : w.task? x = some (.worker k)) : w'.task? x = some (.worker k) := by
  obtain ⟨t, there, kept⟩ := h.kept x _ outside here
  rwa [kept.worker] at there

/-- A call that is left alone stays the same, but may be given up. -/
theorem keptCall (h : Within S w w') {x : TaskId} {c : Call} (outside : ¬ S x)
    (here : w.task? x = some (.call c)) :
    ∃ c', w'.task? x = some (.call c') ∧ c.Alike c' ∧ c'.phase = c.phase := by
  obtain ⟨t, there, kept⟩ := h.kept x _ outside here
  cases kept with
  | same => exact ⟨c, there, .refl c, rfl⟩
  | aborted => exact ⟨_, there, c.alike_aborted, rfl⟩

theorem wasWorker (h : Within S w w') {x : TaskId} {k : Worker} (outside : ¬ S x)
    (there : w'.task? x = some (.worker k)) : w.task? x = some (.worker k) := by
  cases here : w.task? x with
  | none => cases h.born x _ outside here there
  | some t =>
    obtain ⟨t', there', kept⟩ := h.kept x t outside here
    cases there.symm.trans there'
    cases kept
    rfl

theorem wasCall (h : Within S w w') {x : TaskId} {c' : Call} (outside : ¬ S x)
    (there : w'.task? x = some (.call c')) :
    (c'.phase = .fresh ∧ x ∈ w'.ready) ∨
      ∃ c, w.task? x = some (.call c) ∧ c.Alike c' ∧ c'.phase = c.phase := by
  cases here : w.task? x with
  | none =>
    cases h.born x _ outside here there with
    | call _ fresh => exact .inl ⟨fresh, h.line x c' outside here there⟩
  | some t =>
    obtain ⟨t', there', kept⟩ := h.kept x t outside here
    cases there.symm.trans there'
    cases kept with
    | same => exact .inr ⟨c', rfl, .refl c', rfl⟩
    | aborted c => exact .inr ⟨c, rfl, c.alike_aborted, rfl⟩

theorem hasCall (h : Within S w w') {id : TaskId} (there : w.HasCall id) : w'.HasCall id := by
  obtain ⟨c, hc⟩ := there
  obtain ⟨c', hc', -⟩ := h.calls id c hc
  exact ⟨c', hc'⟩

theorem trans (first : Within S w w') (later : Within S w' w'') : Within S w w'' where
  kept x t hx h := by
    obtain ⟨t', h', k'⟩ := first.kept x t hx h
    obtain ⟨t'', h'', k''⟩ := later.kept x t' hx h'
    exact ⟨t'', h'', k'.trans k''⟩
  born x t hx none some := by
    cases there : w'.task? x with
    | none => exact later.born x t hx there some
    | some t' =>
      obtain ⟨t'', h'', kept⟩ := later.kept x t' hx there
      obtain rfl := Option.some.inj (some.symm.trans h'')
      exact (first.born x t' hx none there).kept kept
  line x c hx none some := by
    cases there : w'.task? x with
    | none => exact later.line x c hx there some
    | some t =>
      obtain ⟨t', there', kept⟩ := later.kept x t hx there
      cases some.symm.trans there'
      cases kept <;> exact later.ready x (first.line x _ hx none there)
  calls x c h := by
    obtain ⟨c', h', grows', announced'⟩ := first.calls x c h
    obtain ⟨c'', h'', grows'', announced''⟩ := later.calls x c' h'
    refine ⟨c'', h'', grows'.trans grows'', fun e isOver => ?_⟩
    rcases announced'' e isOver with isOver | woken
    · exact (announced' e isOver).imp_right (later.ready _)
    · exact .inr (grows'.caller ▸ woken)
  workers x k h := by
    obtain ⟨k', h', alike', employs'⟩ := first.workers x k h
    obtain ⟨k'', h'', alike'', employs''⟩ := later.workers x k' h'
    refine ⟨k'', h'', alike'.trans alike'', fun wait calling => ?_⟩
    rcases employs'' wait calling with calling | call
    · exact (employs' wait calling).imp_right later.hasCall
    · exact .inr call
  ready x h := later.ready x (first.ready x h)
  fired s h := later.fired s (first.fired s h)
  woken x k wait hx h calling stopped := by
    have h' := first.keptWorker hx h
    rcases later.woken x k wait hx h' calling stopped with stopped | woken
    · exact (first.woken x k wait hx h calling stopped).imp_right (later.ready x)
    · exact .inr woken

theorem mono (sub : ∀ x, S x → S' x) (h : Within S w w') : Within S' w w' where
  kept x t hx := h.kept x t fun hs => hx (sub x hs)
  born x t hx := h.born x t fun hs => hx (sub x hs)
  line x c hx := h.line x c fun hs => hx (sub x hs)
  calls := h.calls
  workers := h.workers
  ready := h.ready
  fired := h.fired
  woken x k wait hx := h.woken x k wait fun hs => hx (sub x hs)

theorem foldl {α : Type} {f : World → α → World} {as : List α}
    (step : ∀ a ∈ as, ∀ w, Within S w (f w a)) (w : World) : Within S w (as.foldl f w) := by
  induction as generalizing w with
  | nil => exact .refl w
  | cons a as ih =>
    rw [List.forall_mem_cons] at step
    exact (step.1 w).trans (ih step.2 (f w a))

/-- The tasks are the same ones. -/
theorem of_tasks (tasks : w'.tasks = w.tasks) (ready : ∀ x ∈ w.ready, x ∈ w'.ready)
    (fired : w'.fired = w.fired) : Within S w w' := by
  have same (x : TaskId) : w'.task? x = w.task? x := congrArg (·[x]?) tasks
  have stopped (s : Signal) : w'.isStopped s = w.isStopped s := by rw [isStopped, isStopped, fired]
  constructor
  · exact fun x t _ h => ⟨t, (same x).trans h, .same t⟩
  · intro x t _ none some
    rw [same, none] at some
    cases some
  · intro x c _ none some
    rw [same, none] at some
    cases some
  · exact fun x c h => ⟨c, (same x).trans h, .refl c, fun _ isOver => .inl isOver⟩
  · exact fun x k h => ⟨k, (same x).trans h, .refl k, fun _ calling => .inl calling⟩
  · exact ready
  · exact fun s h => (stopped s).trans h
  · exact fun _ _ wait _ _ _ h => .inl ((stopped wait.signal).symm.trans h)

end Within

/-! ## 3. The world -/

theorem task?_setTask_self {t t' : Task} {id : TaskId} (h : w.task? id = some t) :
    (w.setTask id t').task? id = some t' :=
  Array.getElem?_setIfInBounds_self_of_lt (Array.getElem?_eq_some_iff.mp h).1

theorem task?_setTask_ne {id x : TaskId} (t : Task) (h : id ≠ x) :
    (w.setTask id t).task? x = w.task? x :=
  Array.getElem?_setIfInBounds_ne h

@[simp] theorem tasks_wake (w : World) (id : TaskId) : (w.wake id).tasks = w.tasks := by
  unfold wake
  split <;> rfl

@[simp] theorem fired_wake (w : World) (id : TaskId) : (w.wake id).fired = w.fired := by
  unfold wake
  split <;> rfl

theorem mem_ready_wake_of (w : World) (id : TaskId) {x : TaskId} (h : x ∈ w.ready) :
    x ∈ (w.wake id).ready :=
  (minds_wake (s := []) w id).ready h

theorem within_wake (w : World) (id : TaskId) : Within S w (w.wake id) :=
  .of_tasks (tasks_wake w id) (fun _ => mem_ready_wake_of w id) (fired_wake w id)

/-- One task is set, and someone may be woken. -/
theorem within_set {id : TaskId} {t t' : Task} (here : w.task? id = some t)
    (tasks : w'.tasks = (w.setTask id t').tasks) (ready : ∀ x ∈ w.ready, x ∈ w'.ready)
    (fired : w'.fired = w.fired) (own : ¬ S id → t.Kept t')
    (call : ∀ c, t = .call c → ∃ c', t' = .call c' ∧ c.Grows c' ∧ w'.Announced c c')
    (worker : ∀ k, t = .worker k → ∃ k', t' = .worker k' ∧ k.Alike k' ∧ w'.Employs k k') :
    Within S w w' := by
  have there : w'.task? id = some t' :=
    (congrArg (·[id]?) tasks).trans (task?_setTask_self here)
  have elsewhere {x : TaskId} (h : id ≠ x) : w'.task? x = w.task? x :=
    (congrArg (·[x]?) tasks).trans (task?_setTask_ne t' h)
  have stopped (s : Signal) : w'.isStopped s = w.isStopped s := by rw [isStopped, isStopped, fired]
  constructor
  · intro x u hx h
    by_cases same : id = x
    · subst same
      cases here.symm.trans h
      exact ⟨t', there, own hx⟩
    · exact ⟨u, (elsewhere same).trans h, .same u⟩
  · intro x u _ none some
    by_cases same : id = x
    · subst same
      cases here.symm.trans none
    · rw [elsewhere same, none] at some
      cases some
  · intro x c _ none some
    by_cases same : id = x
    · subst same
      cases here.symm.trans none
    · rw [elsewhere same, none] at some
      cases some
  · intro x c h
    by_cases same : id = x
    · subst same
      obtain ⟨c', rfl, grows, announced⟩ := call c (Option.some.inj (here.symm.trans h))
      exact ⟨c', there, grows, announced⟩
    · exact ⟨c, (elsewhere same).trans h, .refl c, fun _ isOver => .inl isOver⟩
  · intro x k h
    by_cases same : id = x
    · subst same
      obtain ⟨k', rfl, alike, employs⟩ := worker k (Option.some.inj (here.symm.trans h))
      exact ⟨k', there, alike, employs⟩
    · exact ⟨k, (elsewhere same).trans h, .refl k, fun _ calling => .inl calling⟩
  · exact ready
  · exact fun s h => (stopped s).trans h
  · exact fun _ _ wait _ _ _ h => .inl ((stopped wait.signal).symm.trans h)

/-- A call that is not over yet, of which `c` is a later form. -/
def Open (w : World) (id : TaskId) (c : Call) : Prop :=
  ∃ c₀, w.task? id = some (.call c₀) ∧ (∀ e, c₀.phase ≠ .over e) ∧ c₀.Alike c

theorem Open.hasCall {id : TaskId} {c : Call} (h : w.Open id c) : w.HasCall id := by
  obtain ⟨c₀, there, -⟩ := h
  exact ⟨c₀, there⟩

theorem Open.within {id : TaskId} {c : Call} (h : w.Open id c) (within : Within S w w')
    (outside : ¬ S id) : w'.Open id c := by
  obtain ⟨c₀, here, unfinished, alike⟩ := h
  obtain ⟨c₁, there, alike₁, phase⟩ := within.keptCall outside here
  exact ⟨c₁, there, phase ▸ unfinished, alike₁.symm.trans alike⟩

theorem Open.alike {id : TaskId} {c c' : Call} (h : w.Open id c) (alike : c.Alike c') :
    w.Open id c' := by
  obtain ⟨c₀, here, unfinished, before⟩ := h
  exact ⟨c₀, here, unfinished, before.trans alike⟩

/-- A call goes on, and is not over. -/
theorem within_setCall {id : TaskId} {c : Call} (inside : S id) (here : w.Open id c)
    (begun : c.phase ≠ .fresh) (unfinished : ∀ e, c.phase ≠ .over e) :
    Within S w (w.setTask id (.call c)) ∧ (w.setTask id (.call c)).Open id c := by
  obtain ⟨c₀, there, before, alike⟩ := here
  refine ⟨within_set there rfl (fun _ h => h) rfl (absurd inside) (fun c₁ same => ?_) (by simp),
    c, task?_setTask_self there, unfinished, .refl c⟩
  cases same
  exact ⟨c, rfl, ⟨alike, fun _ => begun, fun e isOver => absurd isOver (before e)⟩,
    fun e isOver => absurd isOver (unfinished e)⟩

theorem within_setWorker {id : TaskId} {k k' : Worker} (inside : S id)
    (here : w.task? id = some (.worker k)) (alike : k.Alike k')
    (employs : (w.setTask id (.worker k')).Employs k k') :
    Within S w (w.setTask id (.worker k')) :=
  within_set here rfl (fun _ h => h) rfl (absurd inside) (by simp) fun k₁ same => by
    cases same
    exact ⟨k', rfl, alike, employs⟩

/-- A new task has a name that nobody had. -/
theorem task?_spawn (w : World) (t : Task) (x : TaskId) :
    (w.spawn t).2.task? x = if x = w.tasks.size then some t else w.task? x :=
  Array.getElem?_push

theorem within_push {t : Task} (tasks : w'.tasks = w.tasks.push t)
    (ready : ∀ x ∈ w.ready, x ∈ w'.ready) (fired : w'.fired = w.fired)
    (new : ¬ S w.tasks.size → t.New) (line : ∀ c, t = .call c → w.tasks.size ∈ w'.ready) :
    Within S w w' := by
  have there (x : TaskId) : w'.task? x = if x = w.tasks.size then some t else w.task? x :=
    (congrArg (·[x]?) tasks).trans Array.getElem?_push
  have old {x : TaskId} {u : Task} (h : w.task? x = some u) : w'.task? x = some u :=
    (congrArg (·[x]?) tasks).trans (task?_push h)
  have stopped (s : Signal) : w'.isStopped s = w.isStopped s := by rw [isStopped, isStopped, fired]
  constructor
  · exact fun x u _ h => ⟨u, old h, .same u⟩
  · intro x u hx none some
    rw [there] at some
    split at some
    · next last =>
      cases some
      exact new (last ▸ hx)
    · rw [none] at some
      cases some
  · intro x c _ none some
    rw [there] at some
    split at some
    · next last => exact last ▸ line c (Option.some.inj some)
    · rw [none] at some
      cases some
  · exact fun x c h => ⟨c, old h, .refl c, fun _ isOver => .inl isOver⟩
  · exact fun x k h => ⟨k, old h, .refl k, fun _ calling => .inl calling⟩
  · exact ready
  · exact fun s h => (stopped s).trans h
  · exact fun _ _ wait _ _ _ h => .inl ((stopped wait.signal).symm.trans h)

theorem within_spawn (w : World) {t : Task} (new : ¬ S w.tasks.size → t.New) :
    Within S w (w.spawn t).2 :=
  within_push rfl (fun _ h => List.mem_append_left _ h) rfl new fun _ _ =>
    List.mem_append_right _ (List.mem_singleton.mpr rfl)

theorem within_spawnIdle (w : World) (watched : Option Signal) :
    Within S w (w.spawnIdle (.client watched)).2 :=
  within_push rfl (fun _ h => h) rfl (fun _ => .client watched) (by simp)

theorem within_note (w : World) (vs : List Json) : Within S w (w.note vs) :=
  .of_tasks rfl (fun _ h => h) rfl

theorem within_newSignal (w : World) (above : Signal) : Within S w (w.newSignal above).2 :=
  .of_tasks rfl (fun _ h => h) rfl

theorem within_setTimer (w : World) (moment : Nat) (id : TaskId) :
    Within S w (w.setTimer moment id) :=
  .of_tasks rfl (fun _ h => h) rfl

theorem tasks_wakes (w : World) (ids : List TaskId) : (ids.foldl wake w).tasks = w.tasks := by
  induction ids generalizing w with
  | nil => rfl
  | cons id ids ih => exact (ih _).trans (tasks_wake w id)

@[simp] theorem task?_fire (w : World) (s : Signal) (x : TaskId) :
    (w.fire s).task? x = w.task? x := by
  unfold fire
  split
  · rfl
  · exact congrArg (·[x]?) (tasks_wakes _ _)

/-- The workers that wait with a signal that fires are woken. -/
theorem within_fire (w : World) (s : Signal) : Within S w (w.fire s) := by
  unfold fire
  split
  · exact .refl w
  · have wakes : Within S { w with fired := s :: w.fired }
        ((w.watchers (s :: w.fired)).foldl wake { w with fired := s :: w.fired }) :=
      .foldl (fun _ _ w => within_wake w _) _
    refine ⟨wakes.kept, wakes.born, wakes.line, wakes.calls, wakes.workers, wakes.ready,
      fun x h => wakes.fired x (hasFired_cons s h), fun x k wait hx here calling stopped => ?_⟩
    by_cases before : w.isStopped wait.signal = true
    · exact .inl before
    · right
      rcases wakes.woken x k wait hx here calling stopped with now | woken
      · have watches : (Task.worker k).watched? = some wait.signal := by
          rw [Task.watched?, calling]
        exact mem_ready_wakes (mem_watchers here watches now before)
      · exact woken

/-! ## 4. Calls and those who wait for them -/

theorem within_abort (w : World) (id : TaskId)
    (worker : ∀ k, w.task? id = some (.worker k) → S id) : Within S w (w.abort id) := by
  unfold abort
  split
  · next c here =>
    split
    · exact .refl w
    · refine within_set here (tasks_wake _ id) (fun _ h => mem_ready_wake_of _ id h)
        (fired_wake _ id) (fun _ => .aborted c) (fun c₁ same => ?_) (by simp)
      cases same
      exact ⟨_, rfl, c.grows_aborted, fun _ isOver => .inl isOver⟩
  · next k here =>
    split
    · exact .refl w
    · have set : Within S w (w.setTask id (.worker { k with aborted := true })) :=
        within_setWorker (worker k here) here k.alike_aborted fun _ calling => .inl calling
      exact set.trans (within_wake _ id)
  · exact .refl w

theorem within_startCall (r : Registry) (w : World) (tool : String) (inputs : Fields Json)
    (signal : Signal) (limit : Option Nat) (caller : TaskId) :
    Within S w (startCall r w tool inputs signal limit caller).2 := by
  unfold startCall
  split
  · exact .refl w
  · exact (within_newSignal w signal).trans (within_spawn _ fun _ => .call _ rfl)

theorem within_pollWait {w : World} {wait : Wait} (call : w.HasCall wait.call) :
    Within S w (w.pollWait wait).2 := by
  obtain ⟨c, here⟩ := call
  unfold pollWait
  split
  · exact within_fire w wait.own
  · split
    · refine (within_abort w wait.call fun k worker => ?_).trans (within_fire _ wait.own)
      cases here.symm.trans worker
    · exact .refl w

theorem within_dropWait (w : World) (wait : Wait) : Within S w (w.dropWait wait) :=
  within_fire w wait.own

theorem within_endCall {id : TaskId} {c : Call} (inside : S id) (here : w.Open id c) (e : CallEnd) :
    Within S w (w.endCall id c e) := by
  obtain ⟨c₀, there, before, alike⟩ := here
  refine within_set there (tasks_wake _ c.caller) (fun _ h => mem_ready_wake_of _ c.caller h)
    (fired_wake _ c.caller) (absurd inside) (fun c₁ same => ?_) (by simp)
  cases same
  refine ⟨_, rfl, ⟨alike.trans (c.alike_phase _), by simp, fun e isOver => absurd isOver (before e)⟩,
    fun _ _ => .inr ?_⟩
  rw [← alike.caller]
  exact mem_ready_wake _ c.caller

theorem Open.fire {id : TaskId} {c : Call} (h : w.Open id c) (s : Signal) :
    (w.fire s).Open id c := by
  obtain ⟨c₀, there, rest⟩ := h
  exact ⟨c₀, (task?_fire w s id).trans there, rest⟩

theorem within_abortWorkers (w : World) {first count : Nat}
    (inside : ∀ i, i < count → S (first + i)) : Within S w (w.abortWorkers first count) :=
  .foldl (fun i hi w => within_abort w _ fun _ _ => inside i (List.mem_range.mp hi)) w

variable {id : TaskId} {c : Call}

/-- A call is none of the workers that are given up. -/
theorem Open.abortWorkers (h : w.Open id c) {first count : Nat}
    (apart : ∀ i, i < count → first + i ≠ id) : (w.abortWorkers first count).Open id c := by
  refine h.within (S := fun x => ∃ i, i < count ∧ x = first + i)
    (within_abortWorkers w fun i hi => ⟨i, hi, rfl⟩) ?_
  rintro ⟨i, hi, same⟩
  exact apart i hi same.symm

theorem within_completeWork (inside : S id) (here : w.Open id c) (work : Tool.Work) :
    Within S w (w.completeWork id c work) := by
  have still : (w.note work.ended).Open id c := here
  exact (within_note w work.ended).trans (within_endCall inside still _)

theorem within_endLate (inside : S id) (here : w.Open id c) : Within S w (w.endLate id c) :=
  within_endCall inside here _

theorem within_setDeadline (w : World) (id : TaskId) (c : Call) :
    Within S w (w.setDeadline id c) := by
  unfold setDeadline
  split
  · exact within_setTimer w _ id
  · exact .refl w

theorem within_pollWaiting (inside : S id) (here : w.Open id c) (moment : Nat) (work : Tool.Work) :
    Within S w (w.pollWaiting id c moment work) := by
  unfold pollWaiting
  split
  · exact within_completeWork inside here work
  · split
    · exact within_endCall inside here _
    · split
      · exact within_endLate inside here
      · exact .refl w

theorem within_beginAlone (inside : S id) (here : w.Open id c) (work : Tool.Work) :
    Within S w (w.beginAlone id c work) := by
  have noted : Within S w (w.note work.began) := within_note w work.began
  have still : (w.note work.began).Open id c := here
  unfold beginAlone
  dsimp only
  split
  · exact noted.trans (within_completeWork inside still work)
  · next ms _ =>
    have waits : (w.note work.began).Open id
        { c with phase := .waiting ((w.note work.began).now + ms) work } :=
      still.alike (c.alike_phase _)
    obtain ⟨set, there⟩ := within_setCall inside waits (by simp) (by simp)
    have polled := (noted.trans set).trans
      (within_pollWaiting inside there ((w.note work.began).now + ms) work)
    split
    · exact (polled.trans (within_setTimer _ _ id)).trans (within_setDeadline _ id _)
    · exact polled

theorem within_pollGathering (inside : S id) (here : w.Open id c) (plan : FanOut.Plan)
    {first : TaskId} (apart : ∀ i, i < plan.queries.length → first + i ≠ id)
    (crew : ∀ i, i < plan.queries.length → S (first + i)) (p : FanOut.Progress) :
    Within S w (w.pollGathering id c plan first p) := by
  have aborts (w : World) : Within S w (w.abortWorkers first plan.queries.length) :=
    within_abortWorkers w crew
  unfold pollGathering
  split
  · have fires : Within S w (w.fire c.signal) := within_fire w c.signal
    exact (fires.trans (aborts _)).trans
      (within_endCall inside ((here.fire c.signal).abortWorkers apart) _)
  · split
    · exact within_endCall inside here _
    · split
      · exact (aborts w).trans (within_endLate inside (here.abortWorkers apart))
      · exact (within_setCall inside (here.alike (c.alike_phase _)) (by simp) (by simp)).1

theorem within_endAborted (inside : S id) (here : w.Open id c)
    (crew : ∀ plan first p, c.phase = .gathering plan first p →
      ∀ i, i < plan.queries.length → first + i ≠ id ∧ S (first + i)) :
    Within S w (w.endAborted id c) := by
  unfold endAborted
  dsimp only
  split
  · next plan first p gathering =>
    have crew := crew plan first p gathering
    exact (within_abortWorkers w fun i hi => (crew i hi).2).trans
      (within_endCall inside (here.abortWorkers fun i hi => (crew i hi).1) _)
  · exact within_endCall inside here _

/-! ## 5. Workers -/

theorem within_updateProgress (inside : ∀ x, w.progress? id = some x → S id)
    (f : FanOut.Progress → FanOut.Progress) : Within S w (w.updateProgress id f) := by
  unfold updateProgress
  split
  · next c here =>
    split
    · next plan first p gathering =>
      have found : w.progress? id = some (first, p) := by
        rw [progress?, here]
        simp only [gathering]
      have open_ : w.Open id { c with phase := .gathering plan first (f p) } :=
        ⟨c, here, by simp [gathering], c.alike_phase _⟩
      exact (within_setCall (inside _ found) open_ (by simp) (by simp)).1
    · exact .refl w
  · exact .refl w

theorem within_giveTurn (inside : S id) (w : World) : Within S w (w.giveTurn id) := by
  unfold giveTurn
  split
  · next k here =>
    split
    · have set : Within S w (w.setTask id (.worker { k with phase := .admitted })) :=
        within_setWorker inside here (k.alike_phase _) (by simp [Employs])
      exact set.trans (within_wake _ id)
    · exact .refl w
  · exact .refl w

/-- A gatherer at work and the one whose turn comes next are in `S`. -/
def Turns (w : World) (S : TaskId → Prop) (gatherer : TaskId) : Prop :=
  ∀ first p, w.progress? gatherer = some (first, p) →
    S gatherer ∧ ∀ i, p.next? = some i → S (first + i)

theorem Turns.gatherer {g : TaskId} (h : w.Turns S g) (x : TaskId × FanOut.Progress)
    (found : w.progress? g = some x) : S g :=
  (h x.1 x.2 found).1

theorem Turns.congr {g : TaskId} (h : w.Turns S g)
    (same : ∀ x, w'.progress? g = some x → w.progress? g = some x) : w'.Turns S g :=
  fun first p found => h first p (same _ found)

theorem within_handOn {k : Worker} (turns : w.Turns S k.gatherer) : Within S w (w.handOn k) := by
  have released : Within S w (w.updateProgress k.gatherer fun p => p.release k.query.index) :=
    within_updateProgress turns.gatherer _
  unfold handOn
  split
  · exact .refl w
  · next first p found =>
    dsimp only
    split
    · next i next => exact released.trans (within_giveTurn ((turns first p found).2 i next) _)
    · exact released

/-- Setting a worker changes no progress. -/
theorem progress?_setWorker {k k' : Worker} (here : w.task? id = some (.worker k)) {g : TaskId}
    {x : TaskId × FanOut.Progress} (h : (w.setTask id (.worker k')).progress? g = some x) :
    w.progress? g = some x := by
  by_cases same : id = g
  · subst same
    rw [progress?, task?_setTask_self here] at h
    cases h
  · rwa [progress?, task?_setTask_ne _ same] at h

/-- Nor does it replace a call. -/
theorem hasCall_setWorker {k : Worker} (here : w.task? id = some (.worker k)) {x : TaskId}
    (call : w.HasCall x) (t : Task) : (w.setTask id t).HasCall x := by
  obtain ⟨c, there⟩ := call
  have other : id ≠ x := fun same => by
    rw [same, there] at here
    cases here
  exact ⟨c, (task?_setTask_ne t other).trans there⟩

/-- What leaves the gatherer alone changes no progress. -/
theorem progress?_of_within (h : Within S w w') {g : TaskId} (outside : ¬ S g)
    {x : TaskId × FanOut.Progress} (found : w'.progress? g = some x) : w.progress? g = some x := by
  unfold progress? at found ⊢
  split at found
  · next c' there =>
    rcases h.wasCall outside there with ⟨fresh, -⟩ | ⟨c, here, -, phase⟩
    · simp [fresh] at found
    · simpa only [here, phase] using found
  · cases found

theorem progress?_updateProgress {g : TaskId} {f : FanOut.Progress → FanOut.Progress}
    {first : TaskId} {p' : FanOut.Progress}
    (h : (w.updateProgress g f).progress? g = some (first, p')) :
    ∃ p, w.progress? g = some (first, p) ∧ p' = f p := by
  unfold updateProgress at h
  split at h
  · next c here =>
    split at h
    · next plan first₀ p gathering =>
      rw [progress?, task?_setTask_self here] at h
      cases h
      exact ⟨p, by rw [progress?, here]; simp only [gathering], rfl⟩
    · next other =>
      rw [progress?, here] at h
      dsimp only at h
      split at h
      · next gathering => exact absurd gathering (other _ _ _)
      · cases h
  · next other =>
    rw [progress?] at h
    split at h
    · next there => exact absurd there (other _)
    · cases h

variable {k k₀ : Worker}

theorem within_endWorker (inside : S id) (here : w.task? id = some (.worker k₀))
    (alike : k₀.Alike k) (turns : w.Turns S k.gatherer) (o : FanOut.Outcome) :
    Within S w (w.endWorker id k o) := by
  have ended : Within S w (w.setTask id (.worker { k with phase := .over })) :=
    within_setWorker inside here (alike.trans (k.alike_phase _)) (by simp [Employs])
  have turns' : (w.setTask id (.worker { k with phase := .over })).Turns S k.gatherer :=
    turns.congr fun x => progress?_setWorker here
  refine ((ended.trans (within_handOn turns')).trans
    (within_updateProgress (fun x found => ?_) _)).trans (within_wake _ k.gatherer)
  -- a gatherer that is at work then was so before
  cases before : (w.setTask id (.worker { k with phase := .over })).progress? k.gatherer with
  | none =>
    rw [handOn, before] at found
    cases before.symm.trans found
  | some y => exact turns'.gatherer y before

theorem within_endAbortedWorker (inside : S id) (here : w.task? id = some (.worker k))
    (turns : w.Turns S k.gatherer) : Within S w (w.endAbortedWorker id k) := by
  have ended : Within S w (w.setTask id (.worker { k with phase := .over })) :=
    within_setWorker inside here (k.alike_phase _) (by simp [Employs])
  have turns' : (w.setTask id (.worker { k with phase := .over })).Turns S k.gatherer :=
    turns.congr fun x => progress?_setWorker here
  unfold endAbortedWorker
  dsimp only
  split
  · next wait _ =>
    have dropped : ((w.setTask id (.worker { k with phase := .over })).dropWait wait).Turns S
        k.gatherer := turns'.congr fun x found => by
      rwa [progress?, dropWait, task?_fire] at found
    exact (ended.trans (within_dropWait _ wait)).trans (within_handOn dropped)
  · exact ended.trans (within_handOn turns')
  · exact ended.trans (within_updateProgress turns'.gatherer _)
  · exact ended

theorem within_pollCalling (inside : S id) (here : w.task? id = some (.worker k₀))
    (alike : k₀.Alike k) (turns : w.Turns S k.gatherer) {wait : Wait}
    (call : w.HasCall wait.call) : Within S w (w.pollCalling id k wait) := by
  have polled : Within (fun _ => False) w (w.pollWait wait).2 := within_pollWait call
  unfold pollCalling
  split
  · next o w₁ heq =>
    rw [heq] at polled
    have there := polled.keptWorker (fun h => h) here
    have turns' : w₁.Turns S k.gatherer :=
      turns.congr fun x => progress?_of_within polled fun h => h
    exact (polled.mono fun _ h => h.elim).trans (within_endWorker inside there alike turns' o)
  · next w₁ heq =>
    rw [heq] at polled
    have there := polled.keptWorker (fun h => h) here
    refine (polled.mono fun _ h => h.elim).trans
      (within_setWorker inside there (alike.trans (k.alike_phase _)) fun wait' calling => ?_)
    cases calling
    exact .inr (hasCall_setWorker there (polled.hasCall call) _)

/-- A call that has been started is there, as it was asked for. -/
theorem startCall_ok {r : Registry} {tool : String} {inputs : Fields Json} {signal : Signal}
    {limit : Option Nat} {caller : TaskId} {wait : Wait}
    (h : startCall r w tool inputs signal limit caller = (.ok wait, w')) :
    ∃ t, r.tool? tool = some t ∧ wait.tool = tool ∧ wait.signal = signal ∧
      w'.task? wait.call = some (.call { tool := t, inputs, signal := wait.own,
                                         limit := limit.or (r.timeoutFor tool), caller }) := by
  unfold startCall at h
  split at h
  · cases h
  · next t known =>
    cases h
    exact ⟨t, known, rfl, rfl, (task?_spawn (w.newSignal signal).2 _ _).trans (if_pos rfl)⟩

/-- Without a tool there is no call. -/
theorem startCall_error {r : Registry} {tool : String} {inputs : Fields Json} {signal : Signal}
    {limit : Option Nat} {caller : TaskId} {f : Failure}
    (h : startCall r w tool inputs signal limit caller = (.error f, w')) :
    r.tool? tool = none ∧ f = ⟨.unknownTool, s!"no tool registered as '{tool}'"⟩ ∧ w' = w := by
  unfold startCall at h
  split at h
  · next unknown =>
    cases h
    exact ⟨unknown, rfl, rfl⟩
  · cases h

theorem within_beginCalling (inside : S id) (here : w.task? id = some (.worker k₀))
    (alike : k₀.Alike k) (turns : w.Turns S k.gatherer) (r : Registry) :
    Within S w (w.beginCalling r id k) := by
  have started : Within (fun _ => False) w
      (startCall r w k.query.tool k.query.inputs k.signal none id).2 := within_startCall ..
  unfold beginCalling
  split
  · next f w₁ heq =>
    obtain ⟨-, -, rfl⟩ := startCall_error heq
    exact within_endWorker inside here alike turns _
  · next wait w₁ heq =>
    obtain ⟨t, -, -, -, call⟩ := startCall_ok heq
    rw [heq] at started
    have there := started.keptWorker (fun h => h) here
    have turns' : w₁.Turns S k.gatherer :=
      turns.congr fun x => progress?_of_within started fun h => h
    exact (started.mono fun _ h => h.elim).trans
      (within_pollCalling inside there alike turns' ⟨_, call⟩)

theorem within_pollAsking (inside : S id) (here : w.task? id = some (.worker k))
    (turns : w.Turns S k.gatherer)
    (own : ∀ first p, w.progress? k.gatherer = some (first, p) → S (first + k.query.index))
    (r : Registry) : Within S w (w.pollAsking r id k) := by
  have asked : Within S w (w.updateProgress k.gatherer fun p => p.request k.query.index) :=
    within_updateProgress turns.gatherer _
  have turns' : (w.updateProgress k.gatherer fun p => p.request k.query.index).Turns S
      k.gatherer := by
    intro first p' found
    obtain ⟨p, before, rfl⟩ := progress?_updateProgress found
    obtain ⟨gatherer, others⟩ := turns first p before
    refine ⟨gatherer, fun i next => ?_⟩
    by_cases same : i = k.query.index
    · exact same ▸ own first p before
    · exact others i (FanOut.Progress.next?_of_request next same)
  obtain ⟨k', there, alike, -⟩ := asked.workers id k here
  have back : k'.Alike k := ⟨alike.gatherer.symm, alike.query.symm, alike.signal.symm⟩
  have set (phase : WorkerPhase) (idle : ∀ wait, phase ≠ .calling wait) := asked.trans
    (within_setWorker inside there (back.trans (k.alike_phase phase)) fun wait calling =>
      absurd calling (idle wait))
  unfold pollAsking
  dsimp only
  split
  · exact set .over (by simp)
  · split
    · exact asked.trans (within_beginCalling inside there back turns' r)
    · exact set .queued (by simp)

theorem within_pollWorker (inside : S id) (here : w.task? id = some (.worker k))
    (turns : w.Turns S k.gatherer)
    (own : ∀ first p, w.progress? k.gatherer = some (first, p) → S (first + k.query.index))
    (waits : ∀ wait, k.phase = .calling wait → w.HasCall wait.call) (r : Registry) :
    Within S w (w.pollWorker r id k) := by
  unfold pollWorker
  split
  · exact .refl w
  · split
    · exact within_endAbortedWorker inside here turns
    · split
      · exact within_pollAsking inside here turns own r
      · exact within_beginCalling inside here (.refl k) turns r
      · next wait calling =>
        exact within_pollCalling inside here (.refl k) turns (waits wait calling)
      · exact .refl w

end World
end Runbook.Schedule
