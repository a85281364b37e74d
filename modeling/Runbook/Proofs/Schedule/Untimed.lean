import Runbook.Proofs.Schedule.Deadlines

/-!
# A call without its clocks

`World.untimed` takes the clocks of one call out of the world: its limit, the deadline that comes of
it, and the timers that it and its stopper have set. As long as the time of the call is not up, they
make no difference to what anybody does: there is one lemma for each operation of the world, in the
order of the definitions, and `untimed_step` for the schedule.

The call is one that sets no other timers, as a fan-out does not.
-/

set_option autoImplicit false

namespace Runbook.Schedule

/-- The call as if it had no limit. -/
def Call.untimed (c : Call) : Call := { c with limit := none, deadline := none }

def Task.untimed : Task → Task
  | .call c => .call c.untimed
  | t => t

/-- The call `x` without the clocks of the call `id`. -/
def Call.seen (id x : TaskId) (c : Call) : Call := if x = id then c.untimed else c

def Task.seen (id x : TaskId) (t : Task) : Task := if x = id then t.untimed else t

namespace World

/-- The world without the clocks of the call `id`. -/
def untimed (id stopper : TaskId) (w : World) : World :=
  { w with
    tasks := w.tasks.modify id Task.untimed
    timers := w.timers.filter fun t => t.task != id && t.task != stopper }

variable {r : Registry} {w : World} {id s x : TaskId} {c : Call} {k : Worker}

/-! ## 1. What is seen of a task -/

section

variable (id x : TaskId) (c : Call)

@[simp] theorem seen_tool : (c.seen id x).tool = c.tool := by unfold Call.seen; split <;> rfl

@[simp] theorem seen_inputs : (c.seen id x).inputs = c.inputs := by unfold Call.seen; split <;> rfl

@[simp] theorem seen_unchecked : (c.seen id x).unchecked = c.unchecked := by
  unfold Call.seen; split <;> rfl

@[simp] theorem seen_signal : (c.seen id x).signal = c.signal := by unfold Call.seen; split <;> rfl

@[simp] theorem seen_caller : (c.seen id x).caller = c.caller := by unfold Call.seen; split <;> rfl

@[simp] theorem seen_aborted : (c.seen id x).aborted = c.aborted := by
  unfold Call.seen; split <;> rfl

@[simp] theorem seen_phase : (c.seen id x).phase = c.phase := by unfold Call.seen; split <;> rfl

theorem seen_setPhase (p : CallPhase) :
    Call.seen id x { c with phase := p } = { c.seen id x with phase := p } := by
  unfold Call.seen; split <;> rfl

theorem seen_setAborted :
    Call.seen id x { c with aborted := true } = { c.seen id x with aborted := true } := by
  unfold Call.seen; split <;> rfl

@[simp] theorem task_seen_call : (Task.call c).seen id x = .call (c.seen id x) := by
  unfold Task.seen Call.seen; split <;> rfl

@[simp] theorem task_seen_worker (k : Worker) : (Task.worker k).seen id x = .worker k := by
  unfold Task.seen; split <;> rfl

@[simp] theorem task_seen_client (watched : Option Signal) :
    (Task.client watched).seen id x = .client watched := by
  unfold Task.seen; split <;> rfl

end

theorem seen_other (other : x ≠ id) : c.seen id x = c := if_neg other

/-- What is seen as a call is a call. -/
theorem call_of_seen {t : Task} (seen : t.seen id x = .call c) :
    ∃ c', t = .call c' ∧ c'.seen id x = c := by
  cases t with
  | call c' =>
    rw [task_seen_call] at seen
    exact ⟨c', rfl, Task.call.inj seen⟩
  | worker => cases (task_seen_worker ..).symm.trans seen
  | client => cases (task_seen_client ..).symm.trans seen

/-- Someone waits for a call that has ended. -/
theorem pollWait_of_over {wait : Wait} {e : CallEnd} (here : w.task? wait.call = some (.call c))
    (isOver : c.phase = .over e) :
    w.pollWait wait = (some (e.outcome wait.tool), w.fire wait.own) := by
  obtain ⟨⟩ := c
  subst isOver
  unfold pollWait
  rw [here]

/-- Someone waits for a call that has not. -/
theorem pollWait_of_unended {wait : Wait}
    (unended : ∀ c e, w.task? wait.call = some (.call c) → c.phase ≠ .over e) :
    w.pollWait wait =
      if w.isStopped wait.signal then
        (some (.error ToolError.cancelled.failure), (w.abort wait.call).fire wait.own)
      else (none, w) := by
  unfold pollWait
  split
  · next here => exact absurd rfl (unended _ _ here)
  · rfl

/-! ## 2. The world -/

section

variable (id s : TaskId) (w : World)

@[simp] theorem now_untimed : (w.untimed id s).now = w.now := rfl

@[simp] theorem ready_untimed : (w.untimed id s).ready = w.ready := rfl

@[simp] theorem size_untimed : (w.untimed id s).tasks.size = w.tasks.size := Array.size_modify

@[simp] theorem isStopped_untimed (t : Signal) : (w.untimed id s).isStopped t = w.isStopped t := rfl

theorem task?_untimed (x : TaskId) :
    (w.untimed id s).task? x = (w.task? x).map (Task.seen id x) := by
  rw [task?, untimed, Array.getElem?_modify, task?]
  cases w.tasks[x]? with
  | none => split <;> rfl
  | some t =>
    by_cases same : id = x
    · simp [Task.seen, same]
    · simp [Task.seen, same, Ne.symm same]

theorem task?_untimed_ne {x : TaskId} (other : x ≠ id) : (w.untimed id s).task? x = w.task? x := by
  rw [task?_untimed]
  cases w.task? x with
  | none => rfl
  | some t => exact congrArg some (if_neg other)

theorem untimed_setTask (x : TaskId) (t : Task) :
    (w.setTask x t).untimed id s = (w.untimed id s).setTask x (t.seen id x) := by
  have tasks : (w.tasks.setIfInBounds x t).modify id Task.untimed =
      (w.tasks.modify id Task.untimed).setIfInBounds x (t.seen id x) := by
    refine Array.ext_getElem? fun i => ?_
    simp only [Array.getElem?_modify, Array.getElem?_setIfInBounds, Array.size_modify, Task.seen]
    grind
  simp only [untimed, setTask, tasks]

theorem untimed_wake (x : TaskId) : (w.wake x).untimed id s = (w.untimed id s).wake x := by
  unfold wake
  rw [ready_untimed]
  by_cases there : w.ready.contains x = true
  · rw [if_pos there, if_pos there]
  · rw [if_neg there, if_neg there]
    rfl

theorem untimed_wakes (xs : List TaskId) :
    (xs.foldl wake w).untimed id s = xs.foldl wake (w.untimed id s) :=
  (List.foldl_hom (untimed id s) fun w x => (untimed_wake id s w x).symm).symm

theorem untimed_note (vs : List Json) : (w.note vs).untimed id s = (w.untimed id s).note vs := rfl

theorem untimed_newSignal (above : Signal) :
    (w.newSignal above).2.untimed id s = ((w.untimed id s).newSignal above).2 := rfl

/-- A task that comes later has no clocks that are taken out. -/
theorem untimed_spawn (older : id < w.tasks.size) (t : Task) :
    (w.spawn t).2.untimed id s = ((w.untimed id s).spawn t).2 := by
  have tasks : (w.tasks.push t).modify id Task.untimed =
      (w.tasks.modify id Task.untimed).push t := by
    refine Array.ext_getElem? fun i => ?_
    simp only [Array.getElem?_modify, Array.getElem?_push, Array.size_modify]
    grind
  simp only [untimed, spawn, tasks, Array.size_modify]

theorem filter_insertTimer {t : Timer} {ts : List Timer} (ascending : Ascending ts)
    {keep : Timer → Bool} (kept : keep t = true) :
    (insertTimer t ts).filter keep = insertTimer t (ts.filter keep) := by
  induction ts with
  | nil => simp [insertTimer, kept]
  | cons x ts ih =>
    obtain ⟨least, rest⟩ := List.pairwise_cons.mp ascending
    rw [insertTimer]
    split
    · next before =>
      rw [List.filter_cons_of_pos kept]
      -- all that are left are later
      cases left : (x :: ts).filter keep with
      | nil => rfl
      | cons y left' =>
        have there : y ∈ x :: ts := (List.mem_filter.mp (left ▸ List.mem_cons_self)).1
        have later : t.moment < y.moment := by
          rcases List.mem_cons.mp there with rfl | inside
          · exact before
          · exact Nat.lt_of_lt_of_le before (least y inside)
        rw [insertTimer, if_pos later]
    · next behind =>
      by_cases stays : keep x = true
      · rw [List.filter_cons_of_pos stays, List.filter_cons_of_pos stays,
          insertTimer, if_neg behind,
          ih rest]
      · rw [List.filter_cons_of_neg stays, List.filter_cons_of_neg stays, ih rest]

theorem untimed_setTimer (ascending : Ascending w.timers) (moment : Nat) {x : TaskId}
    (other : x ≠ id) (apart : x ≠ s) :
    (w.setTimer moment x).untimed id s = (w.untimed id s).setTimer moment x := by
  simp only [untimed, setTimer]
  rw [filter_insertTimer ascending (by simp [other, apart])]

/-- The timer that the call sets is taken out. -/
theorem untimed_setTimer_own (moment : Nat) :
    (w.setTimer moment id).untimed id s = w.untimed id s := by
  have gone (ts : List Timer) : (insertTimer ⟨moment, id⟩ ts).filter
      (fun t => t.task != id && t.task != s) = ts.filter fun t => t.task != id && t.task != s := by
    induction ts with
    | nil => simp [insertTimer]
    | cons x ts ih =>
      rw [insertTimer]
      split
      · rw [List.filter_cons_of_neg (by simp)]
      · rw [List.filter_cons, List.filter_cons, ih]
  simp only [untimed, setTimer, gone]

theorem watched?_untimed (t : Task) : t.untimed.watched? = t.watched? := by
  cases t <;> rfl

theorem watchers_untimed (fired : List Signal) :
    (w.untimed id s).watchers fired = w.watchers fired := by
  have by_signal (w : World) : w.watchers fired =
      (w.tasks.toList.map Task.watched?).zipIdx.filterMap fun (a, x) => a.bind fun a =>
        if hasFired fired a && !hasFired w.fired a then some x else none := by
    rw [List.zipIdx_map, List.filterMap_map]
    refine List.filterMap_congr fun (t, x) _ => ?_
    dsimp only [Function.comp, Prod.map]
    cases t.watched? <;> rfl
  have same : (w.tasks.toList.modify id Task.untimed).map Task.watched? =
      w.tasks.toList.map Task.watched? := by
    refine List.ext_getElem? fun i => ?_
    rw [List.getElem?_map, List.getElem?_modify, List.getElem?_map]
    cases w.tasks.toList[i]? with
    | none => rfl
    | some t =>
      by_cases own : id = i
      · simp [own, watched?_untimed]
      · simp [own]
  rw [by_signal, by_signal, untimed, Array.toList_modify, same]

theorem untimed_fire (a : Signal) : (w.fire a).untimed id s = (w.untimed id s).fire a := by
  unfold fire
  rw [isStopped_untimed]
  split
  · rfl
  · dsimp only
    rw [untimed_wakes]
    exact congrArg (fun xs => xs.foldl wake (untimed id s { w with fired := a :: w.fired }))
      (watchers_untimed id s w (a :: w.fired)).symm

theorem untimed_abort (x : TaskId) : (w.abort x).untimed id s = (w.untimed id s).abort x := by
  unfold abort
  rw [task?_untimed]
  cases w.task? x with
  | none => rfl
  | some t =>
    cases t with
    | call c =>
      simp only [Option.map_some, task_seen_call, seen_phase]
      split
      · rfl
      · rw [untimed_wake, untimed_setTask, task_seen_call, seen_setAborted]
        simp only [seen_phase]
    | worker k =>
      simp only [Option.map_some, task_seen_worker]
      split
      · rfl
      · rw [untimed_wake, untimed_setTask, task_seen_worker]
    | client watched => simp only [Option.map_some, task_seen_client]

theorem untimed_abortWorkers (first count : Nat) :
    (w.abortWorkers first count).untimed id s = (w.untimed id s).abortWorkers first count :=
  (List.foldl_hom (untimed id s) fun w i => (untimed_abort id s w (first + i)).symm).symm

theorem untimed_pollWait (wait : Wait) :
    (w.untimed id s).pollWait wait = ((w.pollWait wait).1, (w.pollWait wait).2.untimed id s) := by
  by_cases ended : ∃ c e, w.task? wait.call = some (.call c) ∧ c.phase = .over e
  · obtain ⟨c, e, here, isOver⟩ := ended
    have there : (w.untimed id s).task? wait.call = some (.call (c.seen id wait.call)) := by
      rw [task?_untimed, here, Option.map_some, task_seen_call]
    rw [pollWait_of_over here isOver,
      pollWait_of_over there ((seen_phase ..).trans isOver), untimed_fire]
  · have unended (c : Call) (e : CallEnd) (here : w.task? wait.call = some (.call c)) :
        c.phase ≠ .over e := fun isOver => ended ⟨c, e, here, isOver⟩
    have unended' (c : Call) (e : CallEnd)
        (there : (w.untimed id s).task? wait.call = some (.call c)) : c.phase ≠ .over e := by
      rw [task?_untimed] at there
      obtain ⟨t, here, seen⟩ := Option.map_eq_some_iff.mp there
      obtain ⟨c', rfl, rfl⟩ := call_of_seen seen
      rw [seen_phase]
      exact unended c' e here
    rw [pollWait_of_unended unended, pollWait_of_unended unended', isStopped_untimed]
    split
    · rw [untimed_fire, untimed_abort]
    · rfl

theorem untimed_startCall (r : Registry) (older : id < w.tasks.size) (tool : String)
    (inputs : Fields Json) (signal : Signal) (limit : Option Nat) (caller : TaskId) :
    startCall r (w.untimed id s) tool inputs signal limit caller =
      ((startCall r w tool inputs signal limit caller).1,
        (startCall r w tool inputs signal limit caller).2.untimed id s) := by
  unfold startCall
  split
  · rfl
  · dsimp only
    rw [untimed_spawn id s _ (by exact older), untimed_newSignal]
    simp only [spawn, newSignal, size_untimed]
    rfl

end

/-! ## 3. Calls -/

section

variable {plan : FanOut.Plan} {first : TaskId} {p : FanOut.Progress} {moment : Nat}
  {work : Tool.Work}

theorem untimed_endCall (w : World) (x : TaskId) (c : Call) (e : CallEnd) :
    (w.endCall x c e).untimed id s = (w.untimed id s).endCall x (c.seen id x) e := by
  unfold endCall
  rw [untimed_wake, untimed_setTask, task_seen_call, seen_setPhase]
  simp only [seen_caller]

theorem untimed_completeWork (w : World) (x : TaskId) (c : Call) (work : Tool.Work) :
    (w.completeWork x c work).untimed id s =
      (w.untimed id s).completeWork x (c.seen id x) work := by
  unfold completeWork
  rw [untimed_endCall, untimed_note]

/-- The call is another, or its time is not up. -/
def InTime (w : World) (id x : TaskId) (c : Call) : Prop := x = id → w.isLate c = false

theorem isLate_untimed (timely : w.InTime id x c) :
    (w.untimed id s).isLate (c.seen id x) = w.isLate c := by
  by_cases own : x = id
  · rw [timely own, Call.seen, if_pos own]
    rfl
  · rw [seen_other own]
    rfl

theorem untimed_endLate (other : x ≠ id) :
    (w.endLate x c).untimed id s = (w.untimed id s).endLate x c := by
  unfold endLate
  rw [untimed_endCall, seen_other other]

theorem untimed_pollWaiting (other : x ≠ id) :
    (w.pollWaiting x c moment work).untimed id s =
      (w.untimed id s).pollWaiting x c moment work := by
  have late : (w.untimed id s).isLate c = w.isLate c := rfl
  unfold pollWaiting
  rw [now_untimed, isStopped_untimed, late]
  split
  · rw [untimed_completeWork, seen_other other]
  · split
    · rw [untimed_endCall, seen_other other]
    · split
      · exact untimed_endLate other
      · rfl

theorem untimed_setDeadline (ascending : Ascending w.timers) (apart : x ≠ s) :
    (w.setDeadline x c).untimed id s = (w.untimed id s).setDeadline x (c.seen id x) := by
  unfold setDeadline
  by_cases own : x = id
  · subst own
    rw [Call.seen, if_pos rfl]
    cases c.deadline with
    | none => rfl
    | some moment => exact untimed_setTimer_own x s w moment
  · rw [seen_other own]
    cases c.deadline with
    | none => rfl
    | some moment => exact untimed_setTimer id s w ascending moment own apart

/-- The timers that a call sets when it has looked and goes on waiting. -/
def arm (w : World) (x : TaskId) (c : Call) (moment : Nat) : World :=
  match w.task? x with
  | some (.call { phase := .waiting .., .. }) => (w.setTimer moment x).setDeadline x c
  | _ => w

theorem beginAlone_arm {ms : Nat} (delayed : work.delay = some ms) :
    w.beginAlone x c work =
      (((w.note work.began).setTask x
        (.call { c with phase := .waiting (w.now + ms) work })).pollWaiting x
          { c with phase := .waiting (w.now + ms) work } (w.now + ms) work).arm x
            { c with phase := .waiting (w.now + ms) work } (w.now + ms) := by
  rw [beginAlone, delayed]
  rfl

theorem untimed_arm (ascending : Ascending w.timers) (other : x ≠ id) (apart : x ≠ s) :
    (w.arm x c moment).untimed id s = (w.untimed id s).arm x c moment := by
  unfold arm
  rw [task?_untimed_ne id s w other]
  split
  · rw [untimed_setDeadline (ascending_insertTimer ascending) apart,
      untimed_setTimer id s w ascending _ other apart, seen_other other]
  · rfl

theorem untimed_beginAlone (ascending : Ascending w.timers) (other : x ≠ id) (apart : x ≠ s) :
    (w.beginAlone x c work).untimed id s = (w.untimed id s).beginAlone x c work := by
  cases delayed : work.delay with
  | none =>
    rw [beginAlone, beginAlone, delayed]
    dsimp only
    rw [untimed_completeWork, seen_other other, untimed_note]
  | some ms =>
    let c' : Call := { c with phase := .waiting (w.now + ms) work }
    let begun : World := (w.note work.began).setTask x (.call c')
    have still : Ascending (begun.pollWaiting x c' (w.now + ms) work).timers :=
      (minds_pollWaiting (s := []) (Nat.succ_ne_self x).symm _ c' _ work).ascending ascending
    have begun' : begun.untimed id s = ((w.untimed id s).note work.began).setTask x (.call c') := by
      rw [untimed_setTask, task_seen_call, seen_other other, untimed_note]
    rw [beginAlone_arm delayed, beginAlone_arm delayed, untimed_arm still other apart,
      untimed_pollWaiting other, begun']
    rfl

theorem untimed_hire (w : World) (older : id < w.tasks.size) (a : Signal)
    (queries : List FanOut.Query)
    (x : TaskId) : (w.hire x a queries).untimed id s = (w.untimed id s).hire x a queries := by
  induction queries generalizing w with
  | nil => rfl
  | cons q queries ih =>
    rw [hire, List.foldl_cons]
    refine (ih _ ?_).trans ?_
    · rw [spawn, Array.size_push]
      exact Nat.lt_succ_of_lt older
    · rw [untimed_spawn id s w older]
      rfl

theorem untimed_pollGathering (timely : w.InTime id x c) :
    (w.pollGathering x c plan first p).untimed id s =
      (w.untimed id s).pollGathering x (c.seen id x) plan first p := by
  unfold pollGathering
  rw [isLate_untimed timely, seen_signal]
  split
  · rw [untimed_endCall, untimed_abortWorkers, untimed_fire]
  · split
    · rw [untimed_endCall]
    · split
      · next late =>
        have other : x ≠ id := fun own => by simp [timely own] at late
        rw [untimed_endLate other, untimed_abortWorkers, seen_other other]
      · rw [untimed_setTask, task_seen_call, seen_setPhase]
        simp only [seen_signal]

/-- What is known of a call that goes on, if it is the one whose clocks are taken out: it is a
fan-out, and its time is not up. -/
structure Leisurely (w : World) (id x : TaskId) (c : Call) : Prop where
  body : x = id → c.tool.body = .fanOut
  waits : x = id → ∀ moment work, c.phase ≠ .waiting moment work
  limit : x = id → ∀ l, c.limit = some l → 0 < l
  timely : w.InTime id x c

theorem untimed_beginFanOut (older : id < w.tasks.size) (ascending : Ascending w.timers)
    (apart : x ≠ s) (timely : w.InTime id x c) :
    (w.beginFanOut r x c).untimed id s = (w.untimed id s).beginFanOut r x (c.seen id x) := by
  cases planned : FanOut.plan r.maxFanOut c.inputs with
  | error e =>
    unfold beginFanOut
    rw [seen_inputs, planned]
    exact untimed_endCall ..
  | ok plan =>
    have planned' : FanOut.plan r.maxFanOut (c.seen id x).inputs = .ok plan := by rwa [seen_inputs]
    obtain ⟨now, timers⟩ := hire_keeps w x c.signal plan.queries
    have still : Ascending ((w.hire x c.signal plan.queries).pollGathering x c plan w.tasks.size
        { workers := plan.workers }).timers :=
      (minds_pollGathering (s := []) (Nat.succ_ne_self x).symm _ c plan _ _).ascending
        (timers ▸ ascending)
    have timely' : World.InTime (w.hire x c.signal plan.queries) id x c := fun own => by
      rw [isLate, now]
      exact timely own
    rw [beginFanOut_eq planned, beginFanOut_eq planned', untimed_setDeadline still apart,
      untimed_pollGathering timely', untimed_hire w older, seen_signal, size_untimed]

theorem untimed_begin (older : id < w.tasks.size) (ascending : Ascending w.timers)
    (apart : x ≠ s) (leisurely : w.Leisurely id x c) :
    (w.begin r x c).untimed id s = (w.untimed id s).begin r x (c.seen id x) := by
  let c' : Call := { c with deadline := c.limit.map (w.now + ·) }
  have seen : Call.seen id x c' =
      { c.seen id x with deadline := (c.seen id x).limit.map ((w.untimed id s).now + ·) } := by
    unfold Call.seen
    split <;> rfl
  have timely : w.InTime id x c' := fun own => by
    cases limit : c.limit with
    | none => simp [isLate, c', limit]
    | some l =>
      have := leisurely.limit own l limit
      simp [isLate, c', limit]
      omega
  unfold World.begin
  dsimp only
  rw [← seen, seen_tool, seen_inputs]
  split
  · next work alone =>
    have other : x ≠ id := fun own => by
      cases (leisurely.body own).symm.trans alone
    rw [untimed_beginAlone ascending other apart, seen_other other]
  · exact untimed_beginFanOut older ascending apart timely

theorem untimed_pollFresh (older : id < w.tasks.size) (ascending : Ascending w.timers)
    (apart : x ≠ s) (leisurely : w.Leisurely id x c) :
    (w.pollFresh r x c).untimed id s = (w.untimed id s).pollFresh r x (c.seen id x) := by
  unfold pollFresh
  rw [seen_unchecked, seen_tool, seen_inputs]
  split
  · exact untimed_begin older ascending apart leisurely
  · split
    · exact untimed_begin older ascending apart leisurely
    · exact untimed_endCall ..
    · exact untimed_endCall ..

theorem untimed_endAborted (w : World) (x : TaskId) (c : Call) :
    (w.endAborted x c).untimed id s = (w.untimed id s).endAborted x (c.seen id x) := by
  unfold endAborted
  dsimp only
  rw [seen_phase, untimed_endCall]
  congr 1
  split
  · exact untimed_abortWorkers ..
  · rfl

theorem untimed_pollCall (older : id < w.tasks.size) (ascending : Ascending w.timers)
    (apart : x ≠ s) (leisurely : w.Leisurely id x c) :
    (w.pollCall r x c).untimed id s = (w.untimed id s).pollCall r x (c.seen id x) := by
  unfold pollCall
  rw [seen_phase, seen_aborted]
  split
  · rfl
  · split
    · exact untimed_endAborted ..
    · split
      · exact untimed_pollFresh older ascending apart leisurely
      · next moment work waiting =>
        have other : x ≠ id := fun own => leisurely.waits own moment work waiting
        rw [untimed_pollWaiting other, seen_other other]
      · exact untimed_pollGathering leisurely.timely
      · rfl

end

/-! ## 4. Workers -/

section

variable (id s : TaskId) (w : World)

theorem untimed_updateProgress (g : TaskId) (f : FanOut.Progress → FanOut.Progress) :
    (w.updateProgress g f).untimed id s = (w.untimed id s).updateProgress g f := by
  unfold updateProgress
  rw [task?_untimed]
  cases w.task? g with
  | none => rfl
  | some t =>
    cases t with
    | call c =>
      simp only [Option.map_some, task_seen_call]
      rw [seen_phase]
      split
      · rw [untimed_setTask, task_seen_call, seen_setPhase]
      · rfl
    | worker k => simp only [Option.map_some, task_seen_worker]
    | client watched => simp only [Option.map_some, task_seen_client]

theorem progress?_untimed (g : TaskId) : (w.untimed id s).progress? g = w.progress? g := by
  unfold progress?
  rw [task?_untimed]
  cases w.task? g with
  | none => rfl
  | some t =>
    cases t with
    | call c =>
      simp only [Option.map_some, task_seen_call]
      rw [seen_phase]
    | worker k => simp only [Option.map_some, task_seen_worker]
    | client watched => simp only [Option.map_some, task_seen_client]

theorem untimed_giveTurn (x : TaskId) :
    (w.giveTurn x).untimed id s = (w.untimed id s).giveTurn x := by
  unfold giveTurn
  rw [task?_untimed]
  cases w.task? x with
  | none => rfl
  | some t =>
    cases t with
    | call c => simp only [Option.map_some, task_seen_call]
    | worker k =>
      simp only [Option.map_some, task_seen_worker]
      split
      · rw [untimed_wake, untimed_setTask, task_seen_worker]
      · rfl
    | client watched => simp only [Option.map_some, task_seen_client]

theorem untimed_handOn (k : Worker) : (w.handOn k).untimed id s = (w.untimed id s).handOn k := by
  unfold handOn
  rw [progress?_untimed]
  split
  · rfl
  · dsimp only
    split
    · rw [untimed_giveTurn, untimed_updateProgress]
    · exact untimed_updateProgress ..

theorem untimed_setWorker (x : TaskId) (k : Worker) :
    (w.setTask x (.worker k)).untimed id s = (w.untimed id s).setTask x (.worker k) := by
  rw [untimed_setTask, task_seen_worker]

theorem untimed_endWorker (x : TaskId) (k : Worker) (o : FanOut.Outcome) :
    (w.endWorker x k o).untimed id s = (w.untimed id s).endWorker x k o := by
  unfold endWorker
  dsimp only
  rw [untimed_wake, untimed_updateProgress, untimed_handOn, untimed_setWorker]

theorem untimed_endAbortedWorker (x : TaskId) (k : Worker) :
    (w.endAbortedWorker x k).untimed id s = (w.untimed id s).endAbortedWorker x k := by
  unfold endAbortedWorker
  dsimp only
  split
  · rw [untimed_handOn, dropWait, untimed_fire, untimed_setWorker]
    rfl
  · rw [untimed_handOn, untimed_setWorker]
  · rw [untimed_updateProgress, untimed_setWorker]
  · exact untimed_setWorker ..

theorem untimed_pollCalling (x : TaskId) (k : Worker) (wait : Wait) :
    (w.pollCalling x k wait).untimed id s = (w.untimed id s).pollCalling x k wait := by
  unfold pollCalling
  rw [untimed_pollWait]
  cases w.pollWait wait with
  | mk o w =>
    cases o with
    | some o => exact untimed_endWorker ..
    | none => exact untimed_setWorker ..

theorem untimed_beginCalling (r : Registry) (older : id < w.tasks.size) (x : TaskId) (k : Worker) :
    (w.beginCalling r x k).untimed id s = (w.untimed id s).beginCalling r x k := by
  unfold beginCalling
  rw [untimed_startCall id s w r older]
  cases startCall r w k.query.tool k.query.inputs k.signal none x with
  | mk o w =>
    cases o with
    | error f => exact untimed_endWorker ..
    | ok wait => exact untimed_pollCalling ..

theorem untimed_pollAsking (r : Registry) (older : id < w.tasks.size) (x : TaskId) (k : Worker) :
    (w.pollAsking r x k).untimed id s = (w.untimed id s).pollAsking r x k := by
  unfold pollAsking
  dsimp only
  rw [← untimed_updateProgress, progress?_untimed]
  have keeps : Minds x [] w (w.updateProgress k.gatherer fun p => p.request k.query.index) :=
    minds_updateProgress ..
  have older' : id < (w.updateProgress k.gatherer fun p => p.request k.query.index).tasks.size :=
    Nat.lt_of_lt_of_le older keeps.size
  split
  · exact untimed_setWorker ..
  · split
    · exact untimed_beginCalling id s _ r older' x k
    · exact untimed_setWorker ..

theorem untimed_pollWorker (r : Registry) (older : id < w.tasks.size) (x : TaskId) (k : Worker) :
    (w.pollWorker r x k).untimed id s = (w.untimed id s).pollWorker r x k := by
  unfold pollWorker
  split
  · rfl
  · split
    · exact untimed_endAbortedWorker ..
    · split
      · exact untimed_pollAsking id s w r older x k
      · exact untimed_beginCalling id s w r older x k
      · exact untimed_pollCalling ..
      · rfl

end

/-! ## 5. The schedule -/

/-- **The clocks make no difference** to what the first in line does, before the call is late. -/
theorem untimed_step (r : Registry) (older : id < w.tasks.size) (ascending : Ascending w.timers)
    (stopper : ∀ c, w.task? s ≠ some (.call c))
    (leisurely : ∀ c, w.task? id = some (.call c) → w.Leisurely id id c) :
    (w.untimed id s).step r = ((w.step r).1, (w.step r).2.untimed id s) := by
  unfold step
  rw [ready_untimed]
  cases line : w.ready with
  | nil => rfl
  | cons x ready =>
    dsimp only
    have popped : ({ w.untimed id s with ready } : World) = untimed id s { w with ready } := rfl
    rw [popped, task?_untimed]
    cases here : ({ w with ready } : World).task? x with
    | none => rfl
    | some t =>
      cases t with
      | call c =>
        have here : w.task? x = some (.call c) := here
        simp only [Option.map_some, task_seen_call]
        have apart : x ≠ s := by
          rintro rfl
          exact stopper c here
        have still : World.Leisurely { w with ready } id x c := by
          refine ⟨fun own => ?_, fun own => ?_, fun own => ?_, fun own => ?_⟩
          · exact (leisurely c (own ▸ here)).body rfl
          · exact (leisurely c (own ▸ here)).waits rfl
          · exact (leisurely c (own ▸ here)).limit rfl
          · exact (leisurely c (own ▸ here)).timely rfl
        rw [untimed_pollCall (w := { w with ready }) older ascending apart still]
      | worker k =>
        simp only [Option.map_some, task_seen_worker]
        rw [untimed_pollWorker id s { w with ready } r older]
      | client watched => simp only [Option.map_some, task_seen_client]

end World
end Runbook.Schedule
