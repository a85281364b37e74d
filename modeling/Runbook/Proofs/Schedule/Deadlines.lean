import Runbook.Proofs.Schedule.Halts

/-!
# When the time of a fan-out is up

A fan-out sets the timer for its deadline when it begins, and is in line when that moment has come,
in whatever order tasks go on (`Timely`). So if it ends because its time is up, it does so at that
moment (`Ordered.ends_on_time`).

The timer is set before one of the workers has gone on. So if tasks go on in the order of the line,
none of its workers nor anything that was made for them is in line before it at that moment
(`Prompt`): the fan-out is the first of its family to go on.
-/

set_option autoImplicit false

namespace Runbook.Schedule.World

open FanOut (Progress)

variable {r : Registry} {hires makes : Prop} {w w' : World} {me id x y : TaskId} {c c' : Call}
  {k : Worker} {ready : List TaskId} {plan : FanOut.Plan} {first : TaskId} {p : Progress}
  {moment : Nat}

/-! ## 1. Timers -/

/-- The timer is set, and of that moment none is before it but for tasks that are older. -/
def Foremost (first : TaskId) (t : Timer) (ts : List Timer) : Prop :=
  ∃ front back, ts = front ++ t :: back ∧ ∀ x ∈ front, x.moment < t.moment ∨ x.task < first

theorem insertTimer_split (t : Timer) (ts : List Timer) :
    ∃ front back, insertTimer t ts = front ++ t :: back ∧ ts = front ++ back := by
  induction ts with
  | nil => exact ⟨[], [], rfl, rfl⟩
  | cons x ts ih =>
    rw [insertTimer]
    split
    · exact ⟨[], x :: ts, rfl, rfl⟩
    · obtain ⟨front, back, same, whole⟩ := ih
      exact ⟨x :: front, back, by rw [same, List.cons_append], by rw [whole, List.cons_append]⟩

/-- So it is if all the tasks that have timers are older. -/
theorem foremost_insertTimer {t : Timer} {ts : List Timer} (older : ∀ x ∈ ts, x.task < first) :
    Foremost first t (insertTimer t ts) := by
  obtain ⟨front, back, same, whole⟩ := insertTimer_split t ts
  exact ⟨front, back, same, fun x hx => .inr (older x (whole ▸ List.mem_append_left back hx))⟩

/-- A timer that is set later is behind those of its moment. -/
theorem Foremost.insertTimer {t : Timer} {ts : List Timer} (h : Foremost first t ts)
    (ascending : Ascending ts) (u : Timer) : Foremost first t (insertTimer u ts) := by
  obtain ⟨front, back, rfl, early⟩ := h
  induction front with
  | nil =>
    rw [List.nil_append, World.insertTimer]
    split
    · next before => exact ⟨[u], back, rfl, by simpa using .inl before⟩
    · exact ⟨[], World.insertTimer u back, rfl, by simp⟩
  | cons x front ih =>
    obtain ⟨least, rest⟩ := List.pairwise_cons.mp ascending
    obtain ⟨soon, later⟩ := List.forall_mem_cons.mp early
    rw [List.cons_append, World.insertTimer]
    split
    · next before =>
      refine ⟨u :: x :: front, back, rfl, List.forall_mem_cons.mpr ⟨.inl ?_, early⟩⟩
      exact Nat.lt_of_lt_of_le before (least t (by simp))
    · obtain ⟨front', back', same, early'⟩ := ih later rest
      refine ⟨x :: front', back', by rw [same, List.cons_append], ?_⟩
      exact List.forall_mem_cons.mpr ⟨soon, early'⟩

/-- A deed sets a timer at most. -/
theorem Deed.timers (h : Deed hires makes me w w') :
    w'.timers = w.timers ∨ ∃ moment, w'.timers = insertTimer ⟨moment, me⟩ w.timers := by
  cases h with
  | timer moment => exact .inr ⟨moment, rfl⟩
  | wake => exact .inl (timers_wake w _)
  | fire s => exact .inl (timers_fire w s)
  | abort => exact .inl (timers_abort w _)
  | progress hand g f =>
    rcases updateProgress_cases w g f with same | ⟨_, _, _, _, -, -, set⟩
    · exact .inl (by rw [same])
    · exact .inl (by rw [set, setTask])
  | turn hand x =>
    rcases giveTurn_cases w x with same | ⟨_, -, -, set⟩
    · exact .inl (by rw [same])
    · exact .inl (by rw [set, timers_wake, setTask])
  | note | call | worker | arrive | watch | name | hire | make => exact .inl rfl

theorem Deeds.foremost (h : Deeds hires makes me w w') (tidy : w.Tidy) {t : Timer}
    (before : Foremost first t w.timers) : Foremost first t w'.timers := by
  induction h with
  | refl => exact before
  | tail later deed ih =>
    rcases deed.timers with same | ⟨moment, set⟩
    · exact same ▸ ih
    · exact set ▸ ih.insertTimer (Deeds.tidy later tidy).ascending _

theorem Deeds.timers (h : Deeds hires makes me w w') {t : Timer} (there : t ∈ w'.timers) :
    t ∈ w.timers ∨ t.task = me := by
  induction h with
  | refl => exact .inl there
  | tail _ deed ih =>
    rcases deed.timers with same | ⟨moment, set⟩
    · exact ih (same ▸ there)
    · rw [set] at there
      rcases mem_insertTimer.mp there with rfl | before
      · exact .inr rfl
      · exact ih before

/-- A call that sets its timer does nothing else. -/
theorem setDeadline_keeps (w : World) (id : TaskId) (c : Call) :
    (w.setDeadline id c).now = w.now ∧ (w.setDeadline id c).tasks = w.tasks ∧
      (w.setDeadline id c).ready = w.ready ∧ (w.setDeadline id c).fired = w.fired := by
  unfold setDeadline
  split <;> exact ⟨rfl, rfl, rfl, rfl⟩

theorem mem_setDeadline {t : Timer} : t ∈ (w.setDeadline id c).timers ↔
    c.deadline = some t.moment ∧ t.task = id ∨ t ∈ w.timers := by
  obtain ⟨moment, task⟩ := t
  unfold setDeadline
  cases c.deadline with
  | none => simp
  | some l => simp [setTimer, mem_insertTimer, eq_comm]

theorem Foremost.setDeadline {t : Timer} (h : Foremost first t w.timers)
    (ascending : Ascending w.timers) : Foremost first t (w.setDeadline id c).timers := by
  unfold World.setDeadline
  split
  · exact h.insertTimer ascending _
  · exact h

/-! ## 2. A fan-out that gathers -/

/-- The moment is ahead, and its timer is set before those of younger tasks. -/
def Timed (w : World) (id first : TaskId) (moment : Nat) : Prop :=
  w.now < moment ∧ Foremost first ⟨moment, id⟩ w.timers

/-- The moment is ahead, or has come and the fan-out is in line. -/
def Expects (w : World) (id first : TaskId) (moment : Nat) : Prop :=
  w.Timed id first moment ∨ (w.now = moment ∧ id ∈ w.ready)

/-- Every fan-out expects the moment at which its time is up. -/
def Timely (w : World) : Prop :=
  ∀ id c plan first p moment, w.task? id = some (.call c) → c.phase = .gathering plan first p →
    c.deadline = some moment → w.Expects id first moment

/-- The fan-out is in line, and only older tasks are before it. -/
def Leads (w : World) (id first : TaskId) : Prop :=
  ∃ before after, w.ready = before ++ id :: after ∧ ∀ x ∈ before, x < first

/-- Every fan-out whose time is up is in line before its workers. -/
def Prompt (w : World) : Prop :=
  ∀ id c plan first p, w.task? id = some (.call c) → c.phase = .gathering plan first p →
    c.deadline = some w.now → w.Leads id first

theorem ready_wakes (w : World) (ids : List TaskId) :
    ∀ x ∈ (ids.foldl wake w).ready, x ∈ w.ready ∨ x ∈ ids := by
  induction ids generalizing w with
  | nil => exact fun x hx => .inl hx
  | cons id ids ih =>
    intro x hx
    rcases ih (w.wake id) x hx with before | later
    · refine (mem_ready_wake_iff.mp before).imp_right ?_
      rintro rfl
      exact List.mem_cons_self
    · exact .inr (List.mem_cons_of_mem id later)

/-- Those who are woken before it are in line before it. -/
theorem wakes_before (w : World) (quiet : w.ready = []) (front back : List TaskId) (id : TaskId) :
    ∃ before after, ((front ++ id :: back).foldl wake w).ready = before ++ id :: after ∧
      ∀ x ∈ before, x ∈ front := by
  rw [List.foldl_append, List.foldl_cons]
  have woken (x : TaskId) (hx : x ∈ (front.foldl wake w).ready) : x ∈ front :=
    (ready_wakes w front x hx).resolve_left (by simp [quiet])
  generalize front.foldl wake w = m at woken
  obtain ⟨before, after, line, sub⟩ :
      ∃ before after, (m.wake id).ready = before ++ id :: after ∧ ∀ x ∈ before, x ∈ m.ready := by
    unfold wake
    split
    · next there =>
      obtain ⟨before, after, line⟩ := List.append_of_mem (List.contains_iff_mem.mp there)
      exact ⟨before, after, line, fun x hx => line ▸ List.mem_append_left _ hx⟩
    · exact ⟨m.ready, [], rfl, fun x hx => hx⟩
  obtain ⟨more, grown⟩ := prefix_wakes (m.wake id) back
  refine ⟨before, after ++ more, ?_, fun x hx => woken x (sub x hx)⟩
  rw [← grown, line, List.append_assoc, List.cons_append]

theorem Foremost.dropWhile {t : Timer} {ts : List Timer} (h : Foremost first t ts) {now : Nat}
    (later : now < t.moment) : Foremost first t (ts.dropWhile (·.moment ≤ now)) := by
  obtain ⟨front, back, rfl, early⟩ := h
  induction front with
  | nil => exact ⟨[], back, List.dropWhile_cons_of_neg (by simpa using later), by simp⟩
  | cons x front ih =>
    by_cases due : x.moment ≤ now
    · rw [List.cons_append, List.dropWhile_cons_of_pos (by simpa using due)]
      exact ih (List.forall_mem_cons.mp early).2
    · rw [List.cons_append, List.dropWhile_cons_of_neg (by simpa using due)]
      exact ⟨x :: front, back, rfl, early⟩

/-- **Time passes**, and not beyond the moment that is expected; when it has come, the fan-out leads. -/
theorem Timed.advance? (h : w.Timed id first moment) (tidy : w.Tidy) (quiet : w.ready = [])
    (moved : w.advance? = some w') :
    w'.Timed id first moment ∨ (w'.now = moment ∧ w'.Leads id first) := by
  obtain ⟨ahead, foremost⟩ := h
  obtain ⟨t, ts, head, now, -, -, left, -⟩ := advance?_cases moved
  by_cases later : t.moment < moment
  · exact .inl ⟨by omega, left ▸ foremost.dropWhile later⟩
  · obtain ⟨front, back, timers, early⟩ := foremost
    have ascending := tidy.ascending
    -- no earlier timer is set, so the next moment is this one
    have least (x : Timer) (hx : x ∈ w.timers) : t.moment ≤ x.moment := by
      rw [head] at ascending hx
      rcases List.mem_cons.mp hx with rfl | hx
      · exact Nat.le_refl _
      · exact (List.pairwise_cons.mp ascending).1 x hx
    obtain rfl : t.moment = moment :=
      Nat.le_antisymm (least ⟨moment, id⟩ (by simp [timers])) (Nat.le_of_not_lt later)
    have due (x : Timer) (hx : x ∈ front) : x.moment ≤ t.moment := by
      rw [timers] at ascending
      exact (List.pairwise_append.mp ascending).2.2 x hx ⟨t.moment, id⟩ List.mem_cons_self
    have taken : w.timers.takeWhile (·.moment ≤ t.moment) =
        front ++ ⟨t.moment, id⟩ :: back.takeWhile (·.moment ≤ t.moment) := by
      rw [timers, List.takeWhile_append_of_pos fun x hx => by simpa using due x hx,
        List.takeWhile_cons_of_pos (by simp)]
    refine .inr ⟨by omega, ?_⟩
    unfold World.advance? at moved
    rw [head] at moved
    dsimp only at moved
    rw [← head, taken] at moved
    obtain rfl := Option.some.inj moved
    rw [← List.foldl_map, List.map_append, List.map_cons]
    obtain ⟨before, after, line, sub⟩ := wakes_before
      { w with now := max w.now t.moment, timers := w.timers.drop _ } quiet (front.map (·.task))
        ((back.takeWhile (·.moment ≤ t.moment)).map (·.task)) id
    refine ⟨before, after, line, fun x hx => ?_⟩
    obtain ⟨u, hu, rfl⟩ := List.mem_map.mp (sub x hx)
    have := least u (timers ▸ List.mem_append_left _ hu)
    exact (early u hu).resolve_left (Nat.not_lt.mpr this)

theorem Leads.mem (h : w.Leads id first) : id ∈ w.ready := by
  obtain ⟨before, after, line, -⟩ := h
  simp [line]

theorem Timed.turn (h : w.Timed id first moment) (tidy : w.Tidy) (turn : Turn r w me ready w') :
    w'.Timed id first moment :=
  ⟨turn.spares.now.trans_lt h.1, turn.deeds.foremost (turn.popped tidy) h.2⟩

/-- Others have their turns, and the moment is expected as before. -/
theorem Expects.turn (h : w.Expects id first moment) (tidy : w.Tidy) (turn : Turn r w me ready w')
    (other : me ≠ id) : w'.Expects id first moment :=
  h.imp (·.turn tidy turn) fun ⟨come, inLine⟩ =>
    ⟨turn.spares.now.trans come, turn.spares.ready.subset (turn.others id inLine other.symm)⟩

theorem ended_endCall (call : w.HasCall id) {e : CallEnd}
    (there : (w.endCall id c e).task? id = some (.call c')) : c' = { c with phase := .over e } := by
  obtain ⟨c₀, here⟩ := call
  cases there.symm.trans
    ((congrArg (·[id]?) (tasks_wake _ c.caller)).trans (task?_setTask_self here))
  rfl

/-- What comes of a fan-out that goes on gathering. -/
inductive Gathered (w w' : World) (c c' : Call) (plan : FanOut.Plan) (first : TaskId) : Prop where
  | result (r : Except ToolError ToolOutput) (isOver : c'.phase = .over (.result r))
  | late (h : w.isLate c = true) (ms : Nat) (isOver : c'.phase = .over (.timedOut ms))
  | onward (timely : w.isLate c = false) (p : Progress)
      (gathering : c'.phase = .gathering plan first p) (now : w'.now = w.now)
      (timers : w'.timers = w.timers)

theorem gathered_pollGathering (here : w.Open id c)
    (others : ∀ i, i < plan.queries.length → first + i ≠ id)
    (there : (w.pollGathering id c plan first p).task? id = some (.call c')) :
    c'.deadline = c.deadline ∧ Gathered w (w.pollGathering id c plan first p) c c' plan first := by
  unfold pollGathering at there ⊢
  split at there
  · obtain rfl := ended_endCall ((here.fire c.signal).abortWorkers others).hasCall there
    exact ⟨rfl, .result _ rfl⟩
  · next arrived looked =>
    split at there
    · obtain rfl := ended_endCall here.hasCall there
      exact ⟨rfl, .result _ rfl⟩
    · next missing =>
      split at there
      · next late =>
        obtain rfl := ended_endCall (here.abortWorkers others).hasCall there
        exact ⟨rfl, .late late _ rfl⟩
      · next timely =>
        obtain ⟨c₀, before⟩ := here.hasCall
        cases there.symm.trans (task?_setTask_self before)
        rw [if_neg missing, if_neg timely]
        exact ⟨rfl, .onward (Bool.eq_false_iff.mpr timely) _ rfl rfl rfl⟩

/-- What a fan-out does that has not ended: it ends at once, begins, or goes on gathering. -/
inductive FanOutTurn (r : Registry) (w w' : World) (id : TaskId) (c c' : Call) : Prop where
  | refused (e : CallEnd) (isOver : c'.phase = .over e) (timely : ∀ ms, e ≠ .timedOut ms)
  | begins (fresh : c.phase = .fresh)
      (h : w' = w.beginFanOut r id { c with deadline := c.limit.map (w.now + ·) })
  | gathers {plan : FanOut.Plan} {first : TaskId} {p : Progress}
      (gathering : c.phase = .gathering plan first p) (h : w' = w.pollGathering id c plan first p)

theorem fanOutTurn_pollCall (here : w.task? id = some (.call c))
    (unfinished : ∀ e, c.phase ≠ .over e)
    (poised : Poised r w id c) (body : c.tool.body = .fanOut) (same : w' = w.pollCall r id c)
    (there : w'.task? id = some (.call c')) : FanOutTurn r w w' id c c' := by
  have open_ : w.Open id c := ⟨c, here, unfinished, .refl c⟩
  have refused {m : World} {e : CallEnd} (call : m.HasCall id) (same : w' = m.endCall id c e)
      (timely : ∀ ms, e ≠ .timedOut ms) : FanOutTurn r w w' id c c' := by
    subst same
    obtain rfl := ended_endCall call there
    exact .refused e rfl timely
  have begins (fresh : c.phase = .fresh) (same : w' = w.begin r id c) :
      FanOutTurn r w w' id c c' := by
    simp only [begin, body] at same
    exact .begins fresh same
  unfold pollCall at same
  split at same
  · next isOver => exact absurd isOver (unfinished _)
  · split at same
    · unfold endAborted at same
      dsimp only at same
      split at same
      · next plan first p now =>
        obtain ⟨answers, gathers⟩ := poised.gathering plan first p now
        exact refused (open_.abortWorkers (gathers.ne_of_open open_)).hasCall same (by simp)
      · exact refused ⟨c, here⟩ same (by simp)
    · split at same
      · next fresh =>
        unfold pollFresh at same
        split at same
        · exact begins fresh same
        · split at same
          · exact begins fresh same
          · exact refused ⟨c, here⟩ same (by simp)
          · exact refused ⟨c, here⟩ same (by simp)
      · next now => exact absurd body (poised.waiting _ _ now)
      · next plan first p now => exact .gathers now same
      · next isOver => exact absurd isOver (unfinished _)

@[simp] theorem hire_keeps (w : World) (id : TaskId) (s : Signal) (queries : List FanOut.Query) :
    (w.hire id s queries).now = w.now ∧ (w.hire id s queries).timers = w.timers := by
  induction queries generalizing w with
  | nil => exact ⟨rfl, rfl⟩
  | cons q queries ih => exact ih _

/-- **A fan-out that has begun** expects the moment at which its time is up, if it has not come. -/
theorem gathered_beginFanOut (here : w.Open id c) (tidy : w.Tidy)
    (nobody : ∀ x k, w.task? x = some (.worker k) → k.gatherer ≠ id)
    (there : (w.beginFanOut r id c).task? id = some (.call c')) :
    c'.deadline = c.deadline ∧ ((∃ x, c'.phase = .over (.result x)) ∨
      (w.isLate c = true ∧ ∃ ms, c'.phase = .over (.timedOut ms)) ∨
      ∃ plan p, c'.phase = .gathering plan w.tasks.size p ∧
        ∀ moment, c.deadline = some moment →
          (w.beginFanOut r id c).Timed id w.tasks.size moment) := by
  cases planned : FanOut.plan r.maxFanOut c.inputs with
  | error e =>
    rw [beginFanOut, planned] at there
    obtain rfl := ended_endCall here.hasCall there
    exact ⟨rfl, .inl ⟨_, rfl⟩⟩
  | ok plan =>
    rw [beginFanOut_eq planned] at there ⊢
    have still := here.hire id c.signal plan.queries
    have gathers := gathers_hire planned nobody
    obtain ⟨now, timers⟩ := hire_keeps w id c.signal plan.queries
    have there' : ((w.hire id c.signal plan.queries).pollGathering id c plan w.tasks.size
        { workers := plan.workers }).task? id = some (.call c') := by
      rw [← there]
      unfold setDeadline
      split <;> rfl
    have late : (w.hire id c.signal plan.queries).isLate c = w.isLate c := by
      rw [isLate, now, isLate]
    obtain ⟨same, gathered⟩ := gathered_pollGathering still (gathers.ne_of_open still) there'
    refine ⟨same, ?_⟩
    cases gathered with
    | result x isOver => exact .inl ⟨x, isOver⟩
    | late h ms isOver => exact .inr (.inl ⟨late ▸ h, ms, isOver⟩)
    | onward timely p gathering now' timers' =>
      refine .inr (.inr ⟨plan, p, gathering, fun moment deadline => ?_⟩)
      rw [late, isLate, deadline] at timely
      rw [setDeadline, deadline]
      refine ⟨?_, ?_⟩
      · have still : w.now < moment := by simpa using timely
        exact (now'.trans now).trans_lt still
      · show Foremost _ _ (insertTimer _ _)
        rw [timers', timers]
        refine foremost_insertTimer fun t ht => ?_
        obtain ⟨t', there, -⟩ := tidy.bosses t ht
        exact (Array.getElem?_eq_some_iff.mp there).1

/-- A call that gathers is a fan-out. -/
theorem Ordered.body_of_gathering (ordered : Ordered r w) (here : w.task? id = some (.call c))
    (gathering : c.phase = .gathering plan first p) : c.tool.body = .fanOut := by
  obtain ⟨⟨answers, gathers⟩, missing⟩ :=
    (ordered.sane.calls id c (by simp) here).gathering plan first p gathering
  obtain ⟨k, worker, hired, -⟩ := gathers.worker (Nat.lt_of_le_of_lt (Nat.zero_le _) missing)
  obtain ⟨c', call, body⟩ := ordered.crew _ k worker
  rw [hired.gatherer] at call
  cases here.symm.trans call
  exact body

/-- **A fan-out that has had its turn** and gathers has time left. -/
theorem timed_of_own (ordered : Ordered r w) (timely : w.Timely) (turn : Turn r w id ready w')
    (here : w.task? id = some (.call c)) (body : c.tool.body = .fanOut)
    (there : w'.task? id = some (.call c')) (gathering : c'.phase = .gathering plan first p)
    (deadline : c'.deadline = some moment) : w'.Timed id first moment := by
  have poised := ordered.sane.poised here turn.others
  by_cases ended : ∃ e, c.phase = .over e
  · obtain ⟨e, isOver⟩ := ended
    cases gathering.symm.trans ((turn.own ordered).stays c c' e here there isOver)
  have unfinished (e : CallEnd) : c.phase ≠ .over e := fun isOver => ended ⟨e, isOver⟩
  have open_ : World.Open { w with ready } id c := ⟨c, here, unfinished, .refl c⟩
  cases fanOutTurn_pollCall (w := { w with ready }) here unfinished poised body (turn.call c here)
    there with
  | refused e isOver => cases gathering.symm.trans isOver
  | begins fresh same =>
    subst same
    have timed : c.Alike { c with deadline := c.limit.map (w.now + ·) } :=
      ⟨rfl, rfl, rfl, rfl, rfl, rfl⟩
    obtain ⟨kept, ⟨x, isOver⟩ | ⟨-, ms, isOver⟩ | ⟨plan', p', gathering', timed⟩⟩ :=
      gathered_beginFanOut (open_.alike timed) (turn.popped ordered.tidy)
        (poised.nobody fresh) there
    · cases gathering.symm.trans isOver
    · cases gathering.symm.trans isOver
    · cases gathering.symm.trans gathering'
      exact timed moment (kept.symm.trans deadline)
  | gathers now same =>
    subst same
    obtain ⟨answers, gathers⟩ := poised.gathering _ _ _ now
    obtain ⟨kept, gathered⟩ := gathered_pollGathering open_ (gathers.ne_of_open open_) there
    cases gathered with
    | result x isOver => cases gathering.symm.trans isOver
    | late _ ms isOver => cases gathering.symm.trans isOver
    | onward onTime p' gathering' now' timers' =>
      cases gathering.symm.trans gathering'
      have set : c.deadline = some moment := kept.symm.trans deadline
      rcases timely id c _ _ _ moment here now set with ⟨ahead, foremost⟩ | ⟨come, -⟩
      · exact ⟨now'.trans_lt ahead, timers'.symm ▸ foremost⟩
      · simp [isLate, set, come] at onTime

/-- A fan-out that gathers when another has had its turn did so before, with the same deadline. -/
theorem Turn.gathered (turn : Turn r w me ready w') (other : me ≠ id)
    (there : w'.task? id = some (.call c')) (gathering : c'.phase = .gathering plan first p) :
    ∃ c p₀, w.task? id = some (.call c) ∧ c.phase = .gathering plan first p₀ ∧
      c.deadline = c'.deadline := by
  rcases turn.spares.wasCall there with ⟨-, -, fresh, -⟩ | ⟨c, here, -, spared⟩
  · cases fresh.symm.trans gathering
  have spared := spared other.symm
  rcases spared.phase with same | ⟨plan₀, first₀, p₀, p₁, before, after, _⟩
  · exact ⟨c, p, here, same.symm.trans gathering, spared.deadline.symm⟩
  · cases gathering.symm.trans after
    exact ⟨c, p₀, here, before, spared.deadline.symm⟩

/-- It had its turn, and was a fan-out before. -/
theorem Turn.timed (turn : Turn r w id ready w') (ordered : Ordered r w) (ordered' : Ordered r w')
    (timely : w.Timely) (there : w'.task? id = some (.call c'))
    (gathering : c'.phase = .gathering plan first p) (deadline : c'.deadline = some moment) :
    w'.Timed id first moment := by
  have body' := ordered'.body_of_gathering there gathering
  rcases turn.spares.wasCall there with ⟨-, -, fresh, -⟩ | ⟨c, here, alike, -⟩
  · cases fresh.symm.trans gathering
  · exact timed_of_own ordered timely turn here (alike.tool ▸ body') there gathering deadline

/-- **In whatever order tasks go on**, fan-outs expect the moments at which their time is up. -/
theorem Pulse.timely (h : Pulse r w w') (ordered : Ordered r w) (timely : w.Timely) :
    w'.Timely := by
  intro id c' plan first p moment there gathering deadline
  rcases h.turn ordered with ⟨quiet, moved⟩ | ⟨me, ready, turn⟩
  · obtain ⟨-, -, -, -, tasks, -⟩ := advance?_cases moved
    have here : w.task? id = some (.call c') := (congrArg (·[id]?) tasks).symm.trans there
    rcases timely id c' plan first p moment here gathering deadline with timed | ⟨-, inLine⟩
    · exact (timed.advance? ordered.tidy quiet moved).imp_right (.imp_right Leads.mem)
    · simp [quiet] at inLine
  · by_cases own : me = id
    · subst own
      exact .inl (turn.timed ordered (h.ordered ordered) timely there gathering deadline)
    · obtain ⟨c, p₀, here, before, same⟩ := turn.gathered own there gathering
      exact (timely id c plan first p₀ moment here before (same.trans deadline)).turn
        ordered.tidy turn own

theorem timely_of_pulses (h : Pulses r {} w) : w.Timely := by
  induction h with
  | refl => exact fun _ _ _ _ _ _ here => by simp [task?] at here
  | tail pulses pulse ih => exact pulse.timely (ordered_of_pulses pulses) ih

/-- **In the order of the line**, fan-outs whose time is up are before their workers. -/
theorem Beat.prompt (h : Beat r w w') (ordered : Ordered r w) (timely : w.Timely)
    (prompt : w.Prompt) : w'.Prompt := by
  intro id c' plan first p there gathering deadline
  rcases h.turn ordered with ⟨quiet, moved⟩ | ⟨me, ready, heads, turn⟩
  · obtain ⟨-, -, -, -, tasks, -⟩ := advance?_cases moved
    have here : w.task? id = some (.call c') := (congrArg (·[id]?) tasks).symm.trans there
    rcases timely id c' plan first p _ here gathering deadline with timed | ⟨-, inLine⟩
    · rcases timed.advance? ordered.tidy quiet moved with ⟨ahead, -⟩ | ⟨-, leads⟩
      · exact absurd ahead (Nat.lt_irrefl _)
      · exact leads
    · simp [quiet] at inLine
  · by_cases own : me = id
    · subst own
      have timed := turn.timed ordered (h.ordered ordered) timely there gathering deadline
      exact absurd timed.1 (Nat.lt_irrefl _)
    · obtain ⟨c, p₀, here, before, same⟩ := turn.gathered own there gathering
      have come : c.deadline = some w.now := same.trans (turn.spares.now ▸ deadline)
      obtain ⟨front, back, line, older⟩ := prompt id c plan first p₀ here before come
      obtain ⟨front', back', line', sub⟩ := turn.stays heads own line
      exact ⟨front', back', line', fun x hx => older x (sub x hx)⟩

theorem prompt_of_beats (h : Beats r {} w) : w.Prompt := by
  induction h with
  | refl => exact fun _ _ _ _ _ here => by simp [task?] at here
  | tail beats beat ih =>
    exact beat.prompt (ordered_of_beats beats) (timely_of_pulses (Beats.pulses beats)) ih

/-- A call ends in its own turn only. -/
theorem Ordered.ends_in_turn (ordered : Ordered r w) (pulse : Pulse r w w')
    (before : ∀ c e, w.task? id = some (.call c) → c.phase ≠ .over e)
    (there : w'.task? id = some (.call c')) {e : CallEnd} (isOver : c'.phase = .over e) :
    ∃ c ready, w.task? id = some (.call c) ∧ c.Alike c' ∧ Turn r w id ready w' := by
  rcases pulse.turn ordered with ⟨-, moved⟩ | ⟨me, ready, turn⟩
  · obtain ⟨-, -, -, -, tasks, -⟩ := advance?_cases moved
    exact absurd isOver (before c' e ((congrArg (·[id]?) tasks).symm.trans there))
  · rcases turn.spares.wasCall there with ⟨-, -, fresh, -⟩ | ⟨c, here, alike, spared⟩
    · cases fresh.symm.trans isOver
    by_cases own : id = me
    · subst own
      exact ⟨c, ready, here, alike, turn⟩
    · exact absurd (((spared own).stayed (by simp [isOver])).symm.trans isOver) (before c e here)

/-- **A fan-out that ends because its time is up** does so at that moment. -/
theorem Ordered.ends_on_time (ordered : Ordered r w) (timely : w.Timely) (pulse : Pulse r w w')
    (before : ∀ c e, w.task? id = some (.call c) → c.phase ≠ .over e)
    (there : w'.task? id = some (.call c')) (body : c'.tool.body = .fanOut) {ms : Nat}
    (isOver : c'.phase = .over (.timedOut ms)) :
    c'.deadline = some w'.now ∧ ∃ c, w.task? id = some (.call c) ∧
      (c.phase = .fresh ∨ ∃ plan first p, c.phase = .gathering plan first p ∧
        c.deadline = some w'.now) := by
  obtain ⟨c, ready, here, alike, turn⟩ := ordered.ends_in_turn pulse before there isOver
  have poised := ordered.sane.poised here turn.others
  have unfinished (e : CallEnd) : c.phase ≠ .over e := before c e here
  have open_ : World.Open { w with ready } id c := ⟨c, here, unfinished, .refl c⟩
  have now : w'.now = w.now := turn.spares.now
  rw [now]
  cases fanOutTurn_pollCall (w := { w with ready }) here unfinished poised (alike.tool ▸ body)
    (turn.call c here) there with
  | refused e isOver' inTime =>
    cases isOver.symm.trans isOver'
    exact absurd rfl (inTime ms)
  | begins fresh same =>
    subst same
    have timed : c.Alike { c with deadline := c.limit.map (w.now + ·) } :=
      ⟨rfl, rfl, rfl, rfl, rfl, rfl⟩
    obtain ⟨kept, ⟨x, isOver'⟩ | ⟨late, -⟩ | ⟨plan', p', gathering', -⟩⟩ :=
      gathered_beginFanOut (open_.alike timed) (turn.popped ordered.tidy)
        (poised.nobody fresh) there
    · cases isOver.symm.trans isOver'
    · refine ⟨?_, c, here, .inl fresh⟩
      rw [kept]
      cases limit : c.limit with
      | none => simp [isLate, limit] at late
      | some ms =>
        have come : w.now + ms ≤ w.now := by simpa [isLate, limit] using late
        obtain rfl : ms = 0 := by omega
        simp
    · cases isOver.symm.trans gathering'
  | @gathers plan first p gathering same =>
    subst same
    obtain ⟨answers, gathers⟩ := poised.gathering _ _ _ gathering
    obtain ⟨kept, gathered⟩ := gathered_pollGathering open_ (gathers.ne_of_open open_) there
    cases gathered with
    | result x isOver' => cases isOver.symm.trans isOver'
    | late late ms isOver =>
      obtain ⟨moment, set⟩ : ∃ moment, c.deadline = some moment := by
        cases set : c.deadline with
        | none => simp [isLate, set] at late
        | some moment => exact ⟨moment, rfl⟩
      have come : moment ≤ w.now := by simpa [isLate, set] using late
      have same : w.now = moment := by
        rcases timely id c plan first p moment here gathering set with ⟨ahead, -⟩ | ⟨same, -⟩
        · omega
        · exact same
      exact ⟨kept.trans (same ▸ set), c, here, .inr ⟨plan, first, p, gathering, same ▸ set⟩⟩
    | onward _ p' gathering' => cases isOver.symm.trans gathering'

end Runbook.Schedule.World
