import Runbook.Proofs.Schedule.Lone

/-!
# Which clock comes first

A fan-out that is waited for goes on just as it would without its clocks (`Races`), until one of
them comes. So what it would come to without them, and when, says which of the three clocks decides
(`Races.decided`); at the deadline a fan-out looks at its clock before anything that has finished at
that moment has reached it.
-/

set_option autoImplicit false

namespace Runbook.Schedule
namespace World

open FanOut (Progress)

variable {r : Registry} {k : Watched} {w w' m u : World} {o : Except Failure ToolOutput} {t : Tool}
  {tool : String} {inputs : Fields Json} {limit stopAt : Option Nat} {id s x : TaskId} {c c' : Call}
  {plan : FanOut.Plan} {first : TaskId} {p : Progress} {pause : Option Pause}

/-! ## 1. Time goes on -/

@[simp] theorem now_pollWait (w : World) (wait : Wait) : (w.pollWait wait).2.now = w.now := by
  unfold pollWait
  split
  · exact now_fire _ _
  · split
    · rw [now_fire, now_abort]
    · rfl

@[simp] theorem now_look (w : World) (k : Watched) (id : TaskId) : (w.look k id).2.now = w.now := by
  unfold look
  split
  · rw [now_pollWait, now_fire]
  · exact now_pollWait _ _

/-- Whoever pauses has only left the line. -/
theorem now_of_pause {pause : Pause} (h : w.step r = (some pause, m)) : m.now = w.now := by
  rw [step] at h
  split at h
  · cases h
    rfl
  · dsimp only at h
    split at h <;> cases h
    rfl

/-- What is returned is returned at once. -/
theorem now_of_stir (h : w.stir r k = (some o, m)) : m.now = w.now := by
  obtain ⟨pause, w₁, stepped⟩ : ∃ pause w₁, w.step r = (pause, w₁) := ⟨_, _, rfl⟩
  rw [stir, stepped] at h
  rcases pause with _ | _ | id
  case none => cases h
  case some.quiet => cases h
  case some.client =>
    have now := now_look w₁ k id
    dsimp only at h
    rw [h] at now
    exact now.trans (now_of_pause stepped)

theorem le_stir (r : Registry) (k : Watched) (w : World) : w.now ≤ (w.stir r k).2.now := by
  obtain ⟨pause, m, stepped⟩ : ∃ pause m, w.step r = (pause, m) := ⟨_, _, rfl⟩
  rw [stir, stepped]
  cases pause with
  | none => exact (follows_step stepped).later
  | some pause =>
    have same : m.now = w.now := now_of_pause stepped
    cases pause with
    | quiet =>
      dsimp only
      cases moved : m.advance? with
      | none => exact Nat.le_of_eq same.symm
      | some m' => exact same ▸ (follows_of_advance? moved).later
    | client id =>
      dsimp only
      rw [now_look, same]

theorem Returns.forwards (h : Returns r k w o u) : w.now ≤ u.now := by
  induction h with
  | @now w _ _ h =>
    have goes := le_stir r k w
    rwa [h] at goes
  | @later w _ _ _ h _ ih =>
    have goes := le_stir r k w
    rw [h] at goes
    exact Nat.le_trans goes ih

/-- Whoever looks and goes on waiting has changed nothing, and the call has not ended. -/
theorem look_none (h : w.look k id = (none, m)) :
    m = w ∧ ∀ c e, w.task? k.wait.call = some (.call c) → c.phase ≠ .over e := by
  have unended (c : Call) (e : CallEnd) (here : w.task? k.wait.call = some (.call c)) :
      c.phase ≠ .over e := fun isOver => by
    obtain ⟨w', looked, -⟩ := look_of_over here isOver id
    cases looked.symm.trans h
  refine ⟨?_, unended⟩
  by_cases stops : id = k.stopper
  · rw [stops, look_of_stopper unended] at h
    cases h
  · rw [look, if_neg stops, pollWait_of_unended unended] at h
    split at h <;> cases h
    rfl

/-! ## 2. Without the clocks -/

theorem untimed_look (id s : TaskId) (w : World) (k : Watched) (x : TaskId) :
    (w.untimed id s).look k x = ((w.look k x).1, (w.look k x).2.untimed id s) := by
  unfold look
  split
  · rw [← untimed_fire, untimed_pollWait]
  · exact untimed_pollWait id s w k.wait

/-- What is due is the same if only later timers are left out. -/
theorem due_filter {ts : List Timer} (ascending : Ascending ts) (keep : Timer → Bool)
    {moment : Nat} (kept : ∀ x ∈ ts, x.moment ≤ moment → keep x = true) :
    ∃ due rest, ts = due ++ rest ∧ ts.takeWhile (·.moment ≤ moment) = due ∧
      ts.filter keep = due ++ rest.filter keep ∧
        (ts.filter keep).takeWhile (·.moment ≤ moment) = due := by
  induction ts with
  | nil => exact ⟨[], [], rfl, rfl, rfl, rfl⟩
  | cons x ts ih =>
    obtain ⟨least, rest⟩ := List.pairwise_cons.mp ascending
    by_cases due : x.moment ≤ moment
    · obtain ⟨front, back, rfl, taken, left, taken'⟩ :=
        ih rest fun y hy => kept y (List.mem_cons_of_mem x hy)
      have stays : keep x = true := kept x List.mem_cons_self due
      refine ⟨x :: front, back, rfl, ?_, ?_, ?_⟩
      · rw [List.takeWhile_cons_of_pos (by simpa using due), taken]
      · rw [List.filter_cons_of_pos stays, left, List.cons_append]
      · rw [List.filter_cons_of_pos stays, List.takeWhile_cons_of_pos (by simpa using due), taken']
    · refine ⟨[], x :: ts, rfl, List.takeWhile_cons_of_neg (by simpa using due), rfl, ?_⟩
      cases left : (x :: ts).filter keep with
      | nil => rfl
      | cons y left' =>
        have there : y ∈ x :: ts := (List.mem_filter.mp (left ▸ List.mem_cons_self)).1
        have later : ¬ y.moment ≤ moment := by
          rcases List.mem_cons.mp there with rfl | inside
          · exact due
          · exact fun early => due (Nat.le_trans (least y inside) early)
        exact List.takeWhile_cons_of_neg (by simpa using later)

/-- **Time passes** just the same if the timers that are left out are later. -/
theorem untimed_advance? (ascending : Ascending w.timers) {t : Timer} {ts : List Timer}
    (head : w.timers = t :: ts)
    (kept : ∀ y ∈ w.timers, y.moment ≤ t.moment → y.task ≠ id ∧ y.task ≠ s)
    (moved : w.advance? = some m) : (w.untimed id s).advance? = some (m.untimed id s) := by
  obtain ⟨due, rest, whole, taken, left, taken'⟩ :=
    due_filter ascending (fun y => y.task != id && y.task != s)
      fun y hy early => by simpa using kept y hy early
  have some : due ≠ [] := by
    rw [← taken, head, List.takeWhile_cons_of_pos (by simp)]
    simp
  obtain ⟨t', due', rfl⟩ := List.exists_cons_of_ne_nil some
  obtain rfl : t' = t := (List.cons.inj (whole.symm.trans head)).1
  have moves (v : World) (more : List Timer) (timers : v.timers = t' :: due' ++ more)
      (due : v.timers.takeWhile (·.moment ≤ t'.moment) = t' :: due') :
      v.advance? = .some (((t' :: due').map (·.task)).foldl wake
        { v with now := max v.now t'.moment, timers := more }) := by
    unfold advance?
    rw [timers] at due ⊢
    dsimp only [List.cons_append]
    rw [← List.cons_append, due, List.drop_left, List.foldl_map]
  have before := moves w rest whole taken
  have after := moves (w.untimed id s) (rest.filter _) left taken'
  obtain rfl := Option.some.inj (before.symm.trans moved)
  rw [after, untimed_wakes]
  rfl

/-! ## 3. A fan-out that has begun -/

/-- The call is a fan-out that has begun, with its maker and its stopper, and its clocks are set and
have not come. -/
structure Races (r : Registry) (limit stopAt : Option Nat) (w : World) (c : Call) : Prop where
  reached : Beats r {} w
  maker : ∃ s, w.task? 0 = some (.client s)
  stopper : ∃ s, w.task? 1 = some (.client s)
  here : w.task? 2 = some (.call c)
  body : c.tool.body = .fanOut
  caller : c.caller = 0
  allowed : c.limit = limit
  deadline : c.deadline = limit
  phase : (∃ plan p, c.phase = .gathering plan 3 p ∧ (c.aborted = true → 2 ∈ w.ready)) ∨
    (∃ e, c.phase = .over e) ∧ 0 ∈ w.ready
  timers : ∀ t ∈ w.timers, t.task ≠ 0 ∧ (t.task = 1 → stopAt = some t.moment) ∧
    (t.task = 2 → limit = some t.moment)
  stop : ∀ m, stopAt = some m → w.now < m ∧ Foremost 0 ⟨m, 1⟩ w.timers
  time : ∀ l, limit = some l → w.now < l

namespace Races

theorem ordered (h : Races r limit stopAt w c) : Ordered r w := ordered_of_beats h.reached

/-- Its clocks make no difference to what the first in line does. -/
theorem leisurely (h : Races r limit stopAt w c) (there : w.task? 2 = some (.call c')) :
    w.Leisurely 2 2 c' := by
  cases h.here.symm.trans there
  refine ⟨fun _ => h.body, fun _ moment work waiting => ?_, fun _ l set => ?_, fun _ => ?_⟩
  · rcases h.phase with ⟨plan, p, gathering, -⟩ | ⟨⟨e, isOver⟩, -⟩
    · cases waiting.symm.trans gathering
    · cases waiting.symm.trans isOver
  · exact Nat.lt_of_le_of_lt (Nat.zero_le _) (h.time l (h.allowed.symm.trans set))
  · rw [isLate, h.deadline]
    cases set : limit with
    | none => rfl
    | some l => simpa using h.time l set

theorem untimed_step (h : Races r limit stopAt w c) :
    (w.untimed 2 1).step r = ((w.step r).1, (w.step r).2.untimed 2 1) := by
  obtain ⟨s, stopper⟩ := h.stopper
  refine World.untimed_step r (Array.getElem?_eq_some_iff.mp h.here).1 h.ordered.tidy.ascending
    (fun c' there => ?_) fun c' there => h.leisurely there
  cases stopper.symm.trans there

theorem untimed_stir (h : Races r limit stopAt w c) (busy : w.ready ≠ []) :
    (w.untimed 2 1).stir r k = ((w.stir r k).1, (w.stir r k).2.untimed 2 1) := by
  obtain ⟨pause, m, stepped⟩ : ∃ pause m, w.step r = (pause, m) := ⟨_, _, rfl⟩
  rw [stir, stir, h.untimed_step, stepped]
  rcases pause with _ | _ | id
  case none => rfl
  case some.quiet => exact absurd rfl (busy_of_step busy stepped)
  case some.client => exact untimed_look 2 1 m k id

/-- **A task goes on**, and the clocks have not come. -/
theorem step (h : Races r limit stopAt w c) (stepped : w.step r = (none, m)) :
    ∃ c', Races r limit stopAt m c' := by
  have busy : w.ready ≠ [] := fun quiet => by
    rw [World.step, quiet] at stepped
    cases stepped
  have beat : Beat r w m := .next busy stepped
  have reached : Beats r {} m := h.reached.trans beat.beats
  obtain ⟨me, ready, line, turn⟩ := turn_of_next h.ordered busy stepped
  have inside {x : TaskId} {s : Option Signal}
      (client : w.task? x = some (.client s)) : x ≠ me := by
    rintro rfl
    cases stepped.symm.trans (step_of_client line client)
  obtain ⟨s₀, maker⟩ := h.maker
  obtain ⟨s₁, stopper⟩ := h.stopper
  have now : m.now = w.now := turn.spares.now
  have stays {x : TaskId} (hx : x ∈ w.ready) (other : x ≠ me) : x ∈ m.ready :=
    turn.spares.ready.subset (turn.others x hx other)
  have stop (moment : Nat) (set : stopAt = some moment) :
      m.now < moment ∧ Foremost 0 ⟨moment, 1⟩ m.timers := by
    obtain ⟨ahead, foremost⟩ := h.stop moment set
    exact ⟨now.trans_lt ahead, turn.deeds.foremost (turn.popped h.ordered.tidy) foremost⟩
  have time (l : Nat) (set : limit = some l) : m.now < l := now.trans_lt (h.time l set)
  by_cases own : 2 = me
  · subst own
    have goes : m = pollCall { w with ready } r 2 c := turn.call c h.here
    rcases h.phase with ⟨plan, p, gathering, -⟩ | ⟨⟨e, isOver⟩, maker'⟩
    · obtain ⟨⟨answers, gathers⟩, -⟩ :=
        (h.ordered.sane.calls 2 c (by simp) h.here).gathering plan 3 p gathering
      rcases gathering_pollCall (r := r) (w := { w with ready }) h.here gathering
        fun i small => gathers.apart h.here small with
        ⟨v, e, still, timers, same⟩ | ⟨kept, -, arrived, -, same⟩
      · rw [same] at goes
        have there : m.task? 2 = some (.call { c with phase := .over e }) :=
          goes ▸ task?_endCall still e
        have inLine : 0 ∈ m.ready := h.caller ▸ goes ▸ mem_ready_wake _ _
        have timers' : m.timers = w.timers := goes ▸ (timers_endCall ..).trans timers
        exact ⟨{ c with phase := .over e }, reached, turn.spares.client 0 s₀ maker,
          turn.spares.client 1 s₁ stopper, there, h.body, h.caller, h.allowed, h.deadline,
          .inr ⟨⟨e, rfl⟩, inLine⟩, timers' ▸ h.timers, stop, time⟩
      · rw [same] at goes
        exact ⟨{ c with phase := .gathering plan 3 { p with arrived, finished := [] } }, reached,
          turn.spares.client 0 s₀ maker, turn.spares.client 1 s₁ stopper,
          goes ▸ task?_setTask_self h.here, h.body, h.caller, h.allowed, h.deadline,
          .inl ⟨plan, _, rfl, fun given => by simp [kept] at given⟩, goes ▸ h.timers, stop, time⟩
    · have same : m = { w with ready } := by
        rw [goes, pollCall]
        simp only [isOver]
      exact ⟨c, reached, turn.spares.client 0 s₀ maker, turn.spares.client 1 s₁ stopper,
        same ▸ h.here, h.body, h.caller, h.allowed, h.deadline,
        .inr ⟨⟨e, isOver⟩, stays maker' (inside maker)⟩, same ▸ h.timers, stop, time⟩
  · obtain ⟨c', there, spared⟩ := turn.spares.call 2 c own h.here
    refine ⟨c', reached, turn.spares.client 0 s₀ maker, turn.spares.client 1 s₁ stopper, there,
      spared.tool ▸ h.body, spared.caller.trans h.caller, spared.limit.trans h.allowed,
      spared.deadline.trans h.deadline, ?_, fun t ht => ?_, stop, time⟩
    · rcases h.phase with ⟨plan, p, gathering, given⟩ | ⟨⟨e, isOver⟩, inLine⟩
      · refine .inl ?_
        have up (given' : c'.aborted = true) : 2 ∈ m.ready :=
          (spared.up given').elim (fun before => stays (given before) own) id
        rcases spared.phase with same | ⟨plan', first', p₁, p₂, before, after, -⟩
        · exact ⟨plan, p, same.trans gathering, up⟩
        · cases gathering.symm.trans before
          exact ⟨plan, p₂, after, up⟩
      · exact .inr ⟨⟨e, (spared.stays (by simp [isOver])).trans isOver⟩,
          stays inLine (inside maker)⟩
    · rcases turn.deeds.timers ht with before | mine
      · exact h.timers t before
      · refine ⟨fun zero => ?_, fun one => ?_, fun two => ?_⟩
        · exact absurd (zero.symm.trans mine) (inside maker)
        · exact absurd (one.symm.trans mine) (inside stopper)
        · exact absurd (two.symm.trans mine) own

/-- Someone has looked and gone on waiting. -/
theorem look (h : Races r limit stopAt w c) (stepped : w.step r = (some (.client x), u))
    (looked : u.look (watch tool) x = (none, m)) : Races r limit stopAt m c := by
  have busy : w.ready ≠ [] := fun quiet => by
    rw [World.step, quiet] at stepped
    cases stepped
  obtain ⟨y, ready, line⟩ := List.exists_cons_of_ne_nil busy
  obtain ⟨rfl, unended⟩ := look_none looked
  have beat : Beat r w m := .next busy stepped
  have popped : y = x ∧ m = { w with ready } ∧ ∃ s, w.task? y = some (.client s) := by
    rw [World.step, line] at stepped
    dsimp only at stepped
    split at stepped
    all_goals cases stepped
    next s client => exact ⟨rfl, rfl, s, client⟩
  obtain ⟨rfl, rfl, s, client⟩ := popped
  refine ⟨h.reached.trans beat.beats, h.maker, h.stopper, h.here, h.body, h.caller,
    h.allowed, h.deadline,
    ?_, h.timers, h.stop, h.time⟩
  rcases h.phase with ⟨plan, p, gathering, given⟩ | ⟨⟨e, isOver⟩, -⟩
  · refine .inl ⟨plan, p, gathering, fun given' => ?_⟩
    have inLine := given given'
    rw [line] at inLine
    refine (List.mem_cons.mp inLine).resolve_left ?_
    rintro rfl
    cases h.here.symm.trans client
  · exact absurd isOver (unended c e h.here)

/-- **Time passes**, but not up to one of the clocks. -/
theorem tick (h : Races r limit stopAt w c) (quiet : w.ready = []) (moved : w.advance? = some m)
    {t : Timer} {ts : List Timer} (head : w.timers = t :: ts)
    (stop : ∀ moment, stopAt = some moment → t.moment < moment)
    (time : ∀ l, limit = some l → t.moment < l) : Races r limit stopAt m c := by
  obtain ⟨t', ts', head', now, tasks, -, left, -⟩ := advance?_cases moved
  cases head.symm.trans head'
  have same (x : TaskId) : m.task? x = w.task? x := congrArg (·[x]?) tasks
  refine ⟨h.reached.trans (Beat.tick quiet moved).beats, same 0 ▸ h.maker, same 1 ▸ h.stopper,
    (same 2).trans h.here, h.body, h.caller, h.allowed, h.deadline, ?_, fun t ht => ?_,
    fun moment set => ?_, fun l set => ?_⟩
  · rcases h.phase with ⟨plan, p, gathering, given⟩ | ⟨-, inLine⟩
    · exact .inl ⟨plan, p, gathering, fun given' => absurd (given given') (by simp [quiet])⟩
    · simp [quiet] at inLine
  · exact h.timers t ((List.dropWhile_sublist _).subset (left ▸ ht))
  · obtain ⟨ahead, foremost⟩ := h.stop moment set
    exact ⟨now ▸ max_lt ahead (stop moment set), left ▸ foremost.dropWhile (stop moment set)⟩
  · exact now ▸ max_lt (h.time l set) (time l set)

/-! ## 4. Which clock comes first -/

/-- Nobody is in line: the fan-out gathers, and nothing that has finished waits for it. -/
theorem gathers (h : Races r limit stopAt w c) (quiet : w.ready = []) :
    ∃ plan p, c.phase = .gathering plan 3 p ∧ c.aborted = false ∧ p.finished = [] ∧
      p.arrived.length ≠ plan.queries.length ∧
        ∀ i, i < plan.queries.length → 3 + i ≠ 2 := by
  rcases h.phase with ⟨plan, p, gathering, given⟩ | ⟨-, inLine⟩
  · obtain ⟨⟨answers, gathers⟩, missing⟩ :=
      (h.ordered.sane.calls 2 c (by simp) h.here).gathering plan 3 p gathering
    have kept : c.aborted = false := by
      by_contra given'
      simpa [quiet] using given (by simpa using given')
    have finished : p.finished = [] := by
      by_contra some
      rcases gathers.line some with no | inLine
      · exact no
      · simp [quiet] at inLine
    exact ⟨plan, p, gathering, kept, finished, Nat.ne_of_lt missing,
      fun i small => gathers.apart h.here small⟩
  · simp [quiet] at inLine

/-- **The stopper comes first.** -/
theorem stopped (h : Races r limit stopAt w c) (quiet : w.ready = []) {moment : Nat}
    (set : stopAt = some moment) (least : ∀ t ∈ w.timers, moment ≤ t.moment) :
    ReturnsAt r (watch tool) w (.error ToolError.cancelled.failure) moment := by
  obtain ⟨ahead, front, back, timers, early⟩ := h.stop moment set
  have none : front = [] := by
    refine List.eq_nil_iff_forall_not_mem.mpr fun t ht => ?_
    rcases early t ht with before | older
    · exact absurd (least t (timers ▸ List.mem_append_left _ ht)) (Nat.not_le.mpr before)
    · exact absurd older (Nat.not_lt_zero _)
  rw [none, List.nil_append] at timers
  obtain ⟨w₁, more, moved, line, now, tasks, -⟩ := advance?_of_head quiet timers
  have same (x : TaskId) : w₁.task? x = w.task? x := congrArg (·[x]?) tasks
  obtain ⟨s, stopper⟩ := h.stopper
  obtain ⟨plan, p, gathering, -⟩ := h.gathers quiet
  rw [Nat.max_eq_right (Nat.le_of_lt ahead)] at now
  rw [← now]
  refine .of_stir (stir_of_quiet quiet moved)
    (returns_of_stopper line ((same 1).trans stopper) fun c' e there isOver => ?_)
  cases h.here.symm.trans ((same 2).symm.trans there)
  cases gathering.symm.trans isOver

/-- **The deadline comes first**, or with something that has finished by then. -/
theorem late (h : Races r limit stopAt w c) (quiet : w.ready = []) {l : Nat} (set : limit = some l)
    (least : ∀ t ∈ w.timers, l ≤ t.moment) (unstopped : ∀ m, stopAt = some m → l < m) :
    ReturnsAt r (watch tool) w ((CallEnd.timedOut l).outcome tool) l := by
  obtain ⟨plan, p, gathering, kept, finished, missing, others⟩ := h.gathers quiet
  have deadline : c.deadline = some l := h.deadline.trans set
  have ahead : w.now < l := h.time l set
  obtain ⟨t, ts, timers, task, moment⟩ :
      ∃ t ts, w.timers = t :: ts ∧ t.task = 2 ∧ t.moment = l := by
    obtain ⟨-, front, back, timers, early⟩ :=
      (timely_of_pulses h.reached.pulses 2 c plan 3 p l h.here gathering deadline).resolve_right
        fun ⟨come, _⟩ => absurd come (Nat.ne_of_lt ahead)
    cases front with
    | nil => exact ⟨⟨l, 2⟩, back, timers, rfl, rfl⟩
    | cons t front =>
      have there : t ∈ w.timers := timers ▸ List.mem_cons_self
      have ascending := h.ordered.tidy.ascending
      rw [timers] at ascending
      have before : t.moment ≤ l := (List.pairwise_cons.mp ascending).1 ⟨l, 2⟩ (by simp)
      have come : t.moment = l := Nat.le_antisymm before (least t there)
      obtain ⟨notMaker, stops, -⟩ := h.timers t there
      have older := (early t List.mem_cons_self).resolve_left
        (Nat.not_lt.mpr (Nat.le_of_eq come.symm))
      -- of the tasks that are older, only the stopper has a timer, and it comes later
      have notStopper : t.task ≠ 1 := fun one => by
        have := unstopped _ (stops one)
        omega
      have rest (n : Nat) (notMaker : n ≠ 0) (notStopper : n ≠ 1) (older : n < 3) : n = 2 := by
        omega
      exact ⟨t, _, timers, rest t.task notMaker notStopper older, come⟩
  obtain ⟨w₁, more, moved, line, now, tasks, -⟩ := advance?_of_head quiet timers
  rw [task] at line
  have now : w₁.now = l := by rw [now, moment, Nat.max_eq_right (Nat.le_of_lt ahead)]
  have here : w₁.task? 2 = some (.call c) := (congrArg (·[2]?) tasks).trans h.here
  have late : ({ w₁ with ready := more } : World).isLate c = true := by
    simp [isLate, deadline, now]
  have stepped : w₁.step r = (none, (({ w₁ with ready := more } : World).abortWorkers 3
      plan.queries.length).endCall 2 c (.timedOut (c.limit.getD 0))) := by
    rw [step_of_call line here, pollCall_gathering r _ 2 gathering, if_neg (by simp [kept]),
      pollGathering, finished]
    simp only [Progress.look, missing, late, if_false, if_true, endLate]
  have reached : Beats r {} w₁ := h.reached.trans (Beat.tick quiet moved).beats
  have ordered := ordered_of_beats reached
  have beat : Beat r w₁ _ := .next (by simp [line]) stepped
  have open_ : World.Open { w₁ with ready := more } 2 c := ⟨c, here, by simp [gathering], .refl c⟩
  obtain ⟨s, maker⟩ := h.maker
  have ended := Ended.mk (k := watch tool) ⟨_, task?_endCall (open_.abortWorkers others) _, rfl⟩
    (beat.beats.client ordered ((congrArg (·[0]?) tasks).trans maker))
    (by
      rw [show (watch tool).maker = c.caller from h.caller.symm]
      exact mem_ready_wake _ _)
  have returns := returns_of_ends ordered stepped ended
  rw [h.allowed, set, Option.getD_some, now] at returns
  exact .of_stir (stir_of_quiet quiet moved) returns

/-- The timers are later than a moment, if the clocks are, and the first of the others. -/
theorem least (h : Races r limit stopAt w c) {t : Timer} {ts : List Timer}
    (head : (w.untimed 2 1).timers = t :: ts) {moment : Nat} (early : moment ≤ t.moment)
    (stop : ∀ m, stopAt = some m → moment ≤ m) (time : ∀ l, limit = some l → moment ≤ l) :
    ∀ x ∈ w.timers, moment ≤ x.moment := by
  intro x hx
  obtain ⟨-, stops, times⟩ := h.timers x hx
  by_cases one : x.task = 1
  · exact stop _ (stops one)
  by_cases two : x.task = 2
  · exact time _ (times two)
  have there : x ∈ (w.untimed 2 1).timers := List.mem_filter.mpr ⟨hx, by simp [one, two]⟩
  have ascending : Ascending (w.untimed 2 1).timers :=
    h.ordered.tidy.ascending.sublist List.filter_sublist
  rw [head] at ascending there
  rcases List.mem_cons.mp there with rfl | behind
  · exact early
  · exact Nat.le_trans early ((List.pairwise_cons.mp ascending).1 x behind)

/-- A clock comes before the others go on. -/
theorem decided_of_clock (h : Races r limit stopAt w c) (quiet : w.ready = []) {t : Timer}
    {ts : List Timer} (head : (w.untimed 2 1).timers = t :: ts) {d : Nat} (passed : t.moment ≤ d)
    (soon : (∃ m, stopAt = some m ∧ m ≤ t.moment) ∨ ∃ l, limit = some l ∧ l ≤ t.moment) :
    Decided (ReturnsAt r (watch tool) w) tool d o limit stopAt False where
  stopped m set _ timely := by
    have early : m ≤ t.moment := by
      rcases soon with ⟨m', set', soon⟩ | ⟨l, set', soon⟩
      · cases set.symm.trans set'
        exact soon
      · exact Nat.le_of_lt (Nat.lt_of_lt_of_le (timely l set') soon)
    refine h.stopped quiet set (h.least head early (fun m' set' => ?_) fun l set' =>
      Nat.le_of_lt (timely l set'))
    cases set.symm.trans set'
    exact Nat.le_refl m
  done unstopped timely := by
    rcases soon with ⟨m, set, soon⟩ | ⟨l, set, soon⟩
    · have := unstopped m set
      omega
    · rcases timely l set with before | ⟨-, no⟩
      · omega
      · exact no.elim
  late l set unstopped _ := by
    have early : l ≤ t.moment := by
      rcases soon with ⟨m, set', soon⟩ | ⟨l', set', soon⟩
      · exact Nat.le_of_lt (Nat.lt_of_lt_of_le (unstopped m set') soon)
      · cases set.symm.trans set'
        exact soon
    refine h.late quiet set (h.least head early (fun m set' => Nat.le_of_lt (unstopped m set'))
      fun l' set' => ?_) unstopped
    cases set.symm.trans set'
    exact Nat.le_refl l

/-- No clock comes before the others go on. -/
theorem tick_untimed (h : Races r limit stopAt w c) (quiet : w.ready = []) {t : Timer}
    {ts : List Timer} (head : (w.untimed 2 1).timers = t :: ts)
    (stop : ∀ m, stopAt = some m → t.moment < m) (time : ∀ l, limit = some l → t.moment < l) :
    ∃ m, w.advance? = some m ∧ (w.untimed 2 1).advance? = some (m.untimed 2 1) ∧
      Races r limit stopAt m c := by
  have there : t ∈ w.timers := (List.mem_filter.mp (head ▸ List.mem_cons_self :
    t ∈ (w.untimed 2 1).timers)).1
  have kept (x : Timer) (hx : x ∈ w.timers) (early : x.moment ≤ t.moment) :
      x.task ≠ 2 ∧ x.task ≠ 1 := by
    obtain ⟨-, stops, times⟩ := h.timers x hx
    exact ⟨fun two => absurd (time _ (times two)) (Nat.not_lt.mpr early),
      fun one => absurd (stop _ (stops one)) (Nat.not_lt.mpr early)⟩
  obtain ⟨t', ts', timers⟩ := List.exists_cons_of_ne_nil (List.ne_nil_of_mem there)
  have ascending := h.ordered.tidy.ascending
  obtain rfl : t' = t := by
    have first : t'.moment ≤ t.moment := by
      rw [timers] at ascending there
      rcases List.mem_cons.mp there with rfl | behind
      · exact Nat.le_refl _
      · exact (List.pairwise_cons.mp ascending).1 t behind
    obtain ⟨two, one⟩ := kept t' (timers ▸ List.mem_cons_self) first
    rw [untimed, timers, List.filter_cons_of_pos (by simp [two, one])] at head
    exact (List.cons.inj head).1
  obtain ⟨m, more, moved, -⟩ := advance?_of_head quiet timers
  exact ⟨m, moved, untimed_advance? ascending timers kept moved,
    h.tick quiet moved timers stop time⟩

/-- **The first clock decides**, if this is what the fan-out would come to without its clocks. -/
theorem decided (h : Races r limit stopAt w c)
    (returns : Returns r (watch tool) (w.untimed 2 1) o u) :
    Decided (ReturnsAt r (watch tool) w) tool u.now o limit stopAt False := by
  generalize same : w.untimed 2 1 = v at returns
  induction returns generalizing w c with
  | @now v u o stirred =>
    subst same
    have busy : w.ready ≠ [] := fun quiet => by
      rw [stir, World.step, ready_untimed, quiet] at stirred
      cases stirred
    rw [h.untimed_stir busy] at stirred
    obtain ⟨w', stirred', rfl⟩ : ∃ w', w.stir r (watch tool) = (some o, w') ∧ u = w'.untimed 2 1 :=
      ⟨_, Prod.ext (Prod.mk.inj stirred).1 rfl, (Prod.mk.inj stirred).2.symm⟩
    have now : w'.now = w.now := now_of_stir stirred'
    exact .early ⟨w', .now stirred', rfl⟩ (fun m set => now.trans_lt (h.stop m set).1)
      fun l set => now.trans_lt (h.time l set)
  | @later v m u o stirred rest ih =>
    subst same
    -- it is decided already if the world goes on to one without clocks like this one
    have goes {m' : World} {c' : Call} (h' : Races r limit stopAt m' c') (same : m'.untimed 2 1 = m)
        (stirred' : w.stir r (watch tool) = (none, m')) :
        Decided (ReturnsAt r (watch tool) w) tool u.now o limit stopAt False :=
      (ih h' same).of_stir stirred'
    by_cases quiet : w.ready = []
    · cases head : (w.untimed 2 1).timers with
      | nil =>
        -- nobody goes on without the clocks, and nothing would be returned
        have still : (w.untimed 2 1).stir r (watch tool) = (none, w.untimed 2 1) := by
          rw [stir, World.step, ready_untimed, quiet]
          dsimp only
          rw [advance?, head]
          rfl
        cases still.symm.trans stirred
        exact ih h rfl
      | cons t ts =>
        obtain ⟨m₁, -, moved, -, now, -⟩ := advance?_of_head (w := w.untimed 2 1) quiet head
        cases (stir_of_quiet (k := watch tool) (r := r) (w := w.untimed 2 1) quiet moved).symm.trans
          stirred
        have passed : t.moment ≤ u.now :=
          Nat.le_trans (now ▸ Nat.le_max_right _ _) rest.forwards
        by_cases soon : (∃ m, stopAt = some m ∧ m ≤ t.moment) ∨ ∃ l, limit = some l ∧ l ≤ t.moment
        · exact h.decided_of_clock quiet head passed soon
        · obtain ⟨stop, time⟩ := not_or.mp soon
          obtain ⟨m', moved', moved'', h'⟩ := h.tick_untimed quiet head
            (fun m set => Nat.lt_of_not_le fun early => stop ⟨m, set, early⟩)
            fun l set => Nat.lt_of_not_le fun early => time ⟨l, set, early⟩
          exact goes h' (Option.some.inj (moved''.symm.trans moved)) (stir_of_quiet quiet moved')
    · rw [h.untimed_stir quiet] at stirred
      obtain ⟨m', stirred', same⟩ : ∃ m', w.stir r (watch tool) = (none, m') ∧ m'.untimed 2 1 = m :=
        ⟨_, Prod.ext (Prod.mk.inj stirred).1 rfl, (Prod.mk.inj stirred).2⟩
      obtain ⟨pause, w₁, stepped⟩ : ∃ pause w₁, w.step r = (pause, w₁) := ⟨_, _, rfl⟩
      rcases pause with _ | _ | x
      case none =>
        cases stirred'.symm.trans (stir_of_step stepped)
        obtain ⟨c', h'⟩ := h.step stepped
        exact goes h' same (stir_of_step stepped)
      case some.quiet => exact absurd rfl (busy_of_step quiet stepped)
      case some.client =>
        have looked := (stir_of_client stepped).symm.trans stirred'
        exact goes (h.look stepped looked) same stirred'

end Races

end World
end Runbook.Schedule
