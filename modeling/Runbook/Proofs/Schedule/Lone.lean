import Runbook.Proofs.Schedule.Returns
import Runbook.Proofs.Schedule.Verdicts

/-!
# A call on its own

The world in which a call has just been made on its own (`lone`), and what is returned when the call
ends, when it is told to stop, and, for the work of a tool alone, which of its three clocks comes
first: the work, the limit, or the stopper.
-/

set_option autoImplicit false

namespace Runbook.Schedule
namespace World

variable {r : Registry} {k : Watched} {w w' w₁ m : World} {o : Except Failure ToolOutput} {t : Tool}
  {tool : String} {inputs : Fields Json} {limit stopAt : Option Nat} {id : TaskId} {c : Call}
  {e : CallEnd}

/-! ## 1. Where it begins -/

/-- The call, before it has gone on. -/
def loneCall (t : Tool) (inputs : Fields Json) (limit : Option Nat) : Call :=
  { tool := t, inputs, signal := [1, 0], limit, caller := 0 }

/-- The world in which a call has just been made on its own. -/
def lone (t : Tool) (inputs : Fields Json) (limit stopAt : Option Nat) : World where
  tasks := #[.client (some [0]), .client none, .call (loneCall t inputs limit)]
  ready := [2]
  timers := stopAt.toList.map (⟨·, 1⟩)
  signals := 2

/-- How one waits for it. -/
def watch (tool : String) : Watched := ⟨0, 1, ⟨tool, 2, [0], [1, 0]⟩⟩

/-- **A call of a tool that there is** is answered with what the wait for it returns. -/
theorem answered_iff (known : r.tool? tool = some t) (later : stopAt ≠ some 0) :
    Answered r tool inputs limit stopAt o w' ↔
      Returns r (watch tool) (lone t inputs (limit.or (r.timeoutFor tool)) stopAt) o w' := by
  have awaited : Answered r tool inputs limit stopAt o w' ↔
      Awaited r (watch tool) (lone t inputs (limit.or (r.timeoutFor tool)) stopAt) o w' := by
    unfold Answered startCall
    rw [known]
    match stopAt with
    | none => exact Iff.rfl
    | some 0 => exact absurd rfl later
    | some (ms + 1) => exact Iff.rfl
  have polled : (lone t inputs (limit.or (r.timeoutFor tool)) stopAt).pollWait (watch tool).wait =
      (none, lone t inputs (limit.or (r.timeoutFor tool)) stopAt) := rfl
  refine awaited.trans ⟨fun h => ?_, .later polled⟩
  cases h with
  | now h => cases polled.symm.trans h
  | later h rest =>
    cases polled.symm.trans h
    exact rest

/-- Only the stopper has set a timer. -/
theorem mem_stopTimers {t : Timer} :
    t ∈ (stopAt.toList.map (⟨·, 1⟩) : List Timer) ↔ stopAt = some t.moment ∧ t.task = 1 := by
  obtain ⟨moment, task⟩ := t
  cases stopAt with
  | none => simp
  | some stop => simp [eq_comm]

theorem beats_lone (later : stopAt ≠ some 0) : Beats r {} (lone t inputs limit stopAt) := by
  obtain ⟨came, client⟩ := beats_of_callWorld (r := r) stopAt
  have made : Deed False True 0 (callWorld stopAt).2.2.2 (lone t inputs limit stopAt) := by
    have made (above : Signal) : Deed False True 0 (callWorld stopAt).2.2.2
        (((callWorld stopAt).2.2.2.newSignal above).2.spawn (.call (loneCall t inputs limit))).2 :=
      .make trivial client rfl rfl
    match stopAt with
    | none => exact made [0]
    | some 0 => exact absurd rfl later
    | some (ms + 1) => exact made [0]
  exact came.trans (made.beats client)

/-! ## 2. What is returned when the call has ended, or is told to stop -/

@[simp] theorem now_fire (w : World) (a : Signal) : (w.fire a).now = w.now := by
  unfold fire
  split
  · rfl
  · exact (wakes_keep _ _).1

@[simp] theorem now_abort (w : World) (id : TaskId) : (w.abort id).now = w.now := by
  rcases abort_cases w id with same | ⟨_, -, -, set⟩ | ⟨_, -, -, set⟩
  · rw [same]
  · rw [set, now_wake, setTask]
  · rw [set, now_wake, setTask]

theorem step_of_client {s : Option Signal} {ready : List TaskId} (line : w.ready = id :: ready)
    (here : w.task? id = some (.client s)) : w.step r = (some (.client id), { w with ready }) := by
  have here : ({ w with ready } : World).task? id = some (.client s) := here
  rw [step, line]
  dsimp only
  rw [here]

theorem busy_of_step {pause : Option Pause} (busy : w.ready ≠ []) (h : w.step r = (pause, m)) :
    pause ≠ some .quiet := by
  rintro rfl
  obtain ⟨id, ready, line⟩ := List.exists_cons_of_ne_nil busy
  rw [step, line] at h
  dsimp only at h
  split at h <;> cases h

/-- Whoever looks when the call has ended sees its end. -/
theorem look_of_over (here : w.task? k.wait.call = some (.call c)) (isOver : c.phase = .over e)
    (id : TaskId) : ∃ w', w.look k id = (some (e.outcome k.wait.tool), w') ∧ w'.now = w.now := by
  unfold look
  split
  · exact ⟨_, pollWait_of_over (by rwa [task?_fire]) isOver, by rw [now_fire, now_fire]⟩
  · exact ⟨_, pollWait_of_over here isOver, now_fire _ _⟩

/-- The call has ended, and whoever waits for it is in line. -/
structure Ended (w : World) (k : Watched) (e : CallEnd) : Prop where
  call : ∃ c, w.task? k.wait.call = some (.call c) ∧ c.phase = .over e
  maker : ∃ s, w.task? k.maker = some (.client s)
  line : k.maker ∈ w.ready

/-- **The end of the call is returned**, at the same moment. -/
theorem Ended.returns (h : w.Ended k e) (ordered : Ordered r w) :
    ReturnsAt r k w (e.outcome k.wait.tool) w.now := by
  obtain ⟨before, after, line⟩ := List.append_of_mem h.line
  induction before generalizing w after with
  | nil =>
    obtain ⟨⟨c, here, isOver⟩, ⟨s, maker⟩, -⟩ := h
    obtain ⟨w', looked, now⟩ := look_of_over (w := { w with ready := after }) here isOver k.maker
    exact ⟨w', .now ((stir_of_client (step_of_client line maker)).trans looked), now⟩
  | cons y before ih =>
    obtain ⟨⟨c, here, isOver⟩, ⟨s, maker⟩, -⟩ := h
    obtain ⟨pause, w₁, stepped⟩ : ∃ pause w₁, w.step r = (pause, w₁) := ⟨_, _, rfl⟩
    have busy : w.ready ≠ [] := by simp [line]
    have beat : Beat r w w₁ := .next busy stepped
    obtain ⟨ready, after', turn, line'⟩ := turn_in_line ordered line stepped
    obtain ⟨c', there, -, kept⟩ := beat.pulse.call ordered here
    rcases pause with _ | _ | id
    case none =>
      obtain ⟨s', maker'⟩ := beat.beats.client ordered maker
      rw [← turn.spares.now]
      exact .of_stir (stir_of_step stepped) (ih ⟨⟨c', there, kept e isOver⟩, ⟨s', maker'⟩,
        by simp [line']⟩ (beat.ordered ordered) after' line')
    case some.quiet => exact absurd rfl (busy_of_step busy stepped)
    case some.client =>
      obtain ⟨w', looked, now⟩ := look_of_over there (kept e isOver) id
      exact ⟨w', .now ((stir_of_client stepped).trans looked), now.trans turn.spares.now⟩

theorem ended_of_endCall (call : w.HasCall k.wait.call) (caller : c.caller = k.maker)
    (maker : ∃ s, w.task? k.maker = some (.client s)) : (w.endCall k.wait.call c e).Ended k e := by
  obtain ⟨c₀, here⟩ := call
  refine ⟨⟨_, (congrArg (·[k.wait.call]?) (tasks_wake _ c.caller)).trans
    (task?_setTask_self here), rfl⟩,
    ?_, caller ▸ mem_ready_wake _ _⟩
  obtain ⟨s, maker⟩ := maker
  have other : k.wait.call ≠ k.maker := fun same => by
    rw [same, maker] at here
    cases here
  exact ⟨s, (congrArg (·[k.maker]?) (tasks_wake _ c.caller)).trans
    ((task?_setTask_ne _ other).trans maker)⟩

/-- The call ends in this step. -/
theorem returns_of_ends (ordered : Ordered r w) (stepped : w.step r = (none, m))
    (ended : m.Ended k e) : ReturnsAt r k w (e.outcome k.wait.tool) w.now := by
  have busy : w.ready ≠ [] := fun quiet => by
    rw [step, quiet] at stepped
    cases stepped
  have beat : Beat r w m := .next busy stepped
  obtain ⟨me, ready, -, turn⟩ := turn_of_next ordered busy stepped
  rw [← turn.spares.now]
  exact .of_stir (stir_of_step stepped) (ended.returns (beat.ordered ordered))

/-- When the stopper looks, a call that has not ended is cancelled. -/
theorem look_of_stopper
    (unended : ∀ c e, w.task? k.wait.call = some (.call c) → c.phase ≠ .over e) :
    w.look k k.stopper = (some (.error ToolError.cancelled.failure),
      ((w.fire k.wait.signal).abort k.wait.call).fire k.wait.own) := by
  have stopped : (w.fire k.wait.signal).isStopped k.wait.signal = true :=
    isStopped_fire_iff.mpr (.inr List.suffix_rfl)
  have still (c : Call) (e : CallEnd)
      (there : (w.fire k.wait.signal).task? k.wait.call = some (.call c)) : c.phase ≠ .over e :=
    unended c e (by rwa [task?_fire] at there)
  rw [look, if_pos rfl, pollWait_of_unended still, if_pos stopped]

/-- **A call that is told to stop** before it has ended is cancelled. -/
theorem returns_of_stopper {s : Option Signal} {ready : List TaskId}
    (line : w.ready = k.stopper :: ready)
    (stopper : w.task? k.stopper = some (.client s))
    (unended : ∀ c e, w.task? k.wait.call = some (.call c) → c.phase ≠ .over e) :
    ReturnsAt r k w (.error ToolError.cancelled.failure) w.now := by
  have looked := look_of_stopper (w := { w with ready }) unended
  refine ⟨_, .now ((stir_of_client (step_of_client line stopper)).trans looked), ?_⟩
  rw [now_fire, now_abort, now_fire]

/-! ## 3. The next moment -/

/-- Whoever has set the first timer is first in line when its moment has come. -/
theorem advance?_of_head (quiet : w.ready = []) {t : Timer} {ts : List Timer}
    (timers : w.timers = t :: ts) :
    ∃ w' more, w.advance? = some w' ∧ w'.ready = t.task :: more ∧ w'.now = max w.now t.moment ∧
      w'.tasks = w.tasks ∧ w'.fired = w.fired := by
  obtain ⟨w', moved⟩ : ∃ w', w.advance? = some w' := by
    rw [advance?, timers]
    exact ⟨_, rfl⟩
  obtain ⟨t', ts', timers', now, tasks, fired, -, -⟩ := advance?_cases moved
  cases timers.symm.trans timers'
  refine ⟨w', ?_⟩
  suffices first : ∃ more, w'.ready = t.task :: more by
    obtain ⟨more, line⟩ := first
    exact ⟨more, moved, line, now, tasks, fired⟩
  unfold advance? at moved
  rw [timers] at moved
  dsimp only at moved
  obtain rfl := Option.some.inj moved
  rw [List.takeWhile_cons_of_pos (by simp), ← List.foldl_map, List.map_cons, List.foldl_cons]
  obtain ⟨more, grown⟩ := prefix_wakes
    (({ w with now := max w.now t.moment, timers := _ } : World).wake t.task) (List.map _ _)
  refine ⟨more, grown.symm.trans ?_⟩
  rw [wake]
  simp [quiet]

/-! ## 4. The work of a tool alone -/

variable {tool : String} {moment : Nat} {work : Tool.Work}

/-- Nobody is in line: the call waits for the end of its work, and nothing else is waited for but
its deadline and the moment at which it is told to stop. -/
structure Idling (w : World) (c : Call) (moment : Nat) (work : Tool.Work) (stopAt : Option Nat) :
    Prop where
  quiet : w.ready = []
  now : w.now = 0
  fired : w.fired = []
  maker : ∃ s, w.task? 0 = some (.client s)
  stopper : ∃ s, w.task? 1 = some (.client s)
  here : w.task? 2 = some (.call c)
  waiting : c.phase = .waiting moment work
  kept : c.aborted = false
  caller : c.caller = 0
  timers : ∀ t, t ∈ w.timers ↔
    t = ⟨moment, 2⟩ ∨ c.deadline = some t.moment ∧ t.task = 2 ∨ stopAt = some t.moment ∧ t.task = 1

/-- The first moment has come, and its task is first in line. -/
structure Strikes (r : Registry) (w : World) (t : Timer) (w₁ : World)
    (more : List TaskId) : Prop where
  inside : t ∈ w.timers
  least : ∀ x ∈ w.timers, t.moment ≤ x.moment
  stirred : ∀ k, w.stir r k = (none, w₁)
  ordered : Ordered r w₁
  line : w₁.ready = t.task :: more
  now : w₁.now = t.moment
  tasks : ∀ x, w₁.task? x = w.task? x
  fired : w₁.fired = w.fired

theorem Idling.next (h : w.Idling c moment work stopAt) (ordered : Ordered r w) :
    ∃ t w₁ more, w.Strikes r t w₁ more := by
  have some : w.timers ≠ [] := List.ne_nil_of_mem ((h.timers _).mpr (.inl rfl))
  obtain ⟨t, ts, timers⟩ := List.exists_cons_of_ne_nil some
  obtain ⟨w₁, more, moved, line, now, tasks, fired⟩ := advance?_of_head h.quiet timers
  have least (x : Timer) (hx : x ∈ w.timers) : t.moment ≤ x.moment := by
    have ascending := ordered.tidy.ascending
    rw [timers] at ascending hx
    rcases List.mem_cons.mp hx with rfl | hx
    · exact Nat.le_refl _
    · exact (List.pairwise_cons.mp ascending).1 x hx
  refine ⟨t, w₁, more, by simp [timers], least, fun k => stir_of_quiet h.quiet moved,
    (Beat.tick h.quiet moved).ordered ordered, line, ?_, fun x => congrArg (·[x]?) tasks, fired⟩
  rw [now, h.now, Nat.zero_max]

theorem step_of_call {ready : List TaskId} (line : w.ready = id :: ready)
    (here : w.task? id = some (.call c)) :
    w.step r = (none, ({ w with ready } : World).pollCall r id c) := by
  have here : ({ w with ready } : World).task? id = some (.call c) := here
  rw [step, line]
  dsimp only
  rw [here]

/-- The call goes on with its work. -/
theorem step_of_waiting {ready : List TaskId} (line : w.ready = id :: ready)
    (here : w.task? id = some (.call c)) (waiting : c.phase = .waiting moment work)
    (kept : c.aborted = false) :
    w.step r = (none, ({ w with ready } : World).pollWaiting id c moment work) := by
  rw [step_of_call line here, pollCall]
  simp only [waiting, kept, Bool.false_eq_true, if_false]

theorem completeWork_eq (w : World) (id : TaskId) (c : Call) (work : Tool.Work) :
    w.completeWork id c work = (w.note work.ended).endCall id c work.result.callEnd := by
  unfold completeWork Tool.WorkEnd.callEnd
  rfl

/-- The call ends at the moment that comes first. -/
theorem Idling.ends (h : w.Idling c moment work stopAt) {t : Timer} {more : List TaskId}
    (next : w.Strikes r t w₁ more) {w₂ : World} {c' : Call} (caller : c'.caller = 0)
    (stepped : w₁.step r = (none, w₂.endCall 2 c' e)) (same : ∀ x, w₂.task? x = w₁.task? x) :
    ReturnsAt r (watch tool) w (e.outcome tool) t.moment := by
  obtain ⟨s, maker⟩ := h.maker
  have ended : (w₂.endCall 2 c' e).Ended (watch tool) e :=
    ended_of_endCall (k := watch tool) ⟨c, (same 2).trans ((next.tasks 2).trans h.here)⟩ caller
      ⟨s, (same 0).trans ((next.tasks 0).trans maker)⟩
  rw [← next.now]
  exact .of_stir (next.stirred _) (returns_of_ends next.ordered stepped ended)

/-- The stopper comes first. -/
theorem Idling.stopped (h : w.Idling c moment work stopAt) (ordered : Ordered r w) {stop : Nat}
    (set : stopAt = some stop) (soon : stop < moment)
    (timely : ∀ l, c.deadline = some l → stop < l) :
    ReturnsAt r (watch tool) w (.error ToolError.cancelled.failure) stop := by
  obtain ⟨t, w₁, more, next⟩ := h.next ordered
  have least : t.moment ≤ stop := next.least ⟨stop, 1⟩ ((h.timers _).mpr (.inr (.inr ⟨set, rfl⟩)))
  obtain ⟨task, rfl⟩ : t.task = 1 ∧ t.moment = stop := by
    rcases (h.timers t).mp next.inside with rfl | ⟨deadline, -⟩ | ⟨stops, task⟩
    · exact absurd least (Nat.not_le.mpr soon)
    · exact absurd least (Nat.not_le.mpr (timely _ deadline))
    · exact ⟨task, Option.some.inj (stops.symm.trans set)⟩
  obtain ⟨s, stopper⟩ := h.stopper
  have line : w₁.ready = (watch tool).stopper :: more := by
    rw [next.line, task]
    rfl
  rw [← next.now]
  refine .of_stir (next.stirred _) (returns_of_stopper line ((next.tasks 1).trans stopper) ?_)
  intro c' e there isOver
  cases h.here.symm.trans ((next.tasks 2).symm.trans there)
  cases h.waiting.symm.trans isOver

/-- The end of the work comes first, or with the deadline: the call looks at the work first. -/
theorem Idling.done (h : w.Idling c moment work stopAt) (ordered : Ordered r w)
    (unstopped : ∀ m, stopAt = some m → moment < m)
    (timely : ∀ l, c.deadline = some l → moment ≤ l) :
    ReturnsAt r (watch tool) w (work.result.callEnd.outcome tool) moment := by
  obtain ⟨t, w₁, more, next⟩ := h.next ordered
  have least : t.moment ≤ moment := next.least ⟨moment, 2⟩ ((h.timers _).mpr (.inl rfl))
  obtain ⟨task, first⟩ : t.task = 2 ∧ t.moment = moment := by
    rcases (h.timers t).mp next.inside with rfl | ⟨deadline, task⟩ | ⟨stops, -⟩
    · exact ⟨rfl, rfl⟩
    · exact ⟨task, Nat.le_antisymm least (timely _ deadline)⟩
    · exact absurd least (Nat.not_le.mpr (unstopped _ stops))
  have stepped := step_of_waiting (r := r) (task ▸ next.line)
    ((next.tasks 2).trans h.here) h.waiting h.kept
  have come : moment ≤ w₁.now := Nat.le_of_eq (first.symm.trans next.now.symm)
  rw [pollWaiting, if_pos come, completeWork_eq] at stepped
  rw [← first]
  exact h.ends next h.caller stepped fun _ => rfl

/-- The deadline comes first. -/
theorem Idling.late (h : w.Idling c moment work stopAt) (ordered : Ordered r w) {l : Nat}
    (set : c.deadline = some l) (long : l < moment) (unstopped : ∀ m, stopAt = some m → l < m) :
    ReturnsAt r (watch tool) w ((CallEnd.timedOut (c.limit.getD 0)).outcome tool) l := by
  obtain ⟨t, w₁, more, next⟩ := h.next ordered
  have least : t.moment ≤ l := next.least ⟨l, 2⟩ ((h.timers _).mpr (.inr (.inl ⟨set, rfl⟩)))
  obtain ⟨task, rfl⟩ : t.task = 2 ∧ t.moment = l := by
    rcases (h.timers t).mp next.inside with rfl | ⟨deadline, task⟩ | ⟨stops, -⟩
    · exact absurd least (Nat.not_le.mpr long)
    · exact ⟨task, Option.some.inj (deadline.symm.trans set)⟩
    · exact absurd least (Nat.not_le.mpr (unstopped _ stops))
  have stepped := step_of_waiting (r := r) (task ▸ next.line)
    ((next.tasks 2).trans h.here) h.waiting h.kept
  have unfired : ({ w₁ with ready := more } : World).isStopped c.signal = false := by
    show hasFired w₁.fired c.signal = false
    rw [next.fired, h.fired]
    exact Bool.eq_false_iff.mpr fun stopped => by simpa using hasFired_iff.mp stopped
  have late : ({ w₁ with ready := more } : World).isLate c = true := by
    simp [isLate, set, next.now]
  have early : ¬ moment ≤ w₁.now := next.now ▸ Nat.not_le.mpr long
  rw [pollWaiting, if_neg early, unfired, Bool.and_false, if_neg (by simp), if_pos late] at stepped
  exact h.ends next h.caller stepped fun _ => rfl

/-! ## 5. Which clock comes first -/

/-- What a call is answered with, and when, if its work takes `d` milliseconds and comes to `o`: the
first of its three clocks decides. A call that is stopped is cancelled, and one whose time is up has
timed out. If the work is done at the deadline, `counts` says whether it counts. -/
structure Decided (answered : Except Failure ToolOutput → Nat → Prop) (tool : String) (d : Nat)
    (o : Except Failure ToolOutput) (limit stopAt : Option Nat) (counts : Prop) : Prop where
  stopped : ∀ m, stopAt = some m → m < d → (∀ l, limit = some l → m < l) →
    answered (.error ⟨.cancelled, "tool call cancelled"⟩) m
  done : (∀ m, stopAt = some m → d < m) →
    (∀ l, limit = some l → d < l ∨ d = l ∧ counts) → answered o d
  late : ∀ l, limit = some l → (∀ m, stopAt = some m → l < m) → (l < d ∨ l = d ∧ ¬ counts) →
    answered (.error ⟨.timeout, s!"tool '{tool}' did not finish within {secondsText l}s"⟩) l

section

variable {answered : Except Failure ToolOutput → Nat → Prop} {d : Nat} {counts : Prop}

/-- What is done at once. -/
theorem Decided.at_once (h : answered o 0) : Decided answered tool 0 o limit stopAt True where
  stopped _ _ before := absurd before (Nat.not_lt_zero _)
  done _ _ := h
  late l _ _ which := by
    rcases which with before | ⟨-, no⟩
    · exact absurd before (Nat.not_lt_zero l)
    · exact absurd trivial no

/-- What is done before the clocks have come. -/
theorem Decided.early (h : answered o d) (unstopped : ∀ m, stopAt = some m → d < m)
    (timely : ∀ l, limit = some l → d < l) : Decided answered tool d o limit stopAt counts where
  stopped m set before _ := absurd (unstopped m set) (Nat.lt_asymm before)
  done _ _ := h
  late l set _ which := by
    have := timely l set
    omega

/-- What may take no time, but does. -/
theorem Decided.without_time (h : answered ((CallEnd.timedOut 0).outcome tool) 0)
    (longer : 0 < d ∨ ¬ counts) : Decided answered tool d o (some 0) stopAt counts where
  stopped m _ _ timely := absurd (timely 0 rfl) (Nat.not_lt_zero m)
  done _ timely := by
    rcases timely 0 rfl with before | ⟨rfl, counted⟩
    · exact absurd before (Nat.not_lt_zero d)
    · exact absurd counted (longer.resolve_left (Nat.lt_irrefl 0))
  late l set _ _ := by
    cases set
    exact h

theorem Decided.imp {answered' : Except Failure ToolOutput → Nat → Prop}
    (h : Decided answered tool d o limit stopAt counts)
    (more : ∀ o m, answered o m → answered' o m) :
    Decided answered' tool d o limit stopAt counts where
  stopped m set before timely := more _ _ (h.stopped m set before timely)
  done unstopped timely := more _ _ (h.done unstopped timely)
  late l set unstopped which := more _ _ (h.late l set unstopped which)

theorem Decided.of_stir (stirred : w.stir r k = (none, m))
    (h : Decided (ReturnsAt r k m) tool d o limit stopAt counts) :
    Decided (ReturnsAt r k w) tool d o limit stopAt counts :=
  h.imp fun _ _ => .of_stir stirred

/-- **Work that waits**: the first clock decides, and work that is done at the deadline counts. -/
theorem Idling.decided (h : w.Idling c moment work stopAt) (ordered : Ordered r w)
    (allowed : c.limit = limit) (deadline : c.deadline = limit) :
    Decided (ReturnsAt r (watch tool) w) tool moment (work.result.callEnd.outcome tool) limit
      stopAt True where
  stopped m set before timely :=
    h.stopped ordered set before fun l set' => timely l (deadline.symm.trans set')
  done unstopped timely := by
    refine h.done ordered unstopped fun l set => ?_
    rcases timely l (deadline.symm.trans set) with before | ⟨same, -⟩
    · exact Nat.le_of_lt before
    · exact Nat.le_of_eq same
  late l set unstopped which := by
    have long : l < moment := which.resolve_right fun ⟨_, no⟩ => no trivial
    have late : ReturnsAt r (watch tool) w
        ((CallEnd.timedOut (c.limit.getD 0)).outcome tool) l :=
      h.late ordered (deadline.trans set) long unstopped
    rwa [allowed, set, Option.getD_some] at late

end

/-- The call has left the line. -/
def loneGoing (t : Tool) (inputs : Fields Json) (limit stopAt : Option Nat) : World :=
  { lone t inputs limit stopAt with ready := [] }

/-- The call with its deadline: it begins at moment 0. -/
def loneTimed (t : Tool) (inputs : Fields Json) (limit : Option Nat) : Call :=
  { loneCall t inputs limit with deadline := limit }

/-- The call goes on for the first time. -/
theorem step_lone : (lone t inputs limit stopAt).step r =
    (none, (loneGoing t inputs limit stopAt).pollFresh r 2 (loneCall t inputs limit)) := by
  show (none, (loneGoing t inputs limit stopAt).pollCall r 2 (loneCall t inputs limit)) = _
  rw [pollCall]
  simp only [loneCall, Bool.false_eq_true, if_false]

/-- Its inputs are accepted. -/
theorem pollFresh_lone (accepted : t.check inputs = .accepted) :
    (loneGoing t inputs limit stopAt).pollFresh r 2 (loneCall t inputs limit) =
      match t.body with
      | .alone work =>
        (loneGoing t inputs limit stopAt).beginAlone 2 (loneTimed t inputs limit) (work inputs)
      | .fanOut =>
        (loneGoing t inputs limit stopAt).beginFanOut r 2 (loneTimed t inputs limit) := by
  have timed : ({ loneCall t inputs limit with
      deadline := limit.map ((loneGoing t inputs limit stopAt).now + ·) } : Call) =
      loneTimed t inputs limit := by
    have same : limit.map ((loneGoing t inputs limit stopAt).now + ·) = limit := by
      cases limit with
      | none => rfl
      | some l => exact congrArg some (Nat.zero_add l)
    rw [same]
    rfl
  have begun : (loneGoing t inputs limit stopAt).pollFresh r 2 (loneCall t inputs limit) =
      (loneGoing t inputs limit stopAt).begin r 2 (loneCall t inputs limit) := by
    rw [pollFresh]
    simp only [loneCall, Bool.false_eq_true, if_false, accepted]
  rw [begun, World.begin]
  dsimp only
  show (match t.body with
    | .alone work => (loneGoing t inputs limit stopAt).beginAlone 2 { loneCall t inputs limit with
        deadline := limit.map ((loneGoing t inputs limit stopAt).now + ·) } (work inputs)
    | .fanOut => (loneGoing t inputs limit stopAt).beginFanOut r 2 { loneCall t inputs limit with
        deadline := limit.map ((loneGoing t inputs limit stopAt).now + ·) }) = _
  rw [timed]

/-- It is a call that ends now. -/
def EndsLone (w : World) (e : CallEnd) : Prop :=
  ∃ (m : World) (c : Call), m.HasCall 2 ∧ m.task? 0 = some (.client (some [0])) ∧ c.caller = 0 ∧
    w = m.endCall 2 c e

theorem EndsLone.ended (h : w.EndsLone e) : w.Ended (watch tool) e := by
  obtain ⟨m, c, call, maker, caller, rfl⟩ := h
  have waited : m.HasCall (watch tool).wait.call := call
  exact ended_of_endCall waited caller ⟨_, maker⟩

theorem EndsLone.over (h : w.EndsLone e) : ∃ c, w.task? 2 = some (.call c) ∧ c.phase = .over e :=
  (show w.Ended (watch "") e from h.ended).call

/-- The call has begun to wait for its work. -/
def loneWaiting (t : Tool) (inputs : Fields Json) (limit stopAt : Option Nat) (ms : Nat)
    (work : Tool.Work) : World :=
  ((loneGoing t inputs limit stopAt).note work.began).setTask 2
    (.call { loneTimed t inputs limit with phase := .waiting ms work })

theorem beginAlone_lone {ms : Nat} (delayed : work.delay = some ms) {c : Call}
    (same : c = { loneTimed t inputs limit with phase := .waiting ms work }) :
    (loneGoing t inputs limit stopAt).beginAlone 2 (loneTimed t inputs limit) work =
      ((loneWaiting t inputs limit stopAt ms work).pollWaiting 2 c ms work).arm 2 c ms := by
  have now : (loneGoing t inputs limit stopAt).now + ms = ms := Nat.zero_add ms
  subst same
  rw [beginAlone_arm delayed, now]
  rfl

/-- It ends when it looks for the first time. -/
theorem beginAlone_ends {ms : Nat} (delayed : work.delay = some ms)
    (ends : ((loneWaiting t inputs limit stopAt ms work).pollWaiting 2
      { loneTimed t inputs limit with phase := .waiting ms work } ms work).EndsLone e) :
    ((loneGoing t inputs limit stopAt).beginAlone 2
      (loneTimed t inputs limit) work).EndsLone e := by
  obtain ⟨⟨_, _, _, _, _, _, _, _, _⟩, here, isOver⟩ := ends.over
  subst isOver
  rw [beginAlone_lone delayed rfl, arm, here]
  exact ends

/-- Work that does not wait is done at once. -/
theorem beginAlone_at_once (short : work.delay.getD 0 = 0) :
    ((loneGoing t inputs limit stopAt).beginAlone 2 (loneTimed t inputs limit) work).EndsLone
      work.result.callEnd := by
  cases delayed : work.delay with
  | none =>
    refine ⟨((loneGoing t inputs limit stopAt).note work.began).note work.ended,
      loneTimed t inputs limit,
      ⟨_, rfl⟩, rfl, rfl, ?_⟩
    rw [beginAlone, delayed]
    exact completeWork_eq _ 2 _ work
  | some ms =>
    rw [delayed] at short
    obtain rfl : ms = 0 := short
    refine beginAlone_ends delayed
      ⟨(loneWaiting t inputs limit stopAt 0 work).note work.ended,
        { loneTimed t inputs limit with phase := .waiting 0 work }, ⟨_, rfl⟩, rfl, rfl, ?_⟩
    rw [pollWaiting, if_pos (Nat.zero_le _), completeWork_eq]

theorem unstopped_loneWaiting {ms : Nat} (a : Signal) :
    (work.heedsStop && (loneWaiting t inputs limit stopAt ms work).isStopped a) = false := by
  have unfired : (loneWaiting t inputs limit stopAt ms work).isStopped a = false :=
    Bool.eq_false_iff.mpr fun stopped => by
      obtain ⟨b, fired, -⟩ := hasFired_iff.mp stopped
      cases fired
  rw [unfired, Bool.and_false]

/-- The time of the call is up at once. -/
theorem beginAlone_late {ms : Nat} (delayed : work.delay = some ms) (long : 0 < ms) :
    ((loneGoing t inputs (some 0) stopAt).beginAlone 2 (loneTimed t inputs (some 0)) work).EndsLone
      (.timedOut 0) := by
  have early : ¬ ms ≤ (loneWaiting t inputs (some 0) stopAt ms work).now := Nat.not_le.mpr long
  refine beginAlone_ends delayed ⟨loneWaiting t inputs (some 0) stopAt ms work,
    { loneTimed t inputs (some 0) with phase := .waiting ms work }, ⟨_, rfl⟩, rfl, rfl, ?_⟩
  rw [pollWaiting, if_neg early, unstopped_loneWaiting, if_neg (by simp)]
  rfl

/-- Otherwise it waits, and its timers are set. -/
theorem beginAlone_waits {ms : Nat} (delayed : work.delay = some ms) (long : 0 < ms)
    (patient : ∀ l, limit = some l → 0 < l) :
    (loneGoing t inputs limit stopAt).beginAlone 2 (loneTimed t inputs limit) work =
      ((loneWaiting t inputs limit stopAt ms work).setTimer ms 2).setDeadline 2
        { loneTimed t inputs limit with phase := .waiting ms work } := by
  let c : Call := { loneTimed t inputs limit with phase := .waiting ms work }
  let m : World := loneWaiting t inputs limit stopAt ms work
  have polled : m.pollWaiting 2 c ms work = m := by
    have early : ¬ ms ≤ m.now := Nat.not_le.mpr long
    have timely : m.isLate c = false := by
      show limit.any (· ≤ 0) = false
      cases limit with
      | none => rfl
      | some l => simpa using Nat.ne_of_gt (patient l rfl)
    rw [pollWaiting, if_neg early, unstopped_loneWaiting, if_neg (by simp), timely,
      if_neg (by simp)]
  rw [beginAlone_lone delayed rfl]
  show (m.pollWaiting 2 c ms work).arm 2 c ms = _
  rw [polled]
  rfl

theorem idling_of_begin (t : Tool) (inputs : Fields Json) (stopAt : Option Nat) {ms : Nat}
    (delayed : work.delay = some ms) (long : 0 < ms) (patient : ∀ l, limit = some l → 0 < l) :
    ((loneGoing t inputs limit stopAt).beginAlone 2 (loneTimed t inputs limit) work).Idling
      { loneTimed t inputs limit with phase := .waiting ms work } ms work stopAt := by
  let c : Call := { loneTimed t inputs limit with phase := .waiting ms work }
  let m : World := (loneWaiting t inputs limit stopAt ms work).setTimer ms 2
  rw [beginAlone_waits delayed long patient]
  obtain ⟨now, tasks, ready, fired⟩ := setDeadline_keeps m 2 c
  have same (x : TaskId) : (m.setDeadline 2 c).task? x = m.task? x := congrArg (·[x]?) tasks
  refine ⟨ready, now, fired, ⟨_, same 0⟩, ⟨_, same 1⟩, same 2, rfl, rfl, rfl, fun t => ?_⟩
  rw [mem_setDeadline]
  show _ ∨ t ∈ insertTimer _ (stopAt.toList.map (⟨·, 1⟩)) ↔ _
  rw [mem_insertTimer, mem_stopTimers]
  exact or_left_comm

/-- The first step of the call, if it ends in it. -/
theorem Ended.returnsAt (later : stopAt ≠ some 0)
    (h : ((loneGoing t inputs limit stopAt).pollFresh r 2 (loneCall t inputs limit)).Ended
      (watch tool) e) :
    ReturnsAt r (watch tool) (lone t inputs limit stopAt) (e.outcome tool) 0 :=
  returns_of_ends (ordered_of_beats (beats_lone later)) step_lone h

/-- **The work of a tool alone**: the first clock decides, and work that is done at the deadline
counts. -/
theorem decided_alone {work : Fields Json → Tool.Work} (body : t.body = .alone work)
    (accepted : t.check inputs = .accepted) (later : stopAt ≠ some 0) :
    Decided (ReturnsAt r (watch tool) (lone t inputs limit stopAt)) tool
      ((work inputs).delay.getD 0)
      ((work inputs).result.callEnd.outcome tool) limit stopAt True := by
  have begun : (loneGoing t inputs limit stopAt).pollFresh r 2 (loneCall t inputs limit) =
      (loneGoing t inputs limit stopAt).beginAlone 2 (loneTimed t inputs limit) (work inputs) := by
    rw [pollFresh_lone accepted, body]
  by_cases short : (work inputs).delay.getD 0 = 0
  · rw [short]
    exact .at_once (Ended.returnsAt later (begun ▸ (beginAlone_at_once short).ended))
  · obtain ⟨ms, delayed⟩ : ∃ ms, (work inputs).delay = some ms := by
      cases delayed : (work inputs).delay with
      | none => simp [delayed] at short
      | some ms => exact ⟨ms, rfl⟩
    have long : 0 < ms := Nat.pos_of_ne_zero (by simpa [delayed] using short)
    rw [delayed, Option.getD_some]
    by_cases zero : limit = some 0
    · subst zero
      exact .without_time
        (Ended.returnsAt later (begun ▸ (beginAlone_late delayed long).ended)) (.inl long)
    · have patient (l : Nat) (set : limit = some l) : 0 < l :=
        Nat.pos_of_ne_zero fun same => zero (same ▸ set)
      have idling := idling_of_begin t inputs stopAt delayed long patient
      have stepped : (lone t inputs limit stopAt).step r = _ := step_lone
      rw [begun] at stepped
      have ordered := (Beat.next (by simp [lone]) stepped).ordered
        (ordered_of_beats (beats_lone later))
      exact .of_stir (stir_of_step stepped) (idling.decided ordered rfl rfl)

/-- The work has others work for it: it is a fan-out, and there is a query. -/
def Delegates (r : Registry) (t : Tool) (inputs : Fields Json) : Prop :=
  t.body = .fanOut ∧ ∃ plan, FanOut.plan r.maxFanOut inputs = .ok plan ∧ plan.queries ≠ []

theorem Ended.setDeadline (h : w.Ended k e) (id : TaskId) (c : Call) :
    (w.setDeadline id c).Ended k e := by
  obtain ⟨-, tasks, ready, -⟩ := setDeadline_keeps w id c
  have same (x : TaskId) : (w.setDeadline id c).task? x = w.task? x := congrArg (·[x]?) tasks
  obtain ⟨call, maker, line⟩ := h
  exact ⟨same _ ▸ call, same _ ▸ maker, ready ▸ line⟩

/-- A fan-out that has nobody work for it ends at once. -/
theorem ended_of_fanOut (body : t.body = .fanOut) (idle : ¬ Delegates r t inputs) :
    ∃ x, ∀ limit stopAt tool, ((loneGoing t inputs limit stopAt).beginFanOut r 2
      (loneTimed t inputs limit)).Ended (watch tool) (.result x) := by
  cases planned : FanOut.plan r.maxFanOut inputs with
  | error e =>
    refine ⟨.error e, fun limit stopAt tool => ?_⟩
    have ends : ((loneGoing t inputs limit stopAt).beginFanOut r 2 (loneTimed t inputs limit)) =
        (loneGoing t inputs limit stopAt).endCall 2 (loneTimed t inputs limit)
          (.result (.error e)) := by
      rw [beginFanOut]
      simp only [loneTimed, loneCall, planned]
    exact EndsLone.ended ⟨_, loneTimed t inputs limit, ⟨_, rfl⟩, rfl, rfl, ends⟩
  | ok plan =>
    have none : plan.queries = [] := by
      by_contra some
      exact idle ⟨body, plan, planned, some⟩
    refine ⟨.ok (FanOut.assemble plan []), fun limit stopAt tool => ?_⟩
    have ends : ((loneGoing t inputs limit stopAt).hire 2 (loneTimed t inputs limit).signal
        plan.queries).pollGathering 2 (loneTimed t inputs limit) plan
          (loneGoing t inputs limit stopAt).tasks.size
          { workers := plan.workers } = (loneGoing t inputs limit stopAt).endCall 2
            (loneTimed t inputs limit) (.result (.ok (FanOut.assemble plan []))) := by
      rw [none, pollGathering]
      dsimp only
      rw [FanOut.Progress.look]
      dsimp only
      rw [if_pos (by rw [none]; rfl)]
      rfl
    rw [beginFanOut_eq (c := loneTimed t inputs limit) planned, ends]
    exact (EndsLone.ended ⟨_, loneTimed t inputs limit, ⟨_, rfl⟩, rfl, rfl, rfl⟩).setDeadline _ _

theorem decided_idle (tool : String) (body : t.body = .fanOut) (idle : ¬ Delegates r t inputs)
    (accepted : t.check inputs = .accepted) :
    ∃ o, ∀ limit stopAt, stopAt ≠ some 0 →
      Decided (ReturnsAt r (watch tool) (lone t inputs limit stopAt)) tool 0 o limit stopAt
        True := by
  obtain ⟨x, ended⟩ := ended_of_fanOut body idle
  refine ⟨(CallEnd.result x).outcome tool, fun limit stopAt later =>
    .at_once (Ended.returnsAt later ?_)⟩
  have begun : (loneGoing t inputs limit stopAt).pollFresh r 2 (loneCall t inputs limit) =
      (loneGoing t inputs limit stopAt).beginFanOut r 2 (loneTimed t inputs limit) := by
    rw [pollFresh_lone accepted, body]
  rw [begun]
  exact ended limit stopAt tool

end World
end Runbook.Schedule
