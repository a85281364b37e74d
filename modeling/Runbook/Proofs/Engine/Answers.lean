import Runbook.Proofs.Engine.Journey
import Runbook.Proofs.Schedule.Conclusions

/-!
# What a run hears of its calls

A run waits for a call that is there, made as the run has asked for it, and what it hears of the call
is what the call has come to (`Heard`). `Faithful` says so of the account of a run; it is kept by the
turns of the run (`Faithful.turn`) and by all else that happens on a journey (`Journey.steady`).
-/

set_option autoImplicit false

namespace Runbook

open Dialogue RunDialogue Schedule World

namespace Session

variable {σ : Type}

/-! ## 1. Calls of a run -/

/-- What may be heard of a call: there is no such tool, the run was told to stop, or the call has
ended so. -/
inductive Heard (r : Registry) (tool : String) (inputs : Fields Json) :
    Except Failure ToolOutput → Prop where
  | unknown (missing : r.tool? tool = none) (f : Failure) : Heard r tool inputs (.error f)
  | cancelled : Heard r tool inputs (.error ToolError.cancelled.failure)
  | ended {c : Call} {e : CallEnd} (known : r.tool? tool = some c.tool) (asked : c.inputs = inputs)
      (checked : c.unchecked = false) (concludes : c.tool.body = .fanOut → Concludes r c e) :
      Heard r tool inputs (e.outcome tool)

/-- If the exchange is a call, its answer may be heard. -/
def Told (r : Registry) (x : RunExchange) : Prop :=
  ∀ tool inputs limit a, x = ⟨.call tool inputs limit, a⟩ → Heard r tool inputs a

/-- The call that is waited for is there, as it was asked for. -/
structure Asked (r : Registry) (w : World) (tool : String) (inputs : Fields Json) (wait : Wait) :
    Prop where
  named : wait.tool = tool
  call : ∃ c, w.task? wait.call = some (.call c) ∧ r.tool? tool = some c.tool ∧ c.inputs = inputs ∧
    c.unchecked = false

/-- What a run waits for is what it has asked. -/
inductive Posed (r : Registry) (w : World) : RunDialogue RunRecord → Waiting → Prop where
  | gate {step prompt : String} {limit : Option Nat} (next : Approval → RunDialogue RunRecord)
      (p : OpenPrompt) : Posed r w (.ask (.approval step prompt limit) next) (.approval p next)
  | call {tool : String} {inputs : Fields Json} {limit : Option Nat}
      (next : Except Failure ToolOutput → RunDialogue RunRecord) {wait : Wait}
      (asked : Asked r w tool inputs wait) :
      Posed r w (.ask (.call tool inputs limit) next) (.call wait next)
  | ended (d : RunDialogue RunRecord) (e : RunEnd) : Posed r w d (.over e)

variable {r : Registry} {w w' : World} {s s' s₁ : Session σ} {f f' : Flight}

theorem told_of_question {x : RunExchange}
    (h : ∀ tool inputs limit, x.question ≠ .call tool inputs limit) : Told r x := by
  rintro tool inputs limit a rfl
  exact absurd rfl (h tool inputs limit)

theorem Asked.onward {tool : String} {inputs : Fields Json} {wait : Wait}
    (h : Asked r w tool inputs wait) (onward : Onward r w w') : Asked r w' tool inputs wait := by
  obtain ⟨named, c, here, known, asked, checked⟩ := h
  obtain ⟨c', there, grows⟩ := onward.calls _ c here
  exact ⟨named, c', there, grows.tool ▸ known, grows.inputs.trans asked,
    grows.unchecked.trans checked⟩

theorem Posed.onward {d : RunDialogue RunRecord} {wt : Waiting} (h : Posed r w d wt)
    (onward : Onward r w w') : Posed r w' d wt := by
  cases h with
  | gate => exact .gate ..
  | call next asked => exact .call next (asked.onward onward)
  | ended => exact .ended ..

theorem asked_of_startCall {tool : String} {inputs : Fields Json} {signal : Signal}
    {limit : Option Nat} {caller : TaskId} {wait : Wait}
    (h : startCall r w tool inputs signal limit caller = (.ok wait, w')) :
    Asked r w' tool inputs wait ∧
      ∃ c, w'.task? wait.call = some (.call c) ∧ c.phase = .fresh := by
  obtain ⟨t, known, named, -, there⟩ := startCall_ok h
  exact ⟨⟨named, _, there, known, rfl, rfl⟩, _, there, rfl⟩

/-- Whoever polls a call hears what it has come to. -/
theorem Asked.heard {tool : String} {inputs : Fields Json} {wait : Wait}
    (h : Asked r w tool inputs wait)
    (ends : ∀ c e, w.task? wait.call = some (.call c) → c.tool.body = .fanOut → c.phase = .over e →
      Concludes r c e) {x : Except Failure ToolOutput}
    (polled : w.pollWait wait = (some x, w')) : Heard r tool inputs x := by
  obtain ⟨named, c, here, known, asked, checked⟩ := h
  rcases pollWait_cases here with ⟨e, isOver, is⟩ | ⟨-, is⟩ | ⟨-, -, is⟩
  all_goals cases polled.symm.trans is
  · rw [named]
    exact .ended known asked checked fun body => ends c e here body isOver
  · exact .cancelled

/-! ## 2. A run goes on -/

theorem moves_pollPrompt {signal : Signal} {p p' : OpenPrompt} {x : Option Approval}
    (h : s.pollPrompt signal p = (x, p', s')) : Moves r s.world s'.world := by
  rcases (polled_of_pollPrompt h).1 with rfl | rfl
  · exact .refl _
  · exact (Move.fire signal).moves

/-- No task goes on. -/
theorem moves_of_tasks (tasks : w'.tasks = w.tasks) (fired : w'.fired = w.fired)
    (line : ∀ x ∈ w.ready, x ∈ w'.ready) : Moves r w w' :=
  (Move.time tasks fired line).moves

theorem moves_setTimer (w : World) (moment : Nat) (id : TaskId) : Moves r w (w.setTimer moment id) :=
  moves_of_tasks rfl rfl fun _ h => h

theorem moves_promptTimers (p : OpenPrompt) (task : TaskId) (w : World) :
    Moves r w (promptTimers p task w) := by
  rw [promptTimers]
  generalize p.reactAt.toList ++ p.limitAt.toList = moments
  induction moments generalizing w with
  | nil => exact .refl w
  | cons moment moments ih => exact (moves_setTimer w moment task).trans (ih _)

theorem moves_openPrompt {step prompt : String} {limit : Option Nat} {x : Option Approval}
    {p : OpenPrompt} (h : s.openPrompt f step prompt limit = (x, p, s')) :
    Moves r s.world s'.world := by
  have noted : Moves r s.world (s.world.note (f.request.approver step prompt).notes) :=
    moves_of_tasks rfl rfl fun _ h => h
  unfold openPrompt at h
  dsimp only at h
  split at h
  · next polled =>
    cases h
    exact noted.trans (moves_pollPrompt polled)
  · next polled =>
    cases h
    exact (noted.trans (moves_pollPrompt polled)).trans (moves_promptTimers ..)

theorem moves_drop (s : Session σ) (f : Flight) : Moves r s.world (s.drop f).2.world := by
  rw [drop]
  dsimp only
  split
  · exact (Move.fire _).moves
  · exact .refl _

theorem moves_stop (s : Session σ) (run : RunId) : Moves r s.world (s.stop run).2.world := by
  rw [stop]
  split
  · exact (Move.fire _).moves
  · exact .refl _

/-- A call that is made and waited for. -/
theorem moves_of_call {tool : String} {inputs : Fields Json} {signal : Signal} {limit : Option Nat}
    {caller : TaskId} {wait : Wait} {w₁ : World} {x : Option (Except Failure ToolOutput)}
    (started : startCall r w tool inputs signal limit caller = (.ok wait, w₁))
    (polled : w₁.pollWait wait = (x, w')) : Moves r w w' := by
  have made := moves_of_startCall r w tool inputs signal limit caller
  rw [started] at made
  obtain ⟨-, c, there, -⟩ := asked_of_startCall started
  have waits := moves_of_pollWait (r := r) ⟨c, there⟩
  rw [polled] at waits
  exact made.trans waits

section

variable [MemoryStore σ]

theorem Reply.moves {q : RunQuestion} {x : RunAnswer q} (h : Reply f s q x s') :
    Moves s.engine.registry s.world s'.world := by
  cases h with
  | store | time | stopRequested => exact .refl _
  | approval h => exact moves_openPrompt h
  | @unknown tool inputs limit _ _ h =>
    have made := moves_of_startCall s.engine.registry s.world tool inputs f.signal
      (limit.map (· * 1000)) f.task
    rwa [h] at made
  | call started polled => exact moves_of_call started polled

/-- What is answered at once may be heard. -/
theorem Reply.told {q : RunQuestion} {x : RunAnswer q} (h : Reply f s q x s') :
    Told s.engine.registry ⟨q, x⟩ := by
  cases h with
  | store | time | stopRequested | approval => exact told_of_question (by simp)
  | unknown h =>
    rintro _ _ _ _ ⟨⟩
    exact .unknown (startCall_error h).1 _
  | call started polled =>
    rintro _ _ _ _ ⟨⟩
    obtain ⟨asked, c, there, fresh⟩ := asked_of_startCall started
    refine asked.heard (fun c' e here _ isOver => ?_) polled
    cases there.symm.trans here
    cases fresh.symm.trans isOver

/-- **A run goes on until it has to wait.** -/
theorem Goes.heard {d : RunDialogue RunRecord} {log : List Stamped} {p : Pending} {wt : Waiting}
    (h : Goes f d s log p wt s') :
    Moves s.engine.registry s.world s'.world ∧ Posed s.engine.registry s'.world p.rest wt ∧
      ∀ x ∈ log, Told s.engine.registry x.exchange := by
  induction h with
  | finished r s => exact ⟨.refl _, .ended .., by simp⟩
  | @told q next x s s₁ s₂ log p wt reply _ ih =>
    rw [reply.goesBy.engine] at ih
    obtain ⟨moves, posed, told⟩ := ih
    exact ⟨reply.moves.trans moves, posed, List.forall_mem_cons.mpr ⟨reply.told, told⟩⟩
  | gate h => exact ⟨moves_openPrompt h, .gate .., by simp⟩
  | @call tool inputs limit next s wait w w' started polled =>
    obtain ⟨asked, c, there, -⟩ := asked_of_startCall started
    rcases pollWait_cases there with ⟨e, -, is⟩ | ⟨-, is⟩ | ⟨-, -, is⟩
    all_goals cases polled.symm.trans is
    exact ⟨moves_of_call started polled, .call next asked, by simp⟩

/-! ## 3. A turn -/

/-- The account of a run says what the run has heard, and what it waits for is what it has asked. -/
inductive Faithful (r : Registry) (w : World) (f : Flight) : Option Account → Prop where
  | nothing (h : f.waiting = .start ∨ ∃ e, f.waiting = .over e) : Faithful r w f none
  | account {l : Account} (posed : Posed r w l.pending.rest f.waiting)
      (told : ∀ x ∈ l.log, Told r x.exchange) : Faithful r w f (some l)

omit [MemoryStore σ] in
theorem Faithful.onward {a : Option Account} (h : Faithful r w f a) (onward : Onward r w w') :
    Faithful r w' f a := by
  cases h with
  | nothing h => exact .nothing h
  | account posed told => exact .account (posed.onward onward) told

omit [MemoryStore σ] in
theorem Faithful.dropped {a : Option Account} (h : Faithful r w f a) :
    Faithful r w' { f with waiting := .over .dropped } a := by
  cases h with
  | nothing => exact .nothing (.inr ⟨_, rfl⟩)
  | account posed told => exact .account (.ended ..) told

omit [MemoryStore σ] in
theorem Account.told_answered {l : Account} (told : ∀ x ∈ l.log, Told r x.exchange)
    {q : RunQuestion} {x : RunAnswer q} (last : Told r ⟨q, x⟩) (s : Session σ) :
    ∀ y ∈ l.answered f q x s, Told r y.exchange :=
  List.forall_mem_append.mpr ⟨told, by simpa using last⟩

/-- A turn ends where the run has come to rest, or with its drop. -/
theorem Faithful.ends {a : Option Account} (h : Faithful r s'.world f' a)
    (onward : Onward r s.world s'.world) (proceed : s.proceed f = (f', s'))
    (waits : ∀ e, f.waiting ≠ .over e) :
    Onward r s.world (s.turn f).2.world ∧ Faithful r (s.turn f).2.world (s.turn f).1 a := by
  rcases turn_cases proceed waits with ⟨flight, -, world⟩ | dropped
  · rw [flight, world]
    exact ⟨onward, h⟩
  · rw [dropped]
    exact ⟨onward.trans (onward.honest.onward (moves_drop s' f')), h.dropped⟩

omit [MemoryStore σ] in
/-- A run that starts is woken by its own signal. -/
theorem onward_launched (honest : Honest r s.world) (client : s.world.IsClient f.task)
    (active : ActiveRuns) : Onward r s.world (s.launched f active).world := by
  have set := honest.watch client (some f.signal)
  rw [launched]
  dsimp only
  split
  · exact set.trans (set.honest.onward (moves_setTimer ..))
  · exact set

omit [MemoryStore σ] in
/-- There is something for the run, and what it has heard is true. -/
theorem Resumes.heard {a : Option Account} {log : List Stamped} {d : RunDialogue RunRecord}
    (h : Resumes f s a log d s₁) (faithful : Faithful s.engine.registry s.world f a)
    (honest : Honest s.engine.registry s.world) (client : s.world.IsClient f.task) :
    s₁.engine = s.engine ∧ Onward s.engine.registry s.world s₁.world ∧
      ∀ x ∈ log, Told s.engine.registry x.exchange := by
  cases h with
  | launch waits started => exact ⟨rfl, onward_launched honest client _, by simp⟩
  | approval waits rest polled =>
    obtain _ | ⟨posed, told⟩ := faithful
    refine ⟨(goesBy_pollPrompt polled).engine, honest.onward (moves_pollPrompt polled), ?_⟩
    exact Account.told_answered told (told_of_question (by simp)) s₁
  | @call l tool inputs limit next wait x w waits rest polled =>
    obtain _ | ⟨posed, told⟩ := faithful
    rw [rest, waits] at posed
    obtain _ | ⟨_, asked⟩ := posed
    obtain ⟨c, here, -⟩ := asked.call
    have moves := moves_of_pollWait (r := s.engine.registry) ⟨c, here⟩
    rw [polled] at moves
    refine ⟨rfl, honest.onward moves, Account.told_answered told ?_ _⟩
    rintro _ _ _ _ ⟨⟩
    exact asked.heard (fun c e => honest.ends _ c e) polled

/-- If there is nothing for the run, it waits on. -/
theorem Faithful.idle {a : Option Account} (h : Faithful s.engine.registry s.world f a)
    (honest : Honest s.engine.registry s.world) (idle : ∀ log d s₁, ¬ Resumes f s a log d s₁) :
    Onward s.engine.registry s.world (s.turn f).2.world ∧
      Faithful s.engine.registry (s.turn f).2.world (s.turn f).1 a := by
  have rests {e : RunEnd} (ended : f.waiting = .over e) :
      Onward s.engine.registry s.world (s.turn f).2.world ∧
        Faithful s.engine.registry (s.turn f).2.world (s.turn f).1 a := by
    rw [turn_over ended]
    exact ⟨.refl honest, h⟩
  cases h with
  | nothing h =>
    rcases h with start | ⟨e, ended⟩
    · cases started : s.engine.start s.active f.request.workflow f.request.id f.request.params
          f.signal with
      | ok x => exact absurd (.launch start started) (idle _ _ _)
      | error err =>
        exact Faithful.ends (.nothing (.inr ⟨_, rfl⟩)) (.refl honest)
          (proceed_refused start started) (by simp [start])
    · exact rests ended
  | @account l posed told =>
    generalize rest : l.pending.rest = d at posed
    generalize waits : f.waiting = wt at posed
    cases posed with
    | ended => exact rests waits
    | gate next p =>
      rcases polled : s.pollPrompt f.signal p with ⟨_ | a, p', s₁⟩
      · exact Faithful.ends (.account (rest ▸ .gate next p') told)
          (honest.onward (moves_pollPrompt polled)) (proceed_approval waits polled) (by simp [waits])
      · exact absurd (.approval waits rest polled) (idle _ _ _)
    | @call tool inputs limit next wait asked =>
      rcases polled : s.world.pollWait wait with ⟨_ | x, w₁⟩
      · obtain ⟨c, here, -⟩ := asked.call
        have moves := moves_of_pollWait (r := s.engine.registry) ⟨c, here⟩
        rw [polled] at moves
        have onward := honest.onward moves
        have posed' : Posed s.engine.registry w₁ l.pending.rest f.waiting := by
          rw [rest, waits]
          exact .call next (asked.onward onward)
        exact Faithful.ends (.account posed' told) onward (proceed_call waits polled)
          (by simp [waits])
      · exact absurd (.call waits rest polled) (idle _ _ _)

/-- **What is told of a run that has its turn** is what it has heard. -/
theorem Faithful.turn {a a' : Option Account} (h : Faithful s.engine.registry s.world f a)
    (honest : Honest s.engine.registry s.world) (client : s.world.IsClient f.task)
    (adds : Adds f s a a') :
    Onward s.engine.registry s.world (s.turn f).2.world ∧
      Faithful s.engine.registry (s.turn f).2.world (s.turn f).1 a' := by
  cases adds with
  | nothing idle => exact h.idle honest idle
  | @goesOn log more d s₁ p resumes goes =>
    obtain ⟨engine, onward, told⟩ := resumes.heard h honest client
    obtain ⟨moves, posed, more⟩ := goes.heard
    obtain ⟨dropAt, proceed⟩ := resumes.proceed
    rw [engine] at moves posed more
    exact Faithful.ends (.account posed (List.forall_mem_append.mpr ⟨told, more⟩))
      (onward.trans (onward.honest.onward moves)) proceed resumes.waits

/-! ## 4. A journey -/

/-- All runs of a visit are faithful, and the given account is that of run number `i`. -/
structure Steady (e : Engine) (i : Nat) (a : Option Account) (v : Visit σ) : Prop where
  engine : v.session.engine = e
  honest : Honest e.registry v.session.world
  clients : ∀ f ∈ v.flights, v.session.world.IsClient f.task
  faithful : ∀ f ∈ v.flights, ∃ a, Faithful e.registry v.session.world f a
  account : ∀ f, v.flights[i]? = some f → Faithful e.registry v.session.world f a

variable {e : Engine} {i : Nat} {a a' : Option Account} {v v' : Visit σ}

omit [MemoryStore σ] in
/-- The world goes on around the runs. -/
theorem Steady.onward (h : Steady e i a v) (engine : v'.session.engine = v.session.engine)
    (flights : v'.flights = v.flights)
    (onward : Onward e.registry v.session.world v'.session.world) : Steady e i a v' where
  engine := engine.trans h.engine
  honest := onward.honest
  clients f hf := onward.clients _ (h.clients f (flights ▸ hf))
  faithful f hf := by
    obtain ⟨a, faithful⟩ := h.faithful f (flights ▸ hf)
    exact ⟨a, faithful.onward onward⟩
  account f hf := (h.account f (flights ▸ hf)).onward onward

omit [MemoryStore σ] in
theorem Steady.moves (h : Steady e i a v) (engine : v'.session.engine = v.session.engine)
    (flights : v'.flights = v.flights) (moves : Moves e.registry v.session.world v'.session.world) :
    Steady e i a v' :=
  h.onward engine flights (h.honest.onward moves)

/-- Someone new comes, and is woken after a number of milliseconds. -/
def arrival (w : World) : (ms : Nat) → World
  | 0 => (w.spawnIdle (.client none)).2.wake w.tasks.size
  | ms + 1 => (w.spawnIdle (.client none)).2.setTimer (w.now + (ms + 1)) w.tasks.size

omit [MemoryStore σ] in
theorem moves_arrival (w : World) (ms : Nat) :
    Moves r w (arrival w ms) ∧ (arrival w ms).IsClient w.tasks.size := by
  have arrived : Moves r w (w.spawnIdle (.client none)).2 := (Move.arrive none).moves
  have there : (w.spawnIdle (.client none)).2.task? w.tasks.size = some (.client none) :=
    (task?_spawn w _ _).trans (if_pos rfl)
  cases ms with
  | zero =>
    refine ⟨arrived.trans (moves_of_tasks (tasks_wake ..) (fired_wake ..) fun _ =>
      mem_ready_wake_of _ _), none, ?_⟩
    exact (congrArg (·[w.tasks.size]?) (tasks_wake ..)).trans there
  | succ ms => exact ⟨arrived.trans (moves_setTimer ..), none, there⟩

omit [MemoryStore σ] in
theorem Steady.visitAfter (h : Steady e i a v) (ms : Nat) (who : Visitor) :
    Steady e i a (v.visitAfter ms who) :=
  h.moves rfl rfl (moves_arrival v.session.world ms).1

omit [MemoryStore σ] in
theorem Steady.request (h : Steady e i a v) (absent : v.flights[i]? = none → a = none)
    (q : RunRequest) : Steady e i a (v.request q) := by
  obtain ⟨moves, client⟩ :=
    moves_arrival (r := e.registry) (v.session.world.newSignal []).2 q.startAfter
  have onward : Onward e.registry v.session.world (v.request q).session.world :=
    h.honest.onward ((moves_of_newSignal _ []).trans moves)
  obtain ⟨-, -, signal, flights⟩ := request_adds v q
  have new : Faithful e.registry (v.request q).session.world
      { request := q, task := v.session.world.tasks.size, signal } none := .nothing (.inl rfl)
  refine ⟨h.engine, onward.honest, ?_, ?_, fun f hf => ?_⟩
  · rw [flights]
    refine List.forall_mem_append.mpr ⟨fun f hf => onward.clients _ (h.clients f hf), ?_⟩
    exact List.forall_mem_singleton.mpr client
  · rw [flights]
    refine List.forall_mem_append.mpr ⟨fun f hf => ?_, List.forall_mem_singleton.mpr ⟨_, new⟩⟩
    obtain ⟨a, faithful⟩ := h.faithful f hf
    exact ⟨a, faithful.onward onward⟩
  · rw [flights] at hf
    rcases Nat.lt_or_ge i v.flights.length with lt | ge
    · rw [List.getElem?_append_left lt] at hf
      exact (h.account f hf).onward onward
    · rw [absent (List.getElem?_eq_none ge)]
      rw [List.getElem?_append_right ge] at hf
      obtain rfl := List.mem_singleton.mp (List.mem_of_getElem? hf)
      exact new

/-- A turn of run number `j`. -/
theorem Steady.wakeFlight (h : Steady e i a v) {j : Nat} {f : Flight}
    (hf : v.flights[j]? = some f) (own : j = i → Adds f v.session a a') (other : j ≠ i → a' = a) :
    Steady e i a' (v.wakeFlight j f) := by
  obtain ⟨rfl, honest, clients, faithful, account⟩ := h
  have there := List.mem_of_getElem? hf
  -- the account of run number `j`, whichever it is
  obtain ⟨b, b', before, adds, same⟩ : ∃ b b',
      Faithful v.session.engine.registry v.session.world f b ∧ Adds f v.session b b' ∧
        (j = i → b' = a') := by
    by_cases mine : j = i
    · exact ⟨a, a', account f (mine ▸ hf), own mine, fun _ => rfl⟩
    · obtain ⟨b, before⟩ := faithful f there
      obtain ⟨b', adds⟩ := exists_adds f v.session b
      exact ⟨b, b', before, adds, fun same => absurd same mine⟩
  obtain ⟨onward, after⟩ := before.turn honest (clients f there) adds
  have party := (spares_turn v.session f).party
  have turned : Steady v.session.engine i a' { v with
      session := (v.session.turn f).2
      flights := v.flights.set j (v.session.turn f).1 } := by
    refine ⟨(spares_turn v.session f).engine, onward.honest, fun g hg => ?_, fun g hg => ?_,
      fun g hg => ?_⟩
    · rcases List.mem_or_eq_of_mem_set hg with hg | rfl
      · exact onward.clients _ (clients g hg)
      · rw [party.2.1]
        exact onward.clients _ (clients f there)
    · rcases List.mem_or_eq_of_mem_set hg with hg | rfl
      · obtain ⟨b, faithful⟩ := faithful g hg
        exact ⟨b, faithful.onward onward⟩
      · exact ⟨b', after⟩
    · dsimp only at hg
      by_cases mine : j = i
      · subst mine
        have lt := (List.getElem?_eq_some_iff.mp hf).1
        rw [List.getElem?_set_self lt] at hg
        obtain rfl := Option.some.inj hg
        exact same rfl ▸ after
      · rw [List.getElem?_set_ne mine] at hg
        rw [other mine]
        exact (account g hg).onward onward
  rw [Visit.wakeFlight]
  dsimp only
  split
  · exact turned.visitAfter _ _
  · exact turned

/-- A client has its turn. -/
theorem Steady.wake (h : Steady e i a v) {id : TaskId}
    (own : ∀ f, v.flights.findIdx? (·.task = id) = some i → v.flights[i]? = some f →
      Adds f v.session a a')
    (other : v.flights.findIdx? (·.task = id) ≠ some i → a' = a) : Steady e i a' (v.wake id) := by
  rcases wake_cases v id with ⟨j, f, found, hf, -, turn⟩ | ⟨found, flights, session⟩
  · rw [turn]
    refine h.wakeFlight hf (fun same => own f (same ▸ found) (same ▸ hf)) fun ne => ?_
    exact other fun mine => ne (Option.some.inj (found.symm.trans mine))
  · rw [other (by simp [found])]
    rcases session with same | ⟨run, told⟩
    · exact h.moves (by rw [same]) flights (by rw [same]; exact .refl _)
    · refine h.moves ?_ flights (by rw [told]; exact moves_stop ..)
      rw [told]
      exact (goesBy_stop v.session run).engine

omit [MemoryStore σ] in
theorem Steady.popped (h : Steady e i a v) {id : TaskId}
    (stepped : v.session.world.step v.session.engine.registry = (some (.client id), w)) :
    Steady e i a (v.inWorld w) :=
  h.moves rfl rfl (h.engine ▸ (move_of_client stepped).moves)

/-- **On a journey that begins in an empty world**, what is told of the run is what it has heard. -/
theorem Journey.steady {past : List World} (h : Journey i past a v)
    (first : (past ++ [v.session.world]).head? = some {}) : Steady v.session.engine i a v := by
  have front {past : List World} {u u' : World} (h : (past ++ [u] ++ [u']).head? = some {}) :
      (past ++ [u]).head? = some {} := by
    rwa [List.head?_append_of_ne_nil _ (by simp)] at h
  induction h with
  | @idle s ascending =>
    obtain empty : s.world = {} := Option.some.inj first
    refine ⟨rfl, ?_, by simp, by simp, by simp⟩
    rw [empty]
    exact honest_empty _
  | work j stepped ih => exact (ih (front first)).moves rfl rfl (move_of_step stepped).moves
  | tick j quiet moved ih =>
    obtain ⟨-, -, -, -, tasks, fired, -, -⟩ := advance?_cases moved
    exact (ih (front first)).moves rfl rfl (moves_of_tasks tasks fired (by simp [quiet]))
  | own j stepped mine hf adds ih =>
    have popped := (ih (front first)).popped stepped
    have woken := popped.wake (fun g _ hg => by cases hf.symm.trans hg; exact adds)
      (fun other => absurd mine other)
    rwa [← woken.engine] at woken
  | other j stepped other ih =>
    have popped := (ih (front first)).popped stepped
    have woken := popped.wake (fun g mine => absurd mine other) fun _ => rfl
    rwa [← woken.engine] at woken
  | request j q ih => exact (ih (front first)).request j.sound.absent q
  | visitAfter j ms who ih => exact (ih (front first)).visitAfter ms who

end
end Session
end Runbook
