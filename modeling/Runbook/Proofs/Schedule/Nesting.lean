import Runbook.Proofs.Schedule.Calm
import Runbook.Proofs.Schedule.Conclusions
import Runbook.Proofs.Schedule.TimeUp
import Runbook.Proofs.Schedule.Verdicts
import Runbook.Proofs.Tool.Accepted

/-!
# Fan-outs do not nest

Whatever happens, a worker is for a query of a fan-out that has accepted its inputs (`Employed`), and
the call that it makes is for this query (`Sent`). If the inputs were checked the query is not for the
fan-out, so the tool that is called works alone and has no workers (`childless_of_makesCall`): below a
call of the fan-out there is one level of calls (`fan_outs_nest_once`).

What a built-in tool has accepted it does not complain about when it works (`noComplaint_of_moves`).
-/

set_option autoImplicit false

namespace Runbook.Schedule

variable {r : Registry} {c d d' : Call} {t : Tool} {inputs : Fields Json}

/-! ## 1. Inputs that have been accepted -/

/-- The end does not say that the inputs are invalid. -/
def CallEnd.NoComplaint (e : CallEnd) : Prop :=
  ∀ m, e ≠ .result (.error (.validation m))

theorem Comes.noComplaint {work : Tool.Work} {limit : Option Nat} {stopped : Prop}
    {e : CallEnd} (h : Comes t work inputs limit stopped e) (accepted : t.check inputs = .accepted)
    (silent : work.NoComplaint) : e.NoComplaint := by
  intro m
  cases h with
  | verdict =>
    rw [Tool.verdict, accepted]
    intro same
    cases result : work.result with
    | error e =>
      rw [result] at same
      cases same
      exact silent m result
    | output | panics =>
      rw [result] at same
      cases same
  | aborted | stopped | late => simp

theorem Concludes.noComplaint {e : CallEnd} (h : Concludes r c e)
    (accepted : c.tool.check c.inputs = .accepted) {p : FanOut.Plan}
    (planned : FanOut.plan r.maxFanOut c.inputs = .ok p) : e.NoComplaint := by
  intro m
  cases h with
  | rejected rejected => cases accepted.symm.trans rejected
  | unplanned unplanned => cases planned.symm.trans unplanned
  | aborted | late | panicked | failed | gathered => simp [FanOut.firstFailure]

namespace World

variable {w w' : World} {me id x y z : TaskId} {k k' : Worker} {ready : List TaskId}

/-- **A built-in tool does not complain** about inputs that its check accepts, whether or not they
have been checked. -/
theorem noComplaint_of_moves (reached : Moves r {} w) (there : w.task? x = some (.call c))
    (builtIn : c.tool.BuiltIn) (accepted : c.tool.check c.inputs = .accepted) {e : CallEnd}
    (isOver : c.phase = .over e) : e.NoComplaint := by
  cases body : c.tool.body with
  | alone work =>
    have comes := comes_of_worksChecked reached there ⟨body, fun _ => accepted⟩ isOver
    exact comes.noComplaint accepted (builtIn.noComplaint body accepted)
  | fanOut =>
    have honest := (honest_empty r).moves reached
    have fanOut : c.tool = FanOut.tool := builtIn.eq_fanOut body
    obtain ⟨p, planned, -⟩ := FanOut.plan_of_accepted (fanOut ▸ accepted) r.maxFanOut
    exact (honest.ends x c e there body isOver).noComplaint accepted planned

/-- **What a built-in tool accepts it can work on.** -/
theorem noComplaint_of_execute (builtIn : t.BuiltIn) (accepted : t.check inputs = .accepted)
    {e : CallEnd} (h : execute r t inputs = some e) : e.NoComplaint := by
  obtain ⟨w, x, c, reached, there, rfl, rfl, isOver⟩ := moves_of_execute h
  exact noComplaint_of_moves reached there builtIn accepted isOver

/-! ## 2. For whom workers are hired -/

/-- The worker is for a query of a fan-out that has accepted its inputs. -/
def Employed (r : Registry) (w : World) (k : Worker) : Prop :=
  ∃ c plan, w.task? k.gatherer = some (.call c) ∧ c.tool.body = .fanOut ∧ c.Accepted ∧
    FanOut.plan r.maxFanOut c.inputs = .ok plan ∧ k.query ∈ plan.queries

theorem Employed.alike (h : Employed r w k) (alike : k.Alike k')
    (boss : ∀ x c, w.task? x = some (.call c) → ∃ c', w'.task? x = some (.call c') ∧ c.Alike c') :
    Employed r w' k' := by
  obtain ⟨c, plan, here, body, accepted, planned, mine⟩ := h
  obtain ⟨c', there, alike'⟩ := boss _ c here
  refine ⟨c', plan, ?_, alike'.tool ▸ body, accepted.alike alike', ?_, ?_⟩
  · rwa [alike.gatherer]
  · rwa [alike'.inputs]
  · rwa [alike.query]

/-- A call that ends hires nobody. -/
theorem nobody_endCall (here : w.Open id c) (e : CallEnd) (new : w.task? x = none) (k : Worker) :
    (w.endCall id c e).task? x ≠ some (.worker k) := by
  intro there
  have ended : Within (fun y => y = id) w (w.endCall id c e) :=
    within_endCall (S := fun y => y = id) rfl here e
  have other : x ≠ id := by
    rintro rfl
    obtain ⟨c₀, call, -⟩ := here
    cases new.symm.trans call
  cases new.symm.trans (ended.wasWorker other there)

/-- The workers of a fan-out that begins are for the queries planned. -/
theorem query_mem_beginFanOut (here : w.Open id c) {plan : FanOut.Plan}
    (planned : FanOut.plan r.maxFanOut c.inputs = .ok plan)
    (nobody : ∀ x k, w.task? x = some (.worker k) → k.gatherer ≠ id)
    (there : (w.beginFanOut r id c).task? x = some (.worker k)) (gatherer : k.gatherer = id) :
    k.query ∈ plan.queries := by
  have gathers := gathers_hire planned nobody
  have open_ := here.hire id c.signal plan.queries
  have apart := gathers.ne_of_open open_
  let family (x : TaskId) : Prop := x = id ∨ ∃ i, i < plan.queries.length ∧ x = w.tasks.size + i
  have within : Within family (w.hire id c.signal plan.queries) (w.beginFanOut r id c) := by
    rw [beginFanOut_eq planned]
    exact (within_pollGathering (.inl rfl) open_ plan apart (fun i small => .inr ⟨i, small, rfl⟩)
      _).trans (within_setDeadline _ id c)
  have place : ∃ i, i < plan.queries.length ∧ x = w.tasks.size + i := by
    by_cases own : family x
    · refine own.resolve_left ?_
      rintro rfl
      obtain ⟨c', call⟩ := within.hasCall open_.hasCall
      cases there.symm.trans call
    · exact gathers.crew x k (within.wasWorker own there) gatherer
  obtain ⟨i, small, rfl⟩ := place
  obtain ⟨k₀, worker, hired, -⟩ := gathers.worker small
  obtain ⟨k', there', alike, -⟩ := within.workers _ k₀ worker
  cases there.symm.trans there'
  rw [alike.query, hired.query]
  exact List.getElem_mem small

/-- **Only a fan-out that begins hires workers**, for its queries. -/
theorem hired_pollCall (here : w.task? id = some (.call c)) (fresh : c.phase = .fresh)
    (body : c.tool.body = .fanOut)
    (nobody : ∀ x k, w.task? x = some (.worker k) → k.gatherer ≠ id) (new : w.task? x = none)
    (there : (w.pollCall r id c).task? x = some (.worker k)) (gatherer : k.gatherer = id) :
    c.Accepted ∧ ∃ plan, FanOut.plan r.maxFanOut c.inputs = .ok plan ∧ k.query ∈ plan.queries := by
  have open_ : w.Open id c := ⟨c, here, by simp [fresh], .refl c⟩
  have idle (e : CallEnd) : (w.endCall id c e).task? x ≠ some (.worker k) :=
    nobody_endCall open_ e new k
  have begins (accepted : c.Accepted) (there : (w.begin r id c).task? x = some (.worker k)) :
      c.Accepted ∧ ∃ plan, FanOut.plan r.maxFanOut c.inputs = .ok plan ∧ k.query ∈ plan.queries := by
    have timed : c.Alike { c with deadline := c.limit.map (w.now + ·) } :=
      ⟨rfl, rfl, rfl, rfl, rfl, rfl⟩
    unfold begin at there
    dsimp only at there
    rw [body] at there
    cases planned : FanOut.plan r.maxFanOut c.inputs with
    | error e =>
      rw [beginFanOut, planned] at there
      exact absurd there (nobody_endCall (open_.alike timed) _ new k)
    | ok plan =>
      exact ⟨accepted, plan, rfl,
        query_mem_beginFanOut (open_.alike timed) planned nobody there gatherer⟩
  unfold pollCall at there
  rw [fresh] at there
  dsimp only at there
  split at there
  · rw [endAborted, fresh] at there
    exact absurd there (idle _)
  · unfold pollFresh at there
    split at there
    · next unchecked => exact begins (.inl unchecked) there
    · split at there
      · next passed => exact begins (.inr passed) there
      · exact absurd there (idle _)
      · exact absurd there (idle _)

/-- A worker that has come with a move has come with the beginning of its fan-out. -/
theorem begins_of_hired (sane : Sane r none w) (move : Move r w w') (new : w.task? x = none)
    (there : w'.task? x = some (.worker k)) :
    ∃ c ready, w.task? k.gatherer = some (.call c) ∧ c.phase = .fresh ∧ c.tool.body = .fanOut ∧
      w' = pollCall { w with ready } r k.gatherer c := by
  obtain ⟨-, c', hires⟩ := hires_of_move sane move new there
  have after := (advances_of_move sane move).sane
  obtain ⟨c₁, call, begun⟩ := (after.crew x k there).resolve_left nofun
  cases hires.maker.symm.trans call
  obtain ⟨c, here, alike, moved⟩ := (moved_of_move sane move call).resolve_left begun
  have fresh := hires.early c here
  cases moved with
  | @own ready _ goes => exact ⟨c, ready, here, fresh, alike.tool ▸ hires.body, goes⟩
  | kept kept => cases kept <;> exact absurd fresh begun
  | worker _ _ begun' => exact absurd fresh begun'

/-- Every worker is for a query of a fan-out that has accepted its inputs. -/
def AllEmployed (r : Registry) (w : World) : Prop :=
  ∀ x k, w.task? x = some (.worker k) → Employed r w k

theorem allEmployed_empty (r : Registry) : AllEmployed r {} :=
  fun x k there => by simp [task?] at there

/-- **One move.** -/
theorem AllEmployed.move (h : AllEmployed r w) (sane : Sane r none w) (move : Move r w w') :
    AllEmployed r w' := by
  intro x k there
  have boss (y : TaskId) (c : Call) (here : w.task? y = some (.call c)) :
      ∃ c', w'.task? y = some (.call c') ∧ c.Alike c' := by
    obtain ⟨c', there, grows, -⟩ := (advances_of_move sane move).calls y c here
    exact ⟨c', there, grows.toAlike⟩
  rcases was_of_move sane move there with new | ⟨k₀, before, alike, -⟩
  · obtain ⟨c, ready, here, fresh, body, rfl⟩ := begins_of_hired sane move new there
    obtain ⟨accepted, plan, planned, mine⟩ := hired_pollCall (w := { w with ready }) here fresh body
      (fun y k' worker => (sane.poised here fun y hy _ => hy).nobody fresh y k' worker) new there rfl
    obtain ⟨c', call, alike⟩ := boss _ c here
    exact ⟨c', plan, call, alike.tool ▸ body, accepted.alike alike, alike.inputs ▸ planned, mine⟩
  · exact (h x k₀ before).alike alike boss

theorem AllEmployed.moves (h : AllEmployed r w) (sane : Sane r none w) (moves : Moves r w w') :
    AllEmployed r w' := by
  induction moves with
  | refl => exact h
  | tail before move ih => exact ih.move (Moves.sane before sane) move

theorem AllEmployed.pulse (h : AllEmployed r w) (sane : Sane r none w) (pulse : Pulse r w w') :
    AllEmployed r w' := by
  rcases pulse.moves_or_watches with moves | ⟨me, s, s', client, rfl⟩
  · exact h.moves sane moves
  · intro x k there
    have other : me ≠ x := by
      rintro rfl
      cases (task?_setTask_self client).symm.trans there
    refine (h x k ((task?_setTask_ne _ other).symm.trans there)).alike (.refl k) fun y c here => ?_
    have other : me ≠ y := by
      rintro rfl
      cases client.symm.trans here
    exact ⟨c, (task?_setTask_ne _ other).trans here, .refl c⟩

theorem allEmployed_of_pulses (reached : Pulses r {} w) : AllEmployed r w := by
  induction reached with
  | refl => exact allEmployed_empty r
  | tail before pulse ih => exact ih.pulse (ordered_of_pulses before).sane pulse

/-! ## 3. For whom calls are made -/

/-- The call is made by a worker for its query, which is one of a fan-out that has accepted its
inputs. -/
structure Sent (r : Registry) (w : World) (d : Call) (k : Worker) : Prop where
  made : d.For r k.query
  boss : Employed r w k

/-- Every call has been made from outside or is so. -/
def AllSent (r : Registry) (w : World) : Prop :=
  ∀ y d, w.task? y = some (.call d) → w.Asked y ∨
    ∃ k, w.task? d.caller = some (.worker k) ∧ Sent r w d k

theorem Sent.alike (h : Sent r w d k) (alike : d.Alike d') (alike' : k.Alike k')
    (boss : ∀ x c, w.task? x = some (.call c) → ∃ c', w'.task? x = some (.call c') ∧ c.Alike c') :
    Sent r w' d' k' := by
  refine ⟨?_, h.boss.alike alike' boss⟩
  rw [alike'.query]
  exact h.made.alike alike

/-- A worker that begins its call makes the one for its query. -/
theorem sent_beginCalling (sane : Sane r none w) (employed : AllEmployed r w)
    (here : w.task? me = some (.worker k)) {m : World} (starts : Starts { w with ready } k m)
    (new : w.task? y = none) (there : (m.beginCalling r me k).task? y = some (.call d)) :
    Sent r w d k := by
  have handy : World.Handy { w with ready } me k := ⟨⟨k, here, .refl k, rfl⟩, sane.employer here⟩
  have asked : Deeds False False me { w with ready } m := starts.deeds handy
  exact ⟨for_beginCalling (handy.deeds asked) (starts.nobody new) there, employed me k here⟩

/-- **One pulse.** -/
theorem AllSent.pulse (h : AllSent r w) (ordered : Ordered r w) (employed : AllEmployed r w)
    (pulse : Pulse r w w') : AllSent r w' := by
  intro y d' there
  have boss (x : TaskId) (c : Call) (here : w.task? x = some (.call c)) :
      ∃ c', w'.task? x = some (.call c') ∧ c.Alike c' := by
    obtain ⟨c', there, alike, -⟩ := pulse.call ordered here
    exact ⟨c', there, alike⟩
  rcases pulse.turn ordered with ⟨-, moved⟩ | ⟨me, ready, turn⟩
  · obtain ⟨-, -, -, -, tasks, -⟩ := advance?_cases moved
    have same (x : TaskId) : w'.task? x = w.task? x := congrArg (·[x]?) tasks
    rcases h y d' ((same y).symm.trans there) with ⟨c, s, here, caller⟩ | ⟨k, maker, sent⟩
    · exact .inl ⟨c, s, (same _).trans here, (same _).trans caller⟩
    · exact .inr ⟨k, (same _).trans maker, sent.alike (.refl d') (.refl k) boss⟩
  · rcases turn.spares.wasCall there with ⟨new, may, -, mine⟩ | ⟨d, here, alike, -⟩
    · rcases may with ⟨k, hand, kept, m, starts⟩ | ⟨s, client⟩
      · obtain ⟨k', hand', alike, -⟩ := turn.spares.hand k hand
        rw [turn.worker k hand, pollWorker_of_starts kept starts r] at there
        have sent := sent_beginCalling ordered.sane employed hand starts new there
        exact .inr ⟨k', mine ▸ hand', sent.alike (.refl d') alike boss⟩
      · obtain ⟨s', client'⟩ := turn.spares.client me s client
        exact .inl ⟨d', s', there, mine ▸ client'⟩
    · rcases h y d here with ⟨d₁, s, here', caller⟩ | ⟨k, maker, sent⟩
      · cases here.symm.trans here'
        obtain ⟨s', caller'⟩ := turn.spares.client _ s caller
        exact .inl ⟨d', s', there, alike.caller ▸ caller'⟩
      · obtain ⟨k', maker'⟩ := turn.spares.hasWorker ⟨k, maker⟩
        rcases turn.spares.wasWorker maker' with ⟨new, -⟩ | ⟨k₁, hand, alike', -⟩
        · cases maker.symm.trans new
        · cases maker.symm.trans hand
          exact .inr ⟨k', alike.caller ▸ maker', sent.alike alike alike' boss⟩

theorem allSent_of_pulses (reached : Pulses r {} w) : AllSent r w := by
  induction reached with
  | refl => exact fun y d there => by simp [task?] at there
  | tail before pulse ih =>
    exact ih.pulse (ordered_of_pulses before) (allEmployed_of_pulses before) pulse

/-! ## 4. One level of calls -/

/-- A call whose tool works alone has no workers. -/
theorem AllEmployed.nobody (employed : AllEmployed r w) (here : w.task? y = some (.call d))
    (alone : ∃ work, d.tool.body = .alone work) :
    ∀ z k, w.task? z = some (.worker k) → k.gatherer ≠ y := by
  rintro z k worker rfl
  obtain ⟨c, -, call, body, -⟩ := employed z k worker
  cases here.symm.trans call
  obtain ⟨work, alone⟩ := alone
  cases body.symm.trans alone

/-- What a worker of a checked fan-out calls works alone. -/
theorem Sent.alone (sent : Sent r w d k) (leafy : r.Leafy)
    (here : w.task? k.gatherer = some (.call c)) (fanOut : c.tool = FanOut.tool)
    (checked : c.unchecked = false) : ∃ work, d.tool.body = .alone work := by
  obtain ⟨made, c', plan, call, -, accepted, planned, mine⟩ := sent
  cases here.symm.trans call
  have passed : c.tool.check c.inputs = .accepted := accepted.resolve_left (by simp [checked])
  obtain ⟨plan', planned', apart⟩ := FanOut.plan_of_accepted (fanOut ▸ passed) r.maxFanOut
  cases planned.symm.trans planned'
  exact (leafy _ _ made.tool).resolve_left fun ⟨nested, _⟩ => apart _ mine nested

/-- **What a worker calls never has workers of its own**, whatever happens. -/
theorem childless_of_makesCall (leafy : r.Leafy) (reached : Moves r {} w)
    (here : w.task? x = some (.worker k)) (boss : w.task? k.gatherer = some (.call c))
    (fanOut : c.tool = FanOut.tool) (checked : c.unchecked = false) (made : MakesCall r w x w')
    (new : w.task? y = none) (there : w'.task? y = some (.call d)) :
    (∃ work, d.tool.body = .alone work) ∧
      ∀ m, Moves r w' m → ∀ z k', m.task? z = some (.worker k') → k'.gatherer ≠ y := by
  have sane := reached.sane (sane_empty r)
  have employed := (allEmployed_empty r).moves (sane_empty r) reached
  have alone : ∃ work, d.tool.body = .alone work := by
    cases made with
    | mk here' others kept starts =>
      cases here.symm.trans here'
      exact (sent_beginCalling sane employed here starts new there).alone leafy boss fanOut checked
  refine ⟨alone, fun m later => ?_⟩
  have next : Moves r {} w' := reached.tail made.move
  have sane' := next.sane (sane_empty r)
  obtain ⟨d', there', grows⟩ := later.call sane' there
  have employed' := (allEmployed_empty r).moves (sane_empty r) (next.trans later)
  exact employed'.nobody there' (grows.tool ▸ alone)

/-- The call is made for the other, or for one that is made for it, and so on. -/
def Below (w : World) : TaskId → TaskId → Prop :=
  Relation.TransGen fun x y => ∃ d, w.Serves x y d

/-- The call is a leaf: its tool works alone, and no call is made for it. -/
structure Leaf (w : World) (y : TaskId) (d : Call) : Prop where
  alone : ∃ work, d.tool.body = .alone work
  last : ∀ z, ¬ w.Below y z

theorem leaf_of_alone (employed : AllEmployed r w) (here : w.task? y = some (.call d))
    (alone : ∃ work, d.tool.body = .alone work) : w.Leaf y d := by
  refine ⟨alone, fun z below => ?_⟩
  have first : ∃ x d₁, w.Serves y x d₁ := by
    cases below using Relation.TransGen.head_induction_on with
    | single h => exact ⟨_, h⟩
    | head h => exact ⟨_, h⟩
  obtain ⟨x, d₁, -, k, maker, rfl⟩ := first
  exact employed.nobody here alone _ k maker rfl

theorem leaf_of_serves (leafy : r.Leafy) (reached : Pulses r {} w)
    (here : w.task? id = some (.call c)) (fanOut : c.tool = FanOut.tool)
    (checked : c.unchecked = false) (serves : w.Serves id y d) : w.Leaf y d := by
  obtain ⟨there, k, maker, rfl⟩ := serves
  rcases allSent_of_pulses reached y d there with ⟨d₁, s, there', caller⟩ | ⟨k', maker', sent⟩
  · cases there.symm.trans there'
    cases maker.symm.trans caller
  · cases maker.symm.trans maker'
    exact leaf_of_alone (allEmployed_of_pulses reached) there (sent.alone leafy here fanOut checked)

/-- **Below a checked fan-out there is one level of calls.** -/
theorem served_of_below (leafy : r.Leafy) (reached : Pulses r {} w)
    (here : w.task? id = some (.call c)) (fanOut : c.tool = FanOut.tool)
    (checked : c.unchecked = false) (below : w.Below id y) : ∃ d, w.Serves id y d ∧ w.Leaf y d := by
  induction below with
  | single serves =>
    obtain ⟨d, serves⟩ := serves
    exact ⟨d, serves, leaf_of_serves leafy reached here fanOut checked serves⟩
  | tail _ serves ih =>
    obtain ⟨d, -, leaf⟩ := ih
    exact absurd (.single serves) (leaf.last _)

/-! ## 5. A call on its own -/

/-- All calls are checked, and their tools are in the registry. -/
theorem Begins.registered (begins : Begins t inputs w) (reached : Pulses r {} w) {tool : String}
    (known : r.tool? tool = some t) (there : w.task? y = some (.call d)) :
    (∃ name, r.tool? name = some d.tool) ∧ d.unchecked = false := by
  rcases allSent_of_pulses reached y d there with asked | ⟨k, -, sent⟩
  · obtain rfl := begins.only y asked
    obtain ⟨c, here, rfl, -, checked⟩ := begins.call
    cases there.symm.trans here
    exact ⟨⟨tool, known⟩, checked⟩
  · exact ⟨⟨_, sent.made.tool⟩, sent.made.checked⟩

/-- **Every other call is a leaf** right below it. -/
theorem Begins.served (begins : Begins t inputs w) (leafy : r.Leafy) (reached : Pulses r {} w)
    {tool : String} (known : r.tool? tool = some t) (there : w.task? y = some (.call d))
    (other : y ≠ 2) : w.Serves 2 y d ∧ w.Leaf y d := by
  have employed := allEmployed_of_pulses reached
  -- whoever has workers is a fan-out that was checked
  have boss {y : TaskId} {d : Call} (there : w.task? y = some (.call d)) (other : y ≠ 2) :
      ∃ k, w.task? d.caller = some (.worker k) ∧ w.HasCall k.gatherer ∧ w.Leaf y d := by
    obtain ⟨k, maker, sent⟩ := (allSent_of_pulses reached y d there).resolve_left
      fun asked => other (begins.only y asked)
    obtain ⟨c, -, call, body, -⟩ := employed _ k maker
    obtain ⟨⟨name, found⟩, checked⟩ := begins.registered reached known call
    have fanOut : c.tool = FanOut.tool := by
      rcases leafy name c.tool found with ⟨-, fanOut⟩ | ⟨work, alone⟩
      · exact fanOut
      · cases body.symm.trans alone
    exact ⟨k, maker, ⟨c, call⟩, leaf_of_alone employed there (sent.alone leafy call fanOut checked)⟩
  obtain ⟨k, maker, ⟨c, call⟩, leaf⟩ := boss there other
  refine ⟨⟨there, k, maker, ?_⟩, leaf⟩
  by_contra nested
  obtain ⟨-, -, -, leaf'⟩ := boss call nested
  exact leaf'.last y (.single ⟨d, there, k, maker, rfl⟩)

/-! ## 6. The recursion ends -/

/-- **Fan-outs do not nest, and what has been accepted can be worked on.** With a registry of the
fan-out and tools that work alone, whatever happens, the call that a worker of a checked fan-out makes
is of a tool that works alone, and never has workers of its own. If tasks go on in any order and
nobody else makes calls in their names, all calls below one of the fan-out whose inputs are checked are
right below it, and their tools work alone. If a single call is made from outside, of whichever tool,
these are all the calls that there are besides, and so in the world of one that is made on its own.
And a built-in tool whose check accepts the inputs does not end with a complaint about them, whether
or not they have been checked. -/
theorem fan_outs_nest_once (leafy : r.Leafy) :
    (∀ w w' x k c y d, Moves r {} w → w.task? x = some (.worker k) →
        w.task? k.gatherer = some (.call c) → c.tool = FanOut.tool → c.unchecked = false →
        MakesCall r w x w' → w.task? y = none → w'.task? y = some (.call d) →
        (∃ work, d.tool.body = .alone work) ∧
          ∀ m, Moves r w' m → ∀ z k', m.task? z = some (.worker k') → k'.gatherer ≠ y) ∧
      (∀ w id c, Pulses r {} w → w.task? id = some (.call c) → c.tool = FanOut.tool →
        c.unchecked = false → ∀ y, w.Below id y → ∃ d, w.Serves id y d ∧ w.Leaf y d) ∧
      (∀ tool t inputs w, r.tool? tool = some t → Pulses r {} w → Begins t inputs w →
        ∀ y d, w.task? y = some (.call d) → y ≠ 2 → w.Serves 2 y d ∧ w.Leaf y d) ∧
      (∀ tool t inputs limit stopAt report ms, r.tool? tool = some t →
        dispatch r tool inputs limit stopAt = some report →
        Begins t inputs (report.after r ms) ∧
          ∀ y d, (report.after r ms).task? y = some (.call d) → y ≠ 2 →
            (report.after r ms).Serves 2 y d ∧ (report.after r ms).Leaf y d) ∧
      ∀ t inputs m, t.BuiltIn → t.check inputs = .accepted →
        execute r t inputs ≠ some (.result (.error (.validation m))) ∧
          ∀ w x c, Moves r {} w → w.task? x = some (.call c) → c.tool = t → c.inputs = inputs →
            c.phase ≠ .over (.result (.error (.validation m))) := by
  refine ⟨?whatever, ?level, ?single, ?dispatched, ?accepted⟩
  case whatever =>
    intro w w' x k c y d reached here boss fanOut checked made new there
    exact childless_of_makesCall leafy reached here boss fanOut checked made new there
  case level =>
    exact fun w id c reached here fanOut checked y => served_of_below leafy reached here fanOut checked
  case single =>
    exact fun tool t inputs w known reached begins y d => begins.served leafy reached known
  case dispatched =>
    intro tool t inputs limit stopAt report ms known reported
    have before := beats_of_dispatch reported
    have calm := calm_of_after (r := r) report ms
    have begins := (begins_of_dispatch known reported).later calm (ordered_of_beats before)
    exact ⟨begins, fun y d => begins.served leafy (before.trans calm.beats).pulses known⟩
  case accepted =>
    intro t inputs m builtIn accepted
    refine ⟨fun ended => noComplaint_of_execute builtIn accepted ended m rfl, ?_⟩
    rintro w x c reached there rfl rfl isOver
    exact noComplaint_of_moves reached there builtIn accepted isOver m rfl

/-- The tools that come with the engine, without a key for any provider. -/
def offlineRegistry : Registry :=
  (((Registry.ofConfig {}).register Tool.echo).register FanOut.tool).register
    (Tool.modelCall (fun _ => none) fun _ _ => { send := .error .authentication })

/-- A query whose inputs look like those of a fan-out. -/
def nestedInputs : Fields Json :=
  [("queries", .arr [.obj [("tool", .str "echo"),
      ("queries", .arr [.obj [("tool", .str FanOut.tool.name)]])]])]

theorem leafy_offline : offlineRegistry.Leafy :=
  (((Registry.leafy_ofConfig {}).register (.inr ⟨_, rfl⟩)).register (.inl rfl)).register
    (.inr ⟨_, rfl⟩)

def nestedCall : World :=
  let (signal, maker, _, w) := callWorld none
  (startCall offlineRegistry w FanOut.tool.name nestedInputs signal none maker).2

/-- The fan-out has hired its worker. -/
def nestedHires : World := (nestedCall.step offlineRegistry).2

/-- The worker has made its call. -/
def nestedSends : World := (nestedHires.step offlineRegistry).2

theorem makesCall_nested : MakesCall offlineRegistry nestedHires 3 nestedSends := by
  have line : nestedHires.ready = [3] := rfl
  obtain ⟨k, here, kept, m, starts⟩ : ∃ k, nestedHires.task? 3 = some (.worker k) ∧
      k.aborted = false ∧ ∃ m, Starts { nestedHires with ready := [] } k m :=
    ⟨_, rfl, rfl, _, .asked rfl rfl (by decide)⟩
  have same : nestedSends = m.beginCalling offlineRegistry 3 k := by
    have popped : task? { nestedHires with ready := [] } 3 = some (.worker k) := here
    rw [← pollWorker_of_starts kept starts, nestedSends, step, line]
    simp only [popped]
  rw [same]
  exact .mk here (by simp [line]) kept starts

theorem fan_outs_nest_once_offline :
    offlineRegistry.Leafy ∧
      (∃ k c d, Moves offlineRegistry {} nestedHires ∧ nestedHires.task? 3 = some (.worker k) ∧
        nestedHires.task? k.gatherer = some (.call c) ∧ c.tool = FanOut.tool ∧ c.unchecked = false ∧
        MakesCall offlineRegistry nestedHires 3 nestedSends ∧ nestedHires.task? 4 = none ∧
        nestedSends.task? 4 = some (.call d) ∧ ∃ work, d.tool.body = .alone work) ∧
      ∃ report w c d, w = report.after offlineRegistry 0 ∧
        dispatch offlineRegistry FanOut.tool.name nestedInputs none none = some report ∧
        Pulses offlineRegistry {} w ∧ Begins FanOut.tool nestedInputs w ∧
        w.task? 2 = some (.call c) ∧ c.tool = FanOut.tool ∧ c.unchecked = false ∧
        w.task? 4 = some (.call d) ∧ w.Below 2 4 ∧ w.Serves 2 4 d ∧ w.Leaf 4 d ∧
        Tool.echo.check d.inputs = .accepted ∧
        execute offlineRegistry Tool.echo d.inputs ≠ some (.result (.error (.validation ""))) := by
  obtain ⟨report, d, reported, there, passed⟩ : ∃ report d,
      dispatch offlineRegistry FanOut.tool.name nestedInputs none none = some report ∧
        (report.after offlineRegistry 0).task? 4 = some (.call d) ∧
        Tool.echo.check d.inputs = .accepted := ⟨_, _, rfl, rfl, rfl⟩
  obtain ⟨whatever, level, single, dispatched, accepted⟩ := fan_outs_nest_once leafy_offline
  obtain ⟨begins, -⟩ :=
    dispatched FanOut.tool.name FanOut.tool nestedInputs none none report 0 rfl reported
  obtain ⟨c, here, fanOut, -, checked⟩ := begins.call
  have reached : Pulses offlineRegistry {} (report.after offlineRegistry 0) :=
    ((beats_of_dispatch reported).trans (calm_of_after report 0).beats).pulses
  obtain ⟨serves, -⟩ :=
    single FanOut.tool.name FanOut.tool nestedInputs _ rfl reached begins 4 d there (by decide)
  have below : (report.after offlineRegistry 0).Below 2 4 := .single ⟨d, serves⟩
  obtain ⟨d', serves', leaf⟩ := level _ 2 c reached here fanOut checked 4 below
  cases serves.1.symm.trans serves'.1
  refine ⟨leafy_offline, ?_, report, _, c, d, rfl, reported, reached, begins, here, fanOut, checked,
    there, below, serves, leaf, passed, (accepted Tool.echo d.inputs "" .echo passed).1⟩
  have called : Moves offlineRegistry {} nestedCall :=
    (moves_of_callWorld none).trans (moves_of_startCall offlineRegistry _ _ nestedInputs _ none _)
  have hires : Move offlineRegistry nestedCall nestedHires := move_of_step rfl
  obtain ⟨k, c₁, d₁, worker, boss, fanOut₁, checked₁, new, sent⟩ : ∃ k c d,
      nestedHires.task? 3 = some (.worker k) ∧ nestedHires.task? k.gatherer = some (.call c) ∧
        c.tool = FanOut.tool ∧ c.unchecked = false ∧ nestedHires.task? 4 = none ∧
        nestedSends.task? 4 = some (.call d) := ⟨_, _, _, rfl, rfl, rfl, rfl, rfl, rfl⟩
  have moved := called.tail hires
  exact ⟨k, c₁, d₁, moved, worker, boss, fanOut₁, checked₁, makesCall_nested, new, sent,
    (whatever _ _ 3 k c₁ 4 d₁ moved worker boss fanOut₁ checked₁ makesCall_nested new sent).1⟩

end World
end Runbook.Schedule
