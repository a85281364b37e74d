import Runbook.Proofs.Schedule.Turns

/-!
# What a fan-out says of its queries

A fan-out ends with an output that has an entry for each query, or with the first failure of one, or
without a word about them. What it says has come of a query has come of it; in particular it says that
the tool of a query is unknown only if there is no such tool (`Concludes`), in whatever order things
happen (`Honest.move`).

A fan-out whose inputs are rejected says nothing of its queries. So it has to be known of every call
that goes on that its inputs were accepted.
-/

set_option autoImplicit false

namespace Runbook

/-- The outcome of a query says that its tool is unknown only if there is no such tool. -/
def FanOut.Candid (r : Registry) (q : FanOut.Query) (o : FanOut.Outcome) : Prop :=
  ∀ f, o = .error f → f.kind = .unknownTool → r.tool? q.tool = none

namespace Schedule

open FanOut (Candid Reports)

/-- No end of a call says that a tool is unknown: there has been one. -/
theorem CallEnd.known (e : CallEnd) (tool : String) :
    ∀ f, e.outcome tool = .error f → f.kind ≠ .unknownTool := by
  intro f failed
  cases e with
  | result x =>
    cases x with
    | ok => cases failed
    | error e => cases e <;> (cases failed; simp [ToolError.failure])
  | timedOut | panicked | aborted =>
    cases failed
    simp [ToolError.failure]

/-- The ends of a call that has other tools work for it. -/
inductive Concludes (r : Registry) (c : Call) : CallEnd → Prop where
  | aborted : Concludes r c .aborted
  | late (limitMs : Nat) : Concludes r c (.timedOut limitMs)
  | rejected {e : ToolError} (h : c.tool.check c.inputs = .rejected e) :
      Concludes r c (.result (.error e))
  | panicked (h : c.tool.check c.inputs = .panics) : Concludes r c .panicked
  | unplanned {e : ToolError} (h : FanOut.plan r.maxFanOut c.inputs = .error e) :
      Concludes r c (.result (.error e))
  /-- A query failed. -/
  | failed {plan : FanOut.Plan} {q : FanOut.Query} {f : Failure} (accepted : c.Accepted)
      (planned : FanOut.plan r.maxFanOut c.inputs = .ok plan)
      (there : plan.queries[q.index]? = some q) (candid : Candid r q (.error f)) :
      Concludes r c (.result (.error (FanOut.firstFailure q f)))
  | gathered {plan : FanOut.Plan} {outcomes : List FanOut.Outcome} {o : ToolOutput}
      (accepted : c.Accepted) (planned : FanOut.plan r.maxFanOut c.inputs = .ok plan)
      (candid : List.Forall₂ (Candid r) plan.queries outcomes)
      (reports : Reports plan.queries outcomes o) : Concludes r c (.result (.ok o))

variable {r : Registry} {c c' : Call} {e : CallEnd}

theorem Concludes.alike (h : Concludes r c e) (alike : c.Alike c') : Concludes r c' e := by
  cases h with
  | aborted => exact .aborted
  | late ms => exact .late ms
  | rejected h => exact .rejected (by rwa [alike.tool, alike.inputs])
  | panicked h => exact .panicked (by rwa [alike.tool, alike.inputs])
  | unplanned h => exact .unplanned (by rwa [alike.inputs])
  | failed accepted planned there candid =>
    exact .failed (accepted.alike alike) (by rwa [alike.inputs]) there candid
  | gathered accepted planned candid reports =>
    exact .gathered (accepted.alike alike) (by rwa [alike.inputs]) candid reports

namespace World

variable {w w' : World} {id : TaskId} {plan : FanOut.Plan} {first : TaskId} {p : FanOut.Progress}
  {answers : List FanOut.Answer}

/-! ## 1. A fan-out goes on -/

/-- If the call has ended, it has done so as a fan-out does. -/
def Concluded (r : Registry) (w : World) (id : TaskId) (c : Call) : Prop :=
  ∀ c' e, w.task? id = some (.call c') → c'.phase = .over e → Concludes r c e

theorem Concluded.of_tasks (h : Concluded r w id c) (tasks : w'.tasks = w.tasks) :
    Concluded r w' id c :=
  fun c' e there => h c' e ((congrArg (·[id]?) tasks).symm.trans there)

theorem concluded_endCall (here : w.Open id c) (concludes : Concludes r c e) :
    Concluded r (w.endCall id c e) id c := by
  intro c' e' there isOver
  cases (task?_endCall here e).symm.trans there
  cases isOver
  exact concludes

theorem Dispatched.candid {q : FanOut.Query} {o : FanOut.Outcome} (h : Dispatched r w id q o) :
    Candid r q o := by
  intro f failed kind
  cases h with
  | unknown missing => exact missing
  | called _ _ _ _ told =>
    rw [told.eq_outcome] at failed
    exact absurd kind (CallEnd.known _ q.tool f failed)

theorem Answers.candid {s : Signal} {q : FanOut.Query} {o : FanOut.Outcome}
    (h : Answers r w id s q o) : Candid r q o := by
  cases h with
  | dispatched h => exact h.candid
  | stopped =>
    intro f failed kind
    cases failed
    cases kind

theorem concluded_pollGathering (accepted : c.Accepted)
    (h : Gathers r (fun x => x = id) w id c plan first p answers) (here : w.Open id c) :
    Concluded r (w.pollGathering id c plan first p) id c := by
  have apart := h.ne_of_open here
  unfold pollGathering
  split
  · next e failed =>
    obtain ⟨-, q, f, finished, rfl⟩ := look_error failed
    obtain ⟨front, whole, -⟩ := h.arrived
    have answered : (q, .error f) ∈ answers := whole ▸ List.mem_append_right _ finished
    exact concluded_endCall ((here.fire c.signal).abortWorkers apart)
      (.failed accepted h.planned (h.known _ answered) (h.told _ answered).candid)
  · next arrived looked =>
    split
    · next full =>
      obtain rfl := h.arrived_eq looked
      rw [List.length_map] at full
      have once : FanOut.AnsweredOnce plan.queries answers := ⟨h.known, h.once, full⟩
      obtain ⟨outcomes, each, reports⟩ :=
        FanOut.reports_assemble once (FanOut.indexed_of_plan h.planned)
      exact concluded_endCall here (.gathered accepted h.planned
        (each.imp fun q o answered => (h.told _ answered).candid) reports)
    · split
      · exact concluded_endCall (here.abortWorkers apart) (.late _)
      · intro c' e there isOver
        obtain ⟨c₀, before, -⟩ := here
        cases (task?_setTask_self before).symm.trans there
        cases isOver

theorem concluded_beginFanOut (accepted : c.Accepted) (here : w.Open id c)
    (nobody : ∀ x k, w.task? x = some (.worker k) → k.gatherer ≠ id) :
    Concluded r (w.beginFanOut r id c) id c := by
  cases planned : FanOut.plan r.maxFanOut c.inputs with
  | error e =>
    rw [beginFanOut, planned]
    exact concluded_endCall here (.unplanned planned)
  | ok plan =>
    rw [beginFanOut_eq planned]
    have gathered := concluded_pollGathering accepted (gathers_hire planned nobody)
      (here.hire id c.signal plan.queries)
    refine gathered.of_tasks ?_
    unfold setDeadline
    split <;> rfl

/-- **A fan-out that goes on** ends, if it does, as a fan-out does. -/
theorem concluded_pollCall (here : w.task? id = some (.call c)) (unfinished : ∀ e, c.phase ≠ .over e)
    (body : c.tool.body = .fanOut) (admitted : c.Accepted ∨ c.phase = .fresh)
    (poised : Poised r w id c) : Concluded r (w.pollCall r id c) id c := by
  have open_ : w.Open id c := ⟨c, here, unfinished, .refl c⟩
  have begins (accepted : c.Accepted) (now : c.phase = .fresh) :
      Concluded r (w.begin r id c) id c := by
    have timed : c.Alike { c with deadline := c.limit.map (w.now + ·) } :=
      ⟨rfl, rfl, rfl, rfl, rfl, rfl⟩
    unfold begin
    dsimp only
    rw [body]
    have concluded := concluded_beginFanOut (r := r) (accepted.alike timed) (open_.alike timed)
      (poised.nobody now)
    exact fun c' e there isOver => (concluded c' e there isOver).alike timed.symm
  unfold pollCall
  split
  · next isOver => exact absurd isOver (unfinished _)
  · split
    · unfold endAborted
      dsimp only
      split
      · next plan first p now =>
        obtain ⟨answers, gathers⟩ := poised.gathering plan first p now
        exact concluded_endCall (open_.abortWorkers fun i small => gathers.apart here small) .aborted
      · exact concluded_endCall open_ .aborted
    · split
      · next now =>
        unfold pollFresh
        split
        · next unchecked => exact begins (.inl unchecked) now
        · split
          · next passed => exact begins (.inr passed) now
          · next e rejected => exact concluded_endCall open_ (.rejected rejected)
          · next panics => exact concluded_endCall open_ (.panicked panics)
      · next moment work now => exact absurd body (poised.waiting moment work now)
      · next plan first p now =>
        obtain ⟨answers, gathers⟩ := poised.gathering plan first p now
        have accepted : c.Accepted := admitted.resolve_right (by simp [now])
        exact concluded_pollGathering accepted gathers open_
      · next isOver => exact absurd isOver (unfinished _)

/-- A call whose inputs are not accepted ends when it goes on. -/
theorem over_of_rejected (here : w.task? id = some (.call c)) (fresh : c.phase = .fresh)
    (rejected : ¬ c.Accepted) (there : (w.pollCall r id c).task? id = some (.call c')) :
    ∃ e, c'.phase = .over e := by
  have open_ : w.Open id c := ⟨c, here, by simp [fresh], .refl c⟩
  have ended {e : CallEnd} (there : (w.endCall id c e).task? id = some (.call c')) :
      ∃ e, c'.phase = .over e := by
    cases (task?_endCall open_ e).symm.trans there
    exact ⟨e, rfl⟩
  unfold pollCall at there
  rw [fresh] at there
  dsimp only at there
  split at there
  · unfold endAborted at there
    rw [fresh] at there
    exact ended there
  · unfold pollFresh at there
    split at there
    · next unchecked => exact absurd (.inl unchecked) rejected
    · split at there
      · next passed => exact absurd (.inr passed) rejected
      · exact ended there
      · exact ended there

/-! ## 2. Whatever happens -/

/-- What a call has come to is true of it. -/
structure Honest (r : Registry) (w : World) : Prop where
  sane : Sane r none w
  /-- A call that goes on has had its inputs accepted. -/
  admits : ∀ id c, w.task? id = some (.call c) →
    c.Accepted ∨ c.phase = .fresh ∨ ∃ e, c.phase = .over e
  ends : ∀ id c e, w.task? id = some (.call c) → c.tool.body = .fanOut → c.phase = .over e →
    Concludes r c e

theorem honest_empty (r : Registry) : Honest r {} := by
  have nobody (x : TaskId) (t : Task) : ({} : World).task? x ≠ some t := by simp [task?]
  exact ⟨sane_empty r, fun _ _ h => absurd h (nobody _ _), fun _ _ _ h => absurd h (nobody _ _)⟩

/-- **One move.** -/
theorem Honest.move (h : Honest r w) (move : Move r w w') : Honest r w' where
  sane := (advances_of_move h.sane move).sane
  admits id c' there := by
    rcases moved_of_move h.sane move there with fresh | ⟨c, here, alike, moved⟩
    · exact .inr (.inl fresh)
    by_cases accepted : c.Accepted
    · exact .inl (accepted.alike alike)
    obtain ⟨c₁, there₁, grows, -⟩ := (advances_of_move h.sane move).calls id c here
    cases there.symm.trans there₁
    rcases (h.admits id c here).resolve_left accepted with fresh | ⟨e, isOver⟩
    · cases moved with
      | @own ready _ goes =>
        subst goes
        exact .inr (.inr (over_of_rejected (w := { w with ready }) here fresh accepted there))
      | kept kept => cases kept <;> exact .inr (.inl fresh)
      | worker _ _ begun => exact absurd fresh begun
    · exact .inr (.inr ⟨e, grows.isOver e isOver⟩)
  ends id c' e there body isOver := by
    obtain ⟨c, here, alike, how⟩ := ends_of_move h.sane move there isOver
    have body : c.tool.body = .fanOut := alike.tool ▸ body
    rcases how with before | ⟨unfinished, ready, poised, rfl⟩
    · exact (h.ends id c e here body before).alike alike
    · have admitted : c.Accepted ∨ c.phase = .fresh :=
        (h.admits id c here).imp_right fun rest => rest.resolve_right fun ⟨e, now⟩ => unfinished e now
      exact (concluded_pollCall (w := { w with ready }) here unfinished body admitted poised c' e there
        isOver).alike alike

theorem Honest.moves (h : Honest r w) (moves : Moves r w w') : Honest r w' := by
  induction moves with
  | refl => exact h
  | tail _ move ih => exact ih.move move

/-- Nobody's call is concerned. -/
theorem Honest.within (h : Honest r w) (within : Within (fun _ => False) w w') : Honest r w' where
  sane := h.sane.within within fun _ h => h.elim
  admits id c there := by
    rcases within.wasCall (fun h => h) there with ⟨fresh, -⟩ | ⟨c₀, here, alike, phase⟩
    · exact .inr (.inl fresh)
    · rw [phase]
      exact (h.admits id c₀ here).imp_left (·.alike alike)
  ends id c e there body isOver := by
    rcases within.wasCall (fun h => h) there with ⟨fresh, -⟩ | ⟨c₀, here, alike, phase⟩
    · cases fresh.symm.trans isOver
    · exact (h.ends id c₀ e here (alike.tool ▸ body) (phase.symm.trans isOver)).alike alike

/-! ## 3. What stays -/

/-- Someone outside has this task. -/
def IsClient (w : World) (id : TaskId) : Prop := ∃ watched, w.task? id = some (.client watched)

theorem Acts.outside {L : Leave} (h : Acts L w w') (there : w.IsClient id) : w'.IsClient id := by
  induction h with
  | refl => exact there
  | tail _ act ih =>
    obtain ⟨watched, here⟩ := ih
    cases act.became id with
    | same same => exact ⟨watched, same.trans here⟩
    | call here' | worker here' => cases here.symm.trans here'
    | hired none | made none => cases here.symm.trans none

theorem Idle.outside (h : Idle w w') (there : w.IsClient id) : w'.IsClient id := by
  obtain ⟨watched, here⟩ := there
  obtain ⟨t, there, kept⟩ := h.kept id _ here
  cases kept with
  | same => exact ⟨watched, there⟩
  | watched _ now => exact ⟨now, there⟩

theorem Move.outside (h : Move r w w') (sane : Sane r none w) (there : w.IsClient id) :
    w'.IsClient id := by
  rcases h.split with ⟨x, c, ready, here, -, rfl⟩ | ⟨x, k, ready, here, others, rfl⟩ | idle
  · have acts := acts_call (w := { w with ready }) r here
    exact acts.outside there
  · obtain ⟨calls, -, acts⟩ := acts_worker sane here others
    exact acts.outside there
  · exact idle.outside there

/-- The world goes on: calls remain what they are, those outside stay there, and what a call has come
to is true of it. -/
structure Onward (r : Registry) (w w' : World) : Prop where
  honest : Honest r w'
  calls : ∀ x c, w.task? x = some (.call c) → ∃ c', w'.task? x = some (.call c') ∧ c.Grows c'
  clients : ∀ x, w.IsClient x → w'.IsClient x

theorem Onward.refl (h : Honest r w) : Onward r w w :=
  ⟨h, fun _ c here => ⟨c, here, .refl c⟩, fun _ there => there⟩

theorem Onward.trans {w'' : World} (first : Onward r w w') (later : Onward r w' w'') :
    Onward r w w'' where
  honest := later.honest
  calls x c here := by
    obtain ⟨c', there, grows⟩ := first.calls x c here
    obtain ⟨c'', there', grows'⟩ := later.calls x c' there
    exact ⟨c'', there', grows.trans grows'⟩
  clients x there := later.clients x (first.clients x there)

theorem Honest.onward (h : Honest r w) (moves : Moves r w w') : Onward r w w' := by
  induction moves with
  | refl => exact .refl h
  | tail _ move ih =>
    have sane := ih.honest.sane
    refine ih.trans ⟨ih.honest.move move, fun x c here => ?_, fun x => move.outside sane⟩
    obtain ⟨c', there, grows, -⟩ := (advances_of_move sane move).calls x c here
    exact ⟨c', there, grows⟩

/-- Someone outside watches another signal. -/
theorem Honest.watch (h : Honest r w) (there : w.IsClient id) (watched : Option Signal) :
    Onward r w (w.setTask id (.client watched)) := by
  obtain ⟨before, here⟩ := there
  have within : Within (fun _ => False) w (w.setTask id (.client watched)) :=
    within_set here rfl (fun _ h => h) rfl (fun _ => .watched before watched) (by simp) (by simp)
  refine ⟨h.within within, fun x c here => ?_, fun x there => within.idle.outside there⟩
  obtain ⟨c', there, grows, -⟩ := within.calls x c here
  exact ⟨c', there, grows⟩

end World
end Schedule
end Runbook
