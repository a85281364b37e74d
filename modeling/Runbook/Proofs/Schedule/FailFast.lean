import Runbook.Proofs.Schedule.FanOut
import Runbook.Proofs.Schedule.Halts

/-!
# A fan-out that does not put up with failures

The worker whose query fails hands its turn on before it tells the fan-out, so the worker that has
waited longest is in line before the fan-out is, and makes its call. All others that wait for a turn
then never get one: the fan-out goes on at the same moment, ends with that failure, and gives them
up.
-/

set_option autoImplicit false

namespace Runbook.Schedule

/-- The end blames the query and its failure. -/
def CallEnd.Blames (e : CallEnd) (q : FanOut.Query) (f : Failure) : Prop :=
  e = .result (.error (.execution
    s!"query {q.index} ({q.tool}) failed: {f.kind.display}: {f.message}"))

theorem blames_firstFailure (q : FanOut.Query) (f : Failure) :
    CallEnd.Blames (.result (.error (FanOut.firstFailure q f))) q f := by
  simp [CallEnd.Blames, FanOut.firstFailure, Failure.display, toString, String.append_assoc]

namespace World

open FanOut (Progress)

variable {r : Registry} {v w w' : World} {me id x : TaskId} {c c' : Call} {k k' : Worker}
  {ready : List TaskId} {plan : FanOut.Plan} {first : TaskId} {p p' : Progress} {q : FanOut.Query}
  {f : Failure}

/-! ## 1. A fan-out that has been told of a failure -/

/-- The fan-out is in line, and the first failure that it will see is this one. -/
structure Failing (w : World) (id : TaskId) (q : FanOut.Query) (f : Failure) : Prop where
  line : id ∈ w.ready
  told : ∃ c plan first p front back, w.task? id = some (.call c) ∧
    c.phase = .gathering plan first p ∧ plan.failFast = true ∧
      p.finished = front ++ (q, .error f) :: back ∧ ∀ a ∈ front, ∃ o, a.2 = .ok o

/-- The fan-out has ended with this failure, or has been given up. -/
def Failed (w : World) (id : TaskId) (q : FanOut.Query) (f : Failure) : Prop :=
  ∃ c e, w.task? id = some (.call c) ∧ c.phase = .over e ∧
    (e.Blames q f ∨ e = .aborted)

theorem Failing.doomed (h : w.Failing id q f) : w.Doomed id := by
  obtain ⟨c, plan, first, p, front, back, here, gathering, fast, finished, -⟩ := h.told
  exact ⟨c, plan, first, p, here, gathering, .failed fast finished⟩

/-- Others have their turns, and it will see the same failure. -/
theorem Failing.turn (h : w.Failing id q f) (turn : Turn r w me ready w') (other : me ≠ id) :
    w'.Failing id q f := by
  obtain ⟨line, c, plan, first, p, front, back, here, gathering, fast, finished, sound⟩ := h
  refine ⟨turn.spares.ready.subset (turn.others id line other.symm), ?_⟩
  obtain ⟨c', there, spared⟩ := turn.spares.call id c other.symm here
  rcases spared.phase with same | ⟨plan', first', p₀, p', before, after, more⟩
  · exact ⟨c', plan, first, p, front, back, there, same.trans gathering, fast, finished, sound⟩
  · cases gathering.symm.trans before
    obtain ⟨rest, grown⟩ := more
    refine ⟨c', plan, first, p', front, back ++ rest, there, after, fast, ?_, sound⟩
    rw [← grown, finished, List.append_assoc, List.cons_append]

/-- **It ends with this failure** when it has its turn, if it has not been given up. -/
theorem Failing.ends (h : w.Failing id q f) (ordered : Ordered r w) (turn : Turn r w id ready w') :
    w'.Failed id q f := by
  obtain ⟨-, c, plan, first, p, front, back, here, gathering, fast, finished, sound⟩ := h
  obtain ⟨⟨answers, gathers⟩, -⟩ := (ordered.sane.calls id c (by simp) here).gathering plan first p
    gathering
  have others (i : Nat) (small : i < plan.queries.length) : first + i ≠ id :=
    gathers.apart here small
  have open_ : World.Open { w with ready } id c := ⟨c, here, by simp [gathering], .refl c⟩
  rw [turn.call c here, pollCall_gathering r _ id gathering]
  split
  · exact ⟨_, .aborted, task?_endCall (open_.abortWorkers others) _, rfl, .inr rfl⟩
  · have looked : Progress.look plan.failFast p.arrived p.finished =
        .error (FanOut.firstFailure q f) := by
      rw [fast, finished]
      exact look_firstFailure sound
    rw [pollGathering, looked]
    exact ⟨_, _, task?_endCall ((open_.fire c.signal).abortWorkers others) _, rfl,
      .inl (blames_firstFailure q f)⟩

theorem Failed.call {e : CallEnd} (h : w.Failed id q f) (here : w.task? id = some (.call c))
    (isOver : c.phase = .over e) : e.Blames q f ∨ e = .aborted := by
  obtain ⟨c', e', there, isOver', which⟩ := h
  cases here.symm.trans there
  cases isOver.symm.trans isOver'
  exact which

/-- **No time passes** before it has ended. -/
theorem Failing.beats (h : w.Failing id q f) (ordered : Ordered r w) (beats : Beats r w w') :
    (w'.now = w.now ∧ w'.Failing id q f) ∨ w'.Failed id q f := by
  induction beats with
  | refl => exact .inl ⟨rfl, h⟩
  | @tail m w' later beat ih =>
    have ordered' := Beats.ordered later ordered
    rcases ih with ⟨now, failing⟩ | ⟨c, e, here, isOver, which⟩
    · rcases beat.turn ordered' with ⟨quiet, -⟩ | ⟨me, ready, -, turn⟩
      · exact absurd failing.line (by simp [quiet])
      · by_cases own : me = id
        · subst own
          exact .inr (failing.ends ordered' turn)
        · exact .inl ⟨turn.spares.now.trans now, failing.turn turn own⟩
    · obtain ⟨c', there, -, kept⟩ := beat.pulse.call ordered' here
      exact .inr ⟨c', e, there, kept e isOver, which⟩

/-- **It does end**: nobody in line before it keeps it from having its turn. -/
theorem Failing.soon (h : w.Failing id q f) (ordered : Ordered r w) :
    ∃ w', Beats r w w' ∧ w'.now = w.now ∧ w'.Failed id q f := by
  obtain ⟨before, after, line⟩ := List.append_of_mem h.line
  induction before generalizing w after with
  | nil =>
    obtain ⟨pause, w₁, stepped⟩ : ∃ pause w₁, w.step r = (pause, w₁) := ⟨_, _, rfl⟩
    have busy : w.ready ≠ [] := by simp [line]
    obtain ⟨me, ready, head, turn⟩ := turn_of_next ordered busy stepped
    obtain rfl : me = id := (List.cons.inj (head.symm.trans line)).1
    exact ⟨w₁, (Beat.next busy stepped).beats, turn.spares.now, h.ends ordered turn⟩
  | cons y before ih =>
    obtain ⟨pause, w₁, stepped⟩ : ∃ pause w₁, w.step r = (pause, w₁) := ⟨_, _, rfl⟩
    have beat : Beat r w w₁ := .next (by simp [line]) stepped
    obtain ⟨ready, after', turn, line'⟩ := turn_in_line ordered line stepped
    by_cases own : y = id
    · subst own
      exact ⟨w₁, beat.beats, turn.spares.now, h.ends ordered turn⟩
    · obtain ⟨w', later, now, failed⟩ := ih (h.turn turn own) (beat.ordered ordered) _ line'
      exact ⟨w', beat.beats.trans later, now.trans turn.spares.now, failed⟩

/-! ## 2. The step at which it is told -/

/-- The worker is the first in line. It goes on and tells its fan-out, which does not put up with
failures, that its query has failed; all that the fan-out has not looked at before is well. -/
structure FirstFails (r : Registry) (v : World) (me : TaskId) (k : Worker) (plan : FanOut.Plan)
    (first : TaskId) (p : Progress) (f : Failure) (w : World) : Prop where
  goes : v.ready.head? = some me ∧ v.step r = (none, w)
  hand : v.task? me = some (.worker k)
  here : ∃ c, v.task? k.gatherer = some (.call c) ∧ c.phase = .gathering plan first p
  fast : plan.failFast = true
  sound : ∀ a ∈ p.finished, ∃ o, a.2 = .ok o
  told : ∃ c p', w.task? k.gatherer = some (.call c) ∧ c.phase = .gathering plan first p' ∧
    p'.finished = p.finished ++ [(k.query, .error f)]

theorem FirstFails.beat (h : v.FirstFails r me k plan first p f w) : Beat r v w := by
  refine .next (fun quiet => ?_) h.goes.2
  have head := h.goes.1
  rw [quiet] at head
  cases head

theorem FirstFails.turn (h : v.FirstFails r me k plan first p f w) (ordered : Ordered r v) :
    ∃ rest, v.ready = me :: rest ∧ Turn r v me rest w := by
  obtain ⟨head, stepped⟩ := h.goes
  have busy : v.ready ≠ [] := by
    rintro quiet
    rw [quiet] at head
    cases head
  obtain ⟨me', rest, line, turn⟩ := turn_of_next ordered busy stepped
  rw [line] at head
  obtain rfl : me' = me := Option.some.inj head
  exact ⟨rest, line, turn⟩

theorem FirstFails.failing (h : v.FirstFails r me k plan first p f w) (ordered' : Ordered r w) :
    w.Failing k.gatherer k.query f := by
  obtain ⟨c, p', there, gathering, finished⟩ := h.told
  obtain ⟨⟨answers, gathers⟩, -⟩ :=
    (ordered'.sane.calls _ c (by simp) there).gathering plan first p'
    gathering
  refine ⟨(gathers.line (by simp [finished])).resolve_left fun h => h, c, plan, first,
    p', p.finished, [],
    there, gathering, h.fast, finished, h.sound⟩

/-- The worker that waits for a turn is in its place, and not given up. -/
theorem FirstFails.place (h : v.FirstFails r me k plan first p f w) (ordered : Ordered r v)
    (worker : v.task? x = some (.worker k')) (gatherer : k'.gatherer = k.gatherer) :
    x = first + k'.query.index ∧ k'.aborted = false := by
  obtain ⟨c, here, gathering⟩ := h.here
  obtain ⟨⟨answers, gathers⟩, -⟩ :=
    (ordered.sane.calls _ c (by simp) here).gathering plan first p gathering
  obtain ⟨i, small, rfl⟩ := gathers.crew x k' worker gatherer
  obtain ⟨k₁, worker', hired, index, -⟩ := gathers.worker small
  cases worker.symm.trans worker'
  exact ⟨by rw [index], hired.aborted⟩

/-- A worker that waits for a turn, and is not the next to have one, goes on waiting. -/
theorem FirstFails.waits (h : v.FirstFails r me k plan first p f w) (ordered : Ordered r v)
    (worker : v.task? x = some (.worker k')) (gatherer : k'.gatherer = k.gatherer)
    (other : x ≠ me) (later : p.next? ≠ some k'.query.index) : w.task? x = some (.worker k') := by
  obtain ⟨c, here, gathering⟩ := h.here
  obtain ⟨rest, -, turn⟩ := h.turn ordered
  have found : World.progress? { v with ready := rest } k.gatherer = some (first, p) :=
    progress?_gathering here gathering
  let S (y : TaskId) : Prop := y = me ∨ y = k.gatherer ∨ ∃ j, p.next? = some j ∧ y = first + j
  have within : Within S { v with ready := rest } w := by
    rw [turn.worker k h.hand]
    refine within_pollWorker (w := { v with ready := rest }) (.inl rfl) h.hand
      (fun first' p₁ now => ?_)
      (fun first' p₁ now => ?_) (fun wait => ordered.sane.waits me k wait h.hand) r
    · cases found.symm.trans now
      exact ⟨.inr (.inl rfl), fun j next => .inr (.inr ⟨j, next, rfl⟩)⟩
    · cases found.symm.trans now
      exact .inl (h.place ordered h.hand rfl).1.symm
  refine within.keptWorker (fun inside => ?_) worker
  rcases inside with mine | rfl | ⟨j, next, rfl⟩
  · exact other mine
  · cases worker.symm.trans here
  · have place := (h.place ordered worker gatherer).1
    rw [Nat.add_left_cancel place] at next
    exact later next

/-- **Who waits for a turn** at the step is held after it, unless it is the one that the turn goes
to and the fan-out was not yet in line. -/
theorem FirstFails.held (h : v.FirstFails r me k plan first p f w) (ordered : Ordered r v)
    (worker : v.task? x = some (.worker k')) (gatherer : k'.gatherer = k.gatherer)
    (queued : k'.phase = .queued) (late : p.next? ≠ some k'.query.index ∨ p.finished ≠ []) :
    w.Held k.gatherer x := by
  have ordered' := h.beat.ordered ordered
  have failing := h.failing ordered'
  obtain ⟨rest, line, turn⟩ := h.turn ordered
  have idle {m : World} {k₁ : Worker} (orderly : Ordered r m) (here : m.task? x = some (.worker k₁))
      (waits : k₁.phase = .queued) (kept : k₁.aborted = false) : x ∉ m.ready := fun inside => by
    obtain ⟨t, there, given⟩ := orderly.tidy.rousable x inside
    cases here.symm.trans there
    cases kept.symm.trans (given k₁ rfl waits)
  have kept := (h.place ordered worker gatherer).2
  have absent := idle ordered worker queued kept
  have other : x ≠ me := by
    rintro rfl
    exact absent (by simp [line])
  rcases late with later | looks
  · have there := h.waits ordered worker gatherer other later
    obtain ⟨before, after, line'⟩ := List.append_of_mem failing.line
    have absent' := idle ordered' there queued kept
    rw [← gatherer]
    refine ordered'.held there (by simp [queued, WorkerPhase.Begun])
      (.inr ⟨gatherer ▸ failing.doomed,
      before, after, gatherer ▸ line', fun inside => absent' ?_⟩)
    rw [line']
    exact List.mem_append_left _ inside
  · -- the fan-out was in line already, and so before all that have come into line since
    obtain ⟨c, here, gathering⟩ := h.here
    obtain ⟨⟨answers, gathers⟩, -⟩ := (ordered.sane.calls _ c (by simp) here).gathering plan first p
      gathering
    have inside : k.gatherer ∈ rest := by
      refine turn.others _ ((gathers.line looks).resolve_left fun h => h) fun same => ?_
      rw [same, h.hand] at here
      cases here
    obtain ⟨before, after, line'⟩ := List.append_of_mem inside
    obtain ⟨more, grown⟩ := turn.spares.ready
    have grown : w.ready = rest ++ more := grown.symm
    obtain ⟨k₁, there, spared⟩ := turn.spares.worker x k' other worker
    have early : ¬ k₁.phase.Begun := by
      rcases spared.phase with same | ⟨-, admitted⟩
      · simp [same, queued, WorkerPhase.Begun]
      · simp [admitted, WorkerPhase.Begun]
    have same : k₁.gatherer = k.gatherer := spared.gatherer.trans gatherer
    rw [← same]
    refine ordered'.held there early (.inr ⟨same ▸ failing.doomed, before, after ++ more, ?_,
      fun before' => absent ?_⟩)
    · rw [grown, line', same, List.append_assoc, List.cons_append]
    · rw [line, line']
      exact List.mem_cons_of_mem me (List.mem_append_left _ before')

/-! ## 3. What comes of it -/

/-- **A failure stops the workers that wait.** From the step on at which a fan-out that does not put
up with failures is told of the first one, no worker makes a call that waits for a turn; only the
one that is handed the turn of the worker that failed may do so, and only if the fan-out was not in
line already. At the same moment the fan-out ends with that failure, unless it has been given up. -/
theorem failure_stops_queued (reached : Beats r {} v)
    (fails : v.FirstFails r me k plan first p f w) :
    (∀ x k', v.task? x = some (.worker k') → k'.gatherer = k.gatherer → k'.phase = .queued →
        p.next? ≠ some k'.query.index ∨ p.finished ≠ [] →
        ∀ w' y c, Beats r w w' → w'.task? y = some (.call c) → c.caller ≠ x) ∧
      (∃ w', Beats r w w' ∧ w'.now = w.now ∧ w'.Failed k.gatherer k.query f) ∧
      ∀ w' c, Beats r w w' → w'.task? k.gatherer = some (.call c) →
        (w.now < w'.now → ∃ e, c.phase = .over e) ∧
          ∀ e, c.phase = .over e → e.Blames k.query f ∨ e = .aborted := by
  have ordered := ordered_of_beats reached
  have ordered' := fails.beat.ordered ordered
  have failing := fails.failing ordered'
  refine ⟨fun x k' worker gatherer queued late w' y c later call => ?_, failing.soon ordered',
    fun w' c later there => ⟨fun ahead => ?_, fun e isOver => ?_⟩⟩
  · exact ((fails.held ordered worker gatherer queued late).beats ordered' later).idle y c call
  · rcases failing.beats ordered' later with ⟨now, -⟩ | ⟨c', e, there', isOver, -⟩
    · omega
    · cases there.symm.trans there'
      exact ⟨e, isOver⟩
  · rcases failing.beats ordered' later with
      ⟨-, -, c', _, _, _, _, _, there', gathering, -⟩ | failed
    · cases there.symm.trans there'
      cases gathering.symm.trans isOver
    · exact failed.call there isOver

/-- It does not do what it is told to. -/
def failTool : Tool where
  name := "fail"
  check _ := .accepted
  body := .alone fun _ => { result := .error (.execution "no") }

def failRegistry : Registry := (sayRegistry.register failTool).register FanOut.tool

/-- The first of three queries fails, and they have one turn at a time. -/
def failInputs : Fields Json :=
  [("queries", .arr [.obj [("tool", .str "fail")], .obj [("tool", .str "say")],
      .obj [("tool", .str "say")]]),
    ("max_workers", .nat 1), ("fail_fast", .bool true)]

def failCall : World :=
  let (signal, maker, _, w) := callWorld none
  (startCall failRegistry w FanOut.tool.name failInputs signal none maker).2

/-- The call for the first query has failed, and its worker is in line. -/
def failWaits : World := (failCall.settle failRegistry 5).2

def failTold : World := (failWaits.step failRegistry).2

/-- The fan-out has ended. -/
def failGone : World := (failTold.settle failRegistry 3).2

theorem beats_failWaits : Beats failRegistry {} failWaits := by
  obtain ⟨came, client⟩ := beats_of_callWorld (r := failRegistry) none
  have called : Beats failRegistry {} failCall :=
    came.trans (beats_of_startCall client FanOut.tool.name failInputs _ none)
  obtain ⟨_, _, passes, rfl⟩ :=
    passes_settle (rfl : failCall.settle failRegistry 5 = (.quiet, failWaits))
  exact called.trans (beats_of_passes passes)

/-- The worker of the first query tells of its failure, and hands its turn to that of the second. -/
theorem firstFails_failTold : ∃ k plan p, k.gatherer = 2 ∧ k.query.index = 0 ∧ p.next? = some 1 ∧
    failWaits.FirstFails failRegistry 3 k plan 3 p ⟨.toolExecution, "no"⟩ failTold := by
  obtain ⟨k, c, plan, p, c', p', hand, gatherer, index, next, here, gathering, fast,
    finished, there,
    gathering', told⟩ : ∃ k c plan p c' p', failWaits.task? 3 = some (.worker k) ∧ k.gatherer = 2 ∧
      k.query.index = 0 ∧ p.next? = some 1 ∧ failWaits.task? 2 = some (.call c) ∧
      c.phase = .gathering plan 3 p ∧ plan.failFast = true ∧ p.finished = [] ∧
      failTold.task? 2 = some (.call c') ∧ c'.phase = .gathering plan 3 p' ∧
      p'.finished = p.finished ++ [(k.query, .error ⟨.toolExecution, "no"⟩)] :=
    ⟨_, _, _, _, _, _, rfl, rfl, rfl, rfl, rfl, rfl, rfl, rfl, rfl, rfl, rfl⟩
  exact ⟨k, plan, p, gatherer, index, next, ⟨rfl, rfl⟩, hand, ⟨c, gatherer ▸ here, gathering⟩, fast,
    by simp [finished], c', p', gatherer ▸ there, gathering', told⟩

theorem failure_stops_queued_third :
    ∃ k plan p k', Beats failRegistry {} failWaits ∧
      failWaits.FirstFails failRegistry 3 k plan 3 p ⟨.toolExecution, "no"⟩ failTold ∧
      (failWaits.task? 5 = some (.worker k') ∧ k'.gatherer = k.gatherer ∧ k'.phase = .queued ∧
        p.next? ≠ some k'.query.index) ∧
      (∀ w' y c, Beats failRegistry failTold w' → w'.task? y = some (.call c) → c.caller ≠ 5) ∧
      ∃ w', Beats failRegistry failTold w' ∧
        w'.Failed k.gatherer k.query ⟨.toolExecution, "no"⟩ := by
  obtain ⟨k, plan, p, gatherer, -, next, fails⟩ := firstFails_failTold
  obtain ⟨k', worker, gatherer', queued, index⟩ : ∃ k', failWaits.task? 5 = some (.worker k') ∧
      k'.gatherer = 2 ∧ k'.phase = .queued ∧ k'.query.index = 2 := ⟨_, rfl, rfl, rfl, rfl⟩
  have same : k'.gatherer = k.gatherer := gatherer'.trans gatherer.symm
  have later : p.next? ≠ some k'.query.index := by simp [next, index]
  obtain ⟨never, ⟨w', beats, -, failed⟩, -⟩ := failure_stops_queued beats_failWaits fails
  exact ⟨k, plan, p, k', beats_failWaits, fails, ⟨worker, same, queued, later⟩,
    never 5 k' worker same queued (.inl later), w', beats, failed⟩

/-- **The next one makes its call**, and it comes to its end. -/
theorem next_one_called_after_failure :
    ¬ ∀ (r : Registry) (v w w' : World) (me x y : TaskId) (k k' : Worker) (plan : FanOut.Plan)
        (first : TaskId) (p : Progress) (f : Failure) (c : Call),
      Beats r {} v → v.FirstFails r me k plan first p f w → v.task? x = some (.worker k') →
      k'.gatherer = k.gatherer → k'.phase = .queued → Beats r w w' →
      w'.task? y = some (.call c) → c.caller = x → ∀ o, c.phase ≠ .over (.result (.ok o)) := by
  intro never
  obtain ⟨k, plan, p, gatherer, -, -, fails⟩ := firstFails_failTold
  obtain ⟨k', worker, gatherer', queued⟩ : ∃ k', failWaits.task? 4 = some (.worker k') ∧
      k'.gatherer = 2 ∧ k'.phase = .queued := ⟨_, rfl, rfl, rfl⟩
  obtain ⟨c, o, call, caller, isOver⟩ : ∃ c o, failGone.task? 7 = some (.call c) ∧ c.caller = 4 ∧
      c.phase = .over (.result (.ok o)) := ⟨_, _, rfl, rfl, rfl⟩
  obtain ⟨_, _, passes, rfl⟩ :=
    passes_settle (rfl : failTold.settle failRegistry 3 = (.quiet, failGone))
  exact never _ _ _ _ _ _ _ k k' plan 3 p _ c beats_failWaits fails worker
    (gatherer'.trans gatherer.symm) queued (beats_of_passes passes) call caller o isOver

end World
end Runbook.Schedule
