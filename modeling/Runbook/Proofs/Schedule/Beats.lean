import Runbook.Proofs.Schedule.Aftermath

/-!
# First in, first out

A *beat* is one thing that happens when tasks go on in the order of the line: the first in line goes
on, time passes when nobody is in line, or someone outside does something. A *pulse* is the same but
for the order: anyone in line may go on. Unlike moves, both know who is in line, and that no time
passes while somebody is.

`Ordered` is what every row of pulses keeps, and so every row of beats: workers of a fan-out that has ended have ended too or
have been given up; whoever has been given up is in line, as is a call that heeds a signal that has
fired; and a worker looks after the call that it has made, or the call's signal has fired.
-/

set_option autoImplicit false

namespace Runbook.Schedule.World

variable {r : Registry} {hires makes : Prop} {w w' w'' : World} {me id x y : TaskId} {c c' : Call}
  {k k' : Worker} {ready : List TaskId}

/-! ## 1. Beats -/

/-- One thing that happens when tasks go on in the order of the line. -/
inductive Beat (r : Registry) (w : World) : World → Prop where
  /-- The first in line goes on, if it is no client. -/
  | next {pause : Option Pause} {w' : World} (busy : w.ready ≠ []) (h : w.step r = (pause, w')) :
      Beat r w w'
  | tick {w' : World} (quiet : w.ready = []) (h : w.advance? = some w') : Beat r w w'
  /-- Someone outside does something: wakes others, fires a signal, makes or gives up calls. -/
  | outside {me : TaskId} {w' : World} (call : ¬ w.HasCall me) (worker : ¬ w.HasWorker me)
      (h : Deed False True me w w') : Beat r w w'

/-- Any number of beats. -/
def Beats (r : Registry) : World → World → Prop := Relation.ReflTransGen (Beat r)

theorem Beats.refl (w : World) : Beats r w w := Relation.ReflTransGen.refl

theorem Beat.beats (h : Beat r w w') : Beats r w w' := Relation.ReflTransGen.single h

theorem Beats.trans (first : Beats r w w') (later : Beats r w' w'') : Beats r w w'' :=
  Relation.ReflTransGen.trans first later

/-- Who goes on when the line is not empty. -/
inductive Goer (r : Registry) (w : World) (id : TaskId) (rest : List TaskId) : World → Prop where
  | call {c : Call} (here : w.task? id = some (.call c)) :
      Goer r w id rest (pollCall { w with ready := rest } r id c)
  | worker {k : Worker} (here : w.task? id = some (.worker k)) :
      Goer r w id rest (pollWorker { w with ready := rest } r id k)
  | client (call : ∀ c, w.task? id ≠ some (.call c)) (worker : ∀ k, w.task? id ≠ some (.worker k)) :
      Goer r w id rest { w with ready := rest }

theorem goer_of_step {pause : Option Pause} {rest : List TaskId} (line : w.ready = id :: rest)
    (h : w.step r = (pause, w')) : Goer r w id rest w' := by
  rw [step, line] at h
  dsimp only at h
  split at h
  · next c here =>
    cases h
    exact .call here
  · next k here =>
    cases h
    exact .worker here
  · next s here =>
    cases h
    have apart {t : Task} (h : t ≠ .client s) : w.task? id ≠ some t := fun some =>
      h (Option.some.inj (some.symm.trans here))
    exact .client (fun c => apart (by simp)) fun k => apart (by simp)
  · next here =>
    cases h
    exact .client (fun c some => by cases here.symm.trans some)
      fun k some => by cases here.symm.trans some

/-- The first in line goes on. -/
theorem goer_of_next {pause : Option Pause} (busy : w.ready ≠ []) (h : w.step r = (pause, w')) :
    ∃ id rest, w.ready = id :: rest ∧ Goer r w id rest w' := by
  obtain ⟨id, rest, line⟩ := List.exists_cons_of_ne_nil busy
  exact ⟨id, rest, line, goer_of_step line h⟩

theorem Goer.move {rest : List TaskId} (others : ∀ x ∈ w.ready, x ≠ id → x ∈ rest)
    (h : Goer r w id rest w') : Move r w w' := by
  cases h with
  | call here => exact .call here others
  | worker here => exact .worker here others
  | client call worker => exact .client call worker others

/-! ## 2. In any order -/

/-- One thing that happens when tasks go on in any order. -/
inductive Pulse (r : Registry) (w : World) : World → Prop where
  /-- Someone in line goes on, if it is no client. -/
  | next {id : TaskId} {w' : World} (there : id ∈ w.ready)
      (h : Goer r w id (w.ready.erase id) w') : Pulse r w w'
  | tick {w' : World} (quiet : w.ready = []) (h : w.advance? = some w') : Pulse r w w'
  /-- Someone outside does something: wakes others, fires a signal, makes or gives up calls. -/
  | outside {me : TaskId} {w' : World} (call : ¬ w.HasCall me) (worker : ¬ w.HasWorker me)
      (h : Deed False True me w w') : Pulse r w w'

/-- Any number of pulses. -/
def Pulses (r : Registry) : World → World → Prop := Relation.ReflTransGen (Pulse r)

theorem Pulses.refl (w : World) : Pulses r w w := Relation.ReflTransGen.refl

theorem Pulse.pulses (h : Pulse r w w') : Pulses r w w' := Relation.ReflTransGen.single h

theorem Pulses.trans (first : Pulses r w w') (later : Pulses r w' w'') : Pulses r w w'' :=
  Relation.ReflTransGen.trans first later

/-- The order of the line is one of all. -/
theorem Beat.pulse (h : Beat r w w') : Pulse r w w' := by
  cases h with
  | next busy stepped =>
    obtain ⟨id, rest, line, goer⟩ := goer_of_next busy stepped
    have there : id ∈ w.ready := by simp [line]
    refine .next there ?_
    rwa [line, List.erase_cons_head]
  | tick quiet moved => exact .tick quiet moved
  | outside call worker deed => exact .outside call worker deed

theorem Beats.pulses (h : Beats r w w') : Pulses r w w' :=
  Relation.ReflTransGen.mono (fun _ _ => Beat.pulse) _ _ h

/-! ## 3. What is kept -/

/-- What every row of pulses keeps. -/
structure Ordered (r : Registry) (w : World) : Prop where
  sane : Sane r none w
  tidy : w.Tidy
  /-- A worker that has a call has made it. -/
  callers : ∀ y c, w.task? y = some (.call c) →
    ∃ t, w.task? c.caller = some t ∧ ∀ k, t = .worker k → k.phase.Begun
  crew : ∀ x k, w.task? x = some (.worker k) →
    ∃ c, w.task? k.gatherer = some (.call c) ∧ c.tool.body = .fanOut
  given : ∀ x k, w.task? x = some (.worker k) → k.aborted = true → k.phase ≠ .over → x ∈ w.ready
  quit : ∀ id c e, w.task? id = some (.call c) → c.phase = .over e →
    ∀ x k, w.task? x = some (.worker k) → k.gatherer = id → k.phase = .over ∨ k.aborted = true
  heeds : ∀ x c moment work, w.task? x = some (.call c) → c.phase = .waiting moment work →
    work.heedsStop = true → w.isStopped c.signal = true → x ∈ w.ready
  attended : ∀ y c k, w.task? y = some (.call c) → w.task? c.caller = some (.worker k) →
    w.Attended y c k

theorem ordered_empty (r : Registry) : Ordered r {} := by
  have nobody (x : TaskId) (t : Task) : ({} : World).task? x ≠ some t := by simp [task?]
  exact {
    sane := sane_empty r
    tidy := ⟨.nil, by simp, .nil, by simp⟩
    callers := fun _ _ h => absurd h (nobody _ _)
    crew := fun _ _ h => absurd h (nobody _ _)
    given := fun _ _ h => absurd h (nobody _ _)
    quit := fun _ _ _ h => absurd h (nobody _ _)
    heeds := fun _ _ _ _ h => absurd h (nobody _ _)
    attended := fun _ _ _ h => absurd h (nobody _ _) }

/-- What is to be known of the task that has gone on. -/
structure Own (me : TaskId) (w w' : World) : Prop where
  stays : ∀ c c' e, w.task? me = some (.call c) → w'.task? me = some (.call c') →
    c.phase = .over e → c'.phase = .over e
  heeds : ∀ c moment work, w'.task? me = some (.call c) → c.phase = .waiting moment work →
    work.heedsStop = true → w'.isStopped c.signal ≠ true
  quit : ∀ c e, w'.task? me = some (.call c) → c.phase = .over e →
    ∀ x k, w'.task? x = some (.worker k) → k.gatherer = me → k.phase = .over ∨ k.aborted = true
  given : ∀ k, w'.task? me = some (.worker k) → k.aborted = true → k.phase = .over
  ended : ∀ k k', w.task? me = some (.worker k) → w'.task? me = some (.worker k') →
    k.phase = .over → k'.phase = .over
  begun : ∀ y c k, w'.task? y = some (.call c) → c.caller = me → w'.task? me = some (.worker k) →
    k.phase.Begun
  attended : ∀ y c k, w'.task? y = some (.call c) → c.caller = me →
    w'.task? me = some (.worker k) → w'.Attended y c k

/-- **A task goes on, and the order is kept**, if it is of the task itself. -/
theorem Ordered.spares (h : Ordered r w) (spares : Spares hires makes me { w with ready } w')
    (own : Own me w w') (others : ∀ x ∈ w.ready, x ≠ me → x ∈ ready) (sane : Sane r none w')
    (tidy : w'.Tidy) (exist : makes → ∃ t, w.task? me = some t)
    (may : hires → ∃ c, w.task? me = some (.call c) ∧ c.tool.body = .fanOut) : Ordered r w' := by
  have line {x : TaskId} (hx : x ∈ w.ready) (other : x ≠ me) : x ∈ w'.ready :=
    spares.ready.subset (others x hx other)
  refine ⟨sane, tidy, ?callers, ?crew, ?given, ?quit, ?heeds, ?attended⟩
  case callers =>
    intro y c' there
    obtain ⟨t, t', here, there', begun⟩ : ∃ t t', w.task? c'.caller = some t ∧
        w'.task? c'.caller = some t' ∧ (c'.caller ≠ me → ∀ k, t = .worker k → k.phase.Begun) := by
      rcases spares.wasCall there with ⟨-, may, -, caller⟩ | ⟨c, here, alike, -⟩
      · obtain ⟨t, here⟩ := exist may
        obtain ⟨t', there'⟩ := spares.exist (x := me) here
        exact ⟨t, t', caller ▸ here, caller ▸ there', fun other => absurd caller other⟩
      · obtain ⟨t, here', begun⟩ := h.callers y c here
        rw [← alike.caller] at here'
        obtain ⟨t', there'⟩ := spares.exist here'
        exact ⟨t, t', here', there', fun _ => begun⟩
    refine ⟨t', there', fun k same => ?_⟩
    subst same
    by_cases mine : c'.caller = me
    · exact own.begun y c' k there mine (mine ▸ there')
    · rcases spares.wasWorker there' with ⟨none, -⟩ | ⟨k₀, was, -, -, spared⟩
      · cases here.symm.trans none
      · have began := begun mine k₀ (Option.some.inj (here.symm.trans was))
        rw [(spared mine).stays fun queued => by simp [queued, WorkerPhase.Begun] at began]
        exact began
  case crew =>
    intro x k' there
    rcases spares.wasWorker there with ⟨-, hired, -, gatherer, -⟩ | ⟨k, here, alike, -⟩
    · obtain ⟨c, here, body⟩ := may hired
      obtain ⟨c', there', alike⟩ := spares.boss c here
      exact ⟨c', gatherer ▸ there', alike.tool ▸ body⟩
    · obtain ⟨c, call, body⟩ := h.crew x k here
      rw [alike.gatherer]
      by_cases mine : k.gatherer = me
      · rw [mine] at call ⊢
        obtain ⟨c', there', alike⟩ := spares.boss c call
        exact ⟨c', there', alike.tool ▸ body⟩
      · obtain ⟨c', there', spared⟩ := spares.call _ c mine call
        exact ⟨c', there', spared.tool ▸ body⟩
  case given =>
    intro x k' there given unfinished
    by_cases mine : x = me
    · subst mine
      exact absurd (own.given k' there given) unfinished
    · rcases spares.wasWorker there with ⟨-, -, -, -, inLine⟩ | ⟨k, here, -, -, spared⟩
      · exact inLine
      · have spared := spared mine
        rcases spared.up given with before | inLine
        · refine line (h.given x k here before fun isOver => unfinished ?_) mine
          exact (spared.stays (by simp [isOver])).trans isOver
        · exact inLine
  case quit =>
    intro id c' e there isOver x k' there' gatherer
    by_cases mine : id = me
    · subst mine
      exact own.quit c' e there isOver x k' there' gatherer
    · rcases spares.wasCall there with ⟨-, -, fresh, -⟩ | ⟨c, here, -, spared⟩
      · cases fresh.symm.trans isOver
      have wasOver : c.phase = .over e :=
        ((spared mine).stayed (by simp [isOver])).symm.trans isOver
      rcases spares.wasWorker there' with ⟨-, -, -, same, -⟩ | ⟨k, here', alike, given, spared'⟩
      · exact absurd (gatherer.symm.trans same) mine
      · have before := h.quit id c e here wasOver x k here' (alike.gatherer.symm.trans gatherer)
        by_cases hand : x = me
        · subst hand
          exact before.imp (own.ended k k' here' there') ((given rfl).trans ·)
        · have spared' := spared' hand
          exact before.imp
            (fun ended => (spared'.stays (by simp [ended])).trans ended) spared'.given
  case heeds =>
    intro x c' moment work there waiting heeds stopped
    by_cases mine : x = me
    · subst mine
      exact absurd stopped (own.heeds c' moment work there waiting heeds)
    · rcases spares.wasCall there with ⟨-, -, fresh, -⟩ | ⟨c, here, -, spared⟩
      · cases fresh.symm.trans waiting
      have spared := spared mine
      have before : c.phase = .waiting moment work :=
        (spared.stayed (by simp [waiting])).symm.trans waiting
      rcases spares.heeds x c moment work mine here before heeds (spared.signal ▸ stopped) with
        stopped' | inLine
      · exact line (h.heeds x c moment work here before heeds stopped') mine
      · exact inLine
  case attended =>
    intro y c' k' there there'
    by_cases mine : c'.caller = me
    · exact own.attended y c' k' there mine (mine ▸ there')
    · rcases spares.wasCall there with ⟨-, -, -, caller⟩ | ⟨c, here, alike, spared⟩
      · exact absurd caller mine
      rcases spares.wasWorker there' with ⟨none, -⟩ | ⟨k, here', -, -, spared'⟩
      · obtain ⟨t, here', -⟩ := h.callers y c here
        rw [← alike.caller] at here'
        cases here'.symm.trans none
      · rcases h.attended y c k here (alike.caller ▸ here') with ⟨e, isOver⟩ | stopped |
          ⟨wait, calling, same, signal⟩
        · refine .inl ⟨e, ?_⟩
          by_cases self : y = me
          · subst self
            exact own.stays c c' e here there isOver
          · exact ((spared self).stays (by simp [isOver])).trans isOver
        · exact .inr (.inl (alike.signal ▸ spares.fired _ stopped))
        · refine .inr (.inr ⟨wait, ?_, same, signal.trans alike.signal.symm⟩)
          exact ((spared' mine).stays (by simp [calling])).trans calling

/-! ## 4. Whose turn it is -/

/-- Whoever goes on leaves the line. -/
theorem Tidy.leave (h : w.Tidy) (x : TaskId) :
    x ∉ w.ready.erase x ∧ Tidy { w with ready := w.ready.erase x } :=
  ⟨h.once.not_mem_erase, h.once.erase x, fun y hy => h.rousable y (List.mem_of_mem_erase hy),
    h.ascending, h.bosses⟩

theorem mem_leave (w : World) (me : TaskId) : ∀ x ∈ w.ready, x ≠ me → x ∈ w.ready.erase me :=
  fun _ hx other => (List.mem_erase_of_ne other).mpr hx

theorem Ordered.bossy (h : Ordered r w) (here : w.task? id = some (.call c)) : w.Bossy id c := by
  obtain ⟨t, caller, begun⟩ := h.callers id c here
  refine ⟨⟨c, here, .refl c⟩, t, caller, fun k same queued => ?_⟩
  have began := begun k same
  rw [queued] at began
  exact began.elim

theorem deeds_call (h : Ordered r w) (here : w.task? id = some (.call c))
    (may : c.phase = .fresh → c.tool.body = .fanOut → hires) :
    Deeds hires makes id { w with ready } (pollCall { w with ready } r id c) := by
  obtain ⟨called, caller⟩ := h.bossy here
  refine deeds_pollCall (w := { w with ready }) r may ⟨called, caller⟩
    fun plan first p gathering i small => ?_
  obtain ⟨⟨answers, gathers⟩, -⟩ :=
    (h.sane.calls id c (by simp) here).gathering plan first p gathering
  exact gathers.apart here small

theorem Starts.deeds {m : World} (starts : Starts w k m) (handy : w.Handy me k) :
    Deeds hires makes me w m := by
  cases starts with
  | admitted => exact .refl w
  | asked => exact deeds_request handy

theorem Starts.nobody {m : World} (starts : Starts w k m) (new : w.task? y = none) :
    m.task? y = none := by
  cases starts with
  | admitted => exact new
  | asked =>
    rcases updateProgress_cases w k.gatherer (fun p => p.request k.query.index) with same |
      ⟨c, plan, first, p, here, -, set⟩
    · rwa [same]
    · rw [set]
      have other : k.gatherer ≠ y := fun same => by cases (same ▸ here).symm.trans new
      exact (task?_setTask_ne _ other).trans new

theorem deeds_worker (sane : Sane r none w) (here : w.task? me = some (.worker k))
    (apart : me ∉ ready) (may : ∀ m, k.aborted = false → Starts { w with ready } k m → makes) :
    Deeds hires makes me { w with ready } (pollWorker { w with ready } r me k) :=
  deeds_pollWorker (w := { w with ready }) r here (sane.employer here)
    (fun wait => sane.waits me k wait here) apart may

/-- The task is a fan-out that is about to begin. -/
def MayHire (w : World) (me : TaskId) : Prop :=
  ∃ c, w.task? me = some (.call c) ∧ c.phase = .fresh ∧ c.tool.body = .fanOut

/-- The task is a worker that has its turn, or comes from outside. -/
def MayMake (w : World) (me : TaskId) : Prop :=
  (∃ k, w.task? me = some (.worker k) ∧ k.aborted = false ∧ ∃ m, Starts w k m) ∨
    ∃ s, w.task? me = some (.client s)

/-- The task does something: someone in line does, and leaves the line, or someone outside. -/
structure Turn (r : Registry) (w : World) (me : TaskId) (ready : List TaskId)
    (w' : World) : Prop where
  line : ready = w.ready.erase me ∨ ready = w.ready ∧ ¬ w.HasCall me ∧ ¬ w.HasWorker me
  deeds : Deeds (w.MayHire me) (MayMake { w with ready } me) me { w with ready } w'
  call : ∀ c, w.task? me = some (.call c) → w' = pollCall { w with ready } r me c
  worker : ∀ k, w.task? me = some (.worker k) → w' = pollWorker { w with ready } r me k

/-- What someone outside does. -/
theorem Deed.outside (call : ¬ w.HasCall me) (worker : ¬ w.HasWorker me)
    (h : Deed False True me w w') : Deed hires (w.MayMake me) me w w' := by
  refine h.imp False.elim fun t here _ => ?_
  cases t with
  | client s => exact .inr ⟨s, here⟩
  | call c => exact absurd ⟨c, here⟩ call
  | worker k => exact absurd ⟨k, here⟩ worker

/-- Whoever goes on has its turn. -/
theorem Goer.turn (ordered : Ordered r w) (h : Goer r w id (w.ready.erase id) w') :
    Turn r w id (w.ready.erase id) w' := by
  cases h with
  | @call c here =>
    refine ⟨.inl rfl, deeds_call ordered here fun fresh body => ⟨c, here, fresh, body⟩,
      fun c' here' => ?_, fun k there => ?_⟩
    · cases here.symm.trans here'
      rfl
    · cases here.symm.trans there
  | @worker k here =>
    refine ⟨.inl rfl, deeds_worker ordered.sane here (ordered.tidy.leave id).1
      fun m kept starts => .inl ⟨k, here, kept, m, starts⟩, fun c there => ?_, fun k' here' => ?_⟩
    · cases here.symm.trans there
    · cases here.symm.trans here'
      rfl
  | client call worker =>
    exact ⟨.inl rfl, .refl _, fun c here => absurd here (call c),
      fun k here => absurd here (worker k)⟩

/-- Whoever comes from outside leaves the line as it is. -/
theorem turn_of_outside (call : ¬ w.HasCall me) (worker : ¬ w.HasWorker me)
    (h : Deed False True me w w') : Turn r w me w.ready w' :=
  ⟨.inr ⟨rfl, call, worker⟩, (h.outside call worker).deeds, fun c here => absurd ⟨c, here⟩ call,
    fun k here => absurd ⟨k, here⟩ worker⟩

/-- **A pulse is somebody's turn**, or time passes. -/
theorem Pulse.turn (h : Pulse r w w') (ordered : Ordered r w) :
    (w.ready = [] ∧ w.advance? = some w') ∨ ∃ me ready, Turn r w me ready w' := by
  cases h with
  | next _ goer => exact .inr ⟨_, _, goer.turn ordered⟩
  | tick quiet moved => exact .inl ⟨quiet, moved⟩
  | outside call worker deed => exact .inr ⟨_, _, turn_of_outside call worker deed⟩

/-- Nobody is in line before the task, or it comes from outside. -/
def Heads (w : World) (me : TaskId) (ready : List TaskId) : Prop :=
  w.ready = me :: ready ∨ ready = w.ready ∧ ¬ w.HasCall me ∧ ¬ w.HasWorker me

/-- The first in line has its turn. -/
theorem turn_of_next {pause : Option Pause} (ordered : Ordered r w) (busy : w.ready ≠ [])
    (stepped : w.step r = (pause, w')) :
    ∃ me ready, w.ready = me :: ready ∧ Turn r w me ready w' := by
  obtain ⟨id, rest, line, goer⟩ := goer_of_next busy stepped
  obtain rfl : w.ready.erase id = rest := by rw [line, List.erase_cons_head]
  exact ⟨id, _, line, goer.turn ordered⟩

/-- **A beat is the turn of the first in line**, or time passes. -/
theorem Beat.turn (h : Beat r w w') (ordered : Ordered r w) :
    (w.ready = [] ∧ w.advance? = some w') ∨
      ∃ me ready, w.Heads me ready ∧ Turn r w me ready w' := by
  cases h with
  | next busy stepped =>
    obtain ⟨me, ready, line, turn⟩ := turn_of_next ordered busy stepped
    exact .inr ⟨me, ready, .inl line, turn⟩
  | tick quiet moved => exact .inl ⟨quiet, moved⟩
  | outside call worker deed =>
    exact .inr ⟨_, _, .inr ⟨rfl, call, worker⟩, turn_of_outside call worker deed⟩

/-! ## 5. Every row of pulses keeps the order -/

/-- What is to be known of a worker that has gone on. -/
theorem Ordered.own_worker (h : Ordered r w) (here : w.task? me = some (.worker k))
    (others : ∀ x ∈ w.ready, x ≠ me → x ∈ ready) (apart : me ∉ ready) :
    Own me w (pollWorker { w with ready } r me k) := by
  have deeds : Deeds False (k.aborted = false ∧ ∃ m, Starts { w with ready } k m) me
      { w with ready }
      (pollWorker { w with ready } r me k) :=
    deeds_worker h.sane here apart fun m kept starts => ⟨kept, m, starts⟩
  have handy : World.Handy { w with ready } me k :=
    ⟨⟨k, here, .refl k, rfl⟩, h.sane.employer here⟩
  obtain ⟨k₁, there₁, alike₁, aborted₁⟩ := deeds.spares.hand k here
  have noCall {c : Call} : (pollWorker { w with ready } r me k).task? me ≠ some (.call c) :=
    fun there => by cases there.symm.trans there₁
  have goes (began : k.phase.Begun) : k₁.phase.Begun := by
    obtain ⟨k₂, there₂, -, goes⟩ := goes_of_move h.sane (.worker here others) here
    cases there₁.symm.trans there₂
    exact goes.begun began
  refine ⟨fun _ _ _ _ there => absurd there noCall, fun _ _ _ there => absurd there noCall,
    fun _ _ there => absurd there noCall, ?given, ?ended, ?begun, ?attended⟩
  case given =>
    intro k' there given
    cases there.symm.trans there₁
    by_cases isOver : k.phase = .over
    · have same : pollWorker { w with ready } r me k = { w with ready } := by
        unfold pollWorker
        simp only [isOver]
      rw [same] at there
      cases there.symm.trans here
      exact isOver
    · have ends : pollWorker { w with ready } r me k = endAbortedWorker { w with ready } me k := by
        unfold pollWorker
        simp only [← aborted₁, given, if_true]
      obtain ⟨k₂, there₂, isOver₂⟩ := over_endAbortedWorker (w := { w with ready }) here
      rw [ends] at there
      cases there.symm.trans there₂
      exact isOver₂
  case ended =>
    intro k₀ k' here' there isOver
    cases here.symm.trans here'
    have same : pollWorker { w with ready } r me k = { w with ready } := by
      unfold pollWorker
      simp only [isOver]
    rw [same] at there
    cases there.symm.trans here
    exact isOver
  case begun =>
    intro y c k' there caller there'
    cases there'.symm.trans there₁
    rcases deeds.spares.wasCall there with ⟨-, ⟨kept, m, starts⟩, -⟩ | ⟨c₀, before, alike, -⟩
    · have makes : MakesCall r w me (pollWorker { w with ready } r me k) := by
        rw [pollWorker_of_starts kept starts r]
        exact .mk here others kept starts
      obtain ⟨k₂, there₂, began⟩ := makes.begun.2
      cases there'.symm.trans there₂
      exact began
    · obtain ⟨t, here', began⟩ := h.callers y c₀ before
      rw [← alike.caller, caller] at here'
      cases here.symm.trans here'
      exact goes (began k rfl)
  case attended =>
    intro y c' k' there caller there'
    cases there'.symm.trans there₁
    rcases deeds.spares.wasCall there with ⟨new, ⟨kept, m, starts⟩, -⟩ | ⟨c, before, alike, spared⟩
    · have asked : Deeds False False me { w with ready } m := starts.deeds handy
      have still : m.task? y = none := starts.nobody new
      rw [pollWorker_of_starts kept starts r] at there there' ⊢
      exact attended_beginCalling (handy.deeds asked) still there there'
    · have spared := spared fun same => noCall (same ▸ there)
      rcases h.attended y c k before (alike.caller ▸ caller ▸ here) with ⟨e, isOver⟩ | stopped |
        ⟨wait, calling, rfl, own⟩
      · exact .inl ⟨e, (spared.stays (by simp [isOver])).trans isOver⟩
      · exact .inr (.inl (alike.signal ▸ deeds.spares.fired _ stopped))
      · cases given : k.aborted with
        | false =>
          have polled : pollWorker { w with ready } r me k =
              pollCalling { w with ready } me k wait := by
            unfold pollWorker
            simp [calling, given]
          rw [polled] at there there' ⊢
          exact attended_pollCalling handy before own there there'
        | true =>
          have ended : pollWorker { w with ready } r me k =
              endAbortedWorker { w with ready } me k := by
            unfold pollWorker
            simp only [calling, given, if_true]
          have dropped := stopped_endAbortedWorker handy calling
          rw [← ended] at dropped
          exact .inr (.inl ((own.trans alike.signal.symm) ▸ dropped))


/-- What is to be known of a call that has gone on. -/
theorem Ordered.own_call (h : Ordered r w) (here : w.task? id = some (.call c))
    (others : ∀ x ∈ w.ready, x ≠ id → x ∈ ready) : Own id w (pollCall { w with ready } r id c) := by
  obtain ⟨called, caller⟩ := h.bossy here
  have bossy : World.Bossy { w with ready } id c := ⟨called, caller⟩
  have poised := h.sane.poised here others
  obtain ⟨c₁, there₁, grows, -⟩ := (advances_of_move h.sane (.call here others)).calls id c here
  have noWorker {k : Worker} : (pollCall { w with ready } r id c).task? id ≠ some (.worker k) :=
    fun there => by cases there.symm.trans there₁
  refine ⟨fun c₀ c' e here' there isOver => ?stays, ?heeds, ?quit,
    fun _ there => absurd there noWorker, fun _ _ _ there => absurd there noWorker,
    fun _ _ _ _ _ there => absurd there noWorker, fun _ _ _ _ _ there => absurd there noWorker⟩
  case stays =>
    cases here.symm.trans here'
    cases there.symm.trans there₁
    exact grows.isOver e isOver
  case heeds =>
    exact heedful_pollCall (w := { w with ready }) here bossy
      fun plan first p gathering i small => by
      obtain ⟨answers, gathers⟩ := poised.gathering plan first p gathering
      exact gathers.apart here small
  case quit =>
    refine dismissed_pollCall (w := { w with ready }) here bossy poised ?_ ?_
    · exact fun c' e here' isOver => h.quit id c' e here' isOver
    · intro x k there gatherer
      obtain ⟨c', call, body⟩ := h.crew x k there
      rw [gatherer] at call
      cases here.symm.trans call
      exact body

/-- Those who are woken when time passes are no workers. -/
theorem Tidy.advance? (h : w.Tidy) (moved : w.advance? = some w') : w'.Tidy := by
  unfold World.advance? at moved
  split at moved
  · cases moved
  · next t ts timers =>
    obtain rfl := Option.some.inj moved
    rw [← List.foldl_map]
    refine Tidy.wakes (w := { w with now := _, timers := _ }) ⟨h.once, h.rousable,
      h.ascending.sublist (List.drop_sublist _ _), fun t ht => h.bosses t (List.mem_of_mem_drop ht)⟩
      fun x hx => ?_
    obtain ⟨t, due, rfl⟩ := List.mem_map.mp hx
    obtain ⟨t', here, boss⟩ := h.bosses t ((List.takeWhile_sublist _).subset due)
    exact ⟨t', here, fun k same => absurd same (boss k)⟩

/-- Time passes, and the order is kept. -/
theorem Ordered.advance? (h : Ordered r w) (quiet : w.ready = []) (moved : w.advance? = some w')
    (sane : Sane r none w') : Ordered r w' := by
  obtain ⟨-, -, -, -, tasks, fired, -, -⟩ := advance?_cases moved
  have same (x : TaskId) : w'.task? x = w.task? x := congrArg (·[x]?) tasks
  have stopped (s : Signal) : w'.isStopped s = w.isStopped s := by rw [isStopped, isStopped, fired]
  have nobody {x : TaskId} (hx : x ∈ w.ready) : x ∈ w'.ready := by
    rw [quiet] at hx
    cases hx
  exact {
    sane
    tidy := h.tidy.advance? moved
    callers := fun y c there => by
      rw [same]
      exact h.callers y c ((same y).symm.trans there)
    crew := fun x k there => by
      rw [same]
      exact h.crew x k ((same x).symm.trans there)
    given := fun x k there given unfinished =>
      nobody (h.given x k ((same x).symm.trans there) given unfinished)
    quit := fun id c e there isOver x k there' =>
      h.quit id c e ((same id).symm.trans there) isOver x k ((same x).symm.trans there')
    heeds := fun x c moment work there waiting heeds fires =>
      nobody (h.heeds x c moment work ((same x).symm.trans there) waiting heeds
        ((stopped _).symm.trans fires))
    attended := fun y c k there there' => by
      have attended := h.attended y c k ((same y).symm.trans there) ((same _).symm.trans there')
      rwa [Attended, stopped] }

/-- Someone outside looks out for another signal. -/
theorem task?_setClient {s : Option Signal} (client : w.task? me = some (.client s))
    (s' : Option Signal) {t : Task} (kind : ∀ s, t ≠ .client s) :
    (w.setTask me (.client s')).task? x = some t ↔ w.task? x = some t := by
  rcases task?_setTask_cases client (.client s') x with ⟨rfl, there⟩ | same
  · rw [there, client]
    exact iff_of_false (fun h => kind s' (Option.some.inj h).symm)
      fun h => kind s (Option.some.inj h).symm
  · rw [same]

theorem Sane.setClient (h : Sane r none w) {s : Option Signal}
    (client : w.task? me = some (.client s)) (s' : Option Signal) :
    Sane r none (w.setTask me (.client s')) := by
  have same {x : TaskId} {t : Task} (kind : ∀ s, t ≠ .client s) :
      (w.setTask me (.client s')).task? x = some t ↔ w.task? x = some t :=
    task?_setClient client s' kind
  have within : Within (fun x => x = me) w (w.setTask me (.client s')) :=
    within_set client rfl (fun _ h => h) rfl (fun h => absurd rfl h) (by simp) (by simp)
  refine ⟨fun id c other there => ?_, fun x k wait there calling => ?_, fun x k there => ?_⟩
  · have rests := h.calls id c other ((same (by simp)).mp there)
    refine ⟨rests.fresh, rests.waiting, fun plan first p gathering => ?_⟩
    obtain ⟨⟨answers, gathers⟩, missing⟩ := rests.gathering plan first p gathering
    refine ⟨⟨answers, gathers.within within (fun i small => .inl ?_) ?_ rfl rfl⟩, missing⟩
    · rintro rfl
      obtain ⟨k, worker, -⟩ := gathers.worker small
      cases client.symm.trans worker
    · rintro x k rfl there' -
      cases client.symm.trans ((same (by simp)).mp there')
  · obtain ⟨c, call⟩ := h.waits x k wait ((same (by simp)).mp there) calling
    exact ⟨c, (same (by simp)).mpr call⟩
  · obtain ⟨c, call, begun⟩ := (h.crew x k ((same (by simp)).mp there)).resolve_left nofun
    exact .inr ⟨c, (same (by simp)).mpr call, begun⟩

/-- Someone outside looks out for another signal than before. -/
def Watches (w w' : World) : Prop :=
  ∃ me s s', w.task? me = some (.client s) ∧ w' = w.setTask me (.client s')

/-- **Whatever happens outside** is a row of moves, or someone looks out for another signal. -/
theorem Deed.moves_or_watches (call : ¬ w.HasCall me) (worker : ¬ w.HasWorker me)
    (h : Deed False True me w w') : Moves r w w' ∨ w.Watches w' := by
  cases h with
  | note vs =>
    have still : Move r w (w.note vs) := .time rfl rfl fun _ h => h
    exact .inl still.moves
  | timer moment =>
    have still : Move r w (w.setTimer moment me) := .time rfl rfl fun _ h => h
    exact .inl still.moves
  | wake =>
    exact .inl (Move.time (tasks_wake w _) (fired_wake w _) (prefix_wake w _).subset).moves
  | fire s => exact .inl (Move.fire s).moves
  | abort _ may => exact .inl (Move.abort (may.resolve_right call)).moves
  | call here => exact absurd ⟨_, here⟩ call
  | worker here => exact absurd ⟨_, here⟩ worker
  | progress hand => exact absurd hand worker
  | turn hand => exact absurd hand worker
  | hire may => exact may.elim
  | arrive watched => exact .inl (Move.arrive watched).moves
  | watch here s' => exact .inr ⟨me, _, s', here, rfl⟩
  | name above => exact .inl (moves_of_newSignal w above)
  | make _ _ fresh => exact .inl ((moves_of_newSignal w _).trans (Move.make fresh).moves)

theorem Pulse.moves_or_watches (h : Pulse r w w') : Moves r w w' ∨ w.Watches w' := by
  cases h with
  | next _ goer => exact .inl (goer.move (mem_leave w _)).moves
  | tick quiet moved =>
    obtain ⟨-, -, -, -, tasks, fired, -, -⟩ := advance?_cases moved
    exact .inl (Move.time tasks fired (by simp [quiet])).moves
  | outside call worker deed => exact deed.moves_or_watches call worker

theorem Pulse.sane (h : Pulse r w w') (sane : Sane r none w) : Sane r none w' := by
  rcases h.moves_or_watches with moves | ⟨me, s, s', client, rfl⟩
  · exact moves.sane sane
  · exact sane.setClient client s'

namespace Turn

theorem spares (h : Turn r w me ready w') :
    Spares (w.MayHire me) (MayMake { w with ready } me) me { w with ready } w' :=
  h.deeds.spares

theorem others (h : Turn r w me ready w') : ∀ x ∈ w.ready, x ≠ me → x ∈ ready := by
  rcases h.line with rfl | ⟨rfl, -⟩
  · exact mem_leave w me
  · exact fun x hx _ => hx

theorem apart (h : Turn r w me ready w') (tidy : w.Tidy) (inside : w.HasCall me ∨ w.HasWorker me) :
    me ∉ ready := by
  rcases h.line with rfl | ⟨-, call, worker⟩
  · exact (tidy.leave me).1
  · exact (inside.elim call worker).elim

/-- What is to be known of the task whose turn it was. -/
theorem own (h : Turn r w me ready w') (ordered : Ordered r w) : Own me w w' := by
  by_cases inside : w.HasCall me ∨ w.HasWorker me
  · rcases inside with ⟨c, here⟩ | ⟨k, here⟩
    · rw [h.call c here]
      exact ordered.own_call here h.others
    · rw [h.worker k here]
      exact ordered.own_worker here h.others (h.apart ordered.tidy (.inr ⟨k, here⟩))
  · obtain ⟨call, worker⟩ := not_or.mp inside
    have noCall {c : Call} : w'.task? me ≠ some (.call c) := fun there => by
      rcases h.spares.wasCall there with ⟨none, may, -⟩ | ⟨c₀, here, -⟩
      · rcases may with ⟨k, here, -⟩ | ⟨s, here⟩
        · cases none.symm.trans here
        · cases none.symm.trans here
      · exact call ⟨c₀, here⟩
    have noWorker {k : Worker} : w'.task? me ≠ some (.worker k) := fun there => by
      rcases h.spares.wasWorker there with ⟨none, ⟨c, here, -⟩, -⟩ | ⟨k₀, here, -⟩
      · cases none.symm.trans here
      · exact worker ⟨k₀, here⟩
    exact ⟨fun _ _ _ _ there => absurd there noCall, fun _ _ _ there => absurd there noCall,
      fun _ _ there => absurd there noCall, fun _ there => absurd there noWorker,
      fun _ _ _ there => absurd there noWorker, fun _ _ _ _ _ there => absurd there noWorker,
      fun _ _ _ _ _ there => absurd there noWorker⟩

theorem popped (h : Turn r w me ready w') (tidy : w.Tidy) : Tidy { w with ready } := by
  rcases h.line with rfl | ⟨rfl, -⟩
  · exact (tidy.leave me).2
  · exact tidy

theorem tidy (h : Turn r w me ready w') (tidy : w.Tidy) : w'.Tidy :=
  h.deeds.tidy (h.popped tidy)

end Turn

/-- **Every pulse keeps the order.** -/
theorem Pulse.ordered (h : Pulse r w w') (ordered : Ordered r w) : Ordered r w' := by
  have sane := h.sane ordered.sane
  rcases h.turn ordered with ⟨quiet, moved⟩ | ⟨me, ready, turn⟩
  · exact ordered.advance? quiet moved sane
  · refine ordered.spares turn.spares (turn.own ordered) turn.others sane (turn.tidy ordered.tidy)
      (fun may => ?_) fun ⟨c, here, _, body⟩ => ⟨c, here, body⟩
    rcases may with ⟨k, here, -⟩ | ⟨s, here⟩
    · exact ⟨_, here⟩
    · exact ⟨_, here⟩

theorem Pulses.ordered (h : Pulses r w w') (ordered : Ordered r w) : Ordered r w' := by
  induction h with
  | refl => exact ordered
  | tail _ pulse ih => exact pulse.ordered ih

/-- What is kept in all that happens, in whatever order. -/
theorem ordered_of_pulses (h : Pulses r {} w) : Ordered r w := h.ordered (ordered_empty r)

theorem Beat.ordered (h : Beat r w w') (ordered : Ordered r w) : Ordered r w' :=
  h.pulse.ordered ordered

theorem Beats.ordered (h : Beats r w w') (ordered : Ordered r w) : Ordered r w' :=
  h.pulses.ordered ordered

theorem ordered_of_beats (h : Beats r {} w) : Ordered r w := ordered_of_pulses h.pulses

/-! ## 6. Someone outside -/

/-- Someone outside does something. -/
theorem Deed.beats {s : Option Signal} (client : w.task? me = some (.client s))
    (h : Deed False True me w w') : Beats r w w' := by
  refine (Beat.outside (fun ⟨c, here⟩ => ?_) (fun ⟨k, here⟩ => ?_) h).beats
  · cases client.symm.trans here
  · cases client.symm.trans here

theorem beats_of_startCall {s : Option Signal} (client : w.task? me = some (.client s))
    (tool : String) (inputs : Fields Json) (signal : Signal) (limit : Option Nat) :
    Beats r w (startCall r w tool inputs signal limit me).2 := by
  unfold startCall
  split
  · exact .refl w
  · next t _ =>
    let c : Call :=
      { tool := t, inputs, signal := w.signals :: signal, limit := limit.or (r.timeoutFor tool)
        caller := me }
    have made : Deed False True me w ((w.newSignal signal).2.spawn (.call c)).2 :=
      .make trivial client rfl rfl
    exact made.beats client

/-- The world in which a call is made on its own. -/
theorem beats_of_callWorld (stopAt : Option Nat) :
    Beats r {} (callWorld stopAt).2.2.2 ∧
      (callWorld stopAt).2.2.2.task? (callWorld stopAt).2.1 =
        some (.client (some (callWorld stopAt).1)) := by
  have outside {u v : World} (nobody : ∀ t, u.task? 0 ≠ some t) (h : Deed False True 0 u v) :
      Beat r u v :=
    .outside (fun ⟨_, here⟩ => nobody _ here) (fun ⟨_, here⟩ => nobody _ here) h
  let signal : Signal := (World.newSignal {} []).1
  let w₁ : World := (World.newSignal {} []).2
  let w₂ : World := (w₁.spawnIdle (.client (some signal))).2
  let w₃ : World := (w₂.spawnIdle (.client none)).2
  have named : Beat r {} w₁ := outside (fun t => by simp [task?]) (.name [])
  have came : Beat r w₁ w₂ := outside (fun t => by simp [task?, w₁, newSignal]) (.arrive _)
  have maker : w₂.task? 0 = some (.client (some signal)) := rfl
  have stopper : w₃.task? 1 = some (.client none) := rfl
  have made : Beats r {} w₃ :=
    (named.beats.trans came.beats).trans ((Deed.arrive none).beats maker)
  cases stopAt with
  | none => exact ⟨made, rfl⟩
  | some ms =>
    cases ms with
    | zero =>
      have told : Beats r w₃ (w₃.fire signal) := (Deed.fire signal).beats stopper
      exact ⟨made.trans told, rfl⟩
    | succ ms =>
      have timed : Beats r w₃ (w₃.setTimer (ms + 1) 1) :=
        (Deed.timer (ms + 1) ⟨_, stopper, by simp⟩).beats stopper
      exact ⟨made.trans timed, rfl⟩

/-! ## 7. What remains -/

/-- A call remains what it is, and one that is over stays so. -/
theorem Pulse.call (h : Pulse r w w') (ordered : Ordered r w) (here : w.task? x = some (.call c)) :
    ∃ c', w'.task? x = some (.call c') ∧ c.Alike c' ∧
      ∀ e, c.phase = .over e → c'.phase = .over e := by
  rcases h.turn ordered with ⟨-, moved⟩ | ⟨me, ready, turn⟩
  · obtain ⟨-, -, -, -, tasks, -⟩ := advance?_cases moved
    exact ⟨c, (congrArg (·[x]?) tasks).trans here, .refl c, fun _ isOver => isOver⟩
  · by_cases mine : x = me
    · subst mine
      obtain ⟨c', there, alike⟩ := turn.spares.boss c here
      exact ⟨c', there, alike, fun e => (turn.own ordered).stays c c' e here there⟩
    · obtain ⟨c', there, spared⟩ := turn.spares.call x c mine here
      exact ⟨c', there, spared.toAlike, fun e isOver =>
        (spared.stays (by simp [isOver])).trans isOver⟩

theorem Pulses.call (h : Pulses r w w') (ordered : Ordered r w)
    (here : w.task? x = some (.call c)) :
    ∃ c', w'.task? x = some (.call c') ∧ c.Alike c' ∧
      ∀ e, c.phase = .over e → c'.phase = .over e := by
  induction h with
  | refl => exact ⟨c, here, .refl c, fun _ isOver => isOver⟩
  | tail pulses pulse ih =>
    obtain ⟨c', there, alike, ended⟩ := ih
    obtain ⟨c'', there', alike', ended'⟩ := pulse.call (Pulses.ordered pulses ordered) there
    exact ⟨c'', there', alike.trans alike', fun e isOver => ended' e (ended e isOver)⟩

/-- Someone outside remains there. -/
theorem Pulses.client (h : Pulses r w w') (ordered : Ordered r w) {s : Option Signal}
    (here : w.task? x = some (.client s)) : ∃ s', w'.task? x = some (.client s') := by
  induction h with
  | refl => exact ⟨s, here⟩
  | tail pulses pulse ih =>
    obtain ⟨s', there⟩ := ih
    rcases pulse.turn (Pulses.ordered pulses ordered) with ⟨-, moved⟩ | ⟨me, ready, turn⟩
    · obtain ⟨-, -, -, -, tasks, -⟩ := advance?_cases moved
      exact ⟨s', (congrArg (·[x]?) tasks).trans there⟩
    · exact turn.spares.client x s' there

theorem Beats.call (h : Beats r w w') (ordered : Ordered r w) (here : w.task? x = some (.call c)) :
    ∃ c', w'.task? x = some (.call c') ∧ c.Alike c' ∧
      ∀ e, c.phase = .over e → c'.phase = .over e :=
  h.pulses.call ordered here

theorem Beats.client (h : Beats r w w') (ordered : Ordered r w) {s : Option Signal}
    (here : w.task? x = some (.client s)) : ∃ s', w'.task? x = some (.client s') :=
  h.pulses.client ordered here

end Runbook.Schedule.World
