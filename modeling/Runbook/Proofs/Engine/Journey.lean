import Runbook.Proofs.Engine.Turns

/-!
# The journey of a run

A visit goes on move by move: a task does, time passes, a client has its turn, or someone new comes.
`Journey i past a v` follows a visit to the state `v`, through the worlds in `past`, and keeps the
account `a` of its run number `i` on the way. Whatever `Visit.run` does is such a journey
(`Journey.run`).

The invariant is `Sound`, with one lemma for each kind of move; above all it says that what is told of
the run is true.
-/

set_option autoImplicit false

namespace Runbook

open Dialogue RunDialogue Schedule World

namespace Session

variable {σ : Type} [MemoryStore σ]

/-! ## 1. The moves of a visit -/

/-- The visit in another world. -/
def Visit.inWorld (v : Visit σ) (w : World) : Visit σ :=
  { v with session := { v.session with world := w } }

/-- A visit goes on, move by move. The worlds of the past are those in front of the moves, and the
account is that of run number `i`. -/
inductive Journey (i : Nat) : List World → Option Account → Visit σ → Prop where
  /-- Nobody has come yet. -/
  | idle {s : Session σ} (ascending : Ascending s.world.timers) : Journey i [] none { session := s }
  /-- A task goes on. -/
  | work {past : List World} {a : Option Account} {v : Visit σ} {w : World} (j : Journey i past a v)
      (h : v.session.world.step v.session.engine.registry = (none, w)) :
      Journey i (past ++ [v.session.world]) a (v.inWorld w)
  /-- Time passes. -/
  | tick {past : List World} {a : Option Account} {v : Visit σ} {w : World} (j : Journey i past a v)
      (quiet : v.session.world.ready = []) (h : v.session.world.advance? = some w) :
      Journey i (past ++ [v.session.world]) a (v.inWorld w)
  /-- The run has its turn. -/
  | own {past : List World} {a a' : Option Account} {v : Visit σ} {w : World} {id : TaskId}
      {f : Flight} (j : Journey i past a v)
      (h : v.session.world.step v.session.engine.registry = (some (.client id), w))
      (mine : v.flights.findIdx? (·.task = id) = some i) (hf : v.flights[i]? = some f)
      (adds : Adds f (v.inWorld w).session a a') :
      Journey i (past ++ [v.session.world]) a' ((v.inWorld w).wake id)
  /-- Another run has its turn, or a visitor. -/
  | other {past : List World} {a : Option Account} {v : Visit σ} {w : World} {id : TaskId}
      (j : Journey i past a v)
      (h : v.session.world.step v.session.engine.registry = (some (.client id), w))
      (other : v.flights.findIdx? (·.task = id) ≠ some i) :
      Journey i (past ++ [v.session.world]) a ((v.inWorld w).wake id)
  /-- Someone asks for a run. -/
  | request {past : List World} {a : Option Account} {v : Visit σ} (j : Journey i past a v)
      (q : RunRequest) : Journey i (past ++ [v.session.world]) a (v.request q)
  /-- A visitor is announced. -/
  | visitAfter {past : List World} {a : Option Account} {v : Visit σ} (j : Journey i past a v)
      (ms : Nat) (who : Visitor) : Journey i (past ++ [v.session.world]) a (v.visitAfter ms who)

/-! ## 2. What a move leaves alone -/

theorem goesBy_advance (f : Flight) (d : RunDialogue RunRecord) (s : Session σ) :
    GoesBy s (advance f d s).2 := by
  obtain ⟨log, p, goes⟩ := goes_advance f d s
  exact goes.goesBy

/-- Whoever has a turn stays the same run, and takes nothing from the others. -/
structure Spares (f f' : Flight) (s s' : Session σ) : Prop where
  party : f'.request = f.request ∧ f'.task = f.task ∧ f'.signal = f.signal
  engine : s'.engine = s.engine
  minds : ∀ id x, f.task ≠ id → Minds id x s.world s'.world

theorem spares_proceed (s : Session σ) (f : Flight) :
    Spares f (s.proceed f).1 s (s.proceed f).2 := by
  have goes : ∀ {f' s'}, GoesBy s s' →
      (f'.request = f.request ∧ f'.task = f.task ∧ f'.signal = f.signal) → Spares f f' s s' :=
    fun passing same => ⟨same, passing.engine, fun id x _ => passing.minds id x⟩
  rw [Session.proceed]
  split
  · cases started : s.engine.start s.active f.request.workflow f.request.id f.request.params
        f.signal with
    | error err =>
      rw [beginFlight]
      simp only [started]
      exact goes (.refl s) ⟨rfl, rfl, rfl⟩
    | ok r =>
      have later := goesBy_advance f r.1 (s.launched f r.2)
      rw [beginFlight]
      simp only [started]
      exact ⟨⟨rfl, rfl, rfl⟩, later.engine,
        fun id x other => (minds_launched other).trans (later.minds id x)⟩
  · split
    · next polled =>
      exact goes ((goesBy_pollPrompt polled).trans (goesBy_advance ..)) ⟨rfl, rfl, rfl⟩
    · next polled => exact goes (goesBy_pollPrompt polled) ⟨rfl, rfl, rfl⟩
  · split
    · next w polled =>
      have first : GoesBy s { s with world := w } := ⟨rfl, minds_of_pollWait polled⟩
      exact goes (first.trans (goesBy_advance ..)) ⟨rfl, rfl, rfl⟩
    · next polled => exact goes ⟨rfl, minds_of_pollWait polled⟩ ⟨rfl, rfl, rfl⟩
  · exact goes (.refl s) ⟨rfl, rfl, rfl⟩

theorem spares_turn (s : Session σ) (f : Flight) : Spares f (s.turn f).1 s (s.turn f).2 := by
  by_cases ended : ∃ x, f.waiting = .over x
  · obtain ⟨x, ended⟩ := ended
    rw [turn_over ended]
    exact ⟨⟨rfl, rfl, rfl⟩, rfl, fun _ _ _ => .refl _⟩
  · have first := spares_proceed s f
    have waits : ∀ x, f.waiting ≠ .over x := fun x h => ended ⟨x, h⟩
    rcases turn_cases (s := s) rfl waits with ⟨flight, engine, world⟩ | dropped
    · refine ⟨by rw [flight]; exact first.party, engine.trans first.engine, ?_⟩
      rw [world]
      exact first.minds
    · rw [dropped]
      have goes := goesBy_drop (s.proceed f).2 (s.proceed f).1
      exact ⟨first.party, goes.engine.trans first.engine,
        fun id x other => (first.minds id x other).trans (goes.minds id x)⟩

omit [MemoryStore σ] in
theorem goesBy_visitAfter (v : Visit σ) (ms : Nat) (who : Visitor) :
    GoesBy v.session (v.visitAfter ms who).session := by
  refine ⟨rfl, fun id x => ?_⟩
  have first := @minds_spawnIdle id x v.session.world (.client none)
  rw [Visit.visitAfter]
  cases ms with
  | zero => exact first.trans (minds_wake ..)
  | succ ms => exact first.trans (minds_setTimer ..)

theorem goesBy_wakeFlight (v : Visit σ) (j : Nat) (f : Flight) :
    (v.wakeFlight j f).flights = v.flights.set j (v.session.turn f).1 ∧
      GoesBy (v.session.turn f).2 (v.wakeFlight j f).session := by
  rw [Visit.wakeFlight]
  dsimp only
  split
  · let after : Visit σ := { v with
      session := (v.session.turn f).2
      flights := v.flights.set j (v.session.turn f).1 }
    exact ⟨rfl, goesBy_visitAfter after ..⟩
  · exact ⟨rfl, .refl _⟩

omit [MemoryStore σ] in
theorem goesBy_stop (s : Session σ) (run : RunId) : GoesBy s (s.stop run).2 := by
  rw [stop]
  split
  · exact ⟨rfl, fun _ _ => minds_fire ..⟩
  · exact .refl s

/-- The turn is that of a run, or of somebody else, who may tell a run to stop. -/
theorem wake_cases (v : Visit σ) (id : TaskId) :
    (∃ j f, v.flights.findIdx? (·.task = id) = some j ∧ v.flights[j]? = some f ∧ f.task = id ∧
        v.wake id = v.wakeFlight j f) ∨
      v.flights.findIdx? (·.task = id) = none ∧ (v.wake id).flights = v.flights ∧
        ((v.wake id).session = v.session ∨ ∃ run, (v.wake id).session = (v.session.stop run).2) := by
  cases found : v.flights.findIdx? (·.task = id) with
  | some j =>
    obtain ⟨lt, task, -⟩ := List.findIdx?_eq_some_iff_getElem.mp found
    have hf : v.flights[j]? = some v.flights[j] := List.getElem?_eq_getElem lt
    refine .inl ⟨j, _, rfl, hf, of_decide_eq_true task, ?_⟩
    rw [Visit.wake, found]
    simp only [hf]
  | none =>
    refine .inr ⟨rfl, ?_⟩
    rw [Visit.wake, found]
    dsimp only
    split
    · exact ⟨rfl, .inr ⟨_, rfl⟩⟩
    · split
      · exact ⟨rfl, .inl rfl⟩
      · exact ⟨rfl, .inr ⟨_, rfl⟩⟩
    · exact ⟨rfl, .inl rfl⟩

/-! ## 3. What holds on a journey -/

/-- The tasks of the runs. -/
def Visit.tasks (v : Visit σ) : List TaskId := v.flights.map (·.task)

/-- The invariant of a journey. -/
structure Sound (e : Engine) (i : Nat) (past : List World) (a : Option Account) (v : Visit σ) :
    Prop where
  engine : v.session.engine = e
  ascending : Ascending v.session.world.timers
  apart : v.tasks.Nodup
  there : ∀ task ∈ v.tasks, task < v.session.world.tasks.size
  seen : Remembers v.session.world past
  tells : ∀ f, v.flights[i]? = some f → Tells e past f v.session.world a
  absent : v.flights[i]? = none → a = none

omit [MemoryStore σ] in
theorem Sound.recall {e : Engine} {i : Nat} {past : List World} {a : Option Account} {v : Visit σ}
    (h : Sound e i past a v) : Sound e i (past ++ [v.session.world]) a v :=
  { h with seen := h.seen.recall, tells := fun f hf => (h.tells f hf).recall }

omit [MemoryStore σ] in
/-- Others go on. -/
theorem Sound.keeps {e : Engine} {i : Nat} {past : List World} {a : Option Account} {v v' : Visit σ}
    (h : Sound e i past a v) (engine : v'.session.engine = v.session.engine)
    (follows : Follows v.session.world v'.session.world) (tasks : v'.tasks = v.tasks)
    (flight : v'.flights[i]? = v.flights[i]?)
    (keeps : ∀ f, v.flights[i]? = some f → v.session.world.HasClient f.task f.signal →
      Keeps f.task f.signal v.session.world v'.session.world) : Sound e i past a v' where
  engine := engine.trans h.engine
  ascending := follows.ascending h.ascending
  apart := tasks ▸ h.apart
  there task ht := Nat.lt_of_lt_of_le (h.there task (tasks ▸ ht)) follows.size
  seen := h.seen.follows follows
  tells f hf := by
    rw [flight] at hf
    exact (h.tells f hf).keeps h.seen follows (keeps f hf)
  absent none := h.absent (flight ▸ none)

omit [MemoryStore σ] in
theorem Sound.goesBy {e : Engine} {i : Nat} {past : List World} {a : Option Account}
    {v v' : Visit σ} (h : Sound e i past a v) (flights : v'.flights = v.flights)
    (goes : GoesBy v.session v'.session) : Sound e i past a v' :=
  h.keeps goes.engine (goes.minds 0 []).follows (by rw [Visit.tasks, flights]; rfl)
    (by rw [flights]) fun _ _ _ => (goes.minds _ _).keeps

omit [MemoryStore σ] in
/-- A new run gets a task of its own. -/
theorem request_adds (v : Visit σ) (q : RunRequest) :
    GoesBy v.session (v.request q).session ∧
      v.session.world.tasks.size < (v.request q).session.world.tasks.size ∧
      ∃ signal, (v.request q).flights =
        v.flights ++ [{ request := q, task := v.session.world.tasks.size, signal }] := by
  have spawned : ∀ id x, Minds id x v.session.world
      ((v.session.world.newSignal []).2.spawnIdle (.client none)).2 :=
    fun id x => (minds_newSignal ..).trans (minds_spawnIdle ..)
  have more : v.session.world.tasks.size <
      ((v.session.world.newSignal []).2.spawnIdle (.client none)).2.tasks.size := by
    simp [spawnIdle, newSignal]
  rw [Visit.request]
  cases q.startAfter with
  | zero =>
    refine ⟨⟨rfl, fun id x => (spawned id x).trans (minds_wake ..)⟩, ?_, _, rfl⟩
    exact Nat.lt_of_lt_of_le more (@minds_wake 0 [] _ _).size
  | succ ms =>
    refine ⟨⟨rfl, fun id x => (spawned id x).trans (minds_setTimer ..)⟩, ?_, _, rfl⟩
    exact Nat.lt_of_lt_of_le more (@minds_setTimer 0 [] _ _ _).size

omit [MemoryStore σ] in
/-- A new run is asked for. -/
theorem Sound.request {e : Engine} {i : Nat} {past : List World} {a : Option Account} {v : Visit σ}
    (h : Sound e i past a v) (q : RunRequest) : Sound e i past a (v.request q) := by
  obtain ⟨goes, more, signal, flights⟩ := request_adds v q
  have tasks : (v.request q).tasks = v.tasks ++ [v.session.world.tasks.size] := by
    rw [Visit.tasks, flights, List.map_append]
    rfl
  have follows := (goes.minds 0 []).follows
  refine ⟨goes.engine.trans h.engine, follows.ascending h.ascending, ?_, ?_,
    h.seen.follows follows, fun f hf => ?_, fun none => ?_⟩
  · rw [tasks, List.nodup_append]
    refine ⟨h.apart, List.nodup_singleton _, fun t ht u hu => ?_⟩
    rw [List.mem_singleton.mp hu]
    exact Nat.ne_of_lt (h.there t ht)
  · rw [tasks]
    refine List.forall_mem_append.mpr ⟨fun t ht => ?_, by simpa using more⟩
    exact Nat.lt_trans (h.there t ht) more
  · rw [flights] at hf
    rcases Nat.lt_or_ge i v.flights.length with lt | ge
    · rw [List.getElem?_append_left lt] at hf
      exact (h.tells f hf).keeps h.seen follows fun _ => (goes.minds _ _).keeps
    · -- nothing is told of the new run
      rw [h.absent (List.getElem?_eq_none ge)]
      rw [List.getElem?_append_right ge] at hf
      obtain rfl := List.mem_singleton.mp (List.mem_of_getElem? hf)
      exact .nothing (.inl rfl)
  · rw [flights, List.getElem?_eq_none_iff, List.length_append] at none
    exact h.absent (List.getElem?_eq_none (by omega))

/-- A turn of run number `j`. -/
theorem wakeFlight_tasks {v : Visit σ} {j : Nat} {f : Flight} (hf : v.flights[j]? = some f) :
    (v.wakeFlight j f).tasks = v.tasks := by
  have same : v.tasks[j]? = some (v.session.turn f).1.task := by
    rw [Visit.tasks, List.getElem?_map, hf, (spares_turn v.session f).party.2.1]
    rfl
  rw [Visit.tasks, (goesBy_wakeFlight v j f).1, List.map_set]
  obtain ⟨lt, same⟩ := List.getElem?_eq_some_iff.mp same
  rw [← same]
  exact List.set_getElem_self lt

theorem minds_wakeFlight (v : Visit σ) (j : Nat) (f : Flight) :
    (v.wakeFlight j f).session.engine = v.session.engine ∧
      ∀ id x, f.task ≠ id → Minds id x v.session.world (v.wakeFlight j f).session.world := by
  have first := spares_turn v.session f
  have later := (goesBy_wakeFlight v j f).2
  exact ⟨later.engine.trans first.engine,
    fun id x other => (first.minds id x other).trans (later.minds id x)⟩

omit [MemoryStore σ] in
theorem findIdx?_task {v : Visit σ} (apart : v.tasks.Nodup) {i : Nat} {f : Flight}
    (hf : v.flights[i]? = some f) : v.flights.findIdx? (·.task = f.task) = some i := by
  obtain ⟨lt, rfl⟩ := List.getElem?_eq_some_iff.mp hf
  have differ : v.flights.Pairwise (fun f g => f.task ≠ g.task) := List.pairwise_map.mp apart
  refine List.findIdx?_eq_some_iff_getElem.mpr ⟨lt, by simp, fun k hk => ?_⟩
  simpa using List.pairwise_iff_getElem.mp differ k i (by omega) lt hk

omit [MemoryStore σ] in
/-- A client that has its turn leaves the line. -/
theorem minds_popped {v : Visit σ} {w : World} {id : TaskId}
    (stepped : v.session.world.step v.session.engine.registry = (some (.client id), w)) :
    ∀ me x, id ≠ me → Minds me x v.session.world w := by
  intro me x other
  obtain ⟨line, popped⟩ := step_client stepped
  rw [popped]
  exact minds_ready line other

/-- Another client has its turn. -/
theorem Sound.other {e : Engine} {i : Nat} {past : List World} {a : Option Account} {v : Visit σ}
    (h : Sound e i past a v) {w : World} {id : TaskId}
    (stepped : v.session.world.step v.session.engine.registry = (some (.client id), w))
    (other : v.flights.findIdx? (·.task = id) ≠ some i) :
    Sound e i past a ((v.inWorld w).wake id) := by
  have first := minds_popped stepped
  have away : ∀ f, v.flights[i]? = some f → id ≠ f.task := by
    rintro f hf rfl
    exact other (findIdx?_task h.apart hf)
  -- it is enough that the turn takes nothing from the tasks of others
  have kept : ∀ {v' : Visit σ}, v'.session.engine = v.session.engine →
      (∀ me x, id ≠ me → Minds me x w v'.session.world) → v'.tasks = v.tasks →
      v'.flights[i]? = v.flights[i]? → Sound e i past a v' := by
    intro v' engine later tasks flight
    refine h.keeps engine (first _ [] ?_ |>.trans (later (id + 1) [] ?_)).follows tasks flight
      fun f hf _ => ((first _ _ (away f hf)).trans (later _ _ (away f hf))).keeps
    all_goals exact (Nat.succ_ne_self id).symm
  rcases wake_cases (v.inWorld w) id with ⟨j, f, found, hf, rfl, turn⟩ | ⟨-, flights, session⟩
  · rw [turn]
    obtain ⟨engine, later⟩ := minds_wakeFlight (v.inWorld w) j f
    have ne : j ≠ i := fun same => other (same ▸ found)
    refine kept engine later (wakeFlight_tasks hf) ?_
    rw [(goesBy_wakeFlight ..).1, List.getElem?_set_ne ne]
    rfl
  · have goes : GoesBy (v.inWorld w).session ((v.inWorld w).wake id).session := by
      rcases session with same | ⟨run, told⟩
      · exact same ▸ .refl _
      · exact told ▸ goesBy_stop ..
    refine kept goes.engine (fun me x _ => goes.minds me x) ?_ (by rw [flights]; rfl)
    rw [Visit.tasks, flights]
    rfl

/-- The run has its turn. -/
theorem Sound.own {e : Engine} {i : Nat} {past : List World} {a a' : Option Account} {v : Visit σ}
    (h : Sound e i past a v) {w : World} {id : TaskId} {f : Flight}
    (stepped : v.session.world.step v.session.engine.registry = (some (.client id), w))
    (mine : v.flights.findIdx? (·.task = id) = some i) (hf : v.flights[i]? = some f)
    (adds : Adds f (v.inWorld w).session a a') : Sound e i past a' ((v.inWorld w).wake id) := by
  obtain ⟨-, popped⟩ := step_client stepped
  have first := minds_popped stepped
  rcases wake_cases (v.inWorld w) id with ⟨j, g, found, hg, rfl, turn⟩ | ⟨none, -⟩
  · obtain rfl := Option.some.inj (found.symm.trans mine)
    obtain rfl := Option.some.inj (hg.symm.trans hf)
    rw [turn]
    obtain ⟨engine, later⟩ := minds_wakeFlight (v.inWorld w) j g
    have tasks : ((v.inWorld w).wakeFlight j g).tasks = v.tasks := wakeFlight_tasks hg
    -- the run itself has left the line, so what is kept is seen from any other task
    have away : g.task ≠ g.task + 1 := (Nat.succ_ne_self _).symm
    have follows := ((first _ [] away).trans (later _ [] away)).follows
    have there : g.task ∈ v.tasks := List.mem_map.mpr ⟨g, List.mem_of_getElem? hf, rfl⟩
    have told : Tells e past ((v.inWorld w).session.turn g).1
        ((v.inWorld w).session.turn g).2.world a' :=
      tells_turn (s := (v.inWorld w).session) (h.tells g hf) h.engine popped (h.there _ there)
        h.seen adds
    have seen : Remembers ((v.inWorld w).session.turn g).2.world past :=
      h.seen.follows ((first _ [] away).trans
        ((spares_turn (v.inWorld w).session g).minds _ [] away)).follows
    obtain ⟨flights, goes⟩ := goesBy_wakeFlight (v.inWorld w) j g
    have lt : j < (v.inWorld w).flights.length := (List.getElem?_eq_some_iff.mp hg).1
    refine ⟨engine.trans h.engine, follows.ascending h.ascending, tasks ▸ h.apart,
      fun t ht => Nat.lt_of_lt_of_le (h.there t (tasks ▸ ht)) follows.size,
      h.seen.follows follows, fun f hf => ?_, fun none => ?_⟩
    · rw [flights, List.getElem?_set_self lt] at hf
      obtain rfl := Option.some.inj hf
      exact told.keeps seen (goes.minds 0 []).follows fun _ => (goes.minds _ _).keeps
    · rw [flights, List.getElem?_eq_none_iff, List.length_set] at none
      exact absurd lt (Nat.not_lt.mpr none)
  · exact absurd (none.symm.trans mine) (by simp)

/-- **What is told of a run on a journey is true.** -/
theorem Journey.sound {i : Nat} {past : List World} {a : Option Account} {v : Visit σ}
    (h : Journey i past a v) : Sound v.session.engine i past a v := by
  induction h with
  | idle ascending =>
    exact ⟨rfl, ascending, .nil, by simp [Visit.tasks], by simp [Remembers], by simp, fun _ => rfl⟩
  | work j stepped ih =>
    refine ih.recall.keeps rfl (follows_step stepped) rfl rfl fun f hf client => ?_
    exact (minds_step_of_client client stepped).keeps
  | tick j quiet moved ih =>
    refine ih.recall.keeps rfl (follows_of_advance? moved) rfl rfl fun f hf client => ?_
    exact keeps_of_advance? quiet ih.ascending moved
  | own j stepped mine hf adds ih =>
    have sound := ih.recall.own stepped mine hf adds
    rwa [← sound.engine] at sound
  | other j stepped other ih =>
    have sound := ih.recall.other stepped other
    rwa [← sound.engine] at sound
  | request j q ih => exact ih.recall.request q
  | visitAfter j ms who ih => exact ih.recall.goesBy rfl (goesBy_visitAfter ..)

/-! ## 4. Runs of a visit -/

theorem Journey.passes {i : Nat} {past ws : List World} {a : Option Account} {v : Visit σ}
    {w m : World} (j : Journey i past a v) (start : v.session.world = w)
    (h : Passes v.session.engine.registry w ws m) : Journey i (past ++ ws) a (v.inWorld m) := by
  generalize registry : v.session.engine.registry = r at h
  induction h generalizing v past with
  | refl w =>
    subst start
    rw [List.append_nil]
    exact j
  | @work w w₁ m ws stepped _ ih =>
    subst start registry
    rw [← List.singleton_append, ← List.append_assoc]
    exact ih (v := v.inWorld w₁) (j.work stepped) rfl rfl
  | @tick w w₁ m ws quiet moved _ ih =>
    subst start registry
    rw [← List.singleton_append, ← List.append_assoc]
    exact ih (v := v.inWorld w₁) (j.tick quiet moved) rfl rfl

theorem Journey.wake {i : Nat} {past : List World} {a : Option Account} {v : Visit σ} {w : World}
    {id : TaskId} (j : Journey i past a v)
    (h : v.session.world.step v.session.engine.registry = (some (.client id), w)) :
    ∃ a', Journey i (past ++ [v.session.world]) a' ((v.inWorld w).wake id) := by
  by_cases mine : v.flights.findIdx? (·.task = id) = some i
  · obtain ⟨lt, -⟩ := List.findIdx?_eq_some_iff_getElem.mp mine
    obtain ⟨a', adds⟩ := exists_adds v.flights[i] (v.inWorld w).session a
    exact ⟨a', j.own h mine (List.getElem?_eq_getElem lt) adds⟩
  · exact ⟨a, j.other h mine⟩

/-- **Whatever a visit does is a journey** of each of its runs. -/
theorem Journey.run {i : Nat} {past : List World} {a : Option Account} {v : Visit σ}
    (j : Journey i past a v) (fuel : Nat) :
    ∃ more a', Journey i (past ++ more) a' (v.run fuel) := by
  -- nothing has happened yet
  have stays : ∃ more a', Journey i (past ++ more) a' v := ⟨[], a, by rwa [List.append_nil]⟩
  induction fuel generalizing v past a with
  | zero => exact stays
  | succ fuel ih =>
    rw [Visit.run]
    split
    · exact stays
    · dsimp only
      split
      · next w ran =>
        obtain ⟨ws, m, passes, rfl⟩ := passes_run ran
        exact ⟨ws, a, j.passes rfl passes⟩
      · next id w ran =>
        obtain ⟨ws, m, passes, stepped⟩ := passes_run ran
        obtain ⟨a', later⟩ := (j.passes rfl passes).wake stepped
        obtain ⟨more, a'', last⟩ := ih later ⟨[], a', by rwa [List.append_nil]⟩
        rw [List.append_assoc, List.append_assoc] at last
        exact ⟨_, a'', last⟩

end Session
end Runbook
