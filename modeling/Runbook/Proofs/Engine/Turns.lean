import Runbook.Proofs.Engine.Account

/-!
# The turn of a run

When a run has its turn, there may be something for it: it can start, or its pending question has an
answer. Then it goes on until it has to wait again, and its account gets longer by what it exchanged.

`Tells` is what holds of an account at any time: what it has was exchanged by a run of the workflow
asked for, and while the run waits, nothing goes by that it waits for. It is kept when others go on
(`Tells.keeps`) and when the run has its own turn (`tells_turn`).
-/

set_option autoImplicit false

namespace Runbook

open Dialogue RunDialogue Execution Schedule World

namespace Session

variable {σ : Type}

/-- What is told of a run: what it has exchanged, and what it is still to do. -/
structure Account where
  log : List Stamped
  pending : Pending

namespace Account

def exchanges (l : Account) : RunTrace := l.log.map (·.exchange)

/-- The log when the pending question has its answer. -/
def answered (l : Account) (f : Flight) (q : RunQuestion) (x : RunAnswer q) (s : Session σ) :
    List Stamped :=
  l.log ++ [⟨⟨q, x⟩, l.pending.asked, s.world.now, l.pending.stopped, s.world.isStopped f.signal⟩]

end Account

/-- A session that has just started a run. -/
def launched (s : Session σ) (f : Flight) (active : ActiveRuns) : Session σ :=
  let world := s.world.setTask f.task (.client (some f.signal))
  let world := match f.request.dropAfter.map (s.world.now + ·) with
    | some moment => world.setTimer moment f.task
    | none => world
  { s with active, world }

section

variable [MemoryStore σ]

/-! ## 1. The turn of a run -/

/-- There is something for a run that has its turn: it starts, or its pending question has an answer.
-/
inductive Resumes (f : Flight) (s : Session σ) :
    Option Account → List Stamped → RunDialogue RunRecord → Session σ → Prop where
  | launch {d : RunDialogue RunRecord} {active : ActiveRuns} (waits : f.waiting = .start)
      (started : s.engine.start s.active f.request.workflow f.request.id f.request.params f.signal =
        .ok (d, active)) : Resumes f s none [] d (s.launched f active)
  | approval {l : Account} {step prompt : String} {limit : Option Nat}
      {next : Approval → RunDialogue RunRecord} {p p' : OpenPrompt} {a : Approval}
      {s₁ : Session σ} (waits : f.waiting = .approval p next)
      (rest : l.pending.rest = .ask (.approval step prompt limit) next)
      (polled : s.pollPrompt f.signal p = (some a, p', s₁)) :
      Resumes f s (some l) (l.answered f (.approval step prompt limit) a s₁) (next a) s₁
  | call {l : Account} {tool : String} {inputs : Fields Json} {limit : Option Nat}
      {next : Except Failure ToolOutput → RunDialogue RunRecord} {wait : Wait}
      {x : Except Failure ToolOutput} {w : World} (waits : f.waiting = .call wait next)
      (rest : l.pending.rest = .ask (.call tool inputs limit) next)
      (polled : s.world.pollWait wait = (some x, w)) :
      Resumes f s (some l) (l.answered f (.call tool inputs limit) x { s with world := w }) (next x)
        { s with world := w }

/-- What a turn of the run adds to its account. -/
inductive Adds (f : Flight) (s : Session σ) : Option Account → Option Account → Prop where
  | nothing (a : Option Account) (h : ∀ log d s₁, ¬ Resumes f s a log d s₁) : Adds f s a a
  | goesOn {a : Option Account} {log more : List Stamped} {d : RunDialogue RunRecord}
      {s₁ : Session σ} {p : Pending} (h : Resumes f s a log d s₁)
      (goes : Goes f d s₁ more p (advance f d s₁).1 (advance f d s₁).2) :
      Adds f s a (some ⟨log ++ more, p⟩)

theorem exists_adds (f : Flight) (s : Session σ) (a : Option Account) : ∃ a', Adds f s a a' := by
  by_cases h : ∃ log d s₁, Resumes f s a log d s₁
  · obtain ⟨log, d, s₁, h⟩ := h
    obtain ⟨more, p, goes⟩ := goes_advance f d s₁
    exact ⟨_, .goesOn h goes⟩
  · exact ⟨a, .nothing a fun log d s₁ resumes => h ⟨log, d, s₁, resumes⟩⟩

/-! How a run goes on, by what it waits for. -/

theorem proceed_refused {f : Flight} {s : Session σ} {err : EngineError}
    (waits : f.waiting = .start)
    (refused : s.engine.start s.active f.request.workflow f.request.id f.request.params f.signal =
      .error err) : s.proceed f = ({ f with waiting := .over (.refused err) }, s) := by
  rw [Session.proceed, waits, beginFlight]
  simp only [refused]

theorem proceed_launched {f : Flight} {s : Session σ} {d : RunDialogue RunRecord}
    {active : ActiveRuns} (waits : f.waiting = .start)
    (started : s.engine.start s.active f.request.workflow f.request.id f.request.params f.signal =
      .ok (d, active)) :
    s.proceed f =
      ({ f with
          dropAt := f.request.dropAfter.map (s.world.now + ·)
          waiting := (advance f d (s.launched f active)).1 },
        (advance f d (s.launched f active)).2) := by
  rw [Session.proceed, waits, beginFlight]
  simp only [started]
  rfl

theorem proceed_approval {f : Flight} {s s' : Session σ} {p p' : OpenPrompt}
    {next : Approval → RunDialogue RunRecord} (waits : f.waiting = .approval p next)
    (polled : s.pollPrompt f.signal p = (none, p', s')) :
    s.proceed f = ({ f with waiting := .approval p' next }, s') := by
  rw [Session.proceed, waits]
  simp only [polled]

theorem proceed_approved {f : Flight} {s s' : Session σ} {p p' : OpenPrompt}
    {next : Approval → RunDialogue RunRecord} {a : Approval} (waits : f.waiting = .approval p next)
    (polled : s.pollPrompt f.signal p = (some a, p', s')) :
    s.proceed f = ({ f with waiting := (advance f (next a) s').1 }, (advance f (next a) s').2) := by
  rw [Session.proceed, waits]
  simp only [polled]

theorem proceed_call {f : Flight} {s : Session σ} {wait : Wait} {w : World}
    {next : Except Failure ToolOutput → RunDialogue RunRecord} (waits : f.waiting = .call wait next)
    (polled : s.world.pollWait wait = (none, w)) : s.proceed f = (f, { s with world := w }) := by
  rw [Session.proceed, waits]
  simp only [polled]

theorem proceed_called {f : Flight} {s : Session σ} {wait : Wait} {w : World}
    {next : Except Failure ToolOutput → RunDialogue RunRecord} {x : Except Failure ToolOutput}
    (waits : f.waiting = .call wait next) (polled : s.world.pollWait wait = (some x, w)) :
    s.proceed f =
      ({ f with waiting := (advance f (next x) { s with world := w }).1 },
        (advance f (next x) { s with world := w }).2) := by
  rw [Session.proceed, waits]
  simp only [polled]

theorem Resumes.proceed {f : Flight} {s s₁ : Session σ} {a : Option Account} {log : List Stamped}
    {d : RunDialogue RunRecord} (h : Resumes f s a log d s₁) :
    ∃ dropAt, s.proceed f =
      ({ f with dropAt, waiting := (advance f d s₁).1 }, (advance f d s₁).2) := by
  cases h with
  | launch waits started => exact ⟨_, proceed_launched waits started⟩
  | approval waits rest polled => exact ⟨f.dropAt, proceed_approved waits polled⟩
  | call waits rest polled => exact ⟨f.dropAt, proceed_called waits polled⟩

omit [MemoryStore σ] in
theorem goesBy_drop (s : Session σ) (f : Flight) : GoesBy s (s.drop f).2 := by
  refine ⟨rfl, fun id x => ?_⟩
  rw [drop]
  split
  · exact minds_dropWait ..
  · exact .refl _

/-- After a run has gone on, it may be dropped. -/
theorem turn_cases {f f' : Flight} {s s' : Session σ} (h : s.proceed f = (f', s'))
    (waits : ∀ e, f.waiting ≠ .over e) :
    ((s.turn f).1 = f' ∧ (s.turn f).2.engine = s'.engine ∧ (s.turn f).2.world = s'.world) ∨
      s.turn f = s'.drop f' := by
  rw [turn]
  split
  · next ended => exact absurd ended (waits _)
  · rw [h]
    dsimp only
    split
    · exact .inl ⟨rfl, rfl, rfl⟩
    · exact .inl ⟨rfl, rfl, rfl⟩
    · split
      · exact .inr rfl
      · exact .inl ⟨rfl, rfl, rfl⟩

/-! ## 2. What is told of a run -/

/-- What was exchanged is the front part of what some run of the workflow asked for exchanges. -/
def Begins (e : Engine) (q : RunRequest) (t : RunTrace) (d : RunDialogue RunRecord) : Prop :=
  ∃ w ∈ e.workflows, w.name = q.workflow ∧ ∃ params, ∀ u rec, Yields d u rec →
    Yields (execute e.config w q.id params) (t ++ u) rec

omit [MemoryStore σ] in
theorem Begins.answered {e : Engine} {q : RunRequest} {l : Account} {question : RunQuestion}
    {next : RunAnswer question → RunDialogue RunRecord}
    (h : Begins e q l.exchanges l.pending.rest) (rest : l.pending.rest = .ask question next)
    (f : Flight) (x : RunAnswer question) (s : Session σ) :
    Begins e q ((l.answered f question x s).map (·.exchange)) (next x) := by
  obtain ⟨w, hw, named, params, continues⟩ := h
  refine ⟨w, hw, named, params, fun u rec hu => ?_⟩
  have whole := continues (⟨question, x⟩ :: u) rec
    (rest ▸ yields_ask_iff.mpr ⟨x, u, rfl, hu⟩)
  rw [Account.answered, List.map_append, List.append_assoc]
  exact whole

/-- A run is about to go on, with this log. -/
structure Ready (e : Engine) (past : List World) (f : Flight) (s : Session σ) (log : List Stamped)
    (d : RunDialogue RunRecord) : Prop where
  engine : s.engine = e
  client : s.world.HasClient f.task f.signal
  seen : Remembers s.world past
  begins : Begins e f.request (log.map (·.exchange)) d
  continues : ∃ m b, Continues m b log s.world.now (s.world.isStopped f.signal)
  fair : ∀ x ∈ log, Fair f.party past x
  told : ∀ x ∈ log, x.told ≤ s.world.now

/-- The account of a run that has to wait, or is over. -/
structure Rests (e : Engine) (past : List World) (f : Flight) (w : World) (l : Account) : Prop where
  client : w.HasClient f.task f.signal
  begins : Begins e f.request l.exchanges l.pending.rest
  continues : ∃ m b, Continues m b l.log l.pending.asked l.pending.stopped
  fair : ∀ x ∈ l.log, Fair f.party past x
  told : ∀ x ∈ l.log, x.told ≤ w.now
  standing : Standing f.party past w l.pending f.waiting

/-- What is told of a run is true. -/
inductive Tells (e : Engine) (past : List World) (f : Flight) (w : World) :
    Option Account → Prop where
  | nothing (h : f.waiting = .start ∨ ∃ err, f.waiting = .over (.refused err)) :
      Tells e past f w none
  | account {l : Account} (h : Rests e past f w l) : Tells e past f w (some l)

/-- A run that goes on comes to rest. -/
theorem Ready.rests {e : Engine} {past : List World} {f f' : Flight} {s s' : Session σ}
    {log more : List Stamped} {d : RunDialogue RunRecord} {p : Pending}
    (h : Ready e past f s log d) (goes : Goes f d s more p f'.waiting s')
    (same : f'.request = f.request ∧ f'.task = f.task ∧ f'.signal = f.signal) :
    Rests e past f' s'.world ⟨log ++ more, p⟩ := by
  have party : f'.party = f.party := by rw [Flight.party, same.1, same.2.1, same.2.2]
  have passing := goes.goesBy
  constructor
  · rw [same.2.1, same.2.2]
    exact (passing.minds _ _).client h.client
  · obtain ⟨w, hw, named, params, continues⟩ := h.begins
    rw [same.1]
    refine ⟨w, hw, named, params, fun u rec hu => ?_⟩
    rw [Account.exchanges, List.map_append, List.append_assoc]
    exact continues _ rec (goes.yields hu)
  · obtain ⟨m, b, continues⟩ := h.continues
    exact ⟨m, b, continues_append continues goes.continues⟩
  · rw [party]
    exact List.forall_mem_append.mpr ⟨h.fair, goes.fair h.seen⟩
  · rw [passing.now]
    refine List.forall_mem_append.mpr ⟨h.told, fun x hx => ?_⟩
    exact Nat.le_of_eq (goes.moment x hx)
  · rw [party]
    exact goes.standing h.client h.seen

omit [MemoryStore σ] in
/-- The answer to the pending question is added to the account. -/
theorem Rests.ready {e : Engine} {past : List World} {f : Flight} {w : World} {l : Account}
    {question : RunQuestion} {next : RunAnswer question → RunDialogue RunRecord}
    {s : Session σ} (h : Rests e past f w l) (rest : l.pending.rest = .ask question next)
    (x : RunAnswer question) (engine : s.engine = e)
    (client : s.world.HasClient f.task f.signal) (seen : Remembers s.world past)
    (now : s.world.now = w.now)
    (fair : Fair f.party past ⟨⟨question, x⟩, l.pending.asked, s.world.now, l.pending.stopped,
      s.world.isStopped f.signal⟩) :
    Ready e past f s (l.answered f question x s) (next x) where
  engine := engine
  client := client
  seen := seen
  begins := h.begins.answered rest f x s
  continues := by
    obtain ⟨m, b, continues⟩ := h.continues
    let last : Stamped := ⟨⟨question, x⟩, l.pending.asked, s.world.now, l.pending.stopped,
      s.world.isStopped f.signal⟩
    exact ⟨m, b, continues_append continues (.cons (x := last) (.nil ..))⟩
  fair := List.forall_mem_append.mpr ⟨h.fair, by simpa using fair⟩
  told := by
    rw [now]
    exact List.forall_mem_append.mpr ⟨h.told, by simp [now]⟩

omit [MemoryStore σ] in
theorem Tells.recall {e : Engine} {past : List World} {f : Flight} {w : World} {a : Option Account}
    (h : Tells e past f w a) : Tells e (past ++ [w]) f w a := by
  cases h with
  | nothing h => exact .nothing h
  | account h =>
    exact .account { h with
      fair := fun x hx => (h.fair x hx).recall (h.told x hx)
      standing := h.standing.recall }

/-- What is told of a run stays true when others go on. -/
theorem Tells.keeps {e : Engine} {past : List World} {f : Flight} {w w' : World}
    {a : Option Account} (h : Tells e past f w a) (seen : Remembers w past) (follows : Follows w w')
    (keeps : w.HasClient f.task f.signal → Keeps f.task f.signal w w') : Tells e past f w' a := by
  cases h with
  | nothing h => exact .nothing h
  | account h =>
    have keeps := keeps h.client
    exact .account { h with
      client := keeps.client h.client
      told := fun x hx => Nat.le_trans (h.told x hx) follows.later
      standing := h.standing.keeps h.client seen keeps }

/-! ## 3. The run goes on -/

omit [MemoryStore σ] in
/-- No time has passed, and the run waits for the answer it has waited for, or is over. -/
theorem Rests.renewed {e : Engine} {past : List World} {f : Flight} {w w' : World} {l : Account}
    {wt : Waiting} (h : Rests e past f w l)
    (client : w.HasClient f.task f.signal → w'.HasClient f.task f.signal) (now : w'.now = w.now)
    (standing : Standing f.party past w' l.pending wt) :
    Rests e past { f with waiting := wt } w' l :=
  { h with
    client := client h.client
    told := by
      rw [now]
      exact h.told
    standing }

/-- A turn ends where the run has come to rest, or with its drop. -/
theorem Rests.turn {e : Engine} {past : List World} {f f' : Flight} {s s' : Session σ} {l : Account}
    (h : Rests e past f' s'.world l) (proceed : s.proceed f = (f', s'))
    (waits : ∀ x, f.waiting ≠ .over x) :
    Rests e past (s.turn f).1 (s.turn f).2.world l := by
  rcases turn_cases proceed waits with ⟨flight, -, world⟩ | dropped
  · rw [flight, world]
    exact h
  · rw [dropped]
    have goes := goesBy_drop s' f'
    exact h.renewed (goes.minds _ _).client goes.now (.dropped _)

omit [MemoryStore σ] in
theorem Resumes.waits {f : Flight} {s s₁ : Session σ} {a : Option Account} {log : List Stamped}
    {d : RunDialogue RunRecord} (h : Resumes f s a log d s₁) : ∀ x, f.waiting ≠ .over x := by
  intro x ended
  cases h with
  | launch waits | approval waits | call waits => cases waits.symm.trans ended

omit [MemoryStore σ] in
theorem minds_launched {id : TaskId} {x : Signal} {s : Session σ} {f : Flight} {active : ActiveRuns}
    (other : f.task ≠ id) : Minds id x s.world (s.launched f active).world := by
  have set : Minds id x s.world (s.world.setTask f.task (.client (some f.signal))) :=
    minds_setTask _ fun _ => other
  rw [launched]
  dsimp only
  split
  · exact set.trans (minds_setTimer ..)
  · exact set

omit [MemoryStore σ] in
/-- A run that has just started waits for its signal. -/
theorem hasClient_launched {s : Session σ} {f : Flight} {active : ActiveRuns}
    (there : f.task < s.world.tasks.size) :
    (s.launched f active).world.HasClient f.task f.signal := by
  have set : (s.world.setTask f.task (.client (some f.signal))).HasClient f.task f.signal := by
    rw [HasClient, task?, setTask, Array.getElem?_setIfInBounds_self_of_lt there]
  rw [launched]
  dsimp only
  split
  · exact (minds_setTimer ..).client set
  · exact set

omit [MemoryStore σ] in
/-- The account of a run is still true if there is something for the run. -/
theorem Resumes.ready {e : Engine} {past : List World} {f : Flight} {w : World}
    {ready : List TaskId} {s s₁ : Session σ} {a : Option Account} {log : List Stamped}
    {d : RunDialogue RunRecord} (resumes : Resumes f s a log d s₁) (h : Tells e past f w a)
    (engine : s.engine = e) (popped : s.world = { w with ready }) (there : f.task < w.tasks.size)
    (seen : Remembers w past) : Ready e past f s₁ log d := by
  have now : s.world.now = w.now := by rw [popped]
  have seen : Remembers s.world past := by
    rw [popped]
    exact seen
  have client : ∀ {l}, Rests e past f w l → s.world.HasClient f.task f.signal := by
    intro l h
    rw [popped]
    exact h.client
  cases resumes with
  | @launch _ active waits started =>
    obtain ⟨wf, params, hw, named, -, -, rfl, -⟩ := Engine.start_ok started
    -- the task of the run is replaced, so what is kept is seen from any other one
    have later : Follows s.world (s.launched f active).world :=
      (@minds_launched σ (f.task + 1) [] s f active (Nat.succ_ne_self _).symm).follows
    refine ⟨engine, hasClient_launched (by rw [popped]; exact there), seen.follows later, ?_,
      ⟨_, _, .nil ..⟩, by simp, by simp⟩
    exact ⟨wf, engine ▸ hw, named, params, fun u rec hu => engine ▸ hu⟩
  | @approval l step prompt limit next p p' a s₁ waits rest polled =>
    obtain _ | rests := h
    have goes := goesBy_pollPrompt polled
    refine rests.ready rest a (goes.engine.trans engine) ((goes.minds _ _).client (client rests))
      (seen.follows (goes.minds 0 []).follows) (goes.now.trans now) (.gate ?_)
    rintro rfl -
    have standing := rests.standing
    rw [waits] at standing
    generalize l.pending = pending at standing rest
    cases standing with
    | gate atGate =>
      cases rest
      exact atGate.saysYes now polled
  | @call l tool inputs limit next wait x w₁ waits rest polled =>
    obtain _ | rests := h
    have minds : ∀ id y, Minds id y s.world w₁ := minds_of_pollWait polled
    exact rests.ready rest x engine ((minds _ _).client (client rests))
      (seen.follows (minds 0 []).follows) ((minds 0 []).now.trans now) .call

theorem turn_over {f : Flight} {s : Session σ} {x : RunEnd} (ended : f.waiting = .over x) :
    s.turn f = (f, s) := by
  rw [turn, ended]

theorem turn_refused {f : Flight} {s : Session σ} {err : EngineError} (waits : f.waiting = .start)
    (refused : s.engine.start s.active f.request.workflow f.request.id f.request.params f.signal =
      .error err) : s.turn f = ({ f with waiting := .over (.refused err) }, s) := by
  rw [turn, waits]
  simp only [proceed_refused waits refused]

/-- The account of a run stays as it is if its pending question has no answer yet. -/
theorem Rests.idle {e : Engine} {past : List World} {f : Flight} {w : World} {ready : List TaskId}
    {s : Session σ} {l : Account} (h : Rests e past f w l) (popped : s.world = { w with ready })
    (idle : ∀ log d s₁, ¬ Resumes f s (some l) log d s₁) :
    Rests e past (s.turn f).1 (s.turn f).2.world l := by
  have now : s.world.now = w.now := by rw [popped]
  have timers : s.world.timers = w.timers := by rw [popped]
  have client : w.HasClient f.task f.signal → s.world.HasClient f.task f.signal := by
    rw [popped]
    exact id
  have standing := h.standing
  generalize rest : l.pending = pending at standing
  generalize waits : f.waiting = wt at standing
  -- a run that is over stays as it is, and a poll without an answer is no reason to go on
  cases standing with
  | finished r =>
    rw [turn_over waits]
    have ended := h.renewed client now (rest ▸ Standing.finished ..)
    rwa [← waits] at ended
  | dropped =>
    rw [turn_over waits]
    have ended := h.renewed client now (.dropped _)
    rwa [← waits] at ended
  | @gate step prompt limit next asked p atGate =>
    rcases polled : s.pollPrompt f.signal p with ⟨_ | a, p', s₁⟩
    · have goes := goesBy_pollPrompt polled
      have rests : Rests e past { f with waiting := .approval p' next } s₁.world l :=
        h.renewed (fun there => (goes.minds _ _).client (client there)) (goes.now.trans now)
          (rest ▸ Standing.gate (atGate.stays now timers polled))
      exact rests.turn (proceed_approval waits polled) (by simp [waits])
    · exact absurd (.approval waits (by rw [rest]) polled) (idle _ _ _)
  | @call tool inputs limit next asked stopped wait =>
    rcases polled : s.world.pollWait wait with ⟨_ | x, w₁⟩
    · have minds : ∀ id y, Minds id y s.world w₁ := minds_of_pollWait polled
      have rests : Rests e past { f with waiting := .call wait next } w₁ l :=
        h.renewed (fun there => (minds _ _).client (client there)) ((minds 0 []).now.trans now)
          (rest ▸ Standing.call ..)
      rw [← waits] at rests
      exact rests.turn (proceed_call waits polled) (by simp [waits])
    · exact absurd (.call waits (by rw [rest]) polled) (idle _ _ _)

/-- A run that has not started, and does not start, has no account. -/
theorem tells_unstarted {e : Engine} {past : List World} {f : Flight} {s : Session σ}
    (h : f.waiting = .start ∨ ∃ err, f.waiting = .over (.refused err))
    (idle : ∀ log d s₁, ¬ Resumes f s none log d s₁) :
    Tells e past (s.turn f).1 (s.turn f).2.world none := by
  rcases h with waits | ⟨err, ended⟩
  · cases started : s.engine.start s.active f.request.workflow f.request.id f.request.params
        f.signal with
    | ok r => exact absurd (.launch waits started) (idle _ _ _)
    | error err =>
      rw [turn_refused waits started]
      exact .nothing (.inr ⟨err, rfl⟩)
  · rw [turn_over ended]
    exact .nothing (.inr ⟨err, ended⟩)

/-- **What is told of a run stays true when it has its turn.** -/
theorem tells_turn {e : Engine} {past : List World} {f : Flight} {w : World} {ready : List TaskId}
    {s : Session σ} {a a' : Option Account} (h : Tells e past f w a) (engine : s.engine = e)
    (popped : s.world = { w with ready }) (there : f.task < w.tasks.size) (seen : Remembers w past)
    (adds : Adds f s a a') : Tells e past (s.turn f).1 (s.turn f).2.world a' := by
  cases adds with
  | nothing idle =>
    cases h with
    | nothing h => exact tells_unstarted h idle
    | account h => exact .account (h.idle popped idle)
  | @goesOn log more d s₁ p resumes goes =>
    obtain ⟨dropAt, proceed⟩ := resumes.proceed
    have ready := resumes.ready h engine popped there seen
    have rests : Rests e past { f with dropAt, waiting := (advance f d s₁).1 }
        (advance f d s₁).2.world ⟨log ++ more, p⟩ := ready.rests goes ⟨rfl, rfl, rfl⟩
    exact .account (rests.turn proceed resumes.waits)

end
end Session
end Runbook
