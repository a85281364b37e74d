import Runbook.Engine.Session
import Runbook.Proofs.Engine.Traffic
import Runbook.Proofs.Schedule.Moments

/-!
# The account of a run

A run of a session puts one question after another, and most of them are answered at once. `Goes`
follows a run until it has to wait and gives an account of it: each exchange with the moments of
its question and of its answer, and with whether the run had been told to stop by then.

A prompt is answered when its moment has come, and the answer counts even if the run is told to stop
at that same moment.
-/

set_option autoImplicit false

namespace Runbook

open Dialogue Schedule World

/-- Who asks for a run: whom it asks for approval, its task and its signal. -/
structure Party where
  approver : Approver
  task : TaskId
  signal : Signal

abbrev Flight.party (f : Flight) : Party := ⟨f.request.approver, f.task, f.signal⟩

namespace Session

variable {σ : Type}

/-- An exchange of a run with its moments. -/
structure Stamped where
  exchange : RunExchange
  asked : Nat
  told : Nat
  /-- The run had been told to stop when the question was put. -/
  stoppedBefore : Bool
  /-- The run had been told to stop when the answer had come. -/
  stoppedAfter : Bool

def stamp (f : Flight) (q : RunQuestion) (x : RunAnswer q) (s s' : Session σ) : Stamped where
  exchange := ⟨q, x⟩
  asked := s.world.now
  told := s'.world.now
  stoppedBefore := s.world.isStopped f.signal
  stoppedAfter := s'.world.isStopped f.signal

/-! ## 1. Prompts -/

/-- The reaction to a prompt has come, with or without an answer. -/
def Reacts (p : OpenPrompt) (now : Nat) : Prop := p.reactAt.any (· ≤ now) = true

/-- What may come of a poll: an answer counts at once, then the time may be up, and then the run may
have been told to stop. -/
inductive Polled (signal : Signal) (p : OpenPrompt) (s : Session σ) :
    Option Approval → OpenPrompt → Prop where
  | approved (reacts : Reacts p s.world.now) (answer : p.reaction.answer = some true) :
      Polled signal p s (some .approved) p
  | denied (reacts : Reacts p s.world.now) (answer : p.reaction.answer = some false) :
      Polled signal p s (some .denied) p
  | expired (p' : OpenPrompt) (late : p.limitAt.any (· ≤ s.world.now) = true) :
      Polled signal p s (some .expired) p'
  | stopped (p' : OpenPrompt) (told : s.world.isStopped signal = true) :
      Polled signal p s (some .stopped) p'
  /-- The reaction is still to come. -/
  | awaited (early : ¬ Reacts p s.world.now) (inTime : ¬ p.limitAt.any (· ≤ s.world.now) = true)
      (goesOn : ¬ s.world.isStopped signal = true) : Polled signal p s none p
  /-- The reaction has come, and was no answer. -/
  | unanswered (answer : p.reaction.answer = none)
      (inTime : ¬ p.limitAt.any (· ≤ s.world.now) = true)
      (goesOn : ¬ s.world.isStopped signal = true) :
      Polled signal p s none { p with reactAt := none }

/-- Without an answer the time and the signal decide. -/
theorem polled_of_silence {s s' : Session σ} {signal : Signal} {p q p' : OpenPrompt}
    {x : Option Approval} (limit : q.limitAt = p.limitAt)
    (stays : ¬ q.limitAt.any (· ≤ s.world.now) = true → ¬ s.world.isStopped signal = true →
      Polled signal p s none q)
    (h : (if q.limitAt.any (· ≤ s.world.now) then (some .expired, q, s)
      else if s.world.isStopped signal then (some .stopped, q, s) else (none, q, s)) = (x, p', s')) :
    s' = s ∧ Polled signal p s x p' := by
  split at h
  · next late =>
    cases h
    exact ⟨rfl, .expired _ (limit ▸ late)⟩
  · next inTime =>
    split at h
    · next told =>
      cases h
      exact ⟨rfl, .stopped _ told⟩
    · next goesOn =>
      cases h
      exact ⟨rfl, stays inTime goesOn⟩

/-- A poll of a prompt may fire the signal of the run, if the reaction does so. -/
theorem polled_of_pollPrompt {s s' : Session σ} {signal : Signal} {p p' : OpenPrompt}
    {x : Option Approval} (h : s.pollPrompt signal p = (x, p', s')) :
    (s' = s ∨ s' = { s with world := s.world.fire signal }) ∧ Polled signal p s' x p' := by
  unfold pollPrompt at h
  dsimp only at h
  generalize hs : (if (p.reactAt.any (· ≤ s.world.now) && p.reaction.stopsRun) = true then
    { s with world := s.world.fire signal } else s : Session σ) = s₁ at h
  have session : s₁ = s ∨ s₁ = { s with world := s.world.fire signal } := by
    rw [← hs]
    split
    · exact .inr rfl
    · exact .inl rfl
  have now : s₁.world.now = s.world.now := by
    rcases session with rfl | rfl
    · rfl
    · exact (@minds_fire 0 [] s.world signal).now
  rw [← now] at h
  cases reacts : p.reactAt.any (· ≤ s₁.world.now) with
  | false =>
    rw [reacts] at h
    have early : ¬ Reacts p s₁.world.now := by
      rw [Reacts, reacts]
      exact Bool.false_ne_true
    obtain ⟨rfl, polled⟩ := polled_of_silence (p := p) rfl (.awaited early) h
    exact ⟨session, polled⟩
  | true =>
    rw [reacts] at h
    cases answer : p.reaction.answer with
    | none =>
      rw [answer] at h
      have stays := @Polled.unanswered σ signal p s₁ answer
      obtain ⟨rfl, polled⟩ := polled_of_silence (p := p) (q := { p with reactAt := none }) rfl stays h
      exact ⟨session, polled⟩
    | some yes =>
      rw [answer] at h
      cases yes with
      | false =>
        cases h
        exact ⟨session, .denied reacts answer⟩
      | true =>
        cases h
        exact ⟨session, .approved reacts answer⟩

/-- One part of a session goes on, and those who wait outside lose nothing. -/
structure GoesBy (s s' : Session σ) : Prop where
  engine : s'.engine = s.engine
  minds : ∀ id signal, Minds id signal s.world s'.world

theorem GoesBy.refl (s : Session σ) : GoesBy s s := ⟨rfl, fun _ _ => .refl _⟩

theorem GoesBy.trans {s s' s'' : Session σ} (first : GoesBy s s') (later : GoesBy s' s'') :
    GoesBy s s'' :=
  ⟨later.engine.trans first.engine, fun id x => (first.minds id x).trans (later.minds id x)⟩

theorem GoesBy.now {s s' : Session σ} (h : GoesBy s s') : s'.world.now = s.world.now :=
  (h.minds 0 []).now

theorem GoesBy.fired {s s' : Session σ} (h : GoesBy s s') {x : Signal}
    (fired : s.world.isStopped x = true) : s'.world.isStopped x = true :=
  (h.minds 0 []).fired x fired

theorem goesBy_pollPrompt {s s' : Session σ} {signal : Signal} {p p' : OpenPrompt}
    {x : Option Approval} (h : s.pollPrompt signal p = (x, p', s')) : GoesBy s s' := by
  rcases (polled_of_pollPrompt h).1 with rfl | rfl
  · exact .refl s'
  · exact ⟨rfl, fun _ _ => minds_fire s.world signal⟩

/-- A prompt as it is put to the approver of a run. -/
def opening (f : Flight) (step prompt : String) (limit : Option Nat) (now : Nat) : OpenPrompt where
  reaction := f.request.approver step prompt
  reactAt := some (now + (f.request.approver step prompt).delay)
  limitAt := limit.map (now + · * 1000)

theorem minds_promptTimers {id : TaskId} {x : Signal} (p : OpenPrompt) (task : TaskId)
    (w : World) : Minds id x w (promptTimers p task w) :=
  Minds.foldl (fun w moment => minds_setTimer w moment task) w _

theorem mem_promptTimers {p : OpenPrompt} {task : TaskId} {w : World} {moment : Nat}
    (h : p.reactAt = some moment ∨ p.limitAt = some moment) :
    ⟨moment, task⟩ ∈ (promptTimers p task w).timers := by
  have listed : moment ∈ p.reactAt.toList ++ p.limitAt.toList := by
    rcases h with h | h <;> simp [h]
  rw [promptTimers]
  generalize p.reactAt.toList ++ p.limitAt.toList = moments at listed
  induction moments generalizing w with
  | nil => cases listed
  | cons m moments ih =>
    rcases List.mem_cons.mp listed with rfl | listed
    · have later : Minds task [] (w.setTimer moment task)
          (moments.foldl (fun w m => w.setTimer m task) (w.setTimer moment task)) :=
        Minds.foldl (fun w m => minds_setTimer w m task) _ moments
      exact later.timers _ (mem_insertTimer.mpr (.inl rfl))
    · exact ih listed

/-- A prompt that is opened is polled at once, and timers are set if it stays open. -/
theorem openPrompt_cases {s s' : Session σ} {f : Flight} {step prompt : String}
    {limit : Option Nat} {x : Option Approval} {p : OpenPrompt}
    (h : s.openPrompt f step prompt limit = (x, p, s')) :
    ∃ s₁, GoesBy s s₁ ∧ Polled f.signal (opening f step prompt limit s.world.now) s₁ x p ∧
      s' = if x.isSome then s₁ else { s₁ with world := promptTimers p f.task s₁.world } := by
  have noted : GoesBy s { s with world := s.world.note (f.request.approver step prompt).notes } :=
    ⟨rfl, fun _ _ => minds_note ..⟩
  unfold openPrompt at h
  dsimp only at h
  split at h
  · next a p' s₁ polled =>
    cases h
    exact ⟨_, noted.trans (goesBy_pollPrompt polled), (polled_of_pollPrompt polled).2, rfl⟩
  · next p' s₁ polled =>
    cases h
    exact ⟨_, noted.trans (goesBy_pollPrompt polled), (polled_of_pollPrompt polled).2, rfl⟩

theorem goesBy_openPrompt {s s' : Session σ} {f : Flight} {step prompt : String}
    {limit : Option Nat} {x : Option Approval} {p : OpenPrompt}
    (h : s.openPrompt f step prompt limit = (x, p, s')) : GoesBy s s' := by
  obtain ⟨s₁, first, -, rfl⟩ := openPrompt_cases h
  split
  · exact first
  · exact first.trans ⟨rfl, fun _ _ => minds_promptTimers ..⟩

/-! ## 2. Going on -/

section

variable [MemoryStore σ]

/-- A question that is answered at once. -/
inductive Reply (f : Flight) (s : Session σ) : (q : RunQuestion) → RunAnswer q → Session σ → Prop where
  | store (q : Memory.StoreQuestion) : Reply f s (.store q) (s.ask q).1 (s.ask q).2
  | time : Reply f s .time s.time.1 s.time.2
  | stopRequested : Reply f s .stopRequested (s.world.isStopped f.signal) s
  | approval {step prompt : String} {limit : Option Nat} {a : Approval} {p : OpenPrompt}
      {s' : Session σ} (h : s.openPrompt f step prompt limit = (some a, p, s')) :
      Reply f s (.approval step prompt limit) a s'
  | unknown {tool : String} {inputs : Fields Json} {limit : Option Nat} {e : Failure} {w : World}
      (h : s.world.startCall s.engine.registry tool inputs f.signal (limit.map (· * 1000)) f.task =
        (.error e, w)) : Reply f s (.call tool inputs limit) (.error e) { s with world := w }
  | call {tool : String} {inputs : Fields Json} {limit : Option Nat} {wait : Wait} {w w' : World}
      {x : Except Failure ToolOutput}
      (started : s.world.startCall s.engine.registry tool inputs f.signal (limit.map (· * 1000))
        f.task = (.ok wait, w)) (polled : w.pollWait wait = (some x, w')) :
      Reply f s (.call tool inputs limit) x { s with world := w' }

theorem minds_of_startCall {r : Registry} {w w' : World} {tool : String} {inputs : Fields Json}
    {signal : Signal} {limit : Option Nat} {caller : TaskId} {x : Except Failure Wait}
    (h : startCall r w tool inputs signal limit caller = (x, w')) (id : TaskId) (y : Signal) :
    Minds id y w w' := by
  obtain rfl : (startCall r w tool inputs signal limit caller).2 = w' := congrArg Prod.snd h
  exact minds_startCall ..

theorem minds_of_pollWait {w w' : World} {wait : Wait} {x : Option (Except Failure ToolOutput)}
    (h : w.pollWait wait = (x, w')) (id : TaskId) (y : Signal) : Minds id y w w' := by
  obtain rfl : (w.pollWait wait).2 = w' := congrArg Prod.snd h
  exact minds_pollWait ..

theorem Reply.goesBy {f : Flight} {s s' : Session σ} {q : RunQuestion} {x : RunAnswer q}
    (h : Reply f s q x s') : GoesBy s s' := by
  cases h with
  | store q => exact ⟨rfl, fun _ _ => .refl _⟩
  | time => exact ⟨rfl, fun _ _ => .refl _⟩
  | stopRequested => exact .refl s
  | approval h => exact goesBy_openPrompt h
  | unknown h => exact ⟨rfl, minds_of_startCall h⟩
  | call started polled =>
    exact ⟨rfl, fun id y => (minds_of_startCall started id y).trans (minds_of_pollWait polled id y)⟩

/-- What a run is still to do: its next question has been put, and is not answered yet. -/
structure Pending where
  rest : RunDialogue RunRecord
  asked : Nat
  /-- The run had been told to stop when the question was put. -/
  stopped : Bool

omit [MemoryStore σ] in
/-- The next question is put now. -/
def pending (f : Flight) (d : RunDialogue RunRecord) (s : Session σ) : Pending :=
  ⟨d, s.world.now, s.world.isStopped f.signal⟩

/-- A run goes on until it has to wait: with what was exchanged, and what it is still to do. -/
inductive Goes (f : Flight) : RunDialogue RunRecord → Session σ → List Stamped → Pending →
    Waiting → Session σ → Prop where
  | finished (r : RunRecord) (s : Session σ) :
      Goes f (.done r) s [] (pending f (.done r) s) (.over (.finished r)) s
  | told {q : RunQuestion} {next : RunAnswer q → RunDialogue RunRecord} {x : RunAnswer q}
      {s s₁ s₂ : Session σ} {log : List Stamped} {p : Pending} {w : Waiting}
      (reply : Reply f s q x s₁) (later : Goes f (next x) s₁ log p w s₂) :
      Goes f (.ask q next) s (stamp f q x s s₁ :: log) p w s₂
  | gate {step prompt : String} {limit : Option Nat} {next : Approval → RunDialogue RunRecord}
      {s s' : Session σ} {p : OpenPrompt} (h : s.openPrompt f step prompt limit = (none, p, s')) :
      Goes f (.ask (.approval step prompt limit) next) s []
        (pending f (.ask (.approval step prompt limit) next) s) (.approval p next) s'
  | call {tool : String} {inputs : Fields Json} {limit : Option Nat}
      {next : Except Failure ToolOutput → RunDialogue RunRecord} {s : Session σ} {wait : Wait}
      {w w' : World}
      (started : s.world.startCall s.engine.registry tool inputs f.signal (limit.map (· * 1000))
        f.task = (.ok wait, w)) (polled : w.pollWait wait = (none, w')) :
      Goes f (.ask (.call tool inputs limit) next) s []
        (pending f (.ask (.call tool inputs limit) next) s) (.call wait next) { s with world := w' }

/-- **Whatever a run does until it has to wait has an account.** -/
theorem goes_advance (f : Flight) (d : RunDialogue RunRecord) (s : Session σ) :
    ∃ log p, Goes f d s log p (advance f d s).1 (advance f d s).2 := by
  induction d generalizing s with
  | done r => exact ⟨[], _, .finished r s⟩
  | ask q next ih =>
    -- a question that is answered at once leaves the rest to the induction
    have goesOn : ∀ {x : RunAnswer q} {s₁ : Session σ} {out : Waiting × Session σ},
        Reply f s q x s₁ → advance f (next x) s₁ = out →
        ∃ log p, Goes f (.ask q next) s log p out.1 out.2 := by
      rintro x s₁ _ reply rfl
      obtain ⟨log, p, later⟩ := ih x s₁
      exact ⟨_, p, .told reply later⟩
    cases q with
    | store q => exact goesOn (.store q) rfl
    | time => exact goesOn .time rfl
    | stopRequested => exact goesOn .stopRequested rfl
    | approval step prompt limit =>
      rw [advance]
      split
      · next h => exact goesOn (.approval h) rfl
      · next h => exact ⟨[], _, .gate h⟩
    | call tool inputs limit =>
      rw [advance]
      split
      · next h => exact goesOn (.unknown h) rfl
      · next started =>
        split
        · next polled => exact goesOn (.call started polled) rfl
        · next polled => exact ⟨[], _, .call started polled⟩

/-! ## 3. What an account says -/

/-- One exchange begins where the one in front of it has ended. -/
inductive Continues : Nat → Bool → List Stamped → Nat → Bool → Prop where
  | nil (moment : Nat) (stopped : Bool) : Continues moment stopped [] moment stopped
  | cons {x : Stamped} {log : List Stamped} {moment : Nat} {stopped : Bool}
      (later : Continues x.told x.stoppedAfter log moment stopped) :
      Continues x.asked x.stoppedBefore (x :: log) moment stopped

omit [MemoryStore σ] in
theorem continues_append {m m₁ m₂ : Nat} {b b₁ b₂ : Bool} {log more : List Stamped}
    (first : Continues m b log m₁ b₁) (later : Continues m₁ b₁ more m₂ b₂) :
    Continues m b (log ++ more) m₂ b₂ := by
  induction first with
  | nil => exact later
  | cons _ ih => exact .cons (ih later)

/-- A yes came in its moment and within the limit, and at no earlier moment had the run been told to
stop. -/
structure SaysYes (me : Party) (past : List World) (step prompt : String) (limit : Option Nat)
    (asked told : Nat) : Prop where
  answer : (me.approver step prompt).answer = some true
  moment : told = asked + (me.approver step prompt).delay
  inTime : ∀ secs, limit = some secs → told ≤ asked + secs * 1000
  goesOn : ∀ u ∈ past, u.now < told → u.isStopped me.signal = false

/-- What holds of each exchange in an account, given the worlds of the past. -/
inductive Fair (me : Party) (past : List World) : Stamped → Prop where
  | store (q : Memory.StoreQuestion) (x : Memory.StoreAnswer q) (moment : Nat) (stopped : Bool) :
      Fair me past ⟨⟨.store q, x⟩, moment, moment, stopped, stopped⟩
  | time (t : Instant) (moment : Nat) (stopped : Bool) :
      Fair me past ⟨⟨.time, t⟩, moment, moment, stopped, stopped⟩
  /-- The run learns whether it has been told to stop. -/
  | stop (moment : Nat) (stopped : Bool)
      (goesOn : stopped = false → ∀ u ∈ past, u.now < moment → u.isStopped me.signal = false) :
      Fair me past ⟨⟨.stopRequested, stopped⟩, moment, moment, stopped, stopped⟩
  | gate {step prompt : String} {limit : Option Nat} {a : Approval} {asked told : Nat}
      {before after : Bool}
      (yes : a = .approved → before = false → SaysYes me past step prompt limit asked told) :
      Fair me past ⟨⟨.approval step prompt limit, a⟩, asked, told, before, after⟩
  | call {tool : String} {inputs : Fields Json} {limit : Option Nat}
      {x : Except Failure ToolOutput} {asked told : Nat} {before after : Bool} :
      Fair me past ⟨⟨.call tool inputs limit, x⟩, asked, told, before, after⟩

/-- A signal that had fired in the past has fired. -/
def Remembers (w : World) (past : List World) : Prop :=
  ∀ u ∈ past, ∀ x, u.isStopped x = true → w.isStopped x = true

theorem Remembers.goesOn {w : World} {past : List World} {x : Signal} (h : Remembers w past)
    (goesOn : ¬ w.isStopped x = true) : ∀ u ∈ past, u.isStopped x = false :=
  fun u hu => Bool.eq_false_iff.mpr fun fired => goesOn (h u hu x fired)

theorem Remembers.recall {w : World} {past : List World} (h : Remembers w past) :
    Remembers w (past ++ [w]) := by
  intro u hu x fired
  rcases List.mem_append.mp hu with hu | hu
  · exact h u hu x fired
  · exact List.mem_singleton.mp hu ▸ fired

theorem Remembers.follows {w w' : World} {past : List World} (h : Remembers w past)
    (later : Follows w w') : Remembers w' past :=
  fun u hu x fired => later.fired x (h u hu x fired)

/-- What was true of all earlier worlds is so when the present one is past. -/
theorem earlier_recall {w : World} {past : List World} {moment : Nat} {x : Signal}
    (h : ∀ u ∈ past, u.now < moment → u.isStopped x = false) (reached : moment ≤ w.now) :
    ∀ u ∈ past ++ [w], u.now < moment → u.isStopped x = false := by
  intro u hu earlier
  rcases List.mem_append.mp hu with hu | hu
  · exact h u hu earlier
  · rw [List.mem_singleton.mp hu] at earlier
    exact absurd earlier (Nat.not_lt.mpr reached)

theorem Fair.recall {me : Party} {past : List World} {w : World} {x : Stamped}
    (h : Fair me past x) (told : x.told ≤ w.now) : Fair me (past ++ [w]) x := by
  cases h with
  | store => exact .store ..
  | time => exact .time ..
  | stop moment stopped goesOn =>
    exact .stop moment stopped fun unstopped => earlier_recall (goesOn unstopped) told
  | gate yes =>
    refine .gate fun approved before => ?_
    obtain ⟨answer, moment, inTime, goesOn⟩ := yes approved before
    exact ⟨answer, moment, inTime, earlier_recall goesOn told⟩
  | call => exact .call

omit [MemoryStore σ] in
/-- An immediate yes. -/
theorem saysYes_of_polled {f : Flight} {past : List World} {s s' : Session σ}
    {step prompt : String} {limit : Option Nat} {p : OpenPrompt} (seen : Remembers s.world past)
    (before : s.world.isStopped f.signal = false) (goes : GoesBy s s')
    (h : Polled f.signal (opening f step prompt limit s.world.now) s' (some .approved) p) :
    SaysYes f.party past step prompt limit s.world.now s'.world.now := by
  cases h with
  | approved reacts answer =>
    have soon : s.world.now + (f.request.approver step prompt).delay ≤ s'.world.now :=
      of_decide_eq_true reacts
    have now := goes.now
    refine ⟨answer, ?_, fun secs _ => by omega, fun u hu _ => ?_⟩
    · show s'.world.now = s.world.now + (f.request.approver step prompt).delay
      omega
    · exact seen.goesOn (Bool.eq_false_iff.mp before) u hu

theorem Reply.fair {f : Flight} {s s' : Session σ} {q : RunQuestion} {x : RunAnswer q}
    {past : List World} (h : Reply f s q x s') (seen : Remembers s.world past) :
    Fair f.party past (stamp f q x s s') := by
  cases h with
  | store q => exact .store ..
  | time => exact .time ..
  | stopRequested =>
    exact .stop _ _ fun goesOn u hu _ => seen.goesOn (Bool.eq_false_iff.mp goesOn) u hu
  | approval h =>
    refine .gate fun yes before => ?_
    subst yes
    obtain ⟨s₁, goes, polled, rfl⟩ := openPrompt_cases h
    exact saysYes_of_polled seen before goes polled
  | unknown | call => exact .call

theorem Goes.fair {f : Flight} {d : RunDialogue RunRecord} {s s' : Session σ}
    {log : List Stamped} {p : Pending} {w : Waiting} {past : List World}
    (h : Goes f d s log p w s')
    (seen : Remembers s.world past) : ∀ x ∈ log, Fair f.party past x := by
  induction h with
  | finished | gate | call => simp
  | told reply _ ih =>
    refine List.forall_mem_cons.mpr ⟨reply.fair seen, ih fun u hu x fired => ?_⟩
    exact reply.goesBy.fired (seen u hu x fired)

/-- No time passes while a run goes on. -/
theorem Goes.moment {f : Flight} {d : RunDialogue RunRecord} {s s' : Session σ} {log : List Stamped}
    {p : Pending} {w : Waiting} (h : Goes f d s log p w s') :
    ∀ x ∈ log, x.told = s.world.now := by
  induction h with
  | finished | gate | call => simp
  | told reply _ ih =>
    rw [reply.goesBy.now] at ih
    exact List.forall_mem_cons.mpr ⟨reply.goesBy.now, ih⟩

theorem Goes.goesBy {f : Flight} {d : RunDialogue RunRecord} {s s' : Session σ}
    {log : List Stamped} {p : Pending} {w : Waiting} (h : Goes f d s log p w s') :
    GoesBy s s' := by
  induction h with
  | finished => exact .refl _
  | told reply _ ih => exact reply.goesBy.trans ih
  | gate h => exact goesBy_openPrompt h
  | call started polled =>
    exact ⟨rfl, fun id y => (minds_of_startCall started id y).trans (minds_of_pollWait polled id y)⟩

/-- What is still to be done continues what was exchanged. -/
theorem Goes.yields {f : Flight} {d : RunDialogue RunRecord} {s s' : Session σ}
    {log : List Stamped} {p : Pending} {w : Waiting} (h : Goes f d s log p w s') {u : RunTrace}
    {rec : RunRecord} (later : Yields p.rest u rec) :
    Yields d (log.map (·.exchange) ++ u) rec := by
  induction h with
  | finished | gate | call => exact later
  | told _ _ ih => exact .ask _ (ih later)

/-- The exchanges of a run and its next question follow one another. -/
theorem Goes.continues {f : Flight} {d : RunDialogue RunRecord} {s s' : Session σ}
    {log : List Stamped} {p : Pending} {w : Waiting} (h : Goes f d s log p w s') :
    Continues s.world.now (s.world.isStopped f.signal) log p.asked p.stopped := by
  induction h with
  | finished | gate | call => exact .nil ..
  | @told q _ x s s₁ _ _ _ _ _ _ ih => exact .cons (x := stamp f q x s s₁) ih

/-! ## 4. Where a run waits -/

/-- The run waits at a gate, and nothing that may come goes by. -/
structure AtGate (me : Party) (past : List World) (w : World) (asked : Nat) (step prompt : String)
    (limit : Option Nat) (p : OpenPrompt) : Prop where
  reaction : p.reaction = me.approver step prompt
  reactAt : p.reactAt = some (asked + p.reaction.delay) ∨
    p.reactAt = none ∧ p.reaction.answer = none
  limitAt : p.limitAt = limit.map (asked + · * 1000)
  due : ∀ moment, p.reactAt = some moment ∨ p.limitAt = some moment → w.Due me.task moment
  woken : w.isStopped me.signal = true → me.task ∈ w.ready
  goesOn : ∀ u ∈ past, u.now < w.now → u.isStopped me.signal = false

/-- What a run is still to do, and what it waits for. -/
inductive Standing (me : Party) (past : List World) (w : World) : Pending → Waiting → Prop where
  | finished (r : RunRecord) (asked : Nat) (stopped : Bool) :
      Standing me past w ⟨.done r, asked, stopped⟩ (.over (.finished r))
  | dropped (p : Pending) : Standing me past w p (.over .dropped)
  | gate {step prompt : String} {limit : Option Nat} {next : Approval → RunDialogue RunRecord}
      {asked : Nat} {p : OpenPrompt} (h : AtGate me past w asked step prompt limit p) :
      Standing me past w ⟨.ask (.approval step prompt limit) next, asked, false⟩ (.approval p next)
  | call {tool : String} {inputs : Fields Json} {limit : Option Nat}
      {next : Except Failure ToolOutput → RunDialogue RunRecord} {asked : Nat} (stopped : Bool)
      (wait : Wait) :
      Standing me past w ⟨.ask (.call tool inputs limit) next, asked, stopped⟩ (.call wait next)

omit [MemoryStore σ] in
/-- A prompt that stays open is not late, and the run has not been told to stop. -/
theorem Polled.remains {signal : Signal} {p p' : OpenPrompt} {s : Session σ}
    (h : Polled signal p s none p') :
    s.world.isStopped signal = false ∧ p'.reaction = p.reaction ∧ p'.limitAt = p.limitAt ∧
      (p'.reactAt = p.reactAt ∨ p'.reactAt = none ∧ p.reaction.answer = none) ∧
      ∀ moment, p'.reactAt = some moment ∨ p'.limitAt = some moment → s.world.now < moment := by
  have later : ∀ {due : Option Nat} {moment : Nat}, ¬ due.any (· ≤ s.world.now) = true →
      due = some moment → s.world.now < moment := by
    rintro _ moment early rfl
    simpa using early
  cases h with
  | awaited early inTime goesOn =>
    refine ⟨Bool.eq_false_iff.mpr goesOn, rfl, rfl, .inl rfl, ?_⟩
    rintro moment (reacts | limit)
    · exact later early reacts
    · exact later inTime limit
  | unanswered answer inTime goesOn =>
    refine ⟨Bool.eq_false_iff.mpr goesOn, rfl, rfl, .inr ⟨rfl, answer⟩, ?_⟩
    rintro moment (reacts | limit)
    · cases reacts
    · exact later inTime limit

omit [MemoryStore σ] in
/-- A prompt that stays open has its timers set. -/
theorem atGate_of_openPrompt {f : Flight} {past : List World} {s s' : Session σ}
    {step prompt : String} {limit : Option Nat} {p : OpenPrompt}
    (h : s.openPrompt f step prompt limit = (none, p, s'))
    (client : s.world.HasClient f.task f.signal) (seen : Remembers s.world past) :
    s.world.isStopped f.signal = false ∧
      AtGate f.party past s'.world s.world.now step prompt limit p := by
  obtain ⟨s₁, goes, polled, rfl⟩ := openPrompt_cases h
  obtain ⟨unfired, reaction, limitAt, reactAt, early⟩ := polled.remains
  have timers : Minds f.task f.signal s₁.world (promptTimers p f.task s₁.world) :=
    minds_promptTimers ..
  have goesOn : ¬ s.world.isStopped f.signal = true := by
    intro fired
    rw [goes.fired fired] at unfired
    cases unfired
  refine ⟨Bool.eq_false_iff.mpr goesOn, reaction, ?_, limitAt, fun moment waits => ?_,
    fun fired => ?_, fun u hu _ => seen.goesOn goesOn u hu⟩
  · rw [reaction]
    exact reactAt
  · refine .inl ⟨?_, mem_promptTimers waits⟩
    exact timers.now.trans_lt (early moment waits)
  · refine (timers.woken ((goes.minds _ _).client client) fired).resolve_left fun before => ?_
    rw [before] at unfired
    cases unfired

theorem AtGate.recall {me : Party} {past : List World} {w : World} {asked : Nat}
    {step prompt : String} {limit : Option Nat} {p : OpenPrompt}
    (h : AtGate me past w asked step prompt limit p) :
    AtGate me (past ++ [w]) w asked step prompt limit p :=
  { h with goesOn := earlier_recall h.goesOn (Nat.le_refl _) }

/-- A run at a gate is still there when others have gone on. -/
theorem AtGate.keeps {me : Party} {past : List World} {w w' : World} {asked : Nat}
    {step prompt : String} {limit : Option Nat} {p : OpenPrompt}
    (h : AtGate me past w asked step prompt limit p) (client : w.HasClient me.task me.signal)
    (seen : Remembers w past) (keeps : Keeps me.task me.signal w w') :
    AtGate me past w' asked step prompt limit p := by
  refine ⟨h.reaction, h.reactAt, h.limitAt, fun moment waits => keeps.due _ (h.due moment waits),
    keeps.woken client h.woken, fun u hu earlier => ?_⟩
  by_cases moved : w.now < w'.now
  · exact seen.goesOn (keeps.moved h.woken moved) u hu
  · exact h.goesOn u hu (by omega)

theorem Standing.recall {me : Party} {past : List World} {w : World} {p : Pending} {wt : Waiting}
    (h : Standing me past w p wt) : Standing me (past ++ [w]) w p wt := by
  cases h with
  | finished => exact .finished ..
  | dropped => exact .dropped ..
  | gate atGate => exact .gate atGate.recall
  | call => exact .call ..

theorem Standing.keeps {me : Party} {past : List World} {w w' : World} {p : Pending} {wt : Waiting}
    (h : Standing me past w p wt) (client : w.HasClient me.task me.signal)
    (seen : Remembers w past) (keeps : Keeps me.task me.signal w w') :
    Standing me past w' p wt := by
  cases h with
  | finished => exact .finished ..
  | dropped => exact .dropped ..
  | gate atGate => exact .gate (atGate.keeps client seen keeps)
  | call => exact .call ..

omit [MemoryStore σ] in
/-- A yes at a gate is one in its moment. -/
theorem AtGate.saysYes {f : Flight} {past : List World} {w : World} {asked : Nat}
    {step prompt : String} {limit : Option Nat} {p p' : OpenPrompt} {s s₁ : Session σ}
    (h : AtGate f.party past w asked step prompt limit p) (now : s.world.now = w.now)
    (polled : s.pollPrompt f.signal p = (some .approved, p', s₁)) :
    SaysYes f.party past step prompt limit asked s₁.world.now := by
  have same := (goesBy_pollPrompt polled).now.trans now
  -- no moment has gone by
  have reached : ∀ moment, p.reactAt = some moment ∨ p.limitAt = some moment → w.now ≤ moment := by
    intro moment waits
    rcases h.due moment waits with ⟨later, -⟩ | ⟨here, -⟩
    · exact Nat.le_of_lt later
    · exact Nat.le_of_eq here
  cases (polled_of_pollPrompt polled).2 with
  | approved reacts answer =>
    rcases h.reactAt with reactAt | ⟨-, none⟩
    · have soon : asked + p.reaction.delay ≤ s₁.world.now := by
        simpa [Reacts, reactAt] using reacts
      have late := reached _ (.inl reactAt)
      rw [h.reaction] at answer soon late
      refine ⟨answer, by omega, ?_, by rw [same]; exact h.goesOn⟩
      rintro secs rfl
      rw [same]
      exact reached _ (.inr h.limitAt)
    · rw [none] at answer
      cases answer

omit [MemoryStore σ] in
/-- A gate may stay open. -/
theorem AtGate.stays {f : Flight} {past : List World} {w : World} {asked : Nat}
    {step prompt : String} {limit : Option Nat} {p p' : OpenPrompt} {s s₁ : Session σ}
    (h : AtGate f.party past w asked step prompt limit p) (now : s.world.now = w.now)
    (timers : s.world.timers = w.timers)
    (polled : s.pollPrompt f.signal p = (none, p', s₁)) :
    AtGate f.party past s₁.world asked step prompt limit p' := by
  have goes := goesBy_pollPrompt polled
  have same := goes.now.trans now
  obtain ⟨unfired, reaction, limitAt, reactAt, early⟩ := (polled_of_pollPrompt polled).2.remains
  have before : ∀ moment, p'.reactAt = some moment ∨ p'.limitAt = some moment →
      p.reactAt = some moment ∨ p.limitAt = some moment := by
    rintro moment (waits | waits)
    · rcases reactAt with reactAt | ⟨none, -⟩
      · exact .inl (reactAt ▸ waits)
      · rw [none] at waits
        cases waits
    · exact .inr (limitAt ▸ waits)
  refine ⟨reaction.trans h.reaction, ?_, limitAt.trans h.limitAt, fun moment waits => ?_,
    fun fired => ?_, by rw [same]; exact h.goesOn⟩
  · rw [reaction]
    rcases reactAt with reactAt | none
    · rw [reactAt]
      exact h.reactAt
    · exact .inr none
  · have later := early moment waits
    rcases h.due moment (before moment waits) with ⟨-, set⟩ | ⟨here, -⟩
    · exact .inl ⟨later, (goes.minds f.task f.signal).timers _ (timers ▸ set)⟩
    · omega
  · rw [unfired] at fired
    cases fired

theorem Goes.standing {f : Flight} {d : RunDialogue RunRecord} {s s' : Session σ}
    {log : List Stamped} {p : Pending} {wt : Waiting} {past : List World}
    (h : Goes f d s log p wt s') (client : s.world.HasClient f.task f.signal)
    (seen : Remembers s.world past) : Standing f.party past s'.world p wt := by
  induction h with
  | finished r => exact .finished r ..
  | told reply _ ih =>
    have goes := reply.goesBy
    exact ih ((goes.minds _ _).client client) fun u hu x fired => goes.fired (seen u hu x fired)
  | @gate step prompt limit next s s' p h =>
    obtain ⟨goesOn, atGate⟩ := atGate_of_openPrompt h client seen
    rw [pending, goesOn]
    exact .gate atGate
  | call => exact .call ..

end
end Session
end Runbook
