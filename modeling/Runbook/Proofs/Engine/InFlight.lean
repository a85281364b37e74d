import Runbook.Proofs.Engine.Gates
import Runbook.Proofs.Schedule.Roots

/-!
# The runs in flight

An engine keeps a list of the runs that have started and have not ended, each with its signal. Whatever
happens to its runs, in any order, the list is right (`Registered`), so that a name in flight is not
given away, a run that is told to stop is the one that has the name, and one that starts has not been
told so.
-/

set_option autoImplicit false

namespace Runbook

open Dialogue RunDialogue Schedule World

/-- The run has started, and has not ended. -/
def Waiting.inFlight : Waiting → Bool
  | .approval .. => true
  | .call .. => true
  | _ => false

/-- A run that goes on comes to rest like this; a call that it waits for has a signal below the run's. -/
inductive Waiting.Rests : Waiting → Prop where
  | gate (p : OpenPrompt) (next : Approval → RunDialogue RunRecord) : Rests (.approval p next)
  | call {wait : Wait} (long : 2 ≤ wait.own.length)
      (next : Except Failure ToolOutput → RunDialogue RunRecord) : Rests (.call wait next)
  | finished (r : RunRecord) : Rests (.over (.finished r))

/-- What is listed of a run in flight. -/
def Flight.entry? (f : Flight) : Option (RunId × Signal) :=
  if f.waiting.inFlight then some (f.request.id, f.signal) else none

namespace Session

variable {σ : Type} {s s' s'' : Session σ} {f f' : Flight} {n : Nat}

/-! ## 1. A run does something -/

/-- The run with the signal `[n]` does something. -/
structure Own (n : Nat) (s s' : Session σ) : Prop where
  engine : s'.engine = s.engine
  active : s'.active = s.active
  discreet : Discreet (some n) s.world s'.world

theorem Own.refl (nested : s.world.Nested) : Own n s s := ⟨rfl, rfl, .refl nested⟩

theorem Own.trans (first : Own n s s') (later : Own n s' s'') : Own n s s'' :=
  ⟨later.engine.trans first.engine, later.active.trans first.active,
    first.discreet.trans later.discreet⟩

/-- In the world alone. -/
theorem own_world {w : World} (discreet : Discreet (some n) s.world w) :
    Own n s { s with world := w } :=
  ⟨rfl, rfl, discreet⟩

theorem own_pollPrompt {p p' : OpenPrompt} {x : Option Approval} (nested : s.world.Nested)
    (h : s.pollPrompt [n] p = (x, p', s')) : Own n s s' := by
  rcases (polled_of_pollPrompt h).1 with rfl | rfl
  · exact .refl nested
  · exact own_world (discreet_fire_own nested n)

theorem discreet_promptTimers {w : World} (nested : w.Nested) (p : OpenPrompt) (task : TaskId) :
    Discreet (some n) w (promptTimers p task w) := by
  rw [promptTimers]
  generalize p.reactAt.toList ++ p.limitAt.toList = moments
  induction moments generalizing w with
  | nil => exact .refl nested
  | cons moment moments ih =>
    have first : Discreet (some n) w (w.setTimer moment task) := discreet_setTimer nested moment task
    exact first.trans (ih first.nested)

theorem own_openPrompt {step prompt : String} {limit : Option Nat} {x : Option Approval}
    {p : OpenPrompt} (root : f.signal = [n]) (nested : s.world.Nested)
    (h : s.openPrompt f step prompt limit = (x, p, s')) : Own n s s' := by
  have noted : Own n s { s with world := s.world.note (f.request.approver step prompt).notes } :=
    own_world (.of_tasks nested rfl rfl (Nat.le_refl _))
  unfold openPrompt at h
  dsimp only at h
  rw [root] at h
  split at h
  · next polled =>
    cases h
    exact noted.trans (own_pollPrompt noted.discreet.nested polled)
  · next polled =>
    cases h
    have first := noted.trans (own_pollPrompt noted.discreet.nested polled)
    exact first.trans (own_world (discreet_promptTimers first.discreet.nested _ _))

theorem own_startCall {r : Registry} {tool : String} {inputs : Fields Json} {limit : Option Nat}
    {caller : TaskId} {x : Except Failure Wait} {w : World} (nested : s.world.Nested)
    (h : s.world.startCall r tool inputs [n] limit caller = (x, w)) :
    Own n s { s with world := w } := by
  obtain rfl : (s.world.startCall r tool inputs [n] limit caller).2 = w := congrArg Prod.snd h
  exact own_world (discreet_startCall nested r tool inputs limit caller)

theorem own_pollWait {wait : Wait} {x : Option (Except Failure ToolOutput)} {w : World}
    (nested : s.world.Nested) (long : 2 ≤ wait.own.length) (h : s.world.pollWait wait = (x, w)) :
    Own n s { s with world := w } := by
  obtain rfl : (s.world.pollWait wait).2 = w := congrArg Prod.snd h
  exact own_world (discreet_pollWait nested long)

section

variable [MemoryStore σ]

theorem Reply.own {q : RunQuestion} {x : RunAnswer q} (h : Reply f s q x s') (root : f.signal = [n])
    (nested : s.world.Nested) : Own n s s' := by
  cases h with
  | store | time => exact ⟨rfl, rfl, .refl nested⟩
  | stopRequested => exact .refl nested
  | approval h => exact own_openPrompt root nested h
  | unknown h => exact own_startCall nested (root ▸ h)
  | call started polled =>
    have first := own_startCall nested (root ▸ started)
    have long := startCall_long (root ▸ started)
    exact first.trans (own_pollWait first.discreet.nested long polled)

/-- **A run goes on until it has to wait.** -/
theorem Goes.own {d : RunDialogue RunRecord} {log : List Stamped} {p : Pending} {wt : Waiting}
    (h : Goes f d s log p wt s') (root : f.signal = [n]) (nested : s.world.Nested) :
    Own n s s' ∧ wt.Rests := by
  induction h with
  | finished r s => exact ⟨.refl nested, .finished r⟩
  | told reply _ ih =>
    have first := reply.own root nested
    obtain ⟨later, rests⟩ := ih first.discreet.nested
    exact ⟨first.trans later, rests⟩
  | gate h => exact ⟨own_openPrompt root nested h, .gate _ _⟩
  | call started polled =>
    have first := own_startCall nested (root ▸ started)
    have long := startCall_long (root ▸ started)
    exact ⟨first.trans (own_pollWait first.discreet.nested long polled), .call long _⟩

theorem own_advance (root : f.signal = [n]) (nested : s.world.Nested) (d : RunDialogue RunRecord) :
    Own n s (advance f d s).2 ∧ (advance f d s).1.Rests := by
  obtain ⟨log, p, goes⟩ := goes_advance f d s
  exact goes.own root nested

/-! ## 2. A turn -/

/-- The run is listed, with the others in `m`, and stays so or ends. -/
structure Settles (n : Nat) (f f' : Flight) (m : ActiveRuns) (s s' : Session σ) : Prop where
  request : f'.request = f.request
  signal : f'.signal = f.signal
  engine : s'.engine = s.engine
  discreet : Discreet (some n) s.world s'.world
  listed : (f'.waiting.Rests ∧ f'.waiting.inFlight = true ∧ s'.active = m) ∨
    (∃ e, f'.waiting = .over e ∧ ∀ err, e ≠ .refused err) ∧
      s'.active = Engine.release f.request.id m

omit [MemoryStore σ] in
/-- A run in flight may be dropped at any time. -/
theorem settles_drop (nested : s.world.Nested) (rests : f.waiting.Rests) :
    Settles n f (s.drop f).1 s.active s (s.drop f).2 := by
  refine ⟨rfl, rfl, rfl, ?_, .inr ⟨⟨_, rfl, by simp⟩, rfl⟩⟩
  rw [drop]
  cases h : f.waiting with
  | call wait next =>
    rw [h] at rests
    cases rests with
    | call long => exact discreet_fire nested long
  | _ => exact .refl nested

/-- A run has gone on, from the session `s₀` to `s`, and its turn ends. -/
theorem settles_turn {s₀ : Session σ} {f₀ : Flight} (proceed : s₀.proceed f₀ = (f, s))
    (waits : ∀ e, f₀.waiting ≠ .over e) (request : f.request = f₀.request)
    (signal : f.signal = f₀.signal) (engine : s.engine = s₀.engine)
    (discreet : Discreet (some n) s₀.world s.world) (rests : f.waiting.Rests) :
    Settles n f₀ (s₀.turn f₀).1 s.active s₀ (s₀.turn f₀).2 := by
  -- it is dropped if its time is up
  have stays (inFlight : f.waiting.inFlight = true) {out : Flight × Session σ}
      (h : (if f.dropAt.any (· ≤ s.world.now) then s.drop f else (f, s)) = out) :
      Settles n f₀ out.1 s.active s₀ out.2 := by
    subst h
    split
    · have dropped : Settles n f (s.drop f).1 s.active s (s.drop f).2 :=
        settles_drop discreet.nested rests
      refine ⟨request, signal, engine, discreet.trans dropped.discreet,
        .inr ⟨⟨_, rfl, by simp⟩, ?_⟩⟩
      rw [← request]
      rfl
    · exact ⟨request, signal, engine, discreet, .inl ⟨rests, inFlight, rfl⟩⟩
  rw [turn]
  split
  · next landed => exact absurd landed (waits _)
  · rw [proceed]
    dsimp only
    generalize now : f.waiting = wt at rests
    cases rests with
    | gate => exact stays (by rw [now]; rfl) rfl
    | call => exact stays (by rw [now]; rfl) rfl
    | finished r =>
      exact ⟨request, signal, engine, discreet, .inr ⟨⟨_, now, by simp⟩, by rw [request]⟩⟩

/-- There was something for the run, and it has gone on. -/
theorem settles_advance {f₁ : Flight} {s₁ : Session σ} {d : RunDialogue RunRecord}
    (proceed : s.proceed f = (f₁, (advance f d s₁).2)) (root : f.signal = [n])
    (waits : ∀ e, f.waiting ≠ .over e) (engine : s₁.engine = s.engine)
    (discreet : Discreet (some n) s.world s₁.world) (request : f₁.request = f.request)
    (signal : f₁.signal = f.signal) (waiting : f₁.waiting = (advance f d s₁).1) :
    Settles n f (s.turn f).1 s₁.active s (s.turn f).2 := by
  obtain ⟨later, rests⟩ := own_advance root discreet.nested d
  rw [← later.active]
  exact settles_turn proceed waits request signal (later.engine.trans engine)
    (discreet.trans later.discreet) (waiting ▸ rests)

omit [MemoryStore σ] in
theorem discreet_launched (nested : s.world.Nested) (m : ActiveRuns) :
    Discreet (some n) s.world (s.launched f m).world := by
  have set : Discreet (some n) s.world (s.world.setTask f.task (.client (some f.signal))) :=
    discreet_setClient nested f.task _
  rw [launched]
  dsimp only
  split
  · exact set.trans (discreet_setTimer set.nested _ _)
  · exact set

/-- A run that waits for an approver. -/
theorem settles_approval {p : OpenPrompt} {next : Approval → RunDialogue RunRecord}
    (root : f.signal = [n]) (nested : s.world.Nested) (now : f.waiting = .approval p next) :
    Settles n f (s.turn f).1 s.active s (s.turn f).2 := by
  have unfinished : ∀ e, f.waiting ≠ .over e := by simp [now]
  rcases polled : s.pollPrompt f.signal p with ⟨x, p', s₁⟩
  have first : Own n s s₁ := own_pollPrompt nested (root ▸ polled)
  rw [← first.active]
  cases x with
  | none =>
    exact settles_turn (proceed_approval now polled) unfinished rfl rfl first.engine first.discreet
      (.gate p' next)
  | some a =>
    exact settles_advance (proceed_approved now polled) root unfinished first.engine first.discreet
      rfl rfl rfl

/-- A run that waits for a call. -/
theorem settles_call {wait : Wait} {next : Except Failure ToolOutput → RunDialogue RunRecord}
    (root : f.signal = [n]) (nested : s.world.Nested) (now : f.waiting = .call wait next)
    (long : 2 ≤ wait.own.length) : Settles n f (s.turn f).1 s.active s (s.turn f).2 := by
  have unfinished : ∀ e, f.waiting ≠ .over e := by simp [now]
  rcases polled : s.world.pollWait wait with ⟨x, w⟩
  have first : Own n s { s with world := w } := own_pollWait nested long polled
  cases x with
  | none =>
    exact (settles_turn (proceed_call now polled) unfinished rfl rfl first.engine first.discreet
      (now ▸ .call long next) :)
  | some x =>
    exact (settles_advance (proceed_called now polled) root unfinished first.engine first.discreet
      rfl rfl rfl :)

/-- What a turn comes to. -/
inductive Turned (n : Nat) (s : Session σ) (f : Flight) : Flight × Session σ → Prop where
  | ended {e : RunEnd} (h : f.waiting = .over e) : Turned n s f (f, s)
  | refused {err : EngineError} (start : f.waiting = .start)
      (h : s.engine.start s.active f.request.workflow f.request.id f.request.params f.signal =
        .error err) : Turned n s f ({ f with waiting := .over (.refused err) }, s)
  | started {d : RunDialogue RunRecord} {m : ActiveRuns} {out : Flight × Session σ}
      (start : f.waiting = .start)
      (h : s.engine.start s.active f.request.workflow f.request.id f.request.params f.signal =
        .ok (d, m)) (settles : Settles n f out.1 m s out.2) : Turned n s f out
  | wentOn {out : Flight × Session σ} (inFlight : f.waiting.inFlight = true)
      (settles : Settles n f out.1 s.active s out.2) : Turned n s f out

/-- **A turn.** -/
theorem turned (root : f.signal = [n]) (nested : s.world.Nested)
    (rests : f.waiting.inFlight = true → f.waiting.Rests) : Turned n s f (s.turn f) := by
  cases now : f.waiting with
  | «over» e =>
    rw [turn_over now]
    exact .ended now
  | start =>
    cases started : s.engine.start s.active f.request.workflow f.request.id f.request.params
        f.signal with
    | error err =>
      rw [turn_refused now started]
      exact .refused now started
    | ok r =>
      obtain ⟨d, m⟩ := r
      have launched : Discreet (some n) s.world (s.launched f m).world := discreet_launched nested m
      exact .started now started (settles_advance (proceed_launched now started) root
        (by simp [now]) rfl launched rfl rfl rfl)
  | approval p next => exact .wentOn (by rw [now]; rfl) (settles_approval root nested now)
  | call wait next =>
    have inFlight : f.waiting.inFlight = true := by rw [now]; rfl
    have rests := rests inFlight
    rw [now] at rests
    cases rests with
    | call long => exact .wentOn inFlight (settles_call root nested now long)

/-! ## 3. Whatever happens -/

/-- One thing that happens: to the runs of a visit, around them, or from outside. -/
inductive Event (v : Visit σ) : Visit σ → Prop where
  /-- A task goes on, or time passes. -/
  | world {w : World} (h : Proceeds v.session.engine.registry v.session.world w) : Event v (v.inWorld w)
  | request (q : RunRequest) : Event v (v.request q)
  | visitAfter (ms : Nat) (who : Visitor) : Event v (v.visitAfter ms who)
  /-- A run has its turn: it starts, goes on, or ends. -/
  | turn {i : Nat} {f : Flight} (hf : v.flights[i]? = some f) : Event v (v.wakeFlight i f)
  /-- A run in flight is dropped. -/
  | drop {i : Nat} {f : Flight} (hf : v.flights[i]? = some f) (inFlight : f.waiting.inFlight = true) :
      Event v { v with
        session := (v.session.drop f).2
        flights := v.flights.set i (v.session.drop f).1 }
  /-- Whoever has asked for a run goes away before it starts. -/
  | forget {i : Nat} {f : Flight} (hf : v.flights[i]? = some f) (start : f.waiting = .start) :
      Event v { v with flights := v.flights.set i { f with waiting := .over .dropped } }
  | stop (run : RunId) : Event v { v with session := (v.session.stop run).2 }
  | look (seen : Option Sighting) : Event v { v with sighting := seen }

/-- Any number of things happen. -/
def Events : Visit σ → Visit σ → Prop := Relation.ReflTransGen Event

omit [MemoryStore σ]

def entries (fs : List Flight) : ActiveRuns := fs.filterMap Flight.entry?

/-- The runs in flight, each with its own signal. -/
def Visit.inFlight (v : Visit σ) : ActiveRuns := entries v.flights

/-- **The list of an engine is right.** -/
structure Registered (e : Engine) (v : Visit σ) : Prop where
  engine : v.session.engine = e
  nested : v.session.world.Nested
  roots : ∀ f ∈ v.flights, ∃ n, f.signal = [n] ∧ n < v.session.world.signals
  apart : (v.flights.map (·.signal)).Nodup
  /-- A signal that is still to be made has not fired. -/
  unmade : ∀ n, v.session.world.signals ≤ n → v.session.world.isStopped [n] = false
  unstarted : ∀ f ∈ v.flights, f.waiting = .start → v.session.world.isStopped f.signal = false
  rests : ∀ f ∈ v.flights, f.waiting.inFlight = true → f.waiting.Rests
  listed : v.session.active.Perm v.inFlight
  once : v.session.active.names.Nodup

variable {e : Engine} {v v' : Visit σ} {front back : List Flight} {m : ActiveRuns}

theorem entry?_of_inFlight (h : f.waiting.inFlight = true) :
    f.entry? = some (f.request.id, f.signal) := by
  rw [Flight.entry?, if_pos h]

theorem entry?_of_not (h : f.waiting.inFlight = false) : f.entry? = none := by
  rw [Flight.entry?, h]
  rfl

theorem mem_entries {fs : List Flight} {run : RunId} {x : Signal} :
    (run, x) ∈ entries fs ↔
      ∃ f ∈ fs, f.waiting.inFlight = true ∧ f.request.id = run ∧ f.signal = x := by
  simp only [entries, List.mem_filterMap, Flight.entry?]
  refine exists_congr fun f => and_congr_right fun _ => ?_
  cases f.waiting.inFlight <;> simp

/-- The others and the run. -/
theorem entries_split (front back : List Flight) (f : Flight) :
    (entries (front ++ f :: back)).Perm (f.entry?.toList ++ entries (front ++ back)) := by
  rw [entries, List.filterMap_append, List.filterMap_cons, entries, List.filterMap_append]
  cases f.entry? with
  | none => exact .refl _
  | some x => exact List.perm_middle

/-- Nothing of the run is left. -/
theorem release_split {run : RunId} {x : Signal} {others : ActiveRuns}
    (perm : m.Perm ((run, x) :: others)) (once : m.names.Nodup) :
    (Engine.release run m).Perm others := by
  have away : run ∉ others.names := by
    have distinct := (perm.map Prod.fst).nodup_iff.mp once
    exact (List.nodup_cons.mp distinct).1
  have kept : others.filter (fun e => e.1 ≠ run) = others := by
    refine List.filter_eq_self.mpr fun y hy => ?_
    have other : y.1 ≠ run := fun same => away (same ▸ List.mem_map_of_mem hy)
    simpa using other
  have filtered := perm.filter fun e => decide (e.1 ≠ run)
  rw [List.filter_cons_of_neg (by simp), kept] at filtered
  exact filtered

theorem names_release (once : m.names.Nodup) (run : RunId) : (Engine.release run m).names.Nodup :=
  once.sublist (List.filter_sublist.map _)

/-! ## 4. What a thing that happens keeps -/

/-- Nothing happens to the runs. -/
theorem Registered.discreet (h : Registered e v) (engine : v'.session.engine = v.session.engine)
    (flights : v'.flights = v.flights) (active : v'.session.active = v.session.active)
    (discreet : Discreet none v.session.world v'.session.world) : Registered e v' where
  engine := engine.trans h.engine
  nested := discreet.nested
  roots f hf := by
    obtain ⟨n, root, made⟩ := h.roots f (flights ▸ hf)
    exact ⟨n, root, Nat.lt_of_lt_of_le made discreet.signals⟩
  apart := flights ▸ h.apart
  unmade n new := by
    rw [discreet.roots n (by simp)]
    exact h.unmade n (Nat.le_trans discreet.signals new)
  unstarted f hf start := by
    obtain ⟨n, root, -⟩ := h.roots f (flights ▸ hf)
    rw [root, discreet.roots n (by simp), ← root]
    exact h.unstarted f (flights ▸ hf) start
  rests f hf := h.rests f (flights ▸ hf)
  listed := by
    rw [active, Visit.inFlight, flights]
    exact h.listed
  once := active ▸ h.once

/-- One run does something, and is listed or not as it should be. -/
theorem Registered.changes (h : Registered e v) (parted : v.flights = front ++ f :: back)
    (root : f.signal = [n]) (flights : v'.flights = front ++ f' :: back)
    (engine : v'.session.engine = v.session.engine) (signal : f'.signal = f.signal)
    (started : f'.waiting ≠ .start) (rests : f'.waiting.inFlight = true → f'.waiting.Rests)
    (discreet : Discreet (some n) v.session.world v'.session.world)
    (listed : v'.session.active.Perm (f'.entry?.toList ++ entries (front ++ back)))
    (once : v'.session.active.names.Nodup) : Registered e v' := by
  have signals : v'.flights.map (·.signal) = v.flights.map (·.signal) := by
    rw [flights, parted]
    simp [signal]
  have mine : f ∈ v.flights := by simp [parted]
  obtain ⟨n', root', made⟩ := h.roots f mine
  obtain rfl : n' = n := by simpa [root'] using root
  -- the others are as they were, and their signals differ
  have others {g : Flight} (hg : g ∈ v'.flights) : g = f' ∨ g ∈ v.flights ∧ g.signal ≠ f.signal := by
    rw [flights, List.mem_append, List.mem_cons] at hg
    have apart := h.apart
    rw [parted, List.map_append, List.map_cons] at apart
    have away := (List.nodup_cons.mp (List.nodup_middle.mp apart)).1
    rw [List.mem_append, not_or] at away
    rw [parted, List.mem_append, List.mem_cons]
    rcases hg with hg | same | hg
    · exact .inr ⟨.inl hg, fun same => away.1 (same ▸ List.mem_map_of_mem hg)⟩
    · exact .inl same
    · exact .inr ⟨.inr (.inr hg), fun same => away.2 (same ▸ List.mem_map_of_mem hg)⟩
  refine ⟨engine.trans h.engine, discreet.nested, fun g hg => ?_, signals ▸ h.apart, fun m new => ?_,
    fun g hg start => ?_, fun g hg => ?_, ?_, once⟩
  · rcases others hg with rfl | ⟨old, -⟩
    · exact ⟨n', signal.trans root', Nat.lt_of_lt_of_le made discreet.signals⟩
    · obtain ⟨m, root, made⟩ := h.roots g old
      exact ⟨m, root, Nat.lt_of_lt_of_le made discreet.signals⟩
  · have new := Nat.le_trans discreet.signals new
    rw [discreet.roots m (by simp; omega)]
    exact h.unmade m new
  · rcases others hg with rfl | ⟨old, other⟩
    · exact absurd start started
    · obtain ⟨m, rootg, -⟩ := h.roots g old
      rw [rootg, discreet.roots m (by rintro ⟨⟩; exact other (rootg.trans root'.symm)), ← rootg]
      exact h.unstarted g old start
  · rcases others hg with rfl | ⟨old, -⟩
    · exact rests
    · exact h.rests g old
  · rw [Visit.inFlight, flights]
    exact listed.trans (entries_split front back f').symm

/-- The run has its turn, or is dropped. -/
theorem Registered.settles (h : Registered e v) (parted : v.flights = front ++ f :: back)
    (root : f.signal = [n]) (settles : Settles n f f' m v.session s')
    (perm : m.Perm ((f.request.id, f.signal) :: entries (front ++ back))) (once : m.names.Nodup) :
    Registered e { v with session := s', flights := front ++ f' :: back } := by
  rcases settles.listed with ⟨rests, inFlight, active⟩ | ⟨⟨x, landed, -⟩, active⟩
  · refine h.changes parted root rfl settles.engine settles.signal ?_ (fun _ => rests)
      settles.discreet ?_ (active ▸ once)
    · intro start
      rw [start] at inFlight
      cases inFlight
    · rw [entry?_of_inFlight inFlight, settles.request, settles.signal, active]
      exact perm
  · have away : f'.waiting.inFlight = false := by
      rw [landed]
      rfl
    refine h.changes parted root rfl settles.engine settles.signal (by simp [landed])
      (by simp [away]) settles.discreet ?_ (active ▸ names_release once _)
    rw [entry?_of_not away, active]
    exact release_split perm once

theorem exists_parted {i : Nat} (hf : v.flights[i]? = some f) :
    ∃ front back, v.flights = front ++ f :: back ∧
      ∀ f', v.flights.set i f' = front ++ f' :: back := by
  obtain ⟨lt, rfl⟩ := List.getElem?_eq_some_iff.mp hf
  have parts (f' : Flight) : v.flights.set i f' =
      v.flights.take i ++ f' :: v.flights.drop (i + 1) :=
    List.set_eq_take_append_cons_drop.trans (if_pos lt)
  exact ⟨_, _, (List.set_getElem_self lt).symm.trans (parts _), parts⟩

/-- What is listed when a run has been or is to be listed. -/
theorem Registered.parts (h : Registered e v) (parted : v.flights = front ++ f :: back) :
    v.session.active.Perm (f.entry?.toList ++ entries (front ++ back)) := by
  refine h.listed.trans ?_
  rw [Visit.inFlight, parted]
  exact entries_split front back f

theorem Registered.mem_iff (h : Registered e v) {run : RunId} :
    Fields.has run v.session.active = true ↔ run ∈ v.inFlight.names := by
  rw [Fields.has, Fields.get?_isSome_iff]
  exact (h.listed.map Prod.fst).mem_iff

/-- A run that is asked for has a signal of its own. -/
theorem request_parts (nested : v.session.world.Nested) (q : RunRequest) :
    ∃ task, (v.request q).flights =
        v.flights ++ [{ request := q, task, signal := [v.session.world.signals] }] ∧
      (v.request q).session.engine = v.session.engine ∧
      (v.request q).session.active = v.session.active ∧
      Discreet none v.session.world (v.request q).session.world ∧
      v.session.world.signals < (v.request q).session.world.signals := by
  let named := (v.session.world.newSignal []).2
  have made : Discreet none v.session.world named := .of_tasks nested rfl rfl (Nat.le_succ _)
  have spawned : Discreet none named (named.spawnIdle (.client none)).2 :=
    discreet_spawnIdle made.nested none
  rw [Visit.request]
  refine ⟨_, rfl, rfl, rfl, ?_⟩
  dsimp only
  split
  · have woken : Discreet none _ _ := discreet_wake spawned.nested (named.spawnIdle (.client none)).1
    exact ⟨(made.trans spawned).trans woken, (spawned.trans woken).signals⟩
  · next ms _ =>
    let w := (named.spawnIdle (.client none)).2
    have timed : Discreet none w (w.setTimer (w.now + (ms + 1)) (named.spawnIdle (.client none)).1) :=
      discreet_setTimer spawned.nested _ _
    exact ⟨(made.trans spawned).trans timed, (spawned.trans timed).signals⟩

theorem Registered.request (h : Registered e v) (q : RunRequest) : Registered e (v.request q) := by
  obtain ⟨task, flights, engine, active, discreet, more⟩ := request_parts h.nested q
  have new {f : Flight} (hf : f ∈ (v.request q).flights) : f ∈ v.flights ∨
      f.signal = [v.session.world.signals] ∧ f.waiting = .start := by
    rw [flights, List.mem_append, List.mem_singleton] at hf
    exact hf.imp_right fun same => by simp [same]
  refine ⟨engine.trans h.engine, discreet.nested, fun f hf => ?_, ?_, fun n later => ?_,
    fun f hf start => ?_, fun f hf inFlight => ?_, ?_, active ▸ h.once⟩
  · rcases new hf with old | ⟨root, -⟩
    · obtain ⟨n, root, made⟩ := h.roots f old
      exact ⟨n, root, Nat.lt_trans made more⟩
    · exact ⟨_, root, more⟩
  · rw [flights, List.map_append, List.nodup_append]
    refine ⟨h.apart, List.nodup_singleton _, ?_⟩
    rintro x hx y hy rfl
    obtain ⟨f, hf, rfl⟩ := List.mem_map.mp hx
    obtain ⟨n, root, made⟩ := h.roots f hf
    rw [List.map_singleton, List.mem_singleton, root] at hy
    cases hy
    exact Nat.lt_irrefl _ made
  · rw [discreet.roots n (by simp)]
    exact h.unmade n (Nat.le_trans discreet.signals later)
  · rcases new hf with old | ⟨root, -⟩
    · obtain ⟨n, root, -⟩ := h.roots f old
      rw [root, discreet.roots n (by simp), ← root]
      exact h.unstarted f old start
    · rw [root, discreet.roots _ (by simp)]
      exact h.unmade _ (Nat.le_refl _)
  · rcases new hf with old | ⟨-, start⟩
    · exact h.rests f old inFlight
    · rw [start] at inFlight
      cases inFlight
  · rw [active, Visit.inFlight, flights, entries, List.filterMap_append]
    simpa [Flight.entry?, Waiting.inFlight, Visit.inFlight, entries] using h.listed

theorem discreet_visitAfter (nested : v.session.world.Nested) (ms : Nat) (who : Visitor) :
    Discreet none v.session.world (v.visitAfter ms who).session.world := by
  have spawned : Discreet none v.session.world (v.session.world.spawnIdle (.client none)).2 :=
    discreet_spawnIdle nested none
  rw [Visit.visitAfter]
  dsimp only
  split
  · exact spawned.trans (discreet_wake spawned.nested _)
  · exact spawned.trans (discreet_setTimer spawned.nested _ _)

theorem Registered.visitAfter (h : Registered e v) (ms : Nat) (who : Visitor) :
    Registered e (v.visitAfter ms who) :=
  h.discreet rfl rfl rfl (discreet_visitAfter h.nested ms who)

/-- A run is told to stop. -/
theorem Registered.stop (h : Registered e v) (run : RunId) :
    Registered e { v with session := (v.session.stop run).2 } := by
  rw [Session.stop]
  split
  · next x found =>
    have listed := h.listed.mem_iff.mp (Fields.mem_of_get? found)
    obtain ⟨f, hf, inFlight, -, signal⟩ := mem_entries.mp listed
    obtain ⟨n, root, -⟩ := h.roots f hf
    obtain ⟨front, back, parted⟩ := List.append_of_mem hf
    have started : f.waiting ≠ .start := by
      intro start
      rw [start] at inFlight
      cases inFlight
    have fires : Discreet (some n) v.session.world (v.session.world.fire x) := by
      rw [← signal, root]
      exact discreet_fire_own h.nested n
    exact h.changes parted root parted rfl rfl started (h.rests f hf) fires (h.parts parted) h.once
  · exact h

/-- A run that starts is listed, since there is no other of its name. -/
theorem Registered.starts (h : Registered e v) (parted : v.flights = front ++ f :: back)
    (start : f.waiting = .start) {d : RunDialogue RunRecord}
    (started : v.session.engine.start v.session.active f.request.workflow f.request.id
      f.request.params f.signal = .ok (d, m)) :
    m.Perm ((f.request.id, f.signal) :: entries (front ++ back)) ∧ m.names.Nodup := by
  obtain ⟨-, -, -, -, -, free, -, rfl⟩ := Engine.start_ok started
  have listed := h.parts parted
  rw [entry?_of_not (by rw [start]; rfl)] at listed
  have new : f.request.id ∉ v.session.active.names := by
    intro there
    rw [← Fields.get?_isSome_iff, ← Fields.has, free] at there
    cases there
  refine ⟨(List.perm_append_singleton _ _).trans (listed.cons _), ?_⟩
  rw [Fields.names, List.map_append, List.nodup_append]
  refine ⟨h.once, List.nodup_singleton _, ?_⟩
  rintro x hx y hy rfl
  obtain rfl : x = f.request.id := List.mem_singleton.mp hy
  exact new hx

/-- A run that never started is not listed. -/
theorem Registered.gone (h : Registered e v) (parted : v.flights = front ++ f :: back)
    (start : f.waiting = .start) {x : RunEnd} :
    Registered e { v with flights := front ++ { f with waiting := .over x } :: back } := by
  obtain ⟨n, root, -⟩ := h.roots f (by simp [parted])
  have listed := h.parts parted
  rw [entry?_of_not (by rw [start]; rfl)] at listed
  exact h.changes parted root rfl rfl rfl (by simp) (by simp [Waiting.inFlight]) (.refl h.nested)
    listed h.once

/-- One in flight is, and stays so or ends. -/
theorem Registered.goesOn (h : Registered e v) (parted : v.flights = front ++ f :: back)
    (root : f.signal = [n]) (inFlight : f.waiting.inFlight = true)
    (settles : Settles n f f' v.session.active v.session s') :
    Registered e { v with session := s', flights := front ++ f' :: back } := by
  have listed := h.parts parted
  rw [entry?_of_inFlight inFlight] at listed
  exact h.settles parted root settles listed h.once

/-- A run has its turn. -/
theorem Registered.wakeFlight [MemoryStore σ] (h : Registered e v) {i : Nat}
    (hf : v.flights[i]? = some f) : Registered e (v.wakeFlight i f) := by
  obtain ⟨front, back, parted, set⟩ := exists_parted hf
  have mine := List.mem_of_getElem? hf
  obtain ⟨n, root, made⟩ := h.roots f mine
  have turn : Registered e { v with
      session := (v.session.turn f).2
      flights := v.flights.set i (v.session.turn f).1 } := by
    rw [set]
    generalize out : v.session.turn f = o
    have turned := out ▸ turned root h.nested (h.rests f mine)
    cases turned with
    | ended =>
      rw [← parted]
      exact h
    | refused start => exact h.gone parted start
    | started start started settles =>
      obtain ⟨perm, once⟩ := h.starts parted start started
      exact h.settles parted root settles perm once
    | wentOn inFlight settles => exact h.goesOn parted root inFlight settles
  -- the stopper of a run that starts does nothing yet
  rw [Visit.wakeFlight]
  dsimp only
  split
  · exact turn.visitAfter _ _
  · exact turn

/-- **One thing that happens.** -/
theorem Registered.event [MemoryStore σ] (h : Registered e v) (event : Event v v') :
    Registered e v' := by
  cases event with
  | world proceeds => exact h.discreet rfl rfl rfl (proceeds.discreet h.nested)
  | request q => exact h.request q
  | visitAfter ms who => exact h.visitAfter ms who
  | turn hf => exact h.wakeFlight hf
  | @drop i f hf inFlight =>
    obtain ⟨front, back, parted, set⟩ := exists_parted hf
    obtain ⟨n, root, -⟩ := h.roots f (List.mem_of_getElem? hf)
    rw [set]
    exact h.goesOn parted root inFlight
      (settles_drop h.nested (h.rests f (List.mem_of_getElem? hf) inFlight))
  | @forget i f hf start =>
    obtain ⟨front, back, parted, set⟩ := exists_parted hf
    rw [set]
    exact h.gone parted start
  | stop run => exact h.stop run
  | look => exact h.discreet rfl rfl rfl (.refl h.nested)

theorem Registered.events [MemoryStore σ] (h : Registered e v) (events : Events v v') :
    Registered e v' := by
  induction events with
  | refl => exact h
  | tail _ event ih => exact ih.event event

theorem registered_idle (s : Session σ) (world : s.world = {}) (active : s.active = []) :
    Registered s.engine { session := s } := by
  refine ⟨rfl, ?_, by simp, List.nodup_nil, ?_, by simp, by simp, ?_, ?_⟩
  · rw [world]
    exact nested_empty
  · intro n _
    rw [world]
    rfl
  · rw [active]
    exact .refl _
  · rw [active]
    exact List.nodup_nil

/-! ## 5. The list is right -/

/-- The run is told that it cannot start. -/
def refused (f : Flight) (err : EngineError) : Flight := { f with waiting := .over (.refused err) }

/-- What comes of a run that is to start: it starts if the engine has the workflow, the parameters can
be bound and no run of its name is in flight; else nothing changes. -/
structure StartsRight [MemoryStore σ] (e : Engine) (v : Visit σ) (f : Flight) : Prop where
  unknown : e.workflow? f.request.workflow = none →
    v.session.turn f = (refused f (.unknownWorkflow f.request.workflow), v.session)
  invalid : ∀ w fault, e.workflow? f.request.workflow = some w →
    w.bindParams f.request.params = .error fault →
    v.session.turn f = (refused f (.invalid fault), v.session)
  taken : ∀ w params, e.workflow? f.request.workflow = some w →
    w.bindParams f.request.params = .ok params → f.request.id ∈ v.inFlight.names →
    v.session.turn f = (refused f (.runActive f.request.id), v.session)
  free : ∀ w params, e.workflow? f.request.workflow = some w →
    w.bindParams f.request.params = .ok params → f.request.id ∉ v.inFlight.names →
    e.start v.session.active f.request.workflow f.request.id f.request.params f.signal =
        .ok (Execution.execute e.config w f.request.id params,
          v.session.active ++ [(f.request.id, f.signal)]) ∧
      ∀ err, (v.session.turn f).1.waiting ≠ .over (.refused err)
  unstopped : v.session.world.isStopped f.signal = false

/-- What comes of telling a run to stop: its signal fires, if it is in flight, and no other. -/
structure StopsRight (v : Visit σ) (run : RunId) : Prop where
  answer : (v.session.stop run).1 = true ↔ run ∈ v.inFlight.names
  nobody : run ∉ v.inFlight.names → (v.session.stop run).2 = v.session
  fires : ∀ f ∈ v.flights, f.waiting.inFlight = true → f.request.id = run →
    (v.session.stop run).2 = { v.session with world := v.session.world.fire f.signal } ∧
      (v.session.world.fire f.signal).isStopped f.signal = true ∧
      ∀ g ∈ v.flights, g.signal ≠ f.signal →
        (v.session.world.fire f.signal).isStopped g.signal = v.session.world.isStopped g.signal

theorem Registered.startsRight [MemoryStore σ] (h : Registered e v) (hf : f ∈ v.flights)
    (start : f.waiting = .start) : StartsRight e v f := by
  have refuses {err : EngineError}
      (started : v.session.engine.start v.session.active f.request.workflow f.request.id
        f.request.params f.signal = .error err) :
      v.session.turn f = (refused f err, v.session) := turn_refused start started
  refine ⟨fun unknown => ?_, fun w fault known bound => ?_, fun w params known bound taken => ?_,
    fun w params known bound free => ?_, h.unstarted f hf start⟩
  · refine refuses ?_
    rw [h.engine, Engine.start, unknown]
  · refine refuses ?_
    rw [h.engine, Engine.start, known]
    simp only [bound]
  · refine refuses ?_
    rw [h.engine, Engine.start, known]
    simp only [bound, h.mem_iff.mpr taken, if_true]
  · have free : Fields.has f.request.id v.session.active = false :=
      Bool.eq_false_iff.mpr fun there => free (h.mem_iff.mp there)
    have started : e.start v.session.active f.request.workflow f.request.id f.request.params
        f.signal = .ok (Execution.execute e.config w f.request.id params,
          v.session.active ++ [(f.request.id, f.signal)]) := by
      rw [Engine.start, known]
      simp only [bound, free]
      rfl
    refine ⟨started, fun err out => ?_⟩
    obtain ⟨n, root, -⟩ := h.roots f hf
    generalize h' : v.session.turn f = o at out
    have turned := h' ▸ turned root h.nested (h.rests f hf)
    cases turned with
    | ended landed => cases start.symm.trans landed
    | refused _ failed =>
      rw [h.engine, started] at failed
      cases failed
    | started _ _ settles =>
      rcases settles.listed with ⟨rests, -⟩ | ⟨⟨x, landed, other⟩, -⟩
      · rw [out] at rests
        cases rests
      · cases landed.symm.trans out
        exact other err rfl
    | wentOn inFlight =>
      rw [start] at inFlight
      cases inFlight

theorem Registered.stopsRight (h : Registered e v) (run : RunId) : StopsRight v run := by
  have found : (Fields.get? run v.session.active).isSome = true ↔ run ∈ v.inFlight.names := h.mem_iff
  refine ⟨?_, fun nobody => ?_, fun f hf inFlight named => ?_⟩
  · rw [← found, Session.stop]
    split
    · next there => simp [there]
    · next none => simp [none]
  · rw [← found] at nobody
    rw [Session.stop]
    split
    · next there => simp [there] at nobody
    · rfl
  · have listed : (run, f.signal) ∈ v.session.active :=
      h.listed.mem_iff.mpr (mem_entries.mpr ⟨f, hf, inFlight, named, rfl⟩)
    have there := Fields.get?_of_mem h.once listed
    obtain ⟨n, root, -⟩ := h.roots f hf
    refine ⟨by rw [Session.stop, there], isStopped_fire_iff.mpr (.inr List.suffix_rfl),
      fun g hg other => ?_⟩
    obtain ⟨m, rootg, -⟩ := h.roots g hg
    rw [rootg, root]
    refine (discreet_fire_own h.nested n).roots m ?_
    rintro ⟨⟩
    exact other (rootg.trans root.symm)

/-- **The list of the runs in flight is right, whatever happens.** -/
theorem runs_in_flight [MemoryStore σ] {store : σ} {clock : Instant}
    (events : Events { session := { engine := e, store, clock } } v) :
    v.session.active.Perm v.inFlight ∧ v.session.active.names.Nodup ∧
      (v.flights.map (·.signal)).Nodup ∧
      (∀ f ∈ v.flights, f.waiting = .start → StartsRight e v f) ∧
      ∀ run, StopsRight v run := by
  have idle : Registered e { session := { engine := e, store, clock } } :=
    registered_idle { engine := e, store, clock } rfl rfl
  have right := idle.events events
  exact ⟨right.listed, right.once, right.apart, fun f hf start => right.startsRight hf start,
    right.stopsRight⟩

/-! ## 6. Visits -/

theorem events_wake [MemoryStore σ] (v : Visit σ) (id : TaskId) : Events v (v.wake id) := by
  rw [Visit.wake]
  split
  · split
    · next hf => exact .single (.turn hf)
    · exact .refl
  · split
    · next run _ => exact .single (.stop run)
    · split
      · exact .single (.look _)
      · next run _ => exact Relation.ReflTransGen.tail (.single (.stop run)) (.look _)
    · exact .refl

theorem events_passes [MemoryStore σ] {w m : World} {ws : List World} (start : v.session.world = w)
    (h : Passes v.session.engine.registry w ws m) : Events v (v.inWorld m) := by
  generalize registry : v.session.engine.registry = r at h
  induction h generalizing v with
  | refl w =>
    subst start
    exact .refl
  | @work w w₁ m ws stepped _ ih =>
    subst start registry
    exact .head (.world (proceeds_of_step stepped)) (ih (v := v.inWorld w₁) rfl rfl)
  | @tick w w₁ m ws _ moved _ ih =>
    subst start registry
    exact .head (.world (proceeds_of_advance? moved)) (ih (v := v.inWorld w₁) rfl rfl)

/-- **Whatever a visit does** is a row of these things. -/
theorem events_run [MemoryStore σ] (v : Visit σ) (fuel : Nat) : Events v (v.run fuel) := by
  induction fuel generalizing v with
  | zero => exact .refl
  | succ fuel ih =>
    rw [Visit.run]
    split
    · exact .refl
    · dsimp only
      split
      · next w ran =>
        obtain ⟨ws, m, passes, rfl⟩ := passes_run ran
        exact events_passes rfl passes
      · next id w ran =>
        obtain ⟨ws, m, passes, stepped⟩ := passes_run ran
        obtain ⟨-, popped⟩ := step_client stepped
        have left : Proceeds v.session.engine.registry m w := by
          rw [popped]
          exact .time rfl rfl rfl
        have reached : Events v (v.inWorld w) := (events_passes rfl passes).tail (.world left)
        exact (reached.trans (events_wake _ id)).trans (ih _)

/-- The approver does not answer. -/
def quiet : Reaction := { answer := none }

/-- Two runs of one name are asked for, and the first has had its turn. -/
def firstTurned : Visit Memory.RunTable :=
  ((beforeRelease.request (release quiet)).request (release quiet)).wakeFlight 0 (releaseFlight quiet)

/-- The run that was asked for second. -/
def secondFlight : Flight := { request := release quiet, task := 1, signal := [1] }

theorem runs_in_flight_release :
    Events beforeRelease firstTurned ∧ firstTurned.session.active = [("r1", [0])] ∧
      secondFlight ∈ firstTurned.flights ∧
      firstTurned.session.turn secondFlight =
        (refused secondFlight (.runActive "r1"), firstTurned.session) ∧
      (firstTurned.session.stop "r1").1 = true ∧ (firstTurned.session.stop "r2").1 ≠ true := by
  have events : Events beforeRelease firstTurned :=
    ((Relation.ReflTransGen.single (.request _)).tail (.request _)).tail (.turn rfl)
  have names : firstTurned.inFlight.names = ["r1"] := by
    with_unfolding_all rfl
  have there : secondFlight ∈ firstTurned.flights := List.mem_of_getElem? (i := 1) rfl
  obtain ⟨-, -, -, starts, stops⟩ := runs_in_flight events
  refine ⟨events, ?_, there, ?_, ?_, ?_⟩
  · with_unfolding_all rfl
  · have taken : secondFlight.request.id ∈ firstTurned.inFlight.names := by
      simp [names, secondFlight, release]
    exact (starts secondFlight there rfl).taken releaseWorkflow [] rfl rfl taken
  · exact (stops "r1").answer.mpr (by simp [names])
  · exact fun stopped => absurd ((stops "r2").answer.mp stopped) (by simp [names])

end

end Session
end Runbook
