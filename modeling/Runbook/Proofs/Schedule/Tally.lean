import Mathlib.Data.List.Nodup
import Runbook.Proofs.Schedule.Turns
import Runbook.Proofs.Tool.Checked

/-!
# How many workers call, and how often

A log of the calls that workers have made goes with a row of moves (`Logged`). In whatever order
things happen, a worker is in the log at most once, and a fan-out has no more workers at their calls
than there are to be, also after it has ended. When it has an output, all of its workers are in the
log.

`Tally` is what holds of the log and the world together.
-/

set_option autoImplicit false

namespace Runbook.Schedule.World

open FanOut (Query)

variable {r : Registry} {w w' w'' : World} {id x : TaskId} {c c' : Call} {k k' : Worker}
  {log log' : List TaskId}

/-! ## 1. The log -/

/-- A row of moves, with the workers that have made their calls on the way, in order. -/
inductive Logged (r : Registry) (w : World) : List TaskId → World → Prop where
  | refl : Logged r w [] w
  | call {log : List TaskId} {w' w'' : World} {x : TaskId} (before : Logged r w log w')
      (made : MakesCall r w' x w'') : Logged r w (log ++ [x]) w''
  | other {log : List TaskId} {w' w'' : World} (before : Logged r w log w') (move : Move r w' w'')
      (silent : ∀ x, ¬ MakesCall r w' x w'') : Logged r w log w''

theorem Logged.moves (h : Logged r w log w') : Moves r w w' := by
  induction h with
  | refl => exact .refl w
  | call _ made ih => exact Relation.ReflTransGen.tail ih made.move
  | other _ move _ ih => exact Relation.ReflTransGen.tail ih move

/-- Every row of moves has a log. -/
theorem exists_logged (h : Moves r w w') : ∃ log, Logged r w log w' := by
  induction h with
  | refl => exact ⟨[], .refl⟩
  | @tail m m' _ move ih =>
    obtain ⟨log, before⟩ := ih
    by_cases made : ∃ x, MakesCall r m x m'
    · obtain ⟨x, made⟩ := made
      exact ⟨log ++ [x], before.call made⟩
    · exact ⟨log, before.other move fun x h => made ⟨x, h⟩⟩

/-! ## 2. What the log and the world have to do with each other -/

/-- A worker of the fan-out that has its turn. -/
def HasTurn (w : World) (id x : TaskId) : Prop :=
  ∃ k, w.task? x = some (.worker k) ∧ k.gatherer = id ∧ k.phase.Admitted

/-- No more than `n` tasks. -/
def AtMost (n : Nat) (S : TaskId → Prop) : Prop :=
  ∀ xs : List TaskId, xs.Nodup → (∀ x ∈ xs, S x) → xs.length ≤ n

theorem AtMost.mono {n : Nat} {S S' : TaskId → Prop} (h : AtMost n S) (sub : ∀ x, S' x → S x) :
    AtMost n S' :=
  fun xs once all => h xs once fun x hx => sub x (all x hx)

/-- What holds of the log and the world. -/
structure Tally (r : Registry) (log : List TaskId) (w : World) : Prop where
  sane : Sane r none w
  once : log.Nodup
  begun : ∀ x ∈ log, ∃ k, w.task? x = some (.worker k) ∧ k.phase.Begun
  calling : ∀ x k, w.task? x = some (.worker k) → k.phase.Calling → x ∈ log
  /-- A worker that has ended before its fan-out has made its call. -/
  crew : ∀ x k, w.task? x = some (.worker k) → ∃ c, w.task? k.gatherer = some (.call c) ∧
    c.tool.body = .fanOut ∧ (k.phase = .over → (∀ e, c.phase ≠ .over e) → x ∈ log)
  room : ∀ id c, w.task? id = some (.call c) → c.tool.body = .fanOut →
    AtMost (FanOut.workersOf r.maxFanOut c.inputs) (w.HasTurn id)
  closes : ∀ id c e plan, w.task? id = some (.call c) → c.phase = .over e →
    c.tool.body = .fanOut → c.Accepted → FanOut.plan r.maxFanOut c.inputs = .ok plan →
    Closes (· ∈ log) w id plan e

theorem tally_empty (r : Registry) : Tally r [] {} := by
  have nobody (x : TaskId) (t : Task) : ({} : World).task? x ≠ some t := by simp [task?]
  exact ⟨sane_empty r, .nil, by simp, fun _ _ h => absurd h (nobody _ _),
    fun _ _ h => absurd h (nobody _ _), fun _ _ h => absurd h (nobody _ _),
    fun _ _ _ _ h => absurd h (nobody _ _)⟩

theorem workers_of_plan {ceiling : Nat} {inputs : Fields Json} {plan : FanOut.Plan}
    (h : FanOut.plan ceiling inputs = .ok plan) : plan.workers = FanOut.workersOf ceiling inputs := by
  obtain ⟨fss, listed⟩ := FanOut.plan_ok h
  rw [FanOut.plan_eq ceiling listed] at h
  cases h
  rfl

/-- While a fan-out gathers, those that have their turn are the ones inside. -/
theorem Gathers.inside {plan : FanOut.Plan} {first : TaskId} {p : FanOut.Progress}
    {answers : List FanOut.Answer} (h : Gathers r (fun _ => False) w id c plan first p answers) :
    AtMost p.inside.length (w.HasTurn id) := by
  intro xs once all
  have sub : xs ⊆ p.inside.map (first + ·) := by
    intro x hx
    obtain ⟨k, there, gatherer, admitted⟩ := all x hx
    obtain ⟨i, small, rfl⟩ := h.crew x k there gatherer
    obtain ⟨k', worker, -, index, stands⟩ := h.worker small
    cases there.symm.trans worker
    exact List.mem_map.mpr ⟨i, index ▸ (stands fun h => h).inside.mpr admitted, rfl⟩
  have few := (List.subperm_of_subset once sub).length_le
  rwa [List.length_map] at few

theorem Gathers.room {B : TaskId → Prop} {plan : FanOut.Plan} {first : TaskId} {p : FanOut.Progress}
    {answers : List FanOut.Answer} (h : Gathers r B w id c plan first p answers) :
    p.workers = FanOut.workersOf r.maxFanOut c.inputs ∧
      p.inside.length ≤ FanOut.workersOf r.maxFanOut c.inputs := by
  have same : p.workers = FanOut.workersOf r.maxFanOut c.inputs :=
    h.workers.trans (workers_of_plan h.planned)
  exact ⟨same, same ▸ h.order.room⟩

/-- A worker that ends before its fan-out does has made its call. -/
theorem Tally.ended (h : Tally r log w) (there : w.task? x = some (.worker k))
    (call : w.task? k.gatherer = some (.call c)) (unfinished : ∀ e, c.phase ≠ .over e)
    (goes : Goes r w w' x k .over) : x ∈ log ∨ MakesCall r w x w' := by
  obtain ⟨c₀, call₀, body, logged⟩ := h.crew x k there
  cases call.symm.trans call₀
  rcases goes.ended rfl with begun | made | why
  · rcases WorkerPhase.Begun.cases begun with calling | isOver
    · exact .inl (h.calling x k there calling)
    · exact .inl (logged isOver unfinished)
  · exact .inr made
  · -- a fan-out that gathers has given nobody up
    have early : c.phase ≠ .fresh := by
      rcases h.sane.crew x k there with no | ⟨c₁, call₁, begun⟩
      · cases no
      · cases call.symm.trans call₁
        exact begun
    obtain ⟨plan, first, p, answers, gathering, gathers⟩ :=
      h.sane.gathering call body unfinished early
    obtain ⟨i, small, rfl⟩ := gathers.crew x k there rfl
    obtain ⟨k', worker, hired, -⟩ := gathers.worker small
    cases there.symm.trans worker
    rcases why with given | lost
    · cases given.symm.trans hired.aborted
    · cases lost.symm.trans (progress?_gathering call gathering)

/-- One more move, and the log that goes with it. -/
structure Records (r : Registry) (w w' : World) (log log' : List TaskId) : Prop where
  once : log'.Nodup
  old : ∀ x ∈ log, x ∈ log'
  new : ∀ x ∈ log', x ∈ log ∨ MakesCall r w x w'
  made : ∀ x, MakesCall r w x w' → x ∈ log'

theorem Tally.records_call (h : Tally r log w) (made : MakesCall r w x w') :
    Records r w w' log (log ++ [x]) where
  once := by
    refine List.nodup_append.mpr ⟨h.once, by simp, ?_⟩
    rintro y hy z hz rfl
    obtain rfl := List.mem_singleton.mp hz
    obtain ⟨⟨k, there, early⟩, -⟩ := made.begun
    obtain ⟨k', there', begun⟩ := h.begun y hy
    cases there.symm.trans there'
    exact early begun
  old y hy := List.mem_append_left _ hy
  new y hy := (List.mem_append.mp hy).imp_right fun last => by
    rwa [List.mem_singleton.mp last]
  made y made' := List.mem_append_right _ (List.mem_singleton.mpr (made.eq h.sane made'))

theorem Tally.records_other (h : Tally r log w) (silent : ∀ x, ¬ MakesCall r w x w') :
    Records r w w' log log where
  once := h.once
  old _ hx := hx
  new _ := .inl
  made x made := absurd made (silent x)

/-- Workers stay where they are, and a fan-out that has ended hires no more. -/
theorem Staffed.move {queries : List Query} {first : TaskId} (staffed : w.Staffed id queries first)
    (sane : Sane r none w) (move : Move r w w') (here : w.task? id = some (.call c))
    (begun : c.phase ≠ .fresh) : w'.Staffed id queries first where
  roster i q hq := by
    obtain ⟨k, there, gatherer, query⟩ := staffed.roster i q hq
    obtain ⟨k', after, alike, -⟩ := goes_of_move sane move there
    exact ⟨k', after, alike.gatherer.trans gatherer, alike.query.trans query⟩
  crew x k there gatherer := by
    rcases was_of_move sane move there with none | ⟨k₀, before, alike, -⟩
    · obtain ⟨-, c', hires⟩ := hires_of_move sane move none there
      exact absurd (hires.early c (gatherer ▸ here)) begun
    · exact staffed.crew x k₀ before (alike.gatherer.symm.trans gatherer)

theorem Closes.imp {done done' : TaskId → Prop} {plan : FanOut.Plan} {e : CallEnd}
    (h : Closes done w id plan e) (more : ∀ x, done x → done' x)
    (staffed : ∀ first, w.Staffed id plan.queries first → w'.Staffed id plan.queries first) :
    Closes done' w' id plan e := by
  cases h with
  | aborted => exact .aborted
  | late ms => exact .late ms
  | failed fast q f => exact .failed fast q f
  | gathered there all => exact .gathered (staffed _ there) (fun i small => more _ (all i small)) _

theorem Tally.room_move (h : Tally r log w) (move : Move r w w') (sane' : Sane r none w')
    (there : w'.task? id = some (.call c')) (body : c'.tool.body = .fanOut) :
    AtMost (FanOut.workersOf r.maxFanOut c'.inputs) (w'.HasTurn id) := by
  by_cases fresh : c'.phase = .fresh
  · -- nobody works for a call that has not begun
    intro xs _ all
    cases xs with
    | nil => exact Nat.zero_le _
    | cons x xs =>
      obtain ⟨k, worker, rfl, -⟩ := all x List.mem_cons_self
      rcases sane'.crew x k worker with no | ⟨c₁, call, begun⟩
      · cases no
      · cases there.symm.trans call
        exact absurd fresh begun
  · by_cases isOver : ∃ e, c'.phase = .over e
    · obtain ⟨e, isOver⟩ := isOver
      obtain ⟨c, here, alike, -⟩ := ends_of_move h.sane move there isOver
      rw [alike.inputs]
      refine (h.room id c here (alike.tool ▸ body)).mono fun x hx => ?_
      obtain ⟨k', worker, gatherer, admitted⟩ := hx
      rcases was_of_move h.sane move worker with none | ⟨k, before, alike', goes⟩
      · exact absurd admitted (hires_of_move h.sane move none worker).1.2
      · have same : k.gatherer = id := alike'.gatherer.symm.trans gatherer
        refine ⟨k, before, same, (goes.admitted admitted).elim (fun h => h) fun turned => ?_⟩
        exact absurd isOver (turned c' e (same ▸ there))
    · obtain ⟨plan, first, p, answers, -, gathers⟩ :=
        sane'.gathering there body (fun e h => isOver ⟨e, h⟩) fresh
      exact fun xs once all => (gathers.inside xs once all).trans gathers.room.2

/-- **One more move.** -/
theorem Tally.move (h : Tally r log w) (move : Move r w w') (records : Records r w w' log log') :
    Tally r log' w' := by
  obtain ⟨sane', calls⟩ := advances_of_move h.sane move
  have ended {x : TaskId} {k k' : Worker} {c : Call} (before : w.task? x = some (.worker k))
      (goes : Goes r w w' x k k'.phase) (isOver : k'.phase = .over)
      (call : w.task? k.gatherer = some (.call c)) (unfinished : ∀ e, c.phase ≠ .over e) :
      x ∈ log' :=
    (h.ended before call unfinished (isOver ▸ goes)).elim (records.old x) (records.made x)
  refine ⟨sane', records.once, ?_, ?_, ?_, ?_, ?_⟩
  · intro x hx
    rcases records.new x hx with hx | made
    · obtain ⟨k, there, begun⟩ := h.begun x hx
      obtain ⟨k', after, -, goes⟩ := goes_of_move h.sane move there
      exact ⟨k', after, goes.begun begun⟩
    · exact made.begun.2
  · intro x k' there calling
    rcases was_of_move h.sane move there with none | ⟨k, before, -, goes⟩
    · exact absurd calling.begun (hires_of_move h.sane move none there).1.1
    · exact (goes.calling calling).elim (fun calling => records.old x (h.calling x k before calling))
        (records.made x)
  · intro x k' there
    rcases was_of_move h.sane move there with none | ⟨k, before, alike, goes⟩
    · obtain ⟨early, c, hires⟩ := hires_of_move h.sane move none there
      exact ⟨c, hires.maker, hires.body, fun isOver => absurd (isOver ▸ trivial) early.1⟩
    · obtain ⟨c, call, body, -⟩ := h.crew x k before
      obtain ⟨c', call', grows, -⟩ := calls _ c call
      rw [alike.gatherer]
      refine ⟨c', call', grows.tool ▸ body, fun isOver unfinished => ?_⟩
      exact ended before goes isOver call fun e landed => unfinished e (grows.isOver e landed)
  · exact fun id c' there body => h.room_move move sane' there body
  · intro id c' e plan there isOver body accepted planned
    obtain ⟨c, here, alike, how⟩ := ends_of_move h.sane move there isOver
    have body : c.tool.body = .fanOut := alike.tool ▸ body
    have planned : FanOut.plan r.maxFanOut c.inputs = .ok plan := alike.inputs ▸ planned
    have accepted : c.Accepted := accepted.alike alike.symm
    by_cases before : c.phase = .over e
    · exact (h.closes id c e plan here before body accepted planned).imp records.old
        fun first staffed => staffed.move h.sane move here (by simp [before])
    · obtain ⟨unfinished, ready, poised, rfl⟩ := how.resolve_left before
      have closed : Closed (pollCall { w with ready } r id c) id plan :=
        closed_pollCall (w := { w with ready }) here unfinished body accepted planned poised
      cases closed c' e there isOver with
      | aborted => exact .aborted
      | late ms => exact .late ms
      | failed fast q f => exact .failed fast q f
      | @gathered first staffed all o =>
        refine .gathered staffed (fun i small => ?_) o
        obtain ⟨k', worker, isOver'⟩ := all i small
        obtain ⟨k₁, worker₁, gatherer, -⟩ := staffed.roster i _ (List.getElem?_eq_getElem small)
        cases worker.symm.trans worker₁
        rcases was_of_move h.sane move worker with none | ⟨k, before, alike', goes⟩
        · exact absurd (isOver' ▸ trivial) (hires_of_move h.sane move none worker).1.1
        · have same : k.gatherer = id := alike'.gatherer.symm.trans gatherer
          exact ended before goes isOver' (same ▸ here) unfinished

theorem Tally.logged {w₀ : World} (start : Tally r [] w₀) (h : Logged r w₀ log w) :
    Tally r log w := by
  induction h with
  | refl => exact start
  | call _ made ih => exact ih.move made.move (ih.records_call made)
  | other _ move silent ih => exact ih.move move (ih.records_other silent)

/-- Workers work for fan-outs. -/
theorem Moves.crew (reached : Moves r {} w) (there : w.task? x = some (.worker k))
    (call : w.task? k.gatherer = some (.call c)) : c.tool.body = .fanOut := by
  obtain ⟨log, logged⟩ := exists_logged reached
  obtain ⟨c₀, call₀, body, -⟩ := ((tally_empty r).logged logged).crew x k there
  cases call.symm.trans call₀
  exact body

/-! ## 3. What a fan-out does -/

/-- The task is a worker of the fan-out that waits for its call. -/
def isInside (w : World) (id x : TaskId) : Bool :=
  match w.task? x with
  | some (.worker { gatherer, phase := .calling _, .. }) => gatherer == id
  | _ => false

/-- The workers of the fan-out whose calls have been made and not come to an end. -/
def inside (w : World) (id : TaskId) : List TaskId :=
  (List.range w.tasks.size).filter (w.isInside id)

theorem calling_of_isInside (h : w.isInside id x = true) :
    ∃ k, w.task? x = some (.worker k) ∧ k.gatherer = id ∧ k.phase.Calling := by
  unfold isInside at h
  split at h
  · next here => exact ⟨_, here, by simpa using h, trivial⟩
  · cases h

theorem hasTurn_of_mem_inside (h : x ∈ w.inside id) : w.HasTurn id x := by
  obtain ⟨k, here, gatherer, calling⟩ := calling_of_isInside (List.mem_filter.mp h).2
  exact ⟨k, here, gatherer, calling.admitted⟩

theorem nodup_inside (w : World) (id : TaskId) : (w.inside id).Nodup :=
  List.nodup_range.filter _

/-- **When a worker makes its call**, there is room for it. -/
theorem Tally.room_for (h : Tally r log w) (made : MakesCall r w x w')
    (there : w.task? x = some (.worker k)) (call : w.task? k.gatherer = some (.call c))
    (body : c.tool.body = .fanOut) :
    (w.inside k.gatherer).length < FanOut.workersOf r.maxFanOut c.inputs := by
  obtain ⟨here, others, kept, starts⟩ := made
  cases there.symm.trans here
  cases starts with
  | admitted phase =>
    -- one more has its turn than is inside
    refine h.room _ c call body (x :: w.inside k.gatherer) (List.nodup_cons.mpr ⟨fun hx => ?_,
      nodup_inside w _⟩) fun y hy => ?_
    · obtain ⟨k', there', -, calling⟩ := calling_of_isInside (List.mem_filter.mp hx).2
      cases there.symm.trans there'
      rw [phase] at calling
      exact calling
    · rcases List.mem_cons.mp hy with rfl | hy
      · exact ⟨k, there, rfl, phase ▸ trivial⟩
      · exact hasTurn_of_mem_inside hy
  | @asked first p phase found inside =>
    obtain ⟨p₀, before, rfl⟩ := progress?_updateProgress found
    obtain ⟨c₁, plan, answers, call₁, -, gathers, small, rfl⟩ := h.sane.place there before
    cases call.symm.trans call₁
    obtain ⟨k', worker, -, -, stands⟩ := gathers.worker small
    cases there.symm.trans worker
    have outside : k.query.index ∉ p₀.inside := fun h => by
      have admitted := (stands fun h => h).inside.mp h
      rw [phase] at admitted
      exact admitted
    have free : p₀.inside.length < p₀.workers := by
      by_contra full
      rw [FanOut.Progress.request, if_neg full] at inside
      exact outside inside
    have few := gathers.inside (w.inside k.gatherer) (nodup_inside w _) fun y =>
      hasTurn_of_mem_inside
    exact few.trans_lt (gathers.room.1 ▸ free)

/-- The query that the task is to have answered, if it is a worker of the fan-out. -/
def queryFor? (w : World) (id x : TaskId) : Option Query :=
  match w.task? x with
  | some (.worker k) => if k.gatherer = id then some k.query else none
  | _ => none

theorem filterMap_getElem? {α : Type} (l : List α) :
    (List.range l.length).filterMap (l[·]?) = l := by
  have all : (List.range l.length).map (l[·]?) = l.map some :=
    List.ext_getElem (by simp) fun i _ _ => by simp
  calc (List.range l.length).filterMap (l[·]?)
      = ((List.range l.length).map (l[·]?)).filterMap (fun o => o) := by
        rw [List.filterMap_map]
        rfl
    _ = l := by
        rw [all, List.filterMap_map]
        exact List.filterMap_some

/-- A log in which each worker is once has each query once. -/
theorem Staffed.perm {queries : List Query} {first : TaskId} (h : w.Staffed id queries first)
    (once : log.Nodup) (all : ∀ i, i < queries.length → first + i ∈ log) :
    (log.filterMap (w.queryFor? id)).Perm queries := by
  have place {i : Nat} {q : Query} (hq : queries[i]? = some q) :
      w.queryFor? id (first + i) = some q := by
    obtain ⟨k, here, gatherer, query⟩ := h.roster i q hq
    simp [queryFor?, here, gatherer, query]
  have members (x : TaskId) : x ∈ log.filter (fun x => (w.queryFor? id x).isSome) ↔
      x ∈ (List.range queries.length).map (first + ·) := by
    rw [List.mem_filter, List.mem_map]
    constructor
    · rintro ⟨-, some⟩
      unfold queryFor? at some
      split at some
      · next k here =>
        split at some
        · next gatherer =>
          obtain ⟨i, small, rfl⟩ := h.crew x k here gatherer
          exact ⟨i, List.mem_range.mpr small, rfl⟩
        · cases some
      · cases some
    · rintro ⟨i, hi, rfl⟩
      have small := List.mem_range.mp hi
      exact ⟨all i small, by rw [place (List.getElem?_eq_getElem small)]; rfl⟩
  have perm : (log.filter fun x => (w.queryFor? id x).isSome).Perm
      ((List.range queries.length).map (first + ·)) :=
    (List.perm_ext_iff_of_nodup (once.filter _)
      (List.Nodup.map (fun _ _ => Nat.add_left_cancel) List.nodup_range)).mpr members
  have queried := perm.filterMap (w.queryFor? id)
  have left : (log.filter fun x => (w.queryFor? id x).isSome).filterMap (w.queryFor? id) =
      log.filterMap (w.queryFor? id) := by
    rw [List.filterMap_filter]
    refine List.filterMap_congr fun x _ => ?_
    cases w.queryFor? id x <;> rfl
  have right : ((List.range queries.length).map (first + ·)).filterMap (w.queryFor? id) = queries := by
    rw [List.filterMap_map]
    refine Eq.trans (List.filterMap_congr fun i hi => ?_) (filterMap_getElem? queries)
    have there := List.getElem?_eq_getElem (List.mem_range.mp hi)
    exact (place there).trans there.symm
  rwa [left, right] at queried

/-- **A fan-out has no more calls at a time than it may, and each query is called for once.** In
whatever order things happen, there are no more workers at their calls than the inputs and the
registry allow, and no worker makes its call twice. When the fan-out has ended, and was not given up,
late, or ended by a failure, the calls that its workers have made are those for its queries. -/
theorem fan_out_calls_once (built : r.Built) (h : Logged r {} log w)
    (here : w.task? id = some (.call c)) (tool : c.tool = FanOut.tool)
    (passed : FanOut.check c.inputs = .ok ()) :
    1 ≤ FanOut.width r.maxFanOut c.inputs ∧
      (w.inside id).length ≤ FanOut.width r.maxFanOut c.inputs ∧
      (∀ x k w', MakesCall r w x w' → w.task? x = some (.worker k) → k.gatherer = id →
        (w.inside id).length < FanOut.width r.maxFanOut c.inputs) ∧
      log.Nodup ∧
      ∀ e, c.phase = .over e → e ≠ .aborted → (∀ ms, e ≠ .timedOut ms) →
        (Fields.get? "fail_fast" c.inputs = some (.bool true) →
          ∀ q f, e ≠ .result (.error (FanOut.firstFailure q f))) →
        ∃ (fss : List (Fields Json)) (o : ToolOutput), Fields.get? "queries" c.inputs = some (.arr (fss.map .obj)) ∧
          e = .result (.ok o) ∧
          (log.filterMap (w.queryFor? id)).Perm (fss.mapIdx Query.ofFields) := by
  have tally := (tally_empty r).logged h
  obtain ⟨same, positive⟩ := FanOut.workersOf_eq built.ceiling passed
  have body : c.tool.body = .fanOut := by rw [tool]; rfl
  rw [← same]
  refine ⟨same ▸ positive, ?_, ?_, tally.once, ?_⟩
  · exact tally.room id c here body _ (nodup_inside w id) fun x => hasTurn_of_mem_inside
  · rintro x k w' made there rfl
    exact tally.room_for made there here body
  · intro e isOver kept timely whole
    obtain ⟨fss, listed, -⟩ := FanOut.queries_of_check passed
    have accepted : c.Accepted := by
      refine .inr ?_
      rw [tool]
      exact FanOut.tool_accepts.mpr passed
    cases tally.closes id c e _ here isOver body accepted (FanOut.plan_eq r.maxFanOut listed) with
    | aborted => exact absurd rfl kept
    | late ms => exact absurd rfl (timely ms)
    | failed fast q f =>
      refine absurd rfl (whole ?_ q f)
      have fast : ((Fields.get? "fail_fast" c.inputs).bind Json.bool?).getD false = true := fast
      cases found : Fields.get? "fail_fast" c.inputs with
      | none =>
        rw [found] at fast
        cases fast
      | some v =>
        rw [found] at fast
        cases v with
        | bool b =>
          cases b with
          | true => rfl
          | false => cases fast
        | null | num | str | arr | obj => cases fast
    | gathered staffed all o => exact ⟨fss, o, listed, rfl, staffed.perm tally.once all⟩

theorem fan_out_calls_once_say :
    ∃ log w c o, sayRegistry.Built ∧ Logged sayRegistry {} log w ∧ w.task? 0 = some (.call c) ∧
      c.tool = FanOut.tool ∧ FanOut.check c.inputs = .ok () ∧
      c.phase = .over (.result (.ok o)) ∧ FanOut.width sayRegistry.maxFanOut c.inputs = 4 ∧
      (w.inside 0).length ≤ 4 ∧ log.Nodup ∧
      (log.filterMap (w.queryFor? 0)).Perm (sayQueries.mapIdx Query.ofFields) := by
  have made : Moves sayRegistry {} (spawn {} (.call sayCall)).2 := (Move.make rfl).moves
  obtain ⟨_, _, first, rfl⟩ := passes_settle
    (rfl : (spawn {} (.call sayCall)).2.settle sayRegistry 20 = (.quiet, sayWaits))
  obtain ⟨_, _, second, rfl⟩ := passes_settle
    (rfl : (sayWaits.advance?.getD sayWaits).settle sayRegistry 2 = (.quiet, sayWorld))
  have turn : Move sayRegistry sayWorld (sayWorld.step sayRegistry).2 := move_of_step rfl
  have reached : Moves sayRegistry {} (sayWorld.step sayRegistry).2 :=
    ((made.trans (moves_of_passes first)).trans (moves_of_passes (.tick rfl rfl second))).trans
      turn.moves
  obtain ⟨log, logged⟩ := exists_logged reached
  obtain ⟨c, o, here, tool, inputs, isOver⟩ : ∃ c o,
      (sayWorld.step sayRegistry).2.task? 0 = some (.call c) ∧ c.tool = FanOut.tool ∧
        c.inputs = sayCall.inputs ∧ c.phase = .over (.result (.ok o)) :=
    ⟨_, _, rfl, rfl, rfl, rfl⟩
  have built : sayRegistry.Built := Registry.Built.empty.register sayTool
  have passed : FanOut.check c.inputs = .ok () := by
    rw [inputs]
    rfl
  have width : FanOut.width sayRegistry.maxFanOut c.inputs = 4 := by
    rw [inputs]
    rfl
  obtain ⟨-, few, -, once, ends⟩ := fan_out_calls_once built logged here tool passed
  obtain ⟨fss, o', listed, -, perm⟩ := ends _ isOver (by simp) (by simp) (by simp)
  have same : fss = sayQueries := by
    rw [inputs] at listed
    have both : sayQueries.map Json.obj = fss.map Json.obj := Json.arr.inj (Option.some.inj listed)
    exact ((List.map_injective_iff.mpr fun _ _ h => Json.obj.inj h) both).symm
  exact ⟨log, _, c, o, built, logged, here, tool, passed, isOver, width, width ▸ few, once,
    same ▸ perm⟩

end Runbook.Schedule.World
