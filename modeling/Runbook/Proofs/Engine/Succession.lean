import Runbook.Proofs.Run.Served
import Runbook.Proofs.Run.Working
import Runbook.Proofs.Workflow.Accepted

/-!
# Runs one after another

An engine is asked for runs one after another, all over one store that works; an id may be used
again once its run is over. What a run reads is looked up under its id, so it may see what earlier
runs of that id have left.

A step that fails and lets the run go on has no output in its own run: no entry of the run is an
output of that step, because only successes leave outputs and steps of a workflow have different
names. So a need for its output binds nothing, *unless* the store already had an output of that
name under the id of the run. `continued_failure` makes this exact.
-/

set_option autoImplicit false

namespace Runbook

open Dialogue Execution Memory RunTrace

/-- A run with what was exchanged in it and what came of it. -/
structure PastRun where
  id : RunId
  trace : RunTrace
  record : RunRecord

section

variable {σ : Type} [MemoryStore σ]

/-- The engine starts the runs one after another, and the store serves each as the earlier ones
have left it. -/
inductive Succession (e : Engine) : ActiveRuns → σ → List PastRun → σ → Prop where
  | nil (active : ActiveRuns) (st : σ) : Succession e active st [] st
  | cons {active active' : ActiveRuns} {name : String} {p : PastRun} {provided : Fields Json}
      {signal : Schedule.Signal} {d : RunDialogue RunRecord} {st st₁ st₂ : σ} {ps : List PastRun}
      (started : e.start active name p.id provided signal = .ok (d, active'))
      (ran : Yields d p.trace p.record) (served : Served st p.trace st₁)
      (later : Succession e (Engine.release p.id active') st₁ ps st₂) :
      Succession e active st (p :: ps) st₂

theorem Succession.split {e : Engine} {active : ActiveRuns} {st st' : σ} {ps qs : List PastRun}
    (h : Succession e active st (ps ++ qs) st') :
    ∃ active₁ m, Succession e active st ps m ∧ Succession e active₁ m qs st' := by
  induction ps generalizing active st with
  | nil => exact ⟨active, st, .nil active st, h⟩
  | cons p ps ih =>
    cases h with
    | cons started ran served later =>
      obtain ⟨active₁, m, front, back⟩ := ih later
      exact ⟨active₁, m, .cons started ran served front, back⟩

/-- A run of which the questions are answered by a store and by others goes on a succession. -/
theorem Succession.cons_transcript {τ : Type} {e : Engine} {active active' : ActiveRuns}
    {name : String} {id : RunId} {provided : Fields Json} {signal : Schedule.Signal}
    {d : RunDialogue RunRecord} {now : Instant}
    {others : (q : RunQuestion) → τ → RunAnswer q × τ} {s : σ × τ} {ps : List PastRun} {st' : σ}
    (started : e.start active name id provided signal = .ok (d, active'))
    (later : Succession e (Engine.release id active') (d.answered (overStore now others) s).2.1
      ps st') :
    Succession e active s.1
      (⟨id, d.transcript (overStore now others) s, (d.answered (overStore now others) s).1⟩ :: ps)
      st' :=
  .cons started (yields_transcript _ d s) (served_transcript now others d s) later

/-- A run of that id had a success of that name. -/
def PastRun.Succeeded (id : RunId) (name : String) (p : PastRun) : Prop :=
  p.id = id ∧ ∃ r ∈ p.record.steps, r.step = name ∧ r.status = .success

variable [LogStore σ]

/-- **An output in the store was there before, or is of a success in one of the runs.** -/
theorem Succession.hasOutput_iff {e : Engine} {active : ActiveRuns} {st st' : σ}
    {ps : List PastRun} (h : Succession e active st ps st') (working : ∀ p ∈ ps, p.trace.Working)
    (id : RunId) (name : String) :
    HasOutput name (LogStore.entries id st') ↔
      HasOutput name (LogStore.entries id st) ∨ ∃ p ∈ ps, p.Succeeded id name := by
  induction h with
  | nil => simp
  | @cons active active' _ p _ _ _ st st₁ _ ps started ran served _ ih =>
    obtain ⟨w, params, -, -, -, -, rfl, -⟩ := Engine.start_ok started
    have added := hasOutput_execute ran (working p (by simp)) id name
    rw [ih fun q hq => working q (List.mem_cons_of_mem p hq),
      served.entries_eq (inOrder_of_yields ran).proper id, hasOutput_append, added, or_assoc]
    simp only [List.mem_cons, exists_eq_or_imp]
    exact Iff.rfl

end

namespace Execution

/-- The step failed, and neither its policy nor a request to stop ends the run. -/
structure Turn.FailsOn (p : Turn) : Prop where
  failed : p.result.status = .failed
  policy : p.step.onFailure = .proceed
  uncancelled : ∀ f, p.result.error = some f → f.kind ≠ .cancelled

theorem Turn.FailsOn.letsGoOn {p : Turn} (h : p.FailsOn) : p.LetsGoOn := by
  refine ⟨by simp [h.failed], ?_⟩
  unfold consequence
  split
  · rfl
  · next f hf => rw [if_neg (h.uncancelled f hf), h.policy]

theorem Recorded.stored {run : RunId} {r : StepResult} {t : RunTrace} (h : Recorded run r t) :
    RunTrace.stored t = stepSlices run r := by
  cases h with
  | success status output | failed status output =>
    rw [stepSlices, detailSlice?, status]
    simp only [output]
    rfl

/-- Before a later step reads, the run has no output of a step that failed. -/
theorem no_output_of_failed {w : Workflow} {run : RunId} {params : Fields Json}
    {rs : List StepResult} {ss : List Stretch} {ps front mid back : List Turn} {p q : Turn}
    {start t u : RunTrace} (names : w.stepNames.Nodup) (turns : Turns run w.steps rs ss ps)
    (hps : ps = front ++ p :: mid ++ q :: back) (hstart : ∀ x ∈ start, StartOf w run params x)
    (hp : p.result.status = .failed) (engages : q.Engages) (hq : q.work = t ++ u) :
    ¬ HasOutput p.step.name
      ((start ++ Stretch.traces ((front ++ p :: mid).map (·.toStretch)) ++ t).entriesOf run) := by
  rw [hasOutput_entriesOf]
  rintro ⟨s, hs, -, step, output⟩
  -- the turn reads, so all turns in front of it are recorded in full
  have before : ∀ a ∈ front ++ p :: mid, a.Before run q := by
    intro a ha
    have pairs := hps ▸ turns.before
    exact (List.pairwise_append.mp pairs).2.2 a ha q (by simp)
  rw [stored_append, stored_append, stored_work (turns.own q (by simp [hps])) hq,
    List.append_nil] at hs
  rcases List.mem_append.mp hs with hs | hs
  · rcases (mem_startSlices (StartOf.stored hstart hs)).2 with h | h <;>
      exact absurd (output.symm.trans h) (by simp)
  · -- an output of that name would be of a success of the same step
    obtain ⟨a, ha, hs⟩ := mem_stored_traces hs
    have own := turns.own a (by rw [hps]; exact List.mem_append_left _ ha)
    have hs : s ∈ stepSlices run a.result := by
      rw [← (before a ha engages).1.stored]
      change s ∈ RunTrace.stored (a.work ++ a.records) at hs
      rwa [stored_append, stored_work own (List.append_nil _).symm, List.nil_append] at hs
    have same : a.step.name = p.step.name := by
      rw [← own.named, ← (run_of_mem_stepSlices hs).2.1, step]
    have here : a = p :=
      turns.eq_of_name names (by simp [hps]) (by rw [hps]; exact List.mem_append_left _ ha) same
    rw [here] at hs
    rw [success_of_output hs output] at hp
    cases hp

end Execution

/-- A need for an output binds nothing exactly if there is no output under the name. -/
theorem binds_nothing_iff {σ : Type} [MemoryStore σ] [LogStore σ] {id : RunId} {name : String}
    {st st' : σ} {t u : RunTrace} {found : Except StoreError (List Slice)}
    (h : Served st
      (t ++ ⟨.store (.query { (Need.toolOutput name).query id with limit := some 1 }), found⟩ :: u)
      st')
    (proper : t.Proper)
    (working : ¬ RunExchange.Faulty
      ⟨.store (.query { (Need.toolOutput name).query id with limit := some 1 }), found⟩) :
    bindingsOf (.toolOutput name) found = .ok [] ↔
      ¬ HasOutput name (LogStore.entries id st ++ t.entriesOf id) := by
  cases found with
  | error e => exact absurd (.query _ e) working
  | ok found =>
    have listed := h.found_eq proper (Need.query_proper (.toolOutput name) id (some 1))
    have admitted : ∀ e, (Need.query id (.toolOutput name)).admits e =
        (name == e.step && Classification.output == e.classification) := fun _ => rfl
    have none_iff : found = [] ↔ ¬ HasOutput name (LogStore.entries id st ++ t.entriesOf id) := by
      rw [← List.map_eq_nil_iff (f := Slice.entry), listed, upTo, List.take_eq_nil_iff]
      simp only [Nat.one_ne_zero, false_or, List.reverse_eq_nil_iff, List.filter_eq_nil_iff]
      constructor
      · rintro none ⟨e, he, rfl, output⟩
        exact none e he (by simp [SliceQuery.admits, Need.query, output])
      · intro none e he admits
        simp only [SliceQuery.admits, Need.query, Option.all_some, Bool.and_eq_true,
          beq_iff_eq] at admits
        exact none ⟨e, he, admits.1.symm, admits.2.symm⟩
    rw [← none_iff]
    cases found with
    | nil => exact ⟨fun _ => rfl, fun _ => rfl⟩
    | cons s rest => simp [bindingsOf, Need.bindings]

/-- What becomes of the steps that fail and let the run go on: the next step has its turn, and a
later need for the output of the failed one binds nothing, unless an output of that name is
left over. -/
def GoesPastFailures (c : Config) (run : RunId) (params : Fields Json) (leftover : String → Prop)
    (ps : List Turn) : Prop :=
  ∀ front p back, ps = front ++ p :: back → p.FailsOn →
    (∀ q rest, back = q :: rest →
      q.Taken c run
        (((front ++ [p]).map (·.result)).foldl RunContext.record (openingContext c params))) ∧
    ∀ mid q rest, back = mid ++ q :: rest → ∀ found,
      ⟨.store (.query { (Need.toolOutput p.step.name).query run with limit := some 1 }), found⟩ ∈
        q.work →
      (bindingsOf (.toolOutput p.step.name) found = .ok [] ↔ ¬ leftover p.step.name)

/-- **A run goes past its failures.** An output is left over if it was under the id of the run
before the run started: in the store at the beginning, or by an earlier run in which the step
succeeded. -/
theorem continued_failure {σ : Type} [MemoryStore σ] [LogStore σ] {c : Config} {r : Registry}
    {ws : List Workflow} {e : Engine} (made : Engine.make c r ws = .ok e) {active : ActiveRuns}
    {st st' : σ} {earlier later : List PastRun} {this : PastRun}
    (succession : Succession e active st (earlier ++ this :: later) st')
    (working : ∀ p ∈ earlier ++ this :: later, p.trace.Working) :
    ∃ w ∈ e.workflows, ∃ start ss ps finish,
      this.trace = start ++ Stretch.traces ss ++ finish ∧
      Turns this.id w.steps this.record.steps ss ps ∧
      GoesPastFailures e.config this.id this.record.params
        (fun name => HasOutput name (LogStore.entries this.id st) ∨
          ∃ p ∈ earlier, p.Succeeded this.id name) ps := by
  obtain ⟨active₁, m, before, rest⟩ := succession.split
  cases rest with
  | cons started ran served _ =>
    obtain ⟨w, params, hw, -, -, -, rfl, -⟩ := Engine.start_ok started
    obtain ⟨t₀, t₁, start, ss, abort, htrace, course, hrec⟩ := yields_execute ran
    obtain ⟨ps, turns⟩ := course.turns
    have names := Workflow.nodup_of_check (Engine.check_of_make made w hw)
    have works : this.trace.Working := working this (by simp)
    have params_eq : this.record.params = params := by rw [hrec]
    refine ⟨w, hw, ⟨.time, t₀⟩ :: start, ss, ps, [⟨.time, t₁⟩], htrace, turns, ?_⟩
    intro front p back hps fails
    constructor
    · intro q rest hback
      obtain ⟨hstart, hss⟩ := working_runTrace (htrace ▸ works)
      have steps := (course.course hstart).2
      rw [hback] at hps
      rw [← turns.steps_eq, ← turns.stretches_eq, ← turns.results_eq, hps] at steps
      rw [← turns.stretches_eq, hps] at hss
      rw [params_eq]
      exact steps.next hss fails.letsGoOn
    · intro mid q rest hback found hx
      obtain ⟨t, u, hq⟩ := List.append_of_mem hx
      have split : ps = front ++ p :: mid ++ q :: rest := by simp [hps, hback]
      have engages : q.Engages := ⟨_, List.mem_append_left _ hx, trivial⟩
      have start_of : ∀ x ∈ (⟨.time, t₀⟩ :: start : RunTrace), StartOf w this.id params x := by
        intro x hx
        rcases List.mem_cons.mp hx with rfl | hx
        · exact .inl rfl
        · exact course.startOf x hx
      have silent := no_output_of_failed names turns split start_of fails.failed engages hq
      -- the need is met by what was there when the run started, and by what it has added since
      have pieces : this.trace =
          (⟨.time, t₀⟩ :: start ++ Stretch.traces ((front ++ p :: mid).map (·.toStretch)) ++ t) ++
            ⟨.store (.query { (Need.toolOutput p.step.name).query this.id with limit := some 1 }),
              found⟩ :: (u ++ q.records ++ Stretch.traces (rest.map (·.toStretch)) ++
                [⟨.time, t₁⟩]) := by
        rw [htrace, runTrace, ← turns.stretches_eq, split, List.map_append, List.map_cons]
        simp [Stretch.traces, Stretch.trace, hq]
      have proper := (inOrder_of_yields ran).proper
      rw [pieces] at served proper works
      have bound := binds_nothing_iff served (proper_append.mp proper).1 (works _ (by simp))
      rw [bound, hasOutput_append, before.hasOutput_iff fun p' hp' => working p' (by simp [hp'])]
      exact not_congr (or_iff_left silent)

/-! ## An output that is left over

Two runs under one id. The first finds something; the second does not, goes on, and shows what the
first one found. -/

def lookupTool : Tool where
  name := "lookup"
  check _ := .accepted
  body := .alone fun _ => { result := .output (ToolOutput.ofText "old") }

def lookupRegistry : Registry := { tools := [("lookup", lookupTool)] }

def lookupWorkflow : Workflow where
  name := "report"
  description := none
  params := []
  steps :=
    [{ name := "find", tool := some "lookup", onFailure := .proceed },
      { name := "show", tool := some "lookup", needs := [.toolOutput "find"] }]

def lookupEngine : Engine :=
  { config := {}, registry := lookupRegistry, workflows := [lookupWorkflow] }

/-- Nobody interferes, and the third call of a tool fails. -/
def thirdCallFails : (q : RunQuestion) → Nat → RunAnswer q × Nat
  | .store (.append _), n => (.ok 0, n)
  | .store (.query _), n => (.ok [], n)
  | .store (.history _), n => (.ok [], n)
  | .time, n => (⟨0⟩, n)
  | .stopRequested, n => (false, n)
  | .approval .., n => (.approved, n)
  | .call .., n =>
      (if n = 2 then .error ⟨.toolExecution, "not found"⟩ else .ok (.ofText "old"), n + 1)

def lookupRun : RunDialogue RunRecord := execute {} lookupWorkflow "r1" []

/-- A run over a store, of which so many calls have been made before. -/
def lookupAfter (s : RunTable × Nat) : PastRun :=
  ⟨"r1", lookupRun.transcript (overStore ⟨0⟩ thirdCallFails) s,
    (lookupRun.answered (overStore ⟨0⟩ thirdCallFails) s).1⟩

/-- The store and the number of calls after such a run. -/
def afterLookup (s : RunTable × Nat) : RunTable × Nat :=
  (lookupRun.answered (overStore ⟨0⟩ thirdCallFails) s).2

def firstLookup : PastRun := lookupAfter ({}, 0)

def secondLookup : PastRun := lookupAfter (afterLookup ({}, 0))

theorem names_lookupRegistry : lookupRegistry.names = ["lookup"] := by
  simp [Registry.names, lookupRegistry, Fields.sorted, Fields.ofWrites, Fields.extend, Fields.put,
    Fields.names]

theorem make_lookupEngine : Engine.make {} lookupRegistry [lookupWorkflow] = .ok lookupEngine := by
  rw [Engine.make, names_lookupRegistry]
  rfl

theorem start_lookup :
    lookupEngine.start [] "report" "r1" [] [] = .ok (lookupRun, [("r1", [])]) := rfl

theorem lookup_succession :
    Succession lookupEngine [] ({} : RunTable) [firstLookup, secondLookup]
      (afterLookup (afterLookup ({}, 0))).1 := by
  have last : Succession lookupEngine [] (afterLookup ({}, 0)).1 [secondLookup]
      (afterLookup (afterLookup ({}, 0))).1 :=
    .cons_transcript start_lookup (.nil _ _)
  exact .cons_transcript (s := (({} : RunTable), 0)) start_lookup last

theorem lookup_working : ∀ p ∈ [firstLookup, secondLookup], p.trace.Working := by
  have first := served_transcript ⟨0⟩ thirdCallFails lookupRun (({} : RunTable), 0)
  have second := served_transcript ⟨0⟩ thirdCallFails lookupRun (afterLookup ({}, 0))
  intro p hp
  rcases List.mem_cons.mp hp with rfl | hp
  · exact working_of_runTable first
  · rw [List.mem_singleton.mp hp]
    exact working_of_runTable second

/-- The general statement at these runs, where the second one is the run in question. -/
theorem continued_failure_lookup :
    Engine.make {} lookupRegistry [lookupWorkflow] = .ok lookupEngine ∧
      Succession lookupEngine [] ({} : RunTable) ([firstLookup] ++ secondLookup :: [])
        (afterLookup (afterLookup ({}, 0))).1 ∧
      (∀ p ∈ [firstLookup] ++ secondLookup :: [], p.trace.Working) ∧
      ∃ w ∈ lookupEngine.workflows, ∃ start ss ps finish,
        secondLookup.trace = start ++ Stretch.traces ss ++ finish ∧
        Turns secondLookup.id w.steps secondLookup.record.steps ss ps ∧
        GoesPastFailures lookupEngine.config secondLookup.id secondLookup.record.params
          (fun name => HasOutput name (LogStore.entries secondLookup.id ({} : RunTable)) ∨
            ∃ p ∈ [firstLookup], p.Succeeded secondLookup.id name) ps :=
  ⟨make_lookupEngine, lookup_succession, lookup_working,
    continued_failure make_lookupEngine lookup_succession lookup_working⟩

/-- **A step that failed can show an output.** The second run went past the failure of its first
step, and its second step got the output that the first run had left under the same id. -/
theorem leftover_output :
    Engine.make {} lookupRegistry [lookupWorkflow] = .ok lookupEngine ∧
      Succession lookupEngine [] ({} : RunTable) [firstLookup, secondLookup]
        (afterLookup (afterLookup ({}, 0))).1 ∧
      (∀ p ∈ [firstLookup, secondLookup], p.trace.Working) ∧
      lookupWorkflow.steps.map (fun s => (s.name, s.onFailure)) =
        [("find", .proceed), ("show", .abortChain)] ∧
      secondLookup.record.steps.map (fun r => (r.step, r.status, r.error)) =
        [("find", .failed, some ⟨.toolExecution, "not found"⟩), ("show", .success, none)] ∧
      ∃ slices,
        ⟨.store (.query { (Need.toolOutput "find").query secondLookup.id with limit := some 1 }),
          slices⟩ ∈ secondLookup.trace ∧
        bindingsOf (.toolOutput "find") slices = .ok [("find_output", .str "old")] := by
  refine ⟨make_lookupEngine, lookup_succession, lookup_working, rfl, rfl, ?_⟩
  exact ⟨_, List.mem_of_getElem? (i := 10) rfl, rfl⟩

end Runbook
