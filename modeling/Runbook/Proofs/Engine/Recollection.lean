import Runbook.Proofs.Engine.Histories
import Runbook.Proofs.Memory.Needs

/-!
# What a step recollects

When a step has its turn, the log of the run holds the start and the records of all steps in front
of it, and nothing else. So whatever needs are met then are met from the parameters and those
results alone: by what they are owed, as far as the texts can be read back.

Of the needs only two depend on that. `parameters` reads the parameters from their text, and `step`
reads the whole record of a step. A record may be too deep for the reader; then the step that needs
it fails, although the step that it needs has succeeded (`unread_step`).
-/

set_option autoImplicit false

namespace Runbook

open Dialogue RunDialogue Memory RunTrace

namespace Execution

/-! ## 1. What is recorded in front of a step -/

/-- The rest of a run: steps that have their turns, or are skipped. -/
def Remains (c : Config) (run : RunId) (steps : List Step) (ss : List Stretch)
    (rs : List StepResult) : Prop :=
  (∃ ctx abort, Course c run ctx steps ss rs abort) ∨
    (Skips run steps ss ∧ rs = skippedResults steps)

theorem Remains.first {c : Config} {run : RunId} {step : Step} {rest : List Step} {s : Stretch}
    {ss : List Stretch} {r : StepResult} {rs : List StepResult}
    (h : Remains c run (step :: rest) (s :: ss) (r :: rs))
    (working : (Stretch.traces (s :: ss)).Working) :
    stored s.trace = stepSlices run r ∧ Remains c run rest ss rs := by
  rw [Stretch.traces_cons, working_append, working_append] at working
  obtain ⟨⟨-, hrecords⟩, -⟩ := working
  rcases h with ⟨ctx, abort, course⟩ | ⟨skips, results⟩
  · cases course with
    | goesOn attempted recorded later =>
      rw [Stretch.trace, stored_append, stored_attempt attempted, stored_record recorded hrecords]
      exact ⟨rfl, .inl ⟨_, _, later⟩⟩
    | aborted attempted recorded skipped =>
      rw [Stretch.trace, stored_append, stored_attempt attempted, stored_record recorded hrecords]
      exact ⟨rfl, .inr ⟨skipped, rfl⟩⟩
    | unrecorded _ failed =>
      -- a store that works refuses no record
      rw [working_append, working_append] at hrecords
      exact absurd (ok_of_appendAll failed hrecords.1.1).1 (by simp)
  · obtain ⟨rfl, rfl⟩ := List.cons.inj results
    cases skips with
    | cons tried later =>
      rw [Stretch.trace, List.nil_append, stored_record tried hrecords]
      exact ⟨rfl, .inr ⟨later, rfl⟩⟩

/-- In front of any step all records are in the store, and nothing else. -/
theorem Remains.stored_front {c : Config} {run : RunId} {front back : List Turn}
    (h : Remains c run ((front ++ back).map (·.step)) ((front ++ back).map (·.toStretch))
      ((front ++ back).map (·.result)))
    (working : (Stretch.traces ((front ++ back).map (·.toStretch))).Working) :
    stored (Stretch.traces (front.map (·.toStretch))) =
      (front.map (·.result)).flatMap (stepSlices run) := by
  induction front with
  | nil => rfl
  | cons p front ih =>
    obtain ⟨own, later⟩ := h.first working
    have first : Stretch.traces ((p :: front).map (·.toStretch)) =
        p.trace ++ Stretch.traces (front.map (·.toStretch)) := rfl
    rw [first, stored_append, own, ih later (working_append.mp working).2]
    rfl

end Execution

open Execution

/-! ## 2. Recollections -/

/-- The needs were met from the parameters and these results alone. -/
structure Recollects (tolerant : Bool) (params : Fields Json) (rs : List StepResult)
    (needs : List Need) (x : Except StoreError (Fields Json)) : Prop where
  /-- Each need has its answer, and the answers are put together in order. -/
  answered : ∃ answers,
    List.Forall₂ (fun need a => ∃ created, a = need.retold params rs created) needs answers ∧
      x = gather tolerant [] answers
  /-- An answer is what the need is owed exactly if its texts can be read back as they were. -/
  faithful_iff : ∀ need ∈ needs, ∀ created,
    need.retold params rs created = .ok (need.owed params rs created) ↔ need.Faithful params rs
  /-- If that is so of all of them, their bindings are owed, and a later one replaces an earlier
  one. -/
  owed : (∀ need ∈ needs, need.Faithful params rs) → ∃ bs,
    List.Forall₂ (fun need b => ∃ created, b = need.owed params rs created) needs bs ∧
      x = .ok (bs.foldl Fields.extend [])

theorem recollects_of_answers {tolerant : Bool} {params : Fields Json} {rs : List StepResult}
    {needs : List Need} {answers : List (Except StoreError (Fields Json))}
    (h : List.Forall₂ (fun need a => ∃ created, a = need.retold params rs created) needs answers) :
    Recollects tolerant params rs needs (gather tolerant [] answers) := by
  refine ⟨⟨answers, h, rfl⟩, fun need _ created => need.retold_eq_owed_iff params rs created, ?_⟩
  intro faithful
  suffices owed : ∃ bs, List.Forall₂ (fun need b => ∃ created, b = need.owed params rs created)
      needs bs ∧ answers = bs.map .ok by
    obtain ⟨bs, met, rfl⟩ := owed
    exact ⟨bs, met, gather_ok tolerant [] bs⟩
  induction h with
  | nil => exact ⟨[], .nil, rfl⟩
  | @cons need a needs answers here _ ih =>
    obtain ⟨own, others⟩ := List.forall_mem_cons.mp faithful
    obtain ⟨created, rfl⟩ := here
    obtain ⟨bs, met, rfl⟩ := ih others
    refine ⟨need.owed params rs created :: bs, .cons ⟨created, rfl⟩ met, ?_⟩
    rw [(need.retold_eq_owed_iff params rs created).mpr own]
    rfl

/-- From this point of a run, needs are met from the parameters and these results. -/
def Recalled {σ : Type} [MemoryStore σ] [LogStore σ] (run : RunId) (params : Fields Json)
    (rs : List StepResult) (m : σ) : Prop :=
  ∀ needs tolerant (t : RunTrace) x m', Yields (ofStore («recall» tolerant run [] needs)) t x →
    Shared run m t m' → t.Working → Recollects tolerant params rs needs x

theorem recalled_of_entries {σ : Type} [MemoryStore σ] [LogStore σ] {run : RunId}
    {workflow : String} {params : Fields Json} {rs : List StepResult} {m : σ}
    (log : LogStore.entries run m = runEntries run workflow params rs)
    (names : (rs.map (·.step)).Nodup) : Recalled run params rs m := by
  intro needs tolerant t x m' asked shared working
  obtain ⟨answers, met, rfl⟩ := gathered_of_recall asked shared working
  refine recollects_of_answers (met.imp fun need a => ?_)
  rintro ⟨created, rfl⟩
  exact ⟨created, by rw [log, need.newest?_eq_finds run workflow params names, Need.retold]⟩

/-- **Whatever a step needs is met from the parameters and the results of the steps in front of
it.** The run was started by an engine, under an id without entries, over a store that works and that
others used at the same time. -/
theorem recalled_in_run {σ : Type} [MemoryStore σ] [LogStore σ] {c : Config} {registry : Registry}
    {ws : List Workflow} {e : Engine} (made : Engine.make c registry ws = .ok e)
    {active active' : ActiveRuns} {name : String} {run : RunId} {provided : Fields Json}
    {signal : Schedule.Signal} {d : RunDialogue RunRecord}
    (started : e.start active name run provided signal = .ok (d, active')) {t : RunTrace}
    {rec : RunRecord} {st : σ} (ran : Yields d t rec) (fresh : LogStore.entries run st = [])
    (works : t.Working) :
    ∃ w ∈ e.workflows, w.name = name ∧ ∃ start ss ps finish,
      t = start ++ Stretch.traces ss ++ finish ∧ Turns run w.steps rec.steps ss ps ∧
      ∀ front q back, ps = front ++ q :: back → ∀ before after, q.work = before ++ after →
        ∀ m, Shared run st (start ++ Stretch.traces (front.map (·.toStretch)) ++ before) m →
          Recalled run rec.params (front.map (·.result)) m := by
  obtain ⟨w, params, hw, named, -, -, rfl, -⟩ := Engine.start_ok started
  have distinct := Workflow.nodup_of_check (Engine.check_of_make made w hw)
  obtain ⟨t₀, t₁, start, ss, abort, rfl, course, hrec⟩ := yields_execute ran
  obtain ⟨ps, turns⟩ := course.turns
  have params_eq : rec.params = params := by rw [hrec]
  obtain ⟨hstart, hss⟩ := working_runTrace works
  obtain ⟨opened, steps⟩ := course.course hstart
  refine ⟨w, hw, named, ⟨.time, t₀⟩ :: start, ss, ps, [⟨.time, t₁⟩], rfl, turns, ?_⟩
  intro front q back hps before after hq m shared
  rw [params_eq]
  -- what the run has stored so far
  have sofar : stored (⟨.time, t₀⟩ :: start ++ Stretch.traces (front.map (·.toStretch)) ++ before) =
      startSlices run w.name params ++ (front.map (·.result)).flatMap (stepSlices run) := by
    have remains : Remains e.config run w.steps ss rec.steps := .inl ⟨_, _, steps⟩
    rw [← turns.steps_eq, ← turns.results_eq, ← turns.stretches_eq, hps] at remains
    rw [← turns.stretches_eq, hps] at hss
    rw [stored_append, stored_append, remains.stored_front hss,
      stored_work (turns.own q (by simp [hps])) hq, List.append_nil, ← List.singleton_append,
      stored_append, opened]
    rfl
  have own : ∀ s ∈ stored (⟨.time, t₀⟩ :: start ++
      Stretch.traces (front.map (·.toStretch)) ++ before), s.run = run ∧
      s.classification.Proper := by
    rw [sofar]
    exact fun s hs => own_of_mem_slices hs
  have log : LogStore.entries run m = runEntries run w.name params (front.map (·.result)) := by
    rw [shared.entries_eq fun s hs => (own s hs).2, fresh, List.nil_append,
      entriesOf_own fun s hs => (own s hs).1, sofar]
    rfl
  have names : ((front.map (·.result)).map (·.step)).Nodup := by
    have all : ps.map (·.result.step) = w.stepNames := by
      rw [Workflow.stepNames, ← turns.steps_eq, List.map_map]
      exact List.map_congr_left fun p hp => (turns.own p hp).named
    rw [← all, hps, List.map_append] at distinct
    rw [List.map_map]
    exact (List.nodup_append.mp distinct).1
  exact recalled_of_entries log names

/-- The general statement at a run of two steps, of which the second needs the first. -/
theorem recalled_in_run_lookup :
    Engine.make {} lookupRegistry [lookupWorkflow] = .ok lookupEngine ∧
      lookupEngine.start [] "report" "r1" [] [] = .ok (lookupRun, [("r1", [])]) ∧
      Yields lookupRun firstLookup.trace firstLookup.record ∧
      LogStore.entries "r1" ({} : RunTable) = [] ∧ firstLookup.trace.Working ∧
      ∃ w ∈ lookupEngine.workflows, w.name = "report" ∧ ∃ start ss ps finish,
        firstLookup.trace = start ++ Stretch.traces ss ++ finish ∧
        Turns "r1" w.steps firstLookup.record.steps ss ps ∧
        ∀ front q back, ps = front ++ q :: back → ∀ before after, q.work = before ++ after →
          ∀ m : RunTable,
            Shared "r1" {} (start ++ Stretch.traces (front.map (·.toStretch)) ++ before) m →
              Recalled "r1" firstLookup.record.params (front.map (·.result)) m := by
  have ran : Yields lookupRun firstLookup.trace firstLookup.record := yields_transcript _ lookupRun _
  have works := lookup_working firstLookup (by simp)
  exact ⟨make_lookupEngine, start_lookup, ran, rfl, works,
    recalled_in_run make_lookupEngine start_lookup ran rfl works⟩

/-! ## A success that is not recollected

The first step succeeds with an output that is nested too deeply, and the second one needs it. -/

def backWorkflow : Workflow where
  name := "back"
  description := none
  params := []
  steps :=
    [{ name := "find", tool := some "lookup" },
      { name := "show", tool := some "lookup", needs := [.step "find"] }]

def backEngine : Engine :=
  { config := {}, registry := lookupRegistry, workflows := [backWorkflow] }

def backRun : RunDialogue RunRecord := execute {} backWorkflow "r1" []

def backTrace : RunTrace :=
  backRun.transcript (overStore ⟨0⟩ (calling nestedOutput)) (({} : RunTable), ())

theorem bindings_of_unreadable {name : String} {r : StepResult} {s : Slice} (h : ¬ Readable r)
    (content : s.content = r.encode.compress) (bound : Fields Json) :
    Need.bindings (.step name) s ≠ .ok bound := by
  intro read
  rw [Need.bindings, content] at read
  split at read
  · next x told => exact h ⟨x, told⟩
  · cases read
  · cases read

/-- **A step may be unable to recollect a success.** The first step had its output, over a store that
works, and the second one, which needs it, is given nothing but an error. -/
theorem unread_step :
    Engine.make {} lookupRegistry [backWorkflow] = .ok backEngine ∧
      backEngine.start [] "back" "r1" [] [] = .ok (backRun, [("r1", [])]) ∧
      LogStore.entries "r1" ({} : RunTable) = [] ∧ (∃ st', Served ({} : RunTable) backTrace st') ∧
      backTrace.Working ∧ ⟨.call "lookup" [] none, .ok nestedOutput⟩ ∈ backTrace ∧
      ∃ slices,
        ⟨.store (.query { (Need.step "find").query "r1" with limit := some 1 }), slices⟩ ∈
          backTrace ∧
        ∀ bound, bindingsOf (.step "find") slices ≠ .ok bound := by
  have made : Engine.make {} lookupRegistry [backWorkflow] = .ok backEngine := by
    rw [Engine.make, names_lookupRegistry]
    rfl
  have served := served_transcript ⟨0⟩ (calling nestedOutput) backRun (({} : RunTable), ())
  refine ⟨made, rfl, rfl, ⟨_, served⟩, working_of_runTable served,
    List.mem_of_getElem? (i := 4) rfl, _, List.mem_of_getElem? (i := 10) rfl, ?_⟩
  exact bindings_of_unreadable unreadable_nested rfl

end Runbook
