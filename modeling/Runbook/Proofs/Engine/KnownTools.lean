import Runbook.Proofs.Engine.Answers
import Runbook.Proofs.Engine.Gates
import Runbook.Proofs.Run.ToolCalls
import Runbook.Proofs.Workflow.Tools

/-!
# Tools that are known

An engine that has been made knows the tools of its steps, so no step of its runs fails because a tool
is unknown. Of the queries of a fan-out that are written out this can be said as well, but for those
that are `Unforeseen`: the tool is only known when the query has been resolved, or the check does not
look at it. A query that names no tool is of the latter kind if there is no tool to stand in
(`unnamed_query`).
-/

set_option autoImplicit false

namespace Runbook

open Dialogue RunDialogue Execution Schedule World
open Workflow (fanOutTool Unforeseen)

namespace Session

variable {r : Registry}

/-! ## 1. Answers to calls -/

/-- A tool that is registered is not said to be unknown. -/
theorem Heard.known {tool : String} {inputs : Fields Json} {f : Failure}
    (h : Heard r tool inputs (.error f)) (registered : tool ∈ r.names) : f.kind ≠ .unknownTool := by
  generalize answer : (.error f : Except Failure ToolOutput) = x at h
  cases h with
  | unknown missing =>
    rw [Registry.mem_names, missing] at registered
    cases registered
  | cancelled =>
    cases answer
    simp [ToolError.failure]
  | @ended c e => exact e.known tool f answer.symm

/-- A fan-out over these queries says that a tool is unknown only of a query that is unforeseen,
whether it gathers their results or ends at the first failure. -/
structure Excused (r : Registry) (items : List Template) (x : Except Failure ToolOutput) : Prop where
  output : ∀ o, x = .ok o → o.outputs.length = items.length ∧
    ∀ (i : Nat) (entry : QueryResult) (item : Template) (f : Failure), o.outputs[i]? = some entry →
      items[i]? = some item → entry.error = some f → f.kind = .unknownTool → Unforeseen r item
  first : ∀ f, x = .error f → f.kind = .toolExecution →
    ∃ (q : FanOut.Query) (g : Failure) (item : Template), f = (FanOut.firstFailure q g).failure ∧
      items[q.index]? = some item ∧ (g.kind = .unknownTool → Unforeseen r item)

variable {items : List Template}

/-- The failure is not that of a query. -/
theorem Excused.of_kind {f : Failure} (other : f.kind ≠ .toolExecution) :
    Excused r items (.error f) where
  output _ h := by cases h
  first g h kind := by
    cases h
    exact absurd kind other

theorem Excused.rejected {e : ToolError} (h : ∃ m, e = .validation m) :
    Excused r items (.error e.failure) := by
  obtain ⟨m, rfl⟩ := h
  exact .of_kind (by simp [ToolError.failure])

/-- It is that of the first query that failed. -/
theorem Excused.failed {q : FanOut.Query} {g : Failure} {item : Template}
    (written : items[q.index]? = some item)
    (unforeseen : g.kind = .unknownTool → Unforeseen r item) :
    Excused r items (.error (FanOut.firstFailure q g).failure) where
  output _ h := by cases h
  first f h _ := by
    cases h
    exact ⟨q, g, item, rfl, written, unforeseen⟩

/-- The output has an entry for each query. -/
theorem Excused.gathered {queries : List FanOut.Query} {outcomes : List FanOut.Outcome}
    {o : ToolOutput} (length : queries.length = items.length)
    (unforeseen : ∀ (i : Nat) (q : FanOut.Query) (item : Template), queries[i]? = some q →
      items[i]? = some item → r.tool? q.tool = none → Unforeseen r item)
    (candid : List.Forall₂ (FanOut.Candid r) queries outcomes)
    (reports : FanOut.Reports queries outcomes o) : Excused r items (.ok o) where
  output o' h := by
    cases h
    refine ⟨reports.length.trans length, fun i entry item f there written failed kind => ?_⟩
    obtain ⟨-, q, x, query, outcome, told⟩ := reports.entries i entry there
    obtain ⟨small, rfl⟩ := List.getElem?_eq_some_iff.mp query
    obtain ⟨small', rfl⟩ := List.getElem?_eq_some_iff.mp outcome
    have honest := (List.forall₂_iff_get.mp candid).2 i small small'
    refine unforeseen i _ item query written (honest f ?_ kind)
    show outcomes[i] = .error f
    cases said : outcomes[i] with
    | ok o =>
      obtain ⟨-, -, -, none⟩ := told.success o said
      cases failed.symm.trans none
    | error g =>
      obtain ⟨-, -, -, some⟩ := told.failed g said
      cases failed.symm.trans some
      rfl
  first _ h := by cases h

/-- **A fan-out whose queries are written out.** -/
theorem excused_of_heard {policy : MissingPath} {scope : Scope} {written : Fields Template}
    {inputs : Fields Json} {x : Except Failure ToolOutput}
    (fans : r.tool? fanOutTool = some FanOut.tool)
    (checked : Workflow.checkQueries r.names (Fields.get? "queries" written) = .ok ())
    (resolved : resolveInputs policy scope written = .ok inputs)
    (listed : Fields.get? "queries" written = some (.list items))
    (h : Heard r fanOutTool inputs x) : Excused r items x := by
  -- what is known of a plan for the resolved queries
  have planned {plan : FanOut.Plan} (accepted : FanOut.check inputs = .ok ())
      (planned : FanOut.plan r.maxFanOut inputs = .ok plan) :
      plan.queries.length = items.length ∧ ∀ (i : Nat) (q : FanOut.Query) (item : Template),
        plan.queries[i]? = some q → items[i]? = some item → r.tool? q.tool = none →
          Unforeseen r item := by
    have entry := Template.becomes_fields (Template.resolveFields_of_inputs resolved) "queries"
    rw [listed] at entry checked
    generalize value : Fields.get? "queries" inputs = v at entry
    cases entry with
    | some becomes => exact Workflow.unknown_of_plan checked becomes value accepted planned
  cases h with
  | unknown missing => cases fans.symm.trans missing
  | cancelled => exact .of_kind (by simp [ToolError.failure])
  | @ended c e known asked unchecked concludes =>
    obtain same := Option.some.inj (fans.symm.trans known)
    subst asked
    have accepts (h : c.Accepted) : FanOut.check c.inputs = .ok () := by
      have passed := h.resolve_left (by simp [unchecked])
      rwa [← same, FanOut.tool_accepts] at passed
    cases concludes (same ▸ rfl) with
    | aborted => exact .of_kind (by simp [ToolError.failure])
    | late | panicked => exact .of_kind (by simp)
    | rejected h =>
      rw [← same, FanOut.tool_rejects] at h
      exact .rejected (FanOut.check_error h)
    | unplanned h => exact .rejected (FanOut.plan_error h)
    | @failed plan q f accepted isPlan there candid =>
      obtain ⟨length, unforeseen⟩ := planned (accepts accepted) isPlan
      have small : q.index < items.length := length ▸ (List.getElem?_eq_some_iff.mp there).1
      have written := List.getElem?_eq_getElem small
      exact .failed written fun kind => unforeseen _ q _ there written (candid f rfl kind)
    | gathered accepted isPlan candid reports =>
      obtain ⟨length, unforeseen⟩ := planned (accepts accepted) isPlan
      exact .gathered length unforeseen candid reports

/-! ## 2. Results -/

/-- What the result of a step says of unknown tools. -/
structure KnowsTools (r : Registry) (step : Step) (x : StepResult) : Prop where
  /-- The step does not fail with an unknown tool. -/
  own : ∀ f, x.error = some f → f.kind ≠ .unknownTool
  /-- If the step is a fan-out over a list that is written out, neither do its queries, but for those
  that are unforeseen. -/
  queries : r.tool? fanOutTool = some FanOut.tool → step.tool = some fanOutTool →
    ∀ items, Fields.get? "queries" step.inputs = some (.list items) →
      (∀ o, x.output = some o → Excused r items (.ok o)) ∧
        ∀ f, x.error = some f → Excused r items (.error f)

/-- What is told of a run of the workflow says of unknown tools. -/
structure ToolsKnown (r : Registry) (w : Workflow) (f : Flight) (l : Account) : Prop where
  /-- No tool that the run calls is unknown. -/
  calls : ∀ tool inputs limit g, ⟨.call tool inputs limit, .error g⟩ ∈ l.exchanges →
    g.kind ≠ .unknownTool
  /-- A call of the fan-out is made for a step, with its inputs. -/
  queries : r.tool? fanOutTool = some FanOut.tool →
    ∀ inputs limit x, ⟨.call fanOutTool inputs limit, x⟩ ∈ l.exchanges →
      ∃ step ∈ w.steps, step.tool = some fanOutTool ∧
        ∀ items, Fields.get? "queries" step.inputs = some (.list items) → Excused r items x
  /-- So it is with the results of the steps, in their order. -/
  results : ∀ rec, f.waiting = .over (.finished rec) →
    List.Forall₂ (KnowsTools r) w.steps rec.steps

section

variable {σ : Type} [MemoryStore σ]

omit [MemoryStore σ] in
theorem told_of_mem {l : Account} (told : ∀ x ∈ l.log, Told r x.exchange) {tool : String}
    {inputs : Fields Json} {limit : Option Nat} {x : Except Failure ToolOutput}
    (there : ⟨.call tool inputs limit, x⟩ ∈ l.exchanges) : Heard r tool inputs x := by
  obtain ⟨y, hy, same⟩ := List.mem_map.mp there
  exact told y hy tool inputs limit x same

/-- What the tool of a step was heard to answer. -/
theorem excused_of_called {c : Config} {t : RunTrace} {w : Workflow} {step : Step}
    {inputs : Fields Json} {x : Except Failure ToolOutput} (fans : r.tool? fanOutTool = some FanOut.tool)
    (equipped : w.Equipped r.names) (there : step ∈ w.steps)
    (called : Called c t step fanOutTool inputs x) (heard : Heard r fanOutTool inputs x)
    (listed : Fields.get? "queries" step.inputs = some (.list items)) : Excused r items x := by
  obtain ⟨scope, resolved⟩ := called.resolved
  exact excused_of_heard fans (equipped.queries step there called.named) resolved listed heard

/-- The result of a step quotes what was heard. -/
theorem knowsTools_of_quotes {c : Config} {t : RunTrace} {w : Workflow} {step : Step} {x : StepResult}
    (equipped : w.Equipped r.names) (there : step ∈ w.steps)
    (heard : ∀ tool inputs limit a, ⟨.call tool inputs limit, a⟩ ∈ t → Heard r tool inputs a)
    (quotes : Quotes c t step x) : KnowsTools r step x where
  own f failed := by
    rcases quotes.error f failed with own | ⟨tool, inputs, called⟩
    · intro kind
      rw [kind] at own
      cases own
    · exact (heard _ _ _ _ called.there).known (equipped.known step there tool called.named)
  queries fans isFanOut items listed := by
    have excused {a : Except Failure ToolOutput}
        (called : ∃ tool inputs, Called c t step tool inputs a) : Excused r items a := by
      obtain ⟨tool, inputs, called⟩ := called
      obtain rfl : tool = fanOutTool := Option.some.inj (called.named.symm.trans isFanOut)
      exact excused_of_called fans equipped there called (heard _ _ _ _ called.there) listed
    refine ⟨fun o said => ?_, fun f failed => ?_⟩
    · rcases quotes.output o said with none | called
      · cases none.symm.trans isFanOut
      · exact excused called
    · rcases quotes.error f failed with own | called
      · refine .of_kind fun kind => ?_
        rw [kind] at own
        cases own
      · exact excused called

/-- **The tools of every run are known, at any time and whatever happens.** A run of an engine that was
made fails in no step because a tool is unknown; and of the queries of a fan-out none fails so that is
written out in a list, unless it is unforeseen. A run that has not started, or was refused, has called
nothing. -/
theorem tools_known {c : Config} {ws : List Workflow} {i : Nat} {past : List World}
    {a : Option Account} {v : Visit σ} {f : Flight}
    (made : Engine.make c r ws = .ok v.session.engine) (journey : Journey i past a v)
    (first : (past ++ [v.session.world]).head? = some {}) (hf : v.flights[i]? = some f) :
    (a = none ∧ (f.waiting = .start ∨ ∃ err, f.waiting = .over (.refused err))) ∨
      ∃ l, a = some l ∧ ∃ w ∈ ws, w.name = f.request.workflow ∧ ToolsKnown r w f l := by
  have equipped := Engine.equipped_of_make made
  obtain ⟨registry, workflows⟩ : v.session.engine.registry = r ∧ v.session.engine.workflows = ws := by
    unfold Engine.make at made
    split at made
    · cases made
    · rw [← Except.ok.inj made]
      exact ⟨rfl, rfl⟩
  have faithful := (journey.steady first).account f hf
  rw [registry] at faithful equipped
  cases journey.sound.tells f hf with
  | nothing h => exact .inl ⟨rfl, h⟩
  | @account l rests =>
    obtain _ | ⟨-, told⟩ := faithful
    obtain ⟨w, there, named, params, continues⟩ := rests.begins
    obtain ⟨u, rec, later, finished⟩ := rests.completed
    have errands := errands_of_yields (continues u rec later)
    have equipped := equipped w there
    refine .inr ⟨l, rfl, w, workflows ▸ there, named, ?_, ?_, ?_⟩
    · intro tool inputs limit g called
      obtain ⟨step, here, one⟩ := errands.calls tool inputs limit _ (List.mem_append_left u called)
      exact (told_of_mem told called).known (equipped.known step here tool one.named)
    · intro fans inputs limit x called
      obtain ⟨step, here, one⟩ := errands.calls _ inputs limit _ (List.mem_append_left u called)
      exact ⟨step, here, one.named, fun items listed =>
        excused_of_called fans equipped here one (told_of_mem told called) listed⟩
    · intro rec' ended
      obtain ⟨rfl, rfl⟩ := finished rec' ended
      rw [List.append_nil] at errands
      have each := (List.forall₂_and_left _ _).mpr ⟨fun step here => here, errands.results⟩
      exact each.imp fun step x ⟨here, quotes⟩ =>
        knowsTools_of_quotes equipped here (fun _ _ _ _ => told_of_mem told) quotes

end

/-! ## 3. A query without a tool

One step, with one query that names no tool. There is no other tool than the fan-out. -/

def surveyQuery : Template := .map [("prompt", .text "why?")]

def surveyStep : Step where
  name := "ask"
  tool := some fanOutTool
  inputs := [("queries", .list [surveyQuery])]

def surveyWorkflow : Workflow where
  name := "survey"
  description := none
  params := []
  steps := [surveyStep]

def surveyRegistry : Registry := ({} : Registry).register FanOut.tool

def surveyEngine : Engine :=
  { config := {}, registry := surveyRegistry, workflows := [surveyWorkflow] }

theorem made_surveyEngine : Engine.make {} surveyRegistry [surveyWorkflow] = .ok surveyEngine := by
  with_unfolding_all rfl

def survey : RunRequest where
  workflow := "survey"
  id := "r1"
  approver := Approver.always

def beforeSurvey : Visit Memory.RunTable :=
  { session := { engine := surveyEngine, store := {}, clock := ⟨0⟩ } }

/-- The run was asked for, and is over. -/
def surveyed : Visit Memory.RunTable := (beforeSurvey.request survey).run 5

theorem journey_survey : ∃ past a, Journey 0 past a surveyed ∧
    (past ++ [surveyed.session.world]).head? = some {} := by
  have nobody : Journey 0 [] none beforeSurvey := .idle .nil
  obtain ⟨more, a, journey⟩ := (nobody.request survey).run 5
  exact ⟨_, a, journey, rfl⟩

/-- The one query has an entry, and failed. -/
theorem surveyed_results : ∃ f rec x o entry, surveyed.flights[0]? = some f ∧
    f.waiting = .over (.finished rec) ∧ rec.steps = [x] ∧ x.step = surveyStep.name ∧
      x.output = some o ∧ o.outputs = [entry] ∧
      entry.error = some ⟨.unknownTool, "no tool registered as 'model_call'"⟩ := by
  with_unfolding_all exact ⟨_, _, _, _, _, rfl, rfl, rfl, rfl, rfl, rfl, rfl⟩

/-- The general statement at this run. The query is unforeseen. -/
theorem tools_known_survey : ∃ past a f rec, Journey 0 past a surveyed ∧
    surveyed.flights[0]? = some f ∧ f.waiting = .over (.finished rec) ∧
      List.Forall₂ (KnowsTools surveyRegistry) [surveyStep] rec.steps ∧
      Unforeseen surveyRegistry surveyQuery := by
  obtain ⟨past, a, journey, first⟩ := journey_survey
  obtain ⟨f, rec, x, o, entry, hf, ended, steps, -, output, outputs, failed⟩ := surveyed_results
  have engine : surveyed.session.engine = surveyEngine := by with_unfolding_all rfl
  rcases tools_known (engine ▸ made_surveyEngine) journey first hf with
    ⟨-, h⟩ | ⟨l, -, w, there, -, known⟩
  · rw [ended] at h
    rcases h with h | ⟨err, h⟩ <;> cases h
  · obtain rfl := List.mem_singleton.mp there
    have results := known.results rec ended
    refine ⟨past, a, f, rec, journey, hf, ended, results, ?_⟩
    rw [steps] at results
    cases results with
    | cons knows =>
      obtain ⟨excused, -⟩ := knows.queries rfl rfl [surveyQuery] rfl
      obtain ⟨-, unforeseen⟩ := (excused o output).output o rfl
      rw [outputs] at unforeseen
      exact unforeseen 0 entry surveyQuery _ rfl rfl failed rfl

/-- **A query without a tool is overlooked.** The engine was made, and the query of the step is written
out and has no tool whose text has a placeholder; but its tool is the model call, which is not there. -/
theorem unnamed_query : Engine.make {} surveyRegistry [surveyWorkflow] = .ok surveyEngine ∧
    surveyed.session.engine = surveyEngine ∧
    Fields.get? "queries" surveyStep.inputs = some (.list [surveyQuery]) ∧
    (¬ ∃ fs s, surveyQuery = .map fs ∧ Fields.get? "tool" fs = some (.text s) ∧
      Template.placeholders s ≠ []) ∧
    ∃ f rec x o entry, surveyed.flights[0]? = some f ∧ f.waiting = .over (.finished rec) ∧
      rec.steps = [x] ∧ x.step = surveyStep.name ∧ x.output = some o ∧ o.outputs = [entry] ∧
      entry.error = some ⟨.unknownTool, "no tool registered as 'model_call'"⟩ := by
  refine ⟨made_surveyEngine, by with_unfolding_all rfl, rfl, ?_, surveyed_results⟩
  rintro ⟨fs, s, ⟨⟩, named, -⟩
  cases named

end Session
end Runbook
