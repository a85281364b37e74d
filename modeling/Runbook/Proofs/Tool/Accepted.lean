import Runbook.Proofs.Tool.Checked
import Runbook.Proofs.Tool.Queries
import Runbook.Tool.Echo
import Runbook.Tool.ModelCall

/-!
# What a built-in tool has accepted it can work on

The check of a tool reads its inputs, and its work reads them once more. For the tools that come with
the engine the two agree: on inputs that have been accepted the work finds nothing to reject. A query
that the check of the fan-out lets through is not for the fan-out, however its tool is read.
-/

set_option autoImplicit false

namespace Runbook

/-- The tools that come with the engine. -/
inductive Tool.BuiltIn : Tool → Prop where
  | echo : BuiltIn Tool.echo
  | fanOut : BuiltIn FanOut.tool
  | modelCall (key? : String → Option String) (connect : Provider → String → Tool.ModelCall.Client) :
      BuiltIn (Tool.modelCall key? connect)

/-! ## 1. The fan-out -/

namespace FanOut

variable {inputs : Fields Json} {ceiling : Nat} {p : Plan}

theorem named_of_admissible {fs : Fields Json} (h : Admissible fs) :
    named fs ≠ Workflow.fanOutTool := by
  unfold named
  split
  · next tool found => exact fun nested => h.apart (nested ▸ found)
  · decide

/-- **Accepted inputs can be planned**, and none of the queries is for the fan-out. -/
theorem plan_of_accepted (accepted : tool.check inputs = .accepted) (ceiling : Nat) :
    ∃ p, plan ceiling inputs = .ok p ∧ ∀ q ∈ p.queries, q.tool ≠ Workflow.fanOutTool := by
  obtain ⟨fss, listed, admissible⟩ := queries_of_check (tool_accepts.mp accepted)
  refine ⟨_, plan_eq ceiling listed, fun q planned => ?_⟩
  obtain ⟨i, small, rfl⟩ := List.mem_mapIdx.mp planned
  rw [tool_ofFields]
  exact named_of_admissible (admissible _ (List.getElem_mem small))

end FanOut

/-! ## 2. Tools that work alone -/

namespace Tool

theorem Check.ofExcept_accepted {α : Type} {x : Except ToolError α}
    (h : Check.ofExcept x = .accepted) : ∃ a, x = .ok a := by
  cases x with
  | ok a => exact ⟨a, rfl⟩
  | error e => cases h

/-- What the work comes to is no complaint about its inputs. -/
def Work.NoComplaint (work : Work) : Prop := ∀ m, work.result ≠ .error (.validation m)

/-- The request is read from the inputs in the same way by the check and by the work. -/
theorem noComplaint_modelCall {key? : String → Option String}
    {connect : Provider → String → ModelCall.Client} {inputs : Fields Json}
    {work : Fields Json → Work} (alone : (modelCall key? connect).body = .alone work)
    (accepted : (modelCall key? connect).check inputs = .accepted) : (work inputs).NoComplaint := by
  obtain ⟨⟨provider, request⟩, read⟩ := Check.ofExcept_accepted accepted
  cases alone
  intro m
  simp only [read]
  split
  · simp
  · split
    · simp
    · dsimp only
      split <;> simp

theorem BuiltIn.noComplaint {t : Tool} (h : t.BuiltIn) {inputs : Fields Json}
    {work : Fields Json → Work} (alone : t.body = .alone work)
    (accepted : t.check inputs = .accepted) : (work inputs).NoComplaint := by
  cases h with
  | echo =>
    cases alone
    exact fun m => by simp
  | fanOut => cases alone
  | modelCall => exact noComplaint_modelCall alone accepted

/-- Of these only the fan-out does not work alone. -/
theorem BuiltIn.eq_fanOut {t : Tool} (h : t.BuiltIn) (body : t.body = .fanOut) :
    t = FanOut.tool := by
  cases h with
  | echo => cases body
  | fanOut => rfl
  | modelCall => cases body

end Tool

/-! ## 3. Registries of leaves -/

/-- The fan-out stands under its own name, and all other tools work alone. -/
def Registry.Leafy (r : Registry) : Prop :=
  ∀ name t, r.tool? name = some t →
    (name = FanOut.tool.name ∧ t = FanOut.tool) ∨ ∃ work, t.body = .alone work

namespace Registry

theorem leafy_ofConfig (c : Config) : (ofConfig c).Leafy :=
  fun _ _ found => by cases found

/-- Whatever is registered, if it is the fan-out or works alone. -/
theorem Leafy.register {r : Registry} (h : r.Leafy) {t : Tool}
    (kind : t = FanOut.tool ∨ ∃ work, t.body = .alone work) : (r.register t).Leafy := by
  intro name t' found
  by_cases same : t.name = name
  · subst same
    obtain rfl := Option.some.inj ((Fields.get?_put_self t.name t r.tools).symm.trans found)
    exact kind.imp (fun fanOut => ⟨congrArg Tool.name fanOut, fanOut⟩) id
  · exact h name t' ((Fields.get?_put_of_ne t r.tools same).symm.trans found)

end Registry
end Runbook
