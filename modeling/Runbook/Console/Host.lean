import Runbook.Config.File
import Runbook.Config.Place
import Runbook.Console.Complaint
import Runbook.Memory.RowTable
import Runbook.Model.Endpoint
import Runbook.Secret.Chain
import Runbook.Secret.Vault
import Runbook.Tool.Echo
import Runbook.Tool.FanOut
import Runbook.Tool.ModelCall
import Runbook.Workflow.Library

/-!
# Hosts

A command finds a host: its files, environment, memory and clock, a source of random bytes, and a
way to send requests. It makes the data directory if that is missing, and then works with what is
there: the configuration, the keepers of secrets and the tools. A vault without a key counts as
none.

The workflows are loaded only for commands that need them, so that the others still work while a
file with workflows is broken.
-/

set_option autoImplicit false

namespace Runbook.Console

structure Host where
  tree : FileTree
  /-- The directory in which the program runs. -/
  current : FilePath
  environment : Environment
  store : Memory.RowTable := {}
  clock : Instant
  /-- Random bytes, so many of them, for each number of a draw. -/
  random : (size draw : Nat) → ByteArray
  /-- How often random bytes have been drawn. -/
  drawn : Nat := 0
  /-- The answer to a request, if there is one. -/
  send : Http.Request → Option Http.Answer := fun _ => none

/-- What a command works with. -/
structure Workbench where
  host : Host
  dataDirectory : FilePath
  config : Config
  keepers : List Keeper

namespace Host

/-- Reads the clock. -/
def time (h : Host) : Instant × Host :=
  let now : Instant := ⟨h.clock.nanos + 1000⟩
  (now, { h with clock := now })

/-- Draws random bytes. -/
def draw (size : Nat) (h : Host) : ByteArray × Host :=
  (h.random size h.drawn, { h with drawn := h.drawn + 1 })

/-- Opens the data directory. -/
def openData (h : Host) : Except Complaint Workbench :=
  let place := Config.dataDirectory h.environment
  let dir := FileTree.resolve h.current place
  match h.tree.makeDirectory dir with
  | .error e => .error (.ofDirectory place e)
  | .ok tree =>
      let (key, h) := h.draw Vault.keySize
      let nonces (n : Nat) := h.random Cipher.nonceSize (h.drawn + n)
      let (vault, tree) := Vault.openIn h.environment dir key nonces tree
      .ok
        { host := { h with tree }
          dataDirectory := dir
          config := Config.load dir tree
          keepers := Keeper.chain (some h.environment) vault.toOption }

end Host

namespace Workbench

/-! ## Tools and workflows -/

/-- The client of a provider with a key sends its requests to the endpoint of the provider. -/
def clientOf (send : Http.Request → Option Http.Answer) (p : Provider) (key : String) :
    Tool.ModelCall.Client :=
  { send := .ok fun r => { result := (Model.Endpoint.ofProvider p).complete send key r } }

/-- The tools, with the timeouts and the ceiling of the configuration. -/
def registry (b : Workbench) : Registry :=
  ((Registry.ofConfig b.config).register Tool.echo |>.register FanOut.tool).register
    (Tool.modelCall (fun key => Secret.Chain.get? key b.keepers) (clientOf b.host.send))

/-- The engine with the workflows at hand. -/
def engine (b : Workbench) (file : Option String) : Except Complaint Engine :=
  let path := file.map (FileTree.resolve b.host.current)
  match Workflow.Library.load path b.host.current b.dataDirectory b.host.tree with
  | .error e => .error (.ofLoading e)
  | .ok ws => (Engine.make b.config b.registry ws).mapError fun f => .ofEngine (.invalid f)

/-! ## Secrets -/

/-- The vault among keepers. -/
def vault? (keepers : List Keeper) : Option Vault :=
  keepers.findSome? fun
    | .vault v => some v
    | .environment _ => none

/-- Puts changed keepers back, with the files that they have written. -/
def putKeepers (b : Workbench) (keepers : List Keeper) : Workbench :=
  match vault? keepers with
  | none => { b with keepers }
  | some v =>
      let host := { b.host with tree := v.tree, drawn := b.host.drawn + v.used }
      { b with keepers, host }

end Workbench
end Runbook.Console
