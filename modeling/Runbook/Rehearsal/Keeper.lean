import Runbook.Rehearsal.Script
import Runbook.Secret.Basic

/-!
# Keepers of secrets that follow a script

For a rehearsal, secrets are kept in a table. It may refuse to be changed, like the environment,
and it may fail at every operation.
-/

set_option autoImplicit false

namespace Runbook.Rehearsal

structure Keeper where
  /-- In the order of the names. -/
  secrets : Fields String
  isReadOnly : Bool := false
  /-- What every operation fails with. -/
  failure : Option SecretError := none

namespace Keeper

/-- Where the secrets are said to be kept. -/
def source (k : Keeper) : SecretSource := if k.isReadOnly then .environment else .vault

/-- Does something unless the keeper fails. -/
def unlessFailing {α : Type} (k : Keeper) (a : Except SecretError α) : Except SecretError α :=
  match k.failure with
  | some e => .error e
  | none => a

/-- Changes the secrets, unless the keeper fails or refuses. -/
def change (k : Keeper) (f : Fields String → Except SecretError (Fields String)) :
    Except SecretError Unit × Keeper :=
  match k.unlessFailing (if k.isReadOnly then .error .readOnly else f k.secrets) with
  | .error e => (.error e, k)
  | .ok secrets => (.ok (), { k with secrets })

instance : SecretKeeper Keeper where
  name k := k.source.display
  get key k := k.unlessFailing (.ok (Fields.get? key k.secrets))
  set key value k := k.change fun secrets => .ok (Fields.sorted (Fields.put key value secrets))
  delete key k := k.change fun secrets =>
    if Fields.has key secrets then .ok (secrets.filter fun e => e.1 ≠ key) else .error .notFound
  list k := k.unlessFailing
    (.ok ((Fields.names k.secrets).map fun key => { key, source := k.source }))

/-- The failure of a name. -/
def failureOf : String → Option SecretError
  | "unavailable" => some .unavailable
  | "encryption" => some .encryption
  | "decryption" => some .decryption
  | "format" => some (.format "bad")
  | "io" => some (.io "disk")
  | _ => none

def ofJson (script : Json) : Keeper :=
  { secrets := Fields.sorted ((table script "values").map fun e => (e.1, e.2.str?.getD ""))
    isReadOnly := flag script "read_only"
    failure := (str? script "fail").bind failureOf }

end Keeper
end Runbook.Rehearsal
