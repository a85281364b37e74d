import Runbook.Secret.Basic

/-!
# Chains of keepers

Keepers of secrets are asked in order. A lookup takes the first value found and passes over
keepers that fail, so that a broken keeper hides its secrets but no others. A secret is written to
the first keeper that can be written to, and deleted from every keeper that has it.
-/

set_option autoImplicit false

namespace Runbook.Secret.Chain

variable {σ : Type} [SecretKeeper σ]

/-- The first value found. -/
def get? (key : String) : List σ → Option String
  | [] => none
  | k :: ks =>
      match SecretKeeper.get key k with
      | .ok (some v) => some v
      | _ => get? key ks

/-- Writes to the first keeper that is not read-only. -/
def set (key value : String) : List σ → Except SecretError Unit × List σ
  | [] => (.error .unavailable, [])
  | k :: ks =>
      match SecretKeeper.set key value k with
      | (.error .readOnly, k) =>
          let (r, ks) := set key value ks
          (r, k :: ks)
      | (r, k) => (r, k :: ks)

/-- Deletes from every keeper; `found` says whether one before has deleted. Keepers without the
secret and read-only ones are passed over; any other failure ends the attempt. -/
def deleteFrom (key : String) : (found : Bool) → List σ → Except SecretError Unit × List σ
  | found, [] => (if found then .ok () else .error .notFound, [])
  | found, k :: ks =>
      match SecretKeeper.delete key k with
      | (.ok (), k) =>
          let (r, ks) := deleteFrom key true ks
          (r, k :: ks)
      | (.error .notFound, k) =>
          let (r, ks) := deleteFrom key found ks
          (r, k :: ks)
      | (.error .readOnly, k) =>
          let (r, ks) := deleteFrom key found ks
          (r, k :: ks)
      | (.error e, k) => (.error e, k :: ks)

/-- Deletes a secret wherever it is kept. -/
def delete (key : String) (ks : List σ) : Except SecretError Unit × List σ :=
  deleteFrom key false ks

/-- The entries of keys that are not among those seen, each key once. -/
def unseen : (seen : List String) → List SecretEntry → List SecretEntry
  | _, [] => []
  | seen, e :: es =>
      if seen.contains e.key then unseen seen es else e :: unseen (e.key :: seen) es

/-- All entries that keepers list; of one key the first. -/
def list (ks : List σ) : List SecretEntry :=
  unseen [] (ks.flatMap fun k => ((SecretKeeper.list k).toOption).getD [])

end Runbook.Secret.Chain
