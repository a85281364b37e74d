import Runbook.Cipher.Counter
import Runbook.Cipher.Password
import Runbook.FileTree
import Runbook.Secret.Environment
import Runbook.Text.Bytes
import Runbook.Text.Blank

/-!
# The key of a vault

A vault's key has thirty-two bytes. It is derived from a password, if one is set in the
environment, or else read from a key file, which is made with a random key when it is missing.
-/

set_option autoImplicit false

namespace Runbook

/-- Why a key file gives no key. -/
inductive KeyError where
  | corrupted
  | wrongLength
  | unreadable (e : FileError)
  deriving DecidableEq, Repr, Inhabited

namespace KeyError

def message : KeyError → String
  | .corrupted => "corrupted key file"
  | .wrongLength => "invalid key length"
  | .unreadable e => e.message

end KeyError

namespace Vault

def keySize : Nat := 32

/-- The name of the key file in the data directory. -/
def keyFile : String := "vault.key"

/-- The variable that may hold a password. -/
def passwordVariable : String := "STEPWISE_VAULT_PASSWORD"

/-- Goes into every key that comes from a password, so that a password always gives the same key. -/
def passwordSalt : String := "stepwise-vault-v1"

def keyOfPassword (password : String) : ByteArray :=
  Cipher.Password.derive .standard keySize password.toUTF8 passwordSalt.toUTF8

/-- The key that is written in a key file. -/
def keyOfText (s : String) : Except KeyError ByteArray :=
  match Base64.decode? (Text.trim s) with
  | none => .error .corrupted
  | some key => if key.size = keySize then .ok key else .error .wrongLength

/-- The key of a key file. A missing file is made, with the given random key. -/
def keyOfFile (path : FilePath) (random : ByteArray) (tree : FileTree) :
    Except KeyError ByteArray × FileTree :=
  match tree.readText path with
  | .ok s => (keyOfText s, tree)
  | .error .notFound =>
      match tree.write path (Base64.encode random).toUTF8 with
      | .ok tree => (.ok random, tree)
      | .error e => (.error (.unreadable e), tree)
  | .error e => (.error (.unreadable e), tree)

/-- The key of the vault in a data directory. -/
def key (env : Environment) (dir : FilePath) (random : ByteArray) (tree : FileTree) :
    Except KeyError ByteArray × FileTree :=
  match env.get? passwordVariable with
  | some password =>
      if password.isEmpty then keyOfFile (dir ++ [keyFile]) random tree
      else (.ok (keyOfPassword password), tree)
  | none => keyOfFile (dir ++ [keyFile]) random tree

end Vault
end Runbook
