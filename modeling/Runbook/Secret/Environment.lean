import Runbook.Model.Provider
import Runbook.Secret.Basic

/-!
# Secrets in the environment

Every variable of the environment can be looked up as a secret, and none can be changed. Only
the keys of model providers are listed, so that a listing never shows what else there is.
-/

set_option autoImplicit false

namespace Runbook

/-- The variables of the environment. -/
structure Environment where
  entries : Fields String := []
  deriving Inhabited

namespace Environment

def get? (e : Environment) (name : String) : Option String := Fields.get? name e.entries

/-- The keys of model providers that are set, in the order of the providers. -/
def providerKeys (e : Environment) : List String :=
  (Provider.all.map Provider.keyName).filter fun k => (e.get? k).isSome

instance : SecretKeeper Environment where
  name _ := "environment"
  get key e := .ok (e.get? key)
  set _ _ e := (.error .readOnly, e)
  delete _ e := (.error .readOnly, e)
  list e := .ok (e.providerKeys.map fun key => { key, source := .environment })

end Environment
end Runbook
