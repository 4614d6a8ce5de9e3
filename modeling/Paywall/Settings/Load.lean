import Paywall.Settings.Environment
import Paywall.Settings.Toml

/-!
# Loading settings

Settings come from a file in TOML, which need not exist, and from the environment, which is laid
over the file.
-/

namespace Paywall.Settings

/-- The settings of a file and an environment; `none` if the file is not TOML or a setting is not
understood. -/
def load? (file : Option String) (environment : Environment) : Option Settings := do
  let members ← match file with
    | none => some []
    | some text => Toml.parse? text
  let base ← Tree.overlay? (.table []) (members.map fun (key, t) => (key.toList, t))
  read? Tree.format (← base.overlay? environment.values)

end Paywall.Settings
