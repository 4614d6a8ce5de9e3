import Paywall.Host

/-!
# Variables of an expression

An expression sees three maps: `user`, `device` and `params`. `device` holds, from the outside in,
what was computed for the rule, the built-in attributes and the further attributes of the device;
`params` holds the parameters of the event and its name.
-/

namespace Paywall

/-- The variables that an expression sees. -/
structure Scope where
  user : Table Value
  device : Table Value
  params : Table Value

namespace Scope

/-- The attributes of a device as variables. -/
def deviceVariables (device : Device) (computed : Table Value) : Table Value :=
  let attributes := device.extra
    |>.insert "locale" (.string device.locale)
    |>.insert "app_version" (.ofText? device.appVersion)
    |>.insert "platform" (.ofText? device.platform)
  attributes.union computed

/-- The parameter that holds the name of the event. -/
def eventNameKey : String := "$event_name"

/-- The variables for an event. -/
def build (event : HostEvent) (device : Device) (user computed : Table Value) : Scope where
  user := user
  device := deviceVariables device computed
  params := event.parameters.insert eventNameKey (.string event.name)

/-- The map with a name. -/
def root? (s : Scope) : String → Option Value
  | "user" => some (.ofTable s.user)
  | "device" => some (.ofTable s.device)
  | "params" => some (.ofTable s.params)
  | _ => none

/-- The value that a dotted path leads to. -/
def lookup? (s : Scope) (path : String) : Option Value :=
  match Text.splitOnce? '.' path.toList with
  | none => s.root? path
  | some (root, rest) => (s.root? (String.ofList root)).bind fun v => v.path? (String.ofList rest)

end Scope

end Paywall
