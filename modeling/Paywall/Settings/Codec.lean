import Paywall.Settings
import Paywall.Json.Decode

/-!
# Settings as JSON
-/

namespace Paywall.Settings

/-- Settings in JSON are read strictly: every field has to be of its own type. -/
def jsonFormat : Format Json where
  fields? := Json.fields?
  text? := Json.text?
  optionalText? := Json.nullable? Json.text?
  flag? := Json.bool?
  optionalSeed? := Json.nullable? Json.uint64?

/-- Reads settings from JSON. -/
def ofJson? (j : Json) : Option Settings := read? jsonFormat j

/-- Settings as JSON. -/
def toJson (s : Settings) : Json :=
  .object [
    ("device", .object [("locale", .string s.device.locale),
      ("app_version", .ofText? s.device.appVersion), ("platform", .string s.device.platform)]),
    ("cache", .object [("enabled", .bool s.cache.enabled), ("preload", .bool s.cache.preload)]),
    ("assignments", .object [("store_path", .string s.assignments.storePath),
      ("seed", .ofOption (fun n => .int n.toNat) s.assignments.seed)]),
    ("debug", .object [("preview", .bool s.debug.preview)])]

end Paywall.Settings
