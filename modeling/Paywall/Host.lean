import Paywall.Value
import Paywall.Time.Instant
import Paywall.Json.Decode
import Paywall.Value.Wire
import Paywall.Time.Notation

/-!
# The host

What the host of a campaign reports: events with parameters, and attributes of the device.
-/

namespace Paywall

open Json (required optional nullable? text?)

/-- An event that may present a paywall. -/
structure HostEvent where
  name : String
  parameters : Table Value
  createdAt : Instant

/-- Attributes of the device. -/
structure Device where
  locale : String
  appVersion : Option String
  platform : Option String
  /-- Further attributes. -/
  extra : Table Value

namespace Instant

def toJson (t : Instant) : Json := .string t.render

def ofJson? (j : Json) : Option Instant := j.text?.bind parse?

end Instant

namespace HostEvent

def toJson (e : HostEvent) : Json :=
  .object [("name", .string e.name), ("parameters", Value.tableToJson e.parameters),
    ("created_at", e.createdAt.toJson)]

/-- Reads an event whose parameters are read at the moment given. -/
def read? (m : Value.Moment) (j : Json) : Option HostEvent := do
  let fs ← j.fields? ["name", "parameters", "created_at"]
  return { name := ← required fs "name" text?
           parameters := ← optional fs "parameters" ∅ (Value.readTable? m)
           createdAt := ← required fs "created_at" Instant.ofJson? }

def ofJson? (j : Json) : Option HostEvent := read? .met j

end HostEvent

namespace Device

def toJson (d : Device) : Json :=
  .object [("locale", .string d.locale), ("app_version", .ofText? d.appVersion),
    ("platform", .ofText? d.platform), ("extra", Value.tableToJson d.extra)]

def ofJson? (j : Json) : Option Device := do
  let fs ← j.fields? ["locale", "app_version", "platform", "extra"]
  return { locale := ← required fs "locale" text?
           appVersion := ← optional fs "app_version" none (nullable? text?)
           platform := ← optional fs "platform" none (nullable? text?)
           extra := ← optional fs "extra" ∅ Value.tableOfJson? }

end Device

end Paywall
