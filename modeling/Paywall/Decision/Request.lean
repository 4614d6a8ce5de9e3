import Paywall.Host

/-!
# Requests

A request asks what to present: for a host event, judged by the rules of its trigger, or a paywall
by name, past all rules and experiments.
-/

namespace Paywall

open Json (required optional nullable? bool? text?)

/-- What a request is about. -/
inductive Subject where
  | event (e : HostEvent)
  | paywall (identifier : String)

/-- What a request does differently. -/
structure Overrides where
  /-- Presents to subscribers, too. -/
  ignoreSubscription : Bool := false
  /-- Without it cached results are not used. -/
  allowCache : Bool := true
  /-- Forces the free trial on or off. -/
  freeTrial : Option Bool := none
deriving DecidableEq, Repr

/-- A request. -/
structure Request where
  subject : Subject
  overrides : Overrides := {}
  /-- Presents to subscribers and without cached results. -/
  preview : Bool := false
  /-- Decides without consequences: nothing is confirmed or recorded. -/
  speculative : Bool := false

namespace Subject

/-- The host event. -/
def event? : Subject → Option HostEvent
  | .event e => some e
  | .paywall _ => none

/-- The paywall asked for by name. -/
def paywall? : Subject → Option String
  | .event _ => none
  | .paywall identifier => some identifier

def toJson : Subject → Json
  | .event e => .object [("kind", .string "event"), ("event", e.toJson)]
  | .paywall identifier => .object [("kind", .string "paywall"), ("identifier", .string identifier)]

/-- The subject of a kind, from the record of its fields. -/
def ofKind? (kind : String) (fields : Json) : Option Subject :=
  match kind with
  | "event" => do
    let fs ← fields.fields? ["event"]
    return .event (← required fs "event" (HostEvent.read? .kept))
  | "paywall" => do
    let fs ← fields.fields? ["identifier"]
    return .paywall (← required fs "identifier" text?)
  | _ => none

/-- Reads a subject: an object with its kind among the fields, or an array with the kind in front of
them. All parts have to be readable, since they are kept until the kind is known. -/
def ofJson? (j : Json) : Option Subject :=
  if j.readable then
    match j with
    | .object members =>
      match members.filter fun m => m.1 == "kind" with
      | [(_, .string kind)] => ofKind? kind (.object (members.filter fun m => m.1 != "kind"))
      | _ => none
    | .array (.string kind :: fields) => ofKind? kind (.array fields)
    | _ => none
  else none

end Subject

namespace Overrides

def toJson (o : Overrides) : Json :=
  .object [("ignore_subscription_status", .bool o.ignoreSubscription),
    ("allow_cache", .bool o.allowCache), ("free_trial", .ofOption .bool o.freeTrial)]

def ofJson? (j : Json) : Option Overrides := do
  let fs ← j.fields? ["ignore_subscription_status", "allow_cache", "free_trial"]
  return { ignoreSubscription := ← optional fs "ignore_subscription_status" false bool?
           allowCache := ← optional fs "allow_cache" true bool?
           freeTrial := ← optional fs "free_trial" none (nullable? bool?) }

end Overrides

namespace Request

/-- A request for an event. -/
def forEvent (e : HostEvent) : Request := { subject := .event e }

/-- A request for a paywall. -/
def forPaywall (identifier : String) : Request := { subject := .paywall identifier }

/-- Presents to subscribers, too. -/
def ignoringSubscription (r : Request) : Request :=
  { r with overrides := { r.overrides with ignoreSubscription := true } }

/-- Does without cached results. -/
def withoutCache (r : Request) : Request :=
  { r with overrides := { r.overrides with allowCache := false } }

/-- Forces the free trial on or off. -/
def withFreeTrial (r : Request) (available : Bool) : Request :=
  { r with overrides := { r.overrides with freeTrial := some available } }

/-- Presents to subscribers and without cached results. -/
def asPreview (r : Request) : Request := { r with preview := true }

/-- Decides without consequences. -/
def asSpeculative (r : Request) : Request := { r with speculative := true }

/-- The host event. -/
def event? (r : Request) : Option HostEvent := r.subject.event?

/-- The name of the host event. -/
def eventName (r : Request) : Option String := r.event?.map (·.name)

/-- The paywall asked for by name. -/
def paywallIdentifier (r : Request) : Option String := r.subject.paywall?

def toJson (r : Request) : Json :=
  .object [("subject", r.subject.toJson), ("overrides", r.overrides.toJson),
    ("preview", .bool r.preview), ("speculative", .bool r.speculative)]

def ofJson? (j : Json) : Option Request := do
  let fs ← j.fields? ["subject", "overrides", "preview", "speculative"]
  return { subject := ← required fs "subject" Subject.ofJson?
           overrides := ← optional fs "overrides" {} Overrides.ofJson?
           preview := ← optional fs "preview" false bool?
           speculative := ← optional fs "speculative" false bool? }

end Request

end Paywall
