import Paywall.Campaign
import Paywall.Json.Decode

/-!
# Campaigns as JSON

Every type of a campaign with its JSON form: `toJson` writes all fields in order, `ofJson?` reads
them back and takes the defaults for those that are missing.
-/

namespace Paywall

open Json (fields? required optional nullable? list? text? bool? name?)

/-! ## Experiments -/

namespace VariantKind

/-- The name of a kind. -/
def name : VariantKind → String
  | .treatment => "treatment"
  | .holdout => "holdout"

/-- The kind with a name. -/
def ofName? : String → Option VariantKind
  | "treatment" => some .treatment
  | "holdout" => some .holdout
  | _ => none

def toJson (k : VariantKind) : Json := .string k.name

def ofJson? (j : Json) : Option VariantKind := j.name?.bind ofName?

end VariantKind

namespace Variant

def toJson (v : Variant) : Json :=
  .object [("id", .string v.id), ("kind", v.kind.toJson), ("paywall_id", .ofText? v.paywallId)]

def ofJson? (j : Json) : Option Variant := do
  let fs ← j.fields? ["id", "kind", "paywall_id"]
  return { id := ← required fs "id" text?
           kind := ← required fs "kind" VariantKind.ofJson?
           paywallId := ← optional fs "paywall_id" none (nullable? text?) }

end Variant

namespace VariantOption

def toJson (o : VariantOption) : Json :=
  .object [("id", .string o.id), ("weight", .ofFloat o.weight), ("kind", o.kind.toJson),
    ("paywall_id", .ofText? o.paywallId)]

def ofJson? (j : Json) : Option VariantOption := do
  let fs ← j.fields? ["id", "weight", "kind", "paywall_id"]
  return { id := ← required fs "id" text?
           weight := ← required fs "weight" Json.float?
           kind := ← required fs "kind" VariantKind.ofJson?
           paywallId := ← optional fs "paywall_id" none (nullable? text?) }

end VariantOption

namespace Experiment

def toJson (e : Experiment) : Json :=
  .object [("id", .string e.id), ("group_id", .string e.groupId),
    ("variants", .ofList VariantOption.toJson e.variants)]

def ofJson? (j : Json) : Option Experiment := do
  let fs ← j.fields? ["id", "group_id", "variants"]
  return { id := ← required fs "id" text?
           groupId := ← required fs "group_id" text?
           variants := ← optional fs "variants" [] (list? VariantOption.ofJson?) }

end Experiment

namespace AssignedExperiment

def toJson (e : AssignedExperiment) : Json :=
  .object [("id", .string e.id), ("group_id", .string e.groupId), ("variant", e.variant.toJson)]

def ofJson? (j : Json) : Option AssignedExperiment := do
  let fs ← j.fields? ["id", "group_id", "variant"]
  return { id := ← required fs "id" text?
           groupId := ← required fs "group_id" text?
           variant := ← required fs "variant" Variant.ofJson? }

end AssignedExperiment

namespace ConfirmableAssignment

def toJson (a : ConfirmableAssignment) : Json :=
  .object [("experiment_id", .string a.experimentId), ("variant", a.variant.toJson)]

def ofJson? (j : Json) : Option ConfirmableAssignment := do
  let fs ← j.fields? ["experiment_id", "variant"]
  return { experimentId := ← required fs "experiment_id" text?
           variant := ← required fs "variant" Variant.ofJson? }

end ConfirmableAssignment

namespace ServerAssignment

def toJson (a : ServerAssignment) : Json :=
  .object [("experiment_id", .string a.experimentId), ("variant_id", .string a.variantId)]

def ofJson? (j : Json) : Option ServerAssignment := do
  let fs ← j.fields? ["experiment_id", "variant_id"]
  return { experimentId := ← required fs "experiment_id" text?
           variantId := ← required fs "variant_id" text? }

end ServerAssignment

/-- The JSON form of assignments: variants by experiment. -/
def Assignments.toJson (a : Assignments) : Json := .ofTable Variant.toJson a

/-- Assignments from an object of variants. -/
def Assignments.ofJson? (j : Json) : Option Assignments := j.table? Variant.ofJson?

/-! ## Paywalls -/

namespace PresentationCondition

/-- The name of a condition. -/
def name : PresentationCondition → String
  | .always => "always"
  | .checkUserSubscription => "check_user_subscription"

/-- The condition with a name. -/
def ofName? : String → Option PresentationCondition
  | "always" => some .always
  | "check_user_subscription" => some .checkUserSubscription
  | _ => none

def toJson (c : PresentationCondition) : Json := .string c.name

def ofJson? (j : Json) : Option PresentationCondition := j.name?.bind ofName?

end PresentationCondition

namespace ProductKind

/-- The name of a place. -/
def name : ProductKind → String
  | .primary => "primary"
  | .secondary => "secondary"
  | .tertiary => "tertiary"

/-- The place with a name. -/
def ofName? : String → Option ProductKind
  | "primary" => some .primary
  | "secondary" => some .secondary
  | "tertiary" => some .tertiary
  | _ => none

def toJson (k : ProductKind) : Json := .string k.name

def ofJson? (j : Json) : Option ProductKind := j.name?.bind ofName?

end ProductKind

namespace Product

def toJson (p : Product) : Json :=
  .object [("id", .string p.id), ("kind", p.kind.toJson), ("has_free_trial", .bool p.hasFreeTrial)]

def ofJson? (j : Json) : Option Product := do
  let fs ← j.fields? ["id", "kind", "has_free_trial"]
  return { id := ← required fs "id" text?
           kind := ← required fs "kind" ProductKind.ofJson?
           hasFreeTrial := ← optional fs "has_free_trial" false bool? }

end Product

namespace Resource

def toJson (r : Resource) : Json :=
  .object [("identifier", .string r.identifier), ("products", .ofList Product.toJson r.products),
    ("presentation_condition", r.condition.toJson),
    ("is_free_trial_available", .bool r.isFreeTrialAvailable), ("payload", r.payload),
    ("experiment", .ofOption AssignedExperiment.toJson r.experiment)]

def ofJson? (j : Json) : Option Resource := do
  let fs ← j.fields? ["identifier", "products", "presentation_condition",
    "is_free_trial_available", "payload", "experiment"]
  return { identifier := ← required fs "identifier" text?
           products := ← optional fs "products" [] (list? Product.ofJson?)
           condition := ← optional fs "presentation_condition" .checkUserSubscription
             PresentationCondition.ofJson?
           isFreeTrialAvailable := ← optional fs "is_free_trial_available" false bool?
           payload := ← optional fs "payload" .null Json.canonical?
           experiment := ← optional fs "experiment" none (nullable? AssignedExperiment.ofJson?) }

end Resource

/-! ## Rules -/

namespace Window

/-- The name of a window. -/
def name : Window → String
  | .sinceInstall => "since_install"
  | .last30Days => "last_30_days"
  | .last7Days => "last_7_days"
  | .last24Hours => "last_24_hours"
  | .currentSession => "current_session"
  | .today => "today"

/-- The window with a name. -/
def ofName? : String → Option Window
  | "since_install" => some .sinceInstall
  | "last_30_days" => some .last30Days
  | "last_7_days" => some .last7Days
  | "last_24_hours" => some .last24Hours
  | "current_session" => some .currentSession
  | "today" => some .today
  | _ => none

def toJson (w : Window) : Json := .string w.name

def ofJson? (j : Json) : Option Window := j.name?.bind ofName?

end Window

namespace Occurrence

def toJson (o : Occurrence) : Json :=
  .object [("key", .string o.key), ("max_count", .int o.maxCount.toNat),
    ("window", o.window.toJson)]

def ofJson? (j : Json) : Option Occurrence := do
  let fs ← j.fields? ["key", "max_count", "window"]
  return { key := ← required fs "key" text?
           maxCount := ← required fs "max_count" Json.uint32?
           window := ← required fs "window" Window.ofJson? }

end Occurrence

namespace TimeUnit

/-- The name of a unit, as a question for the time since an event has it. -/
def name : TimeUnit → String
  | .minutes => "MINUTES_SINCE"
  | .hours => "HOURS_SINCE"
  | .days => "DAYS_SINCE"
  | .months => "MONTHS_SINCE"
  | .years => "YEARS_SINCE"

/-- The unit with a name. -/
def ofName? : String → Option TimeUnit
  | "MINUTES_SINCE" => some .minutes
  | "HOURS_SINCE" => some .hours
  | "DAYS_SINCE" => some .days
  | "MONTHS_SINCE" => some .months
  | "YEARS_SINCE" => some .years
  | _ => none

def toJson (u : TimeUnit) : Json := .string u.name

def ofJson? (j : Json) : Option TimeUnit := j.name?.bind ofName?

end TimeUnit

namespace ElapsedRequest

def toJson (r : ElapsedRequest) : Json :=
  .object [("type", r.unit.toJson), ("event_name", .string r.eventName)]

def ofJson? (j : Json) : Option ElapsedRequest := do
  let fs ← j.fields? ["type", "event_name"]
  return { unit := ← required fs "type" TimeUnit.ofJson?
           eventName := ← required fs "event_name" text? }

end ElapsedRequest

namespace Rule

def toJson (r : Rule) : Json :=
  .object [("expression", .ofText? r.expression),
    ("occurrence", .ofOption Occurrence.toJson r.occurrence),
    ("experiment", r.experiment.toJson),
    ("computed_properties", .ofList ElapsedRequest.toJson r.elapsed),
    ("presentation_condition", .ofOption PresentationCondition.toJson r.condition)]

def ofJson? (j : Json) : Option Rule := do
  let fs ← j.fields? ["expression", "occurrence", "experiment", "computed_properties",
    "presentation_condition"]
  return { expression := ← optional fs "expression" none (nullable? text?)
           occurrence := ← optional fs "occurrence" none (nullable? Occurrence.ofJson?)
           experiment := ← required fs "experiment" Experiment.ofJson?
           elapsed := ← optional fs "computed_properties" [] (list? ElapsedRequest.ofJson?)
           condition := ← optional fs "presentation_condition" none
             (nullable? PresentationCondition.ofJson?) }

end Rule

namespace Trigger

def toJson (t : Trigger) : Json :=
  .object [("event_name", .string t.eventName), ("rules", .ofList Rule.toJson t.rules)]

def ofJson? (j : Json) : Option Trigger := do
  let fs ← j.fields? ["event_name", "rules"]
  return { eventName := ← required fs "event_name" text?
           rules := ← optional fs "rules" [] (list? Rule.ofJson?) }

end Trigger

namespace Campaign

def toJson (c : Campaign) : Json :=
  .object [("triggers", .ofList Trigger.toJson c.triggers),
    ("paywalls", .ofList Resource.toJson c.paywalls),
    ("assignments", .ofList ServerAssignment.toJson c.assignments),
    ("request_id", .ofText? c.requestId)]

def ofJson? (j : Json) : Option Campaign := do
  let fs ← j.fields? ["triggers", "paywalls", "assignments", "request_id"]
  return { triggers := ← optional fs "triggers" [] (list? Trigger.ofJson?)
           paywalls := ← optional fs "paywalls" [] (list? Resource.ofJson?)
           assignments := ← optional fs "assignments" [] (list? ServerAssignment.ofJson?)
           requestId := ← optional fs "request_id" none (nullable? text?) }

end Campaign

end Paywall
