import Paywall.Decision.Request
import Paywall.Proofs.Campaign.Codec
import Paywall.Proofs.Host

/-!
# Reading requests back

A request comes back from its JSON form, the subject by its kind. With campaigns, events and devices
this is all that a host and a server send as JSON.
-/

namespace Paywall

open Json (bind_fields?_object nullable?_ofOption readable_object)

namespace Subject

/-- What JSON can hold of a subject. -/
def Proper (s : Subject) : Prop := ∀ e, s.event? = some e → e.Proper

theorem readable_toJson {s : Subject} (h : s.Proper) : s.toJson.readable := by
  cases s with
  | event e =>
    refine readable_object ?_
    simp only [List.forall_mem_cons]
    exact ⟨rfl, (h e rfl).readable_toJson, List.forall_mem_nil _⟩
  | paywall identifier => rfl

/-- The kind is taken out, and the other field is left for it. -/
theorem ofJson?_object {kind name : String} {j : Json} (hname : name ≠ "kind")
    (hreadable : (Json.object [("kind", .string kind), (name, j)]).readable) :
    ofJson? (.object [("kind", .string kind), (name, j)]) = ofKind? kind (.object [(name, j)]) := by
  unfold ofJson?
  rw [if_pos hreadable]
  simp [hname]

theorem ofJson?_toJson {s : Subject} (h : s.Proper) : ofJson? s.toJson = some s := by
  have hreadable := readable_toJson h
  cases s with
  | event e =>
    have hevent := (h e rfl).read?_toJson .kept
    rw [toJson, ofJson?_object (by decide) hreadable, ofKind?,
      bind_fields?_object (by rfl) (by decide), Json.required_head, hevent]
    rfl
  | paywall identifier =>
    rw [toJson, ofJson?_object (by decide) hreadable, ofKind?,
      bind_fields?_object (by rfl) (by decide), Json.required_head]
    rfl

end Subject

theorem Overrides.ofJson?_toJson (o : Overrides) : ofJson? o.toJson = some o := by
  have htrial : Json.nullable? Json.bool? (.ofOption .bool o.freeTrial) = some o.freeTrial :=
    nullable?_ofOption (fun b => by simp) fun _ => rfl
  rw [ofJson?, toJson, bind_fields?_object (by rfl) (by decide)]
  simp [Json.bool?, htrial]

theorem Request.ofJson?_toJson {r : Request} (h : r.subject.Proper) : ofJson? r.toJson = some r := by
  have hsubject := Subject.ofJson?_toJson h
  have hoverrides := Overrides.ofJson?_toJson r.overrides
  rw [ofJson?, toJson, bind_fields?_object (by rfl) (by decide)]
  simp [Json.bool?, hsubject, hoverrides]

/-- Campaigns, events, devices and requests come back from their JSON forms as they were. -/
theorem json_forms_read_back :
    (∀ c : Campaign, c.Proper → Campaign.ofJson? c.toJson = some c) ∧
      (∀ e : HostEvent, e.Proper → HostEvent.ofJson? e.toJson = some e) ∧
      (∀ d : Device, (∀ a ∈ d.extra.entries, a.2.Proper) → Device.ofJson? d.toJson = some d) ∧
      ∀ r : Request, r.subject.Proper → Request.ofJson? r.toJson = some r := by
  refine ⟨fun c hc => Campaign.ofJson?_toJson hc, ?_, fun d hd => Device.ofJson?_toJson hd,
    fun r hr => Request.ofJson?_toJson hr⟩
  intro e he
  exact he.read?_toJson .met

/-- Every part of a campaign once. -/
def springCampaign : Campaign where
  triggers := [⟨"app_open", [
    { expression := some "params.level > 2"
      occurrence := some ⟨"spring", 2, .last7Days⟩
      experiment := ⟨"e", "g", [⟨"v", 0.5, .treatment, some "p"⟩, ⟨"w", 1, .holdout, none⟩]⟩
      elapsed := [⟨.days, "app_open"⟩]
      condition := some .always }]⟩]
  paywalls := [
    { identifier := "p"
      products := [⟨"yearly", .primary, true⟩]
      condition := .always
      isFreeTrialAvailable := true
      payload := .object [("a", .array [.null, .int 3]), ("b", .object [])]
      experiment := some ⟨"e", "g", ⟨"v", .treatment, some "p"⟩⟩ }]
  assignments := [⟨"e", "v"⟩]
  requestId := none

/-- An event half a second after half past three on a day in May. -/
def springEvent : HostEvent :=
  ⟨"app_open", .ofList [("level", .uint 3), ("share", .float 0.25)], ⟨1715355000, 500000000⟩⟩

theorem springEvent_proper : springEvent.Proper where
  parameters := by
    show ∀ p ∈ [("level", Value.uint 3), ("share", Value.float 0.25)], p.2.Proper
    simp only [List.forall_mem_cons]
    exact ⟨.uint 3, .float (by decide), List.forall_mem_nil _⟩
  createdAt := ⟨by decide, by decide⟩

/-- A device with an attribute of its own. -/
def springDevice : Device :=
  ⟨"de-AT", some "2.0.1", none, .ofList [("beta", .list [.bool true, .null])]⟩

theorem json_forms_read_back_spring :
    Campaign.ofJson? springCampaign.toJson = some springCampaign ∧
      HostEvent.ofJson? springEvent.toJson = some springEvent ∧
      Device.ofJson? springDevice.toJson = some springDevice ∧
      Request.ofJson? ((Request.forEvent springEvent).withFreeTrial true).toJson =
        some ((Request.forEvent springEvent).withFreeTrial true) := by
  have hcampaign : springCampaign.Proper := by
    constructor
    · simp only [springCampaign, Experiment.Weighed, List.forall_mem_singleton, List.forall_mem_cons]
      decide
    · simp only [springCampaign, List.forall_mem_singleton]
      refine .object (by decide) ?_
      simp only [List.forall_mem_cons]
      exact ⟨.array (by simpa using ⟨.null, .int 3⟩), .object .nil (List.forall_mem_nil _),
        List.forall_mem_nil _⟩
  have hdevice : ∀ a ∈ springDevice.extra.entries, a.2.Proper := by
    show ∀ a ∈ [("beta", Value.list [.bool true, .null])], a.2.Proper
    simp only [List.forall_mem_singleton]
    refine .list ?_
    simp only [List.forall_mem_cons]
    exact ⟨.bool true, .null, List.forall_mem_nil _⟩
  have hsubject : (Subject.event springEvent).Proper := by
    intro e he
    cases he
    exact springEvent_proper
  obtain ⟨hcampaigns, hevents, hdevices, hrequests⟩ := json_forms_read_back
  exact ⟨hcampaigns _ hcampaign, hevents _ springEvent_proper, hdevices _ hdevice,
    hrequests _ hsubject⟩

end Paywall
