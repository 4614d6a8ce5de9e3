import Paywall.Campaign.Codec
import Paywall.Proofs.Json.Decode

/-!
# Reading campaigns back

Every type of a campaign is read back from its JSON form as it was written. Only two of them hold
what JSON cannot: the weight of a variant has to be finite, and the payload of a paywall has to be
a value in canonical form, as every payload is that has been read.
-/

namespace Paywall

open Json (bind_fields?_object nullable?_ofOption list?_ofList)

/-! ## Names -/

@[simp] theorem VariantKind.ofJson?_toJson (k : VariantKind) : ofJson? k.toJson = some k := by
  cases k <;> rfl

@[simp] theorem PresentationCondition.ofJson?_toJson (c : PresentationCondition) :
    ofJson? c.toJson = some c := by
  cases c <;> rfl

@[simp] theorem ProductKind.ofJson?_toJson (k : ProductKind) : ofJson? k.toJson = some k := by
  cases k <;> rfl

@[simp] theorem Window.ofJson?_toJson (w : Window) : ofJson? w.toJson = some w := by
  cases w <;> rfl

@[simp] theorem TimeUnit.ofJson?_toJson (u : TimeUnit) : ofJson? u.toJson = some u := by
  cases u <;> rfl

/-! ## Experiments -/

@[simp] theorem Variant.ofJson?_toJson (v : Variant) : ofJson? v.toJson = some v := by
  rw [ofJson?, toJson, bind_fields?_object (by rfl) (by decide)]
  simp [Json.text?]

/-- A weight that is no number, or infinite, would be written as null. -/
theorem VariantOption.ofJson?_toJson {o : VariantOption} (h : o.weight.isFinite) :
    ofJson? o.toJson = some o := by
  rw [ofJson?, toJson, bind_fields?_object (by rfl) (by decide), Json.ofFloat, if_pos h]
  simp [Json.text?, Json.float?]

/-- All weights are finite. -/
def Experiment.Weighed (e : Experiment) : Prop := ∀ o ∈ e.variants, o.weight.isFinite

theorem Experiment.ofJson?_toJson {e : Experiment} (h : e.Weighed) : ofJson? e.toJson = some e := by
  have hvariants := list?_ofList _ fun o ho => VariantOption.ofJson?_toJson (h o ho)
  rw [ofJson?, toJson, bind_fields?_object (by rfl) (by decide)]
  simp [Json.text?, hvariants]

@[simp] theorem AssignedExperiment.ofJson?_toJson (e : AssignedExperiment) :
    ofJson? e.toJson = some e := by
  rw [ofJson?, toJson, bind_fields?_object (by rfl) (by decide)]
  simp [Json.text?]

@[simp] theorem ServerAssignment.ofJson?_toJson (a : ServerAssignment) :
    ofJson? a.toJson = some a := by
  rw [ofJson?, toJson, bind_fields?_object (by rfl) (by decide)]
  simp [Json.text?]

@[simp] theorem Assignments.ofJson?_toJson (a : Assignments) :
    Assignments.ofJson? (Assignments.toJson a) = some a :=
  Json.table?_ofTable fun e _ => Variant.ofJson?_toJson e.2

/-! ## Paywalls -/

@[simp] theorem Product.ofJson?_toJson (p : Product) : ofJson? p.toJson = some p := by
  rw [ofJson?, toJson, bind_fields?_object (by rfl) (by decide)]
  simp [Json.text?, Json.bool?]

theorem Resource.ofJson?_toJson {r : Resource} (h : r.payload.Canonical) :
    ofJson? r.toJson = some r := by
  have hpayload := h.canonical?_eq_self
  have hproducts := list?_ofList r.products fun p _ => Product.ofJson?_toJson p
  have hexperiment := nullable?_ofOption (o := r.experiment)
    (fun e => by simp [AssignedExperiment.toJson]) AssignedExperiment.ofJson?_toJson
  rw [ofJson?, toJson, bind_fields?_object (by rfl) (by decide)]
  simp [Json.text?, Json.bool?, hpayload, hproducts, hexperiment]

/-! ## Rules -/

@[simp] theorem Occurrence.ofJson?_toJson (o : Occurrence) : ofJson? o.toJson = some o := by
  rw [ofJson?, toJson, bind_fields?_object (by rfl) (by decide)]
  simp [Json.text?, Json.uint32?_toNat]

@[simp] theorem ElapsedRequest.ofJson?_toJson (r : ElapsedRequest) : ofJson? r.toJson = some r := by
  rw [ofJson?, toJson, bind_fields?_object (by rfl) (by decide)]
  simp [Json.text?]

theorem Rule.ofJson?_toJson {r : Rule} (h : r.experiment.Weighed) : ofJson? r.toJson = some r := by
  have hoccurrence := nullable?_ofOption (o := r.occurrence) (fun o => by simp [Occurrence.toJson])
    Occurrence.ofJson?_toJson
  have helapsed := list?_ofList r.elapsed fun e _ => ElapsedRequest.ofJson?_toJson e
  have hcondition := nullable?_ofOption (o := r.condition)
    (fun c => by simp [PresentationCondition.toJson]) PresentationCondition.ofJson?_toJson
  have hexperiment := Experiment.ofJson?_toJson h
  rw [ofJson?, toJson, bind_fields?_object (by rfl) (by decide)]
  simp [hoccurrence, helapsed, hcondition, hexperiment]

theorem Trigger.ofJson?_toJson {t : Trigger} (h : ∀ r ∈ t.rules, r.experiment.Weighed) :
    ofJson? t.toJson = some t := by
  have hrules := list?_ofList _ fun r hr => Rule.ofJson?_toJson (h r hr)
  rw [ofJson?, toJson, bind_fields?_object (by rfl) (by decide)]
  simp [Json.text?, hrules]

/-! ## The whole campaign -/

/-- What JSON can hold of a campaign. -/
structure Campaign.Proper (c : Campaign) : Prop where
  weighed : ∀ t ∈ c.triggers, ∀ r ∈ t.rules, r.experiment.Weighed
  canonical : ∀ p ∈ c.paywalls, p.payload.Canonical

theorem Campaign.ofJson?_toJson {c : Campaign} (h : c.Proper) : ofJson? c.toJson = some c := by
  have htriggers := list?_ofList _ fun t ht => Trigger.ofJson?_toJson (h.weighed t ht)
  have hpaywalls := list?_ofList _ fun p hp => Resource.ofJson?_toJson (h.canonical p hp)
  have hassignments := list?_ofList c.assignments fun a _ => ServerAssignment.ofJson?_toJson a
  rw [ofJson?, toJson, bind_fields?_object (by rfl) (by decide)]
  simp [htriggers, hpaywalls, hassignments]

end Paywall
