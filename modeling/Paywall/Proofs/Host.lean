import Paywall.Host
import Paywall.Proofs.Time.Notation
import Paywall.Proofs.Value.Wire

/-!
# Reading events and devices back

Events and devices come back from their JSON form, if their values can travel and the event has
happened in a year of four digits.
-/

namespace Paywall

open Json (bind_fields?_object readable_array readable_object)

/-! ## Tables of values -/

namespace Value

theorem tableToJson_eq_ofTable (t : Table Value) : tableToJson t = .ofTable toJson t :=
  congrArg Json.object (toJsonEntries_eq_map t.entries)

theorem readTable?_tableToJson (m : Moment) {t : Table Value} (h : ∀ e ∈ t.entries, e.2.Proper) :
    readTable? m (tableToJson t) = some t := by
  rw [tableToJson_eq_ofTable]
  exact Json.table?_ofTable fun e he => read?_toJson m (h e he)

theorem readable_tagged (type : String) {content : Json} (h : content.readable) :
    (tagged type content).readable := by
  refine readable_object ?_
  simp only [List.forall_mem_cons]
  exact ⟨rfl, h, List.forall_mem_nil _⟩

/-- Nothing that is written is beyond reading. -/
theorem readable_toJson {v : Value} (hv : v.Proper) : v.toJson.readable := by
  induction hv with
  | @list items _ ih =>
    rw [toJson, toJsonItems_eq_map]
    exact readable_tagged "list" (readable_array (List.forall_mem_map.mpr ih))
  | @map entries _ _ ih =>
    rw [toJson, toJsonEntries_eq_map]
    exact readable_tagged "map" (readable_object (List.forall_mem_map.mpr ih))
  | float hfinite =>
    rw [toJson, Json.ofFloat, if_pos hfinite]
    exact readable_tagged "float" rfl
  | null => rfl
  | _ => exact readable_tagged _ rfl

theorem readable_tableToJson {t : Table Value} (h : ∀ e ∈ t.entries, e.2.Proper) :
    (tableToJson t).readable := by
  rw [tableToJson_eq_ofTable]
  exact readable_object (List.forall_mem_map.mpr fun e he => readable_toJson (h e he))

end Value

/-! ## Events -/

theorem Instant.ofJson?_toJson {t : Instant} (h : t.Plain) : ofJson? t.toJson = some t := by
  rw [ofJson?, toJson, Json.text?, Option.bind_some, parse?_render h]

namespace HostEvent

/-- What JSON can hold of an event. -/
structure Proper (e : HostEvent) : Prop where
  parameters : ∀ p ∈ e.parameters.entries, p.2.Proper
  createdAt : e.createdAt.Plain

variable {e : HostEvent} (h : e.Proper)

include h

theorem Proper.read?_toJson (m : Value.Moment) : read? m e.toJson = some e := by
  have hparameters := Value.readTable?_tableToJson m h.parameters
  have hcreated := Instant.ofJson?_toJson h.createdAt
  rw [read?, toJson, bind_fields?_object (by rfl) (by decide)]
  simp [Json.text?, hparameters, hcreated]

theorem Proper.readable_toJson : e.toJson.readable := by
  refine readable_object ?_
  simp only [List.forall_mem_cons]
  exact ⟨rfl, Value.readable_tableToJson h.parameters, rfl, List.forall_mem_nil _⟩

end HostEvent

/-! ## Devices -/

theorem Device.ofJson?_toJson {d : Device} (h : ∀ e ∈ d.extra.entries, e.2.Proper) :
    ofJson? d.toJson = some d := by
  have hextra : Value.tableOfJson? (Value.tableToJson d.extra) = some d.extra :=
    Value.readTable?_tableToJson .met h
  rw [ofJson?, toJson, bind_fields?_object (by rfl) (by decide)]
  simp [Json.text?, hextra]

end Paywall
