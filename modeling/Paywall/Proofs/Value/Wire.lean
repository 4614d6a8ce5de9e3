import Paywall.Proofs.Json.Decode
import Paywall.Proofs.Text.Base64
import Paywall.Proofs.Value.Double
import Paywall.Value.Wire

/-!
# Reading the wire form back

A value in which all doubles are finite is read back from its wire form, however deeply its lists
and maps are nested. What reading accepts in any of its forms is such a value, so to write it and
read it once more changes nothing.
-/

namespace Paywall

open Text (fitsInt64 fitsUInt64)

/-- A value that can travel: its doubles are finite, and its maps are those of tables. -/
inductive Value.Proper : Value → Prop where
  | list {items : List Value} (hitems : ∀ v ∈ items, Proper v) : Proper (.list items)
  | map {entries : List (String × Value)} (hsorted : Entries.Sorted entries)
      (hentries : ∀ e ∈ entries, Proper e.2) : Proper (.map entries)
  | int (n : Int64) : Proper (.int n)
  | uint (n : UInt64) : Proper (.uint n)
  | float {x : Float} (hfinite : x.isFinite) : Proper (.float x)
  | string (s : String) : Proper (.string s)
  | bytes (data : List UInt8) : Proper (.bytes data)
  | bool (b : Bool) : Proper (.bool b)
  | timestamp (ms : Int64) : Proper (.timestamp ms)
  | null : Proper .null

/-- What a number of JSON can be: whole and of at most 64 bits, or a finite double. -/
inductive Json.Bounded : Json → Prop where
  | null : Bounded .null
  | bool (b : Bool) : Bounded (.bool b)
  | int {n : Int} (hfits : fitsInt64 n ∨ fitsUInt64 n) : Bounded (.int n)
  | float {x : Float} (hfinite : x.isFinite) : Bounded (.float x)
  | string (s : String) : Bounded (.string s)
  | array {items : List Json} (hitems : ∀ j ∈ items, Bounded j) : Bounded (.array items)
  | object {members : List (String × Json)} (hmembers : ∀ m ∈ members, Bounded m.2) :
      Bounded (.object members)
  | unreadable : Bounded .unreadable

namespace Json

/-- A double that is read is finite, also when a whole number was written. -/
theorem isFinite_of_float? {j : Json} {x : Float} (hj : j.Bounded) (h : j.float? = some x) :
    x.isFinite := by
  cases hj with
  | int hfits =>
    cases h
    refine isFinite_ofInt ?_
    simp only [fitsInt64, fitsUInt64, Bool.and_eq_true, decide_eq_true_eq] at hfits
    show _ < 18446744073709551616
    omega
  | float hfinite =>
    cases h
    exact hfinite
  | null => cases h
  | bool => cases h
  | string => cases h
  | array => cases h
  | object => cases h
  | unreadable => cases h

end Json

namespace Value

/-! ## Writing, then reading -/

theorem toJsonItems_eq_map (items : List Value) : toJsonItems items = items.map toJson := by
  induction items with
  | nil => rfl
  | cons v rest ih => rw [toJsonItems, ih, List.map_cons]

theorem toJsonEntries_eq_map (entries : List (String × Value)) :
    toJsonEntries entries = entries.map fun e => (e.1, e.2.toJson) := by
  induction entries with
  | nil => rfl
  | cons e rest ih => rw [toJsonEntries, ih, List.map_cons]

section

variable (m : Moment)

/-- A type with its content behind it is read at once, whether or not something else is kept. -/
theorem read?_tagged (type : String) (content : Json) :
    read? m (tagged type content) = readContent? m type content := by
  have htype : m.typeOf? [("type", .string type), ("value", content)] = some (type, m) := by
    cases m <;> rfl
  rw [tagged, read?, htype, Option.bind_some]
  simp [readMembers?]

theorem readItems?_map {items : List Value} (h : ∀ v ∈ items, read? m v.toJson = some v) :
    readItems? m (items.map toJson) = some items := by
  induction items with
  | nil => rfl
  | cons v rest ih =>
    have hhead := h v (.head _)
    have hrest := ih fun w hw => h w (.tail _ hw)
    simp [readItems?, hhead, hrest]

theorem readEntries?_map {entries : List (String × Value)}
    (h : ∀ e ∈ entries, read? m e.2.toJson = some e.2) :
    readEntries? m (entries.map fun e => (e.1, e.2.toJson)) = some entries := by
  induction entries with
  | nil => rfl
  | cons e rest ih =>
    have hhead := h e (.head _)
    have hrest := ih fun w hw => h w (.tail _ hw)
    simp [readEntries?, hhead, hrest]

/-- One case for each type. -/
theorem read?_toJson {v : Value} (hv : v.Proper) : read? m v.toJson = some v := by
  induction hv with
  | @list items _ ih =>
    have hitems := readItems?_map m ih
    rw [toJson, read?_tagged, toJsonItems_eq_map, readContent?, if_pos rfl, hitems,
      Option.map_some]
  | @map entries hsorted _ ih =>
    have hentries := readEntries?_map m ih
    rw [toJson, read?_tagged, toJsonEntries_eq_map, readContent?, if_pos rfl, hentries,
      Option.map_some, Entries.sort_eq_self hsorted]
  | int n =>
    rw [toJson, read?_tagged]
    show (Json.int n.toInt).int64?.map Value.int = some (.int n)
    rw [Json.int64?_toInt, Option.map_some]
  | uint n =>
    rw [toJson, read?_tagged]
    show (Json.int n.toNat).uint64?.map Value.uint = some (.uint n)
    rw [Json.uint64?_toNat, Option.map_some]
  | float hfinite =>
    rw [toJson, read?_tagged, Json.ofFloat, if_pos hfinite]
    rfl
  | string s =>
    rw [toJson, read?_tagged]
    rfl
  | bytes data =>
    rw [toJson, read?_tagged]
    show (Text.Base64.decode? (Text.Base64.encode data)).map Value.bytes = some (.bytes data)
    rw [Text.Base64.decode?_encode, Option.map_some]
  | bool b =>
    rw [toJson, read?_tagged]
    rfl
  | timestamp ms =>
    rw [toJson, read?_tagged]
    show (Json.int ms.toInt).int64?.map Value.timestamp = some (.timestamp ms)
    rw [Json.int64?_toInt, Option.map_some]
  | null => cases m <;> rfl

end

/-! ## What is accepted -/

theorem proper_of_ofScalar? {type : String} {content : Json} {v : Value} (hcontent : content.Bounded)
    (h : ofScalar? type content = some v) : v.Proper := by
  unfold ofScalar? at h
  split at h
  case h_1 | h_2 | h_4 | h_5 | h_6 | h_7 =>
    obtain ⟨_, _, rfl⟩ := Option.map_eq_some_iff.mp h
    constructor
  case h_3 =>
    obtain ⟨x, hx, rfl⟩ := Option.map_eq_some_iff.mp h
    exact .float (Json.isFinite_of_float? hcontent hx)
  case h_8 | h_9 =>
    split at h
    · cases h
      exact .null
    · cases h
  case h_10 => cases h

theorem proper_of_readItems? {m : Moment} {items : List Json} {vs : List Value}
    (hitems : ∀ j ∈ items, ∀ v, read? m j = some v → v.Proper) (h : readItems? m items = some vs) :
    ∀ v ∈ vs, v.Proper := by
  induction items generalizing vs with
  | nil =>
    cases h
    intro v hv
    cases hv
  | cons j rest ih =>
    simp only [readItems?, Option.bind_eq_bind, Option.bind_eq_some_iff, Option.some.injEq] at h
    obtain ⟨w, hw, ws, hws, rfl⟩ := h
    intro v hv
    rcases List.mem_cons.mp hv with rfl | hv
    · exact hitems j (.head _) v hw
    · exact ih (fun k hk => hitems k (.tail _ hk)) hws v hv

theorem proper_of_readEntries? {m : Moment} {members : List (String × Json)}
    {entries : List (String × Value)}
    (hmembers : ∀ e ∈ members, ∀ v, read? m e.2 = some v → v.Proper)
    (h : readEntries? m members = some entries) : ∀ e ∈ entries, e.2.Proper := by
  induction members generalizing entries with
  | nil =>
    cases h
    intro e he
    cases he
  | cons d rest ih =>
    simp only [readEntries?, Option.bind_eq_bind, Option.bind_eq_some_iff, Option.some.injEq] at h
    obtain ⟨w, hw, ws, hws, rfl⟩ := h
    intro e he
    rcases List.mem_cons.mp he with rfl | he
    · exact hmembers d (.head _) w hw
    · exact ih (fun k hk => hmembers k (.tail _ hk)) hws e he

/-- The content of an object is one of its members, or is missing. -/
theorem readMembers?_cases {m : Moment} {type : String} {members : List (String × Json)} {v : Value}
    (h : readMembers? m type members = some v) :
    ofScalar? type .null = some v ∨ ∃ e ∈ members, readContent? m type e.2 = some v := by
  induction members with
  | nil => exact .inl h
  | cons e rest ih =>
    rw [readMembers?] at h
    split at h
    · exact .inr ⟨e, .head _, h⟩
    · rcases ih h with h | ⟨d, hd, h⟩
      · exact .inl h
      · exact .inr ⟨d, .tail _ hd, h⟩

/-- What is read of a JSON value, as a whole or as the content of a type, is proper. -/
theorem proper_of_read {j : Json} (hj : j.Bounded) (m : Moment) :
    (∀ v, read? m j = some v → v.Proper) ∧
      ∀ type v, readContent? m type j = some v → v.Proper := by
  induction hj generalizing m with
  | @array items hitems ih =>
    constructor
    · intro v h
      rcases items with _ | ⟨front, _ | ⟨content, _ | ⟨third, rest⟩⟩⟩
      case cons.cons.nil =>
        rw [read?] at h
        obtain ⟨type, -, hcontent⟩ := Option.bind_eq_some_iff.mp h
        exact (ih content (by simp) m).2 type v hcontent
      all_goals cases h
    · intro type v h
      rw [readContent?] at h
      split at h
      · obtain ⟨vs, hvs, rfl⟩ := Option.map_eq_some_iff.mp h
        exact .list (proper_of_readItems? (fun j hj => (ih j hj m).1) hvs)
      · cases h
  | @object members hmembers ih =>
    constructor
    · intro v h
      rw [read?] at h
      obtain ⟨⟨type, n⟩, -, hmember⟩ := Option.bind_eq_some_iff.mp h
      rcases readMembers?_cases hmember with hmissing | ⟨e, he, hcontent⟩
      · exact proper_of_ofScalar? .null hmissing
      · exact (ih e he n).2 type v hcontent
    · intro type v h
      rw [readContent?] at h
      split at h
      · obtain ⟨entries, hentries, rfl⟩ := Option.map_eq_some_iff.mp h
        have hproper := proper_of_readEntries? (fun e he => (ih e he m).1) hentries
        exact .map (Entries.sorted_sort entries) fun e he => hproper e (Entries.mem_of_mem_sort he)
      · cases h
  | _ =>
    constructor
    · intro v h
      cases h
    · intro type v
      refine proper_of_ofScalar? ?_
      constructor <;> assumption

/-- Every value with finite doubles comes back from its wire form as it was, and so does every value
that was read from JSON of any accepted form. -/
theorem wire_round_trip :
    (∀ v : Value, v.Proper → ofJson? v.toJson = some v) ∧
      ∀ (j : Json) (v : Value), j.Bounded → ofJson? j = some v → ofJson? v.toJson = some v := by
  constructor
  · intro v hv
    exact read?_toJson .met hv
  · intro j v hj h
    exact read?_toJson .met ((proper_of_read hj .met).1 v h)

/-- Two entries, one of them a list with an empty map in it. -/
def parcel : Value :=
  .map [("", .list [.bytes [0, 255], .map [], .timestamp (-1), .null]),
    ("profile.level", .float 0.5)]

/-- An array of type and content. Of its items the first has a member too many and the other name of
null, and in the others the content stands in front of the type. -/
def untidy : Json :=
  .array [.string "list", .array [
    .object [("type", .string "Null"), ("note", .array [])],
    .object [("value", .object [("k", .array [.int 2, .int 3])]), ("type", .string "map")],
    .object [("value", .string "AP8="), ("type", .object [("bytes", .null)])]]]

theorem wire_round_trip_parcel :
    ofJson? parcel.toJson = some parcel ∧
      ofJson? untidy = some (.list [.null, .map [("k", .int 3)], .bytes [0, 255]]) ∧
      ofJson? (toJson (.list [.null, .map [("k", .int 3)], .bytes [0, 255]])) =
        some (.list [.null, .map [("k", .int 3)], .bytes [0, 255]]) := by
  have hitems : ∀ v ∈ [Value.bytes [0, 255], .map [], .timestamp (-1), .null], v.Proper := by
    simp only [List.forall_mem_cons]
    exact ⟨.bytes _, .map .nil (List.forall_mem_nil _), .timestamp _, .null, List.forall_mem_nil _⟩
  have hparcel : parcel.Proper := by
    refine .map (by decide) ?_
    simp only [List.forall_mem_cons]
    exact ⟨.list hitems, .float (by decide), List.forall_mem_nil _⟩
  have hread : ofJson? untidy = some (.list [.null, .map [("k", .int 3)], .bytes [0, 255]]) := rfl
  have huntidy : untidy.Bounded := by
    refine .array (List.forall_mem_cons.mpr ⟨.string _, List.forall_mem_singleton.mpr (.array ?_)⟩)
    simp only [List.forall_mem_cons]
    refine ⟨.object ?_, .object ?_, .object ?_, List.forall_mem_nil _⟩
    all_goals simp only [List.forall_mem_cons]
    · exact ⟨.string _, .array (List.forall_mem_nil _), List.forall_mem_nil _⟩
    · refine ⟨.object (List.forall_mem_singleton.mpr (.array ?_)), .string _, List.forall_mem_nil _⟩
      simp only [List.forall_mem_cons]
      exact ⟨.int (.inl rfl), .int (.inl rfl), List.forall_mem_nil _⟩
    · exact ⟨.string _, .object (List.forall_mem_singleton.mpr .null), List.forall_mem_nil _⟩
  exact ⟨wire_round_trip.1 parcel hparcel, hread, wire_round_trip.2 untidy _ huntidy hread⟩

end Value

end Paywall
