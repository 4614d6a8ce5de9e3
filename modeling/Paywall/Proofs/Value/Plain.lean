import Paywall.Proofs.Value.Wire
import Paywall.Value.Plain

/-!
# Plain JSON and back

Plain JSON comes back from the value that it becomes, with every number of its own class: the range
of a whole number decides which type it has in between, and either type is written as it was. The
members of objects come back in the order of their keys.

A value need not come back from plain JSON, which has fewer types. But what it is written as is plain
JSON, so to read that and write it again changes nothing.
-/

namespace Paywall

open Text (fitsInt64 fitsUInt64)

/-- A value that can be built: its maps are those of tables. Its doubles may be anything. -/
inductive Value.Tabular : Value → Prop where
  | list {items : List Value} (hitems : ∀ v ∈ items, Tabular v) : Tabular (.list items)
  | map {entries : List (String × Value)} (hsorted : Entries.Sorted entries)
      (hentries : ∀ e ∈ entries, Tabular e.2) : Tabular (.map entries)
  | int (n : Int64) : Tabular (.int n)
  | uint (n : UInt64) : Tabular (.uint n)
  | float (x : Float) : Tabular (.float x)
  | string (s : String) : Tabular (.string s)
  | bytes (data : List UInt8) : Tabular (.bytes data)
  | bool (b : Bool) : Tabular (.bool b)
  | timestamp (ms : Int64) : Tabular (.timestamp ms)
  | null : Tabular .null

namespace Value

theorem toPlainItems_eq_map (items : List Value) : toPlainItems items = items.map toPlain := by
  induction items with
  | nil => rfl
  | cons v rest ih => rw [toPlainItems, ih, List.map_cons]

theorem toPlainEntries_eq_map (entries : List (String × Value)) :
    toPlainEntries entries = entries.map fun e => (e.1, e.2.toPlain) := by
  induction entries with
  | nil => rfl
  | cons e rest ih => rw [toPlainEntries, ih, List.map_cons]

/-! ## Reading, then writing -/

/-- Whichever type a whole number gets, it is written as it was. -/
theorem toPlain_ofInt {n : Int} (h : fitsInt64 n ∨ fitsUInt64 n) : (ofInt n).toPlain = .int n := by
  unfold ofInt
  by_cases hsigned : fitsInt64 n
  · rw [if_pos hsigned, toPlain]
    simp only [fitsInt64, Bool.and_eq_true, decide_eq_true_eq] at hsigned
    rw [Int64.toInt_ofInt_of_le (by omega) (by omega)]
  · have hunsigned : fitsUInt64 n := h.resolve_left hsigned
    rw [if_neg hsigned, if_pos hunsigned, toPlain]
    simp only [fitsUInt64, Bool.and_eq_true, decide_eq_true_eq] at hunsigned
    have hlt : n.toNat < UInt64.size := by
      show n.toNat < 18446744073709551616
      omega
    rw [UInt64.toNat_ofNat_of_lt' hlt, Int.toNat_of_nonneg hunsigned.1]

theorem map_toPlainItems {items : List Json}
    (h : ∀ j ∈ items, (ofPlain? j).map toPlain = j.canonical?) :
    (ofPlainItems? items).map toPlainItems = Json.canonicalItems? items := by
  induction items with
  | nil => rfl
  | cons j rest ih =>
    obtain ⟨hj, hrest⟩ := List.forall_mem_cons.mp h
    rw [ofPlainItems?, Json.canonicalItems?, ← hj, ← ih hrest]
    cases ofPlain? j with
    | none => rfl
    | some v => cases ofPlainItems? rest <;> rfl

theorem map_toPlainEntries {members : List (String × Json)}
    (h : ∀ m ∈ members, (ofPlain? m.2).map toPlain = m.2.canonical?) :
    (ofPlainMembers? members).map toPlainEntries = Json.canonicalMembers? members := by
  induction members with
  | nil => rfl
  | cons m rest ih =>
    obtain ⟨hm, hrest⟩ := List.forall_mem_cons.mp h
    rw [ofPlainMembers?, Json.canonicalMembers?, ← hm, ← ih hrest]
    cases ofPlain? m.2 with
    | none => rfl
    | some v => cases ofPlainMembers? rest <;> rfl

/-- What is read is written in canonical form, and just what has one can be read. -/
theorem map_toPlain_ofPlain? {j : Json} (hj : j.Bounded) :
    (ofPlain? j).map toPlain = j.canonical? := by
  induction hj with
  | @array items _ ih =>
    rw [ofPlain?, Json.canonical?, ← map_toPlainItems ih]
    cases ofPlainItems? items <;> rfl
  | @object members _ ih =>
    rw [ofPlain?, Json.canonical?, ← map_toPlainEntries ih]
    cases ofPlainMembers? members with
    | none => rfl
    | some entries =>
      simp only [Option.map_some, toPlain, toPlainEntries_eq_map, Entries.sort_mapValues]
  | int hfits => exact congrArg some (toPlain_ofInt hfits)
  | float hfinite => exact congrArg some (if_pos hfinite)
  | _ => rfl

/-! ## Writing, then reading -/

/-- What is written is in canonical form. -/
theorem Tabular.canonical_toPlain {v : Value} (hv : v.Tabular) : v.toPlain.Canonical := by
  induction hv with
  | list _ ih =>
    rw [toPlain, toPlainItems_eq_map]
    exact .array (List.forall_mem_map.mpr ih)
  | map hsorted _ ih =>
    rw [toPlain, toPlainEntries_eq_map]
    refine .object ?_ (List.forall_mem_map.mpr ih)
    simpa only [Entries.Sorted, List.pairwise_map] using hsorted
  | float x =>
    rw [toPlain, Json.ofFloat]
    split
    · exact .float x
    · exact .null
  | _ => constructor

/-- All numbers of what is written are such as JSON has. -/
theorem Tabular.bounded_toPlain {v : Value} (hv : v.Tabular) : v.toPlain.Bounded := by
  induction hv with
  | list _ ih =>
    rw [toPlain, toPlainItems_eq_map]
    exact .array (List.forall_mem_map.mpr ih)
  | map _ _ ih =>
    rw [toPlain, toPlainEntries_eq_map]
    exact .object (List.forall_mem_map.mpr ih)
  | int n | timestamp n => exact .int (.inl (Json.fitsInt64_toInt n))
  | uint n => exact .int (.inr (Json.fitsUInt64_toNat n))
  | float x =>
    rw [toPlain, Json.ofFloat]
    split
    · next hfinite => exact .float hfinite
    · exact .null
  | _ => constructor

/-- Plain JSON in canonical form is a value that is written as it was. -/
theorem exists_ofPlain? {j : Json} (hcanonical : j.Canonical) (hbounded : j.Bounded) :
    ∃ v, ofPlain? j = some v ∧ v.toPlain = j := by
  have hread := map_toPlain_ofPlain? hbounded
  rw [hcanonical.canonical?_eq_self] at hread
  exact Option.map_eq_some_iff.mp hread

/-- Plain JSON of any nesting comes back from the value that it becomes, its whole numbers as whole
numbers and its doubles as the same doubles. And whatever a value has been written as is read as a
value that is written in the same way. -/
theorem plain_round_trip :
    (∀ j : Json, j.Canonical → j.Bounded → ∃ v, ofPlain? j = some v ∧ v.toPlain = j) ∧
      ∀ v : Value, v.Tabular → ∃ w, ofPlain? v.toPlain = some w ∧ w.toPlain = v.toPlain :=
  ⟨fun _ hcanonical hbounded => exists_ofPlain? hcanonical hbounded,
    fun _ hv => exists_ofPlain? hv.canonical_toPlain hv.bounded_toPlain⟩

/-- The ends of the ranges of whole numbers, and doubles that look like whole numbers. -/
def limits : Json :=
  .object [("", .array [.int (-9223372036854775808), .int 9223372036854775808,
    .int 18446744073709551615, .float (-0.0), .float 1.0]), ("profile.level", .object [("é", .null)])]

/-- A value of which plain JSON loses the types, and what is not a number altogether. -/
def lossy : Value :=
  .map [("data", .bytes [255]), ("list", .list [.float (0.0 / 0.0), .float (-0.0), .uint 3]),
    ("time", .timestamp (-1))]

theorem plain_round_trip_lossy :
    (∃ v, ofPlain? limits = some v ∧ v.toPlain = limits) ∧
      ∃ w, ofPlain? lossy.toPlain = some w ∧ w.toPlain = lossy.toPlain ∧
        w = .map [("data", .string "/w=="), ("list", .list [.null, .float (-0.0), .int 3]),
          ("time", .int (-1))] := by
  have hcanonical : limits.Canonical := by
    refine .object (by decide) ?_
    simp only [List.forall_mem_cons]
    refine ⟨.array ?_, .object (by decide) (List.forall_mem_singleton.mpr .null),
      List.forall_mem_nil _⟩
    simp only [List.forall_mem_cons]
    exact ⟨.int _, .int _, .int _, .float _, .float _, List.forall_mem_nil _⟩
  have hbounded : limits.Bounded := by
    refine .object ?_
    simp only [List.forall_mem_cons]
    refine ⟨.array ?_, .object (List.forall_mem_singleton.mpr .null), List.forall_mem_nil _⟩
    simp only [List.forall_mem_cons]
    exact ⟨.int (.inl rfl), .int (.inr rfl), .int (.inr rfl), .float (by decide +kernel),
      .float (by decide +kernel), List.forall_mem_nil _⟩
  have hlossy : lossy.Tabular := by
    refine .map (by decide) ?_
    simp only [List.forall_mem_cons]
    refine ⟨.bytes _, .list ?_, .timestamp _, List.forall_mem_nil _⟩
    simp only [List.forall_mem_cons]
    exact ⟨.float _, .float _, .uint _, List.forall_mem_nil _⟩
  obtain ⟨w, hread, hwritten⟩ := plain_round_trip.2 lossy hlossy
  exact ⟨plain_round_trip.1 limits hcanonical hbounded, w, hread, hwritten,
    Option.some.inj (hread.symm.trans rfl)⟩

end Value

end Paywall
