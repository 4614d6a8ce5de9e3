import Paywall.Json.Decode
import Paywall.Table.Lemmas

/-!
# Decoding what was encoded

One lemma for each way in which the JSON form of a type is put together. With them a type is read
back as soon as its parts are.
-/

namespace Paywall.Json

open Text (fitsInt64 fitsUInt64)

/-! ## Numbers -/

theorem fitsInt64_toInt (n : Int64) : fitsInt64 n.toInt := by
  have hlow := n.le_toInt
  have hhigh := n.toInt_lt
  simp only [fitsInt64, Bool.and_eq_true, decide_eq_true_eq]
  omega

theorem fitsUInt64_toNat (n : UInt64) : fitsUInt64 n.toNat := by
  have hhigh := n.toNat_lt
  simp only [fitsUInt64, Bool.and_eq_true, decide_eq_true_eq]
  omega

theorem int64?_toInt (n : Int64) : (Json.int n.toInt).int64? = some n := by
  show (if fitsInt64 n.toInt then some (Int64.ofInt n.toInt) else none) = some n
  rw [if_pos (fitsInt64_toInt n), Int64.ofInt_toInt]

theorem uint64?_toNat (n : UInt64) : (Json.int n.toNat).uint64? = some n := by
  show (if fitsUInt64 n.toNat then some (UInt64.ofNat (n.toNat : Int).toNat) else none) = some n
  rw [if_pos (fitsUInt64_toNat n), Int.toNat_natCast, UInt64.ofNat_toNat]

theorem uint32?_of_fits {n : Int} (h : 0 ≤ n ∧ n < 4294967296) :
    (Json.int n).uint32? = some (UInt32.ofNat n.toNat) := by
  unfold uint32? int?
  exact if_pos h

theorem uint32?_toNat (n : UInt32) : (Json.int n.toNat).uint32? = some n := by
  have hhigh := n.toNat_lt
  have hfits : 0 ≤ (n.toNat : Int) ∧ (n.toNat : Int) < 4294967296 := by omega
  rw [uint32?_of_fits hfits, Int.toNat_natCast, UInt32.ofNat_toNat]

/-! ## Records -/

/-- An object whose members are the fields of a record, in order. -/
theorem fields?_object {names : List String} {members : List (String × Json)}
    (hkeys : members.map (·.1) = names) (hnodup : names.Nodup) :
    (Json.object members).fields? names = some members := by
  have hall : members.filter (fun m => names.contains m.1) = members := by
    refine List.filter_eq_self.mpr fun m hm => ?_
    rw [List.contains_iff_mem, ← hkeys]
    exact List.mem_map_of_mem hm
  simp only [fields?]
  rw [hall, hkeys, if_pos hnodup]

theorem bind_fields?_object {β : Type} {names : List String} {members : List (String × Json)}
    {f : Entries Json → Option β} (hkeys : members.map (·.1) = names) (hnodup : names.Nodup) :
    ((Json.object members).fields? names >>= f) = f members := by
  rw [fields?_object hkeys hnodup]
  rfl

section

variable {α : Type} (fields : Entries Json) {name key : String} (j : Json) (default : α)
  (decode : Json → Option α)

@[simp] theorem required_head : required ((name, j) :: fields) name decode = decode j := by
  rw [required, Entries.find?, if_pos rfl, Option.bind_some]

@[simp] theorem required_tail (h : key ≠ name) :
    required ((key, j) :: fields) name decode = required fields name decode := by
  rw [required, Entries.find?, if_neg h, required]

@[simp] theorem optional_head : optional ((name, j) :: fields) name default decode = decode j := by
  rw [optional, Entries.find?, if_pos rfl]

@[simp] theorem optional_tail (h : key ≠ name) :
    optional ((key, j) :: fields) name default decode = optional fields name default decode := by
  rw [optional, Entries.find?, if_neg h, optional]

end

/-! ## Values that may be missing -/

@[simp] theorem nullable?_ofText? (s : Option String) : nullable? text? (ofText? s) = some s := by
  cases s <;> rfl

section

variable {α : Type} {decode : Json → Option α} {encode : α → Json}

theorem nullable?_of_ne_null {j : Json} (h : j ≠ .null) :
    nullable? decode j = (decode j).map some := by
  unfold nullable?
  split
  · exact absurd rfl h
  · rfl

/-- Null is kept for the missing value. -/
theorem nullable?_ofOption {o : Option α} (hnull : ∀ a, encode a ≠ .null)
    (h : ∀ a, decode (encode a) = some a) : nullable? decode (ofOption encode o) = some o := by
  cases o with
  | none => rfl
  | some a => rw [ofOption, nullable?_of_ne_null (hnull a), h a, Option.map_some]

/-! ## Lists and tables -/

theorem mapM_map_eq_some {β : Type} {f : β → Option α} {g : α → β} {xs : List α}
    (h : ∀ x ∈ xs, f (g x) = some x) : (xs.map g).mapM f = some xs := by
  induction xs with
  | nil => rfl
  | cons x rest ih =>
    have hhead := h x (.head _)
    have hrest := ih fun y hy => h y (.tail _ hy)
    simp [List.mapM_cons, hhead, hrest]

theorem list?_ofList (xs : List α) (h : ∀ x ∈ xs, decode (encode x) = some x) :
    list? decode (ofList encode xs) = some xs :=
  mapM_map_eq_some h

/-- The entries of a table are in order, and sorting them again changes nothing. -/
theorem table?_ofTable {t : Table α} (h : ∀ e ∈ t.entries, decode (encode e.2) = some e.2) :
    table? decode (ofTable encode t) = some t := by
  have hentries : (t.entries.map fun e => (e.1, encode e.2)).mapM
      (fun m => (decode m.2).map fun a => (m.1, a)) = some t.entries := by
    refine mapM_map_eq_some fun e he => ?_
    simp only [h e he, Option.map_some]
  rw [ofTable, table?, hentries, Option.map_some, Table.ofList_entries]

end

/-! ## Parts that can be read -/

theorem readable_array {items : List Json} (h : ∀ j ∈ items, j.readable) :
    (Json.array items).readable := by
  have hitems : (canonicalItems? items).isSome := by
    induction items with
    | nil => rfl
    | cons j rest ih =>
      obtain ⟨c, hc⟩ := Option.isSome_iff_exists.mp (h j (.head _))
      obtain ⟨cs, hcs⟩ := Option.isSome_iff_exists.mp (ih fun k hk => h k (.tail _ hk))
      simp [canonicalItems?, hc, hcs]
  rw [readable, canonical?, Option.isSome_map, hitems]

theorem readable_object {members : List (String × Json)} (h : ∀ m ∈ members, m.2.readable) :
    (Json.object members).readable := by
  have hmembers : (canonicalMembers? members).isSome := by
    induction members with
    | nil => rfl
    | cons m rest ih =>
      obtain ⟨c, hc⟩ := Option.isSome_iff_exists.mp (h m (.head _))
      obtain ⟨cs, hcs⟩ := Option.isSome_iff_exists.mp (ih fun k hk => h k (.tail _ hk))
      simp [canonicalMembers?, hc, hcs]
  rw [readable, canonical?, Option.isSome_map, hmembers]

/-! ## Canonical form -/

/-- Values without unreadable parts, in whose objects every key stands once, in order. -/
inductive Canonical : Json → Prop where
  | null : Canonical .null
  | bool (b : Bool) : Canonical (.bool b)
  | int (n : Int) : Canonical (.int n)
  | float (x : Float) : Canonical (.float x)
  | string (s : String) : Canonical (.string s)
  | array {items : List Json} (hitems : ∀ j ∈ items, Canonical j) : Canonical (.array items)
  | object {members : List (String × Json)} (hsorted : Entries.Sorted members)
      (hmembers : ∀ m ∈ members, Canonical m.2) : Canonical (.object members)

theorem canonicalItems?_eq_self {items : List Json} (h : ∀ j ∈ items, canonical? j = some j) :
    canonicalItems? items = some items := by
  induction items with
  | nil => rfl
  | cons j rest ih =>
    have hhead := h j (.head _)
    have hrest := ih fun k hk => h k (.tail _ hk)
    simp [canonicalItems?, hhead, hrest]

theorem canonicalMembers?_eq_self {members : List (String × Json)}
    (h : ∀ m ∈ members, canonical? m.2 = some m.2) :
    canonicalMembers? members = some members := by
  induction members with
  | nil => rfl
  | cons m rest ih =>
    have hhead := h m (.head _)
    have hrest := ih fun k hk => h k (.tail _ hk)
    simp [canonicalMembers?, hhead, hrest]

/-- A value in canonical form is left as it is. -/
theorem Canonical.canonical?_eq_self {j : Json} (h : j.Canonical) : canonical? j = some j := by
  induction h with
  | array hitems ih => rw [canonical?, canonicalItems?_eq_self ih, Option.map_some]
  | object hsorted hmembers ih =>
    rw [canonical?, canonicalMembers?_eq_self ih, Option.map_some, Entries.sort_eq_self hsorted]
  | _ => rfl

end Paywall.Json
