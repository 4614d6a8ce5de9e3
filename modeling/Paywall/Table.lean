/-!
# Tables keyed by text

A table holds at most one value per key and keeps its entries in the order of their keys, by code
point. The order is part of the type, so a table is determined by what it answers to `get?`, and the
history of insertions leaves no trace in it. `Paywall.Table.Lemmas` says what each operation does to
`get?`.

The operations are written on plain lists of entries, in the namespace `Entries`. Types that nest
tables inside themselves hold such a list directly; everything else uses `Table`.
-/

namespace Paywall

/-- Entries of a table, as a plain list. -/
abbrev Entries (α : Type) := List (String × α)

namespace Entries

variable {α β : Type}

/-- The keys strictly increase, so none occurs twice. -/
abbrev Sorted (es : Entries α) : Prop := es.Pairwise fun a b => a.1 < b.1

/-- The value of the first entry with the key `k`. -/
def find? (k : String) : Entries α → Option α
  | [] => none
  | (key, v) :: rest => if key = k then some v else find? k rest

/-- Puts `v` under `k`, in place of the value that stood there. -/
def insert (k : String) (v : α) : Entries α → Entries α
  | [] => [(k, v)]
  | (key, w) :: rest =>
    if k < key then (k, v) :: (key, w) :: rest
    else if k = key then (k, v) :: rest
    else (key, w) :: insert k v rest

/-- Removes the entries with the key `k`. -/
def erase (k : String) (es : Entries α) : Entries α := es.filter fun e => e.1 ≠ k

/-- The entries in the order of their keys. Of entries with one key the last is kept. -/
def sort (es : Entries α) : Entries α := es.foldl (fun acc e => insert e.1 e.2 acc) []

theorem mem_insert {k : String} {v : α} {es : Entries α} {e : String × α}
    (h : e ∈ insert k v es) : e = (k, v) ∨ e ∈ es := by
  induction es with
  | nil => simpa [insert] using h
  | cons d rest ih =>
    obtain ⟨key, w⟩ := d
    simp only [insert] at h
    split at h
    · simpa using h
    · split at h
      · simp only [List.mem_cons] at h ⊢
        exact h.imp_right .inr
      · simp only [List.mem_cons] at h ⊢
        exact h.elim (fun h => .inr (.inl h)) fun h => (ih h).imp_right .inr

theorem sorted_insert (k : String) (v : α) {es : Entries α} (h : Sorted es) :
    Sorted (insert k v es) := by
  induction es with
  | nil => simp [insert, Sorted]
  | cons d rest ih =>
    obtain ⟨key, w⟩ := d
    obtain ⟨hd, hr⟩ := List.pairwise_cons.1 h
    simp only [insert]
    split
    · next hlt =>
      refine List.pairwise_cons.2 ⟨fun e he => ?_, h⟩
      rcases List.mem_cons.1 he with rfl | he
      · exact hlt
      · exact String.lt_trans hlt (hd e he)
    · next hnlt =>
      split
      · next heq => subst heq; exact List.pairwise_cons.2 ⟨hd, hr⟩
      · next hne =>
        refine List.pairwise_cons.2 ⟨fun e he => ?_, ih hr⟩
        rcases mem_insert he with rfl | he
        · exact Decidable.not_not.1 fun hnk =>
            hne (String.le_antisymm (String.not_lt.1 hnk) (String.not_lt.1 hnlt))
        · exact hd e he

theorem sorted_sort (es : Entries α) : Sorted (sort es) := by
  suffices h : ∀ acc : Entries α, Sorted acc →
      Sorted (es.foldl (fun acc e => insert e.1 e.2 acc) acc) from h [] .nil
  induction es with
  | nil => exact fun _ h => h
  | cons d rest ih => exact fun acc h => ih _ (sorted_insert d.1 d.2 h)

end Entries

/-- A finite table from text to values of type `α`. -/
structure Table (α : Type) where
  /-- The entries, in the order of their keys. -/
  entries : Entries α
  /-- No key occurs twice and the order is that of the keys. -/
  sorted : entries.Sorted

namespace Table

variable {α β : Type}

@[ext] theorem ext {s t : Table α} (h : s.entries = t.entries) : s = t := by
  cases s; cases t; simp_all

instance [DecidableEq α] : DecidableEq (Table α) := fun s t =>
  decidable_of_iff (s.entries = t.entries) ⟨ext, fun h => h ▸ rfl⟩

instance [BEq α] : BEq (Table α) := ⟨fun s t => s.entries == t.entries⟩

/-- The table without entries. -/
def empty : Table α := ⟨[], .nil⟩

instance : EmptyCollection (Table α) := ⟨empty⟩
instance : Inhabited (Table α) := ⟨empty⟩

/-- The value under the key `k`. -/
def get? (t : Table α) (k : String) : Option α := t.entries.find? k

/-- Whether the key `k` has a value. -/
def contains (t : Table α) (k : String) : Bool := (t.get? k).isSome

/-- Puts `v` under `k`, in place of the value that stood there. -/
def insert (t : Table α) (k : String) (v : α) : Table α :=
  ⟨t.entries.insert k v, Entries.sorted_insert k v t.sorted⟩

/-- Removes the key `k`. -/
def erase (t : Table α) (k : String) : Table α := ⟨t.entries.erase k, t.sorted.filter _⟩

/-- The table with the given entries. Of entries with one key the last counts. -/
def ofList (es : Entries α) : Table α := ⟨es.sort, Entries.sorted_sort es⟩

/-- The table with the given entries. Of entries with one key the first counts. -/
def ofListFirst (es : Entries α) : Table α := ofList es.reverse

/-- The keys, in order. -/
def keys (t : Table α) : List String := t.entries.map (·.1)

/-- The values, in the order of their keys. -/
def values (t : Table α) : List α := t.entries.map (·.2)

/-- Number of entries. -/
def size (t : Table α) : Nat := t.entries.length

/-- Adds all entries of `s` to `t`. Where both have a key, the value of `s` counts. -/
def union (t s : Table α) : Table α := s.entries.foldl (fun acc e => acc.insert e.1 e.2) t

/-- Applies `f` to every value. -/
def map (f : α → β) (t : Table α) : Table β :=
  ⟨t.entries.map fun e => (e.1, f e.2), by
    simpa only [Entries.Sorted, List.pairwise_map] using t.sorted⟩

end Table

/-- The texts of a list in order, each once. -/
def sortedSet (ks : List String) : List String := (Table.ofList (ks.map fun k => (k, ()))).keys

end Paywall
