import Paywall.Table

/-!
# Tables through their look-ups

One equation per operation, and `Table.ext_get?`: tables with the same answers are equal.
-/

namespace Paywall

namespace Entries

variable {α : Type}

@[simp] theorem find?_insert (k q : String) (v : α) (es : Entries α) :
    find? q (insert k v es) = if k = q then some v else find? q es := by
  induction es with
  | nil => rfl
  | cons d rest ih =>
    obtain ⟨key, w⟩ := d
    simp only [insert]
    split
    · rfl
    · split
      · next h => subst h; simp only [find?]; split <;> rfl
      · next hne =>
        simp only [find?, ih]
        by_cases hq : key = q
        · simp [hq, show k ≠ q from fun h => hne (h.trans hq.symm)]
        · simp [hq]

@[simp] theorem find?_erase (k q : String) (es : Entries α) :
    find? q (erase k es) = if k = q then none else find? q es := by
  induction es with
  | nil => simp [erase, find?]
  | cons d rest ih =>
    obtain ⟨key, w⟩ := d
    by_cases hk : key = k
    · subst hk
      rw [show erase key ((key, w) :: rest) = erase key rest from by simp [erase], ih]
      simp only [find?]
      split <;> rfl
    · rw [show erase k ((key, w) :: rest) = (key, w) :: erase k rest from by simp [erase, hk]]
      simp only [find?, ih]
      by_cases hq : key = q
      · simp [hq, show k ≠ q from fun h => hk (hq.trans h.symm)]
      · simp [hq]

theorem mem_of_find? {k : String} {v : α} {es : Entries α} (h : find? k es = some v) :
    (k, v) ∈ es := by
  induction es with
  | nil => simp [find?] at h
  | cons d rest ih =>
    obtain ⟨key, w⟩ := d
    simp only [find?] at h
    split at h
    · next hk => subst hk; cases h; exact .head _
    · exact .tail _ (ih h)

theorem find?_of_mem {k : String} {v : α} {es : Entries α} (hs : Sorted es) (h : (k, v) ∈ es) :
    find? k es = some v := by
  induction es with
  | nil => cases h
  | cons d rest ih =>
    obtain ⟨hd, hr⟩ := List.pairwise_cons.1 hs
    rcases List.mem_cons.1 h with rfl | h
    · simp [find?]
    · have : d.1 ≠ k := String.ne_of_lt (hd _ h)
      simp [find?, this, ih hr h]

/-- Of entries with one key the last that is inserted is found. -/
theorem find?_foldl_insert (k : String) (es acc : Entries α) :
    find? k (es.foldl (fun acc e => insert e.1 e.2 acc) acc) =
      ((es.filter fun e => e.1 = k).getLast?.map (·.2)).or (find? k acc) := by
  induction es generalizing acc with
  | nil => rfl
  | cons d rest ih =>
    rw [List.foldl_cons, ih, find?_insert]
    by_cases hk : d.1 = k
    · rw [List.filter_cons_of_pos (by simpa using hk), List.getLast?_cons]
      cases (rest.filter fun e => e.1 = k).getLast? <;> simp [hk]
    · rw [List.filter_cons_of_neg (by simpa using hk), if_neg hk]

theorem Sorted.nodup {es : Entries α} (h : Sorted es) : es.Nodup :=
  h.imp fun hlt heq => String.ne_of_lt hlt (congrArg Prod.fst heq)

/-- Sorted entries are determined by their look-ups. -/
theorem eq_of_find?_eq {es fs : Entries α} (he : Sorted es) (hf : Sorted fs)
    (h : ∀ k, find? k es = find? k fs) : es = fs := by
  have antisymm : ∀ a b : String × α, a ∈ es → b ∈ fs → a.1 < b.1 → b.1 < a.1 → a = b :=
    fun _ _ _ _ hab hba => absurd hba (String.lt_asymm hab)
  refine List.Perm.eq_of_pairwise antisymm he hf ?_
  refine (List.perm_ext_iff_of_nodup (Sorted.nodup he) (Sorted.nodup hf)).2 fun ⟨k, v⟩ => ?_
  exact ⟨fun hm => mem_of_find? (h k ▸ find?_of_mem he hm),
    fun hm => mem_of_find? ((h k).symm ▸ find?_of_mem hf hm)⟩

theorem insert_of_forall_lt {k : String} {v : α} {es : Entries α} (h : ∀ e ∈ es, e.1 < k) :
    insert k v es = es ++ [(k, v)] := by
  induction es with
  | nil => rfl
  | cons d rest ih =>
    obtain ⟨key, w⟩ := d
    have hkey : key < k := h (key, w) (.head _)
    have hrest : insert k v rest = rest ++ [(k, v)] := ih fun e he => h e (.tail _ he)
    simp only [insert]
    rw [if_neg (String.lt_asymm hkey), if_neg (String.ne_of_lt hkey).symm, hrest, List.cons_append]

theorem foldl_insert_of_sorted {es acc : Entries α} (h : Sorted (acc ++ es)) :
    es.foldl (fun acc e => insert e.1 e.2 acc) acc = acc ++ es := by
  induction es generalizing acc with
  | nil => rw [List.foldl_nil, List.append_nil]
  | cons d rest ih =>
    have hlast : insert d.1 d.2 acc = acc ++ [d] :=
      insert_of_forall_lt fun e he => (List.pairwise_append.1 h).2.2 e he d (.head _)
    rw [List.foldl_cons, hlast, ih (by rwa [List.append_assoc]), List.append_assoc,
      List.singleton_append]

/-- Sorting leaves sorted entries as they are. -/
theorem sort_eq_self {es : Entries α} (h : Sorted es) : sort es = es :=
  foldl_insert_of_sorted  h

theorem mem_of_mem_sort {e : String × α} {es : Entries α} (h : e ∈ sort es) : e ∈ es := by
  suffices hfold : ∀ acc : Entries α, e ∈ es.foldl (fun acc e => insert e.1 e.2 acc) acc →
      e ∈ acc ∨ e ∈ es from (hfold [] h).resolve_left (List.not_mem_nil)
  clear h
  induction es with
  | nil => exact fun _ h => .inl h
  | cons d rest ih =>
    intro acc h
    rcases ih _ h with h | h
    · rcases mem_insert h with rfl | h
      · exact .inr (.head _)
      · exact .inl h
    · exact .inr (.tail _ h)

/-- Values may be changed before or after the entries are put in order. -/
theorem insert_mapValues {β : Type} (f : α → β) (k : String) (v : α) (es : Entries α) :
    insert k (f v) (es.map fun e => (e.1, f e.2)) =
      (insert k v es).map fun e => (e.1, f e.2) := by
  induction es with
  | nil => rfl
  | cons d rest ih =>
    simp only [List.map_cons, insert]
    split
    · rfl
    · split
      · rfl
      · rw [ih, List.map_cons]

theorem sort_mapValues {β : Type} (f : α → β) (es : Entries α) :
    sort (es.map fun e => (e.1, f e.2)) = (sort es).map fun e => (e.1, f e.2) := by
  suffices h : ∀ acc : Entries α,
      (es.map fun e => (e.1, f e.2)).foldl (fun acc e => insert e.1 e.2 acc)
          (acc.map fun e => (e.1, f e.2)) =
        (es.foldl (fun acc e => insert e.1 e.2 acc) acc).map fun e => (e.1, f e.2) from h []
  induction es with
  | nil => exact fun _ => rfl
  | cons d rest ih =>
    intro acc
    simp only [List.map_cons, List.foldl_cons, insert_mapValues, ih]

end Entries

namespace Table

variable {α β : Type}

@[simp] theorem get?_empty (q : String) : (∅ : Table α).get? q = none := rfl

@[simp] theorem get?_insert (t : Table α) (k q : String) (v : α) :
    (t.insert k v).get? q = if k = q then some v else t.get? q :=
  Entries.find?_insert k q v t.entries

@[simp] theorem get?_erase (t : Table α) (k q : String) :
    (t.erase k).get? q = if k = q then none else t.get? q :=
  Entries.find?_erase k q t.entries

theorem get?_ofList (es : Entries α) (k : String) :
    (ofList es).get? k = (es.filter fun e => e.1 = k).getLast?.map (·.2) := by
  have h := Entries.find?_foldl_insert k es []
  rwa [show Entries.find? k ([] : Entries α) = none from rfl, Option.or_none] at h

theorem get?_ofListFirst (es : Entries α) (k : String) :
    (ofListFirst es).get? k = (List.find? (fun e => e.1 = k) es).map (·.2) := by
  rw [ofListFirst, get?_ofList, List.filter_reverse, List.getLast?_reverse, List.head?_filter]

/-- Tables with the same answers are equal. -/
theorem ext_get? {s t : Table α} (h : ∀ k, s.get? k = t.get? k) : s = t :=
  ext (Entries.eq_of_find?_eq s.sorted t.sorted h)

/-- A table is the table of its entries. -/
@[simp] theorem ofList_entries (t : Table α) : ofList t.entries = t :=
  ext (Entries.sort_eq_self t.sorted)

@[simp] theorem get?_union (t s : Table α) (k : String) :
    (t.union s).get? k = (s.get? k).or (t.get? k) := by
  have hentries : ∀ (es : Entries α) (t : Table α),
      (es.foldl (fun acc e => acc.insert e.1 e.2) t).entries =
        es.foldl (fun acc e => acc.insert e.1 e.2) t.entries := by
    intro es
    induction es with
    | nil => exact fun _ => rfl
    | cons e es ih => exact fun t => ih (t.insert e.1 e.2)
  have hs : s.get? k = (s.entries.filter fun e => e.1 = k).getLast?.map (·.2) := by
    rw [← get?_ofList, ofList_entries]
  rw [get?, union, hentries, Entries.find?_foldl_insert, ← hs]
  rfl

/-- A table does not depend on the order in which its entries are collected. -/
theorem ofList_of_perm {t : Table α} {es : Entries α} (h : es.Perm t.entries) : ofList es = t := by
  refine ext_get? fun k => ?_
  have hperm := h.filter fun e => e.1 = k
  have hkey : ∀ e ∈ t.entries.filter fun e => e.1 = k, e.1 = k := fun e he => by
    simpa using (List.mem_filter.1 he).2
  have hsorted : (t.entries.filter fun e => e.1 = k).Pairwise fun a b => a.1 < b.1 :=
    t.sorted.filter _
  rw [← ofList_entries t, get?_ofList, get?_ofList]
  -- no two entries of the table have one key
  rcases hfound : t.entries.filter fun e => e.1 = k with _ | ⟨a, _ | ⟨b, rest⟩⟩
  · rw [hfound] at hperm
    rw [hperm.eq_nil, hfound]
  · rw [hfound] at hperm
    rw [hperm.eq_singleton, hfound]
  · rw [hfound] at hkey hsorted
    have hlt : a.1 < b.1 := (List.pairwise_cons.1 hsorted).1 b (.head _)
    have heq : a.1 = b.1 := (hkey a (.head _)).trans (hkey b (.tail _ (.head _))).symm
    exact absurd heq (String.ne_of_lt hlt)

theorem mem_entries_iff {t : Table α} {k : String} {v : α} :
    (k, v) ∈ t.entries ↔ t.get? k = some v :=
  ⟨Entries.find?_of_mem t.sorted, Entries.mem_of_find?⟩

end Table

end Paywall
