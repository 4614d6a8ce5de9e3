import Paywall.Cache.SingleFlight
import Paywall.Table.Lemmas

/-!
# The single-flight cache through its views

A cache is read through four views: the entry of a key (`entries.get?`), the callers that wait for a
token (`waiters`), the tokens that have such a list (`tokens`) and the token of the next fetch. One
equation per operation and view; the rest of the theory does not unfold the operations.
-/

namespace Paywall.SingleFlight

variable {ρ κ ε : Type}

/-- The tokens that have a list of waiting callers. -/
def tokens (c : SingleFlight ρ κ) : List Nat := c.waiting.map (·.1)

/-- Dropping the lists of one token leaves the look-ups of the others alone. -/
theorem lookup_filter_ne (ws : List (Nat × List κ)) (token t : Nat) :
    (ws.filter fun w => w.1 ≠ token).lookup t = if token = t then none else ws.lookup t := by
  induction ws with
  | nil => simp
  | cons w rest ih =>
    obtain ⟨u, callers⟩ := w
    by_cases hu : u = token
    · subst hu
      rw [List.filter_cons_of_neg (by simp), ih]
      by_cases ht : u = t
      · simp [ht]
      · simp [ht, List.lookup_cons, show (t == u) = false by simpa using fun h => ht h.symm]
    · rw [List.filter_cons_of_pos (by simpa using hu), List.lookup_cons, List.lookup_cons, ih]
      by_cases ht : t = u
      · simp [ht, show token ≠ u from fun h => hu h.symm]
      · simp [show (t == u) = false by simpa using ht]

theorem waiters_eq_nil {c : SingleFlight ρ κ} {t : Nat} (h : t ∉ c.tokens) : c.waiters t = [] := by
  have hnone : c.waiting.lookup t = none := by
    rw [List.lookup_eq_none_iff]
    intro w hw
    simpa using fun ht : t = w.1 => h (List.mem_map.mpr ⟨w, hw, ht.symm⟩)
  simp [waiters, hnone]

/-! ## Replacing the callers of a token -/

@[simp] theorem waiters_setWaiters (c : SingleFlight ρ κ) (token t : Nat) (callers : List κ) :
    (c.setWaiters token callers).waiters t = if token = t then callers else c.waiters t := by
  simp only [waiters, setWaiters, List.lookup_append, lookup_filter_ne]
  by_cases h : token = t
  · simp [h]
  · simp [h, List.lookup_cons, show (t == token) = false by simpa using fun he => h he.symm]

@[simp] theorem mem_tokens_setWaiters {c : SingleFlight ρ κ} {token t : Nat} {callers : List κ} :
    t ∈ (c.setWaiters token callers).tokens ↔ t = token ∨ t ∈ c.tokens := by
  simp only [tokens, setWaiters, List.map_append, List.mem_append, List.mem_map, List.mem_filter,
    decide_eq_true_eq]
  constructor
  · rintro (⟨w, ⟨hw, -⟩, rfl⟩ | ⟨w, hw, rfl⟩)
    · exact Or.inr ⟨w, hw, rfl⟩
    · rw [List.mem_singleton.mp hw]
      exact Or.inl rfl
  · rintro (rfl | ⟨w, hw, rfl⟩)
    · exact Or.inr ⟨_, List.mem_singleton.mpr rfl, rfl⟩
    · by_cases h : w.1 = token
      · exact Or.inr ⟨_, List.mem_singleton.mpr rfl, h.symm⟩
      · exact Or.inl ⟨w, ⟨hw, h⟩, rfl⟩

theorem nodup_tokens_filter {c : SingleFlight ρ κ} (h : c.tokens.Nodup) (token : Nat) :
    ((c.waiting.filter fun w => w.1 ≠ token).map (·.1)).Nodup :=
  h.sublist (List.filter_sublist.map _)

theorem nodup_tokens_setWaiters {c : SingleFlight ρ κ} (h : c.tokens.Nodup) (token : Nat)
    (callers : List κ) : (c.setWaiters token callers).tokens.Nodup := by
  simp only [tokens, setWaiters, List.map_append]
  refine List.nodup_append.mpr ⟨nodup_tokens_filter h token, by simp, ?_⟩
  intro t ht u hu htu
  obtain ⟨w, hw, rfl⟩ := List.mem_map.mp ht
  have hne : w.1 ≠ token := by simpa using (List.mem_filter.mp hw).2
  exact hne (htu.trans (by simpa using hu))

/-! ## Joining and starting -/

@[simp] theorem waiters_join (c : SingleFlight ρ κ) (token t : Nat) (caller : κ) :
    (c.join token caller).waiters t =
      if token = t then c.waiters token ++ [caller] else c.waiters t :=
  waiters_setWaiters ..

@[simp] theorem mem_tokens_join {c : SingleFlight ρ κ} {token t : Nat} {caller : κ} :
    t ∈ (c.join token caller).tokens ↔ t = token ∨ t ∈ c.tokens :=
  mem_tokens_setWaiters

@[simp] theorem entries_join (c : SingleFlight ρ κ) (token : Nat) (caller : κ) :
    (c.join token caller).entries = c.entries := rfl

@[simp] theorem waiters_start (c : SingleFlight ρ κ) (key : String) (caller : κ) (t : Nat) :
    (c.start key caller).waiters t = if c.nextToken = t then [caller] else c.waiters t :=
  waiters_setWaiters ..

@[simp] theorem mem_tokens_start {c : SingleFlight ρ κ} {key : String} {caller : κ} {t : Nat} :
    t ∈ (c.start key caller).tokens ↔ t = c.nextToken ∨ t ∈ c.tokens :=
  mem_tokens_setWaiters

@[simp] theorem get?_entries_start (c : SingleFlight ρ κ) (key k : String) (caller : κ) :
    (c.start key caller).entries.get? k =
      if key = k then some (.inFlight c.nextToken) else c.entries.get? k :=
  Table.get?_insert ..

@[simp] theorem nextToken_start (c : SingleFlight ρ κ) (key : String) (caller : κ) :
    (c.start key caller).nextToken = c.nextToken + 1 := rfl

/-! ## Settling and forgetting -/

theorem owns_iff {c : SingleFlight ρ κ} {key : String} {token : Nat} :
    c.owns key token = true ↔ c.entries.get? key = some (.inFlight token) := by
  unfold owns
  split
  · next current h => simp [h]
  · next h => exact ⟨fun hf => absurd hf (by simp), fun hk => absurd hk (h token)⟩

@[simp] theorem waiters_settle (c : SingleFlight ρ κ) (key : String) (token t : Nat)
    (result : Except ε ρ) :
    (c.settle key token result).2.waiters t = if token = t then [] else c.waiters t := by
  simp only [waiters, settle, lookup_filter_ne]
  split <;> rfl

@[simp] theorem mem_tokens_settle {c : SingleFlight ρ κ} {key : String} {token t : Nat}
    {result : Except ε ρ} :
    t ∈ (c.settle key token result).2.tokens ↔ t ≠ token ∧ t ∈ c.tokens := by
  simp only [tokens, settle, List.mem_map, List.mem_filter, decide_eq_true_eq]
  constructor
  · rintro ⟨w, ⟨hw, hne⟩, rfl⟩
    exact ⟨hne, w, hw, rfl⟩
  · rintro ⟨hne, w, hw, rfl⟩
    exact ⟨w, ⟨hw, hne⟩, rfl⟩

/-- The entry that a fetch leaves behind if it owns its key. -/
def settledEntry : Except ε ρ → Option (CacheEntry ρ)
  | .ok r => some (.resolved r)
  | .error _ => none

/-- Only the fetch that owns an entry settles it. -/
theorem get?_entries_settle (c : SingleFlight ρ κ) (key k : String) (token : Nat)
    (result : Except ε ρ) :
    (c.settle key token result).2.entries.get? k =
      if key = k ∧ c.owns key token then settledEntry result else c.entries.get? k := by
  simp only [settle]
  by_cases h : c.owns key token
  · cases result <;> simp [h, settledEntry]
  · simp [h]

theorem get?_entries_settle_of_inFlight {c : SingleFlight ρ κ} {key : String} {token : Nat}
    (h : c.entries.get? key = some (.inFlight token)) (k : String) (result : Except ε ρ) :
    (c.settle key token result).2.entries.get? k =
      if key = k then settledEntry result else c.entries.get? k := by
  rw [get?_entries_settle, owns_iff.mpr h]
  simp only [and_true]

@[simp] theorem get?_entries_invalidate (c : SingleFlight ρ κ) (key k : String) :
    (c.invalidate key).entries.get? k = if key = k then none else c.entries.get? k :=
  Table.get?_erase ..

@[simp] theorem get?_entries_clear (c : SingleFlight ρ κ) (k : String) :
    c.clear.entries.get? k = none := Table.get?_empty k

/-- A call hits, joins the fetch that is under way, or starts one. -/
theorem resolve_cases (c : SingleFlight ρ κ) (key : String) (bypass : Bool) (caller : κ) :
    (∃ r, bypass = false ∧ c.entries.get? key = some (.resolved r) ∧
      c.resolve key bypass caller = (.hit r, c)) ∨
    (∃ token, c.entries.get? key = some (.inFlight token) ∧
      c.resolve key bypass caller = (.joined token, c.join token caller)) ∨
    ((bypass = false → c.entries.get? key = none) ∧
      (∀ token, c.entries.get? key ≠ some (.inFlight token)) ∧
      c.resolve key bypass caller = (.started c.nextToken, c.start key caller)) := by
  unfold resolve
  rcases c.entries.get? key with _ | r | token
  · exact Or.inr (Or.inr ⟨fun _ => rfl, by simp, rfl⟩)
  · cases bypass with
    | false => exact Or.inl ⟨r, rfl, rfl, rfl⟩
    | true => exact Or.inr (Or.inr ⟨by simp, by simp, rfl⟩)
  · exact Or.inr (Or.inl ⟨token, rfl, rfl⟩)

/-! ## Memoized results -/

theorem cached?_eq_some_iff {c : SingleFlight ρ κ} {key : String} {r : ρ} :
    c.cached? key = some r ↔ c.entries.get? key = some (.resolved r) := by
  unfold cached?
  split
  · next result h => simp [h]
  · next h => exact ⟨fun hf => absurd hf (by simp), fun hk => absurd hk (h r)⟩

/-- A call hits only what is memoized. -/
theorem cached?_of_resolve_hit {c : SingleFlight ρ κ} {key : String} {bypass : Bool} {caller : κ}
    {r : ρ} (h : (c.resolve key bypass caller).1 = .hit r) : c.cached? key = some r := by
  rcases he : c.entries.get? key with _ | entry
  · simp [resolve, he] at h
  · cases entry with
    | resolved v =>
      cases bypass with
      | false => simpa [resolve, cached?, he] using h
      | true => simp [resolve, he] at h
    | inFlight t => simp [resolve, he] at h

theorem cached?_congr {c d : SingleFlight ρ κ} {key : String}
    (h : c.entries.get? key = d.entries.get? key) : c.cached? key = d.cached? key := by
  simp only [cached?, h]

end Paywall.SingleFlight
