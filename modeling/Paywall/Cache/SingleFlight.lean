import Paywall.Table

/-!
# A cache with single flight

Callers that ask for one key at the same time share a single fetch. A successful result is kept; a
failure is handed to everyone who waits and then forgotten. A fetch whose entry has been invalidated
meanwhile still answers those who wait for it, but no longer fills the cache: an entry belongs to
the fetch whose token it carries.

The cache only says who waits for what. Fetching is the affair of its user, who starts a fetch when
`resolve` says so and reports its end to `settle`.
-/

namespace Paywall

/-- What the cache holds under a key. -/
inductive CacheEntry (ρ : Type) where
  | resolved (result : ρ)
  /-- A fetch that is under way, by its token. -/
  | inFlight (token : Nat)
deriving DecidableEq

/-- A cache of results `ρ` for callers named by `κ`. -/
structure SingleFlight (ρ κ : Type) where
  entries : Table (CacheEntry ρ)
  /-- Who waits for the fetches under way, by token, the earliest caller of each first. -/
  waiting : List (Nat × List κ)
  /-- The token of the next fetch. -/
  nextToken : Nat

/-- What becomes of a call. -/
inductive Resolution (ρ : Type) where
  /-- There is a result. -/
  | hit (result : ρ)
  /-- The caller waits for a fetch that is under way. -/
  | joined (token : Nat)
  /-- The caller waits for a fetch that has to be started. -/
  | started (token : Nat)
deriving DecidableEq

namespace SingleFlight

variable {ρ κ ε : Type}

/-- A cache that holds nothing. -/
def empty : SingleFlight ρ κ := ⟨∅, [], 0⟩

/-- Those who wait for a fetch. -/
def waiters (c : SingleFlight ρ κ) (token : Nat) : List κ := (c.waiting.lookup token).getD []

/-- Lets the given callers wait for a fetch, in place of those who waited for it. -/
def setWaiters (c : SingleFlight ρ κ) (token : Nat) (callers : List κ) : SingleFlight ρ κ :=
  { c with waiting := (c.waiting.filter fun w => w.1 ≠ token) ++ [(token, callers)] }

/-- Starts a fetch for a caller. -/
def start (c : SingleFlight ρ κ) (key : String) (caller : κ) : SingleFlight ρ κ :=
  { c.setWaiters c.nextToken [caller] with
    entries := c.entries.insert key (.inFlight c.nextToken)
    nextToken := c.nextToken + 1 }

/-- Lets one more caller wait for a fetch. -/
def join (c : SingleFlight ρ κ) (token : Nat) (caller : κ) : SingleFlight ρ κ :=
  c.setWaiters token (c.waiters token ++ [caller])

/-- A call for a key. With `bypass` a result is not used, but a fetch under way is joined. -/
def resolve (c : SingleFlight ρ κ) (key : String) (bypass : Bool) (caller : κ) :
    Resolution ρ × SingleFlight ρ κ :=
  match c.entries.get? key with
  | some (.resolved result) =>
    if bypass then (.started c.nextToken, c.start key caller) else (.hit result, c)
  | some (.inFlight token) => (.joined token, c.join token caller)
  | none => (.started c.nextToken, c.start key caller)

/-- Whether a fetch owns the entry of a key. -/
def owns (c : SingleFlight ρ κ) (key : String) (token : Nat) : Bool :=
  match c.entries.get? key with
  | some (.inFlight current) => current == token
  | _ => false

/-- The end of a fetch: those who are to be answered, and the cache behind it. -/
def settle (c : SingleFlight ρ κ) (key : String) (token : Nat) (result : Except ε ρ) :
    List κ × SingleFlight ρ κ :=
  let entries :=
    if c.owns key token then
      match result with
      | .ok r => c.entries.insert key (.resolved r)
      | .error _ => c.entries.erase key
    else c.entries
  (c.waiters token, { c with entries, waiting := c.waiting.filter fun w => w.1 ≠ token })

/-- The result under a key. -/
def cached? (c : SingleFlight ρ κ) (key : String) : Option ρ :=
  match c.entries.get? key with
  | some (.resolved result) => some result
  | _ => none

/-- Forgets a key. -/
def invalidate (c : SingleFlight ρ κ) (key : String) : SingleFlight ρ κ :=
  { c with entries := c.entries.erase key }

/-- Forgets all keys. -/
def clear (c : SingleFlight ρ κ) : SingleFlight ρ κ := { c with entries := ∅ }

/-- Number of results. -/
def size (c : SingleFlight ρ κ) : Nat :=
  c.entries.values.countP fun e => match e with
    | .resolved _ => true
    | .inFlight _ => false

/-- Whether there is no result. -/
def isEmpty (c : SingleFlight ρ κ) : Bool := c.size == 0

end SingleFlight

end Paywall
