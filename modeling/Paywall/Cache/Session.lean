import Paywall.Cache.SingleFlight

/-!
# A cache in use

A session follows a cache together with its callers and the fetches that are open. Callers are
numbered in the order in which they call, fetches by their tokens. Any sequence of steps is allowed:
a fetch may end at any time with any result, and a caller may go away while its fetch goes on.
-/

namespace Paywall

/-- A fetch that has not ended. -/
structure OpenFetch where
  token : Nat
  key : String
deriving DecidableEq, Repr

/-- What a caller has. -/
inductive CallerState (ε ρ : Type) where
  /-- It waits for a fetch. -/
  | waiting (token : Nat)
  | answered (result : Except ε ρ)
  /-- It went away before it was answered. -/
  | dropped

/-- A cache with its callers and open fetches. -/
structure CacheSession (ε ρ : Type) where
  cache : SingleFlight ρ Nat
  /-- The open fetches, the earliest first. -/
  fetches : List OpenFetch
  /-- The key and the state of every caller so far. -/
  callers : List (String × CallerState ε ρ)

/-- A step of a session. -/
inductive CacheStep (ε ρ : Type) where
  /-- The next caller asks for a key. -/
  | resolve (key : String) (bypass : Bool)
  /-- A fetch ends. -/
  | complete (token : Nat) (result : Except ε ρ)
  /-- A caller goes away. -/
  | drop (caller : Nat)
  | invalidate (key : String)
  | clear

namespace CacheSession

variable {ε ρ : Type}

/-- Nothing has happened. -/
def start : CacheSession ε ρ := ⟨.empty, [], []⟩

/-- Gives a result to the callers with the given numbers. Those that went away are skipped. -/
def answer (callers : List (String × CallerState ε ρ)) (numbers : List Nat) (result : Except ε ρ) :
    List (String × CallerState ε ρ) :=
  callers.mapIdx fun i c =>
    match c.2 with
    | .waiting _ => if numbers.contains i then (c.1, .answered result) else c
    | _ => c

/-- The state of a caller that has just called. -/
def stateOf : Resolution ρ → CallerState ε ρ
  | .hit result => .answered (.ok result)
  | .joined token | .started token => .waiting token

/-- A call by the next caller. -/
def resolve (s : CacheSession ε ρ) (key : String) (bypass : Bool) : CacheSession ε ρ :=
  let (resolution, cache) := s.cache.resolve key bypass s.callers.length
  { cache
    fetches := match resolution with
      | .started token => s.fetches ++ [⟨token, key⟩]
      | _ => s.fetches
    callers := s.callers ++ [(key, stateOf resolution)] }

/-- The end of a fetch; nothing happens if it is not open. -/
def complete (s : CacheSession ε ρ) (token : Nat) (result : Except ε ρ) : CacheSession ε ρ :=
  match s.fetches.find? fun f => f.token == token with
  | none => s
  | some fetch =>
    let (numbers, cache) := s.cache.settle fetch.key token result
    { cache
      fetches := s.fetches.filter fun f => f.token ≠ token
      callers := answer s.callers numbers result }

/-- A caller goes away. One that has its answer keeps it. -/
def drop (s : CacheSession ε ρ) (caller : Nat) : CacheSession ε ρ :=
  { s with callers := s.callers.mapIdx fun i c =>
      match c.2 with
      | .waiting _ => if i = caller then (c.1, .dropped) else c
      | _ => c }

/-- Takes a step. -/
def step (s : CacheSession ε ρ) : CacheStep ε ρ → CacheSession ε ρ
  | .resolve key bypass => s.resolve key bypass
  | .complete token result => s.complete token result
  | .drop caller => s.drop caller
  | .invalidate key => { s with cache := s.cache.invalidate key }
  | .clear => { s with cache := s.cache.clear }

/-- Takes all steps of a list. -/
def run (s : CacheSession ε ρ) (steps : List (CacheStep ε ρ)) : CacheSession ε ρ :=
  steps.foldl step s

end CacheSession

end Paywall
