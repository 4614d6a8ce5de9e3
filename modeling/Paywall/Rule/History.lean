import Paywall.Campaign.Occurrence
import Paywall.Table

/-!
# The history of firings and events

A history keeps every firing of a throttle under its key, and of every event the latest time. Rules
only ask questions, so what they see of a history is a `Counter`: two functions that may fail. A
ledger is a history whose calls can be refused.
-/

namespace Paywall

/-- Why the history gives no answer. -/
inductive CounterError where
  | unavailable (reason : String)
  /-- The window of this key has no beginning that can be computed. -/
  | window (key : String)
deriving DecidableEq, Repr

/-- The wording of an error. -/
def CounterError.message : CounterError → String
  | .unavailable reason => "occurrence store unavailable: " ++ reason
  | .window key => "cannot compute window start for " ++ key

/-- The questions that rules ask. -/
structure Counter where
  /-- How often the key of an occurrence fired within its window. -/
  count : Occurrence → Except CounterError UInt32
  /-- When an event was last seen. -/
  lastEvent : String → Except CounterError (Option Instant)

/-- Past firings and events. -/
structure History where
  /-- The firings of every key. -/
  firings : Table (List Instant)
  /-- The latest time of every event. -/
  events : Table Instant
  sessionStart : Instant

namespace History

/-- Nothing has happened. -/
def start (sessionStart : Instant) : History := ⟨∅, ∅, sessionStart⟩

/-- The firings of a key. -/
def firingsOf (h : History) (key : String) : List Instant := (h.firings.get? key).getD []

/-- Notes a firing. -/
def recordAt (h : History) (key : String) (time : Instant) : History :=
  { h with firings := h.firings.insert key (h.firingsOf key ++ [time]) }

/-- Notes an event. An earlier time than the one known changes nothing. -/
def recordEvent (h : History) (name : String) (time : Instant) : History :=
  match h.events.get? name with
  | none => { h with events := h.events.insert name time }
  | some last => if last < time then { h with events := h.events.insert name time } else h

/-- The firings of a key from an instant on. -/
def countSince (h : History) (key : String) (start : Option Instant) : Nat :=
  ((h.firingsOf key).filter fun t => match start with
    | some s => s ≤ t
    | none => true).length

/-- How often a key fired within a window that ends now, as a number of 32 bits. -/
def count (h : History) (o : Occurrence) (now : Instant) : UInt32 :=
  .ofNat (h.countSince o.key (o.window.start now (some h.sessionStart)))

/-- What rules see of a history at a time. -/
def counter (h : History) (now : Instant) : Counter where
  count o := .ok (h.count o now)
  lastEvent name := .ok (h.events.get? name)

end History

/-- A call to the history. -/
inductive CounterCall where
  | count
  | record
  | recordEvent
  | lastEvent
deriving DecidableEq, Repr

/-- A history behind calls that may be refused. -/
structure Ledger where
  history : History
  /-- The calls that fail for now. -/
  refused : List CounterCall
  /-- Why they fail. -/
  reason : String

namespace Ledger

/-- A history that refuses nothing. -/
def ofHistory (h : History) : Ledger := ⟨h, [], ""⟩

/-- Does a call unless it is refused. -/
def call {α : Type} (l : Ledger) (c : CounterCall) (answer : α) : Except CounterError α :=
  if l.refused.contains c then .error (.unavailable l.reason) else .ok answer

/-- What rules see of a ledger at a time. -/
def counter (l : Ledger) (now : Instant) : Counter where
  count o := l.call .count (l.history.count o now)
  lastEvent name := l.call .lastEvent (l.history.events.get? name)

/-- Notes that a throttled rule fires now. -/
def record (l : Ledger) (o : Occurrence) (now : Instant) : Except CounterError Ledger :=
  l.call .record { l with history := l.history.recordAt o.key now }

/-- Notes an event. -/
def recordEvent (l : Ledger) (name : String) (time : Instant) : Except CounterError Ledger :=
  l.call .recordEvent { l with history := l.history.recordEvent name time }

end Ledger

end Paywall
