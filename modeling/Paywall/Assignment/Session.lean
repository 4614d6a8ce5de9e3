import Paywall.Assignment.Store

/-!
# Stores over one record

A session follows the stores that are opened, one after the other, over the same record. A store may
be closed at any time and only the record is left. Saving and loading may fail at any time, for as
long as the faults of the record say so.
-/

namespace Paywall

/-- A call of a store. -/
inductive StoreCall where
  | resolve (e : Experiment)
  | confirm (a : ConfirmableAssignment)
  | clear
  | reconcile (triggers : List Trigger)
  | transfer (assignments : List ServerAssignment) (triggers : List Trigger)

/-- What a call gives back. -/
inductive StoreAnswer where
  | resolved (result : Except AssignmentError ResolvedVariant)
  | confirmed (result : Except AssignmentError Bool)
  | cleared (result : Except AssignmentError Unit)
  | reconciled (result : Except AssignmentError Unit)
  | transferred (result : Except AssignmentError Nat)

/-- Carries out a call. -/
def AssignmentStore.perform (s : AssignmentStore) : StoreCall → StoreAnswer × AssignmentStore
  | .resolve e => (s.resolve e).map .resolved id
  | .confirm a => (s.confirm a).map .confirmed id
  | .clear => s.clear.map .cleared id
  | .reconcile triggers => (s.reconcile triggers).map .reconciled id
  | .transfer assignments triggers => (s.transfer assignments triggers).map .transferred id

/-- A store in use, or the record that it has left behind. -/
inductive StoreSession where
  | opened (s : AssignmentStore)
  | closed (record : Record)

/-- A step of a session. -/
inductive StoreStep where
  | call (c : StoreCall)
  /-- The store goes away. -/
  | close
  /-- A new store is opened. -/
  | reopen (seed : UInt64)
  /-- From now on saves and loads fail for these reasons, or work. -/
  | faults (save load : Option String)

namespace StoreSession

/-- The record of a session. -/
def record : StoreSession → Record
  | .opened s => s.record
  | .closed record => record

/-- The session with another record under it. -/
def withRecord : StoreSession → Record → StoreSession
  | .opened s, record => .opened { s with record }
  | .closed _, record => .closed record

/-- Takes a step, with the answer to a call. Without a store no call is answered, and if the record
cannot be loaded no new store is opened. -/
def perform (t : StoreSession) : StoreStep → Option StoreAnswer × StoreSession
  | .call c =>
    match t with
    | .opened s => (s.perform c).map some .opened
    | .closed record => (none, .closed record)
  | .close => (none, .closed t.record)
  | .reopen seed =>
    match AssignmentStore.openRecord t.record seed with
    | .ok s => (none, .opened s)
    | .error _ => (none, t)
  | .faults save load =>
    (none, t.withRecord { t.record with saveFault := save, loadFault := load })

/-- Takes all steps of a list. -/
def run (t : StoreSession) (steps : List StoreStep) : StoreSession :=
  steps.foldl (fun t step => (t.perform step).2) t

end StoreSession

end Paywall
