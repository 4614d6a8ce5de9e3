import Paywall.Assignment.Draw
import Paywall.Assignment.Record
import Paywall.Random.Stream

/-!
# The assignment store

A variant is drawn when an experiment is first resolved and stays *unconfirmed* until it is shown.
Confirming it moves it to the lasting record and posts it. A confirmed variant always wins over an
unconfirmed one, so once an experiment is confirmed the user keeps that variant.

Every operation returns its result together with the store behind it. All that a store knows is in
its fields, among them the generator of the draws and the confirmations posted so far.
-/

namespace Paywall

/-- Why an operation fails. -/
inductive AssignmentError where
  | draw (e : DrawError)
  | persistence (reason : String)
deriving DecidableEq, Repr

/-- The wording of an error. -/
def AssignmentError.message : AssignmentError → String
  | .draw e => e.message
  | .persistence reason => "assignment persistence failed: " ++ reason

/-- Why a confirmation is not delivered. -/
inductive PostError where
  | transport (reason : String)
deriving DecidableEq, Repr

/-- The wording of an error. -/
def PostError.message : PostError → String
  | .transport reason => "postback transport failed: " ++ reason

/-- The variant of an experiment. -/
structure ResolvedVariant where
  variant : Variant
  /-- Whether the variant still has to be confirmed. -/
  confirmable : Bool
deriving DecidableEq, Repr

/-- The assignments of a user. -/
structure AssignmentStore where
  confirmed : Assignments
  unconfirmed : Assignments
  /-- The generator of the draws. -/
  stream : Random.Stream
  record : Record
  /-- The confirmations posted and not yet fetched, the earliest first. -/
  outbox : List ConfirmableAssignment
deriving DecidableEq

namespace AssignmentStore

/-- Opens a store over a record. -/
def openRecord (record : Record) (seed : UInt64) : Except AssignmentError AssignmentStore :=
  match record.load with
  | .ok confirmed => .ok ⟨confirmed, ∅, .ofSeed seed, record, []⟩
  | .error reason => .error (.persistence reason)

/-- The store over a record that can be saved again, or not any more. -/
def withSaveFault (s : AssignmentStore) (reason : Option String) : AssignmentStore :=
  { s with record := { s.record with saveFault := reason } }

/-- Writes the confirmed assignments to the record. -/
def save (s : AssignmentStore) : Except AssignmentError AssignmentStore :=
  match s.record.save s.confirmed with
  | .ok record => .ok { s with record }
  | .error reason => .error (.persistence reason)

/-- Draws a variant. -/
def draw (s : AssignmentStore) (options : List VariantOption) :
    Except DrawError Variant × AssignmentStore :=
  let (result, stream) := chooseVariant options s.stream
  (result, { s with stream })

/-- The variant of an experiment. It is drawn if there is none. -/
def resolve (s : AssignmentStore) (e : Experiment) :
    Except AssignmentError ResolvedVariant × AssignmentStore :=
  match s.confirmed.get? e.id, s.unconfirmed.get? e.id with
  | some variant, _ => (.ok ⟨variant, false⟩, s)
  | none, some variant => (.ok ⟨variant, true⟩, s)
  | none, none =>
    match s.draw e.variants with
    | (.ok variant, s) =>
      (.ok ⟨variant, true⟩, { s with unconfirmed := s.unconfirmed.insert e.id variant })
    | (.error error, s) => (.error (.draw error), s)

/-- Makes an assignment last and posts it; whether this call did it. An experiment that is confirmed
already keeps its variant. If the record cannot be saved nothing changes. -/
def confirm (s : AssignmentStore) (a : ConfirmableAssignment) :
    Except AssignmentError Bool × AssignmentStore :=
  if s.confirmed.contains a.experimentId then
    (.ok false, { s with unconfirmed := s.unconfirmed.erase a.experimentId })
  else
    match save { s with confirmed := s.confirmed.insert a.experimentId a.variant } with
    | .ok saved =>
      (.ok true, { saved with
        unconfirmed := s.unconfirmed.erase a.experimentId, outbox := s.outbox ++ [a] })
    | .error error => (.error error, s)

/-- Drops all assignments, then saves. -/
def clear (s : AssignmentStore) : Except AssignmentError Unit × AssignmentStore :=
  let s := { s with confirmed := ∅, unconfirmed := ∅ }
  match s.save with
  | .ok saved => (.ok (), saved)
  | .error error => (.error error, s)

/-- The triggers that are reconciled: of the triggers with rules the first of every group, where the
group is that of the first rule. `seen` holds the groups that have been met. -/
def visited (seen : List String) : List Trigger → List Trigger
  | [] => []
  | t :: rest =>
    match t.rules with
    | [] => visited seen rest
    | r :: _ =>
      if seen.contains r.experiment.groupId then visited seen rest
      else t :: visited (r.experiment.groupId :: seen) rest

/-- Whether an assignment names a variant that is still offered. -/
def isOffered (e : Experiment) : Option Variant → Bool
  | some v => e.hasVariant v.id
  | none => false

/-- Makes sure that an unconfirmed variant of an experiment is still offered, or draws one. -/
def refreshUnconfirmed (s : AssignmentStore) (e : Experiment) : AssignmentStore :=
  if isOffered e (s.unconfirmed.get? e.id) then s
  else
    match s.draw e.variants with
    | (.ok variant, s) => { s with unconfirmed := s.unconfirmed.insert e.id variant }
    | (.error _, s) => { s with unconfirmed := s.unconfirmed.erase e.id }

/-- Brings the assignment of one experiment in line with what is offered. A confirmed variant that
is no longer offered is dropped. -/
def reconcileExperiment (s : AssignmentStore) (e : Experiment) : AssignmentStore :=
  if isOffered e (s.confirmed.get? e.id) then
    { s with unconfirmed := s.unconfirmed.erase e.id }
  else refreshUnconfirmed { s with confirmed := s.confirmed.erase e.id } e

/-- Brings all assignments in line with new triggers. The record is saved if a confirmed assignment
was dropped. -/
def reconcile (s : AssignmentStore) (triggers : List Trigger) :
    Except AssignmentError Unit × AssignmentStore :=
  let t := (experimentsOf (visited [] triggers)).foldl reconcileExperiment s
  if t.confirmed = s.confirmed then (.ok (), t)
  else
    match t.save with
    | .ok saved => (.ok (), saved)
    | .error error => (.error error, t)

/-- The experiments by name. Of two definitions of one experiment the later one counts. -/
def definitions (triggers : List Trigger) : Table Experiment :=
  .ofList ((experimentsOf triggers).map fun e => (e.id, e))

/-- The variant that a server assignment names, if it is offered. -/
def adopted? (definitions : Table Experiment) (a : ServerAssignment) : Option Variant := do
  let e ← definitions.get? a.experimentId
  let option ← e.variants.find? fun v => v.id == a.variantId
  return option.toVariant

/-- Adopts a server assignment, if it is offered. -/
def adopt (definitions : Table Experiment) (s : AssignmentStore) (a : ServerAssignment) :
    AssignmentStore :=
  match adopted? definitions a with
  | none => s
  | some variant =>
    { s with
      confirmed := s.confirmed.insert a.experimentId variant
      unconfirmed := s.unconfirmed.erase a.experimentId }

/-- Takes over the assignments that the server has made, as confirmed. The server knows about them,
so nothing is posted. The record is saved if any was adopted. -/
def transfer (s : AssignmentStore) (assignments : List ServerAssignment) (triggers : List Trigger) :
    Except AssignmentError Nat × AssignmentStore :=
  let table := definitions triggers
  let count := assignments.countP fun a => (adopted? table a).isSome
  let t := assignments.foldl (adopt table) s
  if count = 0 then (.ok 0, s)
  else
    match t.save with
    | .ok saved => (.ok count, saved)
    | .error error => (.error error, t)

/-- Takes the posted confirmations out of the outbox. -/
def takeOutbox (s : AssignmentStore) : List ConfirmableAssignment × AssignmentStore :=
  (s.outbox, { s with outbox := [] })

end AssignmentStore

end Paywall
