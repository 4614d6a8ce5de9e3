import Paywall.Assignment.Session
import Paywall.Proofs.Assignment.Store

/-!
# How a call ends

A call first changes the maps in memory; that part is its scan. Then the confirmed map may have to be
written to the record, which may fail. So there are three ways for a call to end, and they are the
same for all calls but one: confirming takes the change back if it cannot be saved, see
`confirm_cases`.
-/

namespace Paywall

/-- Whether an answer says that a change could not be saved. -/
def StoreAnswer.isUnsaved : StoreAnswer → Bool
  | .cleared (.error _) | .reconciled (.error _) | .transferred (.error _) => true
  | _ => false

/-- Whether a call is a confirmation. -/
def StoreCall.isConfirm : StoreCall → Bool
  | .confirm _ => true
  | _ => false

/-- What a call makes of the maps, before anything is saved. Confirming has no such part. -/
def StoreCall.scan (s : AssignmentStore) : StoreCall → AssignmentStore
  | .resolve e => (s.resolve e).2
  | .confirm _ => s
  | .clear => { s with confirmed := ∅, unconfirmed := ∅ }
  | .reconcile triggers => s.reconciled triggers
  | .transfer assignments triggers => s.transferred assignments triggers

namespace AssignmentStore

variable {s : AssignmentStore} {c : StoreCall}

/-- The store once its confirmed map is written to the record. -/
def saved (s : AssignmentStore) : AssignmentStore :=
  { s with record := { s.record with stored := s.confirmed, saves := s.record.saves + 1 } }

theorem save_cases (s : AssignmentStore) :
    (s.record.saveFault = none ∧ s.save = .ok s.saved) ∨
      ∃ reason, s.record.saveFault = some reason ∧ s.save = .error (.persistence reason) := by
  rw [save_eq]
  cases s.record.saveFault with
  | none => exact Or.inl ⟨rfl, rfl⟩
  | some reason => exact Or.inr ⟨reason, rfl, rfl⟩

theorem save_of_no_fault (h : s.record.saveFault = none) : s.save = .ok s.saved := by
  rw [save_eq, h]
  rfl

/-! ## A scan sees neither the record nor the outbox -/

section

variable (r : Record) (posts : List ConfirmableAssignment)

theorem draw_frame (options : List VariantOption) :
    draw { s with record := r, outbox := posts } options =
      ((s.draw options).1, { (s.draw options).2 with record := r, outbox := posts }) := by
  unfold draw
  rfl

theorem resolve_frame (e : Experiment) :
    (resolve { s with record := r, outbox := posts } e).2 =
      { (s.resolve e).2 with record := r, outbox := posts } := by
  have hdraw := s.draw_frame r posts e.variants
  unfold resolve
  simp only
  cases s.confirmed.get? e.id with
  | some v => rfl
  | none =>
    cases s.unconfirmed.get? e.id with
    | some v => rfl
    | none =>
      rw [hdraw]
      rcases s.draw e.variants with ⟨_ | v, t⟩ <;> rfl

theorem refreshUnconfirmed_frame (e : Experiment) :
    refreshUnconfirmed { s with record := r, outbox := posts } e =
      { s.refreshUnconfirmed e with record := r, outbox := posts } := by
  have hdraw := s.draw_frame r posts e.variants
  unfold refreshUnconfirmed
  simp only
  split
  · rfl
  · rw [hdraw]
    rcases s.draw e.variants with ⟨_ | v, t⟩ <;> rfl

theorem reconcileExperiment_frame (e : Experiment) :
    reconcileExperiment { s with record := r, outbox := posts } e =
      { s.reconcileExperiment e with record := r, outbox := posts } := by
  unfold reconcileExperiment
  simp only
  split
  · rfl
  · have h := refreshUnconfirmed_frame (s := { s with confirmed := s.confirmed.erase e.id }) r posts e
    exact h

theorem adopt_frame (table : Table Experiment) (b : ServerAssignment) :
    adopt table { s with record := r, outbox := posts } b =
      { adopt table s b with record := r, outbox := posts } := by
  unfold adopt
  cases adopted? table b <;> rfl

/-- A step that sees neither may be taken any number of times. -/
theorem foldl_frame {α : Type} {f : AssignmentStore → α → AssignmentStore}
    (hf : ∀ s x, f { s with record := r, outbox := posts } x =
      { f s x with record := r, outbox := posts }) (xs : List α) (s : AssignmentStore) :
    xs.foldl f { s with record := r, outbox := posts } =
      { xs.foldl f s with record := r, outbox := posts } := by
  induction xs generalizing s with
  | nil => rfl
  | cons x xs ih => rw [List.foldl_cons, List.foldl_cons, hf, ih]

theorem scan_frame (c : StoreCall) :
    c.scan { s with record := r, outbox := posts } =
      { c.scan s with record := r, outbox := posts } := by
  cases c with
  | resolve e => exact resolve_frame r posts e
  | confirm a => rfl
  | clear => rfl
  | reconcile triggers =>
    exact foldl_frame r posts (fun s e => s.reconcileExperiment_frame r posts e) _ s
  | transfer assignments triggers =>
    exact foldl_frame r posts (fun s b => s.adopt_frame r posts _ b) _ s

end

@[simp] theorem record_scan : (c.scan s).record = s.record := by
  have hframe := s.scan_frame s.record s.outbox c
  have h := congrArg AssignmentStore.record hframe
  exact h

@[simp] theorem outbox_scan : (c.scan s).outbox = s.outbox := by
  have hframe := s.scan_frame s.record s.outbox c
  have h := congrArg AssignmentStore.outbox hframe
  exact h

/-! ## The three ways -/

/-- Nothing is transferred if nothing is adopted. -/
theorem transferred_eq_self {assignments : List ServerAssignment} {triggers : List Trigger}
    (h : assignments.countP (fun b => (adopted? (definitions triggers) b).isSome) = 0) :
    s.transferred assignments triggers = s := by
  unfold transferred
  induction assignments with
  | nil => rfl
  | cons b bs ih =>
    have hall := List.countP_eq_zero.mp h
    have hb : adopted? (definitions triggers) b = none := by
      simpa using hall b (.head _)
    have hadopt : adopt (definitions triggers) s b = s := by
      unfold adopt
      rw [hb]
    rw [List.foldl_cons, hadopt]
    exact ih (List.countP_eq_zero.mpr fun d hd => hall d (.tail _ hd))

/-- A call that saves its scan reports whether that worked. -/
theorem save_answer_cases {α : Type} {answer : Except AssignmentError α → StoreAnswer} (a : α)
    (scanned : AssignmentStore) (hok : (answer (.ok a)).isUnsaved = false)
    (herror : ∀ error, (answer (.error error)).isUnsaved = true) :
    let ended := Prod.map answer id
      (match scanned.save with
        | .ok saved => (Except.ok a, saved)
        | .error error => (.error error, scanned))
    (ended.1.isUnsaved = false ∧ scanned.record.saveFault = none ∧ ended.2 = scanned.saved) ∨
      (ended.1.isUnsaved = true ∧ (∃ reason, scanned.record.saveFault = some reason) ∧
        ended.2 = scanned) := by
  rcases scanned.save_cases with ⟨hfault, heq⟩ | ⟨reason, hfault, heq⟩
  · rw [heq]
    exact Or.inl ⟨hok, hfault, rfl⟩
  · rw [heq]
    exact Or.inr ⟨herror _, ⟨reason, hfault⟩, rfl⟩

/-- After its scan a call finds nothing to save, or saves, or cannot save. -/
theorem perform_cases (s : AssignmentStore) (hc : c.isConfirm = false) :
    ((s.perform c).1.isUnsaved = false ∧ (c.scan s).confirmed = s.confirmed ∧
      (s.perform c).2 = c.scan s) ∨
    ((s.perform c).1.isUnsaved = false ∧ s.record.saveFault = none ∧
      (s.perform c).2 = (c.scan s).saved) ∨
    ((s.perform c).1.isUnsaved = true ∧ (∃ reason, s.record.saveFault = some reason) ∧
      (s.perform c).2 = c.scan s) := by
  rw [← record_scan (s := s) (c := c)]
  cases c with
  | resolve e => exact Or.inl ⟨rfl, (s.confirmed_record_resolve e).1, rfl⟩
  | confirm a => cases hc
  | clear => exact Or.inr (save_answer_cases () _ rfl fun _ => rfl)
  | reconcile triggers =>
    simp only [perform, reconcile]
    rw [← reconciled]
    by_cases hkept : (s.reconciled triggers).confirmed = s.confirmed
    · rw [if_pos hkept]
      exact Or.inl ⟨rfl, hkept, rfl⟩
    · rw [if_neg hkept]
      exact Or.inr (save_answer_cases () _ rfl fun _ => rfl)
  | transfer assignments triggers =>
    simp only [perform, transfer]
    rw [← transferred]
    by_cases hcount : assignments.countP
        (fun b => (adopted? (definitions triggers) b).isSome) = 0
    · have hself : (StoreCall.transfer assignments triggers).scan s = s :=
        s.transferred_eq_self hcount
      rw [if_pos hcount, hself]
      exact Or.inl ⟨rfl, rfl, rfl⟩
    · rw [if_neg hcount]
      exact Or.inr (save_answer_cases _ _ rfl fun _ => rfl)

/-- However a call ends, it leaves its scan behind, but for the record. -/
theorem perform_eq_scan (s : AssignmentStore) (hc : c.isConfirm = false) :
    ∃ r, (s.perform c).2 = { c.scan s with record := r } := by
  rcases s.perform_cases hc with ⟨-, -, hend⟩ | ⟨-, -, hend⟩ | ⟨-, -, hend⟩
  · exact ⟨_, hend⟩
  · exact ⟨_, hend⟩
  · exact ⟨_, hend⟩

end AssignmentStore

end Paywall
