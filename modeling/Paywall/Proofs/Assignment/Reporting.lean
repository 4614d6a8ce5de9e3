import Paywall.Assignment.Delivery
import Paywall.Proofs.Assignment.Scan

/-!
# Each confirmation is reported once

A confirmation is posted by the call that performs it and by nothing else. From then on memory and
record both have a variant for the experiment, perhaps not the same one: a transfer may replace it,
and may fail to be saved. As long as both have one, a later call finds the experiment confirmed, also
after a restart. Only clearing and reconciling can end that.
-/

namespace Paywall

/-- What a call has confirmed, by its answer. -/
def StoreCall.performed : StoreCall → StoreAnswer → Option ConfirmableAssignment
  | .confirm a, .confirmed (.ok true) => some a
  | _, _ => none

/-- Whether a call may leave an experiment without a confirmed variant: it clears everything, or it
reconciles with a definition of the experiment that does not offer the confirmed variant. -/
def StoreCall.Revokes (s : AssignmentStore) (id : String) : StoreCall → Prop
  | .clear => True
  | .reconcile triggers =>
    ∃ v e, s.confirmed.get? id = some v ∧ VisitedExperiment triggers e ∧ e.id = id ∧
      ¬ e.hasVariant v.id
  | _ => False

/-- What an exchange has confirmed. -/
def Exchange.performed (x : Exchange) : Option ConfirmableAssignment :=
  match x.step, x.answer with
  | .call c, some answer => c.performed answer
  | _, _ => none

/-- Whether an exchange may leave an experiment without a confirmed variant. -/
def Exchange.Revokes (x : Exchange) (id : String) : Prop :=
  match x.before, x.step with
  | .opened s, .call c => c.Revokes s id
  | _, _ => False

namespace AssignmentStore

variable {s : AssignmentStore} {c : StoreCall} {id : String}

/-- What a call has confirmed goes to the outbox, behind what waits there, and nothing else does. -/
theorem outbox_perform (s : AssignmentStore) (c : StoreCall) :
    (s.perform c).2.outbox = s.outbox ++ (c.performed (s.perform c).1).toList := by
  by_cases hc : c.isConfirm
  · cases c with
    | confirm a =>
      unfold perform
      rcases s.confirm_cases a with ⟨-, heq⟩ | ⟨-, -, heq⟩ | ⟨-, reason, -, heq⟩
      · simp [heq, StoreCall.performed]
      · simp [heq, StoreCall.performed]
      · simp [heq, StoreCall.performed]
    | _ => cases hc
  · rw [Bool.not_eq_true] at hc
    have hnone : c.performed (s.perform c).1 = none := by
      cases c with
      | confirm a => cases hc
      | _ => rfl
    have hscan : (c.scan s).outbox = s.outbox := outbox_scan
    rw [hnone, Option.toList_none, List.append_nil]
    rcases s.perform_cases hc with ⟨-, -, heq⟩ | ⟨-, -, heq⟩ | ⟨-, -, heq⟩
    · rw [heq, hscan]
    · rw [heq, ← hscan]
      rfl
    · rw [heq, hscan]

/-! ## What memory and record hold -/

/-- Memory and record both have a variant for an experiment. -/
structure Claimed (id : String) (s : AssignmentStore) : Prop where
  confirmed : s.confirmed.contains id
  recorded : s.record.stored.contains id

theorem claimed_of_confirm {a : ConfirmableAssignment} (h : (s.confirm a).1 = .ok true) :
    (s.confirm a).2.Claimed a.experimentId := by
  rcases s.confirm_cases a with ⟨-, heq⟩ | ⟨-, -, heq⟩ | ⟨-, reason, -, heq⟩
  · rw [heq] at h
    cases h
  · rw [heq]
    exact ⟨by simp [Table.contains], by simp [Table.contains]⟩
  · rw [heq] at h
    cases h

/-- What is claimed is not confirmed again. -/
theorem Claimed.confirm_ne {a : ConfirmableAssignment} (h : s.Claimed a.experimentId) :
    (s.confirm a).1 ≠ .ok true := by
  have hcontains := h.confirmed
  rcases s.confirm_cases a with ⟨-, heq⟩ | ⟨hnot, -⟩ | ⟨hnot, -⟩
  · rw [heq]
    simp
  · rw [hnot] at hcontains
    cases hcontains
  · rw [hnot] at hcontains
    cases hcontains

theorem Claimed.confirm (h : s.Claimed id) (a : ConfirmableAssignment) :
    (s.confirm a).2.Claimed id := by
  have hinsert : (s.confirmed.insert a.experimentId a.variant).contains id := by
    have hold := h.confirmed
    unfold Table.contains at hold ⊢
    rw [Table.get?_insert]
    split
    · rfl
    · exact hold
  rcases s.confirm_cases a with ⟨-, heq⟩ | ⟨-, -, heq⟩ | ⟨-, reason, -, heq⟩
  · rw [heq]
    exact ⟨h.confirmed, h.recorded⟩
  · rw [heq]
    exact ⟨hinsert, hinsert⟩
  · rw [heq]
    exact h

/-- A call whose scan keeps a variant for the experiment keeps it in the record too, as that either
stays or becomes what the scan has left. -/
theorem Claimed.of_scan (h : s.Claimed id) (hc : c.isConfirm = false)
    (hscan : (c.scan s).confirmed.contains id) : (s.perform c).2.Claimed id := by
  have hrecord : (c.scan s).record = s.record := record_scan
  have hrecorded : (c.scan s).record.stored.contains id := by
    rw [hrecord]
    exact h.recorded
  rcases s.perform_cases hc with ⟨-, -, heq⟩ | ⟨-, -, heq⟩ | ⟨-, -, heq⟩
  · rw [heq]
    exact ⟨hscan, hrecorded⟩
  · rw [heq]
    exact ⟨hscan, hscan⟩
  · rw [heq]
    exact ⟨hscan, hrecorded⟩

theorem contains_reconciled {triggers : List Trigger} (h : s.confirmed.contains id)
    (hkept : ¬ (StoreCall.reconcile triggers).Revokes s id) :
    (s.reconciled triggers).confirmed.contains id := by
  obtain ⟨v, hv⟩ := Option.isSome_iff_exists.mp h
  have hoffered : ∀ e, VisitedExperiment triggers e → e.id = id → e.hasVariant v.id := by
    intro e he hid
    refine Decidable.byContradiction fun hnot => ?_
    exact hkept ⟨v, e, hv, he, hid, hnot⟩
  have hget : (s.reconciled triggers).confirmed.get? id = some v :=
    confirmed_reconciled.mpr ⟨hv, hoffered⟩
  exact Option.isSome_iff_exists.mpr ⟨v, hget⟩

theorem contains_transferred {assignments : List ServerAssignment} {triggers : List Trigger}
    (h : s.confirmed.contains id) :
    (s.transferred assignments triggers).confirmed.contains id := by
  unfold Table.contains at h ⊢
  rw [confirmed_transferred, Option.isSome_or, h, Bool.or_true]

theorem Claimed.perform (h : s.Claimed id) (hc : ¬ c.Revokes s id) :
    (s.perform c).2.Claimed id := by
  cases c with
  | resolve e =>
    have hconfirmed := h.confirmed
    rw [← (s.confirmed_record_resolve e).1] at hconfirmed
    exact h.of_scan rfl hconfirmed
  | confirm a => exact h.confirm a
  | clear => exact absurd trivial hc
  | reconcile triggers => exact h.of_scan rfl (contains_reconciled h.confirmed hc)
  | transfer assignments triggers => exact h.of_scan rfl (contains_transferred h.confirmed)

end AssignmentStore

namespace StoreSession

variable {t : StoreSession} {id : String} {step : StoreStep} {post : Postback}
  {steps : List (StoreStep × Postback)}

/-- What is open and the record both have a variant for an experiment. -/
def Claimed (id : String) : StoreSession → Prop
  | .opened s => s.Claimed id
  | .closed record => record.stored.contains id

theorem Claimed.recorded (h : t.Claimed id) : t.record.stored.contains id := by
  cases t with
  | opened s => exact AssignmentStore.Claimed.recorded h
  | closed record => exact h

/-- Delivering changes nothing but the outbox. -/
theorem claimed_deliver (post : Postback) : (t.deliver post).2.Claimed id ↔ t.Claimed id := by
  cases t with
  | opened s => exact ⟨fun h => ⟨h.confirmed, h.recorded⟩, fun h => ⟨h.confirmed, h.recorded⟩⟩
  | closed record => exact Iff.rfl

theorem Claimed.exchange (h : t.Claimed id) (hx : ¬ (t.exchange step post).1.Revokes id) :
    (t.exchange step post).2.Claimed id := by
  refine (claimed_deliver post).mpr ?_
  cases step with
  | call c =>
    cases t with
    | opened s => exact AssignmentStore.Claimed.perform h hx
    | closed record => exact h
  | close => exact h.recorded
  | reopen seed =>
    have hrecorded := h.recorded
    simp only [AssignmentStore.openRecord, Record.load]
    cases t.record.loadFault with
    | none => exact ⟨hrecorded, hrecorded⟩
    | some reason => exact h
  | faults save load =>
    cases t with
    | opened s =>
      have hs : s.Claimed id := h
      exact ⟨hs.confirmed, hs.recorded⟩
    | closed record => exact h

/-- Only a call of an open store confirms anything. -/
theorem performed_exchange {a : ConfirmableAssignment}
    (h : (t.exchange step post).1.performed = some a) :
    ∃ s, t = .opened s ∧ step = .call (.confirm a) ∧ (s.confirm a).1 = .ok true := by
  cases step with
  | call c =>
    cases t with
    | closed record => cases h
    | opened s =>
      cases c with
      | confirm b =>
        have hperformed : (StoreCall.confirm b).performed (.confirmed (s.confirm b).1) = some a := h
        unfold StoreCall.performed at hperformed
        split at hperformed
        · next hcall hanswer =>
          cases hcall
          cases hperformed
          exact ⟨s, rfl, rfl, StoreAnswer.confirmed.inj hanswer⟩
        · cases hperformed
      | _ => cases h
  | _ => cases h

theorem claimed_of_performed {a : ConfirmableAssignment}
    (h : (t.exchange step post).1.performed = some a) :
    (t.exchange step post).2.Claimed a.experimentId := by
  obtain ⟨s, rfl, rfl, hok⟩ := performed_exchange h
  have hclaimed : (opened (s.confirm a).2).Claimed a.experimentId :=
    AssignmentStore.claimed_of_confirm hok
  exact (claimed_deliver post).mpr hclaimed

theorem Claimed.performed_ne {a : ConfirmableAssignment} (h : t.Claimed a.experimentId) :
    (t.exchange step post).1.performed ≠ some a := by
  intro hperformed
  obtain ⟨s, rfl, rfl, hok⟩ := performed_exchange hperformed
  exact AssignmentStore.Claimed.confirm_ne h hok

/-! ## The posts of an exchange -/

/-- Nothing waits in the outbox. -/
def Delivered : StoreSession → Prop
  | .opened s => s.outbox = []
  | .closed _ => True

theorem delivered_exchange : (t.exchange step post).2.Delivered := by
  have hdeliver : ∀ u : StoreSession, (u.deliver post).2.Delivered := by
    intro u
    cases u with
    | opened s => exact rfl
    | closed record => exact trivial
  exact hdeliver (t.perform step).2

theorem posts_deliver (s : AssignmentStore) (post : Postback) :
    ((opened s).deliver post).1.map (·.1) = s.outbox := by
  simp [deliver, AssignmentStore.takeOutbox, Function.comp_def]

theorem Delivered.posts_deliver (h : t.Delivered) (post : Postback) : (t.deliver post).1 = [] := by
  cases t with
  | opened s =>
    have hempty : s.outbox = [] := h
    simp [deliver, AssignmentStore.takeOutbox, hempty]
  | closed record => rfl

theorem Delivered.reopen (h : t.Delivered) (seed : UInt64) :
    (t.perform (.reopen seed)).2.Delivered := by
  simp only [StoreSession.perform, AssignmentStore.openRecord, Record.load]
  cases t.record.loadFault with
  | none => exact rfl
  | some reason => exact h

theorem posts_exchange (h : t.Delivered) :
    (t.exchange step post).1.posts.map (·.1) = (t.exchange step post).1.performed.toList := by
  cases step with
  | call c =>
    cases t with
    | opened s =>
      have hempty : s.outbox = [] := h
      have houtbox := s.outbox_perform c
      rw [hempty, List.nil_append] at houtbox
      exact (posts_deliver _ post).trans houtbox
    | closed record => rfl
  | close => rfl
  | reopen seed =>
    have hnone := (h.reopen seed).posts_deliver post
    exact congrArg (List.map (·.1)) hnone
  | faults save load =>
    cases t with
    | opened s => exact (posts_deliver _ post).trans h
    | closed record => rfl

/-! ## All exchanges of a run -/

theorem converse_cons (t : StoreSession) (step : StoreStep × Postback)
    (steps : List (StoreStep × Postback)) :
    (t.converse (step :: steps)).1 =
      (t.exchange step.1 step.2).1 :: ((t.exchange step.1 step.2).2.converse steps).1 := rfl

theorem posts_converse (h : t.Delivered) :
    ∀ x ∈ (t.converse steps).1, x.posts.map (·.1) = x.performed.toList := by
  induction steps generalizing t with
  | nil =>
    intro x hx
    cases hx
  | cons step steps ih =>
    intro x hx
    rcases List.mem_cons.mp hx with rfl | hx
    · exact posts_exchange h
    · exact ih delivered_exchange x hx

/-- After an experiment is claimed, something revokes it before it is confirmed again. -/
theorem Claimed.converse (h : t.Claimed id) {between after : List Exchange} {y : Exchange}
    {b : ConfirmableAssignment} (hsplit : (t.converse steps).1 = between ++ y :: after)
    (hy : y.performed = some b) (hb : b.experimentId = id) : ∃ z ∈ between, z.Revokes id := by
  induction between generalizing t steps with
  | nil =>
    cases steps with
    | nil => cases hsplit
    | cons step steps =>
      rw [converse_cons] at hsplit
      obtain ⟨hfirst, -⟩ := List.cons.inj hsplit
      rw [← hfirst] at hy
      rw [← hb] at h
      exact absurd hy h.performed_ne
  | cons z between ih =>
    cases steps with
    | nil => cases hsplit
    | cons step steps =>
      rw [converse_cons] at hsplit
      obtain ⟨hfirst, hsplit⟩ := List.cons.inj hsplit
      by_cases hz : z.Revokes id
      · exact ⟨z, List.mem_cons_self, hz⟩
      · rw [← hfirst] at hz
        obtain ⟨w, hw, hrevokes⟩ := ih (h.exchange hz) hsplit
        exact ⟨w, List.mem_cons_of_mem _ hw, hrevokes⟩

theorem revoked_between {before between after : List Exchange} {x y : Exchange}
    {a b : ConfirmableAssignment}
    (hsplit : (t.converse steps).1 = before ++ x :: (between ++ y :: after))
    (hx : x.performed = some a) (hy : y.performed = some b)
    (hb : b.experimentId = a.experimentId) : ∃ z ∈ between, z.Revokes a.experimentId := by
  induction before generalizing t steps with
  | nil =>
    cases steps with
    | nil => cases hsplit
    | cons step steps =>
      rw [converse_cons] at hsplit
      obtain ⟨hfirst, hsplit⟩ := List.cons.inj hsplit
      rw [← hfirst] at hx
      exact (claimed_of_performed hx).converse hsplit hy hb
  | cons z before ih =>
    cases steps with
    | nil => cases hsplit
    | cons step steps =>
      rw [converse_cons] at hsplit
      exact ih (List.cons.inj hsplit).2

/-- For every run over a record, whatever fails in it: an exchange hands over the assignment that it
has confirmed and nothing else, and an experiment that is confirmed twice is revoked in between. -/
theorem reports_of_converse (record : Record) (steps : List (StoreStep × Postback)) :
    (∀ x ∈ ((closed record).converse steps).1, x.posts.map (·.1) = x.performed.toList) ∧
      ∀ before x between y after a b,
        ((closed record).converse steps).1 = before ++ x :: (between ++ y :: after) →
        x.performed = some a → y.performed = some b → b.experimentId = a.experimentId →
        ∃ z ∈ between, z.Revokes a.experimentId := by
  refine ⟨posts_converse trivial, ?_⟩
  intro before x between y after a b hsplit hx hy hb
  exact revoked_between hsplit hx hy hb

/-- An experiment is confirmed, loses its variant, and is confirmed again after a restart. The first
report does not arrive. -/
def reportedTwice : List (StoreStep × Postback) :=
  let lost : Postback := fun _ => .error (.transport "timeout")
  let arrives : Postback := fun _ => .ok ()
  let e : Experiment := ⟨"e", "g", [⟨"w", 1.0, .holdout, none⟩]⟩
  [(.reopen 1, arrives), (.call (.confirm ⟨"e", ⟨"v", .treatment, some "p"⟩⟩), lost),
    (.call (.reconcile [⟨"open", [⟨none, none, e, [], none⟩]⟩]), arrives), (.close, arrives),
    (.reopen 2, arrives), (.call (.confirm ⟨"e", ⟨"w", .holdout, none⟩⟩), arrives),
    (.call (.confirm ⟨"e", ⟨"v", .treatment, some "p"⟩⟩), arrives)]

/-- The general theorem at a run with two reports for one experiment. -/
theorem reports_of_reportedTwice :
    let xs := ((closed (.ofStored ∅)).converse reportedTwice).1
    xs.map (fun x => x.performed.map (·.variant.id)) =
        [none, some "v", none, none, none, some "w", none] ∧
      (∀ x ∈ xs, x.posts.map (·.1) = x.performed.toList) ∧
      ∃ z ∈ (xs.drop 2).take 3, z.Revokes "e" := by
  obtain ⟨hposts, hrevoked⟩ := reports_of_converse (.ofStored ∅) reportedTwice
  exact ⟨by decide, hposts, hrevoked [_] _ [_, _, _] _ [_] _ _ rfl rfl rfl rfl⟩

end StoreSession

end Paywall
