import Paywall.Proofs.Assignment.Scan

/-!
# Stores that differ in their records only

A store writes its record and fills its outbox, but decides nothing by what is in them; of the record
it only learns whether it can be saved. Stores that agree in all else answer every call alike, and
agree behind it.
-/

namespace Paywall.AssignmentStore

/-- Stores with the same maps and generator, whose records can both be saved or fail alike. What is in
the records and in the outboxes may differ. -/
def Alike (s s' : AssignmentStore) : Prop :=
  ∃ r posts, s' = { s with record := r, outbox := posts } ∧ r.saveFault = s.record.saveFault

/-- Calls with one answer, that leave stores alike. -/
def AnswerAlike {α : Type} (x x' : α × AssignmentStore) : Prop := x'.1 = x.1 ∧ x.2.Alike x'.2

theorem AnswerAlike.exists_eq {α : Type} {x x' : α × AssignmentStore} (h : AnswerAlike x x') :
    ∃ a s s', x = (a, s) ∧ x' = (a, s') ∧ s.Alike s' :=
  ⟨x.1, x.2, x'.2, rfl, Prod.ext h.1 rfl, h.2⟩

namespace Alike

variable {s s' : AssignmentStore}

theorem withSaveFault (h : s.Alike s') (reason : Option String) :
    (s.withSaveFault reason).Alike (s'.withSaveFault reason) := by
  obtain ⟨r, posts, rfl, -⟩ := h
  exact ⟨{ r with saveFault := reason }, posts, rfl, rfl⟩

/-- Stores that are alike are both saved, or fail for one reason. -/
theorem save_cases (h : s.Alike s') :
    (s.save = .ok s.saved ∧ s'.save = .ok s'.saved ∧ s.saved.Alike s'.saved) ∨
      ∃ error, s.save = .error error ∧ s'.save = .error error := by
  obtain ⟨r, posts, rfl, hfault⟩ := h
  rw [save_eq, save_eq, hfault]
  cases s.record.saveFault with
  | none => exact Or.inl ⟨rfl, rfl, _, posts, rfl, hfault⟩
  | some reason => exact Or.inr ⟨_, rfl, rfl⟩

theorem takeOutbox (h : s.Alike s') : s.takeOutbox.2.Alike s'.takeOutbox.2 := by
  obtain ⟨r, posts, rfl, hfault⟩ := h
  exact ⟨r, [], rfl, hfault⟩

theorem resolve (h : s.Alike s') (e : Experiment) : AnswerAlike (s.resolve e) (s'.resolve e) := by
  obtain ⟨r, posts, rfl, hfault⟩ := h
  have hdraw := s.draw_frame r posts e.variants
  have hrecord := s.record_draw e.variants
  unfold AssignmentStore.resolve
  simp only
  cases s.confirmed.get? e.id with
  | some v => exact ⟨rfl, r, posts, rfl, hfault⟩
  | none =>
    cases s.unconfirmed.get? e.id with
    | some v => exact ⟨rfl, r, posts, rfl, hfault⟩
    | none =>
      rw [hdraw]
      rcases hdrawn : s.draw e.variants with ⟨_ | v, t⟩
      all_goals
        rw [hdrawn] at hrecord
        exact ⟨rfl, r, posts, rfl, hfault.trans (congrArg Record.saveFault hrecord.symm)⟩

theorem confirm (h : s.Alike s') (a : ConfirmableAssignment) :
    AnswerAlike (s.confirm a) (s'.confirm a) := by
  obtain ⟨r, posts, rfl, hfault⟩ := h
  unfold AssignmentStore.confirm
  simp only
  split
  · exact ⟨rfl, r, posts, rfl, hfault⟩
  · have hput : Alike { s with confirmed := s.confirmed.insert a.experimentId a.variant }
        { s with
          confirmed := s.confirmed.insert a.experimentId a.variant, record := r, outbox := posts } :=
      ⟨r, posts, rfl, hfault⟩
    rcases hput.save_cases with ⟨heq, heq', -⟩ | ⟨error, heq, heq'⟩
    · rw [heq, heq']
      exact ⟨rfl, _, _, rfl, hfault⟩
    · rw [heq, heq']
      exact ⟨rfl, r, posts, rfl, hfault⟩

/-- Calls that change the maps first and then save end alike if the maps are changed alike. -/
theorem save (h : s.Alike s') {α : Type} (a : α) :
    AnswerAlike
      (match s.save with
        | .ok saved => ((.ok a : Except AssignmentError α), saved)
        | .error error => (.error error, s))
      (match s'.save with
        | .ok saved => (.ok a, saved)
        | .error error => (.error error, s')) := by
  rcases h.save_cases with ⟨heq, heq', hsaved⟩ | ⟨error, heq, heq'⟩
  · rw [heq, heq']
    exact ⟨rfl, hsaved⟩
  · rw [heq, heq']
    exact ⟨rfl, h⟩

theorem scan (h : s.Alike s') (c : StoreCall) : (c.scan s).Alike (c.scan s') := by
  obtain ⟨r, posts, rfl, hfault⟩ := h
  have hrecord : (c.scan s).record = s.record := record_scan
  exact ⟨r, posts, s.scan_frame r posts c, hfault.trans (congrArg Record.saveFault hrecord.symm)⟩

theorem clear (h : s.Alike s') : AnswerAlike s.clear s'.clear := (h.scan .clear).save ()

theorem confirmed_eq (h : s.Alike s') : s'.confirmed = s.confirmed := by
  obtain ⟨r, posts, rfl, -⟩ := h
  rfl

theorem unconfirmed_eq (h : s.Alike s') : s'.unconfirmed = s.unconfirmed := by
  obtain ⟨r, posts, rfl, -⟩ := h
  rfl

theorem reconcile (h : s.Alike s') (triggers : List Trigger) :
    AnswerAlike (s.reconcile triggers) (s'.reconcile triggers) := by
  have hscan : (s.reconciled triggers).Alike (s'.reconciled triggers) := h.scan (.reconcile triggers)
  have hunchanged : (s'.reconciled triggers).confirmed = s'.confirmed ↔
      (s.reconciled triggers).confirmed = s.confirmed := by rw [hscan.confirmed_eq, h.confirmed_eq]
  have heq (s : AssignmentStore) : s.reconcile triggers =
      if (s.reconciled triggers).confirmed = s.confirmed then (.ok (), s.reconciled triggers)
      else
        match (s.reconciled triggers).save with
        | .ok saved => (.ok (), saved)
        | .error error => (.error error, s.reconciled triggers) := rfl
  rw [heq s, heq s']
  simp only [hunchanged]
  split
  · exact ⟨rfl, hscan⟩
  · exact hscan.save ()

theorem transfer (h : s.Alike s') (assignments : List ServerAssignment) (triggers : List Trigger) :
    AnswerAlike (s.transfer assignments triggers) (s'.transfer assignments triggers) := by
  have hscan : (s.transferred assignments triggers).Alike (s'.transferred assignments triggers) :=
    h.scan (.transfer assignments triggers)
  unfold AssignmentStore.transfer
  simp only
  split
  · exact ⟨rfl, h⟩
  · exact hscan.save _

end Alike

end Paywall.AssignmentStore
