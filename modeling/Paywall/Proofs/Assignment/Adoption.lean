import Paywall.Proofs.Assignment.Scan

/-!
# What adopting server assignments leaves

Of the rules that name an experiment the last one defines it, of its options with one name the first
one counts, and of the assignments that are adopted for it the last one. So what an experiment has in
the end is decided by one assignment, the last that is adopted for it; where there is none, both its
entries stay as they were.
-/

namespace Paywall.AssignmentStore

variable {s : AssignmentStore} {assignments : List ServerAssignment} {triggers : List Trigger}

/-- Whether an assignment is the last that is adopted for its experiment. -/
def LastAdopted (assignments : List ServerAssignment) (triggers : List Trigger)
    (b : ServerAssignment) : Prop :=
  Adopted triggers b ∧ ∃ before after, assignments = before ++ b :: after ∧
    ∀ c ∈ after, c.experimentId = b.experimentId → ¬ Adopted triggers c

/-- What adopting leaves of the two entries of an experiment. -/
inductive AdoptsFor (assignments : List ServerAssignment) (triggers : List Trigger)
    (s t : AssignmentStore) (id : String) : Prop where
  /-- The variant that is assigned last is confirmed: of the definition, the first option of that
  name. No unconfirmed variant is left. -/
  | adopted (b : ServerAssignment) (e : Experiment) (o : VariantOption)
      (hid : b.experimentId = id) (hlast : LastAdopted assignments triggers b)
      (hdefinition : definition? triggers id = some e)
      (hfirst : (e.variants.find? fun o => o.id == b.variantId) = some o)
      (hconfirmed : t.confirmed.get? id = some o.toVariant)
      (hunconfirmed : t.unconfirmed.get? id = none)
  /-- Nothing is adopted for the experiment, and nothing is changed. -/
  | untouched (hnone : ∀ b ∈ assignments, b.experimentId = id → ¬ Adopted triggers b)
      (hconfirmed : t.confirmed.get? id = s.confirmed.get? id)
      (hunconfirmed : t.unconfirmed.get? id = s.unconfirmed.get? id)

/-! ## The assignment that counts -/

theorem exists_lastAdopted {id : String}
    (h : ∃ b ∈ assignments, b.experimentId = id ∧ Adopted triggers b) :
    ∃ b, b.experimentId = id ∧ LastAdopted assignments triggers b := by
  induction assignments with
  | nil =>
    obtain ⟨b, hb, -⟩ := h
    cases hb
  | cons c cs ih =>
    by_cases hlater : ∃ b ∈ cs, b.experimentId = id ∧ Adopted triggers b
    · obtain ⟨b, hid, hadopted, before, after, hcs, hafter⟩ := ih hlater
      exact ⟨b, hid, hadopted, c :: before, after, by rw [hcs, List.cons_append], hafter⟩
    · obtain ⟨b, hb, rfl, hadopted⟩ := h
      rcases List.mem_cons.mp hb with rfl | hb
      · refine ⟨b, rfl, hadopted, [], cs, rfl, ?_⟩
        intro d hd hid hadopted'
        exact hlater ⟨d, hd, hid, hadopted'⟩
      · exact absurd ⟨b, hb, rfl, hadopted⟩ hlater

/-- The last assignment that is adopted decides. -/
theorem LastAdopted.lastAdopted?_eq {b : ServerAssignment}
    (h : LastAdopted assignments triggers b) :
    lastAdopted? assignments triggers b.experimentId = adopted? (definitions triggers) b := by
  obtain ⟨hadopted, before, after, rfl, hafter⟩ := h
  obtain ⟨v, hv⟩ := Option.isSome_iff_exists.mp (isSome_adopted?_iff.mpr hadopted)
  induction before with
  | nil => rw [List.nil_append, lastAdopted?_cons, lastAdopted?_eq_none hafter, if_pos rfl,
      Option.none_or]
  | cons c before ih => rw [List.cons_append, lastAdopted?_cons, ih, hv, Option.some_or]

/-- An assignment that is adopted names an option of the definition. -/
theorem exists_option_of_adopted {b : ServerAssignment} (h : Adopted triggers b) :
    ∃ e o, definition? triggers b.experimentId = some e ∧
      (e.variants.find? fun o => o.id == b.variantId) = some o ∧
      adopted? (definitions triggers) b = some o.toVariant := by
  obtain ⟨v, hv⟩ := Option.isSome_iff_exists.mp (isSome_adopted?_iff.mpr h)
  have hnamed := hv
  rw [adopted?_definitions] at hnamed
  obtain ⟨o, ho, rfl⟩ := Option.map_eq_some_iff.mp hnamed
  obtain ⟨e, he, ho⟩ := Option.bind_eq_some_iff.mp ho
  exact ⟨e, o, he, ho, hv⟩

theorem adoptsFor_transferred (s : AssignmentStore) (assignments : List ServerAssignment)
    (triggers : List Trigger) (id : String) :
    AdoptsFor assignments triggers s (s.transferred assignments triggers) id := by
  have hc := s.confirmed_transferred assignments triggers id
  have hu := s.unconfirmed_transferred assignments triggers id
  by_cases hadopted : ∃ b ∈ assignments, b.experimentId = id ∧ Adopted triggers b
  · obtain ⟨b, rfl, hlast⟩ := exists_lastAdopted hadopted
    obtain ⟨e, o, hdefinition, hfirst, hnamed⟩ := exists_option_of_adopted hlast.1
    rw [hlast.lastAdopted?_eq, hnamed] at hc hu
    exact .adopted b e o rfl hlast hdefinition hfirst hc hu
  · have hnone : ∀ b ∈ assignments, b.experimentId = id → ¬ Adopted triggers b :=
      fun b hb hid h => hadopted ⟨b, hb, hid, h⟩
    rw [lastAdopted?_eq_none hnone] at hc hu
    exact .untouched hnone hc hu

/-! ## The call as a whole -/

theorem countP_adopted? (assignments : List ServerAssignment) (triggers : List Trigger) :
    (assignments.countP fun b => (adopted? (definitions triggers) b).isSome) =
      assignments.countP fun b => Adopted triggers b := by
  apply List.countP_congr
  intro b _
  rw [isSome_adopted?_iff, decide_eq_true_iff]

/-- What a transfer leaves of a store that can be saved: its scan, and the record, which is written if
anything is adopted. -/
theorem transfer_of_no_fault (assignments : List ServerAssignment) (triggers : List Trigger)
    (hsave : s.record.saveFault = none) :
    ∃ r, s.transfer assignments triggers =
        (.ok (assignments.countP fun b => Adopted triggers b),
          { s.transferred assignments triggers with record := r }) ∧
      r = if ∃ b ∈ assignments, Adopted triggers b then
          { s.record with
            stored := (s.transferred assignments triggers).confirmed
            saves := s.record.saves + 1 }
        else s.record := by
  have hrecord := s.record_transferred assignments triggers
  have hcount := countP_adopted? assignments triggers
  unfold transfer
  dsimp only
  rw [← transferred, hcount]
  by_cases hany : ∃ b ∈ assignments, Adopted triggers b
  · have hpos : assignments.countP (fun b => Adopted triggers b) ≠ 0 := by
      obtain ⟨b, hb, hadopted⟩ := hany
      intro hzero
      exact List.countP_eq_zero.mp hzero b hb (decide_eq_true hadopted)
    have hscan : (s.transferred assignments triggers).record.saveFault = none := by
      rw [hrecord, hsave]
    rw [if_neg hpos, if_pos hany, save_of_no_fault hscan]
    exact ⟨_, rfl, by rw [hrecord]⟩
  · have hzero : assignments.countP (fun b => Adopted triggers b) = 0 := by
      apply List.countP_eq_zero.mpr
      intro b hb hadopted
      exact hany ⟨b, hb, of_decide_eq_true hadopted⟩
    rw [if_pos hzero, if_neg hany, s.transferred_eq_self (hcount.trans hzero), hzero]
    exact ⟨s.record, rfl, rfl⟩

/-- Adopting server assignments with a record that can be saved counts those that are adopted,
settles the entries of every experiment, leaves the generator alone, posts nothing, and writes the
record once if and only if anything was adopted. -/
theorem transfer_adopts (hsave : s.record.saveFault = none) :
    let t := (s.transfer assignments triggers).2
    (s.transfer assignments triggers).1 = .ok (assignments.countP fun b => Adopted triggers b) ∧
      (∀ id, AdoptsFor assignments triggers s t id) ∧
      t.stream = s.stream ∧ t.outbox = s.outbox ∧
      t.record = if ∃ b ∈ assignments, Adopted triggers b then
          { s.record with stored := t.confirmed, saves := s.record.saves + 1 }
        else s.record := by
  obtain ⟨r, hend, hr⟩ := transfer_of_no_fault assignments triggers hsave
  have hframe := s.transferred_eq assignments triggers
  have hstream : (s.transferred assignments triggers).stream = s.stream := by
    rw [hframe]
  have houtbox : (s.transferred assignments triggers).outbox = s.outbox := by
    rw [hframe]
  rw [hend]
  refine ⟨rfl, ?_, hstream, houtbox, hr⟩
  intro id
  cases s.adoptsFor_transferred assignments triggers id with
  | adopted b e o hid hlast hdefinition hfirst hconfirmed hunconfirmed =>
    exact .adopted b e o hid hlast hdefinition hfirst hconfirmed hunconfirmed
  | untouched hnone hconfirmed hunconfirmed => exact .untouched hnone hconfirmed hunconfirmed

/-- Two rules that name one experiment; the later one offers two variants of one name. -/
def redefined : List Trigger :=
  let earlier : Experiment := ⟨"e", "g", [⟨"w", 1.0, .holdout, none⟩]⟩
  let later : Experiment :=
    ⟨"e", "g", [⟨"v", 1.0, .treatment, some "p"⟩, ⟨"v", 1.0, .treatment, some "q"⟩,
      ⟨"w", 1.0, .treatment, some "q"⟩]⟩
  [⟨"open", [⟨none, none, earlier, [], none⟩]⟩, ⟨"close", [⟨none, none, later, [], none⟩]⟩]

/-- Assignments, the last two of which are not adopted. -/
def fourAssignments : List ServerAssignment := [⟨"e", "w"⟩, ⟨"e", "v"⟩, ⟨"e", "gone"⟩, ⟨"f", "v"⟩]

/-- The general theorem at these assignments, for a user with a draw of the experiment. -/
theorem transfer_adopts_redefined :
    let s : AssignmentStore := ⟨∅, .ofList [("e", ⟨"w", .holdout, none⟩)], .ofSeed 1, .ofStored ∅, []⟩
    let t := (s.transfer fourAssignments redefined).2
    s.record.saveFault = none ∧ (s.transfer fourAssignments redefined).1 = .ok 2 ∧
      (∀ id, AdoptsFor fourAssignments redefined s t id) ∧
      t.confirmed.get? "e" = some ⟨"v", .treatment, some "p"⟩ ∧ t.unconfirmed.get? "e" = none ∧
      t.stream = s.stream ∧ t.outbox = s.outbox ∧
      t.record = { s.record with stored := t.confirmed, saves := 1 } := by
  intro s t
  have hsave : s.record.saveFault = none := rfl
  obtain ⟨hcount, hentries, hstream, houtbox, hrecord⟩ :=
    @transfer_adopts s fourAssignments redefined hsave
  have hany : ∃ b ∈ fourAssignments, Adopted redefined b := ⟨⟨"e", "w"⟩, .head _, by decide⟩
  rw [if_pos hany] at hrecord
  exact ⟨hsave, hcount, hentries, rfl, rfl, hstream, houtbox, hrecord⟩

end Paywall.AssignmentStore
