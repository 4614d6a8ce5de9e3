import Paywall.Proofs.Assignment.Store
import Paywall.Proofs.Decision.Stages
import Paywall.Proofs.Rule.Matching

/-!
# What binds the user to a decision

Four things outlive a request: the confirmed variants, their record, the confirmations posted, and
the firings of throttles. A request changes them only where it ends with a paywall or a holdout for
an event, and then in one way (`Bound`), which happens at two places of the program: at the end of a
request, and inside the resolution of a variant if that is a holdout.
-/

namespace Paywall

/-- Whether an outcome shows the user something that is to last. -/
def Outcome.isBinding : Outcome → Bool
  | .paywall .. | .holdout _ => true
  | _ => false

/-- A ledger once a throttle has fired, if there is one and the ledger counts it. -/
def Ledger.fire (l : Ledger) (throttle : Option Occurrence) (now : Instant) : Ledger :=
  match throttle with
  | none => l
  | some o =>
    { l with history := if .record ∈ l.refused then l.history else l.history.recordAt o.key now }

namespace Context

variable {c : Context} {r : Request}

/-- What outlives a request. -/
structure Commitments where
  confirmed : Assignments
  record : Record
  posts : List ConfirmableAssignment
  firings : Table (List Instant)

/-- What has outlived the requests of a context so far. -/
def commitments (c : Context) : Commitments where
  confirmed := c.assignments.confirmed
  record := c.assignments.record
  posts := c.assignments.outbox
  firings := c.ledger.history.firings

/-- What binding the user to a variant of a matched rule does. -/
structure Bound (c : Context) (m : RuleMatch) (x : AssignedExperiment) (c' : Context) : Prop where
  /-- The matched rule's throttle gains one firing, now, if the history counts it. -/
  fired : ∀ o, m.rule.occurrence = some o → .record ∉ c.ledger.refused → ∀ key,
    c'.ledger.history.firingsOf key =
      c.ledger.history.firingsOf key ++ if key = o.key then [c.now] else []
  /-- No key gains a firing if the rule has no throttle or the history refuses to count it. -/
  unfired : m.rule.occurrence = none ∨ .record ∈ c.ledger.refused →
    c'.ledger.history.firings = c.ledger.history.firings
  /-- The variant is confirmed: it was before, or saving does not fail. -/
  confirmed : c.assignments.confirmed.contains x.id ∨ c.assignments.record.saveFault = none →
    c'.assignments.confirmed.get? x.id = some x.variant
  /-- Where saving fails the confirmed variants stay. -/
  unsaved : c.assignments.record.saveFault ≠ none →
    c'.assignments.confirmed = c.assignments.confirmed
  /-- The confirmed variants of the other experiments stay in any case. -/
  others : ∀ id, id ≠ x.id →
    c'.assignments.confirmed.get? id = c.assignments.confirmed.get? id

/-! ## The parts of a request -/

/-- Noting an event is no firing and refuses nothing. -/
theorem firings_recordRequest (c : Context) (r : Request) :
    (c.recordRequest r).ledger.history.firings = c.ledger.history.firings ∧
      (c.recordRequest r).ledger.refused = c.ledger.refused := by
  rcases c.ledger_recordRequest r with h | ⟨e, -, h⟩
  · rw [h]
    exact ⟨rfl, rfl⟩
  · rw [h]
    exact ⟨History.firings_recordEvent .., rfl⟩

theorem commitments_recordRequest : (c.recordRequest r).commitments = c.commitments := by
  simp only [commitments, assignments_recordRequest, (firings_recordRequest c r).1]

/-- Resolving a variant binds nobody. -/
theorem commitments_of_resolve {c' : Context} {e : Experiment}
    (hstore : c'.assignments = (c.assignments.resolve e).2)
    (hledger : c'.ledger = (c.recordRequest r).ledger) : c'.commitments = c.commitments := by
  obtain ⟨hconfirmed, hrecord⟩ := c.assignments.confirmed_record_resolve e
  have hfirings := (firings_recordRequest c r).1
  simp only [commitments, hstore, hledger, hconfirmed, hrecord, c.assignments.outbox_resolve e,
    hfirings]

/-! ## Committing -/

theorem commit_of_speculative {d : Decision} (h : d.request.speculative = true) :
    c.commit d = c := by
  rw [commit, if_pos h]

theorem commit_start (c : Context) (r : Request) (user : User) :
    c.commit (.start r user) = c := by
  unfold commit
  split <;> rfl

theorem assignments_commit (c : Context) (user : User) (m : RuleMatch) (v : ResolvedVariant)
    (h : r.speculative = false) :
    (c.commit (.ofVariant r user m v)).assignments =
      if v.confirmable then (c.assignments.confirm ⟨m.rule.experiment.id, v.variant⟩).2
      else c.assignments := by
  have hspec : ¬ (Decision.ofVariant r user m v).request.speculative := by
    simp [Decision.ofVariant, h]
  have hcount (c : Context) (d : Decision) : (c.recordOccurrence d).assignments = c.assignments := by
    unfold recordOccurrence
    split
    · rfl
    · split <;> rfl
  rw [commit, if_neg hspec, hcount]
  cases hv : v.confirmable <;> simp [confirmAssignment, Decision.ofVariant, RuleMatch.assigned, hv]

theorem ledger_commit (c : Context) (d : Decision) :
    (c.commit d).ledger =
      if d.request.speculative then c.ledger else c.ledger.fire (d.matched.bind (·.unsaved)) c.now := by
  have hconfirm : c.confirmAssignment d =
      { c with assignments := (c.confirmAssignment d).assignments } := by
    unfold confirmAssignment
    split <;> rfl
  unfold commit
  split
  · rfl
  · rw [hconfirm]
    unfold recordOccurrence Ledger.fire
    cases d.matched.bind (·.unsaved) with
    | none => rfl
    | some o =>
      simp only [Ledger.record, Ledger.call, List.contains_iff_mem]
      by_cases hrefused : CounterCall.record ∈ c.ledger.refused
      · simp [hrefused]
      · simp [hrefused]

theorem history_commit (c : Context) (user : User) (m : RuleMatch) (v : ResolvedVariant)
    (h : r.speculative = false) :
    (c.commit (.ofVariant r user m v)).ledger.history =
      match m.unsaved with
      | none => c.ledger.history
      | some o =>
        if .record ∈ c.ledger.refused then c.ledger.history
        else c.ledger.history.recordAt o.key c.now := by
  have hspec : ¬ (Decision.ofVariant r user m v).request.speculative := by
    simp [Decision.ofVariant, h]
  rw [ledger_commit, if_neg hspec]
  simp only [Decision.ofVariant, Option.bind_some]
  cases m.unsaved with
  | none => rfl
  | some o => rfl

/-- A variant that has been resolved is bound to the user by committing. -/
theorem bound_commit {c₁ : Context} {m : RuleMatch} {v : ResolvedVariant}
    (hr : r.speculative = false) (hm : m.unsaved = m.rule.occurrence)
    (hs : c.assignments.resolve m.rule.experiment = (.ok v, c₁.assignments))
    (hkept : c₁.commitments = c.commitments) (hrefused : c₁.ledger.refused = c.ledger.refused)
    (hnow : c₁.now = c.now) :
    Bound c m (m.assigned v) (c₁.commit (.ofVariant r c.user m v)) := by
  obtain ⟨hconfirmed, hrecord, -, hfirings⟩ := Commitments.mk.inj hkept
  have hhistory := c₁.history_commit c.user m v hr
  have hresolved := AssignmentStore.confirmed_of_resolve hs
  rw [hm, hrefused, hnow] at hhistory
  have hbehind : (c₁.commit (.ofVariant r c.user m v)).assignments.confirmed =
      if v.confirmable ∧ c.assignments.record.saveFault = none then
        c.assignments.confirmed.insert m.rule.experiment.id v.variant
      else c.assignments.confirmed := by
    rw [assignments_commit c₁ c.user m v hr]
    cases hv : v.confirmable with
    | false => simp [hconfirmed]
    | true =>
      have hnone : c₁.assignments.confirmed.get? m.rule.experiment.id = none := by
        rw [hconfirmed, hresolved, hv]
        rfl
      rw [if_pos rfl, AssignmentStore.confirmed_confirm hnone, hconfirmed, hrecord]
      simp
  refine ⟨fun o ho hcounted key => ?_, fun h => ?_, fun h => ?_, fun h => ?_, fun id hid => ?_⟩
  · rw [hhistory, ho]
    simp only [hcounted, if_false, History.firingsOf_recordAt]
    rw [History.firingsOf, hfirings, ← History.firingsOf]
  · rw [hhistory]
    cases ho : m.rule.occurrence with
    | none => exact hfirings
    | some o =>
      have hin : CounterCall.record ∈ c.ledger.refused := h.resolve_left (by simp [ho])
      simp only [hin, if_true]
      exact hfirings
  · rw [hbehind]
    cases hv : v.confirmable with
    | false =>
      rw [if_neg (by simp), RuleMatch.assigned, hresolved, hv]
      rfl
    | true =>
      have hsaved : c.assignments.record.saveFault = none := by
        refine h.resolve_left ?_
        simp [Table.contains, RuleMatch.assigned, hresolved, hv]
      simp [hsaved, RuleMatch.assigned]
  · rw [hbehind, if_neg fun hsaved => h hsaved.2]
  · rw [hbehind]
    split
    · rw [Table.get?_insert, if_neg fun h => hid h.symm]
    · rfl

/-! ## Presenting -/

/-- A request ends by presenting a paywall and committing, or binds nobody. -/
theorem finish_cases (c : Context) (d : Decision) (result : Except PaywallError Resource) :
    (∃ (p : Resource) (c' : Context),
      c.finish d result = (.paywall (d.present p) d.experiment, c'.commit d) ∧
        c'.assignments = c.assignments ∧ c'.ledger = c.ledger ∧ c'.scene = c.scene) ∨
    ((c.finish d result).1.isBinding = false ∧
      (c.finish d result).2.assignments = c.assignments ∧
      (c.finish d result).2.ledger = c.ledger) := by
  cases result with
  | error cause => exact Or.inr ⟨rfl, rfl, rfl⟩
  | ok p =>
    simp only [finish_ok]
    split
    · exact Or.inr ⟨rfl, rfl, rfl⟩
    · exact Or.inl ⟨p, _, rfl, rfl, rfl, rfl⟩

theorem conclude_cases (c : Context) (d : Decision) :
    (∃ (p : Resource) (c' : Context),
      c.conclude d = (.paywall (d.present p) d.experiment, c'.commit d) ∧
        c'.assignments = c.assignments ∧ c'.ledger = c.ledger ∧ c'.scene = c.scene) ∨
    ((c.conclude d).1.isBinding = false ∧
      (c.conclude d).2.assignments = c.assignments ∧ (c.conclude d).2.ledger = c.ledger) := by
  obtain ⟨result, served, heq, hscene, hstore, hledger⟩ := c.conclude_eq_finish d
  rw [heq, ← hscene, ← hstore, ← hledger]
  exact finish_cases served d result

/-- A request that is past no rule has nothing to commit to. -/
theorem finish_start_frame (c : Context) (r : Request) (user : User)
    (result : Except PaywallError Resource) :
    (c.finish (.start r user) result).2.assignments = c.assignments ∧
      (c.finish (.start r user) result).2.ledger = c.ledger := by
  rcases finish_cases c (.start r user) result with ⟨p, c', heq, hstore, hledger, -⟩ | ⟨-, hkept⟩
  · rw [heq, commit_start]
    exact ⟨hstore, hledger⟩
  · exact hkept

theorem conclude_start_frame (c : Context) (r : Request) (user : User) :
    (c.conclude (.start r user)).2.assignments = c.assignments ∧
      (c.conclude (.start r user)).2.ledger = c.ledger := by
  obtain ⟨result, served, heq, -, hstore, hledger⟩ := c.conclude_eq_finish (.start r user)
  rw [heq, ← hstore, ← hledger]
  exact finish_start_frame served r user result

/-- What a request may do to what outlives it. -/
structure Disciplined (c : Context) (r : Request) (o : Outcome) (c' : Context) : Prop where
  /-- A request that is speculative, asks for a paywall by name or presents nothing binds nobody. -/
  unbound : r.speculative ∨ r.event? = none ∨ o.isBinding = false → c'.commitments = c.commitments
  /-- The event of a speculative request is not even noted. -/
  unnoted : r.speculative → c'.ledger = c.ledger
  /-- A request for an event that is not speculative binds the user to the variant it presents. -/
  bound : ∀ e, r.event? = some e → r.speculative = false → o.isBinding →
    ∃ m x, c.judge r e = .matched m ∧ o.experiment? = some x ∧ x.id = m.rule.experiment.id ∧
      Bound c m x c'

/-- A request is disciplined if it changes nothing but the events that are noted. -/
theorem disciplined_of_kept {o : Outcome} {c' : Context} (hkept : c'.commitments = c.commitments)
    (hledger : c'.ledger = (c.recordRequest r).ledger)
    (ho : r.event? = none ∨ o.isBinding = false) : Disciplined c r o c' where
  unbound _ := hkept
  unnoted hr := by rw [hledger, recordRequest_of_speculative hr]
  bound e he _ hbinding := by
    rcases ho with ho | ho
    · rw [ho] at he
      cases he
    · rw [ho] at hbinding
      cases hbinding

theorem disciplined_commit {e : HostEvent} {m : RuleMatch} {v : ResolvedVariant} {o : Outcome}
    {c₁ : Context} (hr : r.event? = some e) (hj : c.judge r e = .matched m)
    (hs : c.assignments.resolve m.rule.experiment = (.ok v, c₁.assignments))
    (hledger : c₁.ledger = (c.recordRequest r).ledger) (hnow : c₁.now = c.now)
    (hbinding : o.isBinding) (ho : o.experiment? = some (m.assigned v)) :
    Disciplined c r o (c₁.commit (.ofVariant r c.user m v)) := by
  have hstore : c₁.assignments = (c.assignments.resolve m.rule.experiment).2 := by rw [hs]
  have hkept : c₁.commitments = c.commitments := commitments_of_resolve hstore hledger
  refine ⟨fun h => ?_, fun h => ?_, fun e' he' hspec _ => ?_⟩
  · rcases h with h | h | h
    · rw [commit_of_speculative h, hkept]
    · rw [hr] at h
      cases h
    · rw [hbinding] at h
      cases h
  · rw [commit_of_speculative h, hledger, recordRequest_of_speculative h]
  · rw [hr] at he'
    cases he'
    have hrefused : c₁.ledger.refused = c.ledger.refused := by
      rw [hledger, (firings_recordRequest c r).2]
    exact ⟨m, m.assigned v, hj, ho, rfl,
      bound_commit hspec (unsaved_of_matchEvent hj) hs hkept hrefused hnow⟩

/-- A request that ends before it asks for a paywall is disciplined. -/
theorem disciplined_of_error {o : Outcome} {c₁ : Context} (h : Assigned c r (.error o) c₁) :
    Disciplined c r o c₁ := by
  have hnow : (c.recordRequest r).now = c.now := congrArg Scene.now scene_recordRequest
  cases h with
  | eventNotFound hr hj | noRuleMatch hr hj =>
    exact disciplined_of_kept commitments_recordRequest rfl (Or.inr rfl)
  | noVariant hr hj hs =>
    exact disciplined_of_kept (commitments_of_resolve (congrArg Prod.snd hs).symm rfl) rfl
      (Or.inr rfl)
  | holdout hr hj hs hv => exact disciplined_commit hr hj hs rfl hnow rfl rfl

/-- A request that asks for a paywall is disciplined whatever it gets, unless others have bound the user
to something meanwhile. -/
theorem disciplined_finish {d : Decision} {c₁ : Context} (h : Assigned c r (.ok d) c₁)
    (later : Context) (hscene : later.scene = c₁.scene) (hstore : later.assignments = c₁.assignments)
    (hledger : later.ledger = c₁.ledger) (result : Except PaywallError Resource) :
    Disciplined c r (later.finish d result).1 (later.finish d result).2 := by
  have hnow : later.now = c.now := congrArg Scene.now (hscene.trans h.frame.1)
  cases h with
  | direct hr =>
    have hkept := later.finish_start_frame r c.user result
    refine disciplined_of_kept ?_ ?_ (Or.inl hr)
    · simp only [commitments, hkept, hstore, hledger]
    · rw [hkept.2, hledger, recordRequest_of_direct hr]
  | @treatment e m v s hr hj hs hv =>
    rcases finish_cases later (.ofVariant r c.user m v) result with
      ⟨p, c', heq, hstore', hledger', hscene'⟩ | ⟨hbinding, hstore', hledger'⟩
    · rw [heq]
      have hresolved : c.assignments.resolve m.rule.experiment = (.ok v, c'.assignments) := by
        rw [hs, hstore', hstore]
        rfl
      have hnow' : c'.now = later.now := congrArg Scene.now hscene'
      exact disciplined_commit hr hj hresolved (hledger'.trans hledger) (hnow'.trans hnow) rfl rfl
    · have hresolved : (c.fired r m v s).assignments =
          (c.assignments.resolve m.rule.experiment).2 := by rw [hs]; rfl
      have hkept := hledger'.trans hledger
      exact disciplined_of_kept
        (commitments_of_resolve (hstore'.trans (hstore.trans hresolved)) hkept) hkept
        (Or.inr hbinding)

/-- Requests bind users to what they present, and to nothing else: by themselves, and among others that
bind nobody while they wait, with whatever result. -/
theorem disciplined_present (c : Context) (r : Request) :
    Disciplined c r (c.present r).1 (c.present r).2 ∧
      ∀ number, match c.begin r number with
        | (.error o, ended) => Disciplined c r o ended
        | (.ok w, begun) => ∀ cache events fetches result,
          let ended := { begun with cache, events, fetches }.finish w.decision result
          Disciplined c r ended.1 ended.2 := by
  obtain ⟨x, c₁, h⟩ := exists_assigned c r
  cases x with
  | error o =>
    rw [present_of_error h]
    simp only [begin_eq, h.eq]
    exact ⟨disciplined_of_error h, fun _ => disciplined_of_error h⟩
  | ok d =>
    obtain ⟨result, served, heq, hscene, hstore, hledger⟩ := c₁.conclude_eq_finish d
    rw [present_of_ok h, heq]
    simp only [begin_eq, h.eq]
    refine ⟨disciplined_finish h served hscene hstore hledger result,
      fun number cache events fetches result => ?_⟩
    exact disciplined_finish h { (c₁.askForPaywall d number).2 with cache, events, fetches } rfl rfl rfl
      result

end Context

end Paywall
