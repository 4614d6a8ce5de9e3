import Paywall.Proofs.Assignment.Drawing
import Paywall.Proofs.Decision.Serving
import Paywall.Proofs.Rule.Survival

/-!
# Which outcome a request has

The stages of a request are ordered, so of two reasons to end it the earlier one counts. Put the
other way round, each of the six outcomes has a condition of its own on the context and the request:
on the campaign, the rules that survive, the assignments, what is obtained for a paywall, and the
subscription. The conditions are stated without the stages; of the paywall they only know what was
obtained for it, by the request itself or by one that it has waited for.
-/

namespace Paywall

namespace AssignmentStore

variable {s : AssignmentStore} {e : Experiment}

/-- Whether no variant is to be had: none is assigned and none is offered. -/
def Lacks (s : AssignmentStore) (e : Experiment) : Prop :=
  s.confirmed.get? e.id = none ∧ s.unconfirmed.get? e.id = none ∧ e.variants = []

theorem resolve_of_lacks (h : s.Lacks e) : (s.resolve e).1 = .error (.draw .noVariants) := by
  obtain ⟨hconfirmed, hunconfirmed, hvariants⟩ := h
  have hdraw : s.draw e.variants = (.error .noVariants, { s with stream := s.stream }) := by
    rw [draw, hvariants, chooseVariant_nil]
  unfold resolve
  rw [hconfirmed, hunconfirmed, hdraw]

/-- Resolving fails only for want of a variant. -/
theorem lacks_of_resolve {error : AssignmentError} (h : (s.resolve e).1 = .error error) :
    s.Lacks e := by
  unfold resolve at h
  cases hc : s.confirmed.get? e.id with
  | some v => simp [hc] at h
  | none =>
    cases hu : s.unconfirmed.get? e.id with
    | some v => simp [hc, hu] at h
    | none =>
      refine ⟨hc, hu, ?_⟩
      by_cases hvariants : e.variants = []
      · exact hvariants
      · obtain ⟨o, -, stream, hchoice⟩ := exists_chooseVariant hvariants s.stream
        simp [hc, hu, draw, hchoice] at h

end AssignmentStore

/-- What a request is after, once it has passed its rules. -/
structure Sought where
  identifier : Option String
  /-- The condition of the rule, which replaces that of the paywall. -/
  condition : Option PresentationCondition
  experiment : Option AssignedExperiment

/-- What a decision is after. -/
def Decision.sought (d : Decision) : Sought :=
  ⟨d.identifier, d.matched.bind (·.rule.condition), d.experiment⟩

namespace Context

variable {c later : Context} {r : Request} {e : HostEvent} {rule : Rule} {v : ResolvedVariant}
  {s : Sought} {d : Decision} {get : Sought → Except PaywallError Resource} {o : Outcome}

/-! ## Conditions -/

/-- The trigger of an event, in the campaign that is loaded. -/
def trigger? (c : Context) (e : HostEvent) : Option Trigger :=
  c.campaign.bind fun m => m.trigger? e.name

/-- What the rules see of the history. The event has been noted by then. -/
def noted (c : Context) (r : Request) : Counter := (c.recordRequest r).ledger.counter c.now

/-- What the rules see of everything else. -/
def scenery (c : Context) (e : HostEvent) : Situation := ⟨e, c.device, c.user.attributes, c.now⟩

/-- Whether a rule survives the event of a request. -/
def Survives (c : Context) (r : Request) (e : HostEvent) (rule : Rule) : Prop :=
  rule.Survives c.evaluator (c.noted r) (c.scenery e)

/-- Whether a rule is the first of its trigger to survive. -/
def Fires (c : Context) (r : Request) (rule : Rule) : Prop :=
  ∃ e t, r.event? = some e ∧ c.trigger? e = some t ∧
    rule.SurvivesFirst t.rules c.evaluator (c.noted r) (c.scenery e)

/-- A request is after the paywall that it names, or after that of a treatment. -/
inductive Seeks (c : Context) (r : Request) : Sought → Prop where
  | named {identifier : String} (hr : r.paywallIdentifier = some identifier) :
      Seeks c r ⟨some identifier, none, none⟩
  | treatment {rule : Rule} {v : ResolvedVariant} (hrule : c.Fires r rule)
      (hv : (c.assignments.resolve rule.experiment).1 = .ok v)
      (hkind : v.variant.kind = .treatment) :
      Seeks c r ⟨v.variant.paywallId, rule.condition,
        some ⟨rule.experiment.id, rule.experiment.groupId, v.variant⟩⟩

/-- Whether a request may be served from the cache. -/
def mayUseCache (c : Context) (r : Request) : Bool :=
  !(r.preview || c.settings.debug.preview) && r.overrides.allowCache && c.settings.cache.enabled

/-- The fetch for what a request is after. -/
def fetchFor (c : Context) (r : Request) (s : Sought) : FetchRequest :=
  ⟨s.identifier, r.eventName, c.device.locale,
    requestKey s.identifier r.eventName c.device.locale⟩

/-- What a request gets for a paywall: what is cached, if it may use that, else the answer to a
fetch. -/
def supplied (c : Context) (r : Request) (answer : Sought → Except PaywallError Resource)
    (s : Sought) : Except PaywallError Resource :=
  match c.cache.cached? (c.fetchFor r s).key with
  | some p => if c.mayUseCache r then .ok p else answer s
  | none => answer s

/-- The answer to a fetch, for a request that is by itself: to the one that is under way for its key,
if there is one, else to its own. -/
def answered (c : Context) (r : Request) (s : Sought) : Except PaywallError Resource :=
  c.fetch (c.awaited (c.fetchFor r s))

/-- Whether the subscription keeps a paywall from the user. -/
def Bars (c : Context) (r : Request) (s : Sought) (p : Resource) : Prop :=
  c.user.subscribed = true ∧ r.preview = false ∧ c.settings.debug.preview = false ∧
    r.overrides.ignoreSubscription = false ∧ s.condition.getD p.condition ≠ .always

/-- The condition of each outcome. `get` says what is obtained. -/
structure Precedence (c : Context) (r : Request) (get : Sought → Except PaywallError Resource)
    (o : Outcome) : Prop where
  eventNotFound : o = .eventNotFound ↔ ∃ e, r.event? = some e ∧ c.trigger? e = none
  noRuleMatch : (∃ mismatches, o = .noRuleMatch mismatches) ↔
    ∃ e t, r.event? = some e ∧ c.trigger? e = some t ∧ ∀ rule ∈ t.rules, ¬ c.Survives r e rule
  holdout : ∀ x, o = .holdout x ↔
    ∃ rule v, c.Fires r rule ∧ (c.assignments.resolve rule.experiment).1 = .ok v ∧
      v.variant.kind = .holdout ∧ x = ⟨rule.experiment.id, rule.experiment.groupId, v.variant⟩
  error : ∀ cause, o = .error cause ↔
    (∃ rule, c.Fires r rule ∧ c.assignments.Lacks rule.experiment ∧
      cause = .ofAssignment (.draw .noVariants)) ∨
    ∃ s, c.Seeks r s ∧ get s = .error cause
  skipped : ∀ reason, o = .skipped reason ↔
    ∃ s p, c.Seeks r s ∧ get s = .ok p ∧ c.Bars r s p
  paywall : ∀ shown x, o = .paywall shown x ↔
    ∃ s p, c.Seeks r s ∧ get s = .ok p ∧ ¬ c.Bars r s p ∧ x = s.experiment ∧
      shown = p.finalize s.experiment c.user.purchased r.overrides.freeTrial

/-! ## The stages -/

theorem fires_iff : c.Fires r rule ↔
    ∃ e, r.event? = some e ∧ c.judge r e = .matched ⟨rule, rule.occurrence⟩ := by
  constructor
  · rintro ⟨e, t, hr, ht, hrule⟩
    exact ⟨e, hr, matchEvent_eq_matched_iff.mpr ⟨t, ht, hrule, rfl⟩⟩
  · rintro ⟨e, hr, hj⟩
    obtain ⟨t, ht, hrule, -⟩ := matchEvent_eq_matched_iff.mp hj
    exact ⟨e, t, hr, ht, hrule⟩

theorem fires_of_judge {m : RuleMatch} (hr : r.event? = some e) (hj : c.judge r e = .matched m) :
    c.Fires r m.rule := by
  obtain ⟨t, ht, hrule, -⟩ := matchEvent_eq_matched_iff.mp hj
  exact ⟨e, t, hr, ht, hrule⟩

/-- A request that is about no event names a paywall. -/
theorem exists_paywallIdentifier (hr : r.event? = none) :
    ∃ identifier, r.paywallIdentifier = some identifier := by
  obtain ⟨subject, overrides, preview, speculative⟩ := r
  cases subject with
  | event e => cases hr
  | paywall identifier => exact ⟨identifier, rfl⟩

/-- A request that names a paywall is about no event. -/
theorem event?_of_paywallIdentifier {identifier : String}
    (hr : r.paywallIdentifier = some identifier) : r.event? = none := by
  obtain ⟨subject, overrides, preview, speculative⟩ := r
  cases subject with
  | event e => cases hr
  | paywall identifier => rfl

/-- The outcome of a request, by what is obtained for what it is after. -/
def outcomeBy (c : Context) (r : Request) (get : Sought → Except PaywallError Resource) : Outcome :=
  match c.assign r with
  | (.error o, _) => o
  | (.ok d, later) => later.verdict d (get d.sought)

theorem outcomeBy_of_error (h : Assigned c r (.error o) later) : c.outcomeBy r get = o := by
  rw [outcomeBy, h.eq]

theorem outcomeBy_of_ok (h : Assigned c r (.ok d) later) :
    c.outcomeBy r get = later.verdict d (get d.sought) := by
  rw [outcomeBy, h.eq]

/-- What a request is after, it brings along to the end. -/
theorem Seeks.exists_assigned (hs : c.Seeks r s) :
    ∃ d later, Assigned c r (.ok d) later ∧ d.sought = s ∧ d.request = r ∧ d.user = c.user := by
  cases hs with
  | named hr =>
    refine ⟨_, _, .direct (event?_of_paywallIdentifier hr), ?_, rfl, rfl⟩
    simp [Decision.sought, Decision.identifier, Decision.start, hr]
  | @treatment rule v hrule hv hkind =>
    obtain ⟨e, hr, hj⟩ := fires_iff.mp hrule
    refine ⟨_, _, .treatment hr hj (Prod.ext hv rfl) hkind, ?_, rfl, rfl⟩
    have hname : r.paywallIdentifier = none := by
      cases h : r.paywallIdentifier with
      | none => rfl
      | some identifier =>
        rw [event?_of_paywallIdentifier h] at hr
        cases hr
    simp [Decision.sought, Decision.identifier, Decision.ofVariant, RuleMatch.assigned, hname]

theorem isSkipped_iff (hscene : later.scene = c.scene) (hr : d.request = r) (hu : d.user = c.user)
    (p : Resource) : later.isSkipped d (d.present p) = true ↔ c.Bars r d.sought p := by
  have hsettings : later.settings = c.settings := congrArg Scene.settings hscene
  have hcondition : (d.present p).condition = p.condition := rfl
  simp only [isSkipped, isPreview, Bars, Decision.condition, Decision.sought, hsettings, hr, hu,
    hcondition, Bool.and_eq_true, Bool.not_eq_true', Bool.or_eq_false_iff, bne_iff_ne]
  constructor
  · rintro ⟨⟨⟨hsubscribed, hpreview, hdebug⟩, hignore⟩, hnot⟩
    exact ⟨hsubscribed, hpreview, hdebug, hignore, hnot⟩
  · rintro ⟨hsubscribed, hpreview, hdebug, hignore, hnot⟩
    exact ⟨⟨⟨hsubscribed, hpreview, hdebug⟩, hignore⟩, hnot⟩

/-- The ways in which a request ends. No two of them can be had for one request. -/
inductive Ends (c : Context) (r : Request) (get : Sought → Except PaywallError Resource) :
    Outcome → Prop where
  | eventNotFound {e : HostEvent} (hr : r.event? = some e) (ht : c.trigger? e = none) :
      Ends c r get .eventNotFound
  | noRuleMatch {e : HostEvent} {ms : List Mismatch} (hr : r.event? = some e)
      (hj : c.judge r e = .noMatch ms) : Ends c r get (.noRuleMatch ms)
  | noVariant {rule : Rule} (hrule : c.Fires r rule) (hlacks : c.assignments.Lacks rule.experiment) :
      Ends c r get (.error (.ofAssignment (.draw .noVariants)))
  | holdout {rule : Rule} {v : ResolvedVariant} (hrule : c.Fires r rule)
      (hv : (c.assignments.resolve rule.experiment).1 = .ok v) (hkind : v.variant.kind = .holdout) :
      Ends c r get (.holdout ⟨rule.experiment.id, rule.experiment.groupId, v.variant⟩)
  | unobtained {s : Sought} {cause : PaywallError} (hs : c.Seeks r s) (hget : get s = .error cause) :
      Ends c r get (.error cause)
  | skipped {s : Sought} {p : Resource} (hs : c.Seeks r s) (hget : get s = .ok p)
      (hbars : c.Bars r s p) : Ends c r get (.skipped .subscribed)
  | paywall {s : Sought} {p : Resource} (hs : c.Seeks r s) (hget : get s = .ok p)
      (hbars : ¬ c.Bars r s p) : Ends c r get
        (.paywall (p.finalize s.experiment c.user.purchased r.overrides.freeTrial) s.experiment)

/-- The outcome is the one of the way in which the request ends. -/
theorem Ends.eq (h : Ends c r get o) : c.outcomeBy r get = o := by
  cases h with
  | eventNotFound hr ht =>
    exact outcomeBy_of_error (.eventNotFound hr (matchEvent_eq_eventNotFound_iff.mpr ht))
  | noRuleMatch hr hj => exact outcomeBy_of_error (.noRuleMatch hr hj)
  | noVariant hrule hlacks =>
    obtain ⟨e, hr, hj⟩ := fires_iff.mp hrule
    exact outcomeBy_of_error
      (.noVariant hr hj (Prod.ext (AssignmentStore.resolve_of_lacks hlacks) rfl))
  | holdout hrule hv hkind =>
    obtain ⟨e, hr, hj⟩ := fires_iff.mp hrule
    exact outcomeBy_of_error (.holdout hr hj (Prod.ext hv rfl) hkind)
  | unobtained hs hget =>
    obtain ⟨d, later, h, rfl, -, -⟩ := hs.exists_assigned
    rw [outcomeBy_of_ok h, hget, verdict]
  | skipped hs hget hbars =>
    obtain ⟨d, later, h, rfl, hr, hu⟩ := hs.exists_assigned
    rw [outcomeBy_of_ok h, hget, verdict, if_pos ((isSkipped_iff h.frame.1 hr hu _).mpr hbars)]
  | paywall hs hget hbars =>
    obtain ⟨d, later, h, rfl, hr, hu⟩ := hs.exists_assigned
    have hskipped := fun hskipped => hbars ((isSkipped_iff h.frame.1 hr hu _).mp hskipped)
    rw [outcomeBy_of_ok h, hget, verdict, if_neg hskipped, Decision.present, hr, hu]
    rfl

/-- A request that is after something ends, whatever is obtained for it. -/
theorem Seeks.exists_ends (hs : c.Seeks r s) : ∃ o, Ends c r get o := by
  cases hget : get s with
  | error cause => exact ⟨_, .unobtained hs hget⟩
  | ok p =>
    by_cases hbars : c.Bars r s p
    · exact ⟨_, .skipped hs hget hbars⟩
    · exact ⟨_, .paywall hs hget hbars⟩

/-- Every request ends, whatever is obtained for it. -/
theorem exists_ends (c : Context) (r : Request) (get : Sought → Except PaywallError Resource) :
    ∃ o, Ends c r get o := by
  obtain ⟨x, later, h⟩ := exists_assigned c r
  cases h with
  | direct hr =>
    obtain ⟨identifier, hidentifier⟩ := exists_paywallIdentifier hr
    exact Seeks.exists_ends (.named hidentifier)
  | eventNotFound hr hj => exact ⟨_, .eventNotFound hr (matchEvent_eq_eventNotFound_iff.mp hj)⟩
  | noRuleMatch hr hj => exact ⟨_, .noRuleMatch hr hj⟩
  | noVariant hr hj hs =>
    have hlacks := AssignmentStore.lacks_of_resolve (congrArg Prod.fst hs)
    exact ⟨_, .noVariant (fires_of_judge hr hj) hlacks⟩
  | holdout hr hj hs hv =>
    exact ⟨_, .holdout (fires_of_judge hr hj) (congrArg Prod.fst hs) hv⟩
  | treatment hr hj hs hv =>
    exact Seeks.exists_ends (.treatment (fires_of_judge hr hj) (congrArg Prod.fst hs) hv)

theorem ends_outcomeBy : Ends c r get (c.outcomeBy r get) := by
  obtain ⟨o, h⟩ := exists_ends c r get
  rw [h.eq]
  exact h

/-- The outcome of a request meets the condition of that outcome, and of no other. -/
theorem precedence_outcomeBy : Precedence c r get (c.outcomeBy r get) where
  eventNotFound := by
    constructor
    · intro ho
      cases ho ▸ ends_outcomeBy with
      | eventNotFound hr ht => exact ⟨_, hr, ht⟩
    · rintro ⟨e, hr, ht⟩
      exact (Ends.eventNotFound hr ht).eq
  noRuleMatch := by
    constructor
    · rintro ⟨ms, ho⟩
      cases ho ▸ ends_outcomeBy with
      | noRuleMatch hr hj =>
        obtain ⟨t, ht, hnone⟩ := matchEvent_eq_noMatch_iff.mp ⟨_, hj⟩
        exact ⟨_, t, hr, ht, hnone⟩
    · rintro ⟨e, t, hr, ht, hnone⟩
      obtain ⟨ms, hj⟩ : ∃ ms, c.judge r e = .noMatch ms :=
        matchEvent_eq_noMatch_iff.mpr ⟨t, ht, hnone⟩
      exact ⟨ms, (Ends.noRuleMatch hr hj).eq⟩
  holdout := by
    intro x
    constructor
    · intro ho
      cases ho ▸ ends_outcomeBy with
      | holdout hrule hv hkind => exact ⟨_, _, hrule, hv, hkind, rfl⟩
    · rintro ⟨rule, v, hrule, hv, hkind, rfl⟩
      exact (Ends.holdout hrule hv hkind).eq
  error := by
    intro cause
    constructor
    · intro ho
      cases ho ▸ ends_outcomeBy with
      | noVariant hrule hlacks => exact Or.inl ⟨_, hrule, hlacks, rfl⟩
      | unobtained hs hget => exact Or.inr ⟨_, hs, hget⟩
    · rintro (⟨rule, hrule, hlacks, rfl⟩ | ⟨s, hs, hget⟩)
      · exact (Ends.noVariant hrule hlacks).eq
      · exact (Ends.unobtained hs hget).eq
  skipped := by
    intro reason
    constructor
    · intro ho
      cases ho ▸ ends_outcomeBy with
      | skipped hs hget hbars => exact ⟨_, _, hs, hget, hbars⟩
    · rintro ⟨s, p, hs, hget, hbars⟩
      cases reason
      exact (Ends.skipped hs hget hbars).eq
  paywall := by
    intro shown x
    constructor
    · intro ho
      cases ho ▸ ends_outcomeBy with
      | paywall hs hget hbars => exact ⟨_, _, hs, hget, hbars, rfl, rfl⟩
    · rintro ⟨s, p, hs, hget, hbars, rfl, rfl⟩
      exact (Ends.paywall hs hget hbars).eq

end Context

end Paywall
