import Paywall.Proofs.Decision.Precedence
import Paywall.Proofs.Rule.Matching

/-!
# Speculative requests

A speculative request decides like any other but leaves no trace. What it leaves out comes after the
decision, save for one thing: the event is noted before it is matched. So the decision of a request
is that of a speculative one made once the event is noted, and differs from that of one made before
only if a rule can tell.
-/

namespace Paywall

/-- The same request on its way, without consequences. -/
def Decision.asSpeculative (d : Decision) : Decision := { d with request := d.request.asSpeculative }

namespace Context

variable {c c' : Context} {r : Request} {d : Decision}

/-- The way that a request goes is open to a speculative one that finds its event judged alike. -/
theorem Assigned.asSpeculative (hscene : c'.scene = c.scene) (hstore : c'.assignments = c.assignments)
    (hjudge : ∀ e, r.event? = some e → c'.judge r.asSpeculative e = c.judge r e)
    {x : Except Outcome Decision} {c₁ : Context} (h : Assigned c r x c₁) :
    ∃ c₂, Assigned c' r.asSpeculative (x.map Decision.asSpeculative) c₂ := by
  have huser : c'.user = c.user := congrArg Scene.user hscene
  cases h with
  | direct hr =>
    rw [← huser]
    exact ⟨_, .direct hr⟩
  | eventNotFound hr hj => exact ⟨_, .eventNotFound hr ((hjudge _ hr).trans hj)⟩
  | noRuleMatch hr hj => exact ⟨_, .noRuleMatch hr ((hjudge _ hr).trans hj)⟩
  | noVariant hr hj hs => exact ⟨_, .noVariant hr ((hjudge _ hr).trans hj) (hstore ▸ hs)⟩
  | holdout hr hj hs hv => exact ⟨_, .holdout hr ((hjudge _ hr).trans hj) (hstore ▸ hs) hv⟩
  | treatment hr hj hs hv =>
    rw [← huser]
    exact ⟨_, .treatment hr ((hjudge _ hr).trans hj) (hstore ▸ hs) hv⟩

/-- A speculative request that finds its event judged alike ends alike with what it obtains. -/
theorem outcomeBy_asSpeculative (hscene : c'.scene = c.scene)
    (hstore : c'.assignments = c.assignments)
    (hjudge : ∀ e, r.event? = some e → c'.judge r.asSpeculative e = c.judge r e)
    (get : Sought → Except PaywallError Resource) :
    c'.outcomeBy r.asSpeculative get = c.outcomeBy r get := by
  obtain ⟨x, c₁, h⟩ := exists_assigned c r
  obtain ⟨c₂, h'⟩ := h.asSpeculative hscene hstore hjudge
  cases x with
  | error o => rw [outcomeBy_of_error h, outcomeBy_of_error h']
  | ok d =>
    have hverdict (result : Except PaywallError Resource) :
        c₂.verdict d.asSpeculative result = c₂.verdict d result := by
      cases result <;> rfl
    have hscenes : c₂.scene = c₁.scene := by rw [h'.frame.1, h.frame.1, hscene]
    rw [outcomeBy_of_ok h, outcomeBy_of_ok h', hverdict, verdict_congr hscenes]
    rfl

theorem fetchFor_asSpeculative (hsettings : c'.settings = c.settings) (s : Sought) :
    c'.fetchFor r.asSpeculative s = c.fetchFor r s := by
  simp only [fetchFor, device, hsettings]
  rfl

/-- What is supplied does not depend on whether a request is speculative. -/
theorem supplied_asSpeculative (hscene : c'.scene = c.scene) (hcache : c'.cache = c.cache)
    (answer : Sought → Except PaywallError Resource) :
    c'.supplied r.asSpeculative answer = c.supplied r answer := by
  have hsettings : c'.settings = c.settings := congrArg Scene.settings hscene
  have hmay : c'.mayUseCache r.asSpeculative = c.mayUseCache r := by
    simp only [mayUseCache, hsettings]
    rfl
  funext s
  rw [supplied, supplied, fetchFor_asSpeculative hsettings, hmay, hcache]

theorem answered_asSpeculative (hscene : c'.scene = c.scene) (hcache : c'.cache = c.cache) :
    c'.answered r.asSpeculative = c.answered r := by
  have hsettings : c'.settings = c.settings := congrArg Scene.settings hscene
  funext s
  rw [answered, answered, fetchFor_asSpeculative hsettings, awaited_congr hcache, fetch_congr hscene]

/-- A speculative request decides like one that meets the same scene, cache and assignments and finds
its event judged alike, by itself and among others. -/
theorem alike_asSpeculative (hscene : c'.scene = c.scene) (hcache : c'.cache = c.cache)
    (hstore : c'.assignments = c.assignments)
    (hjudge : ∀ e, r.event? = some e → c'.judge r.asSpeculative e = c.judge r e) :
    (c'.present r.asSpeculative).1 = (c.present r).1 ∧
      ∀ (number number' : Nat) (later later' : Context) (result : Except PaywallError Resource),
        later.settings = c.settings → later'.settings = c.settings →
          c'.presentAmong r.asSpeculative number' later' result =
            c.presentAmong r number later result := by
  have hsettings : c'.settings = c.settings := congrArg Scene.settings hscene
  constructor
  · rw [present_fst, present_fst, answered_asSpeculative hscene hcache,
      supplied_asSpeculative hscene hcache, outcomeBy_asSpeculative hscene hstore hjudge]
  · intro number number' later later' result hlater hlater'
    rw [presentAmong_eq (hlater'.trans hsettings.symm), presentAmong_eq hlater,
      supplied_asSpeculative hscene hcache, outcomeBy_asSpeculative hscene hstore hjudge]

/-- Whether a rule can tell that the event of a request has been noted: it asks for the time since
that very event, and the event is later than any of its name so far. -/
def SeesItself (c : Context) (r : Request) : Prop :=
  ∃ e t, r.event? = some e ∧ (c.campaign.bind fun m => m.trigger? e.name) = some t ∧
    (∃ rule ∈ t.rules, rule.expression ≠ none ∧ ∃ q ∈ rule.elapsed, q.eventName = e.name) ∧
    ∀ last, c.ledger.history.events.get? e.name = some last → last < e.createdAt

/-- An event that has been noted is judged as it is by the request that notes it. -/
theorem judge_recordRequest (e : HostEvent) :
    (c.recordRequest r).judge r.asSpeculative e = c.judge r e := by
  have hnoted : (c.recordRequest r).recordRequest r.asSpeculative = c.recordRequest r :=
    recordRequest_of_speculative rfl
  unfold judge
  rw [hnoted, recordRequest_eq]
  rfl

/-- An event that no rule sees is judged alike before and after it is noted. -/
theorem judge_asSpeculative (h : ¬ c.SeesItself r) {e : HostEvent} (hr : r.event? = some e) :
    c.judge r.asSpeculative e = c.judge r e := by
  have hnoted : c.recordRequest r.asSpeculative = c := recordRequest_of_speculative rfl
  unfold judge
  rw [hnoted]
  rcases c.ledger_recordRequest r with hledger | ⟨e', hr', hledger⟩
  · rw [hledger]
    rfl
  cases hr.symm.trans hr'
  rw [hledger]
  refine matchEvent_congr fun t ht rule hrule => ⟨fun o _ => ?_, fun hx q hq => ?_⟩
  · simp only [Ledger.counter, Ledger.call, History.count_recordEvent]
  · have hlast : (c.ledger.history.recordEvent e.name e.createdAt).events.get? q.eventName =
        c.ledger.history.events.get? q.eventName := by
      by_cases hname : q.eventName = e.name
      · have hsees : ¬ ∀ last, c.ledger.history.events.get? e.name = some last →
            last < e.createdAt := fun hall => h ⟨e, t, hr, ht, ⟨rule, hrule, hx, q, hq, hname⟩, hall⟩
        cases hseen : c.ledger.history.events.get? e.name with
        | none => exact absurd (fun last hlast => by simp [hseen] at hlast) hsees
        | some last =>
          have hlate : ¬ last < e.createdAt := fun hlt =>
            hsees fun l hl => Option.some.inj (hseen.symm.trans hl) ▸ hlt
          simp only [History.recordEvent, hseen, if_neg hlate]
      · exact History.events_recordEvent_of_ne hname
    simp only [Ledger.counter, Ledger.call, hlast]

/-- A request decides as a speculative one does once the event is noted, and as one does that comes
before unless a rule can tell the difference. So it does among others, where both wait for a fetch
that ends with the same result. -/
theorem outcome_of_speculative (c : Context) (r : Request) :
    ((c.recordRequest r).present r.asSpeculative).1 = (c.present r).1 ∧
      (¬ c.SeesItself r → (c.present r.asSpeculative).1 = (c.present r).1) ∧
      ∀ (number number' : Nat) (later later' : Context) (result : Except PaywallError Resource),
        later.settings = c.settings → later'.settings = c.settings →
          (c.recordRequest r).presentAmong r.asSpeculative number' later' result =
              c.presentAmong r number later result ∧
            (¬ c.SeesItself r → c.presentAmong r.asSpeculative number' later' result =
              c.presentAmong r number later result) := by
  obtain ⟨halone, hamong⟩ := alike_asSpeculative (c := c) (r := r) scene_recordRequest
    cache_recordRequest assignments_recordRequest fun e _ => judge_recordRequest e
  refine ⟨halone, fun hblind => ?_, fun number number' later later' result hlater hlater' =>
    ⟨hamong number number' later later' result hlater hlater', fun hblind => ?_⟩⟩
  · exact (alike_asSpeculative rfl rfl rfl fun e hr => judge_asSpeculative hblind hr).1
  · exact (alike_asSpeculative rfl rfl rfl fun e hr => judge_asSpeculative hblind hr).2
      number number' later later' result hlater hlater'

/-! ## A rule that can tell -/

/-- A campaign whose only rule asks for the time since the event that it belongs to. -/
def selfAware : Campaign where
  triggers := [⟨"open", [{
    expression := some "device.minutesSince_open"
    occurrence := none
    experiment := ⟨"e", "g", [⟨"v", 1, .treatment, some "p"⟩]⟩
    elapsed := [⟨.minutes, "open"⟩]
    condition := none }]⟩]
  paywalls := [⟨"p", [], .checkUserSubscription, false, .null, none⟩]
  assignments := []
  requestId := none

/-- Noon on the tenth of May 2024. -/
def noon : Instant := ⟨1715342400, 0⟩

/-- The event of that campaign, at noon. -/
def opening : Request := .forEvent ⟨"open", ∅, noon⟩

/-- Seen for the first time, the event matches the rule once it is noted: the time since then is
zero, and there is none before. -/
theorem opening_sees_itself :
    ∃ c, openWith {} Expression.evaluate .campaign (.ofStored ∅) (.ofHistory (.start noon)) 0 noon =
        .ok c ∧
      ((c.run [.refresh (.ok selfAware)]).2.present opening.asSpeculative).1 ≠
        ((c.run [.refresh (.ok selfAware)]).2.present opening).1 := by
  refine ⟨_, rfl, fun h => ?_⟩
  have hlabel := congrArg Outcome.label h
  revert hlabel
  decide +kernel

/-- The second time it was seen as late as that before, so the speculative request is right. -/
theorem second_opening_foreseen :
    ∃ c, openWith {} Expression.evaluate .campaign (.ofStored ∅) (.ofHistory (.start noon)) 0 noon =
        .ok c ∧
      ¬ (c.run [.refresh (.ok selfAware), .present opening]).2.SeesItself opening ∧
      ((c.run [.refresh (.ok selfAware), .present opening]).2.present opening.asSpeculative).1 =
        ((c.run [.refresh (.ok selfAware), .present opening]).2.present opening).1 := by
  refine ⟨_, rfl, ?_⟩
  generalize hseen : (Context.run _ [.refresh (.ok selfAware), .present opening]).2 = c
  have hlast : c.ledger.history.events.get? "open" = some noon := by
    rw [← hseen]
    decide +kernel
  have hblind : ¬ c.SeesItself opening := by
    rintro ⟨e, t, he, -, -, hlater⟩
    cases he
    exact absurd (hlater noon hlast) (by decide)
  exact ⟨hblind, (outcome_of_speculative c opening).2.1 hblind⟩

end Context

end Paywall
