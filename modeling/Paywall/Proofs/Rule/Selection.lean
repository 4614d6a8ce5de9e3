import Mathlib.Data.List.Forall2
import Paywall.Proofs.Rule.Matching
import Paywall.Proofs.Rule.Survival

/-!
# The first eligible rule

A rule is eligible if its expression holds and its throttle has fired less often than it may. The
check counts the next firing and stays at the largest number, so it says the same as long as no
count comes near that. Matching returns the first eligible rule; if there is none, it reports for
every rule, in their order, the first check that the rule failed. A call that fails speaks against
its own rule only.
-/

namespace Paywall

variable {evaluator : Evaluator} {counter : Counter} {s : Situation}

/-- Whether every count that is given has a successor. -/
def Counter.BelowLimit (counter : Counter) : Prop :=
  ∀ o prior, counter.count o = .ok prior → prior.toNat < UInt32.size - 1

theorem nextCount_le_iff {prior limit : UInt32} (h : prior.toNat < UInt32.size - 1) :
    nextCount prior ≤ limit ↔ prior < limit := by
  have hnext : (nextCount prior).toNat = prior.toNat + 1 := by
    have := toNat_nextCount h
    rwa [UInt32.ofNat_toNat] at this
  rw [UInt32.le_iff_toNat_le, UInt32.lt_iff_toNat_lt, hnext]
  exact Nat.succ_le_iff

namespace Rule

/-- Whether the expression holds, if there is one. -/
def Holds (r : Rule) (evaluator : Evaluator) (counter : Counter) (s : Situation) : Prop :=
  ∀ expression, r.expression = some expression →
    evaluator expression (r.scope counter s) = .ok true

/-- Whether the throttle has fired less often than it may, if there is one. -/
def HasRoom (r : Rule) (counter : Counter) : Prop :=
  ∀ o, r.occurrence = some o → ∃ prior, counter.count o = .ok prior ∧ prior < o.maxCount

/-- Whether nothing speaks against the rule. -/
def Eligible (r : Rule) (evaluator : Evaluator) (counter : Counter) (s : Situation) : Prop :=
  r.Holds evaluator counter s ∧ r.HasRoom counter

/-- What speaks against the rule first. -/
inductive FailsBy (r : Rule) (evaluator : Evaluator) (counter : Counter) (s : Situation) :
    MismatchReason → Prop
  /-- The expression has no answer. -/
  | unanswered {expression : String} {e : EvaluatorError} :
      r.expression = some expression → evaluator expression (r.scope counter s) = .error e →
        FailsBy r evaluator counter s (.evaluatorError e.message)
  /-- The expression is false. -/
  | expression {expression : String} :
      r.expression = some expression → evaluator expression (r.scope counter s) = .ok false →
        FailsBy r evaluator counter s .expression
  /-- The throttle has fired as often as it may, or nobody knows how often. -/
  | occurrence :
      r.Holds evaluator counter s → ¬ r.HasRoom counter → FailsBy r evaluator counter s .occurrence

theorem survives_iff_eligible (hcount : counter.BelowLimit) {r : Rule} :
    r.Survives evaluator counter s ↔ r.Eligible evaluator counter s := by
  refine and_congr_right fun _ => forall₂_congr fun o _ => exists_congr fun prior => ?_
  exact and_congr_right fun hprior => nextCount_le_iff (hcount o prior hprior)

theorem FailsBy.of_checkExpression {r : Rule} {reason : MismatchReason}
    (h : r.checkExpression evaluator counter s = .error reason) :
    r.FailsBy evaluator counter s reason := by
  unfold checkExpression at h
  split at h
  · cases h
  · next expression hexpression =>
    split at h
    · cases h
    · next hfalse =>
      cases h
      exact .expression hexpression hfalse
    · next e herror =>
      cases h
      exact .unanswered hexpression herror

/-- The check of the throttle has only one thing to say. -/
theorem eq_occurrence_of_checkOccurrence {r : Rule} {reason : MismatchReason}
    (h : r.checkOccurrence counter = .error reason) : reason = .occurrence := by
  unfold checkOccurrence at h
  split at h
  · cases h
  · split at h
    · split at h
      · cases h
        rfl
      · cases h
    · cases h
      rfl

theorem FailsBy.of_check (hcount : counter.BelowLimit) {r : Rule} {reason : MismatchReason}
    (h : r.check evaluator counter s = .error reason) : r.FailsBy evaluator counter s reason := by
  have hnot : ¬ r.Eligible evaluator counter s := by
    intro heligible
    have hok := check_eq_ok_iff.mpr ⟨(survives_iff_eligible hcount).mpr heligible, rfl⟩
    rw [hok] at h
    cases h
  unfold check at h
  cases hexpression : r.checkExpression evaluator counter s with
  | error first =>
    rw [hexpression] at h
    cases h
    exact .of_checkExpression hexpression
  | ok _ =>
    rw [hexpression] at h
    have hholds : r.Holds evaluator counter s := checkExpression_eq_ok_iff.mp hexpression
    cases eq_occurrence_of_checkOccurrence h
    exact .occurrence hholds fun hroom => hnot ⟨hholds, hroom⟩

end Rule

/-- Whether a mismatch reports what spoke against a rule. -/
def Mismatch.Reports (m : Mismatch) (r : Rule) (evaluator : Evaluator) (counter : Counter)
    (s : Situation) : Prop :=
  m.experimentId = r.experiment.id ∧ r.FailsBy evaluator counter s m.reason

theorem forall₂_reports_of_firstMatch (hcount : counter.BelowLimit) {rules : List Rule}
    {mismatches : List Mismatch} (h : firstMatch evaluator counter s rules = .error mismatches) :
    List.Forall₂ (fun r m => m.Reports r evaluator counter s) rules mismatches := by
  induction rules generalizing mismatches with
  | nil =>
    cases h
    exact .nil
  | cons r rest ih =>
    rw [firstMatch] at h
    cases hcheck : r.check evaluator counter s with
    | ok unsaved =>
      rw [hcheck] at h
      cases h
    | error reason =>
      rw [hcheck] at h
      cases hrest : firstMatch evaluator counter s rest with
      | ok m =>
        rw [hrest] at h
        cases h
      | error others =>
        rw [hrest] at h
        cases h
        exact .cons ⟨rfl, .of_check hcount hcheck⟩ (ih hrest)

/-- Whether a trigger is the first of an event. -/
def Campaign.FirstTrigger (c : Campaign) (eventName : String) (t : Trigger) : Prop :=
  t.eventName = eventName ∧
    ∃ before after, c.triggers = before ++ t :: after ∧ ∀ u ∈ before, u.eventName ≠ eventName

theorem Campaign.trigger?_eq_some_iff {c : Campaign} {eventName : String} {t : Trigger} :
    c.trigger? eventName = some t ↔ c.FirstTrigger eventName t := by
  rw [trigger?, List.find?_eq_some_iff_append]
  simp [FirstTrigger]

theorem Campaign.trigger?_eq_none_iff {c : Campaign} {eventName : String} :
    c.trigger? eventName = none ↔ ∀ t ∈ c.triggers, t.eventName ≠ eventName := by
  rw [trigger?, List.find?_eq_none]
  simp

/-- An event is not found exactly if there is no campaign or no trigger for it. The first trigger of
the event matches its first eligible rule with the throttle of that rule; if it has no eligible
rule, there is a report for each rule, in their order. -/
theorem matchEvent_first_eligible (hcount : counter.BelowLimit) (campaign : Option Campaign) :
    (matchEvent evaluator counter s campaign = .eventNotFound ↔
      campaign = none ∨
        ∃ c, campaign = some c ∧ ∀ t ∈ c.triggers, t.eventName ≠ s.event.name) ∧
    ∀ c t, campaign = some c → c.FirstTrigger s.event.name t →
      (∀ before r after, t.rules = before ++ r :: after →
        (∀ q ∈ before, ¬ q.Eligible evaluator counter s) → r.Eligible evaluator counter s →
        matchEvent evaluator counter s campaign = .matched ⟨r, r.occurrence⟩) ∧
      ((∀ r ∈ t.rules, ¬ r.Eligible evaluator counter s) →
        ∃ mismatches, matchEvent evaluator counter s campaign = .noMatch mismatches ∧
          List.Forall₂ (fun r m => m.Reports r evaluator counter s) t.rules mismatches) := by
  simp only [← Rule.survives_iff_eligible hcount]
  constructor
  · rw [matchEvent_eq_eventNotFound_iff]
    cases campaign with
    | none => simp
    | some c => simp [Campaign.trigger?_eq_none_iff]
  · rintro c t rfl hfirst
    have htrigger := Campaign.trigger?_eq_some_iff.mpr hfirst
    refine ⟨fun before r after hrules hbefore hr => ?_, fun hnone => ?_⟩
    · exact matchEvent_eq_matched_iff.mpr
        ⟨t, htrigger, ⟨hr, before, after, hrules, hbefore⟩, rfl⟩
    · obtain ⟨mismatches, hmismatches⟩ := firstMatch_eq_error_iff.mpr hnone
      refine ⟨mismatches, ?_, forall₂_reports_of_firstMatch hcount hmismatches⟩
      simp only [matchEvent, Option.bind_some, htrigger, hmismatches]

/-- A counter that has lost one key and has seen every other one twice. -/
def forgetful : Counter where
  count o := if o.key = "lost" then .error (.unavailable "locked") else .ok 2
  lastEvent _ := .error (.unavailable "locked")

/-- Rules that fail in all possible ways. -/
def hurdles : List Rule :=
  [⟨some "user.x >", none, ⟨"a", "g", []⟩, [], none⟩,
    ⟨some "false", none, ⟨"b", "g", []⟩, [], none⟩,
    ⟨none, some ⟨"spent", 2, .today⟩, ⟨"c", "g", []⟩, [], none⟩,
    ⟨none, some ⟨"lost", 2, .today⟩, ⟨"d", "g", []⟩, [], none⟩]

/-- A rule with room for one more firing. -/
def oneMore : Rule := ⟨some "true", some ⟨"fresh", 3, .today⟩, ⟨"e", "g", []⟩, [], none⟩

theorem belowLimit_forgetful : forgetful.BelowLimit := by
  intro o prior h
  unfold forgetful at h
  dsimp only at h
  split at h
  · cases h
  · cases h
    decide

theorem not_eligible_hurdles (s : Situation) :
    ∀ r ∈ hurdles, ¬ r.Eligible Expression.evaluate forgetful s := by
  simp only [hurdles, List.forall_mem_cons]
  refine ⟨?_, ?_, ?_, ?_, List.forall_mem_nil _⟩
  · rintro ⟨hholds, -⟩
    cases hholds _ rfl
  · rintro ⟨hholds, -⟩
    cases hholds _ rfl
  · rintro ⟨-, hroom⟩
    obtain ⟨prior, hprior, hlt⟩ := hroom _ rfl
    cases hprior
    exact absurd hlt (by decide)
  · rintro ⟨-, hroom⟩
    obtain ⟨prior, hprior, hlt⟩ := hroom _ rfl
    cases hprior

/-- Behind these rules the one with room still matches; by themselves they are all reported. -/
theorem matchEvent_behind_hurdles :
    let c : Campaign := ⟨[⟨"open", hurdles ++ [oneMore]⟩, ⟨"close", hurdles⟩], [], [], none⟩
    let opening : Situation := ⟨⟨"open", ∅, ⟨0, 0⟩⟩, ⟨"en", none, none, ∅⟩, ∅, ⟨0, 0⟩⟩
    let closing : Situation := ⟨⟨"close", ∅, ⟨0, 0⟩⟩, ⟨"en", none, none, ∅⟩, ∅, ⟨0, 0⟩⟩
    forgetful.BelowLimit ∧
      matchEvent Expression.evaluate forgetful opening (some c) =
        .matched ⟨oneMore, oneMore.occurrence⟩ ∧
      ∃ mismatches, matchEvent Expression.evaluate forgetful closing (some c) =
          .noMatch mismatches ∧
        List.Forall₂ (fun r m => m.Reports r Expression.evaluate forgetful closing) hurdles
          mismatches := by
  intro c opening closing
  have hopening := (@matchEvent_first_eligible Expression.evaluate _ opening
    belowLimit_forgetful (some c)).2 c _ rfl ⟨rfl, [], _, rfl, List.forall_mem_nil _⟩
  have hclosing := (@matchEvent_first_eligible Expression.evaluate _ closing
    belowLimit_forgetful (some c)).2 c ⟨"close", hurdles⟩ rfl
      ⟨rfl, [⟨"open", hurdles ++ [oneMore]⟩], [], rfl, by simp [closing]⟩
  have heligible : oneMore.Eligible Expression.evaluate forgetful opening := by
    constructor
    · intro expression h
      cases h
      rfl
    · intro o h
      cases h
      exact ⟨2, rfl, by decide⟩
  exact ⟨belowLimit_forgetful,
    hopening.1 hurdles oneMore [] rfl (not_eligible_hurdles opening) heligible,
    hclosing.2 (not_eligible_hurdles closing)⟩

end Paywall
