import Paywall.Rule.Matching

/-!
# The first rule that survives

A rule survives if its expression holds and its throttle has room for one more firing. Matching
finds the first such rule of the trigger, and none only if there is none.
-/

namespace Paywall

variable {evaluator : Evaluator} {counter : Counter} {s : Situation}

namespace Rule

/-- Whether the expression holds, if there is one, and the next firing would not exceed the throttle,
if there is one. A question that fails is answered by neither. -/
def Survives (r : Rule) (evaluator : Evaluator) (counter : Counter) (s : Situation) : Prop :=
  (∀ expression, r.expression = some expression →
    evaluator expression (r.scope counter s) = .ok true) ∧
  ∀ o, r.occurrence = some o → ∃ prior, counter.count o = .ok prior ∧ nextCount prior ≤ o.maxCount

theorem checkExpression_eq_ok_iff {r : Rule} :
    r.checkExpression evaluator counter s = .ok () ↔
      ∀ expression, r.expression = some expression →
        evaluator expression (r.scope counter s) = .ok true := by
  unfold checkExpression
  cases r.expression with
  | none => simp
  | some expression =>
    cases hx : evaluator expression (r.scope counter s) with
    | error e => simp [hx]
    | ok b => cases b <;> simp [hx]

theorem checkOccurrence_eq_ok_iff {r : Rule} {unsaved : Option Occurrence} :
    r.checkOccurrence counter = .ok unsaved ↔
      unsaved = r.occurrence ∧ ∀ o, r.occurrence = some o →
        ∃ prior, counter.count o = .ok prior ∧ nextCount prior ≤ o.maxCount := by
  unfold checkOccurrence
  cases r.occurrence with
  | none => simp [eq_comm]
  | some o =>
    cases hc : counter.count o with
    | error e => simp [hc]
    | ok prior =>
      by_cases hfull : o.maxCount < nextCount prior
      · simp [hc, hfull]
      · simp [hc, hfull, UInt32.not_lt.mp hfull, eq_comm]

/-- The checks pass exactly the rules that survive, each with its own throttle. -/
theorem check_eq_ok_iff {r : Rule} {unsaved : Option Occurrence} :
    r.check evaluator counter s = .ok unsaved ↔
      r.Survives evaluator counter s ∧ unsaved = r.occurrence := by
  have hbind : r.check evaluator counter s = .ok unsaved ↔
      r.checkExpression evaluator counter s = .ok () ∧ r.checkOccurrence counter = .ok unsaved := by
    unfold check
    cases r.checkExpression evaluator counter s with
    | error reason => simp [Bind.bind, Except.bind]
    | ok _ => simp [Bind.bind, Except.bind]
  rw [hbind, checkExpression_eq_ok_iff, checkOccurrence_eq_ok_iff]
  constructor
  · rintro ⟨hexpression, hunsaved, hthrottle⟩
    exact ⟨⟨hexpression, hthrottle⟩, hunsaved⟩
  · rintro ⟨⟨hexpression, hthrottle⟩, hunsaved⟩
    exact ⟨hexpression, hunsaved, hthrottle⟩

/-- Whether a rule of a list survives and none in front of it does. -/
def SurvivesFirst (r : Rule) (rules : List Rule) (evaluator : Evaluator) (counter : Counter)
    (s : Situation) : Prop :=
  r.Survives evaluator counter s ∧
    ∃ before after, rules = before ++ r :: after ∧ ∀ q ∈ before, ¬ q.Survives evaluator counter s

theorem survivesFirst_cons_iff {r q : Rule} {rest : List Rule} :
    q.SurvivesFirst (r :: rest) evaluator counter s ↔
      r.Survives evaluator counter s ∧ q = r ∨
        ¬ r.Survives evaluator counter s ∧ q.SurvivesFirst rest evaluator counter s := by
  constructor
  · rintro ⟨hq, before, after, hsplit, hbefore⟩
    cases before with
    | nil =>
      obtain ⟨rfl, -⟩ := List.cons.inj hsplit
      exact Or.inl ⟨hq, rfl⟩
    | cons p before =>
      obtain ⟨rfl, hrest⟩ := List.cons.inj hsplit
      obtain ⟨hr, hbefore⟩ := List.forall_mem_cons.mp hbefore
      exact Or.inr ⟨hr, hq, before, after, hrest, hbefore⟩
  · rintro (⟨hr, rfl⟩ | ⟨hr, hq, before, after, hrest, hbefore⟩)
    · exact ⟨hr, [], rest, rfl, List.forall_mem_nil _⟩
    · refine ⟨hq, r :: before, after, ?_, List.forall_mem_cons.mpr ⟨hr, hbefore⟩⟩
      rw [hrest, List.cons_append]

end Rule

/-! ## Matching -/

theorem firstMatch_cons_of_survives {r : Rule} (hr : r.Survives evaluator counter s)
    (rest : List Rule) : firstMatch evaluator counter s (r :: rest) = .ok ⟨r, r.occurrence⟩ := by
  rw [firstMatch, Rule.check_eq_ok_iff.mpr ⟨hr, rfl⟩]

/-- A rule that does not survive is passed by. -/
theorem firstMatch_cons_of_not_survives {r : Rule} (hr : ¬ r.Survives evaluator counter s)
    {rest : List Rule} {m : RuleMatch} :
    firstMatch evaluator counter s (r :: rest) = .ok m ↔
      firstMatch evaluator counter s rest = .ok m := by
  rw [firstMatch]
  cases hcheck : r.check evaluator counter s with
  | ok unsaved => exact absurd (Rule.check_eq_ok_iff.mp hcheck).1 hr
  | error reason => cases firstMatch evaluator counter s rest <;> simp

theorem firstMatch_eq_ok_iff {rules : List Rule} {m : RuleMatch} :
    firstMatch evaluator counter s rules = .ok m ↔
      m.rule.SurvivesFirst rules evaluator counter s ∧ m.unsaved = m.rule.occurrence := by
  induction rules with
  | nil =>
    constructor
    · intro h
      cases h
    · rintro ⟨⟨-, before, after, hsplit, -⟩, -⟩
      cases before <;> cases hsplit
  | cons r rest ih =>
    rw [Rule.survivesFirst_cons_iff]
    by_cases hr : r.Survives evaluator counter s
    · rw [firstMatch_cons_of_survives hr, Except.ok.injEq]
      obtain ⟨q, unsaved⟩ := m
      simp only [RuleMatch.mk.injEq, hr, true_and, not_true, false_and, or_false]
      constructor
      · rintro ⟨rfl, rfl⟩
        exact ⟨rfl, rfl⟩
      · rintro ⟨rfl, rfl⟩
        exact ⟨rfl, rfl⟩
    · rw [firstMatch_cons_of_not_survives hr, ih]
      simp only [hr, false_and, not_false_iff, true_and, false_or]

/-- No rule matches exactly if none survives. -/
theorem firstMatch_eq_error_iff {rules : List Rule} :
    (∃ mismatches, firstMatch evaluator counter s rules = .error mismatches) ↔
      ∀ r ∈ rules, ¬ r.Survives evaluator counter s := by
  induction rules with
  | nil => exact ⟨fun _ => List.forall_mem_nil _, fun _ => ⟨[], rfl⟩⟩
  | cons r rest ih =>
    rw [List.forall_mem_cons, ← ih]
    by_cases hr : r.Survives evaluator counter s
    · rw [firstMatch_cons_of_survives hr]
      simp [hr]
    · have hcons : ∀ m, firstMatch evaluator counter s (r :: rest) = .ok m ↔
          firstMatch evaluator counter s rest = .ok m :=
        fun m => firstMatch_cons_of_not_survives hr
      simp only [hr, not_false_iff, true_and]
      cases hall : firstMatch evaluator counter s (r :: rest) with
      | ok m => simp [(hcons m).mp hall]
      | error mismatches =>
        cases hrest : firstMatch evaluator counter s rest with
        | ok m => rw [(hcons m).mpr hrest] at hall; cases hall
        | error others => simp

section

variable {campaign : Option Campaign}

theorem matchEvent_eq_eventNotFound_iff :
    matchEvent evaluator counter s campaign = .eventNotFound ↔
      (campaign.bind fun c => c.trigger? s.event.name) = none := by
  unfold matchEvent
  cases campaign.bind fun c => c.trigger? s.event.name with
  | none => simp
  | some t => cases hm : firstMatch evaluator counter s t.rules <;> simp [hm]

theorem matchEvent_eq_noMatch_iff :
    (∃ mismatches, matchEvent evaluator counter s campaign = .noMatch mismatches) ↔
      ∃ t, (campaign.bind fun c => c.trigger? s.event.name) = some t ∧
        ∀ r ∈ t.rules, ¬ r.Survives evaluator counter s := by
  unfold matchEvent
  cases campaign.bind fun c => c.trigger? s.event.name with
  | none => simp
  | some t =>
    simp only [Option.some.injEq, exists_eq_left', ← firstMatch_eq_error_iff]
    cases firstMatch evaluator counter s t.rules <;> simp

theorem matchEvent_eq_matched_iff {m : RuleMatch} :
    matchEvent evaluator counter s campaign = .matched m ↔
      ∃ t, (campaign.bind fun c => c.trigger? s.event.name) = some t ∧
        m.rule.SurvivesFirst t.rules evaluator counter s ∧ m.unsaved = m.rule.occurrence := by
  unfold matchEvent
  cases campaign.bind fun c => c.trigger? s.event.name with
  | none => simp
  | some t =>
    simp only [Option.some.injEq, exists_eq_left', ← firstMatch_eq_ok_iff]
    cases firstMatch evaluator counter s t.rules <;> simp

end

end Paywall
