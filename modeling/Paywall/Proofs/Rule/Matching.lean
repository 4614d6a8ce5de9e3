import Paywall.Proofs.Campaign.Window
import Paywall.Rule.Matching
import Paywall.Table.Lemmas

/-!
# What matching reads and returns

Of the history a rule reads how often its throttle fired and, if it has an expression, when the
events were last seen that it asks about; histories that agree on these match alike. A rule that
matches returns its own throttle, to be counted later.
-/

namespace Paywall

/-! ## The history -/

theorem History.firingsOf_recordAt (h : History) (key k : String) (time : Instant) :
    (h.recordAt key time).firingsOf k = h.firingsOf k ++ if k = key then [time] else [] := by
  unfold History.recordAt History.firingsOf
  rw [Table.get?_insert]
  by_cases hk : k = key
  · subst hk
    simp
  · simp [hk, Ne.symm hk]

/-- A count is the number of firings in the window. -/
theorem History.count_eq (h : History) (o : Occurrence) (now : Instant) :
    h.count o now =
      .ofNat ((h.firingsOf o.key).countP (o.window.holds now h.sessionStart)) := by
  unfold History.count History.countSince
  rw [List.countP_eq_length_filter]
  cases hstart : o.window.start now (some h.sessionStart) with
  | none =>
    have hholds : o.window.holds now h.sessionStart = fun _ => true := by
      funext t
      rw [Window.holds, hstart]
    rw [hholds]
  | some s =>
    have hholds : o.window.holds now h.sessionStart = fun t => decide (s ≤ t) := by
      funext t
      rw [Window.holds, hstart]
    rw [hholds]

/-- Noting an event changes nothing but its latest time. -/
theorem History.recordEvent_eq (h : History) (name : String) (time : Instant) :
    h.recordEvent name time = { h with events := (h.recordEvent name time).events } := by
  unfold History.recordEvent
  split
  · rfl
  · split <;> rfl

@[simp] theorem History.firings_recordEvent (h : History) (name : String) (time : Instant) :
    (h.recordEvent name time).firings = h.firings := by
  rw [History.recordEvent_eq]

@[simp] theorem History.count_recordEvent (h : History) (name : String) (time : Instant)
    (o : Occurrence) (now : Instant) : (h.recordEvent name time).count o now = h.count o now := by
  rw [History.recordEvent_eq]
  rfl

/-- Noting an event does not change when others were seen. -/
theorem History.events_recordEvent_of_ne {h : History} {name other : String} {time : Instant}
    (hne : other ≠ name) : (h.recordEvent name time).events.get? other = h.events.get? other := by
  unfold History.recordEvent
  split
  · rw [Table.get?_insert, if_neg hne.symm]
  · split
    · rw [Table.get?_insert, if_neg hne.symm]
    · rfl

/-! ## What a match returns -/

theorem checkOccurrence_of_check {rule : Rule} {evaluator : Evaluator} {counter : Counter}
    {s : Situation} {unsaved : Option Occurrence}
    (h : rule.check evaluator counter s = .ok unsaved) :
    rule.checkOccurrence counter = .ok unsaved := by
  simp only [Rule.check] at h
  cases hx : rule.checkExpression evaluator counter s with
  | ok _ => rwa [hx] at h
  | error reason => rw [hx] at h; cases h

/-- A rule passes with its own throttle, which the next firing does not exceed. -/
theorem throttle_of_check {rule : Rule} {evaluator : Evaluator} {counter : Counter} {s : Situation}
    {unsaved : Option Occurrence} (h : rule.check evaluator counter s = .ok unsaved) :
    unsaved = rule.occurrence ∧ ∀ o, rule.occurrence = some o →
      ∃ prior, counter.count o = .ok prior ∧ nextCount prior ≤ o.maxCount := by
  have hthrottle := checkOccurrence_of_check h
  unfold Rule.checkOccurrence at hthrottle
  cases ho : rule.occurrence with
  | none =>
    rw [ho] at hthrottle
    cases hthrottle
    exact ⟨rfl, fun o h => by cases h⟩
  | some o =>
    rw [ho] at hthrottle
    simp only at hthrottle
    cases hc : counter.count o with
    | ok prior =>
      simp only [hc] at hthrottle
      split at hthrottle
      · cases hthrottle
      · next hle =>
        cases hthrottle
        refine ⟨rfl, fun o' ho' => ?_⟩
        cases ho'
        exact ⟨prior, hc, UInt32.not_lt.mp hle⟩
    | error _ => simp only [hc, reduceCtorEq] at hthrottle

/-- The rule that matches has passed its check. -/
theorem check_of_firstMatch {evaluator : Evaluator} {counter : Counter} {s : Situation}
    {rules : List Rule} {m : RuleMatch} (h : firstMatch evaluator counter s rules = .ok m) :
    m.rule.check evaluator counter s = .ok m.unsaved := by
  induction rules with
  | nil => cases h
  | cons rule rest ih =>
    simp only [firstMatch] at h
    cases hcheck : rule.check evaluator counter s with
    | ok unsaved =>
      rw [hcheck] at h
      cases h
      exact hcheck
    | error reason =>
      rw [hcheck] at h
      cases hrest : firstMatch evaluator counter s rest with
      | ok m' =>
        rw [hrest] at h
        cases h
        exact ih hrest
      | error mismatches =>
        rw [hrest] at h
        cases h

theorem check_of_matchEvent {evaluator : Evaluator} {counter : Counter} {s : Situation}
    {campaign : Option Campaign} {m : RuleMatch}
    (h : matchEvent evaluator counter s campaign = .matched m) :
    m.rule.check evaluator counter s = .ok m.unsaved := by
  unfold matchEvent at h
  split at h
  · cases h
  · next trigger _ =>
    cases hm : firstMatch evaluator counter s trigger.rules with
    | ok m' =>
      rw [hm] at h
      cases h
      exact check_of_firstMatch hm
    | error mismatches =>
      rw [hm] at h
      cases h

/-- A rule that matches has its own throttle counted. -/
theorem unsaved_of_matchEvent {evaluator : Evaluator} {counter : Counter} {s : Situation}
    {campaign : Option Campaign} {m : RuleMatch}
    (h : matchEvent evaluator counter s campaign = .matched m) : m.unsaved = m.rule.occurrence :=
  (throttle_of_check (check_of_matchEvent h)).1

/-! ## How often a throttle lets a rule match -/

/-- As long as a count is not near the largest number, its successor is one more. -/
theorem toNat_nextCount {n : Nat} (h : n < UInt32.size - 1) :
    (nextCount (.ofNat n)).toNat = n + 1 := by
  have hn : n < UInt32.size := by omega
  have hsize : n + 1 < UInt32.size := by omega
  have hsucc : (UInt32.ofNat n + 1).toNat = n + 1 := by
    rw [UInt32.toNat_add, UInt32.toNat_ofNat_of_lt' hn]
    exact Nat.mod_eq_of_lt hsize
  have hne : UInt32.ofNat n + 1 ≠ 0 := by
    intro hzero
    rw [hzero] at hsucc
    cases hsucc
  rw [nextCount, if_neg hne, hsucc]

/-! ## What matching reads -/

section

variable {evaluator : Evaluator} {counter counter' : Counter} {s : Situation}

theorem elapsedVariables_congr {requests : List ElapsedRequest} {now : Instant}
    (h : ∀ q ∈ requests, counter'.lastEvent q.eventName = counter.lastEvent q.eventName) :
    elapsedVariables requests counter' now = elapsedVariables requests counter now := by
  unfold elapsedVariables
  generalize (∅ : Table Value) = table
  induction requests generalizing table with
  | nil => rfl
  | cons q rest ih =>
    obtain ⟨hq, hrest⟩ := List.forall_mem_cons.mp h
    rw [List.foldl_cons, List.foldl_cons, hq, ih hrest]

/-- Whether two histories look the same to a rule. -/
structure Rule.Agrees (r : Rule) (counter counter' : Counter) : Prop where
  count : ∀ o, r.occurrence = some o → counter'.count o = counter.count o
  lastEvent : r.expression ≠ none → ∀ q ∈ r.elapsed,
    counter'.lastEvent q.eventName = counter.lastEvent q.eventName

theorem Rule.Agrees.check_eq {r : Rule} (h : r.Agrees counter counter') :
    r.check evaluator counter' s = r.check evaluator counter s := by
  have hexpression :
      r.checkExpression evaluator counter' s = r.checkExpression evaluator counter s := by
    unfold Rule.checkExpression
    cases hx : r.expression with
    | none => rfl
    | some expression =>
      have hscope : r.scope counter' s = r.scope counter s := by
        unfold Rule.scope
        rw [elapsedVariables_congr (h.lastEvent (by simp [hx]))]
      simp only [hscope]
  have hthrottle : r.checkOccurrence counter' = r.checkOccurrence counter := by
    unfold Rule.checkOccurrence
    cases ho : r.occurrence with
    | none => rfl
    | some o => simp only [h.count o ho]
  rw [Rule.check, Rule.check, hexpression, hthrottle]

theorem firstMatch_congr {rules : List Rule} (h : ∀ r ∈ rules, r.Agrees counter counter') :
    firstMatch evaluator counter' s rules = firstMatch evaluator counter s rules := by
  induction rules with
  | nil => rfl
  | cons r rest ih =>
    obtain ⟨hr, hrest⟩ := List.forall_mem_cons.mp h
    rw [firstMatch, firstMatch, hr.check_eq, ih hrest]

/-- Histories that look the same to the rules of an event match it alike. -/
theorem matchEvent_congr {campaign : Option Campaign}
    (h : ∀ t, (campaign.bind fun c => c.trigger? s.event.name) = some t →
      ∀ r ∈ t.rules, r.Agrees counter counter') :
    matchEvent evaluator counter' s campaign = matchEvent evaluator counter s campaign := by
  unfold matchEvent
  cases ht : campaign.bind fun c => c.trigger? s.event.name with
  | none => rfl
  | some t => simp only [firstMatch_congr (h t ht)]

end

end Paywall
