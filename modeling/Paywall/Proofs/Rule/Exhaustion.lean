import Mathlib.Data.List.Perm.Subperm
import Mathlib.Data.Nat.Find
import Paywall.Proofs.Rule.Matching
import Paywall.Proofs.Rule.Survival

/-!
# More firings never move a match up

A further firing can only use up a throttle. The expressions of the rules do not see firings, so a
rule that survives many firings has survived fewer, and the first rule that survives the fewer
stands where that of the many stands, or in front of it.
-/

namespace Paywall

/-! ## Histories with more firings -/

/-- Whether a history has seen the same session and the same events as an earlier one and all of its
firings, in whatever order, and maybe others. -/
structure History.Extends (later earlier : History) : Prop where
  sessionStart : later.sessionStart = earlier.sessionStart
  events : later.events = earlier.events
  firings : ∀ key, (earlier.firingsOf key).Subperm (later.firingsOf key)

namespace History.Extends

variable {earlier middle later : History}

theorem refl (h : History) : h.Extends h := ⟨rfl, rfl, fun _ => .refl _⟩

theorem trans (h : later.Extends middle) (h' : middle.Extends earlier) : later.Extends earlier :=
  ⟨h.sessionStart.trans h'.sessionStart, h.events.trans h'.events,
    fun key => (h'.firings key).trans (h.firings key)⟩

/-- A history is extended by each firing that it notes. -/
theorem recordAt (h : later.Extends earlier) (key : String) (time : Instant) :
    (later.recordAt key time).Extends earlier := by
  have hnoted : (later.recordAt key time).Extends later := by
    refine ⟨rfl, rfl, fun k => ?_⟩
    rw [firingsOf_recordAt]
    exact (List.sublist_append_left _ _).subperm
  exact hnoted.trans h

theorem countSince_le (h : later.Extends earlier) (key : String) (start : Option Instant) :
    earlier.countSince key start ≤ later.countSince key start :=
  ((h.firings key).filter _).length_le

/-- In a history that is extended the next firing has a higher number or the same. -/
theorem nextCount_le (h : later.Extends earlier) {o : Occurrence}
    (hfew : (later.firingsOf o.key).length < UInt32.size - 1) (now : Instant) :
    nextCount (earlier.count o now) ≤ nextCount (later.count o now) := by
  have hlater : later.countSince o.key (o.window.start now (some later.sessionStart)) <
      UInt32.size - 1 := Nat.lt_of_le_of_lt (List.length_filter_le ..) hfew
  have hle := h.countSince_le o.key (o.window.start now (some later.sessionStart))
  unfold History.count
  rw [← h.sessionStart, UInt32.le_iff_toNat_le, toNat_nextCount hlater,
    toNat_nextCount (Nat.lt_of_le_of_lt hle hlater)]
  exact Nat.succ_le_succ hle

end History.Extends

/-! ## What survives more firings -/

section

variable {evaluator : Evaluator} {s : Situation} {now : Instant} {earlier later : History}

/-- The expressions of rules see the events of a history and nothing else. -/
theorem Rule.scope_of_extends (h : later.Extends earlier) (r : Rule) :
    r.scope (earlier.counter now) s = r.scope (later.counter now) s := by
  unfold Rule.scope
  rw [elapsedVariables_congr fun q _ => ?_]
  unfold History.counter
  simp only [h.events]

theorem Rule.Survives.of_extends {r : Rule} (h : later.Extends earlier)
    (hfew : ∀ key, (later.firingsOf key).length < UInt32.size - 1)
    (hr : r.Survives evaluator (later.counter now) s) :
    r.Survives evaluator (earlier.counter now) s := by
  obtain ⟨hexpression, hthrottle⟩ := hr
  refine ⟨?_, fun o ho => ⟨_, rfl, ?_⟩⟩
  · rw [Rule.scope_of_extends h]
    exact hexpression
  · obtain ⟨prior, hprior, hroom⟩ := hthrottle o ho
    cases hprior
    exact UInt32.le_trans (h.nextCount_le (hfew o.key) now) hroom

end

/-! ## Where the match stands -/

section

variable {evaluator : Evaluator} {counter : Counter} {s : Situation} {campaign : Option Campaign}

/-- Whether an event is matched by the rule at an index of its trigger, after the rules in front of
it have been passed by. -/
def MatchesAt (evaluator : Evaluator) (counter : Counter) (s : Situation)
    (campaign : Option Campaign) (i : Nat) : Prop :=
  ∃ t m, (campaign.bind fun c => c.trigger? s.event.name) = some t ∧
    matchEvent evaluator counter s campaign = .matched m ∧ t.rules[i]? = some m.rule ∧
    ∀ r ∈ t.rules.take i, ¬ r.Survives evaluator counter s

/-- A rule that survives is matched, unless one in front of it is. -/
theorem exists_matchesAt_le {t : Trigger} {r : Rule} {j : Nat}
    (ht : (campaign.bind fun c => c.trigger? s.event.name) = some t) (hj : t.rules[j]? = some r)
    (hr : r.Survives evaluator counter s) :
    ∃ i ≤ j, MatchesAt evaluator counter s campaign i := by
  classical
  have hexists : ∃ i, ∃ q : Rule, t.rules[i]? = some q ∧ q.Survives evaluator counter s :=
    ⟨j, r, hj, hr⟩
  obtain ⟨q, hi, hq⟩ := Nat.find_spec hexists
  have hpassed : ∀ p ∈ t.rules.take (Nat.find hexists), ¬ p.Survives evaluator counter s := by
    intro p hp hsurvives
    obtain ⟨k, hk, rfl⟩ := List.mem_take_iff_getElem.mp hp
    have hlt : k < Nat.find hexists := by omega
    exact Nat.find_min hexists hlt ⟨_, List.getElem?_eq_getElem (by omega), hsurvives⟩
  have hsplit : t.rules = t.rules.take (Nat.find hexists) ++
      q :: t.rules.drop (Nat.find hexists + 1) := by
    obtain ⟨hlt, hget⟩ := List.getElem?_eq_some_iff.mp hi
    rw [← hget, List.getElem_cons_drop, List.take_append_drop]
  refine ⟨_, Nat.find_min' hexists ⟨r, hj, hr⟩, t, ⟨q, q.occurrence⟩, ht, ?_, hi, hpassed⟩
  exact matchEvent_eq_matched_iff.mpr ⟨t, ht, ⟨hq, _, _, hsplit, hpassed⟩, rfl⟩

/-- If an event is matched after more firings, it is matched after fewer, and by the same rule or
one in front of it. -/
theorem matchesAt_of_fewer_firings {earlier later : History} {now : Instant} {j : Nat}
    (h : later.Extends earlier) (hfew : ∀ key, (later.firingsOf key).length < UInt32.size - 1)
    (hj : MatchesAt evaluator (later.counter now) s campaign j) :
    ∃ i ≤ j, MatchesAt evaluator (earlier.counter now) s campaign i := by
  obtain ⟨t, m, ht, hmatch, hm, -⟩ := hj
  obtain ⟨_, _, hfirst, _⟩ := matchEvent_eq_matched_iff.mp hmatch
  exact exists_matchesAt_le ht hm (hfirst.1.of_extends h hfew)

end

/-- A rule that may match once a day and wants to know of its own event. -/
def onceDaily : Rule :=
  ⟨some "device.minutesSince_open", some ⟨"k", 1, .today⟩, ⟨"e", "g", []⟩, [⟨.minutes, "open"⟩],
    none⟩

/-- A rule that always matches. -/
def always : Rule := ⟨none, none, ⟨"f", "g", []⟩, [], none⟩

/-- An event that both rules may match is matched by the second once the first has fired, so some
rule up to that one matches it before. -/
theorem matchesAt_onceDaily :
    let noon : Instant := ⟨1715342400, 0⟩
    let s : Situation := ⟨⟨"open", ∅, noon⟩, ⟨"en", none, none, ∅⟩, ∅, noon⟩
    let c : Campaign := ⟨[⟨"open", [onceDaily, always]⟩], [], [], none⟩
    let earlier := ((History.start noon).recordEvent "open" noon).recordAt "j" noon
    let later := earlier.recordAt "k" noon
    later.Extends earlier ∧ (∀ key, (later.firingsOf key).length < UInt32.size - 1) ∧
      MatchesAt Expression.evaluate (later.counter noon) s (some c) 1 ∧
      ∃ i ≤ 1, MatchesAt Expression.evaluate (earlier.counter noon) s (some c) i := by
  intro noon s c earlier later
  have hextends : later.Extends earlier := (History.Extends.refl earlier).recordAt "k" noon
  have hfew : ∀ key, (later.firingsOf key).length < UInt32.size - 1 := by
    intro key
    have hnone : ((History.start noon).recordEvent "open" noon).firingsOf key = [] := rfl
    rw [History.firingsOf_recordAt, History.firingsOf_recordAt, hnone]
    split <;> split <;> decide
  have hpassed : ∀ r ∈ [onceDaily],
      ¬ r.Survives Expression.evaluate (later.counter noon) s := by
    intro r hr
    cases List.mem_singleton.mp hr
    rintro ⟨-, hroom⟩
    obtain ⟨prior, hprior, hle⟩ := hroom _ rfl
    cases hprior
    exact absurd hle (by decide +kernel)
  have hsurvives : always.Survives Expression.evaluate (later.counter noon) s := by
    constructor
    · rintro _ ⟨⟩
    · rintro _ ⟨⟩
  have hlater : MatchesAt Expression.evaluate (later.counter noon) s (some c) 1 :=
    ⟨_, ⟨always, none⟩, rfl,
      matchEvent_eq_matched_iff.mpr ⟨_, rfl, ⟨hsurvives, [onceDaily], [], rfl, hpassed⟩, rfl⟩, rfl,
      hpassed⟩
  exact ⟨hextends, hfew, hlater, matchesAt_of_fewer_firings hextends hfew hlater⟩

end Paywall
