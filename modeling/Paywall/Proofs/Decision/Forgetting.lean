import Paywall.Proofs.Assignment.Likeness
import Paywall.Proofs.Cache.Renumbering
import Paywall.Proofs.Decision.Serving

/-!
# What a reset leaves of a user

Contexts are alike if they differ only in what no answer depends on: the numbers of the fetches, what
the record holds, and what has been reported and fetched so far. They answer every step alike and stay
alike. A context that has been reset is alike to one that nobody has used, but for one thing: it still
knows whether the user is a subscriber.
-/

namespace Paywall

/-- A request that waits, under other numbers for the fetches. -/
def Waiting.renumber (number : Nat → Nat) (w : Waiting) : Waiting :=
  { w with resolution := w.resolution.renumber number }

/-- A request among others, under other numbers for the fetches. -/
def Context.Progress.renumber (number : Nat → Nat) : Context.Progress → Context.Progress
  | .ended outcome => .ended outcome
  | .waiting w => .waiting (w.renumber number)

namespace Context

variable {c c' : Context} {k : Nat} {r : Request} {d : Decision}

/-- The context `c'` differs from `c` only in the numbers of the fetches, which are larger by `k`, in
what the record and the outbox hold, and in what has been reported and fetched. -/
structure Alike (k : Nat) (c c' : Context) : Prop where
  scene : c'.scene = c.scene
  ledger : c'.ledger = c.ledger
  assignments : c.assignments.Alike c'.assignments
  cache : c.cache.Shifted k c'.cache

/-- Operations with one answer, that leave contexts alike. -/
def AnswerAlike {α : Type} (k : Nat) (x x' : α × Context) : Prop := x'.1 = x.1 ∧ Alike k x.2 x'.2

theorem AnswerAlike.exists_eq {α : Type} {x x' : α × Context} (h : AnswerAlike k x x') :
    ∃ a c c', x = (a, c) ∧ x' = (a, c') ∧ Alike k c c' :=
  ⟨x.1, x.2, x'.2, rfl, Prod.ext h.1 rfl, h.2⟩

namespace Alike

/-! ## The parts of a request -/

theorem emit (h : Alike k c c') (kind : EventKind) (name : Option String)
    (f f' : DecisionEvent → DecisionEvent) : Alike k (c.emit kind name f) (c'.emit kind name f') :=
  ⟨h.scene, h.ledger, h.assignments, h.cache⟩

theorem settings_eq (h : Alike k c c') : c'.settings = c.settings := congrArg Scene.settings h.scene

theorem campaign_eq (h : Alike k c c') : c'.campaign = c.campaign := congrArg Scene.campaign h.scene

theorem user_eq (h : Alike k c c') : c'.user = c.user := congrArg Scene.user h.scene

theorem now_eq (h : Alike k c c') : c'.now = c.now := congrArg Scene.now h.scene

theorem recordRequest (h : Alike k c c') (r : Request) :
    Alike k (c.recordRequest r) (c'.recordRequest r) := by
  refine ⟨?_, ?_, ?_, ?_⟩
  · rw [scene_recordRequest, scene_recordRequest, h.scene]
  · unfold Context.recordRequest
    rw [h.ledger]
    cases r.event? with
    | none => exact h.ledger
    | some e =>
      simp only
      split
      · exact h.ledger
      · cases c.ledger.recordEvent e.name e.createdAt with
        | ok ledger => rfl
        | error error => exact h.ledger
  · rw [assignments_recordRequest, assignments_recordRequest]
    exact h.assignments
  · rw [cache_recordRequest, cache_recordRequest]
    exact h.cache

theorem judge_eq (h : Alike k c c') (e : HostEvent) : c'.judge r e = c.judge r e := by
  have hevaluator : c'.evaluator = c.evaluator := congrArg Scene.evaluator h.scene
  simp only [judge, situation, device, h.settings_eq, h.campaign_eq, h.user_eq, h.now_eq, hevaluator,
    (h.recordRequest r).ledger]

theorem confirmAssignment (h : Alike k c c') (d : Decision) :
    Alike k (c.confirmAssignment d) (c'.confirmAssignment d) := by
  unfold Context.confirmAssignment
  split
  · next e _ _ =>
    obtain ⟨-, hbehind⟩ := h.assignments.confirm ⟨e.id, e.variant⟩
    exact ⟨h.scene, h.ledger, hbehind, h.cache⟩
  · exact h

theorem recordOccurrence (h : Alike k c c') (d : Decision) :
    Alike k (c.recordOccurrence d) (c'.recordOccurrence d) := by
  unfold Context.recordOccurrence
  cases d.matched.bind (·.unsaved) with
  | none => exact h
  | some o =>
    have hrecord : c'.ledger.record o c'.now = c.ledger.record o c.now := by rw [h.ledger, h.now_eq]
    simp only [hrecord]
    cases c.ledger.record o c.now with
    | ok ledger => exact ⟨h.scene, rfl, h.assignments, h.cache⟩
    | error error => exact h

theorem commit (h : Alike k c c') (d : Decision) : Alike k (c.commit d) (c'.commit d) := by
  unfold Context.commit
  split
  · exact h
  · exact (h.confirmAssignment d).recordOccurrence d

/-- The way that a request goes in one context is open to it in the other. -/
theorem assigned (h : Alike k c c') {x : Except Outcome Decision} {c₁ : Context}
    (ha : Assigned c r x c₁) : ∃ c₁', Assigned c' r x c₁' ∧ Alike k c₁ c₁' := by
  have hnoted := h.recordRequest r
  have hresolve {m : RuleMatch} {result : Except AssignmentError ResolvedVariant}
      {s : AssignmentStore} (hs : c.assignments.resolve m.rule.experiment = (result, s)) :
      ∃ s', c'.assignments.resolve m.rule.experiment = (result, s') ∧
        Alike k { c.recordRequest r with assignments := s }
          { c'.recordRequest r with assignments := s' } := by
    obtain ⟨hresult, hbehind⟩ := h.assignments.resolve m.rule.experiment
    rw [hs] at hresult hbehind
    exact ⟨(c'.assignments.resolve m.rule.experiment).2, Prod.ext hresult rfl, hnoted.scene,
      hnoted.ledger, hbehind, hnoted.cache⟩
  cases ha with
  | direct hr =>
    rw [← h.user_eq]
    exact ⟨_, .direct hr, h⟩
  | eventNotFound hr hj => exact ⟨_, .eventNotFound hr ((h.judge_eq _).trans hj), hnoted.emit ..⟩
  | noRuleMatch hr hj => exact ⟨_, .noRuleMatch hr ((h.judge_eq _).trans hj), hnoted.emit ..⟩
  | noVariant hr hj hs =>
    obtain ⟨s', hs', hbehind⟩ := hresolve hs
    exact ⟨_, .noVariant hr ((h.judge_eq _).trans hj) hs', hbehind⟩
  | holdout hr hj hs hv =>
    obtain ⟨s', hs', hbehind⟩ := hresolve hs
    refine ⟨_, .holdout hr ((h.judge_eq _).trans hj) hs' hv, ?_⟩
    rw [h.user_eq]
    exact ((hbehind.emit ..).emit ..).commit _
  | treatment hr hj hs hv =>
    obtain ⟨s', hs', hbehind⟩ := hresolve hs
    rw [← h.user_eq]
    exact ⟨_, .treatment hr ((h.judge_eq _).trans hj) hs' hv, hbehind.emit ..⟩

/-- Contexts that are alike start the same fetch, under the numbers that their caches give it. -/
theorem ask (h : Alike k c c') (f : FetchRequest) (bypass : Bool) (number : Nat) :
    (c'.ask f bypass number).1 = (c.ask f bypass number).1.renumber (· + k) ∧
      Alike k (c.ask f bypass number).2 (c'.ask f bypass number).2 := by
  obtain ⟨hresolution, hcache⟩ := h.cache.resolve f.key bypass ⟨number, f⟩
  exact ⟨hresolution, h.scene, h.ledger, h.assignments, hcache⟩

theorem fetchUnderWay?_eq (h : Alike k c c') (token : Nat) :
    c'.fetchUnderWay? (token + k) = c.fetchUnderWay? token := by
  simp only [fetchUnderWay?, h.cache.waiters]

/-- A fetch ends alike, and for the same requests. -/
theorem runFetch (h : Alike k c c') (f : FetchRequest) (token : Nat) :
    (c'.runFetch f (token + k)).1 = (c.runFetch f token).1 ∧
      (c'.runFetch f (token + k)).2.1 = (c.runFetch f token).2.1 ∧
      Alike k (c.runFetch f token).2.2 (c'.runFetch f (token + k)).2.2 := by
  have hfetch : c'.fetch f = c.fetch f := fetch_congr h.scene f
  obtain ⟨hwaiters, hcache⟩ := h.cache.settle f.key token (c.fetch f)
  unfold Context.runFetch
  rw [hfetch]
  exact ⟨rfl, congrArg (List.map Caller.number) hwaiters, h.scene, h.ledger, h.assignments, hcache⟩

theorem await (h : Alike k c c') (f : FetchRequest) (resolution : Resolution Resource) :
    AnswerAlike k (c.await f resolution) (c'.await f (resolution.renumber (· + k))) := by
  cases resolution with
  | hit p => exact ⟨rfl, h⟩
  | joined token | started token =>
    obtain ⟨hresult, -, hbehind⟩ := h.runFetch ((c.fetchUnderWay? token).getD f) token
    simp only [Context.await, Resolution.renumber, h.fetchUnderWay?_eq]
    exact ⟨hresult, hbehind⟩

theorem serve (h : Alike k c c') (f : FetchRequest) (bypass : Bool) :
    AnswerAlike k (c.serve f bypass) (c'.serve f bypass) := by
  obtain ⟨hresolution, hasked⟩ := h.ask f bypass 0
  unfold Context.serve
  simp only [hresolution]
  exact hasked.await f _

theorem finish (h : Alike k c c') (d : Decision) (result : Except PaywallError Resource) :
    AnswerAlike k (c.finish d result) (c'.finish d result) := by
  refine ⟨?_, ?_⟩
  · rw [finish_fst, finish_fst, verdict_congr h.scene]
  · have hskipped (p : Resource) : c'.isSkipped d p = c.isSkipped d p := by
      simp only [isSkipped, isPreview, h.settings_eq]
    cases result with
    | error cause =>
      simp only [finish_error]
      exact h.emit ..
    | ok p =>
      simp only [finish_ok, hskipped]
      split
      · dsimp only
        exact (h.emit ..).emit ..
      · exact (h.emit ..).commit d

theorem conclude (h : Alike k c c') (d : Decision) : AnswerAlike k (c.conclude d) (c'.conclude d) := by
  have hrequest : c'.fetchRequest d = c.fetchRequest d := by
    simp only [fetchRequest, device, h.settings_eq]
  have hbypass : c'.bypassesCache d.request = c.bypassesCache d.request := by
    simp only [bypassesCache, isPreview, h.settings_eq]
  have hloading : Alike k (c.loading d) (c'.loading d) := h.emit ..
  obtain ⟨hserved, hbehind⟩ := hloading.serve (c.fetchRequest d) (c.bypassesCache d.request)
  unfold Context.conclude
  simp only
  rw [hrequest, hbypass, hserved]
  exact hbehind.finish d _

theorem present (h : Alike k c c') (r : Request) : AnswerAlike k (c.present r) (c'.present r) := by
  obtain ⟨x, c₁, ha⟩ := exists_assigned c r
  obtain ⟨c₁', ha', h₁⟩ := h.assigned ha
  cases x with
  | error o =>
    rw [present_of_error ha, present_of_error ha']
    exact ⟨rfl, h₁⟩
  | ok d =>
    rw [present_of_ok ha, present_of_ok ha']
    exact h₁.conclude d

/-! ## Requests at the same time -/

theorem askForPaywall (h : Alike k c c') (d : Decision) (number : Nat) :
    (c'.askForPaywall d number).1 = (c.askForPaywall d number).1.renumber (· + k) ∧
      Alike k (c.askForPaywall d number).2 (c'.askForPaywall d number).2 := by
  have hrequest : c'.fetchRequest d = c.fetchRequest d := by
    simp only [fetchRequest, device, h.settings_eq]
  have hbypass : c'.bypassesCache d.request = c.bypassesCache d.request := by
    simp only [bypassesCache, isPreview, h.settings_eq]
  have hloading : Alike k (c.loading d) (c'.loading d) := h.emit ..
  obtain ⟨hresolution, hbehind⟩ :=
    hloading.ask (c.fetchRequest d) (c.bypassesCache d.request) number
  rw [askForPaywall_eq, askForPaywall_eq, hrequest, hbypass]
  exact ⟨congrArg (Waiting.mk d (c.fetchRequest d)) hresolution, hbehind⟩

theorem begin (h : Alike k c c') (r : Request) (number : Nat) :
    (c'.begin r number).1 = (c.begin r number).1.map (Waiting.renumber (· + k)) ∧
      Alike k (c.begin r number).2 (c'.begin r number).2 := by
  obtain ⟨x, c₁, ha⟩ := exists_assigned c r
  obtain ⟨c₁', ha', h₁⟩ := h.assigned ha
  rw [begin_eq, begin_eq, ha.eq, ha'.eq]
  cases x with
  | error o => exact ⟨rfl, h₁⟩
  | ok d =>
    obtain ⟨hwaiting, hbehind⟩ := h₁.askForPaywall d number
    exact ⟨congrArg Except.ok hwaiting, hbehind⟩

theorem enter (h : Alike k c c') (r : Request) (number : Nat) :
    (c'.enter r number).1 = (c.enter r number).1.renumber (· + k) ∧
      Alike k (c.enter r number).2 (c'.enter r number).2 := by
  obtain ⟨hbegun, hbehind⟩ := h.begin r number
  unfold Context.enter
  generalize c.begin r number = begun at hbegun hbehind ⊢
  generalize c'.begin r number = begun' at hbegun hbehind ⊢
  obtain ⟨x, c₁⟩ := begun
  obtain ⟨x', c₁'⟩ := begun'
  cases hbegun
  cases x with
  | error outcome => exact ⟨rfl, hbehind⟩
  | ok w =>
    obtain ⟨d, fetch, resolution⟩ := w
    cases resolution with
    | hit p =>
      obtain ⟨houtcome, hfinished⟩ := hbehind.finish d (.ok p)
      exact ⟨congrArg Progress.ended houtcome, hfinished⟩
    | joined token => exact ⟨rfl, hbehind⟩
    | started token => exact ⟨rfl, hbehind⟩

theorem beginAll (h : Alike k c c') (rs : List Request) (number : Nat) :
    (c'.beginAll number rs).1 = (c.beginAll number rs).1.map (.renumber (· + k)) ∧
      Alike k (c.beginAll number rs).2 (c'.beginAll number rs).2 := by
  induction rs generalizing c c' number with
  | nil => exact ⟨rfl, h⟩
  | cons r rest ih =>
    obtain ⟨hfirst, hbegun⟩ := h.enter r number
    obtain ⟨hothers, hbehind⟩ := ih hbegun (number + 1)
    rw [beginAll_cons, beginAll_cons]
    exact ⟨congrArg₂ List.cons hfirst hothers, hbehind⟩

theorem token?_renumber (progress : Progress) :
    (progress.renumber (· + k)).token? = progress.token?.map (· + k) := by
  rcases progress with outcome | ⟨d, fetch, _ | _ | _⟩ <;> rfl

theorem finishAll (h : Alike k c c') (token : Nat) (result : Except PaywallError Resource)
    (numbers : List Nat) (all : List Progress) :
    (c'.finishAll (token + k) result numbers (all.map (.renumber (· + k)))).1 =
        (c.finishAll token result numbers all).1.map (.renumber (· + k)) ∧
      Alike k (c.finishAll token result numbers all).2
        (c'.finishAll (token + k) result numbers (all.map (.renumber (· + k)))).2 := by
  induction numbers generalizing c c' all with
  | nil => exact ⟨rfl, h⟩
  | cons number rest ih =>
    rw [Context.finishAll, Context.finishAll, List.getElem?_map]
    rcases all[number]? with _ | outcome | w
    · exact ih h all
    · exact ih h all
    · have hwaits : (Progress.waiting (w.renumber (· + k))).token? = some (token + k) ↔
          (Progress.waiting w).token? = some token := by
        have hrenumber := token?_renumber (k := k) (.waiting w)
        rw [Progress.renumber] at hrenumber
        rw [hrenumber, Option.map_eq_some_iff]
        simp
      simp only [Option.map_some, Progress.renumber, hwaits]
      split
      · obtain ⟨houtcome, hfinished⟩ := h.finish w.decision result
        have hset : (all.map (Progress.renumber (· + k))).set number
            (.ended (c'.finish w.decision result).1) =
              (all.set number (.ended (c.finish w.decision result).1)).map
                (Progress.renumber (· + k)) := by
          rw [houtcome, List.map_set]
          rfl
        simp only [Waiting.renumber, hset]
        exact ih hfinished _
      · exact ih h all

theorem runFetches (h : Alike k c c') (tokens : List Nat) (all : List Progress) :
    (c'.runFetches (tokens.map (· + k)) (all.map (.renumber (· + k)))).1 =
        (c.runFetches tokens all).1.map (.renumber (· + k)) ∧
      Alike k (c.runFetches tokens all).2
        (c'.runFetches (tokens.map (· + k)) (all.map (.renumber (· + k)))).2 := by
  induction tokens generalizing c c' all with
  | nil => exact ⟨rfl, h⟩
  | cons token rest ih =>
    rw [List.map_cons, Context.runFetches, Context.runFetches, h.fetchUnderWay?_eq]
    cases c.fetchUnderWay? token with
    | none => exact ih h all
    | some fetch =>
      obtain ⟨hresult, hwaiters, hfetched⟩ := h.runFetch fetch token
      obtain ⟨hall, hfinished⟩ :=
        hfetched.finishAll token (c.runFetch fetch token).1 (c.runFetch fetch token).2.1 all
      simp only [hresult, hwaiters, hall]
      exact ih hfinished _

theorem presentAll (h : Alike k c c') (rs : List Request) :
    AnswerAlike k (c.presentAll rs) (c'.presentAll rs) := by
  obtain ⟨hbegun, hbehind⟩ := h.beginAll rs 0
  have htokens : ((c.beginAll 0 rs).1.map (.renumber (· + k))).filterMap Progress.token? =
      ((c.beginAll 0 rs).1.filterMap Progress.token?).map (· + k) := by
    rw [List.filterMap_map, List.map_filterMap]
    exact congrArg (List.filterMap · _) (funext token?_renumber)
  obtain ⟨hall, hended⟩ :=
    hbehind.runFetches ((c.beginAll 0 rs).1.filterMap Progress.token?) (c.beginAll 0 rs).1
  have houtcome : Progress.outcome ∘ .renumber (· + k) = Progress.outcome := by
    funext progress
    cases progress <;> rfl
  rw [← htokens, ← hbegun] at hall hended
  unfold Context.presentAll
  refine ⟨?_, hended⟩
  simp only [hall, List.map_map, houtcome]

/-! ## Preloading -/

theorem warm (h : Alike k c c') (identifier : String) :
    AnswerAlike k (c.warm identifier) (c'.warm identifier) := by
  have hfetch : c'.preloadFetch identifier = c.preloadFetch identifier := by
    simp only [preloadFetch, h.settings_eq]
  obtain ⟨hserved, hbehind⟩ := h.serve (c.preloadFetch identifier) false
  rw [warm_eq, warm_eq, hfetch]
  exact ⟨congrArg Except.isOk hserved, hbehind⟩

theorem warmAll (h : Alike k c c') (identifiers : List String) :
    AnswerAlike k (c.warmAll identifiers) (c'.warmAll identifiers) := by
  induction identifiers generalizing c c' with
  | nil => exact ⟨rfl, h⟩
  | cons identifier rest ih =>
    obtain ⟨hloaded, hwarmed⟩ := h.warm identifier
    obtain ⟨hcount, hbehind⟩ := ih hwarmed
    exact ⟨congrArg₂ (fun count loaded => count + Bool.toNat loaded) hcount hloaded, hbehind⟩

theorem preload (h : Alike k c c') (identifiers : List String) :
    AnswerAlike k (c.preload identifiers) (c'.preload identifiers) := by
  unfold Context.preload
  rw [h.settings_eq]
  split
  · obtain ⟨hcount, hbehind⟩ := (h.emit .preloadStart none id id).warmAll identifiers
    exact ⟨hcount, hbehind.emit ..⟩
  · exact ⟨rfl, h⟩

theorem preloadActive (h : Alike k c c') : AnswerAlike k c.preloadActive c'.preloadActive := by
  unfold Context.preloadActive
  rw [h.campaign_eq, h.assignments.confirmed_eq, h.assignments.unconfirmed_eq]
  cases c.campaign with
  | none => exact ⟨rfl, h⟩
  | some campaign => exact h.preload _

theorem preloadEvents (h : Alike k c c') (names : List String) :
    AnswerAlike k (c.preloadEvents names) (c'.preloadEvents names) := by
  unfold Context.preloadEvents
  rw [h.campaign_eq]
  cases c.campaign with
  | none => exact ⟨rfl, h⟩
  | some campaign => exact h.preload _

/-! ## A new campaign -/

theorem evictStale (h : Alike k c c') (previous : Option Campaign) (m : Campaign) :
    Alike k (c.evictStale previous m) (c'.evictStale previous m) := by
  have hlocale : c'.settings.device.locale = c.settings.device.locale := by rw [h.settings_eq]
  unfold Context.evictStale
  cases previous with
  | none => exact h
  | some previous =>
    simp only [hlocale]
    exact ⟨h.scene, h.ledger, h.assignments, h.cache.invalidateAll _⟩

theorem withAssignments (h : Alike k c c') {s s' : AssignmentStore} (hs : s.Alike s') :
    Alike k { c with assignments := s } { c' with assignments := s' } :=
  ⟨h.scene, h.ledger, hs, h.cache⟩

theorem alignAssignments (h : Alike k c c') (m : Campaign) :
    AnswerAlike k (c.alignAssignments m) (c'.alignAssignments m) := by
  obtain ⟨result, reconciled, reconciled', heq, heq', hreconciled⟩ :=
    (h.assignments.reconcile m.triggers).exists_eq
  unfold Context.alignAssignments
  rw [heq, heq']
  cases result with
  | error e => exact ⟨rfl, h.withAssignments hreconciled⟩
  | ok _ =>
    obtain ⟨count, transferred, transferred', heq, heq', htransferred⟩ :=
      (hreconciled.transfer m.assignments m.triggers).exists_eq
    simp only [heq, heq']
    cases count with
    | error e => exact ⟨rfl, h.withAssignments htransferred⟩
    | ok n => exact ⟨rfl, h.withAssignments htransferred⟩

theorem load (h : Alike k c c') (fetched : Except PaywallError Campaign) :
    AnswerAlike k (c.load fetched) (c'.load fetched) := by
  cases fetched with
  | error e => exact ⟨rfl, h⟩
  | ok m =>
    have hreplaced : Alike k { c with campaign := some m } { c' with campaign := some m } := by
      refine ⟨?_, h.ledger, h.assignments, h.cache⟩
      exact congrArg (fun s : Scene => { s with campaign := some m }) h.scene
    unfold Context.load
    rw [h.campaign_eq]
    obtain ⟨result, aligned, aligned', heq, heq', hbehind⟩ :=
      ((hreplaced.evictStale c.campaign m).alignAssignments m).exists_eq
    simp only [heq, heq']
    cases result with
    | error e => exact ⟨rfl, hbehind⟩
    | ok _ => exact ⟨rfl, hbehind.emit ..⟩

theorem refresh (h : Alike k c c') (fetched : Except PaywallError Campaign) :
    AnswerAlike k (c.refresh fetched) (c'.refresh fetched) := by
  obtain ⟨result, loaded, loaded', heq, heq', hbehind⟩ := (h.load fetched).exists_eq
  unfold Context.refresh
  rw [heq, heq']
  cases result with
  | error e => exact ⟨rfl, hbehind⟩
  | ok m =>
    simp only [hbehind.settings_eq]
    split
    · exact ⟨rfl, hbehind.preloadActive.2⟩
    · exact ⟨rfl, hbehind⟩

/-! ## The other steps -/

theorem withUser (h : Alike k c c') (user : User) :
    Alike k { c with user } { c' with user } :=
  ⟨congrArg (fun s : Scene => { s with user }) h.scene, h.ledger, h.assignments, h.cache⟩

theorem reset (h : Alike k c c') : AnswerAlike k c.reset c'.reset := by
  obtain ⟨result, cleared, cleared', heq, heq', hcleared⟩ := h.assignments.clear.exists_eq
  unfold Context.reset
  rw [heq, heq']
  cases result with
  | error e => exact ⟨rfl, h.withAssignments hcleared⟩
  | ok _ =>
    simp only [h.user_eq]
    refine ⟨rfl, ?_⟩
    have hforgotten := (h.withAssignments hcleared).withUser
      { c.user with attributes := ∅, purchased := [] }
    exact ⟨hforgotten.scene, h.ledger, hcleared, h.cache.clear⟩

/-- Reports are not seen by anybody. -/
theorem of_reports (h : Alike k c c') (log log' : EventLog) :
    Alike k { c with events := log } { c' with events := log' } :=
  ⟨h.scene, h.ledger, h.assignments, h.cache⟩

theorem deliver (h : Alike k c c') : Alike k c.deliver c'.deliver := by
  rw [deliver_eq, deliver_eq]
  exact (h.withAssignments h.assignments.takeOutbox).of_reports _ _

/-! ## Steps and runs -/

theorem perform (h : Alike k c c') (s : HostStep) : AnswerAlike k (c.perform s) (c'.perform s) := by
  have answer {α : Type} {x x' : α × Context} (f : α → StepResult) (hx : AnswerAlike k x x') :
      AnswerAlike k (f x.1, x.2) (f x'.1, x'.2) := ⟨congrArg f hx.1, hx.2⟩
  cases s with
  | load fetched => exact answer .loaded (h.load fetched)
  | refresh fetched => exact answer .loaded (h.refresh fetched)
  | present r => exact answer .outcome (h.present r)
  | presentAll rs => exact answer .outcomes (h.presentAll rs)
  | preloadActive => exact answer .count h.preloadActive
  | preloadEvents names => exact answer .count (h.preloadEvents names)
  | reset => exact answer .cleared h.reset
  | setAttribute key value =>
    simp only [Context.perform, setAttribute, h.user_eq]
    exact ⟨rfl, h.withUser _⟩
  | setSubscribed subscribed =>
    simp only [Context.perform, setSubscribed, h.user_eq]
    exact ⟨rfl, h.withUser _⟩
  | recordPurchase product =>
    simp only [Context.perform, recordPurchase, h.user_eq]
    exact ⟨rfl, h.withUser _⟩
  | setClock now =>
    exact ⟨rfl, congrArg (fun s : Scene => { s with now }) h.scene, h.ledger, h.assignments, h.cache⟩
  | recordAt key time =>
    have hledger := congrArg
      (fun l : Ledger => { l with history := l.history.recordAt key time }) h.ledger
    exact ⟨rfl, h.scene, hledger, h.assignments, h.cache⟩
  | setSource source =>
    exact ⟨rfl, congrArg (fun s : Scene => { s with source }) h.scene, h.ledger, h.assignments,
      h.cache⟩
  | setRefused refused reason =>
    have hledger := congrArg (fun l : Ledger => { l with refused, reason }) h.ledger
    exact ⟨rfl, h.scene, hledger, h.assignments, h.cache⟩
  | setSaveFault reason =>
    exact ⟨rfl, h.scene, h.ledger, h.assignments.withSaveFault reason, h.cache⟩

theorem step (h : Alike k c c') (s : HostStep) : AnswerAlike k (c.step s) (c'.step s) := by
  obtain ⟨hresult, hbehind⟩ := h.perform s
  exact ⟨hresult, hbehind.deliver⟩

theorem run (h : Alike k c c') (steps : List HostStep) : AnswerAlike k (c.run steps) (c'.run steps) := by
  induction steps generalizing c c' with
  | nil => exact ⟨rfl, h⟩
  | cons s rest ih =>
    obtain ⟨hresult, hbehind⟩ := h.step s
    obtain ⟨hresults, hended⟩ := ih hbehind
    exact ⟨congrArg₂ List.cons hresult hresults, hended⟩

end Alike

/-! ## Resetting -/

/-- A context in which nothing has been assigned, cached or bought, and of whose user nothing is known
but whether it is a subscriber. All else is as in `c`. -/
def newcomer (c : Context) : Context :=
  { c with
    user := { subscribed := c.user.subscribed }
    assignments := ⟨∅, ∅, c.assignments.stream, .ofStored ∅, []⟩
    cache := .empty }

/-- A reset succeeds if the record can be saved. It leaves a context that is alike to a newcomer's,
provided that no fetch is open. -/
theorem alike_reset (hidle : c.cache.tokens = []) (hok : c.reset.1 = .ok ()) :
    Alike c.cache.nextToken c.newcomer c.reset.2 := by
  rcases AssignmentStore.save_cases { c.assignments with confirmed := ∅, unconfirmed := ∅ } with
    ⟨hfault, heq⟩ | ⟨reason, -, heq⟩
  · have hreset : c.assignments.clear =
        (.ok (), ({ c.assignments with confirmed := ∅, unconfirmed := ∅ } : AssignmentStore).saved) := by
      unfold AssignmentStore.clear
      simp only [heq]
    unfold reset
    rw [hreset]
    exact ⟨rfl, rfl, ⟨_, _, rfl, hfault⟩, SingleFlight.shifted_clear hidle⟩
  · have hreset : c.reset.1 = .error (.ofAssignment (.persistence reason)) := by
      unfold reset AssignmentStore.clear
      simp only [heq]
    rw [hreset] at hok
    cases hok

/-- What does not belong to the user is the same in two contexts: the settings, what the host has
supplied, the campaign, the history, the clock and the generator. -/
structure SameHost (c c' : Context) : Prop where
  settings : c'.settings = c.settings
  evaluator : c'.evaluator = c.evaluator
  source : c'.source = c.source
  campaign : c'.campaign = c.campaign
  ledger : c'.ledger = c.ledger
  now : c'.now = c.now
  stream : c'.assignments.stream = c.assignments.stream

/-- The newcomers of one host differ in nothing but what has been reported and fetched. -/
theorem SameHost.newcomer (h : SameHost c c') (hsubscribed : c'.user.subscribed = c.user.subscribed) :
    Alike 0 c.newcomer c'.newcomer where
  scene := by
    simp only [scene, Context.newcomer, h.settings, h.evaluator, h.source, h.campaign, h.now,
      hsubscribed]
  ledger := h.ledger
  assignments := ⟨.ofStored ∅, [], by simp only [Context.newcomer, h.stream], rfl⟩
  cache := ⟨rfl, fun key => by simp [Context.newcomer, SingleFlight.empty], fun t => rfl⟩

/-- Whatever two users of a host have done, once their contexts are reset the host answers the same in
both, as long as both users are subscribers or neither is. -/
theorem answers_after_reset (h : SameHost c c')
    (hsubscribed : c'.user.subscribed = c.user.subscribed)
    (hidle : c.cache.tokens = []) (hidle' : c'.cache.tokens = [])
    (hok : c.reset.1 = .ok ()) (hok' : c'.reset.1 = .ok ()) (steps : List HostStep) :
    (c'.reset.2.run steps).1 = (c.reset.2.run steps).1 := by
  have hreset := (alike_reset hidle hok).run steps
  have hreset' := (alike_reset hidle' hok').run steps
  have hnewcomers := (h.newcomer hsubscribed).run steps
  calc (c'.reset.2.run steps).1
      = (c'.newcomer.run steps).1 := hreset'.1
    _ = (c.newcomer.run steps).1 := hnewcomers.1
    _ = (c.reset.2.run steps).1 := hreset.1.symm

/-! ## One host, two users -/

/-- A campaign with an event that shows a paywall, though not to subscribers. -/
def salesPitch : Campaign where
  triggers := [⟨"open", [⟨none, none, ⟨"e", "g", [⟨"v", 1, .treatment, some "p"⟩]⟩, [], none⟩]⟩]
  paywalls := [⟨"p", [⟨"annual", .primary, true⟩], .checkUserSubscription, false, .null, none⟩]
  assignments := []
  requestId := none

/-- The record of somebody who has seen that paywall before. -/
def seenBefore : Record := .ofStored ((∅ : Assignments).insert "e" ⟨"v", .treatment, some "p"⟩)

/-- What somebody does who buys the product on it. -/
def purchase : List HostStep :=
  [.load (.ok salesPitch), .setAttribute "name" (.string "x"), .preloadActive,
    .present (.forPaywall "p"), .recordPurchase "annual"]

/-- The host shows the paywall to somebody new, and then, after a reset, to somebody who had bought the
product on it before: in both cases with the free trial, and with the experiment drawn anew. -/
theorem answers_after_purchase :
    ∃ c c', openWith {} Expression.evaluate .campaign (.ofStored ∅) (.ofHistory (.start ⟨0, 0⟩)) 0
        ⟨0, 0⟩ = .ok c ∧
      openWith {} Expression.evaluate .campaign seenBefore (.ofHistory (.start ⟨0, 0⟩)) 0 ⟨0, 0⟩ =
        .ok c' ∧
      let first := (c.run [.load (.ok salesPitch)]).2
      let second := (c'.run purchase).2
      let steps : List HostStep := [.present (.forEvent ⟨"open", ∅, ⟨0, 0⟩⟩), .preloadActive]
      second.user.purchased ≠ first.user.purchased ∧ second.cache.size ≠ first.cache.size ∧
        second.assignments.confirmed ≠ first.assignments.confirmed ∧
        (second.reset.2.run steps).1 = (first.reset.2.run steps).1 := by
  refine ⟨_, _, rfl, rfl, ?_⟩
  intro first second steps
  have hhost : SameHost first second := ⟨rfl, rfl, rfl, rfl, rfl, rfl, rfl⟩
  exact ⟨by decide +kernel, by decide +kernel, by decide +kernel,
    answers_after_reset hhost rfl rfl rfl rfl rfl steps⟩

/-- Two users of whom one was a subscriber are told apart by a reset host: the paywall is skipped for
whoever comes after the subscriber. -/
theorem subscription_outlives_reset :
    ∃ c, openWith {} Expression.evaluate .campaign (.ofStored ∅) (.ofHistory (.start ⟨0, 0⟩)) 0
        ⟨0, 0⟩ = .ok c ∧
      let first := (c.run [.load (.ok salesPitch)]).2
      let second := first.setSubscribed true
      SameHost first second ∧ first.cache.tokens = [] ∧ second.cache.tokens = [] ∧
        first.reset.1 = .ok () ∧ second.reset.1 = .ok () ∧
        (first.reset.2.present (.forEvent ⟨"open", ∅, ⟨0, 0⟩⟩)).1.label = "paywall" ∧
        (second.reset.2.present (.forEvent ⟨"open", ∅, ⟨0, 0⟩⟩)).1.label = "skipped" := by
  refine ⟨_, rfl, ⟨rfl, rfl, rfl, rfl, rfl, rfl, rfl⟩, rfl, rfl, rfl, rfl, ?_, ?_⟩
  · decide +kernel
  · decide +kernel

end Context

end Paywall
