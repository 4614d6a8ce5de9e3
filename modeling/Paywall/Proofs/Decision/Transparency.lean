import Paywall.Proofs.Decision.Coherence

/-!
# The cache does not show

A host with a cache decides step by step like one without. The two go through contexts that differ in
the cache and in what is reported, but have the same core; and a coherent cache serves what a fetch
from the campaign would give. There is one exception. A treatment may refer to no paywall; what is
then asked for is cached under the name of the event, and a paywall may have that name.
-/

namespace Paywall

/-- The settings under which every request fetches anew. -/
def Settings.withoutCache (s : Settings) : Settings :=
  { s with cache := { s.cache with enabled := false } }

namespace Context

variable {c c' : Context} {r : Request} {d : Decision} {settings : Settings}

/-- A context without its cache and what it has reported. -/
def core (c : Context) : Context :=
  { c with settings := c.settings.withoutCache, cache := .empty, events := [], fetches := [] }

/-! ## The parts of a step -/

@[simp] theorem core_core : c.core.core = c.core := rfl

@[simp] theorem core_emit (k : EventKind) (n : Option String) (f : DecisionEvent → DecisionEvent) :
    (c.emit k n f).core = c.core := rfl

theorem core_recordRequest : (c.recordRequest r).core = c.core.recordRequest r := by
  unfold recordRequest
  cases r.event? with
  | none => rfl
  | some e =>
    simp only
    cases r.speculative
    · simp only [Bool.false_eq_true, if_false]
      rw [show c.core.ledger = c.ledger from rfl]
      cases c.ledger.recordEvent e.name e.createdAt <;> rfl
    · rfl

theorem core_commit : (c.commit d).core = c.core.commit d := by
  have hconfirm : (c.confirmAssignment d).core = c.core.confirmAssignment d := by
    unfold confirmAssignment
    split <;> rfl
  have hrecord (c : Context) : (c.recordOccurrence d).core = c.core.recordOccurrence d := by
    unfold recordOccurrence
    cases d.matched.bind (·.unsaved) with
    | none => rfl
    | some o =>
      simp only
      rw [show c.core.ledger = c.ledger from rfl, show c.core.now = c.now from rfl]
      cases c.ledger.record o c.now <;> rfl
  unfold commit
  split
  · rfl
  · rw [hrecord, hconfirm]

theorem judge_core {e : HostEvent} : c.core.judge r e = c.judge r e := by
  have hledger : (c.core.recordRequest r).ledger = (c.recordRequest r).ledger := by
    rw [← core_recordRequest]
    rfl
  unfold judge
  rw [hledger]
  rfl

/-- The core is brought to the same variant, and ends with the core of the context behind it. -/
theorem Assigned.core {x : Except Outcome Decision} {c₁ : Context} (h : Assigned c r x c₁) :
    ∃ c₂, Assigned c.core r x c₂ ∧ c₂.core = c₁.core := by
  have hnoted : (c.core.recordRequest r).core = (c.recordRequest r).core := by
    rw [core_recordRequest, core_recordRequest, core_core]
  have hstore (s : AssignmentStore) : { c.core.recordRequest r with assignments := s }.core =
      { c.recordRequest r with assignments := s }.core :=
    congrArg (fun k : Context => { k with assignments := s }) hnoted
  cases h with
  | direct hr => exact ⟨_, .direct hr, rfl⟩
  | eventNotFound hr hj => exact ⟨_, .eventNotFound hr (judge_core.trans hj), hnoted⟩
  | noRuleMatch hr hj => exact ⟨_, .noRuleMatch hr (judge_core.trans hj), hnoted⟩
  | noVariant hr hj hs => exact ⟨_, .noVariant hr (judge_core.trans hj) hs, hstore _⟩
  | @holdout e m v s hr hj hs hv =>
    have hheld : (c.core.heldOut r m v s).core = (c.heldOut r m v s).core := hstore s
    refine ⟨_, .holdout hr (judge_core.trans hj) hs hv, ?_⟩
    rw [core_commit, core_commit, hheld]
    rfl
  | treatment hr hj hs hv => exact ⟨_, .treatment hr (judge_core.trans hj) hs hv, hstore _⟩

/-- Contexts with one core are brought to the same variant, and have one core behind it. -/
theorem Assigned.of_core_eq (hcore : c.core = c'.core) {x : Except Outcome Decision} {c₁ : Context}
    (h : Assigned c r x c₁) : ∃ c₁', Assigned c' r x c₁' ∧ c₁.core = c₁'.core := by
  obtain ⟨y, c₁', h'⟩ := exists_assigned c' r
  obtain ⟨c₂, h₂, hc₂⟩ := h.core
  obtain ⟨c₂', h₂', hc₂'⟩ := h'.core
  rw [← hcore] at h₂'
  obtain ⟨rfl, rfl⟩ := Prod.mk.inj (h₂.eq.symm.trans h₂'.eq)
  exact ⟨c₁', h', hc₂.symm.trans hc₂'⟩

theorem core_loading : (c.loading d).core = c.core := rfl

theorem fetchRequest_core : c.core.fetchRequest d = c.fetchRequest d := rfl

theorem core_serve (f : FetchRequest) (bypass : Bool) : (c.serve f bypass).2.core = c.core := by
  rw [serve_eq]
  rfl

/-- What concluding a request leaves of the core depends on the outcome. -/
theorem core_conclude :
    (c.conclude d).2.core =
      match (c.conclude d).1 with
      | .paywall .. => c.core.commit d
      | _ => c.core := by
  have hserved : ((c.loading d).serve (c.fetchRequest d) (c.bypassesCache d.request)).2.core =
      c.core := core_serve ..
  unfold conclude
  generalize (c.loading d).serve (c.fetchRequest d) (c.bypassesCache d.request) = served at *
  obtain ⟨_ | p, c₁⟩ := served
  · exact hserved
  · simp only [finish_ok]
    split
    · exact hserved
    · simp only [core_commit, core_emit, hserved]

/-! ## What is served -/

theorem fetch_of_campaign {f : FetchRequest} {m : Campaign} {id : String} {p : Resource}
    (hsource : c.source = .campaign) (hm : c.campaign = some m) (hid : f.identifier = some id)
    (hp : m.paywall? id = some p) : c.fetch f = .ok p := by
  simp [fetch, hsource, hm, Campaign.fetch, hid, hp, Except.mapError]

theorem fetch_core (f : FetchRequest) : c.core.fetch f = c.fetch f := rfl

/-- A coherent cache serves what a fetch would give, unless it is asked under the name of an event and
has a paywall there. -/
theorem Coherent.served {f : FetchRequest} {bypass : Bool} (h : c.Coherent settings)
    (hkey : ∀ id, f.identifier = some id →
      f.key = requestKey (some id) none settings.device.locale)
    (hfree : bypass = false → f.identifier = none → c.cache.cached? f.key = none) :
    (c.serve f bypass).1 = c.fetch f ∨
      ∃ p q, (c.serve f bypass).1 = .ok q ∧ c.fetch f = .ok p ∧ q.Same p := by
  rcases serve_cases_of_idle f bypass (h.idle f.key) with ⟨q, hbypass, hq, heq⟩ | ⟨-, heq, -⟩
  · right
    cases hid : f.identifier with
    | none =>
      have hnone := hfree hbypass hid
      rw [SingleFlight.cached?_eq_some_iff.mpr hq] at hnone
      cases hnone
    | some id =>
      rw [hkey id hid] at hq
      obtain ⟨m, p, hm, hp, hsame⟩ := h.exists_paywall hq
      exact ⟨p, q, by rw [heq], fetch_of_campaign h.source hm hid hp, hsame⟩
  · exact Or.inl heq

/-- Whether a treatment that refers to no paywall finds one in the cache, named like the event. -/
def collides (c : Context) (r : Request) : Bool :=
  match r.event?, (c.assign r).1 with
  | some e, .ok d =>
    d.identifier.isNone && !c.bypassesCache r &&
      (c.cache.cached? (requestKey (some e.name) none c.settings.device.locale)).isSome
  | _, _ => false

/-- Only an event can come to nothing that is asked for. -/
theorem Assigned.event_of_identifier {c₁ : Context} (h : Assigned c r (.ok d) c₁)
    (hid : d.identifier = none) : ∃ e, r.event? = some e := by
  cases h with
  | direct hr =>
    obtain ⟨subject, overrides, preview, speculative⟩ := r
    cases subject with
    | event e => cases hr
    | paywall id => cases hid
  | treatment hr hj hs hv => exact ⟨_, hr⟩

end Context

/-- The same outcome, where a paywall may be another that is the same. -/
inductive Outcome.Same : Outcome → Outcome → Prop where
  | refl (o : Outcome) : Same o o
  | paywall {p q : Resource} {experiment : Option AssignedExperiment} (h : p.Same q) :
    Same (.paywall p experiment) (.paywall q experiment)

namespace Context

variable {c c' : Context} {r : Request} {d : Decision} {settings : Settings}

theorem verdict_core (result : Except PaywallError Resource) :
    c.core.verdict d result = c.verdict d result := by
  cases result <;> rfl

theorem verdict_same {p q : Resource} (h : p.Same q) :
    (c.verdict d (.ok p)).Same (c.verdict d (.ok q)) := by
  have hpresent : (d.present p).Same (d.present q) := h.finalize ..
  have hskipped : c.isSkipped d (d.present p) = c.isSkipped d (d.present q) := by
    unfold isSkipped Decision.condition
    rw [hpresent.condition_eq]
  simp only [verdict, hskipped]
  split
  · exact .refl _
  · exact .paywall hpresent

/-- Contexts that differ in the cache only: one may use it, the other does not. -/
structure Twin (c c' : Context) (settings : Settings) : Prop where
  coherent : c.Coherent settings
  coherent' : c'.Coherent settings.withoutCache
  core_eq : c.core = c'.core

theorem Assigned.cached?_eq_none {c₁ : Context} (h : Assigned c r (.ok d) c₁)
    (hfree : c.collides r = false) (hbypass : c₁.bypassesCache d.request = false)
    (hid : d.identifier = none) : c₁.cache.cached? (c₁.fetchRequest d).key = none := by
  obtain ⟨hscene, hcache⟩ := h.frame
  have hsettings : c₁.settings = c.settings := congrArg Scene.settings hscene
  obtain ⟨e, he⟩ := h.event_of_identifier hid
  have hkey : (c₁.fetchRequest d).key = requestKey (some e.name) none c.settings.device.locale := by
    simp only [fetchRequest, device, hid, hsettings, h.request_eq, Request.eventName, he]
    rfl
  have hbypass' : c.bypassesCache r = false := by
    rw [← hbypass, h.request_eq]
    simp only [bypassesCache, isPreview, hsettings]
  simpa [collides, he, h.eq, hid, hbypass', ← hkey, ← hcache] using hfree

theorem Twin.conclude {c₁ c₁' : Context} (h : Twin c₁ c₁' settings)
    (hassigned : Assigned c r (.ok d) c₁) (hfree : c.collides r = false) :
    (c₁.conclude d).1.Same (c₁'.conclude d).1 := by
  have hloading : (c₁.loading d).Coherent settings := h.coherent.of_scene rfl rfl
  have hloading' : (c₁'.loading d).Coherent settings.withoutCache := h.coherent'.of_scene rfl rfl
  have hrequest : c₁'.fetchRequest d = c₁.fetchRequest d := by
    rw [← fetchRequest_core, ← h.core_eq, fetchRequest_core]
  have hfetched : (c₁'.loading d).fetch (c₁.fetchRequest d) =
      (c₁.loading d).fetch (c₁.fetchRequest d) := by
    rw [← fetch_core, core_loading, ← h.core_eq, ← core_loading, fetch_core]
  have hverdict (result : Except PaywallError Resource) :
      c₁'.verdict d result = c₁.verdict d result := by
    rw [← verdict_core, ← h.core_eq, verdict_core]
  have hbypass' : c₁'.bypassesCache d.request = true := by
    simp [bypassesCache, h.coherent'.settings_eq, Settings.withoutCache]
  have hserved' : ((c₁'.loading d).serve (c₁.fetchRequest d) true).1 =
      (c₁.loading d).fetch (c₁.fetchRequest d) := by
    rcases serve_cases_of_idle (c₁.fetchRequest d) true (hloading'.idle _) with
      ⟨_, hfalse, -⟩ | ⟨-, heq, -⟩
    · cases hfalse
    · rw [heq, hfetched]
  have hkey (id : String) (hid : d.identifier = some id) :
      (c₁.fetchRequest d).key = requestKey (some id) none settings.device.locale := by
    simp only [fetchRequest, device, hid, h.coherent.settings_eq]
    rfl
  have hserved := hloading.served hkey fun hbypass hid =>
    hassigned.cached?_eq_none hfree hbypass hid
  rw [conclude_fst, conclude_fst, hrequest, hbypass', hserved', hverdict]
  rcases hserved with heq | ⟨p, q, hq, hp, hsame⟩
  · rw [heq]
    exact .refl _
  · rw [hq, hp]
    exact verdict_same hsame

theorem Twin.present (h : Twin c c' settings) (hfree : c.collides r = false) :
    (c.present r).1.Same (c'.present r).1 ∧ (c.present r).2.core = (c'.present r).2.core := by
  obtain ⟨x, c₁, hassigned⟩ := exists_assigned c r
  obtain ⟨c₁', hassigned', hcore⟩ := hassigned.of_core_eq h.core_eq
  cases x with
  | error o =>
    rw [present_of_error hassigned, present_of_error hassigned']
    exact ⟨.refl o, hcore⟩
  | ok d =>
    have htwin : Twin c₁ c₁' settings :=
      ⟨h.coherent.of_scene hassigned.frame.1 hassigned.frame.2,
        h.coherent'.of_scene hassigned'.frame.1 hassigned'.frame.2, hcore⟩
    have hsame := htwin.conclude hassigned hfree
    rw [present_of_ok hassigned, present_of_ok hassigned']
    refine ⟨hsame, ?_⟩
    rw [core_conclude, core_conclude, hcore]
    generalize (c₁.conclude d).1 = o at hsame ⊢
    generalize (c₁'.conclude d).1 = o' at hsame ⊢
    cases hsame <;> rfl

/-! ## The other steps -/

/-- An operation that reads and changes nothing of a context but its core. -/
def CoreOnly {α : Type} (op : Context → α × Context) : Prop :=
  ∀ c, (op c.core).1 = (op c).1 ∧ (op c.core).2.core = (op c).2.core

theorem CoreOnly.eq {α : Type} {op : Context → α × Context} (h : CoreOnly op)
    (hcore : c.core = c'.core) : (op c).1 = (op c').1 ∧ (op c).2.core = (op c').2.core := by
  obtain ⟨hresult, hbehind⟩ := h c
  obtain ⟨hresult', hbehind'⟩ := h c'
  rw [← hresult, ← hbehind, hcore]
  exact ⟨hresult', hbehind'⟩

theorem coreOnly_alignAssignments (m : Campaign) : CoreOnly fun c => c.alignAssignments m := by
  intro c
  show (c.core.alignAssignments m).1 = (c.alignAssignments m).1 ∧
    (c.core.alignAssignments m).2.core = (c.alignAssignments m).2.core
  unfold alignAssignments
  rw [show c.core.assignments = c.assignments from rfl]
  rcases c.assignments.reconcile m.triggers with ⟨_ | _, reconciled⟩
  · exact ⟨rfl, rfl⟩
  · simp only
    rcases reconciled.transfer m.assignments m.triggers with ⟨_ | _, transferred⟩ <;>
      exact ⟨rfl, rfl⟩

theorem core_evictStale (previous : Option Campaign) (m : Campaign) :
    (c.evictStale previous m).core = c.core := by
  cases previous <;> rfl

theorem coreOnly_load (fetched : Except PaywallError Campaign) : CoreOnly fun c => c.load fetched := by
  intro c
  cases fetched with
  | error e => exact ⟨rfl, rfl⟩
  | ok m =>
    have hevicted : ({ c.core with campaign := some m }.evictStale c.core.campaign m).core =
        ({ c with campaign := some m }.evictStale c.campaign m).core := by
      rw [core_evictStale, core_evictStale]
      rfl
    obtain ⟨hresult, hbehind⟩ := (coreOnly_alignAssignments m).eq hevicted
    unfold load
    simp only at hresult hbehind ⊢
    generalize ({ c.core with campaign := some m }.evictStale c.core.campaign m).alignAssignments m =
      aligned at hresult hbehind ⊢
    generalize ({ c with campaign := some m }.evictStale c.campaign m).alignAssignments m =
      aligned' at hresult hbehind ⊢
    obtain ⟨x, c₁⟩ := aligned
    obtain ⟨x', c₁'⟩ := aligned'
    cases hresult
    cases x with
    | error e => exact ⟨rfl, hbehind⟩
    | ok _ => exact ⟨rfl, hbehind⟩

theorem core_warmAll (identifiers : List String) : (c.warmAll identifiers).2.core = c.core := by
  induction identifiers generalizing c with
  | nil => rfl
  | cons identifier rest ih =>
    have hwarm : (c.warm identifier).2.core = c.core := by
      rw [warm_eq]
      exact core_serve ..
    exact ih.trans hwarm

theorem core_preload (identifiers : List String) : (c.preload identifiers).2.core = c.core := by
  unfold preload
  split
  · exact core_warmAll identifiers
  · rfl

theorem core_preloadActive : c.preloadActive.2.core = c.core := by
  unfold preloadActive
  split
  · rfl
  · exact core_preload _

theorem core_preloadEvents (names : List String) : (c.preloadEvents names).2.core = c.core := by
  unfold preloadEvents
  split
  · rfl
  · exact core_preload _

/-- Preloading after a campaign has been loaded changes neither the core nor the answer. -/
theorem coreOnly_refresh (fetched : Except PaywallError Campaign) :
    CoreOnly fun c => c.refresh fetched := by
  have hload (c : Context) : (c.refresh fetched).1 = (c.load fetched).1 ∧
      (c.refresh fetched).2.core = (c.load fetched).2.core := by
    unfold refresh
    rcases c.load fetched with ⟨_ | m, c₁⟩
    · exact ⟨rfl, rfl⟩
    · simp only
      split
      · exact ⟨rfl, core_preloadActive⟩
      · exact ⟨rfl, rfl⟩
  intro c
  obtain ⟨hresult, hbehind⟩ := coreOnly_load fetched c
  exact ⟨(hload c.core).1.trans (hresult.trans (hload c).1.symm),
    (hload c.core).2.trans (hbehind.trans (hload c).2.symm)⟩

theorem coreOnly_reset : CoreOnly reset := by
  intro c
  unfold reset
  rw [show c.core.assignments = c.assignments from rfl]
  rcases c.assignments.clear with ⟨_ | _, cleared⟩ <;> exact ⟨rfl, rfl⟩

/-- Posting confirmations empties the outbox; the events are not part of the core. -/
theorem core_deliver :
    c.deliver.core = { c.core with assignments := c.core.assignments.takeOutbox.2 } := by
  rw [deliver_eq]
  rfl

end Context

/-- The same answer, where an outcome may be another that is the same. How many paywalls a preload has
fetched tells the cache, and is no part of it. -/
inductive StepResult.Agree : StepResult → StepResult → Prop where
  | refl (x : StepResult) : Agree x x
  | outcome {o o' : Outcome} (h : o.Same o') : Agree (.outcome o) (.outcome o')
  | count (n n' : Nat) : Agree (.count n) (.count n')

namespace Context

variable {c c' : Context} {settings : Settings}

theorem Twin.perform {s : HostStep} (h : Twin c c' settings) (hs : s.IsOrdinary)
    (hfree : ∀ r, s = .present r → c.collides r = false) :
    (c.perform s).1.Agree (c'.perform s).1 ∧ (c.perform s).2.core = (c'.perform s).2.core := by
  have hsame {α : Type} (op : Context → α × Context) (hop : CoreOnly op) (f : α → StepResult) :
      (f (op c).1).Agree (f (op c').1) ∧ (op c).2.core = (op c').2.core := by
    obtain ⟨hresult, hbehind⟩ := hop.eq h.core_eq
    rw [hresult]
    exact ⟨.refl _, hbehind⟩
  have hdone (op : Context → Context) (hop : ∀ c, (op c.core).core = (op c).core) :
      StepResult.done.Agree .done ∧ (op c).core = (op c').core :=
    hsame (fun c => ((), op c)) (fun c => ⟨rfl, hop c⟩) fun _ => .done
  cases s with
  | load fetched => exact hsame _ (coreOnly_load fetched) .loaded
  | refresh fetched => exact hsame _ (coreOnly_refresh fetched) .loaded
  | present r =>
    obtain ⟨houtcome, hbehind⟩ := h.present (hfree r rfl)
    exact ⟨.outcome houtcome, hbehind⟩
  | presentAll rs => exact hs.elim
  | preloadActive =>
    exact ⟨.count .., core_preloadActive.trans (h.core_eq.trans core_preloadActive.symm)⟩
  | preloadEvents names =>
    exact ⟨.count .., (core_preloadEvents names).trans
      (h.core_eq.trans (core_preloadEvents names).symm)⟩
  | reset => exact hsame _ coreOnly_reset .cleared
  | setAttribute key value => exact hdone (fun c => c.setAttribute key value) fun _ => rfl
  | setSubscribed subscribed => exact hdone (fun c => c.setSubscribed subscribed) fun _ => rfl
  | recordPurchase product => exact hdone (fun c => c.recordPurchase product) fun _ => rfl
  | setClock now => exact hdone (fun c => { c with now }) fun _ => rfl
  | recordAt key time =>
    exact hdone (fun c =>
      { c with ledger := { c.ledger with history := c.ledger.history.recordAt key time } })
      fun _ => rfl
  | setSource source => exact hs.elim
  | setRefused refused reason =>
    exact hdone (fun c => { c with ledger := { c.ledger with refused, reason } }) fun _ => rfl
  | setSaveFault reason =>
    exact hdone (fun c => { c with assignments := c.assignments.withSaveFault reason })
      fun _ => rfl

theorem Twin.step {s : HostStep} (h : Twin c c' settings) (hs : s.IsOrdinary)
    (hfree : ∀ r, s = .present r → c.collides r = false) :
    (c.step s).1.Agree (c'.step s).1 ∧ Twin (c.step s).2 (c'.step s).2 settings := by
  obtain ⟨hagree, hcore⟩ := h.perform hs hfree
  refine ⟨hagree, h.coherent.step hs, h.coherent'.step hs, ?_⟩
  show (c.perform s).2.deliver.core = (c'.perform s).2.deliver.core
  rw [core_deliver, core_deliver, hcore]

/-- Whether no request of a run collides. -/
def collisionFree (c : Context) : List HostStep → Bool
  | [] => true
  | s :: rest =>
    (match s with
      | .present r => !c.collides r
      | _ => true) && collisionFree (c.step s).2 rest

theorem Twin.run {steps : List HostStep} (h : Twin c c' settings)
    (hs : ∀ s ∈ steps, s.IsOrdinary) (hfree : c.collisionFree steps) :
    List.Forall₂ StepResult.Agree (c.run steps).1 (c'.run steps).1 := by
  induction steps generalizing c c' with
  | nil => exact .nil
  | cons s rest ih =>
    obtain ⟨hhead, hrest⟩ := List.forall_mem_cons.mp hs
    obtain ⟨hfirst, hothers⟩ := Bool.and_eq_true_iff.mp hfree
    have hcollides (r : Request) (hr : s = .present r) : c.collides r = false := by
      subst hr
      simpa using hfirst
    obtain ⟨hagree, htwin⟩ := h.step hhead hcollides
    exact .cons hagree (ih htwin hrest hothers)

/-- A host answers step by step what it would answer without a cache, as long as no request
collides. -/
theorem answers_without_cache {evaluator : Evaluator} {record : Record} {ledger : Ledger}
    {seed : UInt64} {now : Instant} {steps : List HostStep}
    (hopen : openWith settings evaluator .campaign record ledger seed now = .ok c)
    (hopen' : openWith settings.withoutCache evaluator .campaign record ledger seed now = .ok c')
    (hsteps : ∀ s ∈ steps, s.IsOrdinary) (hfree : c.collisionFree steps) :
    List.Forall₂ StepResult.Agree (c.run steps).1 (c'.run steps).1 := by
  have hcore : c.core = c'.core := by
    unfold openWith at hopen hopen'
    rw [show settings.withoutCache.assignments = settings.assignments from rfl] at hopen'
    split at hopen
    · cases hopen
    · cases hopen
      next heq =>
        rw [heq] at hopen'
        cases hopen'
        rfl
  exact Twin.run ⟨coherent_of_open hopen, coherent_of_open hopen', hcore⟩ hsteps hfree

/-! ## A paywall and its namesake -/

/-- A campaign with a paywall `p`, an event that shows it, and an event `p` whose treatment refers to
no paywall. -/
def namesakes : Campaign where
  triggers := [
    ⟨"open", [⟨none, none, ⟨"e", "g", [⟨"v", 1, .treatment, some "p"⟩]⟩, [], none⟩]⟩,
    ⟨"p", [⟨none, none, ⟨"f", "g", [⟨"w", 1, .treatment, none⟩]⟩, [], none⟩]⟩]
  paywalls := [⟨"p", [], .always, false, .null, none⟩]
  assignments := []
  requestId := none

/-- A request for the event of that name. -/
def happening (name : String) : Request := .forEvent ⟨name, ∅, ⟨0, 0⟩⟩

/-- The event `p` comes before the paywall is cached, and another event after it. -/
def rehearsal : List HostStep :=
  [.refresh (.ok namesakes), .present (happening "p"), .present (.forPaywall "p"),
    .present (happening "open"), .preloadEvents ["open"]]

theorem rehearsal_without_cache :
    ∃ c c', openWith {} Expression.evaluate .campaign (.ofStored ∅) (.ofHistory (.start ⟨0, 0⟩)) 0
        ⟨0, 0⟩ = .ok c ∧
      openWith (Settings.withoutCache {}) Expression.evaluate .campaign (.ofStored ∅)
        (.ofHistory (.start ⟨0, 0⟩)) 0 ⟨0, 0⟩ = .ok c' ∧
      List.Forall₂ StepResult.Agree (c.run rehearsal).1 (c'.run rehearsal).1 := by
  have hopen : openWith {} Expression.evaluate .campaign (.ofStored ∅) (.ofHistory (.start ⟨0, 0⟩))
      0 ⟨0, 0⟩ = .ok _ := rfl
  have hopen' : openWith (Settings.withoutCache {}) Expression.evaluate .campaign (.ofStored ∅)
      (.ofHistory (.start ⟨0, 0⟩)) 0 ⟨0, 0⟩ = .ok _ := rfl
  exact ⟨_, _, hopen, hopen', answers_without_cache hopen hopen' (by decide) (by decide +kernel)⟩

/-- Once the paywall is cached it is served for the event of its name, too, though a host without a
cache finds no paywall to fetch. -/
theorem namesake_served :
    ∃ c c', openWith {} Expression.evaluate .campaign (.ofStored ∅) (.ofHistory (.start ⟨0, 0⟩)) 0
        ⟨0, 0⟩ = .ok c ∧
      openWith (Settings.withoutCache {}) Expression.evaluate .campaign (.ofStored ∅)
        (.ofHistory (.start ⟨0, 0⟩)) 0 ⟨0, 0⟩ = .ok c' ∧
      ((c.run rehearsal).2.present (happening "p")).1.label ≠
        ((c'.run rehearsal).2.present (happening "p")).1.label := by
  refine ⟨_, _, rfl, rfl, ?_⟩
  decide +kernel

end Context

end Paywall
