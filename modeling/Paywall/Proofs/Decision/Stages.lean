import Paywall.Decision.Run

/-!
# The parts of a request

A request is brought to a variant (`assign`), and concluded: its paywall is got by way of the cache
(`serve`), and it is ended with that (`finish`). `Assigned` lists the ways in which the first part
can go, with the context behind each. What is said about requests elsewhere rests on these, and not
on the stages that they are made of.
-/

namespace Paywall

/-- The experiment of a matched rule, with the variant of the user. -/
def RuleMatch.assigned (m : RuleMatch) (v : ResolvedVariant) : AssignedExperiment :=
  ⟨m.rule.experiment.id, m.rule.experiment.groupId, v.variant⟩

namespace Decision

/-- A request whose event has been matched. -/
def ofMatch (r : Request) (user : User) (m : RuleMatch) : Decision := ⟨r, user, some m, none, false⟩

/-- A request whose variant is known. -/
def ofVariant (r : Request) (user : User) (m : RuleMatch) (v : ResolvedVariant) : Decision :=
  ⟨r, user, some m, some (m.assigned v), v.confirmable⟩

/-- A paywall as a request presents it. -/
def present (d : Decision) (p : Resource) : Resource :=
  p.finalize d.experiment d.user.purchased d.request.overrides.freeTrial

end Decision

/-- What a request cannot change. -/
structure Scene where
  settings : Settings
  evaluator : Evaluator
  source : PaywallSource
  campaign : Option Campaign
  user : User
  now : Instant

namespace Context

variable {c : Context} {r : Request} {d : Decision}

/-- The part of a context that a request cannot change. -/
def scene (c : Context) : Scene :=
  ⟨c.settings, c.evaluator, c.source, c.campaign, c.user, c.now⟩

/-- Notes and matches the event of a request and resolves its variant. -/
def assign (c : Context) (r : Request) : Except Outcome Decision × Context :=
  match (c.recordRequest r).matchRule (.start r c.user) with
  | (.error outcome, c) => (.error outcome, c)
  | (.ok d, c) => c.resolveVariant d

/-- A context that has reported that a paywall is being loaded. -/
def loading (c : Context) (d : Decision) : Context :=
  c.emit .loadStart d.request.eventName (·.withPaywall d.identifier)

/-- Gets the paywall of a request and ends the request with it. -/
def conclude (c : Context) (d : Decision) : Outcome × Context :=
  let (result, served) := (c.loading d).serve (c.fetchRequest d) (c.bypassesCache d.request)
  served.finish d result

theorem begin_eq (c : Context) (r : Request) (number : Nat) :
    c.begin r number =
      match c.assign r with
      | (.error outcome, c) => (.error outcome, c)
      | (.ok d, c) => (.ok (c.askForPaywall d number).1, (c.askForPaywall d number).2) := by
  unfold begin assign
  rcases hm : (c.recordRequest r).matchRule (.start r c.user) with ⟨outcome | d, c₁⟩
  · simp only [hm]
  · rcases hv : c₁.resolveVariant d with ⟨outcome | d', c₂⟩ <;> simp only [hm, hv]

/-- A request is brought to a variant and concluded. -/
theorem present_eq (c : Context) (r : Request) :
    c.present r =
      match c.assign r with
      | (.error outcome, c) => (outcome, c)
      | (.ok d, c) => c.conclude d := by
  unfold present
  rw [begin_eq]
  rcases c.assign r with ⟨_ | _, _⟩ <;> rfl

/-- Preloading serves a paywall to nobody. -/
theorem warm_eq (c : Context) (identifier : String) :
    c.warm identifier =
      ((c.serve (c.preloadFetch identifier) false).1.isOk,
        (c.serve (c.preloadFetch identifier) false).2) := rfl

/-! ## Bringing a request to a variant -/

/-- What becomes of the event of a request, once it is noted. -/
def judge (c : Context) (r : Request) (e : HostEvent) : RuleOutcome :=
  matchEvent c.evaluator ((c.recordRequest r).ledger.counter c.now)
    (c.situation (.start r c.user) e) c.campaign

/-- A context in which the variant of a matched rule is known and reported. -/
def fired (c : Context) (r : Request) (m : RuleMatch) (v : ResolvedVariant)
    (assignments : AssignmentStore) : Context :=
  { c.recordRequest r with assignments }.emit .triggerFire r.eventName
    (·.withExperiment m.rule.experiment.id v.variant.id)

/-- A fired context that has reported a holdout. -/
def heldOut (c : Context) (r : Request) (m : RuleMatch) (v : ResolvedVariant)
    (assignments : AssignmentStore) : Context :=
  (c.fired r m v assignments).emit .holdout r.eventName
    (·.withExperiment m.rule.experiment.id v.variant.id)

/-- The ways in which a request is brought to a variant, or ends before. -/
inductive Assigned (c : Context) (r : Request) : Except Outcome Decision → Context → Prop where
  /-- A paywall is asked for by name. -/
  | direct (hr : r.event? = none) : Assigned c r (.ok (.start r c.user)) c
  | eventNotFound {e : HostEvent} (hr : r.event? = some e) (hj : c.judge r e = .eventNotFound) :
      Assigned c r (.error .eventNotFound) ((c.recordRequest r).emit .eventNotFound (some e.name) id)
  | noRuleMatch {e : HostEvent} {ms : List Mismatch} (hr : r.event? = some e)
      (hj : c.judge r e = .noMatch ms) :
      Assigned c r (.error (.noRuleMatch ms)) ((c.recordRequest r).emit .noRuleMatch (some e.name) id)
  | noVariant {e : HostEvent} {m : RuleMatch} {error : AssignmentError} {s : AssignmentStore}
      (hr : r.event? = some e) (hj : c.judge r e = .matched m)
      (hs : c.assignments.resolve m.rule.experiment = (.error error, s)) :
      Assigned c r (.error (.error (.ofAssignment error))) { c.recordRequest r with assignments := s }
  | holdout {e : HostEvent} {m : RuleMatch} {v : ResolvedVariant} {s : AssignmentStore}
      (hr : r.event? = some e) (hj : c.judge r e = .matched m)
      (hs : c.assignments.resolve m.rule.experiment = (.ok v, s)) (hv : v.variant.kind = .holdout) :
      Assigned c r (.error (.holdout (m.assigned v)))
        ((c.heldOut r m v s).commit (.ofVariant r c.user m v))
  | treatment {e : HostEvent} {m : RuleMatch} {v : ResolvedVariant} {s : AssignmentStore}
      (hr : r.event? = some e) (hj : c.judge r e = .matched m)
      (hs : c.assignments.resolve m.rule.experiment = (.ok v, s))
      (hv : v.variant.kind = .treatment) :
      Assigned c r (.ok (.ofVariant r c.user m v)) (c.fired r m v s)

/-- Noting an event touches the history only. -/
theorem recordRequest_eq (c : Context) (r : Request) :
    c.recordRequest r = { c with ledger := (c.recordRequest r).ledger } := by
  unfold recordRequest
  split
  · rfl
  · split
    · rfl
    · split <;> rfl

theorem ledger_recordRequest (c : Context) (r : Request) :
    (c.recordRequest r).ledger = c.ledger ∨
      ∃ e, r.event? = some e ∧ (c.recordRequest r).ledger =
        { c.ledger with history := c.ledger.history.recordEvent e.name e.createdAt } := by
  unfold recordRequest
  split
  · exact Or.inl rfl
  · next e he =>
    split
    · exact Or.inl rfl
    · unfold Ledger.recordEvent Ledger.call
      split
      · next hl =>
        split at hl
        · cases hl
        · cases hl
          exact Or.inr ⟨e, he, rfl⟩
      · exact Or.inl rfl

theorem recordRequest_of_direct (h : r.event? = none) : c.recordRequest r = c := by
  simp [recordRequest, h]

theorem recordRequest_of_speculative (h : r.speculative = true) : c.recordRequest r = c := by
  unfold recordRequest
  split
  · rfl
  · rw [if_pos h]

theorem matchRule_of_event {e : HostEvent} (hr : r.event? = some e) :
    (c.recordRequest r).matchRule (.start r c.user) =
      match c.judge r e with
      | .matched m => (.ok (.ofMatch r c.user m), c.recordRequest r)
      | .noMatch ms =>
        (.error (.noRuleMatch ms), (c.recordRequest r).emit .noRuleMatch (some e.name) id)
      | .eventNotFound =>
        (.error .eventNotFound, (c.recordRequest r).emit .eventNotFound (some e.name) id) := by
  have hjudge : matchEvent (c.recordRequest r).evaluator
      ((c.recordRequest r).ledger.counter (c.recordRequest r).now)
      ((c.recordRequest r).situation (.start r c.user) e) (c.recordRequest r).campaign =
        c.judge r e := by
    rw [recordRequest_eq]
    rfl
  simp only [matchRule, Decision.start, hr]
  rw [← Decision.start, hjudge]
  cases c.judge r e <;> rfl

theorem resolveVariant_of_match {m : RuleMatch} :
    (c.recordRequest r).resolveVariant (.ofMatch r c.user m) =
      match c.assignments.resolve m.rule.experiment with
      | (.error error, s) =>
        (.error (.error (.ofAssignment error)), { c.recordRequest r with assignments := s })
      | (.ok v, s) =>
        match v.variant.kind with
        | .holdout =>
          (.error (.holdout (m.assigned v)),
            (c.heldOut r m v s).commit (.ofVariant r c.user m v))
        | .treatment => (.ok (.ofVariant r c.user m v), c.fired r m v s) := by
  have hstore : (c.recordRequest r).assignments = c.assignments := by rw [recordRequest_eq]
  simp only [resolveVariant, Decision.ofMatch, hstore]
  rcases c.assignments.resolve m.rule.experiment with ⟨_ | v, s⟩
  · rfl
  · rcases hv : v.variant.kind <;> simp only [hv] <;> rfl

theorem assign_of_direct (hr : r.event? = none) : c.assign r = (.ok (.start r c.user), c) := by
  rw [assign, recordRequest_of_direct hr]
  simp only [matchRule, Decision.start, hr]
  rfl

/-- Every request is brought to a variant, or ends before, in one of the listed ways. -/
theorem exists_assigned (c : Context) (r : Request) : ∃ x c', Assigned c r x c' := by
  cases hr : r.event? with
  | none => exact ⟨_, _, .direct hr⟩
  | some e =>
    cases hj : c.judge r e with
    | eventNotFound => exact ⟨_, _, .eventNotFound hr hj⟩
    | noMatch ms => exact ⟨_, _, .noRuleMatch hr hj⟩
    | matched m =>
      rcases hs : c.assignments.resolve m.rule.experiment with ⟨error | v, s⟩
      · exact ⟨_, _, .noVariant hr hj hs⟩
      · cases hv : v.variant.kind with
        | treatment => exact ⟨_, _, .treatment hr hj hs hv⟩
        | holdout => exact ⟨_, _, .holdout hr hj hs hv⟩

/-- The listed ways are those of the program. -/
theorem Assigned.eq {x : Except Outcome Decision} {c' : Context} (h : Assigned c r x c') :
    c.assign r = (x, c') := by
  cases h with
  | direct hr => exact assign_of_direct hr
  | eventNotFound hr hj | noRuleMatch hr hj => rw [assign, matchRule_of_event hr, hj]
  | noVariant hr hj hs =>
    rw [assign, matchRule_of_event hr, hj]
    simp only [resolveVariant_of_match, hs]
  | holdout hr hj hs hv | treatment hr hj hs hv =>
    rw [assign, matchRule_of_event hr, hj]
    simp only [resolveVariant_of_match, hs, hv]

theorem Assigned.request_eq {c' : Context} (h : Assigned c r (.ok d) c') : d.request = r := by
  cases h <;> rfl

/-! ## What the parts leave alone -/

@[simp] theorem scene_emit (k : EventKind) (n : Option String) (f : DecisionEvent → DecisionEvent) :
    (c.emit k n f).scene = c.scene := rfl

@[simp] theorem cache_emit (k : EventKind) (n : Option String) (f : DecisionEvent → DecisionEvent) :
    (c.emit k n f).cache = c.cache := rfl

@[simp] theorem scene_recordRequest : (c.recordRequest r).scene = c.scene := by
  rw [recordRequest_eq]
  rfl

@[simp] theorem cache_recordRequest : (c.recordRequest r).cache = c.cache := by
  rw [recordRequest_eq]

@[simp] theorem assignments_recordRequest : (c.recordRequest r).assignments = c.assignments := by
  rw [recordRequest_eq]

/-- Committing touches the assignments and the history only. -/
theorem commit_eq (c : Context) (d : Decision) :
    c.commit d =
      { c with assignments := (c.commit d).assignments, ledger := (c.commit d).ledger } := by
  unfold commit confirmAssignment recordOccurrence
  split
  · rfl
  · split <;> split <;> try rfl
    all_goals split <;> rfl

@[simp] theorem scene_commit : (c.commit d).scene = c.scene := by
  rw [commit_eq]
  rfl

@[simp] theorem cache_commit : (c.commit d).cache = c.cache := by
  rw [commit_eq]

/-- Bringing a request to a variant touches neither the scene nor the cache. -/
theorem Assigned.frame {x : Except Outcome Decision} {c' : Context} (h : Assigned c r x c') :
    c'.scene = c.scene ∧ c'.cache = c.cache := by
  have noted : (c.recordRequest r).scene = c.scene ∧ (c.recordRequest r).cache = c.cache :=
    ⟨scene_recordRequest, cache_recordRequest⟩
  cases h with
  | direct => exact ⟨rfl, rfl⟩
  | eventNotFound | noRuleMatch | noVariant | treatment => exact noted
  | holdout => exact ⟨scene_commit.trans noted.1, cache_commit.trans noted.2⟩

/-- Getting a paywall touches the cache and the fetches only. -/
theorem serve_eq (c : Context) (f : FetchRequest) (bypass : Bool) :
    (c.serve f bypass).2 =
      { c with cache := (c.serve f bypass).2.cache, fetches := (c.serve f bypass).2.fetches } := by
  unfold serve ask
  rcases c.cache.resolve f.key bypass ⟨0, f⟩ with ⟨_ | _ | _, cache⟩ <;> rfl

@[simp] theorem scene_serve (f : FetchRequest) (bypass : Bool) :
    (c.serve f bypass).2.scene = c.scene := by
  rw [serve_eq]
  rfl

@[simp] theorem assignments_serve (f : FetchRequest) (bypass : Bool) :
    (c.serve f bypass).2.assignments = c.assignments := by
  rw [serve_eq]

@[simp] theorem ledger_serve (f : FetchRequest) (bypass : Bool) :
    (c.serve f bypass).2.ledger = c.ledger := by
  rw [serve_eq]

theorem askForPaywall_eq (c : Context) (d : Decision) (number : Nat) :
    c.askForPaywall d number =
      let asked := (c.loading d).ask (c.fetchRequest d) (c.bypassesCache d.request) number
      (⟨d, c.fetchRequest d, asked.1⟩, asked.2) := rfl

@[simp] theorem scene_askForPaywall (c : Context) (d : Decision) (number : Nat) :
    (c.askForPaywall d number).2.scene = c.scene := rfl

theorem finish_error (c : Context) (d : Decision) (cause : PaywallError) :
    c.finish d (.error cause) =
      (.error cause, c.emit .loadFail d.request.eventName (·.withPaywall d.identifier)) := rfl

theorem finish_ok (c : Context) (d : Decision) (p : Resource) :
    c.finish d (.ok p) =
      let loaded := c.emit .loadComplete d.request.eventName (·.withPaywall (some p.identifier))
      if c.isSkipped d (d.present p) then
        (.skipped .subscribed,
          loaded.emit .presentationSkipped d.request.eventName (·.withPaywall (some p.identifier)))
      else (.paywall (d.present p) d.experiment, loaded.commit d) := rfl

/-- How a request ends with what it got for a paywall. -/
def verdict (c : Context) (d : Decision) : Except PaywallError Resource → Outcome
  | .error cause => .error cause
  | .ok p =>
    if c.isSkipped d (d.present p) then .skipped .subscribed
    else .paywall (d.present p) d.experiment

theorem finish_fst (c : Context) (d : Decision) (result : Except PaywallError Resource) :
    (c.finish d result).1 = c.verdict d result := by
  cases result with
  | error cause => rfl
  | ok p =>
    simp only [finish_ok, verdict]
    split <;> rfl

theorem finish_frame (c : Context) (d : Decision) (result : Except PaywallError Resource) :
    (c.finish d result).2.scene = c.scene ∧ (c.finish d result).2.cache = c.cache := by
  cases result with
  | error cause => simp [finish_error]
  | ok p =>
    simp only [finish_ok]
    split <;> simp

/-- Whether a request is skipped depends on the settings only. -/
theorem verdict_congr_settings {c' : Context} (h : c'.settings = c.settings)
    (result : Except PaywallError Resource) : c'.verdict d result = c.verdict d result := by
  have hskipped (p : Resource) : c'.isSkipped d p = c.isSkipped d p := by
    unfold isSkipped isPreview
    rw [h]
  cases result with
  | error cause => rfl
  | ok p => simp only [verdict, hskipped]

theorem verdict_congr {c' : Context} (h : c'.scene = c.scene)
    (result : Except PaywallError Resource) : c'.verdict d result = c.verdict d result :=
  verdict_congr_settings (congrArg Scene.settings h) result

theorem conclude_fst (c : Context) (d : Decision) :
    (c.conclude d).1 =
      c.verdict d ((c.loading d).serve (c.fetchRequest d) (c.bypassesCache d.request)).1 := by
  have hscene : ((c.loading d).serve (c.fetchRequest d) (c.bypassesCache d.request)).2.scene =
      c.scene := scene_serve ..
  rw [← verdict_congr hscene, ← finish_fst]
  rfl

/-- A request is concluded in a context that differs in the cache, the fetches and the events only. -/
theorem conclude_eq_finish (c : Context) (d : Decision) :
    ∃ (result : Except PaywallError Resource) (served : Context),
      c.conclude d = served.finish d result ∧ served.scene = c.scene ∧
        served.assignments = c.assignments ∧ served.ledger = c.ledger := by
  have hscene := scene_serve (c := c.loading d) (c.fetchRequest d) (c.bypassesCache d.request)
  have hstore := assignments_serve (c := c.loading d) (c.fetchRequest d) (c.bypassesCache d.request)
  have hledger := ledger_serve (c := c.loading d) (c.fetchRequest d) (c.bypassesCache d.request)
  exact ⟨_, _, rfl, hscene, hstore, hledger⟩

@[simp] theorem scene_conclude : (c.conclude d).2.scene = c.scene :=
  (finish_frame ..).1.trans (scene_serve ..)

theorem present_of_error {o : Outcome} {c' : Context} (h : Assigned c r (.error o) c') :
    c.present r = (o, c') := by
  rw [present_eq, h.eq]

theorem present_of_ok {c' : Context} (h : Assigned c r (.ok d) c') :
    c.present r = c'.conclude d := by
  rw [present_eq, h.eq]

@[simp] theorem scene_present : (c.present r).2.scene = c.scene := by
  obtain ⟨x, c', h⟩ := exists_assigned c r
  cases x with
  | error o => rw [present_of_error h, h.frame.1]
  | ok d => rw [present_of_ok h, scene_conclude, h.frame.1]

/-! ## Requests at the same time -/

/-- One more request begins among others. If its paywall is cached it ends at once. -/
def enter (c : Context) (r : Request) (number : Nat) : Progress × Context :=
  match c.begin r number with
  | (.error outcome, c) => (.ended outcome, c)
  | (.ok w, c) =>
    match w.resolution with
    | .hit resource =>
      let (outcome, c) := c.finish w.decision (.ok resource)
      (.ended outcome, c)
    | _ => (.waiting w, c)

theorem beginAll_cons (c : Context) (number : Nat) (r : Request) (rest : List Request) :
    c.beginAll number (r :: rest) =
      let (progress, begun) := c.enter r number
      (progress :: (begun.beginAll (number + 1) rest).1, (begun.beginAll (number + 1) rest).2) := rfl

/-! ## Delivering -/

/-- What a delivered confirmation is reported as. -/
def confirmationEvent (c : Context) (a : ConfirmableAssignment) : DecisionEvent :=
  (DecisionEvent.make .assignmentConfirmed none c.now).withExperiment a.experimentId a.variant.id

/-- Delivering empties the outbox into the events. -/
theorem deliver_eq (c : Context) :
    c.deliver = { c with
      assignments := c.assignments.takeOutbox.2
      events := c.events ++ c.assignments.outbox.map c.confirmationEvent } := by
  have hposts (posts : List ConfirmableAssignment) (c : Context) :
      posts.foldl (fun c a => c.emit .assignmentConfirmed none
        (·.withExperiment a.experimentId a.variant.id)) c =
          { c with events := c.events ++ posts.map c.confirmationEvent } := by
    induction posts generalizing c with
    | nil => simp
    | cons a rest ih =>
      rw [List.foldl_cons, ih]
      simp [emit, EventLog.emit, confirmationEvent]
  unfold deliver
  exact hposts ..

end Context

end Paywall
