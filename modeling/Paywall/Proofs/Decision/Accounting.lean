import Paywall.Proofs.Assignment.Reporting
import Paywall.Proofs.Decision.Commitment
import Paywall.Proofs.Decision.Precedence

/-!
# The events account for the outcomes

What a request reports is determined by whether it is for an event and by how it ends. So the events of
a run of requests add up: every load that is started is completed or fails, and there are as many events
of each ending as requests that ended so. Confirmations are reported besides, each as often as it is
performed, once the request that performs it is done.
-/

namespace Paywall

/-- What a request for an event reports of its trigger, once a variant is found. -/
def Request.firing (r : Request) : List EventKind :=
  if r.event?.isSome then [.triggerFire] else []

/-- What a request reports, by its outcome. An error that comes from the assignments is met before
anything is reported. -/
def Request.report (r : Request) : Outcome → List EventKind
  | .eventNotFound => [.eventNotFound]
  | .noRuleMatch _ => [.noRuleMatch]
  | .holdout _ => [.triggerFire, .holdout]
  | .error (.assignment _) => []
  | .error _ => r.firing ++ [.loadStart, .loadFail]
  | .skipped _ => r.firing ++ [.loadStart, .loadComplete, .presentationSkipped]
  | .paywall .. => r.firing ++ [.loadStart, .loadComplete]

namespace EventLog

/-- What has been reported apart from confirmations. -/
def stages (log : EventLog) : List EventKind :=
  (log.map (·.kind)).filter (· ≠ .assignmentConfirmed)

/-- The confirmations that have been reported. -/
def confirmations (log : EventLog) : EventLog := log.filter (·.kind = .assignmentConfirmed)

theorem stages_append (log log' : EventLog) : stages (log ++ log') = log.stages ++ log'.stages := by
  simp only [stages, List.map_append, List.filter_append]

theorem confirmations_append (log log' : EventLog) :
    confirmations (log ++ log') = log.confirmations ++ log'.confirmations := List.filter_append ..

end EventLog

/-! ## Reports -/

theorem assignmentConfirmed_not_mem_report (r : Request) (o : Outcome) :
    EventKind.assignmentConfirmed ∉ r.report o := by
  have hfiring : EventKind.assignmentConfirmed ∉ r.firing := by
    unfold Request.firing
    split <;> simp
  cases o with
  | error cause => cases cause <;> simp [Request.report, hfiring]
  | _ => simp [Request.report, hfiring]

/-- A report is all that its events add to the stages of a log. -/
theorem EventLog.stages_of_report {log : EventLog} {r : Request} {o : Outcome}
    (h : log.map (·.kind) = r.report o) : log.stages = r.report o ∧ log.confirmations = [] := by
  have hnot := assignmentConfirmed_not_mem_report r o
  constructor
  · rw [stages, h, List.filter_eq_self]
    intro k hk
    simpa using fun heq : k = .assignmentConfirmed => hnot (heq ▸ hk)
  · rw [confirmations, List.filter_eq_nil_iff]
    intro e he
    simpa using fun heq : e.kind = .assignmentConfirmed =>
      hnot (h ▸ heq ▸ List.mem_map_of_mem he)

theorem EventLog.stages_confirmations (c : Context) (posts : List ConfirmableAssignment) :
    EventLog.stages (posts.map c.confirmationEvent) = [] ∧
      EventLog.confirmations (posts.map c.confirmationEvent) = posts.map c.confirmationEvent := by
  constructor
  · rw [stages, List.filter_eq_nil_iff]
    intro k hk
    obtain ⟨e, he, rfl⟩ := List.mem_map.mp hk
    obtain ⟨a, -, rfl⟩ := List.mem_map.mp he
    simp [Context.confirmationEvent, DecisionEvent.withExperiment, DecisionEvent.make]
  · rw [confirmations, List.filter_eq_self]
    intro e he
    obtain ⟨a, -, rfl⟩ := List.mem_map.mp he
    rfl

namespace AssignmentStore

variable {s t : AssignmentStore}

/-- What has been confirmed on the way from one store to another: the experiments that had no confirmed
variant and have one now. -/
def confirmedSince (s t : AssignmentStore) : List ConfirmableAssignment :=
  (t.confirmed.entries.filter fun e => !s.confirmed.contains e.1).map fun e => ⟨e.1, e.2⟩

theorem confirmedSince_of_kept (h : t.confirmed = s.confirmed) : s.confirmedSince t = [] := by
  have hnone : (t.confirmed.entries.filter fun e => !s.confirmed.contains e.1) = [] := by
    rw [List.filter_eq_nil_iff]
    rintro ⟨id, v⟩ he
    have hget := Table.mem_entries_iff.mp he
    simp [Table.contains, ← h, hget]
  rw [confirmedSince, hnone, List.map_nil]

theorem confirmedSince_of_insert {a : ConfirmableAssignment}
    (hnone : s.confirmed.get? a.experimentId = none)
    (h : t.confirmed = s.confirmed.insert a.experimentId a.variant) : s.confirmedSince t = [a] := by
  have hmem (e : String × Variant) :
      e ∈ (t.confirmed.entries.filter fun e => !s.confirmed.contains e.1) ↔
        e = (a.experimentId, a.variant) := by
    obtain ⟨id, v⟩ := e
    rw [List.mem_filter, Table.mem_entries_iff, h, Table.get?_insert]
    by_cases hid : a.experimentId = id
    · subst hid
      simp [Table.contains, hnone, eq_comm]
    · simp only [if_neg hid, Prod.mk.injEq, Ne.symm hid, false_and, iff_false]
      rintro ⟨hget, hnew⟩
      simp [Table.contains, hget] at hnew
  have hnodup := (Entries.Sorted.nodup t.confirmed.sorted).filter fun e => !s.confirmed.contains e.1
  have hperm := (List.perm_ext_iff_of_nodup hnodup
    (List.nodup_singleton (a.experimentId, a.variant))).mpr fun e => by rw [hmem, List.mem_singleton]
  rw [confirmedSince, List.perm_singleton.mp hperm]
  rfl

/-- A call that confirms says so, and no other call does. -/
theorem confirmedSince_confirm (s : AssignmentStore) (a : ConfirmableAssignment) :
    s.confirmedSince (s.confirm a).2 =
      ((StoreCall.confirm a).performed (.confirmed (s.confirm a).1)).toList := by
  rcases s.confirm_cases a with ⟨-, heq⟩ | ⟨hnot, -, heq⟩ | ⟨-, reason, -, heq⟩
  · rw [heq]
    exact confirmedSince_of_kept rfl
  · rw [heq]
    have hnone : s.confirmed.get? a.experimentId = none := by
      simpa [Table.contains] using hnot
    exact confirmedSince_of_insert hnone rfl
  · rw [heq]
    exact confirmedSince_of_kept rfl

/-- What has been confirmed on the way waits in the outbox behind what waited there, and nothing else. -/
def Posts (s t : AssignmentStore) : Prop := t.outbox = s.outbox ++ s.confirmedSince t

theorem posts_of_kept (hconfirmed : t.confirmed = s.confirmed) (houtbox : t.outbox = s.outbox) :
    s.Posts t := by
  rw [Posts, confirmedSince_of_kept hconfirmed, houtbox, List.append_nil]

theorem posts_of_resolve {e : Experiment} {x : Except AssignmentError ResolvedVariant}
    (h : s.resolve e = (x, t)) : s.Posts t := by
  have hconfirmed := (s.confirmed_record_resolve e).1
  have houtbox := s.outbox_resolve e
  rw [h] at hconfirmed houtbox
  exact posts_of_kept hconfirmed houtbox

/-- What is resolved first makes no difference to a confirmation. -/
theorem Posts.confirm (h : s.Posts t) (hconfirmed : t.confirmed = s.confirmed)
    (a : ConfirmableAssignment) : s.Posts (t.confirm a).2 := by
  have houtbox : (t.confirm a).2.outbox =
      t.outbox ++ ((StoreCall.confirm a).performed (.confirmed (t.confirm a).1)).toList :=
    t.outbox_perform (.confirm a)
  have hsame : s.confirmedSince (t.confirm a).2 = t.confirmedSince (t.confirm a).2 := by
    simp only [confirmedSince, hconfirmed]
  rw [Posts, houtbox, h, confirmedSince_of_kept hconfirmed, List.append_nil, hsame,
    confirmedSince_confirm]

end AssignmentStore

namespace Context

variable {c c' : Context} {r : Request} {d : Decision}

/-! ## What a request reports -/

/-- No fetch fails for want of a variant. -/
theorem fetch_ne_assignment (c : Context) (f : FetchRequest) (reason : String) :
    c.fetch f ≠ .error (.assignment reason) := by
  have hmapped (result : Except FetchError Resource) :
      result.mapError PaywallError.ofFetch ≠ .error (.assignment reason) := by
    rcases result with (_ | _ | _) | p <;> nofun
  exact hmapped _

theorem serve_ne_assignment (c : Context) (f : FetchRequest) (bypass : Bool) (reason : String) :
    (c.serve f bypass).1 ≠ .error (.assignment reason) := by
  rw [serve_fst]
  split
  · split
    · exact c.fetch_ne_assignment _ reason
    · nofun
  · exact c.fetch_ne_assignment _ reason

theorem report_error {cause : PaywallError} (h : ∀ reason, cause ≠ .assignment reason) :
    r.report (.error cause) = r.firing ++ [.loadStart, .loadFail] := by
  cases cause with
  | assignment reason => exact absurd rfl (h reason)
  | _ => rfl

/-- A request that has started to load reports how that went, and whether it was of use. -/
theorem events_finish (c : Context) (d : Decision) {result : Except PaywallError Resource}
    (hresult : ∀ reason, result ≠ .error (.assignment reason)) :
    ∃ log, (c.finish d result).2.events = c.events ++ log ∧
      ∀ r : Request, r.report (c.finish d result).1 = r.firing ++ .loadStart :: log.map (·.kind) := by
  cases result with
  | error cause =>
    have hcause (reason : String) : cause ≠ .assignment reason := fun h =>
      hresult reason (congrArg _ h)
    exact ⟨_, rfl, fun r => report_error hcause⟩
  | ok p =>
    simp only [finish_ok]
    split
    · refine ⟨_, List.append_assoc .., fun r => rfl⟩
    · rw [commit_eq]
      exact ⟨_, rfl, fun r => rfl⟩

theorem events_conclude (c : Context) (d : Decision) :
    ∃ log, (c.conclude d).2.events = c.events ++ log ∧ log ≠ [] ∧
      ∀ r : Request, r.report (c.conclude d).1 = r.firing ++ log.map (·.kind) := by
  have hserved : ((c.loading d).serve (c.fetchRequest d) (c.bypassesCache d.request)).2.events =
      (c.loading d).events := by rw [serve_eq]
  obtain ⟨log, hevents, hreport⟩ := events_finish
    ((c.loading d).serve (c.fetchRequest d) (c.bypassesCache d.request)).2 d
    (serve_ne_assignment _ _ _)
  rw [hserved] at hevents
  exact ⟨_, hevents.trans (List.append_assoc ..), by simp, hreport⟩

theorem events_recordRequest (c : Context) (r : Request) :
    (c.recordRequest r).events = c.events := by
  rw [recordRequest_eq]

/-- A request that ends before it asks for a paywall reports what its outcome says. -/
theorem events_of_error {o : Outcome} (h : Assigned c r (.error o) c') :
    ∃ log, c'.events = c.events ++ log ∧ log.map (·.kind) = r.report o := by
  have hnoted := c.events_recordRequest r
  cases h with
  | eventNotFound hr hj | noRuleMatch hr hj => exact ⟨_, congrArg (· ++ _) hnoted, rfl⟩
  | noVariant hr hj hs =>
    have hlacks := AssignmentStore.resolve_of_lacks
      (AssignmentStore.lacks_of_resolve (congrArg Prod.fst hs))
    rw [hs] at hlacks
    cases hlacks
    exact ⟨[], hnoted.trans (List.append_nil _).symm, rfl⟩
  | holdout hr hj hs hv =>
    rw [commit_eq]
    exact ⟨_, (List.append_assoc ..).trans (congrArg (· ++ _) hnoted), rfl⟩

/-- A request that is brought to a variant has reported its trigger by then, if it is for an event. -/
theorem events_of_ok (h : Assigned c r (.ok d) c') :
    ∃ log, c'.events = c.events ++ log ∧ log.map (·.kind) = r.firing := by
  cases h with
  | direct hr =>
    refine ⟨[], (List.append_nil _).symm, ?_⟩
    simp [Request.firing, hr]
  | treatment hr hj hs hv =>
    refine ⟨_, congrArg (· ++ [_]) (c.events_recordRequest r), ?_⟩
    simp [Request.firing, hr, DecisionEvent.withExperiment, DecisionEvent.make]

/-- A request reports what its outcome says, and nothing else. -/
theorem events_present (c : Context) (r : Request) :
    ∃ log, (c.present r).2.events = c.events ++ log ∧
      log.map (·.kind) = r.report (c.present r).1 := by
  obtain ⟨x, c', h⟩ := exists_assigned c r
  cases x with
  | error o =>
    rw [present_of_error h]
    exact events_of_error h
  | ok d =>
    obtain ⟨first, hfirst, hfiring⟩ := events_of_ok h
    obtain ⟨rest, hrest, -, hreport⟩ := c'.events_conclude d
    rw [present_of_ok h, hreport r, ← hfiring, ← List.map_append]
    refine ⟨first ++ rest, ?_, rfl⟩
    rw [hrest, hfirst, List.append_assoc]

theorem posts_commit {m : RuleMatch} {v : ResolvedVariant}
    (hs : c.assignments.resolve m.rule.experiment = (.ok v, c'.assignments)) :
    c.assignments.Posts (c'.commit (.ofVariant r c.user m v)).assignments := by
  have hresolved := AssignmentStore.posts_of_resolve hs
  have hconfirmed := (c.assignments.confirmed_record_resolve m.rule.experiment).1
  rw [hs] at hconfirmed
  cases hspec : r.speculative with
  | true =>
    rw [commit_of_speculative hspec]
    exact hresolved
  | false =>
    rw [assignments_commit c' c.user m v hspec]
    split
    · exact hresolved.confirm hconfirmed _
    · exact hresolved

/-- What a request confirms it posts, and it posts nothing else. -/
theorem posts_present (c : Context) (r : Request) :
    c.assignments.Posts (c.present r).2.assignments := by
  have hkept {t : AssignmentStore} (h : t = c.assignments) : c.assignments.Posts t :=
    AssignmentStore.posts_of_kept (congrArg _ h) (congrArg _ h)
  obtain ⟨x, c', h⟩ := exists_assigned c r
  cases x with
  | error o =>
    rw [present_of_error h]
    cases h with
    | eventNotFound hr hj | noRuleMatch hr hj => exact hkept assignments_recordRequest
    | noVariant hr hj hs => exact AssignmentStore.posts_of_resolve hs
    | holdout hr hj hs hv => exact posts_commit hs
  | ok d =>
    rw [present_of_ok h]
    cases h with
    | direct hr => exact hkept (c.conclude_start_frame r c.user).1
    | @treatment e m v s hr hj hs hv =>
      rcases conclude_cases (c.fired r m v s) (.ofVariant r c.user m v) with
        ⟨p, c', heq, hstore, -, -⟩ | ⟨-, hstore, -⟩
      · rw [heq]
        exact posts_commit (hs.trans (by rw [hstore]; rfl))
      · rw [hstore]
        exact AssignmentStore.posts_of_resolve hs

/-! ## Runs -/

theorem confirmationEvent_congr (h : c'.now = c.now) : c'.confirmationEvent = c.confirmationEvent := by
  funext a
  simp only [confirmationEvent, h]

/-- What the requests of a run confirm, one after the other. -/
def performed (c : Context) : List Request → List ConfirmableAssignment
  | [] => []
  | r :: rest =>
    c.assignments.confirmedSince (c.present r).2.assignments ++ performed (c.step (.present r)).2 rest

/-- A log accounts for a run of requests and their outcomes: it has what each of them reports, in order,
and besides that the confirmations that were waiting and those that are performed. -/
structure Accounts (c : Context) (rs : List Request) (os : List Outcome) (log : EventLog) : Prop where
  events : (c.run (rs.map .present)).2.events = c.events ++ log
  stages : log.stages = (List.zipWith Request.report rs os).flatten
  confirmations : ∃ posts, log.confirmations = posts.map c.confirmationEvent ∧
    posts ++ (c.run (rs.map .present)).2.assignments.outbox = c.assignments.outbox ++ c.performed rs

theorem events_step_present (c : Context) (r : Request) :
    ∃ log, (c.step (.present r)).2.events = c.events ++ log ∧
      log.stages = r.report (c.present r).1 ∧
      log.confirmations = (c.present r).2.assignments.outbox.map c.confirmationEvent := by
  obtain ⟨reported, hevents, hreport⟩ := c.events_present r
  obtain ⟨hstages, hconfirmations⟩ := EventLog.stages_of_report hreport
  obtain ⟨hnone, hall⟩ := EventLog.stages_confirmations c (c.present r).2.assignments.outbox
  have hnow : (c.present r).2.now = c.now := congrArg Scene.now scene_present
  have hdelivered : (c.step (.present r)).2.events = (c.present r).2.events ++
      (c.present r).2.assignments.outbox.map c.confirmationEvent := by
    rw [← confirmationEvent_congr hnow]
    exact congrArg Context.events (c.present r).2.deliver_eq
  refine ⟨reported ++ (c.present r).2.assignments.outbox.map c.confirmationEvent, ?_, ?_, ?_⟩
  · rw [hdelivered, hevents, List.append_assoc]
  · rw [EventLog.stages_append, hstages, hnone, List.append_nil]
  · rw [EventLog.confirmations_append, hconfirmations, hall, List.nil_append]

/-- One more request in front: what it confirms is delivered before the next one begins. -/
theorem Accounts.cons {rs : List Request} {os : List Outcome} {log : EventLog} (r : Request)
    (h : (c.step (.present r)).2.Accounts rs os log) :
    ∃ log', c.Accounts (r :: rs) ((c.present r).1 :: os) log' := by
  obtain ⟨first, hevents, hstages, hconfirmations⟩ := c.events_step_present r
  obtain ⟨posts, hposts, hbalance⟩ := h.confirmations
  have hdelivered : (c.step (.present r)).2 = (c.present r).2.deliver := rfl
  have hnow : (c.step (.present r)).2.now = c.now := by
    rw [hdelivered, deliver_eq]
    exact congrArg Scene.now scene_present
  have hempty : (c.step (.present r)).2.assignments.outbox = [] := by
    rw [hdelivered, deliver_eq]
    rfl
  have houtbox : (c.present r).2.assignments.outbox =
      c.assignments.outbox ++ c.assignments.confirmedSince (c.present r).2.assignments :=
    posts_present c r
  refine ⟨first ++ log, ?_, ?_, (c.present r).2.assignments.outbox ++ posts, ?_, ?_⟩
  · rw [← List.append_assoc, ← hevents, ← h.events]
    rfl
  · rw [EventLog.stages_append, hstages, h.stages]
    rfl
  · rw [EventLog.confirmations_append, hconfirmations, hposts, confirmationEvent_congr hnow,
      List.map_append]
  · rw [hempty, List.nil_append] at hbalance
    have hrest : (c.run ((r :: rs).map .present)).2 =
        ((c.step (.present r)).2.run (rs.map .present)).2 := rfl
    rw [hrest, List.append_assoc, hbalance, houtbox, List.append_assoc, performed]

/-- Of two requests for one experiment the first one confirms it. -/
example : ∃ c, openWith {} Expression.evaluate .campaign (.ofStored ∅) (.ofHistory (.start ⟨0, 0⟩)) 0
      ⟨0, 0⟩ = .ok c ∧
    (c.load (.ok heldBack)).2.performed
        [.forEvent ⟨"close", ∅, ⟨0, 0⟩⟩, .forEvent ⟨"close", ∅, ⟨60, 0⟩⟩] =
      [⟨"e", ⟨"v", .treatment, some "p"⟩⟩] :=
  ⟨_, rfl, by decide +kernel⟩

end Context

end Paywall
