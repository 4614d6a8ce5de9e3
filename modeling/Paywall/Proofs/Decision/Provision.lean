import Paywall.Proofs.Decision.Preloading

/-!
# Preloading by event provides for every variant

Preloading by event looks the events up in an index of the triggers and takes every treatment that it
finds there. A request scans for the first trigger of its event and follows the variant that the user
holds, or one that is drawn. The index answers like the scan, and what is drawn is an option of the
experiment. So a user who holds nothing but options is never after a paywall that has been left out.
-/

namespace Paywall

/-- The index of the triggers answers like the scan for the first trigger of an event. -/
theorem Campaign.get?_triggersByEvent (m : Campaign) (name : String) :
    m.triggersByEvent.get? name = m.trigger? name := by
  rw [triggersByEvent, Table.get?_ofListFirst, List.find?_map, Option.map_map]
  simp [trigger?, Function.comp_def, beq_eq_decide]

theorem mem_treatmentPaywalls {triggers : List Trigger} {identifier : String} :
    identifier ∈ treatmentPaywalls triggers ↔
      ∃ e ∈ experimentsOf triggers, ∃ o ∈ e.variants, o.kind = .treatment ∧
        o.paywallId = some identifier := by
  simp only [treatmentPaywalls, mem_sortedSet, List.mem_flatMap, List.mem_filterMap,
    List.mem_filter, beq_iff_eq, and_assoc]

namespace AssignmentStore

variable {s : AssignmentStore} {e : Experiment} {v : ResolvedVariant}

/-- Whether the variant that the user holds of an experiment, if any, is one of its options. -/
def HoldsOption (s : AssignmentStore) (e : Experiment) : Prop :=
  ∀ v, s.held? e.id = some v → ∃ o ∈ e.variants, o.toVariant = v

/-- An experiment of which the user holds an option, or nothing, resolves to one of its options. -/
theorem exists_option_of_resolve (h : s.HoldsOption e) (hv : (s.resolve e).1 = .ok v) :
    ∃ o ∈ e.variants, o.toVariant = v.variant := by
  cases hheld : s.held? e.id with
  | some w =>
    rw [resolve_held hheld] at hv
    cases hv
    exact h w hheld
  | none =>
    obtain ⟨hconfirmed, hunconfirmed⟩ :
        s.confirmed.get? e.id = none ∧ s.unconfirmed.get? e.id = none := by
      simpa [held?] using hheld
    by_cases hvariants : e.variants = []
    · rw [resolve_of_lacks ⟨hconfirmed, hunconfirmed, hvariants⟩] at hv
      cases hv
    · obtain ⟨o, ho, stream, hchoice⟩ := exists_chooseVariant hvariants s.stream
      have hdraw : s.draw e.variants = (.ok o.toVariant, { s with stream }) := by
        rw [draw, hchoice]
      unfold resolve at hv
      rw [hconfirmed, hunconfirmed, hdraw] at hv
      cases hv
      exact ⟨o, ho, rfl⟩

end AssignmentStore

namespace Context

variable {c later : Context} {r : Request} {d : Decision} {s : Sought} {m : Campaign}
  {names identifiers : List String} {identifier : String}

/-- The paywalls that are preloaded for some events: those of the treatments that the first trigger
of each offers. -/
theorem mem_eventPaywalls : identifier ∈ eventPaywalls m names ↔
    ∃ name ∈ names, ∃ t, m.trigger? name = some t ∧ ∃ rule ∈ t.rules,
      ∃ o ∈ rule.experiment.variants, o.kind = .treatment ∧ o.paywallId = some identifier := by
  simp only [eventPaywalls, mem_treatmentPaywalls, mem_experimentsOf, List.mem_filterMap,
    Campaign.get?_triggersByEvent]
  constructor
  · rintro ⟨_, ⟨t, ⟨name, hname, ht⟩, rule, hrule, rfl⟩, hoption⟩
    exact ⟨name, hname, t, ht, rule, hrule, hoption⟩
  · rintro ⟨name, hname, t, ht, rule, hrule, hoption⟩
    exact ⟨_, ⟨t, ⟨name, hname, ht⟩, rule, hrule, rfl⟩, hoption⟩

/-! ## What a request asks for -/

/-- What a request brings along to the end, it is after. -/
theorem Assigned.seeks (h : Assigned c r (.ok d) later) : c.Seeks r d.sought := by
  have hseeks : ∃ s, c.Seeks r s := by
    cases h with
    | direct hr =>
      obtain ⟨identifier, hidentifier⟩ := exists_paywallIdentifier hr
      exact ⟨_, .named hidentifier⟩
    | treatment hr hj hs hv =>
      exact ⟨_, .treatment (fires_of_judge hr hj) (congrArg Prod.fst hs) hv⟩
  obtain ⟨s, hs⟩ := hseeks
  obtain ⟨d', later', h', rfl, -⟩ := hs.exists_assigned
  cases h.eq.symm.trans h'.eq
  exact hs

/-- A request asks for the paywall that it is after. -/
theorem exists_seeks_of_begin {number : Nat} {w : Waiting} (h : (c.begin r number).1 = .ok w) :
    ∃ s, c.Seeks r s ∧ w.fetch = c.fetchFor r s := by
  obtain ⟨x, later, hassigned⟩ := exists_assigned c r
  rw [begin_eq, hassigned.eq] at h
  cases x with
  | error o => cases h
  | ok d =>
    cases h
    have hsettings : later.settings = c.settings := congrArg Scene.settings hassigned.frame.1
    exact ⟨d.sought, hassigned.seeks, fetchRequest_eq hsettings hassigned.request_eq⟩

/-- A request fetches at most the paywall that it is after. -/
theorem fetches_present_cases (c : Context) (r : Request) :
    (c.present r).2.fetches = c.fetches ∨
      ∃ s, c.Seeks r s ∧ (c.present r).2.fetches = c.fetches ++ [c.fetchFor r s] := by
  obtain ⟨x, later, h⟩ := exists_assigned c r
  cases x with
  | error o =>
    rw [present_of_error h]
    exact Or.inl h.fetches_eq
  | ok d =>
    have hsettings : later.settings = c.settings := congrArg Scene.settings h.frame.1
    have hbefore : (later.loading d).fetches = c.fetches := h.fetches_eq
    have hconclude : (c.present r).2.fetches = ((later.loading d).serve (c.fetchFor r d.sought)
        (later.bypassesCache d.request)).2.fetches := by
      rw [present_of_ok h, ← fetchRequest_eq hsettings h.request_eq]
      exact (cache_fetches_finish ..).2
    rw [hconclude, ← hbefore]
    exact (fetches_serve_cases ..).imp_right fun hfetched => ⟨d.sought, h.seeks, hfetched⟩

/-- The paywall that a request for one of the events is after is among those preloaded for them. -/
theorem Seeks.mem_eventPaywalls {e : HostEvent} (hs : c.Seeks r s) (hm : c.campaign = some m)
    (hheld : ∀ x ∈ experimentsOf m.triggers, c.assignments.HoldsOption x)
    (hr : r.event? = some e) (hname : e.name ∈ names) (hidentifier : s.identifier = some identifier) :
    identifier ∈ eventPaywalls m names := by
  cases hs with
  | named hnamed =>
    rw [event?_of_paywallIdentifier hnamed] at hr
    cases hr
  | @treatment rule v hrule hv hkind =>
    obtain ⟨m', hm', hoffered⟩ := hrule.exists_offered
    obtain ⟨e', t, hr', ht, -, before, after, hsplit, -⟩ := hrule
    cases hr.symm.trans hr'
    cases hm.symm.trans hm'
    rw [trigger?, hm, Option.bind_some] at ht
    have hmem : rule ∈ t.rules := by simp [hsplit]
    obtain ⟨o, ho, hvariant⟩ :=
      AssignmentStore.exists_option_of_resolve (hheld rule.experiment hoffered) hv
    rw [← hvariant] at hkind hidentifier
    exact Context.mem_eventPaywalls.mpr
      ⟨e.name, hname, t, ht, rule, hmem, o, ho, hkind, hidentifier⟩

/-! ## What preloading resolves -/

/-- A paywall is cached once it has been preloaded, unless its own fetch fails. -/
theorem exists_cachedPaywall_warm (hidle : c.Idle)
    (hobtains : c.Obtains (c.preloadFetch identifier)) :
    ∃ p, (c.warm identifier).2.cachedPaywall? identifier = some p := by
  obtain ⟨fs, hwarmed, hcached⟩ := warmed_warm hidle identifier
  have hfetches := hwarmed.fetches
  rw [warm_eq] at hfetches
  refine hcached fun f hf => ?_
  rcases fetches_serve_cases c (c.preloadFetch identifier) false with hsame | hfetched
  · rw [List.append_right_eq_self.mp (hfetches.symm.trans hsame)] at hf
    cases hf
  · rw [List.append_cancel_left (hfetches.symm.trans hfetched)] at hf
    rw [List.mem_singleton.mp hf]
    exact hobtains

/-- A paywall is cached once it has been preloaded among others, whether or not they are obtained. -/
theorem exists_cachedPaywall_warmAll (hidle : c.Idle) (hmem : identifier ∈ identifiers)
    (hobtains : c.Obtains (c.preloadFetch identifier)) :
    ∃ p, (c.warmAll identifiers).2.cachedPaywall? identifier = some p := by
  induction identifiers generalizing c with
  | nil => cases hmem
  | cons first rest ih =>
    obtain ⟨_, hfirst, -⟩ := warmed_warm hidle first
    obtain ⟨_, hrest, -⟩ := warmed_warmAll hfirst.idle rest
    rcases List.mem_cons.mp hmem with rfl | hmem
    · obtain ⟨p, hp⟩ := exists_cachedPaywall_warm hidle hobtains
      exact ⟨p, hrest.cachedPaywall? hp⟩
    · have hlater : (c.warm first).2.Obtains ((c.warm first).2.preloadFetch identifier) := by
        rw [hfirst.obtains_iff, preloadFetch, hfirst.settings_eq]
        exact hobtains
      exact ih hfirst.idle hmem hlater

theorem exists_cachedPaywall_preloadEvents (hidle : c.Idle)
    (henabled : c.settings.cache.enabled = true) (hm : c.campaign = some m)
    (hmem : identifier ∈ eventPaywalls m names)
    (hobtains : c.Obtains (c.preloadFetch identifier)) :
    ∃ p, (c.preloadEvents names).2.cachedPaywall? identifier = some p := by
  have hstarted : (c.emit .preloadStart none id).Idle := hidle
  simp only [preloadEvents, hm, preload, henabled, if_true]
  exact exists_cachedPaywall_warmAll hstarted hmem hobtains

/-- If a user holds nothing but options, the paywall that a request for one of the events asks for is
among those that are preloaded for them. So is what a request by itself fetches. And each of those is
cached once they have been preloaded, unless its own fetch fails. -/
theorem eventPaywalls_cover {e : HostEvent} (hm : c.campaign = some m)
    (hheld : ∀ x ∈ experimentsOf m.triggers, c.assignments.HoldsOption x)
    (hr : r.event? = some e) (hname : e.name ∈ names) :
    (∀ number w, (c.begin r number).1 = .ok w →
      ∀ identifier, w.fetch.identifier = some identifier → identifier ∈ eventPaywalls m names) ∧
    (∃ fs, (c.present r).2.fetches = c.fetches ++ fs ∧ ∀ f ∈ fs,
      ∀ identifier, f.identifier = some identifier → identifier ∈ eventPaywalls m names) ∧
    ∀ identifier ∈ eventPaywalls m names, ∀ preloading : Context,
      preloading.campaign = some m → preloading.settings.cache.enabled = true → preloading.Idle →
        preloading.Obtains (preloading.preloadFetch identifier) →
          ∃ p, (preloading.preloadEvents names).2.cachedPaywall? identifier = some p := by
  refine ⟨?_, ?_, ?_⟩
  · intro number w hw identifier hidentifier
    obtain ⟨s, hs, hfetch⟩ := exists_seeks_of_begin hw
    rw [hfetch] at hidentifier
    exact hs.mem_eventPaywalls hm hheld hr hname hidentifier
  · rcases c.fetches_present_cases r with hsame | ⟨s, hs, hfetched⟩
    · exact ⟨[], by rw [hsame, List.append_nil], fun f hf => absurd hf List.not_mem_nil⟩
    · refine ⟨_, hfetched, fun f hf identifier hidentifier => ?_⟩
      rw [List.mem_singleton.mp hf] at hidentifier
      exact hs.mem_eventPaywalls hm hheld hr hname hidentifier
  · intro identifier hmem preloading hpreloading henabled hidle hobtains
    exact exists_cachedPaywall_preloadEvents hidle henabled hpreloading hmem hobtains

/-- A campaign with two triggers for one event, the first of which offers two treatments. -/
def repeated : Campaign where
  triggers := [
    ⟨"open", [⟨none, none, ⟨"e", "g", [⟨"v", 1, .treatment, some "p"⟩,
      ⟨"w", 0, .treatment, some "q"⟩]⟩, [], none⟩]⟩,
    ⟨"open", [⟨none, none, ⟨"f", "h", [⟨"x", 1, .treatment, some "z"⟩]⟩, [], none⟩]⟩]
  paywalls := [⟨"q", [], .checkUserSubscription, false, .null, none⟩]
  assignments := []
  requestId := none

/-- A user holds the treatment that nobody is given any more. It is asked for, and preloaded with the
other one, but not with that of the second trigger. -/
theorem eventPaywalls_cover_repeated :
    ∃ c, openWith {} Expression.evaluate .campaign
        (.ofStored ((∅ : Assignments).insert "e" ⟨"w", .treatment, some "q"⟩))
        (.ofHistory (.start ⟨0, 0⟩)) 0 ⟨0, 0⟩ = .ok c ∧
      let loaded := (c.load (.ok repeated)).2
      let r : Request := .forEvent ⟨"open", ∅, ⟨0, 0⟩⟩
      let names := ["close", "open"]
      (∀ x ∈ experimentsOf repeated.triggers, loaded.assignments.HoldsOption x) ∧
        (∃ w, (loaded.begin r 0).1 = .ok w ∧ w.fetch.identifier = some "q") ∧
        "q" ∈ eventPaywalls repeated names ∧ "p" ∈ eventPaywalls repeated names ∧
        "z" ∉ eventPaywalls repeated names ∧
        ∃ p, (loaded.preloadEvents names).2.cachedPaywall? "q" = some p := by
  refine ⟨_, rfl, ?_⟩
  intro loaded r names
  have hstored : loaded.assignments.held? "e" = some ⟨"w", .treatment, some "q"⟩ := rfl
  have hdrawn : loaded.assignments.held? "f" = some ⟨"x", .treatment, some "z"⟩ := rfl
  have hheld : ∀ x ∈ experimentsOf repeated.triggers, loaded.assignments.HoldsOption x := by
    simp [repeated, experimentsOf, AssignmentStore.HoldsOption, hstored, hdrawn,
      VariantOption.toVariant]
  have hidle : loaded.Idle := fun key token h => by cases h
  have hm : loaded.campaign = some repeated := rfl
  have hr : r.event? = some ⟨"open", ∅, ⟨0, 0⟩⟩ := rfl
  have hname : "open" ∈ names := by decide
  obtain ⟨hbegun, -, hpreloaded⟩ := eventPaywalls_cover hm hheld hr hname
  obtain ⟨w, hw, hidentifier⟩ : ∃ w, (loaded.begin r 0).1 = .ok w ∧ w.fetch.identifier = some "q" :=
    ⟨_, rfl, rfl⟩
  have hmem := hbegun 0 w hw "q" hidentifier
  obtain ⟨p, hp⟩ := hpreloaded "q" hmem loaded hm rfl hidle ⟨_, rfl⟩
  exact ⟨hheld, ⟨w, hw, hidentifier⟩, hmem, by decide, by decide, p, hp⟩

end Context

end Paywall
