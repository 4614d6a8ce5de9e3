import Mathlib.Data.List.Forall2
import Paywall.Proofs.Decision.Endings

/-!
# The precedence of the outcomes

A request that is by itself obtains a paywall from the cache, or from a fetch, its own or one that is
under way. One among others ends in a context that these have changed while it waited. In either case
the outcome meets its condition in the context in which the request was begun.
-/

namespace Paywall

/-- An entry may be replaced by one that is related to all that it is related to. -/
theorem forall₂_set {α β : Type} {R : α → β → Prop} {x y : β} (hxy : ∀ a, R a x → R a y)
    {as : List α} {bs : List β} (h : List.Forall₂ R as bs) {i : Nat} (hi : bs[i]? = some x) :
    List.Forall₂ R as (bs.set i y) := by
  induction h generalizing i with
  | nil => cases hi
  | cons hhead hrest ih =>
    cases i with
    | zero =>
      obtain rfl := Option.some.inj hi
      exact .cons (hxy _ hhead) hrest
    | succ i => exact .cons hhead (ih hi)

namespace Context

variable {c later : Context} {r : Request} {s : Sought} {d : Decision} {scene : Scene}

/-! ## What a request obtains -/

theorem bypassesCache_eq (hsettings : later.settings = c.settings) :
    later.bypassesCache r = !c.mayUseCache r := by
  simp only [bypassesCache, isPreview, mayUseCache, hsettings, Bool.not_and, Bool.not_not]

theorem fetchRequest_eq (hsettings : later.settings = c.settings) (hr : d.request = r) :
    later.fetchRequest d = c.fetchFor r d.sought := by
  simp only [fetchRequest, fetchFor, Decision.sought, device, hsettings, hr]

/-- By itself a request is served what it is supplied with. -/
theorem serve_fst_eq_supplied (hscene : later.scene = c.scene) (hcache : later.cache = c.cache) :
    (later.serve (c.fetchFor r s) (!c.mayUseCache r)).1 = c.supplied r (c.answered r) s := by
  rw [serve_fst, fetch_congr hscene, awaited_congr hcache, hcache]
  unfold supplied answered
  cases c.cache.cached? (c.fetchFor r s).key with
  | none => rfl
  | some p => cases c.mayUseCache r <;> rfl

theorem present_fst (c : Context) (r : Request) :
    (c.present r).1 = c.outcomeBy r (c.supplied r (c.answered r)) := by
  obtain ⟨x, later, h⟩ := exists_assigned c r
  cases x with
  | error o => rw [present_of_error h, outcomeBy_of_error h]
  | ok d =>
    obtain ⟨hscene, hcache⟩ := h.frame
    have hsettings : later.settings = c.settings := congrArg Scene.settings hscene
    have hr := h.request_eq
    have hserved : ((later.loading d).serve (c.fetchFor r d.sought) (!c.mayUseCache r)).1 =
        c.supplied r (c.answered r) d.sought := serve_fst_eq_supplied hscene hcache
    rw [present_of_ok h, outcomeBy_of_ok h, conclude_fst, fetchRequest_eq hsettings hr, hr,
      bypassesCache_eq hsettings, hserved]

theorem precedence_present (c : Context) (r : Request) :
    c.Precedence r (c.supplied r (c.answered r)) (c.present r).1 := by
  rw [present_fst]
  exact precedence_outcomeBy

/-- Bringing a request to a variant starts no fetch. -/
theorem Assigned.fetches_eq {x : Except Outcome Decision} (h : Assigned c r x later) :
    later.fetches = c.fetches := by
  have hnoted : (c.recordRequest r).fetches = c.fetches := by rw [recordRequest_eq]
  cases h with
  | direct => rfl
  | eventNotFound | noRuleMatch | noVariant | treatment => exact hnoted
  | holdout =>
    rw [commit_eq]
    exact hnoted

theorem verdict_ne_holdout {result : Except PaywallError Resource} {x : AssignedExperiment} :
    c.verdict d result ≠ .holdout x := by
  intro h
  cases result with
  | error cause => cases h
  | ok p =>
    rw [verdict] at h
    split at h <;> cases h

/-- A holdout starts no fetch. -/
theorem fetches_of_holdout {x : AssignedExperiment} (ho : (c.present r).1 = .holdout x) :
    (c.present r).2.fetches = c.fetches := by
  obtain ⟨y, later, h⟩ := exists_assigned c r
  cases y with
  | error o =>
    rw [present_of_error h]
    exact h.fetches_eq
  | ok d =>
    rw [present_of_ok h, conclude_fst] at ho
    exact absurd ho verdict_ne_holdout

/-! ## Requests at the same time -/

/-- The outcome of a request among others: it is begun, and ends with what is cached, or later with
the result of the fetch that it has to wait for. -/
def presentAmong (c : Context) (r : Request) (number : Nat) (later : Context)
    (result : Except PaywallError Resource) : Outcome :=
  match c.begin r number with
  | (.error o, _) => o
  | (.ok w, begun) =>
    match w.resolution with
    | .hit p => (begun.finish w.decision (.ok p)).1
    | _ => (later.finish w.decision result).1

theorem presentAmong_eq (hsettings : later.settings = c.settings) (number : Nat)
    (result : Except PaywallError Resource) :
    c.presentAmong r number later result = c.outcomeBy r (c.supplied r fun _ => result) := by
  obtain ⟨x, assigned, h⟩ := exists_assigned c r
  cases x with
  | error o => rw [presentAmong, begin_eq, h.eq, outcomeBy_of_error h]
  | ok d =>
    obtain ⟨hscene, hcache⟩ := h.frame
    have hassigned : assigned.settings = c.settings := congrArg Scene.settings hscene
    have hr := h.request_eq
    have hask : (assigned.askForPaywall d number).1 = ⟨d, c.fetchFor r d.sought,
        (c.cache.resolve (c.fetchFor r d.sought).key (!c.mayUseCache r)
          ⟨number, c.fetchFor r d.sought⟩).1⟩ := by
      rw [← fetchRequest_eq hassigned hr, ← bypassesCache_eq hassigned, ← hcache, ← hr]
      rfl
    have hhit (p : Resource) : ((assigned.askForPaywall d number).2.finish d (.ok p)).1 =
        assigned.verdict d (.ok p) := by
      rw [finish_fst, verdict_congr (scene_askForPaywall assigned d number)]
    have hwaited : (later.finish d result).1 = assigned.verdict d result := by
      rw [finish_fst, verdict_congr_settings (hsettings.trans hassigned.symm)]
    rw [presentAmong, begin_eq, h.eq, outcomeBy_of_ok h]
    simp only [hask]
    unfold supplied SingleFlight.cached? SingleFlight.resolve
    rcases c.cache.entries.get? (c.fetchFor r d.sought).key with _ | p | token
    · exact hwaited
    · cases c.mayUseCache r
      · exact hwaited
      · exact hhit p
    · exact hwaited

/-- A request that ends as a holdout has not asked for a paywall. -/
theorem begin_of_holdout (hsettings : later.settings = c.settings) {number : Nat}
    {result : Except PaywallError Resource} {x : AssignedExperiment}
    (ho : c.presentAmong r number later result = .holdout x) :
    (c.begin r number).1 = .error (.holdout x) := by
  rw [presentAmong_eq hsettings] at ho
  obtain ⟨y, assigned, h⟩ := exists_assigned c r
  cases y with
  | error o =>
    rw [outcomeBy_of_error h] at ho
    rw [begin_eq, h.eq, ho]
  | ok d =>
    rw [outcomeBy_of_ok h] at ho
    exact absurd ho verdict_ne_holdout

/-- A request that has been begun is one among others, whether it has ended or still waits. -/
inductive Underway (scene : Scene) (r : Request) : Progress → Prop where
  | ended {begun later : Context} {number : Nat} {result : Except PaywallError Resource}
      (hbegun : begun.scene = scene) (hlater : later.scene = scene) :
      Underway scene r (.ended (begun.presentAmong r number later result))
  | waiting {begun : Context} {number : Nat} {w : Waiting} (hbegun : begun.scene = scene)
      (hw : ∀ later result,
        (later.finish w.decision result).1 = begun.presentAmong r number later result) :
      Underway scene r (.waiting w)

theorem Underway.finish {w : Waiting} (h : Underway scene r (.waiting w))
    (hlater : later.scene = scene) (result : Except PaywallError Resource) :
    Underway scene r (.ended (later.finish w.decision result).1) := by
  cases h with
  | waiting hbegun hw =>
    rw [hw]
    exact .ended hbegun hlater

@[simp] theorem scene_begin (number : Nat) : (c.begin r number).2.scene = c.scene := by
  obtain ⟨x, assigned, h⟩ := exists_assigned c r
  rw [begin_eq, h.eq, ← h.frame.1]
  cases x <;> rfl

theorem presentAmong_eq_of_enter (number : Nat) (result : Except PaywallError Resource) :
    c.presentAmong r number later result =
      match (c.enter r number).1 with
      | .ended o => o
      | .waiting w => (later.finish w.decision result).1 := by
  unfold presentAmong enter
  rcases c.begin r number with ⟨o | ⟨d, fetch, _ | _ | _⟩, begun⟩ <;> rfl

@[simp] theorem scene_enter (number : Nat) : (c.enter r number).2.scene = c.scene := by
  have hbegun : (c.begin r number).2.scene = c.scene := scene_begin number
  unfold enter
  generalize c.begin r number = begun at hbegun ⊢
  obtain ⟨_ | ⟨d, fetch, _ | _ | _⟩, c'⟩ := begun
  · exact hbegun
  · exact (finish_frame ..).1.trans hbegun
  · exact hbegun
  · exact hbegun

theorem underway_enter (c : Context) (r : Request) (number : Nat) :
    Underway c.scene r (c.enter r number).1 := by
  cases hentered : (c.enter r number).1 with
  | ended o =>
    have ho : c.presentAmong r number c (.error .configUnavailable) = o := by
      rw [presentAmong_eq_of_enter, hentered]
    rw [← ho]
    exact .ended rfl rfl
  | waiting w =>
    have hw (later : Context) (result : Except PaywallError Resource) :
        (later.finish w.decision result).1 = c.presentAmong r number later result := by
      rw [presentAmong_eq_of_enter, hentered]
    exact .waiting rfl hw

theorem underway_beginAll (rs : List Request) (c : Context) (number : Nat) :
    List.Forall₂ (Underway c.scene) rs (c.beginAll number rs).1 ∧
      (c.beginAll number rs).2.scene = c.scene := by
  induction rs generalizing c number with
  | nil => exact ⟨.nil, rfl⟩
  | cons r rest ih =>
    obtain ⟨hrest, hscene⟩ := ih (c.enter r number).2 (number + 1)
    rw [scene_enter] at hrest hscene
    rw [beginAll_cons]
    exact ⟨.cons (underway_enter c r number) hrest, hscene⟩

theorem underway_finishAll {rs : List Request} (token : Nat) (result : Except PaywallError Resource)
    (numbers : List Nat) {c : Context} {all : List Progress} (hc : c.scene = scene)
    (h : List.Forall₂ (Underway scene) rs all) :
    List.Forall₂ (Underway scene) rs (c.finishAll token result numbers all).1 ∧
      (c.finishAll token result numbers all).2.scene = scene := by
  induction numbers generalizing c all with
  | nil => exact ⟨h, hc⟩
  | cons number rest ih =>
    rw [finishAll]
    rcases hwaiting : all[number]? with _ | _ | w
    · exact ih hc h
    · exact ih hc h
    · simp only
      split
      · exact ih ((finish_frame ..).1.trans hc)
          (forall₂_set (fun r hr => hr.finish hc result) h hwaiting)
      · exact ih hc h

theorem underway_runFetches {rs : List Request} (tokens : List Nat) {c : Context}
    {all : List Progress} (hc : c.scene = scene) (h : List.Forall₂ (Underway scene) rs all) :
    List.Forall₂ (Underway scene) rs (c.runFetches tokens all).1 := by
  induction tokens generalizing c all with
  | nil => exact h
  | cons token rest ih =>
    rw [runFetches]
    cases c.fetchUnderWay? token with
    | none => exact ih hc h
    | some fetch =>
      have hrun : (c.runFetch fetch token).2.2.scene = scene := hc
      obtain ⟨hall, hscene⟩ := underway_finishAll token (c.runFetch fetch token).1
        (c.runFetch fetch token).2.1 hrun h
      exact ih hscene hall

/-- Of requests that are made at the same time each ends like one among others. -/
theorem presentAll_among (c : Context) (rs : List Request) :
    List.Forall₂ (fun r o => ∃ (begun later : Context) (number : Nat)
        (result : Except PaywallError Resource), begun.scene = c.scene ∧ later.scene = c.scene ∧
          o = begun.presentAmong r number later result)
      rs (c.presentAll rs).1 := by
  obtain ⟨hbegun, hscene⟩ := underway_beginAll rs c 0
  have hall := underway_runFetches ((c.beginAll 0 rs).1.filterMap Progress.token?) hscene hbegun
  rw [presentAll, List.forall₂_map_right_iff]
  refine hall.imp fun r progress hprogress => ?_
  cases hprogress with
  | ended hbegun hlater => exact ⟨_, _, _, _, hbegun, hlater, rfl⟩
  | @waiting begun number w hbegun hw =>
    have habandoned := hw c (.error (.abandoned w.fetch.key))
    exact ⟨begun, c, number, _, hbegun, rfl, habandoned⟩

/-- The outcome of each of several requests at the same time meets its condition in the context in
which it was begun. -/
theorem precedence_presentAll (c : Context) (rs : List Request) :
    List.Forall₂ (fun r o => ∃ (begun : Context) (result : Except PaywallError Resource),
        begun.scene = c.scene ∧ begun.Precedence r (begun.supplied r fun _ => result) o)
      rs (c.presentAll rs).1 := by
  refine (presentAll_among c rs).imp ?_
  rintro r o ⟨begun, later, number, result, hbegun, hlater, rfl⟩
  have hsettings : later.settings = begun.settings :=
    congrArg Scene.settings (hlater.trans hbegun.symm)
  refine ⟨begun, result, hbegun, ?_⟩
  rw [presentAmong_eq hsettings]
  exact precedence_outcomeBy

/-- A request ends in the way that its conditions say, by itself and among others, and with a holdout
before it has asked for a paywall. -/
theorem outcome_precedence (c : Context) :
    (∀ r, c.Precedence r (c.supplied r (c.answered r)) (c.present r).1 ∧
      ∀ x, (c.present r).1 = .holdout x → (c.present r).2.fetches = c.fetches) ∧
    (∀ (r : Request) (number : Nat) (later : Context) (result : Except PaywallError Resource),
      later.settings = c.settings →
        c.Precedence r (c.supplied r fun _ => result) (c.presentAmong r number later result) ∧
        ∀ x, c.presentAmong r number later result = .holdout x →
          (c.begin r number).1 = .error (.holdout x)) ∧
    ∀ rs, List.Forall₂ (fun r o => ∃ (begun : Context) (result : Except PaywallError Resource),
        begun.scene = c.scene ∧ begun.Precedence r (begun.supplied r fun _ => result) o)
      rs (c.presentAll rs).1 := by
  refine ⟨fun r => ⟨?_, fun x ho => fetches_of_holdout ho⟩,
    fun r number later result hsettings => ⟨?_, ?_⟩, precedence_presentAll c⟩
  · rw [present_fst]
    exact precedence_outcomeBy
  · rw [presentAmong_eq hsettings]
    exact precedence_outcomeBy
  · exact fun x ho => begin_of_holdout hsettings ho

/-- A campaign whose event has a rule that never holds and a holdout behind it, and another event
that shows a paywall. -/
def heldBack : Campaign where
  triggers := [
    ⟨"open", [⟨some "false", none, ⟨"e", "g", [⟨"v", 1, .treatment, some "p"⟩]⟩, [], none⟩,
      ⟨none, none, ⟨"f", "g", [⟨"w", 1, .holdout, none⟩]⟩, [], none⟩]⟩,
    ⟨"close", [⟨none, none, ⟨"e", "g", [⟨"v", 1, .treatment, some "p"⟩]⟩, [], none⟩]⟩]
  paywalls := [⟨"p", [], .checkUserSubscription, false, .null, none⟩]
  assignments := []
  requestId := none

/-- A subscriber meets the holdout by itself, and is skipped while another request changes the
context. -/
theorem outcome_precedence_heldBack :
    ∃ c, openWith {} Expression.evaluate .campaign (.ofStored ∅) (.ofHistory (.start ⟨0, 0⟩)) 0
        ⟨0, 0⟩ = .ok c ∧
      let c := (c.load (.ok heldBack)).2.setSubscribed true
      let r : Request := .forEvent ⟨"open", ∅, ⟨0, 0⟩⟩
      let r' : Request := .forEvent ⟨"close", ∅, ⟨0, 0⟩⟩
      let later := (c.present r).2
      let result := c.fetch ⟨some "p", some "close", c.device.locale, "p"⟩
      (c.present r).1.label = "holdout" ∧ (c.present r).2.fetches = c.fetches ∧
        c.Precedence r (c.supplied r (c.answered r)) (c.present r).1 ∧
        (c.presentAmong r' 1 later result).label = "skipped" ∧
        c.Precedence r' (c.supplied r' fun _ => result) (c.presentAmong r' 1 later result) := by
  refine ⟨_, rfl, ?_⟩
  intro c r r' later result
  obtain ⟨halone, hamong, -⟩ := outcome_precedence c
  obtain ⟨hprecedence, hfetches⟩ := halone r
  obtain ⟨x, hx⟩ : ∃ x, (c.present r).1 = .holdout x := ⟨_, rfl⟩
  have hlabel : (c.present r).1.label = "holdout" := by rw [hx]; rfl
  obtain ⟨hlater, -⟩ := hamong r' 1 later result rfl
  exact ⟨hlabel, hfetches x hx, hprecedence, by decide +kernel, hlater⟩

end Context

end Paywall
