import Paywall.Proofs.Decision.Attendance
import Paywall.Proofs.Decision.Commitment
import Paywall.Proofs.Decision.Precedence

/-!
# Paywalls by name

A request that names a paywall passes by the rules and the experiments. What it sees of a context are
the settings, the paywalls on offer, the contents of the cache, the subscription and the purchases; of
these it changes the cache only. The contents of a cache are its results and the fetches that are under
way. So two contexts that agree on all this answer such requests alike, however different the users,
their assignments and their history are, and whether or not a request has to wait for somebody else's
fetch.
-/

namespace Paywall

/-- What a request can tell of an entry of the cache: the result, or which fetch is under way. -/
inductive CacheContent where
  | cached (p : Resource)
  | underWay (f : Option FetchRequest)

namespace Context

variable {c d later later' : Context} {r : Request} {identifier : String}

/-- What is cached or fetched for a key. -/
def content? (c : Context) (key : String) : Option CacheContent :=
  (c.cache.entries.get? key).map fun
    | .resolved p => .cached p
    | .inFlight token => .underWay (c.fetchUnderWay? token)

/-! ## Serving by the contents of the cache -/

theorem cached?_eq_content (c : Context) (key : String) :
    c.cache.cached? key =
      match c.content? key with
      | some (.cached p) => some p
      | _ => none := by
  unfold SingleFlight.cached? content?
  rcases c.cache.entries.get? key with _ | _ | _ <;> rfl

theorem awaited_eq_content (c : Context) (f : FetchRequest) :
    c.awaited f =
      match c.content? f.key with
      | some (.underWay g) => g.getD f
      | _ => f := by
  unfold awaited content?
  rcases c.cache.entries.get? f.key with _ | _ | _ <;> rfl

/-- A caller leaves the fetches for other keys alone. -/
theorem Attended.fetchUnderWay?_serve {f : FetchRequest} {key : String} {token : Nat} (h : c.Attended)
    (ht : c.cache.entries.get? key = some (.inFlight token)) (hkey : f.key ≠ key) (bypass : Bool) :
    (c.serve f bypass).2.fetchUnderWay? token = c.fetchUnderWay? token := by
  obtain ⟨hlt, g, hg, hgkey⟩ := h key token ht
  have hserved := served_serve c f bypass
  generalize (c.serve f bypass).1 = result, (c.serve f bypass).2 = c' at hserved
  unfold fetchUnderWay?
  cases hserved with
  | cached => rfl
  | @joined current hcurrent =>
    have hne : current ≠ token := by
      rintro rfl
      obtain ⟨-, g', hg', hg'key⟩ := h f.key current hcurrent
      cases hg.symm.trans hg'
      exact hkey (hg'key.symm.trans hgkey)
    simp only [SingleFlight.waiters_settle, SingleFlight.waiters_join, if_neg hne]
  | started =>
    simp only [SingleFlight.waiters_settle, SingleFlight.waiters_start, if_neg (Nat.ne_of_gt hlt)]

/-- A caller that waits for a fetch leaves its result, unless it fails, and changes nothing else. -/
theorem Attended.content?_serve (h : c.Attended) (f : FetchRequest) (bypass : Bool) (key : String) :
    (c.serve f bypass).2.content? key =
      if f.key = key ∧ (bypass = true ∨ c.cache.cached? f.key = none) then
        (c.fetch (c.awaited f)).toOption.map .cached
      else c.content? key := by
  rcases serve_cases c f bypass (h.key_awaited f) with
    ⟨p, hbypass, hp, heq⟩ | ⟨hmissing, -, hentries⟩
  · have hcached : c.cache.cached? f.key = some p := SingleFlight.cached?_eq_some_iff.mpr hp
    rw [heq, hbypass, hcached, if_neg (by simp)]
  · have hwaits : bypass = true ∨ c.cache.cached? f.key = none := by
      cases bypass with
      | true => exact Or.inl rfl
      | false => exact Or.inr (hmissing rfl)
    unfold content?
    rw [hentries]
    by_cases hkey : f.key = key
    · rw [if_pos hkey, if_pos ⟨hkey, hwaits⟩]
      cases c.fetch (c.awaited f) <;> rfl
    · rw [if_neg hkey, if_neg fun h => hkey h.1]
      cases ht : c.cache.entries.get? key with
      | none => rfl
      | some entry =>
        cases entry with
        | resolved p => rfl
        | inFlight token =>
          simp only [Option.map_some, h.fetchUnderWay?_serve ht hkey bypass]

/-! ## Two contexts -/

/-- Two contexts agree on all that a request for a paywall by name can see. Which campaign is loaded
does not matter, as long as the same paywalls are fetched. -/
structure AgreeByName (c d : Context) : Prop where
  settings : d.settings = c.settings
  fetched : ∀ f, d.fetch f = c.fetch f
  content : ∀ key, d.content? key = c.content? key
  subscribed : d.user.subscribed = c.user.subscribed
  purchased : d.user.purchased = c.user.purchased

theorem AgreeByName.cached?_eq (h : AgreeByName c d) (key : String) :
    d.cache.cached? key = c.cache.cached? key := by
  rw [cached?_eq_content, cached?_eq_content, h.content]

theorem AgreeByName.serve (h : AgreeByName c d) (hc : c.Attended) (hd : d.Attended) (f : FetchRequest)
    (bypass : Bool) : (d.serve f bypass).1 = (c.serve f bypass).1 ∧
      ∀ key, (d.serve f bypass).2.content? key = (c.serve f bypass).2.content? key := by
  have hcached := h.cached?_eq f.key
  have hawaited : d.awaited f = c.awaited f := by
    rw [awaited_eq_content, awaited_eq_content, h.content]
  refine ⟨?_, fun key => ?_⟩
  · rw [serve_fst, serve_fst, hcached, hawaited, h.fetched]
  · rw [hc.content?_serve, hd.content?_serve, hcached, hawaited, h.fetched, h.content]

/-- Of the user such a request knows the subscription and the purchases. -/
theorem AgreeByName.verdict (h : AgreeByName c d) (r : Request)
    (result : Except PaywallError Resource) :
    d.verdict (.start r d.user) result = c.verdict (.start r c.user) result := by
  have hpresent (p : Resource) :
      (Decision.start r d.user).present p = (Decision.start r c.user).present p := by
    simp only [Decision.present, Decision.start, h.purchased]
  have hskipped (p : Resource) :
      d.isSkipped (.start r d.user) p = c.isSkipped (.start r c.user) p := by
    simp only [isSkipped, isPreview, Decision.condition, Decision.start, h.settings, h.subscribed]
  cases result with
  | error cause => rfl
  | ok p =>
    simp only [Context.verdict, hpresent, hskipped]
    rfl

theorem AgreeByName.conclude (h : AgreeByName c d) (hc : c.Attended) (hd : d.Attended) (r : Request) :
    (d.conclude (.start r d.user)).1 = (c.conclude (.start r c.user)).1 ∧
      ∀ key, (d.conclude (.start r d.user)).2.content? key =
        (c.conclude (.start r c.user)).2.content? key := by
  have hloading : AgreeByName (c.loading (.start r c.user)) (d.loading (.start r d.user)) :=
    ⟨h.settings, h.fetched, h.content, h.subscribed, h.purchased⟩
  have hfetch : d.fetchRequest (.start r d.user) = c.fetchRequest (.start r c.user) := by
    simp only [fetchRequest, device, h.settings]
    rfl
  have hbypass : d.bypassesCache r = c.bypassesCache r := by
    simp only [bypassesCache, isPreview, h.settings]
  have hfinished (c : Context) (d : Decision) (result : Except PaywallError Resource) (key : String) :
      (c.finish d result).2.content? key = c.content? key := by
    unfold content? fetchUnderWay?
    rw [(finish_frame ..).2]
  obtain ⟨hserved, hcontent⟩ := hloading.serve (hc.congr rfl) (hd.congr rfl)
    (c.fetchRequest (.start r c.user)) (c.bypassesCache r)
  refine ⟨?_, fun key => ?_⟩
  · rw [conclude_fst, conclude_fst, h.verdict, hfetch]
    simp only [Decision.start, hbypass]
    exact congrArg _ hserved
  · unfold Context.conclude
    rw [hfinished, hfinished, hfetch]
    simp only [Decision.start, hbypass]
    exact hcontent key

/-- What a request among others gets depends on the results that are cached, if it waits for none. -/
theorem AgreeByName.presentAmong (h : AgreeByName c d) (hr : r.paywallIdentifier = some identifier)
    (hlater : later.settings = c.settings) (hlater' : later'.settings = d.settings)
    (number number' : Nat) (result : Except PaywallError Resource) :
    d.presentAmong r number' later' result = c.presentAmong r number later result := by
  have hnamed := event?_of_paywallIdentifier hr
  have hmay : d.mayUseCache r = c.mayUseCache r := by simp only [mayUseCache, h.settings]
  have hsupplied (s : Sought) :
      d.supplied r (fun _ => result) s = c.supplied r (fun _ => result) s := by
    have hfetch : d.fetchFor r s = c.fetchFor r s := by simp only [fetchFor, device, h.settings]
    rw [supplied, supplied, hfetch, hmay, h.cached?_eq]
  rw [presentAmong_eq hlater', presentAmong_eq hlater, outcomeBy_of_ok (.direct hnamed),
    outcomeBy_of_ok (.direct hnamed), h.verdict, hsupplied]
  rfl

/-! ## Presenting by name -/

/-- An end of a request that has nothing to do with rules: no experiment is named with the outcome or
filled into the paywall, and assignments and history stay as they are. -/
structure FreeOfRules (c : Context) (x : Outcome × Context) : Prop where
  experiment : x.1.experiment? = none
  shown : ∀ p y, x.1 = .paywall p y → p.experiment = none
  assignments : x.2.assignments = c.assignments
  ledger : x.2.ledger = c.ledger

/-- A request passes by the rules, by itself and among others: there it asks for its paywall at once,
and ends in any later context, with any result. -/
structure PassesRules (c : Context) (r : Request) : Prop where
  alone : FreeOfRules c (c.present r)
  among : ∀ number, ∃ w, (c.begin r number).1 = .ok w ∧
    (c.begin r number).2.assignments = c.assignments ∧ (c.begin r number).2.ledger = c.ledger ∧
    ∀ (later : Context) (result : Except PaywallError Resource),
      FreeOfRules later (later.finish w.decision result)

theorem present_of_name (hr : r.paywallIdentifier = some identifier) :
    c.present r = c.conclude (.start r c.user) :=
  present_of_ok (.direct (event?_of_paywallIdentifier hr))

theorem freeOfRules_finish (c : Context) (r : Request) (user : User)
    (result : Except PaywallError Resource) :
    FreeOfRules c (c.finish (.start r user) result) := by
  cases result with
  | error cause => exact ⟨rfl, nofun, rfl, rfl⟩
  | ok p =>
    simp only [finish_ok]
    split
    · exact ⟨rfl, nofun, rfl, rfl⟩
    · rw [commit_start]
      refine ⟨rfl, fun q y h => ?_, rfl, rfl⟩
      obtain ⟨rfl, -⟩ := Outcome.paywall.inj h
      rfl

theorem passesRules_of_name (hr : r.paywallIdentifier = some identifier) : c.PassesRules r where
  alone := by
    obtain ⟨hassignments, hledger⟩ := c.conclude_start_frame r c.user
    rw [present_of_name hr]
    have hfree := freeOfRules_finish
      ((c.loading (.start r c.user)).serve (c.fetchRequest (.start r c.user)) (c.bypassesCache r)).2
      r c.user
      ((c.loading (.start r c.user)).serve (c.fetchRequest (.start r c.user)) (c.bypassesCache r)).1
    exact ⟨hfree.experiment, hfree.shown, hassignments, hledger⟩
  among number := by
    rw [begin_eq, (Assigned.direct (event?_of_paywallIdentifier hr)).eq]
    exact ⟨_, rfl, rfl, rfl, fun later result => freeOfRules_finish later r c.user result⟩

/-- Requests for paywalls by name are isolated: in two contexts with the same settings, paywalls, cache
contents, subscription and purchases, and nothing else in common, such a request ends in the same way,
leaves the same in the cache, and touches neither the assignments nor the history. Nor can it tell the
two apart among others, where it waits for a fetch that ends later with the same result. The fetches
that the caches refer to are attended, as they are in every run (`Attended.run`). -/
theorem present_alike_by_name (hc : c.Attended) (hd : d.Attended) (h : AgreeByName c d)
    (hr : r.paywallIdentifier = some identifier) :
    (d.present r).1 = (c.present r).1 ∧
      (∀ key, (d.present r).2.content? key = (c.present r).2.content? key) ∧
      c.PassesRules r ∧ d.PassesRules r ∧
      ∀ (number number' : Nat) (later later' : Context) (result : Except PaywallError Resource),
        later.settings = c.settings → later'.settings = d.settings →
          d.presentAmong r number' later' result = c.presentAmong r number later result := by
  obtain ⟨houtcome, hcontent⟩ := h.conclude hc hd r
  refine ⟨?_, fun key => ?_, passesRules_of_name hr, passesRules_of_name hr,
    fun number number' later later' result hlater hlater' =>
      h.presentAmong hr hlater hlater' number number' result⟩
  · rw [present_of_name hr, present_of_name hr, houtcome]
  · rw [present_of_name hr, present_of_name hr, hcontent]

/-- A user with an attribute, an assignment and a history, and a new one whose campaign has no triggers,
are shown the same paywall by name, while somebody else waits for it in either context. -/
theorem strangers_alike_by_name :
    ∃ c d, openWith {} Expression.evaluate .campaign
        (.ofStored ((∅ : Assignments).insert "e" ⟨"v", .treatment, some "p"⟩))
        (.ofHistory (.start ⟨0, 0⟩)) 0 ⟨0, 0⟩ = .ok c ∧
      openWith {} Expression.evaluate .campaign (.ofStored ∅) (.ofHistory (.start ⟨0, 0⟩)) 7 ⟨60, 0⟩ =
        .ok d ∧
      let r : Request := .forPaywall "p"
      let old := ((c.run [.load (.ok heldBack), .setAttribute "name" (.string "x"),
        .recordAt "k" ⟨0, 0⟩, .present (.forPaywall "none")]).2.begin r 1).2
      let new := ((d.run [.load (.ok { heldBack with triggers := [] })]).2.begin r 1).2
      old.assignments.confirmed ≠ new.assignments.confirmed ∧
        old.cache.nextToken ≠ new.cache.nextToken ∧
        (old.present r).1.label = "paywall" ∧ (new.present r).1 = (old.present r).1 ∧
        (∀ key, (new.present r).2.content? key = (old.present r).2.content? key) ∧
        old.PassesRules r ∧ new.PassesRules r ∧
        ∀ result, new.presentAmong r 2 new result = old.presentAmong r 2 old result := by
  have hopen : openWith {} Expression.evaluate .campaign
      (.ofStored ((∅ : Assignments).insert "e" ⟨"v", .treatment, some "p"⟩))
      (.ofHistory (.start ⟨0, 0⟩)) 0 ⟨0, 0⟩ = .ok _ := rfl
  have hopen' : openWith {} Expression.evaluate .campaign (.ofStored ∅)
      (.ofHistory (.start ⟨0, 0⟩)) 7 ⟨60, 0⟩ = .ok _ := rfl
  refine ⟨_, _, hopen, hopen', ?_⟩
  intro r old new
  have hold : old.Attended := ((attended_of_open hopen).run _).begin r 1
  have hnew : new.Attended := ((attended_of_open hopen').run _).begin r 1
  have hfetched (f : FetchRequest) : new.fetch f = old.fetch f := by
    obtain ⟨_ | identifier, eventName, locale, key⟩ := f <;> rfl
  have hentries : old.cache.entries = (∅ : Table (CacheEntry Resource)).insert
      (requestKey (some "p") none "en_US") (.inFlight 1) := rfl
  have hentries' : new.cache.entries = (∅ : Table (CacheEntry Resource)).insert
      (requestKey (some "p") none "en_US") (.inFlight 0) := rfl
  have hcontent (key : String) : new.content? key = old.content? key := by
    unfold content?
    rw [hentries, hentries', Table.get?_insert, Table.get?_insert]
    split <;> rfl
  have hagree : AgreeByName old new := ⟨rfl, hfetched, hcontent, rfl, rfl⟩
  have hnamed : r.paywallIdentifier = some "p" := rfl
  obtain ⟨houtcome, hbehind, hpasses, hpasses', hamong⟩ :=
    present_alike_by_name hold hnew hagree hnamed
  exact ⟨by decide +kernel, by decide +kernel, by decide +kernel, houtcome, hbehind, hpasses, hpasses',
    fun result => hamong 2 2 old new result rfl rfl⟩

end Context

end Paywall
