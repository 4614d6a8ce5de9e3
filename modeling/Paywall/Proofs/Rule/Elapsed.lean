import Paywall.Proofs.Campaign.Elapsed
import Paywall.Proofs.Expression.Scope
import Paywall.Rule.Matching

/-!
# Variables for the time since events

Each request for the time since an event has a variable of its own, which is set exactly if the
event has been seen, whatever else is asked for. Expressions find it in the map `device`, unless the
name of the event has a point: a path is cut at every point, so it leads past the variable.
-/

namespace Paywall

/-! ## Names -/

/-- No variable begins like one of another unit. -/
theorem TimeUnit.eq_of_stem_prefix {u v : TimeUnit}
    (h : u.variableStem.toList <+: v.variableStem.toList) : u = v := by
  revert h
  cases u <;> cases v <;> decide +kernel

theorem ElapsedRequest.toList_variableName (q : ElapsedRequest) :
    q.variableName.toList = q.unit.variableStem.toList ++ q.eventName.toList :=
  String.toList_append

theorem ElapsedRequest.variableName_inj {q r : ElapsedRequest} :
    q.variableName = r.variableName ↔ q = r := by
  refine ⟨fun h => ?_, fun h => by rw [h]⟩
  have hchars := congrArg String.toList h
  rw [toList_variableName, toList_variableName] at hchars
  have hunit : q.unit = r.unit := by
    have hq : q.unit.variableStem.toList <+: r.unit.variableStem.toList ++ r.eventName.toList :=
      ⟨_, hchars⟩
    rcases List.prefix_or_prefix_of_prefix hq (List.prefix_append ..) with hstem | hstem
    · exact TimeUnit.eq_of_stem_prefix hstem
    · exact (TimeUnit.eq_of_stem_prefix hstem).symm
  rw [hunit, List.append_cancel_left_eq, String.toList_inj] at hchars
  cases q
  cases r
  cases hunit
  cases hchars
  rfl

/-! ## Answers -/

variable {counter : Counter} {now : Instant}

namespace ElapsedRequest

/-- The answer to a request, if the event has been seen and its time can be read. -/
def answer? (q : ElapsedRequest) (counter : Counter) (now : Instant) : Option Value :=
  match counter.lastEvent q.eventName with
  | .ok (some last) => some (.int (.ofInt (q.unit.elapsed last now)))
  | _ => none

theorem answer?_eq_some_iff {q : ElapsedRequest} {x : Value} :
    q.answer? counter now = some x ↔
      ∃ last, counter.lastEvent q.eventName = .ok (some last) ∧
        x = .int (.ofInt (q.unit.elapsed last now)) := by
  unfold answer?
  rcases counter.lastEvent q.eventName with e | _ | last
  · simp
  · simp
  · simp [eq_comm]

/-- Sets the variable of a request if there is an answer. -/
def note (q : ElapsedRequest) (counter : Counter) (now : Instant) (table : Table Value) :
    Table Value :=
  match q.answer? counter now with
  | some x => table.insert q.variableName x
  | none => table

theorem get?_note (q : ElapsedRequest) (table : Table Value) (v : String) :
    (q.note counter now table).get? v =
      if q.variableName = v then (q.answer? counter now).or (table.get? v) else table.get? v := by
  unfold note
  cases q.answer? counter now <;> simp

end ElapsedRequest

theorem elapsedVariables_eq_foldl (requests : List ElapsedRequest) :
    elapsedVariables requests counter now =
      requests.foldl (fun table q => q.note counter now table) ∅ := by
  unfold elapsedVariables
  refine congrArg (fun step => requests.foldl step ∅) (funext fun table => funext fun q => ?_)
  unfold ElapsedRequest.note ElapsedRequest.answer?
  rcases counter.lastEvent q.eventName with e | _ | last <;> rfl

/-- After some requests a variable has the answer to its request, if that is one of them and has an
answer, and else the value that it had before. It does not matter how often it is requested. -/
theorem get?_foldl_note (requests : List ElapsedRequest) (table : Table Value) (v : String)
    (x : Value) :
    (requests.foldl (fun table q => q.note counter now table) table).get? v = some x ↔
      (∃ q ∈ requests, q.variableName = v ∧ q.answer? counter now = some x) ∨
        table.get? v = some x ∧
          ∀ q ∈ requests, q.variableName = v → q.answer? counter now = none := by
  induction requests generalizing table with
  | nil => simp
  | cons q rest ih =>
    rw [List.foldl_cons, ih, ElapsedRequest.get?_note]
    by_cases hv : q.variableName = v
    · cases hq : q.answer? counter now with
      | none => simp [hv, hq]
      | some y =>
        have hsame : ∀ r : ElapsedRequest, r.variableName = v → r.answer? counter now = some y := by
          intro r hr
          rw [ElapsedRequest.variableName_inj.mp (hr.trans hv.symm), hq]
        rw [if_pos hv, Option.some_or]
        constructor
        · rintro (⟨r, hr, hrv, hx⟩ | ⟨hx, -⟩)
          · exact .inl ⟨r, List.mem_cons_of_mem _ hr, hrv, hx⟩
          · exact .inl ⟨q, List.mem_cons_self, hv, hq.trans hx⟩
        · rintro (⟨r, -, hrv, hx⟩ | ⟨-, hnone⟩)
          · by_cases hrest : ∃ r ∈ rest, r.variableName = v
            · obtain ⟨r', hr', hrv'⟩ := hrest
              exact .inl ⟨r', hr', hrv', (hsame r' hrv').trans ((hsame r hrv).symm.trans hx)⟩
            · exact .inr ⟨(hsame r hrv).symm.trans hx, fun r' hr' hrv' =>
                absurd ⟨r', hr', hrv'⟩ hrest⟩
          · rw [hnone q List.mem_cons_self hv] at hq
            cases hq
    · simp [hv]

/-- A variable is set exactly if it is requested and its event has been seen. -/
theorem get?_elapsedVariables (requests : List ElapsedRequest) (v : String) (x : Value) :
    (elapsedVariables requests counter now).get? v = some x ↔
      ∃ q ∈ requests, q.variableName = v ∧ q.answer? counter now = some x := by
  rw [elapsedVariables_eq_foldl, get?_foldl_note]
  simp

/-- Of the variables exactly those are set whose event is known to have been seen, each to the whole
units since then, whatever the order of the requests and however often they are made. No two
different requests share a variable, and no number of units is cut off. -/
theorem elapsedVariables_complete (requests : List ElapsedRequest) (counter : Counter)
    (now : Instant) :
    (∀ v x, (elapsedVariables requests counter now).get? v = some x ↔
      ∃ q ∈ requests, q.variableName = v ∧
        ∃ last, counter.lastEvent q.eventName = .ok (some last) ∧
          x = .int (.ofInt (q.unit.elapsed last now))) ∧
    (∀ q r : ElapsedRequest, q.variableName = r.variableName ↔ q = r) ∧
    ∀ (q : ElapsedRequest) (last : Instant), last.InCalendar → now.InCalendar →
      (Int64.ofInt (q.unit.elapsed last now)).toInt = q.unit.elapsed last now := by
  refine ⟨fun v x => ?_, fun q r => ElapsedRequest.variableName_inj,
    fun q last hlast hnow => q.unit.toInt_elapsed hlast hnow⟩
  simp only [get?_elapsedVariables, ElapsedRequest.answer?_eq_some_iff]

/-! ## Looking them up -/

theorem Value.walk?_ofTable (t : Table Value) (key : String) (keys : List String) :
    (Value.ofTable t).walk? (key :: keys) = (t.get? key).bind fun v => v.walk? keys := rfl

/-- A number has no parts. -/
theorem Value.walk?_int {keys : List String} (h : keys ≠ []) (n : Int64) :
    (Value.int n).walk? keys = none := by
  cases keys with
  | nil => exact absurd rfl h
  | cons key keys => rfl

/-- A path into `device` is walked from its map. -/
theorem Scope.lookup?_device (scope : Scope) (path : String) :
    scope.lookup? ("device." ++ path) = (Value.ofTable scope.device).path? path := by
  have hsegments : Text.segments ("device" ++ "." ++ path) = "device" :: Text.segments path :=
    Text.segments_append (by decide +kernel) path
  exact lookup?_of_segments hsegments

theorem TimeUnit.not_stem_prefix (unit : TimeUnit) :
    ∀ key ∈ ["locale", "app_version", "platform"],
      ¬ unit.variableStem.toList <+: key.toList := by
  cases unit <;> decide +kernel

/-- The built-in attributes of a device have other names than the variables. -/
theorem Scope.get?_deviceVariables_stem (device : Device) (unit : TimeUnit) (name : String) :
    (deviceVariables device ∅).get? (unit.variableStem ++ name) =
      device.extra.get? (unit.variableStem ++ name) := by
  have hbuiltIn : ∀ key ∈ ["locale", "app_version", "platform"],
      key ≠ unit.variableStem ++ name := by
    rintro key hkey rfl
    refine unit.not_stem_prefix _ hkey ?_
    rw [String.toList_append]
    exact List.prefix_append ..
  simp only [List.forall_mem_cons] at hbuiltIn
  obtain ⟨hlocale, hversion, hplatform, -⟩ := hbuiltIn
  simp [deviceVariables, hlocale, hversion, hplatform]

theorem TimeUnit.point_not_mem_stem (unit : TimeUnit) : '.' ∉ unit.variableStem.toList := by
  cases unit <;> decide +kernel

theorem ElapsedRequest.segments_variableName {q : ElapsedRequest} (h : '.' ∉ q.eventName.toList) :
    Text.segments q.variableName = [q.variableName] := by
  have hname : '.' ∉ q.variableName.toList := by
    rw [toList_variableName, List.mem_append, not_or]
    exact ⟨q.unit.point_not_mem_stem, h⟩
  exact Text.segments_of_not_mem hname

/-- In front of the first point stands the variable of another event. -/
theorem ElapsedRequest.segments_variableName_of_point {q : ElapsedRequest} {front rest : String}
    (hname : q.eventName = front ++ "." ++ rest) (hfront : '.' ∉ front.toList) :
    Text.segments q.variableName =
      (⟨q.unit, front⟩ : ElapsedRequest).variableName :: Text.segments rest := by
  have hvariable : q.variableName =
      (⟨q.unit, front⟩ : ElapsedRequest).variableName ++ "." ++ rest := by
    simp only [variableName, hname, String.append_assoc]
  have hpart : '.' ∉ (⟨q.unit, front⟩ : ElapsedRequest).variableName.toList := by
    rw [toList_variableName, List.mem_append, not_or]
    exact ⟨q.unit.point_not_mem_stem, hfront⟩
  rw [hvariable, Text.segments_append hpart]

variable {r : Rule} {s : Situation} {q : ElapsedRequest}

/-- An expression finds the whole units since an event that its rule asks about, if the name of the
event has no point. If it has one, the path is cut there, and whatever the answer is, it is not
found: the path leads into an attribute of the device, or nowhere if a variable is in its way. -/
theorem Rule.lookup?_variableName {last : Instant} (hq : q ∈ r.elapsed)
    (hlast : counter.lastEvent q.eventName = .ok (some last)) :
    ('.' ∉ q.eventName.toList →
      (r.scope counter s).lookup? ("device." ++ q.variableName) =
        some (.int (.ofInt (q.unit.elapsed last s.now)))) ∧
    ∀ front rest : String, q.eventName = front ++ "." ++ rest → '.' ∉ front.toList →
      (r.scope counter s).lookup? ("device." ++ q.variableName) =
        if (elapsedVariables r.elapsed counter s.now).contains
            (⟨q.unit, front⟩ : ElapsedRequest).variableName then none
        else (Value.ofTable s.device.extra).path? q.variableName := by
  rw [Scope.lookup?_device]
  have hdevice : (r.scope counter s).device =
      Scope.deviceVariables s.device (elapsedVariables r.elapsed counter s.now) := rfl
  rw [hdevice]
  constructor
  · intro hpoint
    have hanswer : q.answer? counter s.now = some (.int (.ofInt (q.unit.elapsed last s.now))) :=
      ElapsedRequest.answer?_eq_some_iff.mpr ⟨last, hlast, rfl⟩
    have hvariable : (elapsedVariables r.elapsed counter s.now).get? q.variableName =
        some (.int (.ofInt (q.unit.elapsed last s.now))) :=
      (get?_elapsedVariables r.elapsed q.variableName _).mpr ⟨q, hq, rfl, hanswer⟩
    rw [Value.path?, ElapsedRequest.segments_variableName hpoint, Value.walk?_ofTable,
      Scope.get?_deviceVariables, hvariable]
    rfl
  · intro front rest hname hfront
    have hsegments := ElapsedRequest.segments_variableName_of_point hname hfront
    rw [Value.path?, Value.path?, hsegments, Value.walk?_ofTable, Value.walk?_ofTable,
      Scope.get?_deviceVariables, Table.contains]
    cases hother : (elapsedVariables r.elapsed counter s.now).get?
        (⟨q.unit, front⟩ : ElapsedRequest).variableName with
    | some x =>
      obtain ⟨_, -, -, hx⟩ := (get?_elapsedVariables r.elapsed _ x).mp hother
      obtain ⟨_, -, rfl⟩ := ElapsedRequest.answer?_eq_some_iff.mp hx
      have hrest : Text.segments rest ≠ [] := by
        rw [Text.segments, Ne, List.map_eq_nil_iff]
        exact Text.split_ne_nil '.' rest.toList
      rw [Option.some_or, Option.bind_some, Value.walk?_int hrest]
      rfl
    | none =>
      rw [Option.none_or]
      exact congrArg (fun v => Option.bind v _) (Scope.get?_deviceVariables_stem ..)

/-- Three o'clock. -/
def atThree : Situation :=
  ⟨⟨"buy", ∅, ⟨1715353200, 0⟩⟩, ⟨"en", none, none, ∅⟩, ∅, ⟨1715353200, 0⟩⟩

/-- The app has been opened at noon, and that has been noted under two names. -/
def openedAtNoon : Counter :=
  (((History.start ⟨1715342400, 0⟩).recordEvent "open" ⟨1715342400, 0⟩).recordEvent "app.open"
    ⟨1715342400, 0⟩).counter atThree.now

/-- A rule that asks for both. -/
def asksForBoth : Rule :=
  ⟨none, none, ⟨"e", "g", []⟩, [⟨.hours, "open"⟩, ⟨.hours, "app.open"⟩], none⟩

/-- The three hours are found under the one name and not under the other. -/
theorem Rule.lookup?_openedAtNoon :
    let scope := asksForBoth.scope openedAtNoon atThree
    ⟨.hours, "open"⟩ ∈ asksForBoth.elapsed ∧ ⟨.hours, "app.open"⟩ ∈ asksForBoth.elapsed ∧
      openedAtNoon.lastEvent "open" = .ok (some ⟨1715342400, 0⟩) ∧
      openedAtNoon.lastEvent "app.open" = .ok (some ⟨1715342400, 0⟩) ∧
      '.' ∉ "open".toList ∧ "app.open" = "app" ++ "." ++ "open" ∧ '.' ∉ "app".toList ∧
      scope.lookup? "device.hoursSince_open" = some (.int 3) ∧
      scope.lookup? "device.hoursSince_app.open" = none := by
  intro scope
  have hopen : ⟨.hours, "open"⟩ ∈ asksForBoth.elapsed := .head _
  have happ : ⟨.hours, "app.open"⟩ ∈ asksForBoth.elapsed := .tail _ (.head _)
  have hseen : openedAtNoon.lastEvent "open" = .ok (some ⟨1715342400, 0⟩) := rfl
  have happSeen : openedAtNoon.lastEvent "app.open" = .ok (some ⟨1715342400, 0⟩) := rfl
  have hpoint : '.' ∉ "open".toList := by decide +kernel
  have hfront : '.' ∉ "app".toList := by decide +kernel
  exact ⟨hopen, happ, hseen, happSeen, hpoint, rfl, hfront,
    (@Rule.lookup?_variableName _ _ atThree _ _ hopen hseen).1 hpoint,
    (@Rule.lookup?_variableName _ _ atThree _ _ happ happSeen).2 "app" "open" rfl hfront⟩

/-- An event may have been seen and asked about, and yet its variable is not found. -/
theorem Rule.variable_with_point_not_found :
    ¬ ∀ (r : Rule) (counter : Counter) (s : Situation) (q : ElapsedRequest) (last : Instant),
      q ∈ r.elapsed → counter.lastEvent q.eventName = .ok (some last) →
        (r.scope counter s).lookup? ("device." ++ q.variableName) =
          some (.int (.ofInt (q.unit.elapsed last s.now))) := by
  intro hclaim
  have hfound := hclaim asksForBoth openedAtNoon atThree ⟨.hours, "app.open"⟩ ⟨1715342400, 0⟩
    (.tail _ (.head _)) rfl
  have hnone : (asksForBoth.scope openedAtNoon atThree).lookup? "device.hoursSince_app.open" =
      none := rfl
  cases hnone.symm.trans hfound

end Paywall
