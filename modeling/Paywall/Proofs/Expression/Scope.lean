import Paywall.Expression.Scope
import Paywall.Proofs.Text.Split
import Paywall.Table.Lemmas

/-!
# What a path leads to

A path is cut at its points. The first part names one of the maps `user`, `device` and `params`, the
second one an entry of it, and the others lead on through the maps that are nested in that entry.

The entries of a map come from several places, and the nearer one counts: what was computed for the
rule comes before the built-in attributes of the device, these before its further attributes, and
the name of the event before its parameters. So no host can hide a built-in entry, and nothing is
lost that it reports under another name, unless there is a point in it.
-/

namespace Paywall

/-! ## Walking -/

namespace Value

/-- From one value a list of keys leads to another, each key through a map that has it. -/
inductive Leads : Value → List String → Value → Prop where
  | here (v : Value) : Leads v [] v
  | into {entries : Entries Value} {key : String} {keys : List String} {u v : Value}
      (hkey : entries.find? key = some u) (hkeys : Leads u keys v) :
      Leads (.map entries) (key :: keys) v

theorem get?_eq_some_iff {v u : Value} {key : String} :
    v.get? key = some u ↔ ∃ entries, v = .map entries ∧ Entries.find? key entries = some u := by
  cases v <;> simp [get?]

theorem walk?_cons (v : Value) (key : String) (keys : List String) :
    v.walk? (key :: keys) = (v.get? key).bind fun u => u.walk? keys := rfl

/-- A walk comes to an end exactly where the keys lead. -/
theorem walk?_eq_some_iff {v u : Value} {keys : List String} :
    v.walk? keys = some u ↔ v.Leads keys u := by
  induction keys generalizing v with
  | nil =>
    constructor
    · intro h
      cases h
      exact .here _
    · intro h
      cases h
      rfl
  | cons key rest ih =>
    simp only [walk?_cons, Option.bind_eq_some_iff, get?_eq_some_iff, ih]
    constructor
    · rintro ⟨w, ⟨entries, rfl, hkey⟩, hrest⟩
      exact .into hkey hrest
    · intro h
      cases h with
      | into hkey hrest => exact ⟨_, ⟨_, rfl, hkey⟩, hrest⟩

end Value

/-! ## Layers -/

/-- A built-in attribute of a device. One that is not known is null. -/
def Device.builtIn? (d : Device) : String → Option Value
  | "locale" => some (.string d.locale)
  | "app_version" => some (.ofText? d.appVersion)
  | "platform" => some (.ofText? d.platform)
  | _ => none

namespace Scope

/-- No parameter takes the place of the name of the event. -/
theorem get?_params (event : HostEvent) (device : Device) (user computed : Table Value)
    (key : String) :
    (build event device user computed).params.get? key =
      if key = "$event_name" then some (.string event.name) else event.parameters.get? key := by
  simp only [build, eventNameKey, Table.get?_insert, eq_comm]

/-- What is computed for a rule comes before the attributes of the device. -/
theorem get?_deviceVariables (device : Device) (computed : Table Value) (key : String) :
    (deviceVariables device computed).get? key =
      (computed.get? key).or ((deviceVariables device ∅).get? key) := by
  simp only [deviceVariables, Table.get?_union, Table.get?_empty, Option.none_or]

/-- No further attribute takes the place of a built-in one. -/
theorem get?_deviceVariables_empty (device : Device) (key : String) :
    (deviceVariables device ∅).get? key = (device.builtIn? key).or (device.extra.get? key) := by
  unfold Device.builtIn?
  split
  · simp [deviceVariables]
  · simp [deviceVariables]
  · simp [deviceVariables]
  · next hlocale hversion hplatform =>
    simp [deviceVariables, Ne.symm hlocale, Ne.symm hversion, Ne.symm hplatform]

theorem get?_device (event : HostEvent) (device : Device) (user computed : Table Value)
    (key : String) :
    (build event device user computed).device.get? key =
      (computed.get? key).or ((device.builtIn? key).or (device.extra.get? key)) := by
  rw [← get?_deviceVariables_empty]
  exact get?_deviceVariables device computed key

/-! ## Paths -/

variable {s : Scope}

theorem root?_eq_none {root : String} (h : root ∉ ["user", "device", "params"]) :
    s.root? root = none := by
  simp only [List.mem_cons, List.not_mem_nil, or_false, not_or] at h
  obtain ⟨huser, hdevice, hparams⟩ := h
  unfold root?
  split
  · exact absurd rfl huser
  · exact absurd rfl hdevice
  · exact absurd rfl hparams
  · rfl

/-- The first part of a path names a map, and the others are walked from there. -/
theorem lookup?_of_segments {path root : String} {keys : List String}
    (h : Text.segments path = root :: keys) :
    s.lookup? path = (s.root? root).bind fun v => v.walk? keys := by
  by_cases hpoint : '.' ∈ path.toList
  · obtain ⟨front, rest, hsplit, hfront⟩ := List.eq_append_cons_of_mem hpoint
    rw [Text.segments, hsplit, Text.split_append_cons hfront, List.map_cons, List.cons.injEq] at h
    obtain ⟨rfl, rfl⟩ := h
    rw [lookup?, hsplit, Text.splitOnce?_append_cons hfront]
    simp only [Value.path?, Text.segments, String.toList_ofList]
  · rw [Text.segments_of_not_mem hpoint, List.cons.injEq] at h
    obtain ⟨rfl, rfl⟩ := h
    rw [lookup?, Text.splitOnce?_of_not_mem hpoint]
    cases s.root? path <;> rfl

theorem lookup?_entry {root key : String} (hroot : '.' ∉ root.toList) (hkey : '.' ∉ key.toList) :
    s.lookup? (root ++ "." ++ key) = (s.root? root).bind fun v => v.get? key := by
  have hsegments : Text.segments (root ++ "." ++ key) = [root, key] := by
    rw [Text.segments_append hroot, Text.segments_of_not_mem hkey]
  rw [lookup?_of_segments hsegments]
  refine congrArg _ (funext fun v => ?_)
  rw [Value.walk?_cons]
  cases v.get? key <;> rfl

/-- A longer path leads on from the entry that its first two parts name. -/
theorem lookup?_intercalate {root key : String} {keys : List String} (hroot : '.' ∉ root.toList)
    (hkey : '.' ∉ key.toList) (hkeys : ∀ k ∈ keys, '.' ∉ k.toList) :
    s.lookup? (".".intercalate (root :: key :: keys)) =
      (s.lookup? (root ++ "." ++ key)).bind fun v => v.walk? keys := by
  have hsegments := Text.segments_intercalate (List.cons_ne_nil root (key :: keys))
    (List.forall_mem_cons.mpr ⟨hroot, List.forall_mem_cons.mpr ⟨hkey, hkeys⟩⟩)
  rw [lookup?_of_segments hsegments, lookup?_entry hroot hkey, Option.bind_assoc]
  rfl

/-- An expression finds each entry of the three maps under its name, the nearest of those that go by
that name, and from there on whatever the further keys lead to, through nested maps and nothing else.
Nothing is found under any other root. -/
theorem lookup?_build (event : HostEvent) (device : Device) (user computed : Table Value) :
    let s := build event device user computed
    (∀ key, '.' ∉ key.toList →
      s.lookup? ("user." ++ key) = user.get? key ∧
      s.lookup? ("params." ++ key) =
        (if key = "$event_name" then some (.string event.name) else event.parameters.get? key) ∧
      s.lookup? ("device." ++ key) =
        (computed.get? key).or ((device.builtIn? key).or (device.extra.get? key))) ∧
    (∀ root key keys, '.' ∉ root.toList → '.' ∉ key.toList → (∀ k ∈ keys, '.' ∉ k.toList) →
      ∀ v, s.lookup? (".".intercalate (root :: key :: keys)) = some v ↔
        ∃ u, s.lookup? (root ++ "." ++ key) = some u ∧ u.Leads keys v) ∧
    ∀ path root keys, Text.segments path = root :: keys → root ∉ ["user", "device", "params"] →
      s.lookup? path = none := by
  intro s
  refine ⟨fun key hkey => ?_, fun root key keys hroot hkey hkeys v => ?_,
    fun path root keys hsegments hroot => ?_⟩
  · have huser : s.lookup? ("user" ++ "." ++ key) = user.get? key :=
      lookup?_entry (by decide +kernel) hkey
    have hparams : s.lookup? ("params" ++ "." ++ key) = s.params.get? key :=
      lookup?_entry (by decide +kernel) hkey
    have hdevice : s.lookup? ("device" ++ "." ++ key) = s.device.get? key :=
      lookup?_entry (by decide +kernel) hkey
    exact ⟨huser, hparams.trans (get?_params ..), hdevice.trans (get?_device ..)⟩
  · simp only [lookup?_intercalate hroot hkey hkeys, Option.bind_eq_some_iff,
      Value.walk?_eq_some_iff]
  · rw [lookup?_of_segments hsegments, root?_eq_none hroot]
    rfl

/-- An event with a parameter under the key of its name. -/
def forgedEvent : HostEvent :=
  ⟨"open", .ofList [("$event_name", .string "close"), ("source", .string "push")], ⟨0, 0⟩⟩

/-- A device with another locale among its further attributes. -/
def forgedDevice : Device :=
  ⟨"en", none, some "ios", .ofList [("locale", .string "de"), ("memory", .int 4)]⟩

/-- A user whose profile has an entry without a name. -/
def nestedUser : Table Value := .ofList [("profile", .map [("", .map [("level", .int 7)])])]

/-- The built-in entries are seen, and a computed one in front of them. -/
theorem lookup?_build_forged :
    let s := build forgedEvent forgedDevice nestedUser (.ofList [("platform", .int 3)])
    s.lookup? "params.$event_name" = some (.string "open") ∧
      s.lookup? "params.source" = some (.string "push") ∧
      s.lookup? "device.locale" = some (.string "en") ∧
      s.lookup? "device.app_version" = some .null ∧
      s.lookup? "device.platform" = some (.int 3) ∧
      s.lookup? "device.memory" = some (.int 4) ∧
      s.lookup? "user.profile..level" = some (.int 7) ∧
      s.lookup? "user.profile..level.top" = none ∧
      s.lookup? "users.profile" = none := by
  intro s
  obtain ⟨hentry, hpath, hroot⟩ :=
    lookup?_build forgedEvent forgedDevice nestedUser (.ofList [("platform", .int 3)])
  have hprofile := (hentry "profile" (by decide +kernel)).1
  refine ⟨(hentry "$event_name" (by decide +kernel)).2.1,
    (hentry "source" (by decide +kernel)).2.1, (hentry "locale" (by decide +kernel)).2.2,
    (hentry "app_version" (by decide +kernel)).2.2, (hentry "platform" (by decide +kernel)).2.2,
    (hentry "memory" (by decide +kernel)).2.2, ?_, ?_, ?_⟩
  · refine (hpath "user" "profile" ["", "level"] (by decide +kernel) (by decide +kernel)
      (by decide +kernel) _).mpr ⟨_, hprofile, ?_⟩
    exact .into rfl (.into rfl (.here _))
  · refine Option.eq_none_iff_forall_ne_some.mpr fun v hv => ?_
    obtain ⟨u, hu, hleads⟩ := (hpath "user" "profile" ["", "level", "top"] (by decide +kernel)
      (by decide +kernel) (by decide +kernel) v).mp hv
    cases hu.symm.trans hprofile
    obtain _ | ⟨hname, _ | ⟨hlevel, hrest⟩⟩ := hleads
    cases hname
    cases hlevel
    cases hrest
  · exact hroot "users.profile" "users" ["profile"] rfl (by decide)

end Scope

end Paywall
