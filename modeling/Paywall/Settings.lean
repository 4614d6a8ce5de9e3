import Paywall.Table

/-!
# Settings

What a host sets up before any decision. Every setting has a default. Settings can be read from any
kind of tree that offers the readers of `Settings.Format`; a section may leave out what it likes.
-/

namespace Paywall

/-- What is known about the device. -/
structure DeviceSettings where
  locale : String := "en_US"
  appVersion : Option String := none
  platform : String := "ios"
deriving DecidableEq, Repr

/-- How results are cached. -/
structure CacheSettings where
  /-- Without it every request fetches anew, although requests still share a fetch under way. -/
  enabled : Bool := true
  /-- Whether the paywalls of the user's treatments are fetched as soon as a campaign is loaded. -/
  preload : Bool := false
deriving DecidableEq, Repr

/-- How assignments are kept. -/
structure AssignmentSettings where
  storePath : String := "assignments.json"
  /-- The seed of the draws; without one it is random. -/
  seed : Option UInt64 := none
deriving DecidableEq, Repr

/-- What helps in tests. -/
structure DebugSettings where
  /-- Presents to subscribers, too, and without cached results. -/
  preview : Bool := false
deriving DecidableEq, Repr

/-- All settings. -/
structure Settings where
  device : DeviceSettings := {}
  cache : CacheSettings := {}
  assignments : AssignmentSettings := {}
  debug : DebugSettings := {}
deriving DecidableEq, Repr

namespace Settings

/-- How settings are read from trees of type `σ`. -/
structure Format (σ : Type) where
  /-- The fields of a section that are given, out of the known ones. -/
  fields? : List String → σ → Option (Entries σ)
  text? : σ → Option String
  /-- A text that may be declared absent. -/
  optionalText? : σ → Option (Option String)
  flag? : σ → Option Bool
  /-- A seed that may be declared absent. -/
  optionalSeed? : σ → Option (Option UInt64)

variable {σ α : Type}

/-- A field, or its default. -/
def field (fs : Entries σ) (name : String) (default : α) (read : σ → Option α) : Option α :=
  match fs.find? name with
  | some node => read node
  | none => some default

/-- Reads the section of the device. -/
def readDevice? (f : Format σ) (node : σ) : Option DeviceSettings := do
  let fs ← f.fields? ["locale", "app_version", "platform"] node
  let d : DeviceSettings := {}
  return { locale := ← field fs "locale" d.locale f.text?
           appVersion := ← field fs "app_version" d.appVersion f.optionalText?
           platform := ← field fs "platform" d.platform f.text? }

/-- Reads the section of the cache. -/
def readCache? (f : Format σ) (node : σ) : Option CacheSettings := do
  let fs ← f.fields? ["enabled", "preload"] node
  let d : CacheSettings := {}
  return { enabled := ← field fs "enabled" d.enabled f.flag?
           preload := ← field fs "preload" d.preload f.flag? }

/-- Reads the section of the assignments. -/
def readAssignments? (f : Format σ) (node : σ) : Option AssignmentSettings := do
  let fs ← f.fields? ["store_path", "seed"] node
  let d : AssignmentSettings := {}
  return { storePath := ← field fs "store_path" d.storePath f.text?
           seed := ← field fs "seed" d.seed f.optionalSeed? }

/-- Reads the section for tests. -/
def readDebug? (f : Format σ) (node : σ) : Option DebugSettings := do
  let fs ← f.fields? ["preview"] node
  return { preview := ← field fs "preview" false f.flag? }

/-- Reads all settings. -/
def read? (f : Format σ) (node : σ) : Option Settings := do
  let fs ← f.fields? ["device", "cache", "assignments", "debug"] node
  return { device := ← field fs "device" {} (readDevice? f)
           cache := ← field fs "cache" {} (readCache? f)
           assignments := ← field fs "assignments" {} (readAssignments? f)
           debug := ← field fs "debug" {} (readDebug? f) }

end Settings

end Paywall
