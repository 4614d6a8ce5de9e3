import Paywall.CommandLine.Arguments
import Paywall.Folder
import Paywall.Decision.Refresh
import Paywall.Decision.Present

/-!
# A decision at the command line

A decision reads settings, a record of assignments and a campaign, takes one request and answers
with its outcome. It works with any `Files`; `Command.run` carries out a command in a folder.

The record is saved whenever a step of the context replaces it, and before the next file is read,
since one file may serve as record and as campaign.
-/

namespace Paywall.CommandLine

namespace Arguments

/-- The paths at which a settings file may be, the first that holds a file counts. -/
def settingsPaths (a : Arguments) : List String :=
  match a.value? .config with
  | some path => path :: (FilePath.withExtension? "toml" path).toList
  | none => []

/-- The settings: those of the file and the environment, or the defaults if these cannot be read,
overridden by the arguments. -/
def applySettings (a : Arguments) (environment : Settings.Environment) (file : Option String) :
    Settings :=
  let s := (Settings.load? file environment).getD {}
  { device := { s.device with locale := (a.value? .locale).getD s.device.locale }
    cache := { s.cache with preload := s.cache.preload || a.has .preload }
    assignments := {
      storePath := (a.value? .assignments).getD s.assignments.storePath
      seed := a.seed?.or s.assignments.seed }
    debug := { preview := s.debug.preview || a.has .preview } }

/-- The request, for an event or for a paywall. -/
def request? (a : Arguments) (now : Instant) : Option Request := do
  let r ← match a.value? .event, a.value? .paywall with
    | some name, none =>
      some (Request.forEvent ⟨name, .ofList (a.namedValues .param), now⟩)
    | none, some identifier => some (Request.forPaywall identifier)
    | _, _ => none
  let r := if a.has .ignoreSubscription then r.ignoringSubscription else r
  return if a.has .speculative then r.asSpeculative else r

end Arguments

/-- Why there is no outcome. -/
inductive Failure where
  /-- Neither an event nor a paywall is named. -/
  | noSubject
  | storeUnreadable
  | resetFailed
  | campaignUnreadable
deriving DecidableEq, Repr

/-- A one-line explanation. -/
def Failure.message : Failure → String
  | .noSubject => "exactly one of --event or --paywall is required"
  | .storeUnreadable => "failed to open assignment store"
  | .resetFailed => "failed to reset assignments"
  | .campaignUnreadable => "failed to load campaign"

/-- What a decision needs from outside. -/
structure Surroundings where
  environment : Settings.Environment
  now : Instant
  /-- The seed of the draws if none is set. -/
  seed : UInt64

/-- The campaign in a file. -/
def campaignOf (content : Content) : Except PaywallError Campaign :=
  match content with
  | .text s =>
    match (Json.parse? s).bind Campaign.ofJson? with
    | some c => .ok c
    | none => .error (.serialization "no campaign")
  | _ => .error (.config "cannot read the campaign")

section

variable {m : Type → Type} [Monad m] [Files m] {α : Type}

/-- The text of the first path that leads to a file. -/
def firstText : List String → m (Option String)
  | [] => return none
  | path :: rest => do
    match ← Files.read path with
    | .text s => return some s
    | _ => firstText rest

/-- Takes a step of a context and saves the record if the step has replaced it. If it cannot be
saved, the step is taken again with that knowledge. -/
def saving (path : String) (c : Context) (step : Context → α × Context) : m (α × Context) := do
  let (result, d) := step c
  let record := d.assignments.record
  if record.saves = c.assignments.record.saves then return (result, d)
  else if ← Files.replace path (Record.text record.stored) then return (result, d)
  else
    let fault := some "the file cannot be written"
    return step { c with assignments := c.assignments.withSaveFault fault }

/-- Decides about a request. -/
def Arguments.answer (a : Arguments) (s : Surroundings) (settings : Settings) (request : Request) :
    m (Except Failure Outcome) := do
  let path := settings.assignments.storePath
  let record := Record.ofContent (← Files.read path)
  let ledger := Ledger.ofHistory (.start s.now)
  match Context.openWith settings Expression.evaluate .campaign record ledger s.seed s.now with
  | .error _ => return .error .storeUnreadable
  | .ok c =>
    let (cleared, c) ← if a.has .reset then saving path c Context.reset else pure (.ok (), c)
    if cleared.isOk then
      let campaign := campaignOf (← Files.read ((a.value? .campaign).getD ""))
      let (loaded, c) ← saving path c fun c => c.refresh campaign
      if loaded.isOk then
        let c := c.setSubscribed (a.has .subscribed)
        let c := (a.namedValues .attr).foldl (fun c v => c.setAttribute v.1 v.2) c
        return .ok (← saving path c fun c => c.present request).1
      else return .error .campaignUnreadable
    else return .error .resetFailed

/-- Takes a decision. -/
def Arguments.decide (a : Arguments) (s : Surroundings) : m (Except Failure Outcome) := do
  let settings := a.applySettings s.environment (← firstText a.settingsPaths)
  match a.request? s.now with
  | none => return .error .noSubject
  | some request => a.answer s settings request

end

/-- How the program is called. -/
def usage : String :=
  "Usage: paywall-decider --campaign <FILE> (--event <EVENT> | --paywall <PAYWALL>) [OPTIONS]\n" ++
  "Options: --config <FILE>, --param <KEY=VALUE>, --attr <KEY=VALUE>, --locale <LOCALE>,\n" ++
  "  --assignments <FILE>, --seed <SEED>, --subscribed, --ignore-subscription, --preview,\n" ++
  "  --speculative, --preload, --reset, --help, --version"

/-- The version of the program. -/
def version : String := "paywall-decider 0.1.0"

/-- What a command answers: an exit code, and what it prints. -/
structure Report where
  exitCode : UInt32
  /-- What goes to the standard output. -/
  output : Option String
  /-- What goes to the standard error output. -/
  complaint : Option String := none

/-- What is reported about a decision. -/
def Report.ofDecision : Except Failure Outcome → Report
  | .ok outcome => ⟨0, some outcome.toJson.pretty, none⟩
  | .error failure => ⟨1, none, some failure.message⟩

/-- Carries out a command. -/
def Command.perform {m : Type → Type} [Monad m] [Files m] (command : Command) (s : Surroundings) :
    m Report := do
  match command with
  | .misuse => return ⟨2, none, some usage⟩
  | .showHelp => return ⟨0, some usage, none⟩
  | .showVersion => return ⟨0, some version, none⟩
  | .decide a => return .ofDecision (← a.decide s)

/-- Carries out a command in a folder. -/
def Command.run (command : Command) (s : Surroundings) (folder : Folder) : Report × Folder :=
  (command.perform s : StateM Folder Report).run folder

end Paywall.CommandLine
