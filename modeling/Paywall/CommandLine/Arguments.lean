import Paywall.Decision.Request
import Paywall.Json.Reader
import Paywall.Settings.Load
import Paywall.Value.Plain

/-!
# Arguments

Arguments are options with a value, `--name value` or `--name=value`, and flags. A value does not
start with a hyphen unless it is a hyphen alone or stands behind an equals sign. Arguments are read
from left to right: a request for help or the version counts if nothing in front of it is wrong.
Some options fall back to a variable.
-/

namespace Paywall.CommandLine

/-- An option with a value. -/
inductive Parameter where
  | config
  | campaign
  | event
  | paywall
  | param
  | attr
  | locale
  | assignments
  | seed
deriving DecidableEq, Repr

namespace Parameter

/-- The option with a name. -/
def ofName? : String → Option Parameter
  | "config" => some .config
  | "campaign" => some .campaign
  | "event" => some .event
  | "paywall" => some .paywall
  | "param" => some .param
  | "attr" => some .attr
  | "locale" => some .locale
  | "assignments" => some .assignments
  | "seed" => some .seed
  | _ => none

/-- Whether an option may be given more than once. -/
def isRepeatable : Parameter → Bool
  | .param | .attr => true
  | _ => false

/-- The variable that an option falls back to. -/
def fallback? : Parameter → Option String
  | .config => some "PAYWALL_DECIDER__CONFIG_FILE"
  | .campaign => some "PAYWALL_DECIDER__CAMPAIGN"
  | .locale => some "PAYWALL_DECIDER__DEVICE__LOCALE"
  | .assignments => some "PAYWALL_DECIDER__ASSIGNMENTS__STORE_PATH"
  | _ => none

end Parameter

/-- An option without a value. -/
inductive Flag where
  | subscribed
  | ignoreSubscription
  | preview
  | speculative
  | preload
  | reset
deriving DecidableEq, Repr

/-- The flag with a name. -/
def Flag.ofName? : String → Option Flag
  | "subscribed" => some .subscribed
  | "ignore-subscription" => some .ignoreSubscription
  | "preview" => some .preview
  | "speculative" => some .speculative
  | "preload" => some .preload
  | "reset" => some .reset
  | _ => none

/-- A named value: a key and a value with an equals sign between them. The value is JSON if it can
be read so, and a text otherwise. -/
def namedValue? (text : String) : Option (String × Value) := do
  let (key, rest) ← Text.splitOnce? '=' text.toList
  let rest := String.ofList rest
  return (String.ofList key, ((Json.parse? rest).bind Value.ofPlain?).getD (.string rest))

/-- Arguments that have been read. -/
structure Arguments where
  /-- The options with a value, in the order given. -/
  parameters : List (Parameter × String) := []
  flags : List Flag := []
deriving Repr

namespace Arguments

/-- Whether a flag is given. -/
def has (a : Arguments) (f : Flag) : Bool := a.flags.contains f

/-- The value of an option. -/
def value? (a : Arguments) (s : Parameter) : Option String := a.parameters.lookup s

/-- The values of an option, as named values. -/
def namedValues (a : Arguments) (s : Parameter) : List (String × Value) :=
  a.parameters.filterMap fun (t, text) => if t = s then namedValue? text else none

/-- The seed, if one is given. -/
def seed? (a : Arguments) : Option UInt64 :=
  (a.value? .seed).bind fun s => Text.readUInt64? s.toList

/-- Whether a text can be the value of an option. -/
def accepts (s : Parameter) (text : String) : Bool :=
  match s with
  | .seed => (Text.readUInt64? text.toList).isSome
  | .param | .attr => (namedValue? text).isSome
  | _ => true

/-- Adds an option; `none` if it must not be repeated or its value is wrong. -/
def add? (a : Arguments) (s : Parameter) (text : String) : Option Arguments :=
  if ((a.value? s).isSome && !s.isRepeatable) || !accepts s text then none
  else some { a with parameters := a.parameters ++ [(s, text)] }

/-- Adds a flag; `none` if it is repeated. -/
def raise? (a : Arguments) (f : Flag) : Option Arguments :=
  if a.has f then none else some { a with flags := a.flags ++ [f] }

/-- Adds the values of variables for the options that are not given. -/
def withVariables (a : Arguments) (environment : Settings.Environment) : Arguments :=
  [Parameter.config, .campaign, .locale, .assignments].foldl (fun a s =>
    match a.value? s, s.fallback?.bind environment.get? with
    | none, some text => { a with parameters := a.parameters ++ [(s, text)] }
    | _, _ => a) a

end Arguments

/-- What arguments ask for. -/
inductive Command where
  | decide (a : Arguments)
  | showHelp
  | showVersion
  /-- The arguments are wrong. -/
  | misuse
deriving Repr

namespace Command

/-- How an argument is written. -/
inductive Form where
  /-- Two hyphens alone. -/
  | separator
  /-- A name behind two hyphens, with a value if there is an equals sign. -/
  | long (name : String) (value : Option String)
  /-- Letters behind one hyphen. -/
  | short (letters : List Char)
  | plain (text : String)
deriving DecidableEq, Repr

/-- The form of an argument. -/
def Form.of (text : String) : Form :=
  match text.toList with
  | ['-', '-'] => .separator
  | '-' :: '-' :: rest =>
    match Text.splitOnce? '=' rest with
    | some (name, value) => .long (String.ofList name) (some (String.ofList value))
    | none => .long (String.ofList rest) none
  | ['-'] => .plain text
  | '-' :: letters => .short letters
  | _ => .plain text

/-- A request for information. -/
def information? : Form → Option Command
  | .long "help" none => some .showHelp
  | .long "version" none => some .showVersion
  | .short ('h' :: _) => some .showHelp
  | .short ('V' :: _) => some .showVersion
  | _ => none

/-- Reads arguments after those in `a`. A `pending` option waits for its value. -/
def read (a : Arguments) (pending : Option Parameter) : List String → Command
  | [] => if pending.isSome then .misuse else .decide a
  | text :: rest =>
    match pending, Form.of text with
    | some s, .plain value =>
      match a.add? s value with
      | some a => read a none rest
      | none => .misuse
    | none, .separator => if rest = [] then .decide a else .misuse
    | none, .long name value =>
      match Parameter.ofName? name, value with
      | some s, none => read a (some s) rest
      | some s, some value =>
        match a.add? s value with
        | some a => read a none rest
        | none => .misuse
      | none, none =>
        match (Flag.ofName? name).bind a.raise? with
        | some a => read a none rest
        | none => (information? (.long name none)).getD .misuse
      | none, some _ => .misuse
    | none, .short letters => (information? (.short letters)).getD .misuse
    | _, _ => .misuse

/-- Whether arguments are complete and do not contradict each other. -/
def isComplete (a : Arguments) : Bool :=
  (a.value? .campaign).isSome && !((a.value? .event).isSome && (a.value? .paywall).isSome)

/-- Reads arguments and the variables that stand in for them. -/
def ofArguments (environment : Settings.Environment) (arguments : List String) : Command :=
  match read {} none arguments with
  | .decide a =>
    let a := a.withVariables environment
    if isComplete a then .decide a else .misuse
  | command => command

end Command

end Paywall.CommandLine
