import Paywall.Settings.Tree

/-!
# Settings in the environment

A variable whose name starts with `PAYWALL_DECIDER__` is a setting. Further double underscores in
its name separate the levels of the tree, and its value is a flag, a number, or else a list of texts
separated by commas.
-/

namespace Paywall.Settings

/-- Variables by name. -/
abbrev Environment := Table String

namespace Environment

/-- What the names of settings start with, in lower case. -/
def mark : List Char := "paywall_decider__".toList

/-- Writes a point for every double underscore. -/
def withPoints : List Char → List Char
  | '_' :: '_' :: rest => '.' :: withPoints rest
  | c :: rest => c :: withPoints rest
  | [] => []

/-- The key of the setting that a variable holds, if it holds one. -/
def key? (name : String) : Option (List Char) :=
  let name := name.toList.map Text.lowerChar
  if mark.isPrefixOf name then some (withPoints (name.drop mark.length)) else none

/-- The value that a text stands for. -/
def value (text : String) : Tree :=
  let cs := text.toList
  match text.toLower with
  | "true" => .flag true
  | "false" => .flag false
  | _ =>
    match Text.readInt64? cs with
    | some n => .integer n
    | none =>
      match Text.readFloat? cs with
      | some x => .number x
      | none => .list ((Text.split ',' cs).map fun part => .text (String.ofList part))

/-- The settings among the variables, by key. -/
def values (e : Environment) : List (List Char × Tree) :=
  e.entries.filterMap fun (name, text) => (key? name).map fun key => (key, value text)

end Environment

end Paywall.Settings
