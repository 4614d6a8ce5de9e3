import Paywall.CommandLine.Decide
import Std.Time.DateTime.Timestamp

/-!
# The program

Carries out a command with the files of the system and prints what it answers.
-/

namespace Paywall.CommandLine

/-- Reads a file. -/
def readContent (path : String) : IO Content := do
  try return .text (← IO.FS.readFile path)
  catch
    | .noFileOrDirectory .. => return .absent
    | _ => return .unreadable

/-- The variables of the process. -/
def readEnvironment : IO Settings.Environment := do
  let text ← try IO.FS.readFile "/proc/self/environ" catch _ => pure ""
  let entries := (Text.split '\x00' text.toList).filterMap (Text.splitOnce? '=')
  return Table.ofList (entries.map fun (name, value) => (String.ofList name, String.ofList value))

/-- The clock and a random seed. -/
def readSurroundings : IO Surroundings := do
  let now ← Std.Time.Timestamp.now
  let bytes ← IO.getRandomBytes 8
  let nanoseconds := now.toNanosecondsSinceUnixEpoch.val
  return {
    environment := ← readEnvironment
    now := Instant.ofNanoseconds nanoseconds
    seed := bytes.foldl (fun n b => n * 256 + b.toUInt64) 0 }

/-- Replaces a file as a whole. -/
def replaceFile (path text : String) : IO Bool := do
  let temporary := FilePath.temporary path
  try
    IO.FS.writeFile temporary text
    IO.FS.rename temporary path
    return true
  catch _ => return false

instance : Files IO where
  read := readContent
  replace := replaceFile

end Paywall.CommandLine

open Paywall.CommandLine in
/-- Decides about one event or paywall. -/
def main (arguments : List String) : IO UInt32 := do
  let s ← readSurroundings
  let report ← (Command.ofArguments s.environment arguments).perform s
  if let some text := report.output then IO.println text
  if let some text := report.complaint then (← IO.getStderr).putStrLn text
  return report.exitCode
