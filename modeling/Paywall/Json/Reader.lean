import Paywall.Json.Token

/-!
# Reading JSON text

A reader goes through the tokens once and keeps the containers that are still open on a stack. Only
strict JSON is accepted: no trailing commas, no comments, nothing after the value. A container
nested more than `depthLimit` levels deep is well formed but unreadable.
-/

namespace Paywall.Json

/-- How deeply containers may be nested. -/
def depthLimit : Nat := 127

/-- A container whose end has not been reached, with what it holds so far, the latest first. -/
inductive Frame where
  | array (items : List Json)
  /-- `key` is the key whose value comes next. An unreadable key is `none`. -/
  | object (members : List (Option String × Json)) (key : Option String)

/-- The value of a container that ends. -/
def Frame.close : Frame → Json
  | .array items => .array items.reverse
  | .object members _ =>
    match members.reverse.mapM fun m => m.1.map fun k => (k, m.2) with
    | some members => .object members
    | none => .unreadable

/-- What may come next. -/
inductive Expectation where
  | value
  /-- A value, or the end of the array just opened. -/
  | valueOrEnd
  | key
  /-- A key, or the end of the object just opened. -/
  | keyOrEnd
  | colon
  /-- A comma or the end of the container; after the outermost value, the end of the text. -/
  | separator
deriving DecidableEq

/-- A position in a text. -/
structure Reading where
  /-- The containers that are open, the innermost first. -/
  stack : List Frame
  /-- What may come next. -/
  expect : Expectation
  /-- The outermost value, once it is complete. -/
  result : Option Json

namespace Reading

/-- Before the first token. -/
def start : Reading := ⟨[], .value, none⟩

/-- Takes a complete value. -/
def put (r : Reading) (j : Json) : Reading :=
  match r.stack with
  | [] => ⟨[], .separator, some j⟩
  | .array items :: rest => ⟨.array (j :: items) :: rest, .separator, none⟩
  | .object members key :: rest => ⟨.object ((key, j) :: members) none :: rest, .separator, none⟩

/-- Opens a container. -/
def push (r : Reading) (f : Frame) (expect : Expectation) : Reading := ⟨f :: r.stack, expect, none⟩

/-- Ends the innermost container. -/
def pop (r : Reading) : Option Reading :=
  match r.stack with
  | [] => none
  | f :: rest =>
    let j := if r.stack.length ≤ depthLimit then f.close else .unreadable
    some ({ r with stack := rest }.put j)

/-- Takes the first token of a value. -/
def takeValue (r : Reading) : Token → Option Reading
  | .openArray => some (r.push (.array []) .valueOrEnd)
  | .openObject => some (r.push (.object [] none) .keyOrEnd)
  | .string (some s) => some (r.put (.string s))
  | .string none => some (r.put .unreadable)
  | .scalar j => some (r.put j)
  | _ => none

/-- Takes a key. -/
def takeKey (r : Reading) : Token → Option Reading
  | .string key =>
    match r.stack with
    | .object members _ :: rest => some ⟨.object members key :: rest, .colon, none⟩
    | _ => none
  | _ => none

/-- Takes what stands after a value. -/
def takeSeparator (r : Reading) (t : Token) : Option Reading :=
  match r.stack, t with
  | .array _ :: _, .comma => some { r with expect := .value }
  | .object _ _ :: _, .comma => some { r with expect := .key }
  | .array _ :: _, .closeArray => r.pop
  | .object _ _ :: _, .closeObject => r.pop
  | _, _ => none

/-- Takes one token. -/
def step (r : Reading) (t : Token) : Option Reading :=
  match r.expect, t with
  | .value, t => r.takeValue t
  | .valueOrEnd, .closeArray => r.pop
  | .valueOrEnd, t => r.takeValue t
  | .key, t => r.takeKey t
  | .keyOrEnd, .closeObject => r.pop
  | .keyOrEnd, t => r.takeKey t
  | .colon, .colon => some { r with expect := .value }
  | .colon, _ => none
  | .separator, t => r.takeSeparator t

end Reading

/-- The value that a text of JSON stands for. -/
def parse? (text : String) : Option Json := do
  let tokens ← Token.scan text.toList
  let r ← tokens.foldlM Reading.step .start
  r.result

end Paywall.Json
