import Paywall.Value
import Paywall.Json.Decode
import Paywall.Text.Base64

/-!
# The wire form of values

A value travels as an object of two members, `type` and `value`; null has only its type. Reading
also takes the array of the two, in this order, and ignores other members. A double that is not
finite is written as null and so cannot be read back.

The members may come in any order. A content that stands in front of its type is kept until the type
is known. Everything inside it is then read with two more freedoms: an array may give the number of
a type instead of its name, and an object may name its type with an empty object behind it.
-/

namespace Paywall.Value

mutual

/-- The wire form of a value. -/
def toJson : Value → Json
  | .list items => tagged "list" (.array (toJsonItems items))
  | .map entries => tagged "map" (.object (toJsonEntries entries))
  | .int n => tagged "int" (.int n.toInt)
  | .uint n => tagged "uint" (.int n.toNat)
  | .float x => tagged "float" (.ofFloat x)
  | .string s => tagged "string" (.string s)
  | .bytes data => tagged "bytes" (.string (Text.Base64.encode data))
  | .bool b => tagged "bool" (.bool b)
  | .timestamp ms => tagged "timestamp" (.int ms.toInt)
  | .null => .object [("type", .string "null")]

/-- The wire forms of the items of a list. -/
def toJsonItems : List Value → List Json
  | [] => []
  | v :: rest => toJson v :: toJsonItems rest

/-- The wire forms of the entries of a map. -/
def toJsonEntries : List (String × Value) → List (String × Json)
  | [] => []
  | (k, v) :: rest => (k, toJson v) :: toJsonEntries rest

/-- A type with its content. -/
def tagged (type : String) (content : Json) : Json :=
  .object [("type", .string type), ("value", content)]

end

/-- When a wire value is read. -/
inductive Moment where
  /-- As soon as it is met. -/
  | met
  /-- Once a type has become known that stands behind it. Until then it is kept as it is. -/
  | kept
deriving DecidableEq, Repr

/-- The names of the types in their order. -/
def typeNames : List String :=
  ["list", "map", "int", "uint", "float", "string", "bytes", "bool", "timestamp", "null"]

/-- The type that an array has in front. What has been kept may give its number instead. -/
def Moment.frontType? (m : Moment) : Json → Option String
  | .string type => some type
  | .int n => if m = .kept ∧ 0 ≤ n then typeNames[n.toNat]? else none
  | _ => none

/-- The type that a member of an object names. -/
def Moment.memberType? (m : Moment) (j : Json) : Option String :=
  match m, j with
  | .kept, .object [(type, .object [])] => some type
  | _, j => j.name?

/-- The type that the members of an object name, and when the content is read. A content in front of
the type is kept, and so has to be readable in all its parts. -/
def Moment.typeOf? (m : Moment) (members : List (String × Json)) : Option (String × Moment) := do
  match ← Json.fields? ["type", "value"] (.object members) with
  | ("type", type) :: _ => return (← m.memberType? type, m)
  | [(_, content), ("type", type)] =>
    if content.readable then return (← m.memberType? type, .kept) else none
  | _ => none

/-- A value that is neither a list nor a map, from its type and content. -/
def ofScalar? (type : String) (content : Json) : Option Value :=
  match type with
  | "int" => content.int64?.map .int
  | "uint" => content.uint64?.map .uint
  | "float" => content.float?.map .float
  | "string" => content.text?.map .string
  | "bytes" => (content.text?.bind Text.Base64.decode?).map .bytes
  | "bool" => content.bool?.map .bool
  | "timestamp" => content.int64?.map .timestamp
  | "null" | "Null" => match content with
    | .null => some .null
    | _ => none
  | _ => none

mutual

/-- The value of a wire form. -/
def read? (m : Moment) : Json → Option Value
  | .object members => (m.typeOf? members).bind fun (type, m) => readMembers? m type members
  | .array [type, content] => (m.frontType? type).bind fun type => readContent? m type content
  | _ => none

/-- The value of a type whose content is among the members of an object. Only null can do without.
-/
def readMembers? (m : Moment) (type : String) : List (String × Json) → Option Value
  | [] => ofScalar? type .null
  | (k, content) :: rest =>
    if k = "value" then readContent? m type content else readMembers? m type rest

/-- The value of a type with a content. -/
def readContent? (m : Moment) (type : String) : Json → Option Value
  | .array items => if type = "list" then (readItems? m items).map .list else none
  | .object members =>
    if type = "map" then (readEntries? m members).map fun entries => .map (Entries.sort entries)
    else none
  | content => ofScalar? type content

/-- The values of the items of a list. -/
def readItems? (m : Moment) : List Json → Option (List Value)
  | [] => some []
  | j :: rest => do
    let v ← read? m j
    let rest ← readItems? m rest
    some (v :: rest)

/-- The values of the entries of a map, in the order given. -/
def readEntries? (m : Moment) : List (String × Json) → Option (List (String × Value))
  | [] => some []
  | (k, j) :: rest => do
    let v ← read? m j
    let rest ← readEntries? m rest
    some ((k, v) :: rest)

end

/-- The value of a wire form that is read as soon as it is met. -/
def ofJson? (j : Json) : Option Value := read? .met j

/-- The object of the wire forms of a table of values. -/
def tableToJson (t : Table Value) : Json := .object (toJsonEntries t.entries)

/-- A table of values from an object of wire forms. -/
def readTable? (m : Moment) (j : Json) : Option (Table Value) := j.table? (read? m)

/-- A table of values from an object of wire forms that is read as soon as it is met. -/
def tableOfJson? (j : Json) : Option (Table Value) := readTable? .met j

end Paywall.Value
