import TypedGraph.Json.Node
import TypedGraph.Json.Printer

/-!
# Typed JSON

How a type is written as a JSON value and read from a JSON text. Records are objects, or arrays of
their fields in order; a member that names no field is skipped unread, and a field may be given only
once. The cases of an enumeration are strings, or objects with the case's name as their one member.
Reading counts down the levels of nesting that are still allowed.
-/

namespace TypedGraph.Json

/-- A type with a JSON form. -/
class Codec (α : Type) where
  encode : α → Value
  decode? : Nat → Node → Option α

/-- How deep a text may nest. -/
def maxLevels : Nat := 127

def Codec.text {α : Type} [Codec α] (a : α) : String := (encode a).text

def Codec.ofText? {α : Type} [Codec α] (s : String) : Option α :=
  (Node.read s).bind (decode? maxLevels)

namespace Node

/-! ### Single values -/

def string? : Node → Option String
  | .string s => s
  | _ => none

def bool? : Node → Option Bool
  | .bool b => some b
  | _ => none

/-- The integer of a node, if it lies between two bounds. -/
def int? (lowest highest : Int) : Node → Option Int
  | .number (some (.int n)) => if lowest ≤ n && n ≤ highest then some n else none
  | _ => none

/-- The binary value of a number, an integer included. -/
def binary? : Node → Option Binary64
  | .number n => n.map Number.toBinary
  | _ => none

/-- Reads `null` as the absence of a value. -/
def optional? {α : Type} (decode? : Node → Option α) : Node → Option (Option α)
  | .null => some none
  | n => (decode? n).map some

def list? {α : Type} (decode? : Nat → Node → Option α) : Nat → Node → Option (List α)
  | levels + 1, .array ns => ns.mapM (decode? levels)
  | _, _ => none

/-! ### Any value -/

mutual

/-- Reads any value; of members with one name the last stands. -/
def value? : Nat → Node → Option Value
  | _, .null => some .null
  | _, .bool b => some (.bool b)
  | _, .number n => n.map .number
  | _, .string s => s.map .string
  | levels + 1, .array ns => (elements? levels ns).map .array
  | levels + 1, .object ms => (members? levels ms).map fun ms => .ofMap (.ofList ms)
  | 0, .array _ | 0, .object _ => none

def elements? : Nat → List Node → Option (List Value)
  | _, [] => some []
  | levels, n :: ns => do
    let v ← value? levels n
    let vs ← elements? levels ns
    pure (v :: vs)

/-- Reads every member as a name and any value. -/
def members? : Nat → List (Option String × Node) → Option (List (String × Value))
  | _, [] => some []
  | levels, (k, n) :: ms => do
    let k ← k
    let v ← value? levels n
    let vs ← members? levels ms
    pure ((k, v) :: vs)

end

/-- Reads an object as named values. -/
def properties? : Nat → Node → Option Properties
  | levels + 1, .object ms => (members? levels ms).map .ofList
  | _, _ => none

/-! ### Records -/

/-- The node of a field, if the object gives the field at most once. -/
def field? (members : List (Option String × Node)) (name : String) : Option (Option Node) :=
  match members.filter (·.1 = some name) with
  | [] => some none
  | [m] => some (some m.2)
  | _ => none

/-- The nodes of the named fields of a record. -/
def fields? (names : List String) : Nat → Node → Option (List (Option Node))
  | _ + 1, .array ns =>
    if ns.length ≤ names.length then some ((List.range names.length).map (ns[·]?)) else none
  | _ + 1, .object ms => do
    guard (ms.all (·.1.isSome))
    names.mapM (field? ms)
  | _, _ => none

/-- Reads a field that has to be given. -/
def required {α : Type} (decode? : Node → Option α) (field : Option Node) : Option α :=
  field.bind decode?

/-- Reads a field that has a value of its own when it is not given. -/
def defaulting {α : Type} (a : α) (decode? : Node → Option α) : Option Node → Option α
  | none => some a
  | some n => decode? n

/-! ### Enumerations -/

/-- The case of an enumeration and what comes with it. -/
def case? : Nat → Node → Option (String × Option Node)
  | _, .string (some s) => some (s, none)
  | _ + 1, .object [(some s, n)] => some (s, some n)
  | _, _ => none

/-- Whether nothing comes with a case. -/
def isBare : Option Node → Bool
  | none | some .null => true
  | _ => false

/-- Reads a case that nothing comes with, by the table of its names. -/
def bareCase? {α : Type} (table : List (String × α)) (levels : Nat) (n : Node) : Option α := do
  let (s, payload) ← case? levels n
  guard (isBare payload)
  table.lookup s

end Node

namespace Value

/-- An absent value is `null`. -/
def ofOption {α : Type} (encode : α → Value) : Option α → Value
  | none => .null
  | some a => encode a

def ofList {α : Type} (encode : α → Value) (as : List α) : Value := .array (as.map encode)

end Value

end TypedGraph.Json
