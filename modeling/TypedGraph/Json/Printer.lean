import TypedGraph.Json.Value
import TypedGraph.Decimal.Style

/-!
# JSON texts

The compact text of a JSON value: no spaces, members in the order of the value, and only those
characters escaped that a JSON string may not hold as they are.
-/

namespace TypedGraph.Json

open Decimal

/-! ### Strings -/

def hexDigit (d : Nat) : Char := if d < 10 then Char.ofNat (48 + d) else Char.ofNat (87 + d)

/-- The characters that stand for a character within a string. -/
def escape (c : Char) : List Char :=
  if c = '"' then ['\\', '"']
  else if c = '\\' then ['\\', '\\']
  else if c = '\x08' then ['\\', 'b']
  else if c = '\x0c' then ['\\', 'f']
  else if c = '\n' then ['\\', 'n']
  else if c = '\r' then ['\\', 'r']
  else if c = '\t' then ['\\', 't']
  else if c.toNat < 32 then ['\\', 'u', '0', '0', hexDigit (c.toNat / 16), hexDigit (c.toNat % 16)]
  else [c]

def quoted (s : String) : List Char := '"' :: s.toList.flatMap escape ++ ['"']

/-! ### Values -/

/-- The characters of a number. A value that is not finite is written as `null`. -/
def Number.chars : Number → List Char
  | .int n => intChars n
  | .float x => if x.isFinite then Style.json.chars x else "null".toList

namespace Value

mutual

def chars : Value → List Char
  | .null => "null".toList
  | .bool b => if b then "true".toList else "false".toList
  | .number n => n.chars
  | .string s => quoted s
  | .array [] => ['[', ']']
  | .array (v :: vs) => '[' :: v.chars ++ elementChars vs
  | .object [] => ['\x7b', '\x7d']
  | .object ((k, v) :: ms) => '\x7b' :: quoted k ++ ':' :: v.chars ++ memberChars ms

/-- The characters of the further elements of an array and of its end. -/
def elementChars : List Value → List Char
  | [] => [']']
  | v :: vs => ',' :: v.chars ++ elementChars vs

/-- The characters of the further members of an object and of its end. -/
def memberChars : List (String × Value) → List Char
  | [] => ['\x7d']
  | (k, v) :: ms => ',' :: quoted k ++ ':' :: v.chars ++ memberChars ms

end

/-- The compact text of a value. -/
def text (v : Value) : String := String.ofList v.chars

end Value

end TypedGraph.Json
