import TypedGraph.Json.Codec
import TypedGraph.Text.Word

/-!
# Element types and devices

The element type of a tensor, with the names that settings and JSON texts use for it, and the place
where a tensor's storage lives.
-/

namespace TypedGraph

/-! ### Element types -/

/-- The element type of a tensor. -/
inductive DType where
  | int32
  | int64
  | float32
  | float64
  deriving DecidableEq

namespace DType

def name : DType → String
  | int32 => "int32"
  | int64 => "int64"
  | float32 => "float32"
  | float64 => "float64"

/-- The name of an element type within an optional one. -/
def caseName : DType → String
  | int32 => "Int32"
  | int64 => "Int64"
  | float32 => "Float32"
  | float64 => "Float64"

/-- The text of an optional element type. -/
def optionText : Option DType → String
  | none => "None"
  | some t => "Some(" ++ t.caseName ++ ")"

def isInteger : DType → Bool
  | int32 | int64 => true
  | float32 | float64 => false

/-- The words that a setting may use, with their element types. -/
def words : List (String × DType) :=
  [("int32", int32), ("i32", int32), ("int64", int64), ("i64", int64), ("long", int64),
    ("float32", float32), ("f32", float32), ("float", float32),
    ("float64", float64), ("f64", float64), ("double", float64)]

def ofSetting (s : String) : Except Text.WordError DType :=
  match words.lookup (Text.word s) with
  | some t => .ok t
  | none => .error (.dtype (Text.word s))

def table : List (String × DType) := [int32, int64, float32, float64].map fun t => (t.name, t)

instance : Json.Codec DType where
  encode t := .string t.name
  decode? := Json.Node.bareCase? table

end DType

/-! ### Devices -/

/-- Where a tensor's storage lives. -/
inductive Device where
  | cpu
  | gpu (index : Nat)
  deriving DecidableEq

namespace Device

instance : Inhabited Device := ⟨cpu⟩

def text : Device → String
  | cpu => "Cpu"
  | gpu n => "Gpu(" ++ Decimal.natText n ++ ")"

/-- Reads a device; the index of a graphics device has 32 bits. -/
def decode? (levels : Nat) (n : Json.Node) : Option Device := do
  let (s, payload) ← n.case? levels
  if s = "cpu" then
    guard (Json.Node.isBare payload)
    pure cpu
  else if s = "gpu" then
    let i ← payload.bind (Json.Node.int? 0 0xFFFFFFFF)
    pure (gpu i.toNat)
  else none

instance : Json.Codec Device where
  encode
    | cpu => .string "cpu"
    | gpu n => .object [("gpu", .int n)]
  decode? := decode?

end Device

end TypedGraph
