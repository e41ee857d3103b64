import TypedGraph.Tensor.Basic

/-!
# Changing the element type

An integer becomes the nearest binary value. A binary value becomes an integer by cutting off its
fraction, and an integer becomes a narrower one as it is; both fail on a value that the element type
does not hold.
-/

namespace TypedGraph

namespace DType

/-- The integers that an element type holds, as its lowest and highest. -/
def intBounds : DType → Int × Int
  | int32 => (-0x80000000, 0x7FFFFFFF)
  | _ => (-0x8000000000000000, 0x7FFFFFFFFFFFFFFF)

def holds (t : DType) (n : Int) : Bool := t.intBounds.1 ≤ n && n ≤ t.intBounds.2

/-- An integer as an element of an integer type. -/
def fitInt (t : DType) (n : Int) : Except TensorError Int :=
  if t.holds n then .ok n else .error (.intOutOfRange n t)

/-- A binary value as an element of an integer type. -/
def fitBinary (t : DType) (x : Binary64) : Except TensorError Int :=
  match x.truncate? with
  | some n => if t.holds n then .ok n else .error (.floatOutOfRange x t)
  | none => .error (.floatOutOfRange x t)

end DType

namespace TensorData

/-- The elements as integers of a type. -/
def toIntType (t : DType) : TensorData → Except TensorError (List Int)
  | int32 xs | int64 xs => xs.mapM t.fitInt
  | float32 xs => xs.mapM fun x => t.fitBinary x.convert
  | float64 xs => xs.mapM t.fitBinary

/-- The elements as binary values of 32 bits. -/
def toBinary32 : TensorData → List Binary32
  | int32 xs | int64 xs => xs.map .ofInt
  | float32 xs => xs
  | float64 xs => xs.map .convert

/-- The elements in another element type. -/
def cast (d : TensorData) : DType → Except TensorError TensorData
  | .int32 => int32 <$> d.toIntType .int32
  | .int64 => int64 <$> d.toIntType .int64
  | .float32 => .ok (float32 d.toBinary32)
  | .float64 => .ok (float64 d.toBinaries)

end TensorData

/-- The tensor in another element type, with its shape and device; in its own type it is left as
it is. -/
def Tensor.cast (t : Tensor) (dtype : DType) : Except TensorError Tensor :=
  if t.dtype = dtype then .ok t
  else (fun data => { t with data }) <$> t.data.cast dtype

end TypedGraph
