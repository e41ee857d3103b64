import TypedGraph.Tensor.Error

/-!
# Tensors

Dense elements in row-major order with a shape and a device. Sizes are words of 64 bits, and a sum
or a product of sizes that no word holds is an error. So a shape fits its elements if the product of
its sizes is their number and no product of its first sizes is beyond a word on the way.
-/

namespace TypedGraph

/-! ### Elements -/

/-- The elements of a tensor. -/
inductive TensorData where
  | int32 (elements : List Int)
  | int64 (elements : List Int)
  | float32 (elements : List Binary32)
  | float64 (elements : List Binary64)
  deriving DecidableEq

namespace TensorData

def dtype : TensorData → DType
  | int32 _ => .int32
  | int64 _ => .int64
  | float32 _ => .float32
  | float64 _ => .float64

def length : TensorData → Nat
  | int32 xs => xs.length
  | int64 xs => xs.length
  | float32 xs => xs.length
  | float64 xs => xs.length

/-- The elements as signed 64-bit integers: fractions are cut off and large values held back. -/
def toInts : TensorData → List Int
  | int32 xs | int64 xs => xs
  | float32 xs => xs.map (·.clamp (-0x8000000000000000) 0x7FFFFFFFFFFFFFFF)
  | float64 xs => xs.map (·.clamp (-0x8000000000000000) 0x7FFFFFFFFFFFFFFF)

/-- The elements as binary values of 64 bits. -/
def toBinaries : TensorData → List Binary64
  | int32 xs | int64 xs => xs.map .ofInt
  | float32 xs => xs.map .convert
  | float64 xs => xs

end TensorData

/-! ### Sizes -/

/-- The first number that no word of 64 bits holds. -/
def sizeLimit : Nat := 0x10000000000000000

/-- A sum or a product of sizes, if a word holds it. -/
def checkSize (n : Nat) : Except TensorError Nat :=
  if n < sizeLimit then .ok n else .error .sizeOverflow

theorem checkSize_of_lt {n : Nat} (h : n < sizeLimit) : checkSize n = .ok n := if_pos h

theorem checkSize_of_le {n : Nat} (h : sizeLimit ≤ n) : checkSize n = .error .sizeOverflow :=
  if_neg (Nat.not_lt.mpr h)

/-! ### Tensors -/

/-- A dense tensor. -/
structure Tensor where
  data : TensorData
  shape : List Nat
  device : Device := .cpu
  deriving DecidableEq

namespace Tensor

/-- The number of elements that a shape asks for, multiplied up from the first size. -/
def shapeCount (shape : List Nat) : Except TensorError Nat :=
  shape.foldlM (fun n size => checkSize (n * size)) 1

/-- A tensor of some elements, if the shape asks for as many. -/
def make? (data : TensorData) (shape : List Nat) (device : Device) :
    Except TensorError (Option Tensor) := do
  let count ← shapeCount shape
  pure (if count = data.length then some ⟨data, shape, device⟩ else none)

/-- A tensor of integers with one dimension. -/
def ofInts (xs : List Int) : Tensor := ⟨.int64 xs, [xs.length], .cpu⟩

def dtype (t : Tensor) : DType := t.data.dtype

/-- The number of rows: the first size, or zero if there is none. -/
def rows (t : Tensor) : Nat := t.shape.head?.getD 0

/-- The shape of a row. -/
def rowShape (t : Tensor) : List Nat := t.shape.drop 1

def on (t : Tensor) (device : Device) : Tensor := { t with device }

@[simp] theorem data_on (t : Tensor) (d : Device) : (t.on d).data = t.data := rfl

@[simp] theorem shape_on (t : Tensor) (d : Device) : (t.on d).shape = t.shape := rfl

@[simp] theorem device_on (t : Tensor) (d : Device) : (t.on d).device = d := rfl

end Tensor

end TypedGraph
