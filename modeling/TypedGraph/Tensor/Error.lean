import TypedGraph.DType
import TypedGraph.Decimal.Style

/-!
# Errors of tensors

Each constructor is a cause; `TensorError.message` words it.
-/

namespace TypedGraph

open Decimal

/-- Why the parts of a tensor do not make up a shape. -/
inductive ShapeError where
  | nothingToJoin
  | unlikeShapes (first other : List Nat)
  | joinedCount
  deriving DecidableEq

/-- Why an operation on tensors fails. -/
inductive TensorError where
  | dtypeMismatch (expected found : DType)
  | shape (cause : ShapeError)
  | nonNumericColumn (name : String)
  | intOutOfRange (value : Int) (dtype : DType)
  | floatOutOfRange (value : Binary64) (dtype : DType)
  | rangeOfFloats (dtype : DType)
  | raggedFrame
  | sizeOverflow
  deriving DecidableEq

def shapeText (shape : List Nat) : String :=
  "[" ++ ", ".intercalate (shape.map natText) ++ "]"

/-- What is wrong with a shape. -/
def ShapeError.message : ShapeError → String
  | nothingToJoin => "nothing to concatenate"
  | unlikeShapes a b => "cannot concatenate shapes " ++ shapeText a ++ " and " ++ shapeText b
  | joinedCount => "concatenated element count"

namespace TensorError

/-- What is said of a value that an element type does not hold. -/
def outOfRange (value : String) (dtype : DType) : String :=
  "value " ++ value ++ " does not fit in " ++ dtype.name

def message : TensorError → String
  | dtypeMismatch expected found =>
    "dtype mismatch: expected " ++ expected.name ++ ", found " ++ found.name
  | shape cause => "shape error: " ++ cause.message
  | nonNumericColumn name => "column " ++ name ++ " is not numeric"
  | intOutOfRange value dtype => outOfRange (intText value) dtype
  | floatOutOfRange value dtype => outOfRange (String.ofList (Style.plain.chars value)) dtype
  | rangeOfFloats dtype => "backend error: arange requires an integer dtype, got " ++ dtype.name
  | raggedFrame => "a column is shorter than the first"
  | sizeOverflow => "a size is beyond 64 bits"

end TensorError

end TypedGraph
