import TypedGraph.Tensor.Cast
import TypedGraph.Frame

/-!
# Building tensors

Tensors of integer ranges, of columns and frames, and of other tensors joined along their first
dimension.
-/

namespace TypedGraph

/-! ### Ranges -/

/-- The integers from a first one up to, and without, a last one. -/
def intRange (start stop : Int) : List Int :=
  (List.range (stop - start).toNat).map fun i : Nat => start + i

@[simp] theorem length_intRange (start stop : Int) :
    (intRange start stop).length = (stop - start).toNat := by
  simp [intRange]

theorem mem_intRange {start stop n : Int} : n ∈ intRange start stop ↔ start ≤ n ∧ n < stop := by
  simp only [intRange, List.mem_map, List.mem_range]
  constructor
  · rintro ⟨i, hi, rfl⟩
    omega
  · intro h
    exact ⟨(n - start).toNat, by omega, by omega⟩

namespace Tensor

/-- A range of integers in an integer type. -/
def arange (start stop : Int) (dtype : DType) : Except TensorError Tensor :=
  if dtype.isInteger then (ofInts (intRange start stop)).cast dtype
  else .error (.rangeOfFloats dtype)

/-! ### Columns and frames -/

/-- A numeric column as a tensor with one dimension. -/
def ofColumn : Column → Except TensorError Tensor
  | .int64 xs => .ok ⟨.int64 xs, [xs.length], .cpu⟩
  | .float64 xs => .ok ⟨.float64 xs, [xs.length], .cpu⟩
  | .utf8 _ => .error (.nonNumericColumn "<utf8>")

/-- The cells of columns row by row. -/
def interleave {α : Type} (rows : Nat) (columns : List (List α)) : Except TensorError (List α) :=
  (List.range rows).foldr (fun row rest => do
    let cells ← columns.mapM fun column =>
      match column[row]? with
      | some x => .ok x
      | none => .error .raggedFrame
    let rest ← rest
    pure (cells ++ rest)) (.ok [])

/-- The elements of a frame in row-major order: integers if every column holds those, binary values
otherwise. -/
def dataOfFrame (f : Frame) : Except TensorError TensorData :=
  match f.columns.find? fun c => c.2.dtype?.isNone with
  | some c => .error (.nonNumericColumn c.1)
  | none =>
    match f.columns.mapM fun c => c.2.ints? with
    | some (c :: cs) => .int64 <$> interleave f.rows (c :: cs)
    | _ => .float64 <$> interleave f.rows (f.columns.filterMap fun c => c.2.binaries?)

/-- A frame of numeric columns as a tensor of rows and columns. -/
def ofFrame (f : Frame) : Except TensorError Tensor :=
  (fun data => ⟨data, [f.rows, f.columns.length], .cpu⟩) <$> dataOfFrame f

/-! ### Joining -/

/-- What keeps a tensor from following another one. -/
def unlike? (first t : Tensor) : Option TensorError :=
  if t.dtype ≠ first.dtype then some (.dtypeMismatch first.dtype t.dtype)
  else if t.rowShape ≠ first.rowShape then some (.shape (.unlikeShapes first.shape t.shape))
  else none

/-- The elements of tensors, in the element type of the first. -/
def joinData (first : Tensor) (ts : List Tensor) : TensorData :=
  match first.data with
  | .int32 _ => .int32 (ts.flatMap fun t => match t.data with | .int32 xs => xs | _ => [])
  | .int64 _ => .int64 (ts.flatMap fun t => match t.data with | .int64 xs => xs | _ => [])
  | .float32 _ => .float32 (ts.flatMap fun t => match t.data with | .float32 xs => xs | _ => [])
  | .float64 _ => .float64 (ts.flatMap fun t => match t.data with | .float64 xs => xs | _ => [])

/-- The rows of tensors after some others, if each of them can follow the first. -/
def countRows (first : Tensor) (rows : Nat) : List Tensor → Except TensorError Nat
  | [] => .ok rows
  | t :: ts =>
    match unlike? first t with
    | some e => .error e
    | none => do countRows first (← checkSize (rows + t.rows)) ts

/-- Tensors joined along the first dimension, on the device of the first. -/
def join : List Tensor → Except TensorError Tensor
  | [] => .error (.shape .nothingToJoin)
  | first :: ts => do
    let rows ← countRows first 0 (first :: ts)
    match ← make? (joinData first (first :: ts)) (rows :: first.rowShape) first.device with
    | some t => pure t
    | none => throw (.shape .joinedCount)

end Tensor

end TypedGraph
