import TypedGraph.Graph.Error

/-!
# Columns

One typed column of a frame: integers, binary values in which "not a number" marks a missing cell,
or strings.
-/

namespace TypedGraph

/-- A column by its cells. -/
inductive Column where
  | int64 (cells : List Int)
  | float64 (cells : List Binary64)
  | utf8 (cells : List String)
  deriving DecidableEq

namespace Column

/-! ### Reading -/

def length : Column → Nat
  | int64 cs => cs.length
  | float64 cs => cs.length
  | utf8 cs => cs.length

/-- The element type of a numeric column. -/
def dtype? : Column → Option DType
  | int64 _ => some .int64
  | float64 _ => some .float64
  | utf8 _ => none

def ints? : Column → Option (List Int)
  | int64 cs => some cs
  | _ => none

def texts? : Column → Option (List String)
  | utf8 cs => some cs
  | _ => none

/-- The cells of a numeric column as binary values. -/
def binaries? : Column → Option (List Binary64)
  | int64 cs => some (cs.map .ofInt)
  | float64 cs => some cs
  | utf8 _ => none

@[simp] theorem length_int64 (cs : List Int) : (int64 cs).length = cs.length := rfl

@[simp] theorem length_float64 (cs : List Binary64) : (float64 cs).length = cs.length := rfl

@[simp] theorem length_utf8 (cs : List String) : (utf8 cs).length = cs.length := rfl

/-! ### Gathering rows -/

/-- The cells at some rows, which may repeat. -/
def gather {α : Type} (cells : List α) (rows : List Nat) : Except GraphError (List α) :=
  rows.mapM fun row =>
    match cells[row]? with
    | some c => .ok c
    | none => .error (.rowOutOfRange row)

/-- The column of some rows, which may repeat. -/
def take (rows : List Nat) : Column → Except GraphError Column
  | int64 cs => int64 <$> gather cs rows
  | float64 cs => float64 <$> gather cs rows
  | utf8 cs => utf8 <$> gather cs rows

/-! ### Appending -/

/-- The cells of one column and then of another. Integers become binary values where the other
column holds those; strings go with strings only. -/
def append : Column → Column → Except GraphError Column
  | int64 as, int64 bs => .ok (int64 (as ++ bs))
  | int64 as, float64 bs => .ok (float64 (as.map .ofInt ++ bs))
  | float64 as, float64 bs => .ok (float64 (as ++ bs))
  | float64 as, int64 bs => .ok (float64 (as ++ bs.map .ofInt))
  | utf8 as, utf8 bs => .ok (utf8 (as ++ bs))
  | a, b => .error (.incompatibleColumns b.dtype? a.dtype?)

end Column

end TypedGraph
