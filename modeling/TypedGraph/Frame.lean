import TypedGraph.Column

/-!
# Frames

Named columns in order. Pushing keeps the columns equally long and their names apart; selecting may
repeat a name. Appending goes through the columns in order and stops at the first that does not fit,
so a frame after a failed append may hold columns of two lengths, and the operation returns it
beside the error.
-/

namespace TypedGraph

/-- Named columns. -/
structure Frame where
  columns : List (String × Column) := []
  deriving DecidableEq

namespace Frame

instance : Inhabited Frame := ⟨{}⟩

/-! ### Reading -/

/-- The number of rows: the length of the first column. -/
def rows (f : Frame) : Nat := (f.columns.head?.map fun c => c.2.length).getD 0

def names (f : Frame) : List String := f.columns.map (·.1)

/-- The first column of a name. -/
def column (f : Frame) (name : String) : Except GraphError Column :=
  match f.columns.find? (·.1 = name) with
  | some c => .ok c.2
  | none => .error (.unknownColumn name)

/-! ### Building -/

/-- Adds a column after the others. -/
def push (f : Frame) (name : String) (column : Column) : Except GraphError Frame :=
  if !f.columns.isEmpty && f.rows != column.length then
    .error (.columnLength name column.length f.rows)
  else if f.names.contains name then .error (.duplicateColumn name)
  else .ok ⟨f.columns ++ [(name, column)]⟩

def pushAll (f : Frame) (columns : List (String × Column)) : Except GraphError Frame :=
  columns.foldlM (fun f c => f.push c.1 c.2) f

/-! ### Choosing columns and rows -/

/-- The columns of the given names, in their order. -/
def select (f : Frame) (names : List String) : Except GraphError Frame :=
  (fun cs => ⟨cs⟩) <$> names.mapM fun name => (fun c => (name, c)) <$> f.column name

/-- The first column of a name, and the frame without it. -/
def takeColumn (f : Frame) (name : String) : Except GraphError (Column × Frame) :=
  (fun c => (c, ⟨f.columns.eraseP (·.1 = name)⟩)) <$> f.column name

/-- The rows of the given numbers, in their order. -/
def take (f : Frame) (rows : List Nat) : Except GraphError Frame :=
  (fun cs => ⟨cs⟩) <$> f.columns.mapM fun c => (fun d => (c.1, d)) <$> c.2.take rows

/-! ### Appending rows -/

/-- Appends columns pairwise up to the first pair that does not fit. -/
def appendColumns : List (String × Column) → List (String × Column) →
    Except GraphError Unit × List (String × Column)
  | (name, a) :: as, (_, b) :: bs =>
    match a.append b with
    | .error e => (.error e, (name, a) :: as)
    | .ok c =>
      let (outcome, cs) := appendColumns as bs
      (outcome, (name, c) :: cs)
  | as, _ => (.ok (), as)

/-- Appends the rows of another frame with the same column names. A frame without columns takes over
the other and gives nothing to it. -/
def append (f g : Frame) : Except GraphError Unit × Frame :=
  if f.columns.isEmpty then (.ok (), g)
  else if g.columns.isEmpty then (.ok (), f)
  else if f.names ≠ g.names then (.error .differentColumns, f)
  else
    let (outcome, cs) := appendColumns f.columns g.columns
    (outcome, ⟨cs⟩)

end Frame

end TypedGraph
