import TypedGraph.Column

/-!
# Typing a column of JSON values

The column that holds one property of some rows. A row may lack the property or have it as `null`;
other values are present. Strings alone give a string column; numbers and truth values give integers
when every row has one that fits, and binary values otherwise.
-/

namespace TypedGraph.Json.Value

/-! ### Numbers of values -/

/-- The integer of a numeric cell; a truth value counts as one or zero. -/
def cellInt? : Value → Option Int
  | .number n => n.toInt?
  | .bool b => some (if b then 1 else 0)
  | _ => none

/-- The binary value of a numeric cell; a truth value counts as one or zero. -/
def cellBinary? : Value → Option Binary64
  | .number n => some n.toBinary
  | .bool b => some (.ofInt (if b then 1 else 0))
  | _ => none

end TypedGraph.Json.Value

namespace TypedGraph.Column

open Json

/-- The value of a row, if it is present. -/
def present : Option Value → Option Value
  | some .null => none
  | v => v

/-- The column of the values of a property. -/
def ofValues (name : String) (values : List (Option Value)) : Except GraphError Column :=
  let cells := values.map present
  let given := cells.filterMap id
  if !given.isEmpty && given.all fun v => v.string?.isSome then
    .ok (.utf8 (cells.map fun c => (c.bind Value.string?).getD ""))
  else match given.find? fun v => v.cellBinary?.isNone with
    | some v => .error (.mixedColumn name v)
    | none =>
      let ints := given.filterMap Value.cellInt?
      if !values.isEmpty && ints.length == values.length then .ok (.int64 ints)
      else .ok (.float64 (cells.map fun c => (c.bind Value.cellBinary?).getD .nan))

end TypedGraph.Column
