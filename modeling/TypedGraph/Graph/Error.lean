import TypedGraph.DType

/-!
# Errors of a graph and of its frames

Each constructor is a cause; `GraphError.message` words it.
-/

namespace TypedGraph

open Decimal

/-- Why an operation on a graph, a frame or a column fails. -/
inductive GraphError where
  | unknownVertex (id : Int)
  | unknownVertexType (name : String)
  | unknownEdgeType (name : String)
  | unknownEdgeTypeNumeral (numeral : Int)
  | unknownColumn (name : String)
  | columnLength (column : String) (actual expected : Nat)
  | delayed (reason : String)
  | conflictingType (id : Int) (present : String)
  | unknownEdge (id : Int)
  | repeatedPair (source destination : Int)
  | duplicateColumn (name : String)
  | mixedColumn (name : String) (value : Json.Value)
  | incompatibleColumns (added present : Option DType)
  | differentColumns
  | notIntegers (column : String)
  | rowOutOfRange (row : Nat)
  deriving DecidableEq

namespace GraphError

/-- What goes wrong, where the cause has no heading of its own. -/
def detail : GraphError → String
  | conflictingType id present => "vertex " ++ intText id ++ " already has type " ++ present
  | unknownEdge id => "unknown edge id: " ++ intText id
  | repeatedPair s d => "multiple edges between " ++ intText s ++ " and " ++ intText d
  | duplicateColumn name => "duplicate column: " ++ name
  | mixedColumn name v => "column " ++ name ++ " mixes non-numeric value " ++ v.text
  | incompatibleColumns added present =>
    "cannot append " ++ DType.optionText added ++ " column to " ++ DType.optionText present
      ++ " column"
  | differentColumns => "cannot append frames with different columns"
  | notIntegers column => column ++ " is not an integer column"
  | rowOutOfRange row => "row " ++ natText row ++ " is past the end of a column"
  | _ => ""

def message : GraphError → String
  | unknownVertex id => "unknown vertex id: " ++ intText id
  | unknownVertexType name => "unknown vertex type: " ++ name
  | unknownEdgeType name => "unknown edge type: " ++ name
  | unknownEdgeTypeNumeral n => "unknown edge type numeral: " ++ intText n
  | unknownColumn name => "unknown column: " ++ name
  | columnLength column actual expected =>
    "column " ++ column ++ " has " ++ natText actual ++ " rows, expected " ++ natText expected
  | delayed reason => "deferred evaluation failed: " ++ reason
  | e => "graph error: " ++ e.detail

end GraphError

end TypedGraph
