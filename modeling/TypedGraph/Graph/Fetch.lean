import TypedGraph.Graph.Basic
import TypedGraph.Column.Typing
import TypedGraph.Frame

/-!
# Fetching rows

A fetch chooses rows by id and by type and columns by name, and answers with a frame: the fixed
columns first, then one column per property. Rows are in ascending id order, whatever the order of
the ids asked for; ids that do not exist are passed over.
-/

namespace TypedGraph

/-- Which rows and which properties are fetched; what is left out does not restrict. -/
structure Query where
  ids : Option (List Int) := none
  types : Option (List String) := none
  columns : Option (List String) := none
  deriving DecidableEq

namespace Graph

open Json

/-! ### Choosing rows -/

/-- The rows of a table that have one of the ids asked for. -/
def rowsWithIds {α : Type} (table : SortedMap Int α) : Option (List Int) → List (Int × α)
  | none => table.entries
  | some ids => (Ascending.ofList ids).filterMap fun id => (table.get? id).map fun r => (id, r)

/-- Whether a type is among those asked for; a missing type is among none. -/
def admits (types : Option (List String)) (type : Option String) : Bool :=
  match types with
  | none => true
  | some ts => type.any ts.contains

variable (g : Graph)

/-- The vertices that a query chooses. -/
def vertexRows (q : Query) : List (Int × Vertex) :=
  (rowsWithIds g.vertices q.ids).filter fun r => admits q.types (some r.2.type)

/-- The edges that a query chooses. -/
def edgeRows (q : Query) : List (Int × Edge) :=
  (rowsWithIds g.edges q.ids).filter fun r => admits q.types r.2.type

/-! ### Choosing columns -/

/-- The property columns of a fetch: all that there are, or those asked for, each once, without the
fixed ones. -/
def propertyColumns (fixed available : List String) :
    Option (List String) → Except GraphError (List String)
  | none => .ok available
  | some names =>
    let wanted := names.filter fun n => !fixed.contains n
    match wanted.find? fun n => !available.contains n with
    | some n => .error (.unknownColumn n)
    | none => .ok wanted.eraseDups

/-- Adds a column for each of some properties. -/
def pushProperties (rows : List Properties) (names : List String) (f : Frame) :
    Except GraphError Frame :=
  names.foldlM (fun f name => do f.push name (← Column.ofValues name (rows.map (·.get? name)))) f

/-! ### Frames -/

/-- The fixed columns of vertices. -/
def vertexColumns (rows : List (Int × Vertex)) : List (String × Column) :=
  [(vertexColumn, .int64 (rows.map (·.1))), (typeColumn, .utf8 (rows.map (·.2.type)))]

/-- The fixed columns of edges; a missing type is written as the empty string. -/
def edgeColumns (rows : List (Int × Edge)) : List (String × Column) :=
  [(edgeIdColumn, .int64 (rows.map (·.1))), (sourceColumn, .int64 (rows.map (·.2.source))),
    (destinationColumn, .int64 (rows.map (·.2.destination))),
    (typeColumn, .utf8 (rows.map fun r => r.2.type.getD ""))]

/-- The frame of the vertices that a query chooses. -/
def fetchVertices (q : Query) : Except GraphError Frame := do
  let rows := g.vertexRows q
  let names ← propertyColumns [vertexColumn, typeColumn] g.vertexPropertyNames q.columns
  pushProperties (rows.map (·.2.properties)) names ⟨vertexColumns rows⟩

/-- The frame of the edges that a query chooses. -/
def fetchEdges (q : Query) : Except GraphError Frame := do
  let rows := g.edgeRows q
  let names ← propertyColumns [edgeIdColumn, sourceColumn, destinationColumn, typeColumn]
    g.edgePropertyNames q.columns
  pushProperties (rows.map (·.2.properties)) names ⟨edgeColumns rows⟩

end Graph

end TypedGraph
