import TypedGraph.Graph.Basic

/-!
# Renumbering

Ids are given anew so that each type owns one block. Vertex types keep the order in which they first
appear by id; edge types are put in ascending order, a missing type first. Within a type the order
of ids stays. The previous id of a row can be kept as one of its properties.
-/

namespace TypedGraph.Graph

open Json

/-- The properties with the previous id among them, if a column for it is given. -/
def keepId (column : Option String) (id : Int) (properties : Properties) : Properties :=
  match column with
  | some c => properties.insert c (.int id)
  | none => properties

/-- The table of some rows in order, with the ids from zero on. -/
def enumerate {α : Type} (rows : List α) : SortedMap Int α :=
  .ofList (rows.zipIdx.map fun r => ((r.2 : Int), r.1))

variable (g : Graph)

/-! ### Vertices -/

/-- The vertex types in the order of their smallest ids. -/
def typesByAppearance : List String := (g.vertices.values.map (·.type)).eraseDups

def verticesByType : List (Int × Vertex) :=
  g.typesByAppearance.flatMap fun t => g.vertices.entries.filter (·.2.type = t)

/-- The new id of a vertex: its position in the order of the old ids. -/
def newId (order : List Int) (id : Int) : Except GraphError Int :=
  match order.idxOf? id with
  | some i => .ok i
  | none => .error (.unknownVertex id)

/-- An edge between the new ids of its ends. -/
def moveEdge (order : List Int) (e : Edge) : Except GraphError Edge := do
  pure { e with source := ← newId order e.source, destination := ← newId order e.destination }

/-- The graph with vertex ids in one block per type, and the blocks. -/
def renumberVertices (previous : Option String) : Except GraphError (List TypeRange × Graph) := do
  let rows := g.verticesByType
  let moved ← g.edges.entries.mapM fun e => do pure (e.1, ← moveEdge (rows.map (·.1)) e.2)
  pure
    (TypeRange.ofNames 0 (rows.map (·.2.type)),
      { g with
        vertices := enumerate
          (rows.map fun r => { r.2 with properties := keepId previous r.1 r.2.properties })
        edges := .ofList moved })

/-! ### Edges -/

def edgesByType : List (Int × Edge) :=
  g.edgeTypes.flatMap fun t => g.edges.entries.filter (·.2.type = t)

/-- The graph with edge ids in one block per type, and the blocks; a missing type goes by the empty
name. -/
def renumberEdges (previous : Option String) : List TypeRange × Graph :=
  let rows := g.edgesByType
  (TypeRange.ofNames 0 (rows.map fun r => r.2.type.getD ""),
    { g with
      edges := enumerate
        (rows.map fun r => { r.2 with properties := keepId previous r.1 r.2.properties })
      nextEdgeId := rows.length })

end TypedGraph.Graph
