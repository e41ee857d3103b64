import TypedGraph.Graph.Basic
import TypedGraph.Search

/-!
# Extracting subgraphs

The edges of chosen ids as lists of ends and weights, with the vertices numbered within the subgraph
in ascending order of their ids, unless they keep their ids.
-/

namespace TypedGraph.Graph

open Json

variable (g : Graph)

/-- The ids of the edges of some types, ascending. -/
def selectEdges (types : List String) : List Int :=
  (g.edges.entries.filter fun e => e.2.type.any types.contains).map (·.1)

/-- The edges of some ids, in their order. With `distinct`, two edges between the same pair are
refused; `seen` holds the pairs before. -/
def chosenEdges (distinct : Bool) : List (Int × Int) → List Int → Except GraphError (List Edge)
  | _, [] => .ok []
  | seen, id :: ids =>
    match g.edges.get? id with
    | none => .error (.unknownEdge id)
    | some e =>
      if distinct && seen.contains (e.source, e.destination) then
        .error (.repeatedPair e.source e.destination)
      else (e :: ·) <$> chosenEdges distinct ((e.source, e.destination) :: seen) ids

/-- The weight of an edge by a property: the numeral of its type under the type column, a number
among its properties under another name. -/
def edgeWeight? (property : String) (e : Edge) : Option Binary64 :=
  if property = typeColumn then
    (e.type.bind g.namedEdgeTypes.idxOf?).map fun i => .ofInt i
  else ((e.properties.get? property).bind Value.number?).map Number.toBinary

/-- The subgraph of the edges of some ids. -/
def extract (ids : List Int) (o : ExtractOptions) : Except GraphError Subgraph := do
  let edges ← g.chosenEdges o.checkMultiEdges [] ids
  let sources := edges.map (·.source)
  let destinations := edges.map (·.destination)
  let vertexIds := if o.renumber then Ascending.ofList (sources ++ destinations) else []
  let number (v : Int) : Int := if o.renumber then Search.lowerBound vertexIds v else v
  pure
    { sources := sources.map number
      destinations := destinations.map number
      weights := edges.map fun e => (o.weightProperty.bind (g.edgeWeight? · e)).getD o.defaultWeight
      vertexIds
      edgeIds := if o.addEdgeData then some ids else none }

end TypedGraph.Graph
