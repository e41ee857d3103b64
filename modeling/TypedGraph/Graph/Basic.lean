import TypedGraph.Graph.Error
import TypedGraph.Graph.Record
import TypedGraph.Ascending

/-!
# Property graphs

Vertices and edges by id, each with properties; a vertex has a type and an edge may have one. Rows
are loaded in batches, and a batch that cannot be loaded changes nothing.
-/

namespace TypedGraph

open Json

/-- A vertex. -/
structure Vertex where
  type : String
  properties : Properties := .empty
  deriving DecidableEq

/-- An edge; its type may be missing. -/
structure Edge where
  source : Int
  destination : Int
  type : Option String
  properties : Properties := .empty
  deriving DecidableEq

/-- A property graph. -/
structure Graph where
  vertices : SortedMap Int Vertex := .empty
  edges : SortedMap Int Edge := .empty
  nextEdgeId : Int := 0
  deriving DecidableEq

namespace Graph

instance : Inhabited Graph := ⟨{}⟩

/-! ### Columns of the tables -/

def vertexColumn : String := "_VERTEX_"

def edgeIdColumn : String := "_EDGE_ID_"

/-- The column of the vertices that edges leave. -/
def sourceColumn : String := "_SRC_"

/-- The column of the vertices that edges enter. -/
def destinationColumn : String := "_DST_"

def typeColumn : String := "_TYPE_"

/-! ### Types and properties -/

variable (g : Graph)

/-- The vertex types, ascending. -/
def vertexTypes : List String := Ascending.ofList (g.vertices.values.map (·.type))

/-- The named edge types, ascending. -/
def namedEdgeTypes : List String := Ascending.ofList (g.edges.values.filterMap (·.type))

/-- The edge types, ascending; a missing type comes first. -/
def edgeTypes : List (Option String) :=
  (if g.edges.values.any (·.type.isNone) then [none] else []) ++ g.namedEdgeTypes.map some

/-- The names of the properties that some vertex has, ascending. -/
def vertexPropertyNames : List String :=
  Ascending.ofList (g.vertices.values.flatMap (·.properties.keys))

/-- The names of the properties that some edge has, ascending. -/
def edgePropertyNames : List String :=
  Ascending.ofList (g.edges.values.flatMap (·.properties.keys))

/-- How many vertices there are, of one type or in all. A type without vertices is unknown. -/
def vertexCount : Option String → Except GraphError Nat
  | none => .ok g.vertices.size
  | some t =>
    match (g.vertices.values.filter (·.type = t)).length with
    | 0 => .error (.unknownVertexType t)
    | n => .ok n

/-! ### Numerals of edge types -/

/-- The position of an edge type among the named ones. -/
def edgeTypeNumeral (type : String) : Except GraphError Nat :=
  match g.namedEdgeTypes.idxOf? type with
  | some i => .ok i
  | none => .error (.unknownEdgeType type)

/-- The edge type of a numeral. -/
def edgeTypeOfNumeral (n : Int) : Except GraphError String :=
  match if n < 0 then none else g.namedEdgeTypes[n.toNat]? with
  | some t => .ok t
  | none => .error (.unknownEdgeTypeNumeral n)

/-- The edge types of numerals, in order. -/
def edgeTypesOfNumerals (ns : List Int) : Except GraphError (List String) :=
  ns.mapM g.edgeTypeOfNumeral

/-! ### Loading -/

/-- What keeps a vertex of a type from being loaded: one of its id with another type. -/
def typeConflict? (type : String) (r : VertexRecord) : Option GraphError :=
  match g.vertices.get? r.id with
  | some v => if v.type = type then none else some (.conflictingType r.id v.type)
  | none => none

/-- Adds a vertex, or adds properties to the vertex of that id. -/
def putVertex (type : String) (r : VertexRecord) : Graph :=
  { g with
    vertices := g.vertices.alter r.id fun
      | some v => { v with properties := v.properties.insertMany r.properties.entries }
      | none => { type, properties := r.properties } }

def addVertices (type : String) (rs : List VertexRecord) : Except GraphError Graph :=
  match rs.findSome? (g.typeConflict? type) with
  | some e => .error e
  | none => .ok (rs.foldl (fun g r => g.putVertex type r) g)

/-- The end of an edge that is no vertex, if any; the source is looked at first. -/
def missingEnd? (r : EdgeRecord) : Option Int :=
  [r.source, r.destination].find? fun id => !g.vertices.contains id

/-- Adds an edge under the next id. -/
def putEdge (type : Option String) (r : EdgeRecord) : Graph :=
  { g with
    edges := g.edges.insert g.nextEdgeId ⟨r.source, r.destination, type, r.properties⟩
    nextEdgeId := g.nextEdgeId + 1 }

/-- Adds edges of one type, or without a type. Both ends of every edge have to be vertices. -/
def addEdges (type : Option String) (rs : List EdgeRecord) : Except GraphError Graph :=
  match rs.findSome? g.missingEnd? with
  | some id => .error (.unknownVertex id)
  | none => .ok (rs.foldl (fun g r => g.putEdge type r) g)

end Graph

end TypedGraph
