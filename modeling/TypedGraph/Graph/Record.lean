import TypedGraph.Json.Codec

/-!
# Records of a graph

The rows by which a graph is loaded, the block of ids that one type owns, and the options and the
result of extracting a subgraph, with their JSON forms.
-/

namespace TypedGraph

open Json

def id64? (n : Node) : Option Int := n.int? (-0x8000000000000000) 0x7FFFFFFFFFFFFFFF

/-! ### Rows to load -/

/-- A vertex to load. -/
structure VertexRecord where
  id : Int
  properties : Properties := .empty
  deriving DecidableEq

/-- An edge to load. -/
structure EdgeRecord where
  source : Int
  destination : Int
  properties : Properties := .empty
  deriving DecidableEq

def VertexRecord.decode? : Nat → Node → Option VertexRecord
  | 0, _ => none
  | levels + 1, n => do
    match ← n.fields? ["id", "properties"] (levels + 1) with
    | [i, p] => pure ⟨← Node.required id64? i, ← Node.defaulting .empty (Node.properties? levels) p⟩
    | _ => none

instance : Codec VertexRecord where
  encode r := .object [("id", .int r.id), ("properties", .ofMap r.properties)]
  decode? := VertexRecord.decode?

def EdgeRecord.decode? : Nat → Node → Option EdgeRecord
  | 0, _ => none
  | levels + 1, n => do
    match ← n.fields? ["src", "dst", "properties"] (levels + 1) with
    | [s, d, p] =>
      pure ⟨← Node.required id64? s, ← Node.required id64? d,
        ← Node.defaulting .empty (Node.properties? levels) p⟩
    | _ => none

instance : Codec EdgeRecord where
  encode r :=
    .object [("dst", .int r.destination), ("properties", .ofMap r.properties),
      ("src", .int r.source)]
  decode? := EdgeRecord.decode?

/-! ### Blocks of ids -/

/-- A block of ids of one type, from `start` up to and without `stop`. -/
structure TypeRange where
  name : String
  start : Int
  stop : Int
  deriving DecidableEq

namespace TypeRange

/-- The number of ids, if a signed word holds the difference of the ends. -/
def length? (r : TypeRange) : Option Nat :=
  let n := r.stop - r.start
  if isSigned64 n then some n.toNat else none

def isEmpty (r : TypeRange) : Bool := r.stop ≤ r.start

/-- Reads a block. -/
def decode? (levels : Nat) (n : Node) : Option TypeRange := do
  match ← n.fields? ["type_name", "start", "end"] levels with
  | [t, s, e] =>
    pure ⟨← Node.required Node.string? t, ← Node.required id64? s, ← Node.required id64? e⟩
  | _ => none

instance : Codec TypeRange where
  encode r :=
    .object [("end", .int r.stop), ("start", .int r.start), ("type_name", .string r.name)]
  decode? := decode?

/-- Puts one more id of a type before some blocks: the first grows if it is of that type. -/
def prepend (name : String) (id : Int) : List TypeRange → List TypeRange
  | [] => [⟨name, id, id + 1⟩]
  | r :: rs => if r.name = name then { r with start := id } :: rs else ⟨name, id, id + 1⟩ :: r :: rs

/-- The blocks of equal neighbours in a list whose elements are the types of the ids from a first
one on. -/
def ofNames (first : Int) : List String → List TypeRange
  | [] => []
  | name :: names => prepend name first (ofNames (first + 1) names)

end TypeRange

/-! ### Subgraphs -/

/-- How a subgraph is extracted. -/
structure ExtractOptions where
  /-- The property that weighs an edge; the type column weighs by the numeral of the type. -/
  weightProperty : Option String := none
  defaultWeight : Binary64 := .ofInt 1
  /-- Whether two edges between the same pair are refused. -/
  checkMultiEdges : Bool := false
  /-- Whether vertices are numbered within the subgraph. -/
  renumber : Bool := true
  /-- Whether the ids of the edges are kept. -/
  addEdgeData : Bool := false
  deriving DecidableEq

/-- Reads options; every one may be left out. -/
def ExtractOptions.decode? : Nat → Node → Option ExtractOptions
  | 0, _ => none
  | levels + 1, n => do
    let names := ["edge_weight_property", "default_edge_weight", "check_multi_edges",
      "renumber_graph", "add_edge_data"]
    let o : ExtractOptions := {}
    match ← n.fields? names (levels + 1) with
    | [w, d, c, r, a] =>
      pure
        { weightProperty := ← Node.defaulting o.weightProperty (Node.optional? Node.string?) w
          defaultWeight := ← Node.defaulting o.defaultWeight Node.binary? d
          checkMultiEdges := ← Node.defaulting o.checkMultiEdges Node.bool? c
          renumber := ← Node.defaulting o.renumber Node.bool? r
          addEdgeData := ← Node.defaulting o.addEdgeData Node.bool? a }
    | _ => none

instance : Codec ExtractOptions where
  encode o :=
    .object [("add_edge_data", .bool o.addEdgeData), ("check_multi_edges", .bool o.checkMultiEdges),
      ("default_edge_weight", .number (.float o.defaultWeight)),
      ("edge_weight_property", .ofOption .string o.weightProperty),
      ("renumber_graph", .bool o.renumber)]
  decode? := ExtractOptions.decode?

/-- A weighted list of edges. -/
structure Subgraph where
  sources : List Int
  destinations : List Int
  weights : List Binary64
  /-- The vertex id of each local one; empty when vertices keep their ids. -/
  vertexIds : List Int
  edgeIds : Option (List Int)
  deriving DecidableEq

end TypedGraph
