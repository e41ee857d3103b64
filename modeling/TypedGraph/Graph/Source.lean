import TypedGraph.Delayed
import TypedGraph.Graph.Fetch
import TypedGraph.Graph.Renumber
import TypedGraph.Graph.Subgraph

/-!
# Sources of a graph

How a store reaches a graph: the names of the fixed columns, and the operations on the tables. A
plain source fetches at once. A partitioned source delays every fetch until it is forced, runs it on
the tables of that moment, counts it, and hands the rows out part by part, where the part of a row
is its id modulo the number of parts.
-/

namespace TypedGraph

/-- What a fetch runs against: the tables, and how many delayed frames have been forced. -/
structure Host where
  graph : Graph := {}
  forced : Nat := 0
  deriving DecidableEq

abbrev DelayedFrame := Delayed Host GraphError Frame

/-- The names of the fixed columns. -/
structure ColumnNames where
  vertex : String := Graph.vertexColumn
  edgeId : String := Graph.edgeIdColumn
  source : String := Graph.sourceColumn
  destination : String := Graph.destinationColumn
  type : String := Graph.typeColumn
  deriving DecidableEq

/-- The operations by which a store reaches a graph. -/
structure Source where
  columns : ColumnNames
  vertexTypes : Graph → List String
  edgeTypes : Graph → List (Option String)
  vertexPropertyNames : Graph → List String
  vertexCount : Graph → Option String → Except GraphError Nat
  fetchVertices : Graph → Query → Except GraphError DelayedFrame
  fetchEdges : Graph → Query → Except GraphError DelayedFrame
  renumberVertices : Graph → Option String → Except GraphError (List TypeRange × Graph)
  renumberEdges : Graph → Option String → Except GraphError (List TypeRange × Graph)
  edgeTypesOfNumerals : Graph → List Int → Except GraphError (List String)
  selectEdges : Graph → List String → List Int
  extract : Graph → List Int → ExtractOptions → Except GraphError Subgraph

namespace Source

/-! ### Fetching at once -/

/-- The source that works on the tables directly. -/
def plain : Source where
  columns := {}
  vertexTypes := Graph.vertexTypes
  edgeTypes := Graph.edgeTypes
  vertexPropertyNames := Graph.vertexPropertyNames
  vertexCount := Graph.vertexCount
  fetchVertices g q := .ready <$> g.fetchVertices q
  fetchEdges g q := .ready <$> g.fetchEdges q
  renumberVertices := Graph.renumberVertices
  renumberEdges g previous := .ok (g.renumberEdges previous)
  edgeTypesOfNumerals := Graph.edgeTypesOfNumerals
  selectEdges := Graph.selectEdges
  extract := Graph.extract

/-! ### Parts -/

/-- The positions of ids, part by part in ascending order, storage order within a part. -/
def partOrder (parts : Nat) (ids : List Int) : List Nat :=
  let placed : List (Int × Nat) := ids.zipIdx.map fun p => (p.1 % (parts : Int), p.2)
  (Ascending.ofList (placed.map (·.1))).flatMap fun part =>
    (placed.filter (·.1 = part)).map (·.2)

/-- The rows of a frame, part by part. A number of parts that is no positive signed 64-bit integer
leaves storage order. -/
def arrange (idColumn : String) (parts : Nat) (f : Frame) : Except GraphError Frame := do
  match (← f.column idColumn).ints? with
  | some ids => if parts < 0x8000000000000000 then f.take (partOrder parts ids) else pure f
  | none => throw (.notIntegers idColumn)

/-- A fetch that waits to be forced. -/
def delay (idColumn : String) (parts : Nat) (fetch : Graph → Except GraphError Frame) :
    DelayedFrame :=
  .pending fun host =>
    ((fetch host.graph).bind (arrange idColumn parts), { host with forced := host.forced + 1 })

/-- The source that spreads rows over parts, of which there is at least one. -/
def partitioned (parts : Nat) : Source :=
  { plain with
    fetchVertices := fun _ q => .ok (delay Graph.vertexColumn (max parts 1) (·.fetchVertices q))
    fetchEdges := fun _ q => .ok (delay Graph.edgeIdColumn (max parts 1) (·.fetchEdges q)) }

end Source

end TypedGraph
