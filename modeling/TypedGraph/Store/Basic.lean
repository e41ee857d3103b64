import TypedGraph.Config
import TypedGraph.Store.EdgeCatalog
import TypedGraph.Store.Offsets
import TypedGraph.Store.SubgraphMemo
import TypedGraph.Store.TensorCatalog
import TypedGraph.Tensor.Build

/-!
# Stores

A store answers queries about a graph by vertex and edge types: it holds the block of ids of every
vertex type, an entry for every edge type, and the tensors that can be asked for. Building one may
renumber the graph; afterwards only registered tensors and memoized subgraphs are added.
-/

namespace TypedGraph

/-- A store over the graph of its host. -/
structure Store where
  source : Source
  device : Device
  config : Config
  offsets : Offsets
  edges : EdgeCatalog
  tensors : TensorCatalog
  subgraphs : SubgraphMemo Subgraph := {}
  /-- The property that holds the vertex ids from before renumbering. -/
  oldVertexColumn : Option String
  /-- The property that holds the edge ids from before renumbering. -/
  oldEdgeColumn : Option String

namespace Store

/-! ### Building -/

/-- The column under which the ids of another column are kept. -/
def oldColumn (column : String) : String := column ++ "_old"

/-- The columns that keep previous vertex and edge ids under a policy. -/
def oldColumns (s : Source) : IdPolicy → Option String × Option String
  | .auto => (some (oldColumn s.columns.vertex), some (oldColumn s.columns.edgeId))
  | .renumber | .keep => (none, none)

/-- The offset table of a graph whose ids are renumbered. -/
def renumber (s : Source) (old : Option String × Option String) : Action Offsets := do
  let ranges ← .change fun g => s.renumberVertices g old.1
  let _ ← .change fun g => s.renumberEdges g old.2
  .ofExcept (Offsets.ofRanges ranges)

/-- The number of vertices of every type. -/
def countTypes (s : Source) (g : Graph) : Except GraphError (List (String × Nat)) :=
  (s.vertexTypes g).mapM fun t => do pure (t, ← s.vertexCount g (some t))

/-- The offset table of a graph under a policy. -/
def makeOffsets (s : Source) (policy : IdPolicy) : Action Offsets :=
  match policy with
  | .auto | .renumber => renumber s (oldColumns s policy)
  | .keep => do pure (Offsets.ofCounts (← .ofGraph (countTypes s (← get).graph)))

/-- What a configuration has to meet before a store is built. -/
def precheck (s : Source) (served : Device) (config : Config) (g : Graph) :
    Except ConstructionError Unit :=
  if (s.edgeTypes g).any Option.isNone then .error .untypedEdges
  else if config.device ≠ served then .error (.unservedDevice config.device served)
  else if !config.vertexDType.isInteger then .error (.floatIds config.vertexDType)
  else .ok ()

/-- Builds a store whose tensors live on the device that is served. The default tensors are
registered before previous ids are kept as properties. -/
def build (s : Source) (served : Device) (config : Config) : Action Store := do
  let g := (← get).graph
  .ofExcept ((precheck s served config g).mapError .construction)
  let tensors := TensorCatalog.defaults (s.vertexTypes g) (s.vertexPropertyNames g)
    config.featureName config.labelName config.propertyDType config.vertexDType
  let offsets ← makeOffsets s config.policy
  let edges ← EdgeCatalog.build s
  let (oldVertexColumn, oldEdgeColumn) := oldColumns s config.policy
  pure
    { source := s, device := served, config, offsets, edges, tensors, oldVertexColumn,
      oldEdgeColumn }

variable (s : Store)

/-! ### Vertices and tensors -/

/-- The ids of the vertices of some types, type after type. -/
def vertexIndex (types : List String) : Except StoreError Tensor := do
  let arange (start stop : Int) := (Tensor.arange start stop s.config.vertexDType).mapError .tensor
  let parts ← types.mapM fun t => do
    let r ← s.offsets.rangeOf t
    arange r.start r.stop
  let parts ← if parts.isEmpty then List.singleton <$> arange 0 0 else pure parts
  let index ← (Tensor.join parts).mapError StoreError.tensor
  pure (index.on s.device)

/-- The store with one more registered tensor. -/
def registerTensor (group : String) (r : Registration) : Store :=
  { s with tensors := s.tensors.register group r }

/-! ### Subgraphs -/

/-- How the subgraphs of a store are extracted: weighed by the type of an edge, vertices numbered.
-/
def subgraphOptions : ExtractOptions := { weightProperty := some s.source.columns.type }

/-- What a list of edge types has to meet before a subgraph is extracted. -/
def checkEdgeTypes (types : List String) : Except StoreError Unit :=
  if types.isEmpty then .error (.value .noEdgeTypes)
  else types.forM fun t => discard (s.edges.entry t)

/-- The subgraph of the edges of some types, and the store that remembers it. -/
def subgraph (g : Graph) (types : List String) : Except StoreError Subgraph × Store :=
  match s.checkEdgeTypes types with
  | .error e => (.error e, s)
  | .ok () =>
    let (outcome, subgraphs) := s.subgraphs.getOrExtract (.ofList types) fun names =>
      (s.source.extract g (s.source.selectEdges g names) s.subgraphOptions).mapError .graph
    (outcome, { s with subgraphs })

end Store

end TypedGraph
