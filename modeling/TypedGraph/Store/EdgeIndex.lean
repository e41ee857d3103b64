import TypedGraph.Store.Basic

/-!
# Edge indices

The ends of the edges of one type as two tensors, in the order in which the source hands out edges.
A store with a single edge type asks for all edges.
-/

namespace TypedGraph

/-- The ends of some edges. -/
structure EdgeIndex where
  source : Tensor
  destination : Tensor
  layout : Layout
  sorted : Bool
  deriving DecidableEq

namespace Store

variable (s : Store)

/-- The types by which the edges of one type are fetched. -/
def edgeFilter (edge : String) : Except StoreError (Option (List String)) :=
  match s.edges.single? with
  | some (only, _) => if only = edge then .ok none else .error (.lookup (.absentEdgeType edge))
  | none => (fun _ => some [edge]) <$> s.edges.entry edge

/-- A tensor of ids in the store's element type and on its device. -/
def placeIds (t : Tensor) : Except TensorError Tensor :=
  (·.on s.device) <$> t.cast s.config.vertexDType

/-- The ends of the edges of one type. -/
def fetchEnds (edge : String) : Action (Tensor × Tensor) := do
  let types ← .ofExcept (s.edgeFilter edge)
  let names := s.source.columns
  let f ← .ofFetch s.source.fetchEdges { types, columns := some [names.source, names.destination] }
  let (c, f) ← .ofGraph (f.takeColumn names.source)
  let source ← .ofTensor (Tensor.ofColumn c)
  let (c, _) ← .ofGraph (f.takeColumn names.destination)
  let destination ← .ofTensor (Tensor.ofColumn c)
  pure (← .ofTensor (s.placeIds source), ← .ofTensor (s.placeIds destination))

/-- The edge index that a descriptor asks for. -/
def edgeIndex (d : EdgeDescriptor) : Action EdgeIndex := do
  if d.layout ≠ .coo then throw (.unsupportedLayout d.layout)
  let (source, destination) ← s.fetchEnds d.key.edge
  if source.rows ≠ destination.rows then
    throw (.shapeMismatch (.edges d.key source.rows destination.rows))
  pure ⟨source, destination, d.layout, d.sorted⟩

/-- A store takes no edges. -/
def putEdgeIndex (_ : EdgeIndex) (d : EdgeDescriptor) : Except StoreError Unit :=
  .error (.notImplemented (.addEdges d.key))

end Store

end TypedGraph
