import TypedGraph.Store.Basic

/-!
# Feature tensors

The properties of vertices as a tensor with one row per requested vertex, in the order of the
request. The rows are fetched in the order of storage and then put in place. A store with a single
vertex type asks for vertices of any type, and the feature tensor asks for every property.
-/

namespace TypedGraph.Store

variable (s : Store)

/-! ### The parts of a request -/

/-- The vertices of a request: those listed, or else all of the group, or all there are. -/
def requestedIds (d : TensorDescriptor) : Except StoreError (List Int) :=
  match d.index.flat, d.group.flat with
  | some ids, _ => .ok ids
  | none, some group => s.offsets.idsOf group
  | none, none => .ok (intRange 0 s.offsets.total)

/-- The types by which the vertices of a request are fetched. -/
def requestedTypes (d : TensorDescriptor) : Option (List String) :=
  if s.offsets.length = 1 then none else d.group.flat.map fun g => [g]

/-- The properties that are fetched for a request. -/
def requestedColumns (d : TensorDescriptor) (properties : List String) : Option (List String) :=
  if d.name.flat = some s.config.featureName then none else some properties

/-- The row of a vertex among stored ids; the last if it is there more than once. -/
def rowOf (stored : List Int) (group : Option String) (id : Int) : Except StoreError Nat :=
  match stored.zipIdx.reverse.find? (·.1 = id) with
  | some p => .ok p.2
  | none => .error (.lookup (.missingRow id group))

/-! ### Answers -/

/-- The tensor of a request in which no setting is open. -/
def fetchTensor (d : TensorDescriptor) : Action Tensor := do
  let properties ← match d.properties.flat with
    | some ps => pure ps
    | none => throw (.value (.noProperties d))
  let ids ← .ofExcept (s.requestedIds d)
  let f ← .ofFetch s.source.fetchVertices
    { ids := some ids
      types := s.requestedTypes d
      columns := s.requestedColumns d properties }
  let stored ← match (← .ofGraph (f.column s.source.columns.vertex)).ints? with
    | some stored => pure stored
    | none => throw (.internal (.noIds s.source.columns.vertex))
  let rows ← .ofExcept (ids.mapM (rowOf stored d.group.flat))
  let f ← .ofGraph (f.select properties)
  let f ← .ofGraph (f.take rows)
  let t ← .ofTensor (Tensor.ofFrame f)
  let t ← match d.dtype.flat with
    | some dtype => .ofTensor (t.cast dtype)
    | none => pure t
  pure (t.on s.device)

/-- The tensor that a request asks for, once what it leaves open is inferred. -/
def tensor (d : TensorDescriptor) : Action Tensor := do
  let d ← .ofExcept (s.tensors.infer d)
  if !d.isComplete then throw (.value (.incomplete d))
  s.fetchTensor d

/-- The tensors that some requests ask for. Nothing is fetched before every request is known to be
complete. -/
def tensorBatch (ds : List TensorDescriptor) : Action (List Tensor) := do
  let ds ← .ofExcept (ds.mapM s.tensors.infer)
  let missing := ds.filter fun d => !d.isComplete
  if !missing.isEmpty then throw (.value (.someIncomplete missing))
  ds.mapM s.fetchTensor

/-- The shape of the tensor that a request asks for; rows left open are all of the group. -/
def tensorShape (d : TensorDescriptor) : Action (List Nat) := do
  let t ← s.tensor { d with index := d.index.orElse (.value none) }
  pure t.shape

/-- A store takes no tensors. -/
def putTensor (_ : Tensor) (d : TensorDescriptor) : Except StoreError Unit :=
  .error (.notImplemented (.addTensor d))

/-- A store gives up no tensors. -/
def removeTensor (d : TensorDescriptor) : Except StoreError Unit :=
  .error (.notImplemented (.removeTensor d))

end TypedGraph.Store
