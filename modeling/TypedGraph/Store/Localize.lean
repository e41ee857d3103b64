import TypedGraph.Sample
import TypedGraph.Store.EdgeIndex

/-!
# Batch-local ids

The vertices of a batch are grouped by type, and the edges of a sample are then told by the
positions of their ends within the groups, edge type by edge type and in the order of the sample. A
store with a single edge type does not read the numerals of a sample.
-/

namespace TypedGraph.Store

variable (s : Store)

/-! ### Grouping vertices -/

/-- The block of the offset table that a vertex falls in, looked up among the ends of the blocks. -/
def blockOf (id : Int) : Nat := Search.partitionPoint (· ≤ id) s.offsets.ends

/-- Adds a run of vertices under the name of the block that its first vertex falls in. -/
def insertRun (b : BatchIndex) (run : List Int) : Except StoreError BatchIndex :=
  match s.offsets.names[s.blockOf (run.headD 0)]? with
  | some name => .ok (b.insert name run)
  | none => .error (.lookup (.idOutside (run.headD 0) none))

/-- The vertices of an ascending list by type, split where the block of neighbours changes. -/
def groupRuns (ids : List Int) : Except StoreError BatchIndex :=
  (ids.splitBy fun a b => s.blockOf a == s.blockOf b).foldlM s.insertRun {}

/-- The vertices of a batch, by type. A table with a single type is not searched. -/
def groupNodes (ids : List Int) : Except StoreError BatchIndex :=
  let ids := Ascending.ofList ids
  match ids.head?, ids.getLast? with
  | some lowest, some highest =>
    if lowest < 0 then .error (.lookup (.idOutside lowest (some s.offsets.total)))
    else if s.offsets.total ≤ highest then
      .error (.lookup (.idOutside highest (some s.offsets.total)))
    else match s.offsets.names with
      | [name] => .ok (BatchIndex.insert {} name ids)
      | _ => s.groupRuns ids
  | _, _ => .ok {}

/-! ### Grouping edges -/

/-- Whether the lists of a sample fit together. -/
def alignedFor (sample : Sample) : Bool :=
  match s.edges.single? with
  | some _ => sample.sources.length = sample.destinations.length
  | none => sample.isAligned

/-- Adds a row to the group of its edge type. -/
def insertRow (names : List (Int × String)) (groups : SortedMap String (List Nat))
    (row : Int × Nat) : Except StoreError (SortedMap String (List Nat)) :=
  match names.lookup row.1 with
  | some name => .ok (groups.alter name fun rows => rows.getD [] ++ [row.2])
  | none => .error (.internal (.undecoded row.1))

/-- The rows of a sample by the edge types that its numerals decode to. -/
def rowsByNumeral (g : Graph) (sample : Sample) : Except StoreError (List (String × List Nat)) := do
  let numerals := Ascending.ofList sample.numerals
  let names ← (s.source.edgeTypesOfNumerals g numerals).mapError StoreError.graph
  let groups ← sample.numerals.zipIdx.foldlM (insertRow (numerals.zip names)) SortedMap.empty
  pure groups.entries

/-- The rows of a sample by edge type, each group in the order of the sample. -/
def rowsByType (g : Graph) (sample : Sample) : Except StoreError (List (String × List Nat)) :=
  match s.edges.single? with
  | some (only, _) => .ok [(only, List.range sample.length)]
  | none => s.rowsByNumeral g sample

/-! ### Positions -/

/-- The position of a vertex within a group, looked up as an insertion point. -/
def positionIn (type : String) (group : List Int) (id : Int) : Except StoreError Int :=
  match Search.position? group id with
  | some p => .ok p
  | none => .error (.consistency (.noVertex id type))

/-- The positions of vertices within the group of their type, as a tensor of ids. -/
def localize (batch : BatchIndex) (type : String) (ids : List Int) : Except StoreError Tensor := do
  let group ← match batch.get? type with
    | some group => pure group
    | none => throw (.consistency (.noGroup type))
  let positions ← ids.mapM (positionIn type group)
  (s.placeIds (Tensor.ofInts positions)).mapError .tensor

/-! ### Samples -/

/-- The batch-local ids of the ends of edges, by edge type. -/
structure LocalEdges where
  sources : SortedMap EdgeTriple Tensor := .empty
  destinations : SortedMap EdgeTriple Tensor := .empty
  deriving DecidableEq

/-- Adds the edges of one type. -/
def localizeType (sample : Sample) (batch : BatchIndex) (edges : LocalEdges)
    (group : String × List Nat) : Except StoreError LocalEdges := do
  let triple := (← s.edges.entry group.1).triple
  let sources ← s.localize batch triple.source (group.2.filterMap (sample.sources[·]?))
  let destinations ←
    s.localize batch triple.destination (group.2.filterMap (sample.destinations[·]?))
  pure ⟨edges.sources.insert triple sources, edges.destinations.insert triple destinations⟩

/-- The edges of a sample told by batch-local ids. -/
def renumberSample (g : Graph) (sample : Sample) (batch : BatchIndex) :
    Except StoreError LocalEdges := do
  if !s.alignedFor sample then
    throw (.shapeMismatch (.sample sample.sources.length sample.destinations.length
      sample.numerals.length))
  (← s.rowsByType g sample).foldlM (s.localizeType sample batch) {}

end TypedGraph.Store
