import TypedGraph.Store.Action

/-!
# Edge catalogs

Every edge type with the vertex types of its ends and the number of its edges. The ends are looked
up in the graph, and an edge type whose edges leave or enter vertices of two types has no entry: the
catalog is not built.
-/

namespace TypedGraph

/-- An edge type: its triple and how many edges it has. -/
structure EdgeEntry where
  triple : EdgeTriple
  count : Nat
  deriving DecidableEq

def EdgeEntry.descriptor (e : EdgeEntry) : EdgeDescriptor :=
  { key := .triple e.triple, size := some (e.count, e.count) }

/-- The edge types of a graph by name. -/
structure EdgeCatalog where
  entries : SortedMap String EdgeEntry := .empty
  deriving DecidableEq

namespace EdgeCatalog

instance : Inhabited EdgeCatalog := ⟨{}⟩

/-! ### Looking up -/

variable (c : EdgeCatalog)

/-- The names of the edge types, ascending. -/
def names : List String := c.entries.keys

def length : Nat := c.entries.size

def contains (edge : String) : Bool := c.entries.contains edge

/-- The entry of an edge type. -/
def entry (edge : String) : Except StoreError EdgeEntry :=
  match c.entries.get? edge with
  | some e => .ok e
  | none => .error (.lookup (.unknownEdgeType edge))

/-- The only edge type, if there is exactly one. -/
def single? : Option (String × EdgeEntry) :=
  match c.entries.entries with
  | [e] => some e
  | _ => none

/-- The descriptors of all edge types. -/
def descriptors : List EdgeDescriptor := c.entries.values.map (·.descriptor)

/-! ### Building -/

/-- The distinct integers of a column. -/
def distinctIds (f : Frame) (column : String) : Action (List Int) := do
  match (← .ofGraph (f.column column)).ints? with
  | some ids => pure (Ascending.ofList ids)
  | none => throw (.construction (.noIds column))

/-- The one type in a list of types in ascending order. -/
def oneType (edge : String) (side : EdgeEnd) : List String → Except ConstructionError String
  | [t] => .ok t
  | [] => .error (.untypedEnds edge side)
  | s :: t :: _ => .error (.mixedEnds edge side s t)

/-- The one type of the vertices at an end of the edges of a type. -/
def endType (s : Source) (edge : String) (side : EdgeEnd) (ids : List Int) : Action String := do
  let column := s.columns.type
  let f ← .ofFetch s.fetchVertices { ids := some ids, columns := some [column] }
  match (← .ofGraph (f.column column)).texts? with
  | some types =>
    .ofExcept ((oneType edge side (Ascending.ofList types)).mapError .construction)
  | none => throw (.construction (.noTexts column))

/-- The entry of an edge type, from its edges and their ends. -/
def inspect (s : Source) (edge : String) : Action EdgeEntry := do
  let names := s.columns
  let f ← .ofFetch s.fetchEdges
    { types := some [edge], columns := some [names.source, names.destination] }
  if f.rows = 0 then throw (.construction (.noEdges edge))
  let sources ← distinctIds f names.source
  let destinations ← distinctIds f names.destination
  let sourceType ← endType s edge .source sources
  let destinationType ← endType s edge .destination destinations
  pure ⟨⟨sourceType, edge, destinationType⟩, f.rows⟩

/-- Adds the entries of some edge types. -/
def addTypes (s : Source) : List (Option String) → EdgeCatalog → Action EdgeCatalog
  | [], c => pure c
  | none :: _, _ => throw (.construction .untypedEdges)
  | some edge :: types, c => do
    let e ← inspect s edge
    addTypes s types ⟨c.entries.insert edge e⟩

/-- The catalog of a graph. -/
def build (s : Source) : Action EdgeCatalog := do
  addTypes s (s.edgeTypes (← get).graph) {}

end EdgeCatalog

end TypedGraph
