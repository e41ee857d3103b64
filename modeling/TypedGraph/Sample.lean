import TypedGraph.Search
import TypedGraph.SortedMap
import TypedGraph.Sorting

/-!
# Samples and batch-local ids

A sample is a list of edges by their ends, with the numeral of each edge's type. A batch index
groups the vertices of a batch by type; the position of a vertex within its group is its id in the
batch.
-/

namespace TypedGraph

/-! ### Samples -/

/-- Sampled edges, as parallel lists. -/
structure Sample where
  sources : List Int
  destinations : List Int
  numerals : List Int
  deriving DecidableEq

namespace Sample

def length (s : Sample) : Nat := s.sources.length

/-- Whether the three lists are equally long. -/
def isAligned (s : Sample) : Bool :=
  s.sources.length = s.destinations.length && s.sources.length = s.numerals.length

/-- Every end of an edge, ascending and once. -/
def nodes (s : Sample) : List Int := Ascending.ofList (s.sources ++ s.destinations)

theorem mem_nodes {s : Sample} {v : Int} : v ∈ s.nodes ↔ v ∈ s.sources ∨ v ∈ s.destinations := by
  simp [nodes]

end Sample

/-! ### Batch indices -/

/-- The vertices of a batch by type, each group ascending. -/
structure BatchIndex where
  groups : SortedMap String (List Int) := .empty
  deriving DecidableEq

namespace BatchIndex

instance : Inhabited BatchIndex := ⟨{}⟩

variable (b : BatchIndex)

/-- The index with one more group, over a group of the same type. -/
def insert (type : String) (ids : List Int) : BatchIndex := ⟨b.groups.insert type ids⟩

def get? (type : String) : Option (List Int) := b.groups.get? type

/-- The types that have a group, ascending. -/
def types : List String := b.groups.keys

def vertexCount : Nat := b.groups.values.flatten.length

/-- The position of a vertex within the group of a type. -/
def localId? (type : String) (id : Int) : Option Nat := (b.get? type).bind (Search.find? · id)

/-- The vertex at a position within the group of a type. -/
def globalId? (type : String) (position : Nat) : Option Int := (b.get? type).bind (·[position]?)

/-- The vertices of all groups, ascending; a vertex in two groups comes twice. -/
def allIds : List Int := Sorting.sort (· ≤ ·) b.groups.values.flatten

end BatchIndex

end TypedGraph
