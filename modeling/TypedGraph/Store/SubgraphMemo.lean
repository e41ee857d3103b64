import TypedGraph.Ascending

/-!
# Memoized subgraphs

What was extracted for a set of names is kept and handed out again for every list that names the
same set. A failed extraction leaves nothing behind.
-/

namespace TypedGraph

/-- A set of names, as the ascending list of them. -/
structure NameSet where
  names : List String
  deriving DecidableEq

/-- The set of the names in a list. -/
def NameSet.ofList (names : List String) : NameSet := ⟨Ascending.ofList names⟩

/-- What was extracted so far, by the names it was extracted for. -/
structure SubgraphMemo (α : Type) where
  entries : List (NameSet × α) := []

namespace SubgraphMemo

variable {α ε : Type}

instance : Inhabited (SubgraphMemo α) := ⟨{}⟩

def get? (m : SubgraphMemo α) (key : NameSet) : Option α := m.entries.lookup key

def contains (m : SubgraphMemo α) (key : NameSet) : Bool := (m.get? key).isSome

def length (m : SubgraphMemo α) : Nat := m.entries.length

/-- What is kept for a set of names, extracted and kept first if need be. -/
def getOrExtract (m : SubgraphMemo α) (key : NameSet) (extract : List String → Except ε α) :
    Except ε α × SubgraphMemo α :=
  match m.get? key with
  | some a => (.ok a, m)
  | none =>
    match extract key.names with
    | .ok a => (.ok a, ⟨m.entries ++ [(key, a)]⟩)
    | .error e => (.error e, m)

end SubgraphMemo

end TypedGraph
