import TypedGraph.Graph.Source
import TypedGraph.Store.Error

/-!
# Actions of a store

What a store does on its host: it may fail, and what it did to the host before stays done. Errors
of the graph and of tensors pass through under their own kinds.
-/

namespace TypedGraph

/-- Something that a store does on its host. -/
abbrev Action (α : Type) := ExceptT StoreError (StateM Host) α

namespace Action

variable {α : Type}

/-- The outcome of something that touches no host. -/
def ofExcept (x : Except StoreError α) : Action α := ExceptT.mk (pure x)

def ofGraph (x : Except GraphError α) : Action α := ofExcept (x.mapError .graph)

def ofTensor (x : Except TensorError α) : Action α := ofExcept (x.mapError .tensor)

/-- Asks for the rows of a query. -/
def startFetch (fetch : Graph → Query → Except GraphError DelayedFrame) (q : Query) :
    Action DelayedFrame := do
  ofGraph (fetch (← get).graph q)

/-- The outcome of a fetch, forced. -/
def ofFetch (fetch : Graph → Query → Except GraphError DelayedFrame) (q : Query) :
    Action Frame := do
  let frame ← startFetch fetch q
  ExceptT.adapt .graph frame.force

/-- Changes the tables by an operation that has a result. -/
def change (operation : Graph → Except GraphError (α × Graph)) : Action α := do
  let (a, g) ← ofGraph (operation (← get).graph)
  modify fun host => { host with graph := g }
  pure a

end Action

end TypedGraph
