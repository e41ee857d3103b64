/-!
# Delayed values

A value that is at hand or still to be computed from a state. Nothing runs before the value is
forced; forcing may fail, and it may change the state even then.
-/

namespace TypedGraph

universe u

/-- A value at hand, or a computation of one. -/
inductive Delayed (σ ε α : Type u) where
  | ready (value : α)
  | pending (compute : ExceptT ε (StateM σ) α)

namespace Delayed

variable {σ ε α β : Type u}

def isReady : Delayed σ ε α → Bool
  | ready _ => true
  | pending _ => false

/-- The value, computed if need be. -/
def force : Delayed σ ε α → ExceptT ε (StateM σ) α
  | ready a => pure a
  | pending compute => compute

/-- Applies a function: at once to a value at hand, after the computation to a pending one. -/
def map (f : α → β) : Delayed σ ε α → Delayed σ ε β
  | ready a => ready (f a)
  | pending compute => pending (f <$> compute)

def text (valueText : α → String) : Delayed σ ε α → String
  | ready a => "Deferred::Ready(" ++ valueText a ++ ")"
  | pending _ => "Deferred::Pending"

@[simp] theorem isReady_map (f : α → β) (d : Delayed σ ε α) : (d.map f).isReady = d.isReady := by
  cases d <;> rfl

@[simp] theorem force_ready (a : α) : (ready a : Delayed σ ε α).force = pure a := rfl

@[simp] theorem force_pending (c : ExceptT ε (StateM σ) α) : (pending c).force = c := rfl

@[simp] theorem force_map (f : α → β) (d : Delayed σ ε α) : (d.map f).force = f <$> d.force := by
  cases d with
  | ready a => rfl
  | pending compute => rfl

end Delayed

end TypedGraph
