/-!
# Searching ascending lists

Insertion points in a list of integers in ascending order: how many elements at its head are below
the sought one, or not above it. They can be counted from the head (`lowerBound`) or found by
halving the list (`partitionPoint`), and halving also finds an element itself (`bisect`).
-/

namespace TypedGraph.Search

/-- The side of equal elements on which an insertion point lies. -/
inductive Side where
  | left
  | right
  deriving DecidableEq

/-! ### Counting -/

/-- The first position whose element is at least the sought one. -/
def lowerBound (xs : List Int) (x : Int) : Nat := (xs.takeWhile (· < x)).length

/-! ### Halving -/

/-- The position that halving the `size` positions from `base` settles on: the upper half is kept if
its first position is `low`, and otherwise the lower half, until one position is left. -/
def settle (low : Nat → Bool) (base size : Nat) : Nat :=
  if size ≤ 1 then base
  else
    let middle := base + size / 2
    settle low (if low middle then middle else base) (size - size / 2)
termination_by size

/-- Searches by halving, given how an element compares with the sought one: the position of an equal
element, or else the insertion point. There is no early exit at an equal element. -/
def bisect {α : Type} (xs : List α) (compare : α → Ordering) : Except Nat Nat :=
  let p := settle (fun i => xs[i]?.any fun x => compare x != .gt) 0 xs.length
  match xs[p]?.map compare with
  | some .eq => .ok p
  | some .lt => .error (p + 1)
  | _ => .error p

/-- The first position whose element is not `low`, if the elements that are come first. -/
def partitionPoint {α : Type} (low : α → Bool) (xs : List α) : Nat :=
  match bisect xs fun x => if low x then .lt else .gt with
  | .ok p | .error p => p

/-- The position of an element, searched by halving. -/
def find? (xs : List Int) (x : Int) : Option Nat := (bisect xs (compare · x)).toOption

/-! ### Insertion points -/

/-- The insertion points of some elements. -/
def insertionPoints (side : Side) (xs sought : List Int) : List Nat :=
  match side with
  | .left => sought.map fun x => partitionPoint (· < x) xs
  | .right => sought.map fun x => partitionPoint (· ≤ x) xs

/-- The position of an element that an ascending list holds: its insertion point, if that is where
the element is. -/
def position? (xs : List Int) (x : Int) : Option Nat :=
  let p := partitionPoint (· < x) xs
  if xs[p]? = some x then some p else none

end TypedGraph.Search
