import TypedGraph.Search
import TypedGraph.Sorting
import TypedGraph.Store.Error
import TypedGraph.Tensor.Build

/-!
# Offset tables

The vertex ids from zero on, cut into one block per vertex type, in the order of the blocks. A table
is made of ranges that tile the ids, or of counts, for which the types are put in ascending order.
-/

namespace TypedGraph

/-- The blocks of the vertex types, in id order. -/
structure Offsets where
  ranges : List TypeRange := []
  deriving DecidableEq

namespace Offsets

/-! ### From ranges -/

/-- Whether one range comes before another: by its start, and by its end for equal starts. -/
def before (a b : TypeRange) : Bool :=
  a.start < b.start || (a.start = b.start && a.stop ≤ b.stop)

/-- Checks that ranges follow one another from a first id on, each under a name of its own. -/
def check (expected : Int) (seen : List String) : List TypeRange → Except ConstructionError Unit
  | [] => .ok ()
  | r :: rs =>
    if r.stop < r.start then .error (.invertedRange r)
    else if r.start ≠ expected then .error (.misplacedRange r expected)
    else if seen.contains r.name then .error (.repeatedRange r.name)
    else check r.stop (r.name :: seen) rs

/-- The table of ranges that tile the ids from zero on, in any order. -/
def ofRanges (ranges : List TypeRange) : Except StoreError Offsets :=
  let sorted := Sorting.sort before ranges
  match check 0 [] sorted with
  | .ok () => .ok ⟨sorted⟩
  | .error e => .error (.construction e)

/-! ### From counts -/

/-- The signed 64-bit word of an integer. -/
def word64 (n : Int) : Int := n.bmod 0x10000000000000000

/-- The blocks of some counts, one after the other. Counts and sums are words of 64 bits. -/
def blocks (start : Int) : List (String × Nat) → List TypeRange
  | [] => []
  | (name, count) :: cs =>
    let stop := word64 (start + word64 count)
    ⟨name, start, stop⟩ :: blocks stop cs

/-- The table of some counts, types in ascending order. -/
def ofCounts (counts : List (String × Nat)) : Offsets :=
  ⟨blocks 0 (Sorting.sort (fun a b => a.1 ≤ b.1) counts)⟩

/-- Whether a word holds each sum of counts from a first id on. -/
def sumsFit (start : Int) : List (String × Nat) → Bool
  | [] => true
  | (_, count) :: cs =>
    let stop := start + word64 count
    word64 stop = stop && sumsFit stop cs

/-- The table of some counts, if no sum of them overflows. The vertices of a graph, which memory
holds, are too few for that. -/
def ofCounts? (counts : List (String × Nat)) : Option Offsets :=
  if sumsFit 0 (Sorting.sort (fun a b => a.1 ≤ b.1) counts) then some (ofCounts counts) else none

/-! ### Looking up -/

variable (t : Offsets)

/-- The type names, in id order. -/
def names : List String := t.ranges.map (·.name)

def ends : List Int := t.ranges.map (·.stop)

def length : Nat := t.ranges.length

def total : Int := t.ends.getLast?.getD 0

/-- The block that holds an id, searched by the ends of the blocks: the first that ends after it. -/
def indexOf (id : Int) : Except StoreError Nat :=
  if id < 0 then .error (.lookup (.idOutside id none))
  else
    let i := Search.partitionPoint (· ≤ id) t.ends
    if i < t.length then .ok i else .error (.lookup (.idOutside id (some t.total)))

def typeOf (id : Int) : Except StoreError String := do
  let i ← t.indexOf id
  match t.ranges[i]? with
  | some r => pure r.name
  | none => throw (.lookup (.idOutside id (some t.total)))

/-- The block of a type. -/
def rangeOf (name : String) : Except StoreError TypeRange :=
  match t.ranges.find? (·.name = name) with
  | some r => .ok r
  | none => .error (.lookup (.unknownVertexType name))

/-- The ids of a type, ascending. -/
def idsOf (name : String) : Except StoreError (List Int) :=
  (fun r => intRange r.start r.stop) <$> t.rangeOf name

end Offsets

end TypedGraph
