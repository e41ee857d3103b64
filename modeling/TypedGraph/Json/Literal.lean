import TypedGraph.Json.Value
import TypedGraph.Decimal.Digits

/-!
# JSON number literals

The parts of a number literal and the number they stand for. An integer that fits is kept exactly.
Any other number is a binary value computed in two steps, each rounded: the leading digits that fit
64 bits, and then one product or quotient with a power of ten. A value past the largest finite one
has no number.
-/

namespace TypedGraph.Json

open Binary Decimal

/-- A number literal: its sign, its digits before and after the point, and its exponent if it has
one. -/
structure Literal where
  negative : Bool
  whole : List Nat
  fraction : List Nat
  exponent : Option Int

namespace Literal

/-! ### Leading digits -/

/-- Appends digits to a number while it fits 64 bits; the second part counts the digits left. -/
def absorb (n : Nat) : List Nat → Nat × Nat
  | [] => (n, 0)
  | d :: ds =>
    if 10 * n + d < 0x10000000000000000 then absorb (10 * n + d) ds else (n, ds.length + 1)

/-! ### Powers of ten -/

/-- The largest exponent of a power of ten that is a finite value. -/
def maxPower : Nat := 308

/-- The magnitude nearest to a power of ten. -/
def powerMagnitude (e : Nat) : Nat := magnitudeOfRatio binary64 (tenTo e) 1

/-- The magnitude nearest to the product of two. -/
def product (a b : Nat) : Nat :=
  let (n, d) := ratio binary64 a
  let (n', d') := ratio binary64 b
  magnitudeOfRatio binary64 (n * n') (d * d')

/-- The magnitude nearest to the quotient of two. -/
def quotient (a b : Nat) : Nat :=
  let (n, d) := ratio binary64 a
  let (n', d') := ratio binary64 b
  magnitudeOfRatio binary64 (n * d') (d * n')

/-- A magnitude times ten to a power that is not negative, unless the product is too large. -/
def scaleUp? (magnitude e : Nat) : Option Nat :=
  if magnitude = 0 then some 0
  else if maxPower < e then none
  else
    let m := product magnitude (powerMagnitude e)
    if m < binary64.finiteCount then some m else none

/-- A magnitude divided by a power of ten, by the largest finite power first. -/
def scaleDown (magnitude e : Nat) : Nat :=
  if magnitude = 0 then 0
  else if maxPower < e then
    scaleDown (quotient magnitude (powerMagnitude maxPower)) (e - maxPower)
  else quotient magnitude (powerMagnitude e)
termination_by e
decreasing_by
  rename_i h
  simp only [maxPower] at h ⊢
  omega

/-! ### The number of a literal -/

/-- The magnitude of an integer times a power of ten. -/
def magnitude? (n : Nat) (e : Int) : Option Nat :=
  let m := magnitudeOfRatio binary64 n 1
  if 0 ≤ e then scaleUp? m e.toNat else some (scaleDown m (-e).toNat)

/-- The number that a literal stands for; a negative zero is a binary value. -/
def number? (l : Literal) : Option Number :=
  let (n, left) := absorb 0 l.whole
  let float (n : Nat) (e : Int) :=
    (magnitude? n e).map fun m => Number.float (.ofMagnitude l.negative m)
  if l.fraction.isEmpty && l.exponent.isNone then
    if left ≠ 0 then float n left
    else if !l.negative then some (.int n)
    else if n = 0 || 0x8000000000000000 < n then float n 0
    else some (.int (-n))
  else
    let (n, unused) := absorb n l.fraction
    float n (left - (l.fraction.length - unused) + l.exponent.getD 0)

end Literal

end TypedGraph.Json
