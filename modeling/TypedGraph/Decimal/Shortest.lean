import TypedGraph.Binary.Round
import TypedGraph.Decimal.Digits

/-!
# Shortest decimals

A finite binary value is written with the fewest decimal digits that round back to it. The reals
that round to a value form an interval, its ends included exactly when the significand is even. For
one digit, two digits and so on, the two neighbours of the value on that decimal grid are tested
against the interval in exact integer arithmetic; the first grid with a neighbour inside gives the
digits, and of two neighbours inside the nearer one is taken.
-/

namespace TypedGraph.Decimal

open Binary

/-- Which of two equally near decimals is taken. -/
inductive Tie where
  | toEven
  | up
  deriving DecidableEq

/-- A decimal `d.ddd · 10 ^ exponent` by its digits. -/
structure Scientific where
  digits : List Nat
  exponent : Int
  deriving DecidableEq

/-! ### The interval of a value -/

/-- A value and the ends of its interval, as multiples of one unit `num / den`. -/
structure Rounded where
  value : Nat
  lower : Nat
  upper : Nat
  endsIncluded : Bool
  num : Nat
  den : Nat

/-- The reals that round to a numbered positive magnitude, in quarters of its last place. -/
def roundedTo (f : Format) (magnitude : Nat) : Rounded :=
  let m := significand f magnitude
  let q := exponent f magnitude
  let narrow := m = 1 <<< f.fractionBits ∧ f.minExponent < q
  { value := 4 * m
    lower := if narrow then 4 * m - 1 else 4 * m - 2
    upper := 4 * m + 2
    endsIncluded := m % 2 = 0
    num := 1 <<< (q - 2).toNat
    den := 1 <<< (2 - q).toNat }

/-! ### Decimal grids -/

/-- Whether `10 ^ e` is at most a ratio. -/
def powerAtMost (e : Int) (num den : Nat) : Bool :=
  tenTo e * den ≤ num * tenTo (-e)

/-- The exponent of the first decimal digit of a positive ratio. -/
def leadingExponent (num den : Nat) : Int :=
  let guess := (((num.log2 : Int) - den.log2 - 1) * 30103).fdiv 100000
  if powerAtMost (guess + 2) num den then guess + 2
  else if powerAtMost (guess + 1) num den then guess + 1
  else if powerAtMost guess num den then guess
  else guess - 1

namespace Rounded

/-- The multiple of `10 ^ k` next below the value. -/
def below (r : Rounded) (k : Int) : Nat :=
  (r.value * r.num * tenTo (-k)) / (r.den * tenTo k)

/-- Whether `c · 10 ^ k` rounds to the value. -/
def holds (r : Rounded) (k : Int) (c : Nat) : Bool :=
  let point := c * tenTo k * r.den
  let lower := r.lower * r.num * tenTo (-k)
  let upper := r.upper * r.num * tenTo (-k)
  if r.endsIncluded then lower ≤ point && point ≤ upper else lower < point && point < upper

/-- Of `c` and `c + 1` on the grid of `10 ^ k`, the one nearer to the value between them. -/
def nearer (r : Rounded) (tie : Tie) (k : Int) (c : Nat) : Nat :=
  let twice := 2 * (r.value * r.num * tenTo (-k))
  let middle := (2 * c + 1) * tenTo k * r.den
  if twice < middle then c
  else if middle < twice then c + 1
  else match tie with
    | .toEven => if c % 2 = 0 then c else c + 1
    | .up => c + 1

/-- The multiple of `10 ^ k` that stands for the value, if one rounds to it. -/
def onGrid? (r : Rounded) (tie : Tie) (k : Int) : Option Nat :=
  let c := r.below k
  match r.holds k c, r.holds k (c + 1) with
  | true, true => some (r.nearer tie k c)
  | true, false => some c
  | false, true => some (c + 1)
  | false, false => none

end Rounded

/-! ### Fewest digits -/

/-- A multiple of a power of ten by its digits, zeros at the end dropped. -/
def Scientific.ofMultiple (c : Nat) (k : Int) : Scientific :=
  let ds := Decimal.digits c
  { digits := (ds.reverse.dropWhile (· = 0)).reverse
    exponent := k + ds.length - 1 }

/-- How many digits are always enough for the values of the formats in use. -/
def enoughDigits : Nat := 17

/-- The decimal of fewest digits that rounds to a numbered positive magnitude. -/
def shortest (f : Format) (tie : Tie) (magnitude : Nat) : Scientific :=
  let r := roundedTo f magnitude
  let top := leadingExponent (r.value * r.num) r.den
  let grids := (List.range enoughDigits).map fun n : Nat => top - n
  match grids.findSome? fun k => (r.onGrid? tie k).map fun c => Scientific.ofMultiple c k with
  | some d => d
  | none => Scientific.ofMultiple (r.below (top - enoughDigits)) (top - enoughDigits)

end TypedGraph.Decimal
