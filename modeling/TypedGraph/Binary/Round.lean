import TypedGraph.Binary.Format

/-!
# Rounding to a binary format

Every conversion rounds one exact ratio, once, to the nearest value of the format; a ratio half way
between two values goes to the one with the even significand, and a ratio past the largest value
goes to infinity. `magnitudeOfRatio` finds the number of the nearest magnitude in exact integer
arithmetic; the other operations say which ratio they round.
-/

namespace TypedGraph.Binary

/-! ### Nearest integer and nearest magnitude -/

/-- The integer nearest to a ratio, a half going to the even one. -/
def nearest (num den : Nat) : Nat :=
  let q := num / den
  let r := num % den
  if 2 * r < den then q else if den < 2 * r then q + 1 else if q % 2 = 0 then q else q + 1

@[simp] theorem nearest_one (num : Nat) : nearest num 1 = num := by
  simp [nearest, Nat.mod_one]

/-- The exponent of the last place that a positive ratio gets in a format: the ratio has as many
binary digits above it as the format has precision, if the format's range allows it. -/
def lastPlace (f : Format) (num den : Nat) : Int :=
  let top : Int := num.log2 - den.log2
  let below := num <<< (-top).toNat < den <<< top.toNat
  max f.minExponent (top - f.precision + if below then 0 else 1)

/-- The number of the magnitude nearest to a ratio. -/
def magnitudeOfRatio (f : Format) (num den : Nat) : Nat :=
  if num = 0 then 0
  else
    let e := lastPlace f num den
    (e - f.minExponent).toNat <<< f.fractionBits
      + nearest (num <<< (-e).toNat) (den <<< e.toNat)

/-- The exact ratio that a numbered magnitude stands for. -/
def ratio (f : Format) (magnitude : Nat) : Nat × Nat :=
  (significand f magnitude <<< (exponent f magnitude).toNat,
    1 <<< (-exponent f magnitude).toNat)

namespace Value

variable {f g : Format}

def ofRatio (negative : Bool) (num den : Nat) : Value f :=
  ofMagnitude negative (magnitudeOfRatio f num den)

theorem ofMagnitude_ne_nan (negative : Bool) (magnitude : Nat) :
    (ofMagnitude negative magnitude : Value f) ≠ .nan := by
  unfold ofMagnitude
  split <;> simp

/-! ### Integers and the other format -/

def ofInt (n : Int) : Value f := ofRatio (n < 0) n.natAbs 1

theorem ofInt_ne_nan (n : Int) : (ofInt n : Value f) ≠ .nan := ofMagnitude_ne_nan _ _

/-- The value of another format nearest to a value. -/
def convert : Value f → Value g
  | .nan => .nan
  | .infinity negative => .infinity negative
  | .finite negative magnitude =>
    ofRatio negative (ratio f magnitude).1 (ratio f magnitude).2

/-- The integer part of a finite value. -/
def truncate? : Value f → Option Int
  | .finite negative magnitude =>
    let n : Int := (ratio f magnitude).1 / (ratio f magnitude).2
    some (if negative then -n else n)
  | _ => none

/-- The integer part held between two bounds; what is not a number counts as zero. -/
def clamp (lowest highest : Int) : Value f → Int
  | .nan => 0
  | .infinity negative => if negative then lowest else highest
  | x@(.finite _ _) => max lowest (min highest (x.truncate?.getD 0))

end Value

end TypedGraph.Binary
