/-!
# Binary floating-point formats

The values of a binary interchange format: one value that is not a number, two infinities, and
finite values. The magnitudes of a format are numbered in ascending order, zero first, and a finite
value holds the number of its magnitude; the numbering is also how the format encodes it, so every
value has one encoding. `significand` and `exponent` decode a magnitude into `m · 2 ^ q`.
-/

namespace TypedGraph.Binary

/-! ### Formats -/

/-- The bits of a significand, the leading one included, and the bits of an encoded value. -/
structure Format where
  precision : Nat
  width : Nat
  deriving DecidableEq

def binary32 : Format := ⟨24, 32⟩

def binary64 : Format := ⟨53, 64⟩

namespace Format

variable (f : Format)

/-- The bits of the significand that are written down. -/
def fractionBits : Nat := f.precision - 1

/-- How many magnitudes are finite; the next number stands for infinity. -/
def finiteCount : Nat := 1 <<< (f.width - 1) - 1 <<< f.fractionBits

/-- The exponent of the last place of the smallest magnitudes. -/
def minExponent : Int := 3 - (1 <<< (f.width - f.precision - 1) : Nat) - f.precision

end Format

/-! ### Values -/

/-- A value of a format. -/
inductive Value (f : Format) where
  | nan
  | infinity (negative : Bool)
  | finite (negative : Bool) (magnitude : Fin f.finiteCount)
  deriving DecidableEq

/-- The significand of a numbered magnitude. -/
def significand (f : Format) (magnitude : Nat) : Nat :=
  if magnitude < 1 <<< f.fractionBits then magnitude
  else 1 <<< f.fractionBits + magnitude % 1 <<< f.fractionBits

/-- The exponent of the last place of a numbered magnitude. -/
def exponent (f : Format) (magnitude : Nat) : Int :=
  f.minExponent + (magnitude >>> f.fractionBits - 1 : Nat)

namespace Value

variable {f : Format}

/-- The value of a numbered magnitude; a number past the finite ones stands for infinity. -/
def ofMagnitude (negative : Bool) (magnitude : Nat) : Value f :=
  if h : magnitude < f.finiteCount then .finite negative ⟨magnitude, h⟩ else .infinity negative

/-- The value that a word encodes. Every word for "not a number" gives the same value. -/
def ofBits (bits : Nat) : Value f :=
  let magnitude := bits % 1 <<< (f.width - 1)
  if f.finiteCount < magnitude then .nan
  else ofMagnitude (bits >>> (f.width - 1) % 2 = 1) magnitude

/-- The word that encodes a value. -/
def toBits : Value f → Nat
  | .nan => f.finiteCount + 1 <<< (f.fractionBits - 1)
  | .infinity negative => (if negative then 1 <<< (f.width - 1) else 0) + f.finiteCount
  | .finite negative magnitude => (if negative then 1 <<< (f.width - 1) else 0) + magnitude

/-- Whether a value is a number other than the infinities. -/
def isFinite : Value f → Bool
  | .finite _ _ => true
  | _ => false

end Value

end TypedGraph.Binary

namespace TypedGraph

abbrev Binary32 := Binary.Value Binary.binary32

abbrev Binary64 := Binary.Value Binary.binary64

end TypedGraph
