import TypedGraph.Decimal.Shortest

/-!
# Styles of decimal text

How a binary value is written out once its digits are chosen: which exponents are written
positionally and whether a whole number keeps a fraction. Other exponents follow the digits after
an `e`, with a sign.
-/

namespace TypedGraph.Decimal

open Binary

/-- The choices that a text of a number leaves open. -/
structure Style where
  tie : Tie
  positional : Int → Bool
  wholeFraction : Bool

/-- The style of messages: always positional, whole numbers without a fraction. -/
def Style.plain : Style := ⟨.up, fun _ => true, false⟩

/-- The style of JSON texts: positional from `10 ^ -5` up to `10 ^ 16`, whole numbers with `.0`. -/
def Style.json : Style := ⟨.toEven, fun e => -5 ≤ e && e < 16, true⟩

namespace Style

variable (s : Style)

/-- The characters of a fraction; an empty one is left out or written as a zero. -/
def fraction : List Char → List Char
  | [] => if s.wholeFraction then ['.', '0'] else []
  | cs => '.' :: cs

/-- The digits with the point in its place. -/
def placed (d : Scientific) : List Char :=
  let cs := d.digits.map digitChar
  if d.exponent < 0 then
    '0' :: '.' :: List.replicate (-d.exponent - 1).toNat '0' ++ cs
  else
    let whole := d.exponent.toNat + 1
    cs.take whole ++ List.replicate (whole - cs.length) '0' ++ s.fraction (cs.drop whole)

/-- The digits with the exponent after them. -/
def powered (d : Scientific) : List Char :=
  let cs := d.digits.map digitChar
  let tail := cs.drop 1
  cs.take 1 ++ (if tail.isEmpty then [] else '.' :: tail)
    ++ 'e' :: (if d.exponent < 0 then '-' else '+') :: natChars d.exponent.natAbs

def magnitudeChars (f : Format) (magnitude : Nat) : List Char :=
  if magnitude = 0 then '0' :: s.fraction []
  else
    let d := shortest f s.tie magnitude
    if s.positional d.exponent then s.placed d else powered d

def chars {f : Format} : Binary.Value f → List Char
  | .nan => "NaN".toList
  | .infinity negative => (if negative then ['-'] else []) ++ "inf".toList
  | .finite negative magnitude =>
    (if negative then ['-'] else []) ++ s.magnitudeChars f magnitude

end Style

end TypedGraph.Decimal
