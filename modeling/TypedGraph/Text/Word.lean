/-!
# Words of a setting

A setting is given as a word: white space around it does not count, and ASCII letters are the same
in either case. White space is the Unicode property of that name.
-/

namespace TypedGraph.Text

/-- The code points that carry Unicode's property `White_Space`, as inclusive ranges. -/
def blankRanges : List (Nat × Nat) :=
  [(0x09, 0x0D), (0x20, 0x20), (0x85, 0x85), (0xA0, 0xA0), (0x1680, 0x1680), (0x2000, 0x200A),
    (0x2028, 0x2029), (0x202F, 0x202F), (0x205F, 0x205F), (0x3000, 0x3000)]

/-- Whether a character is white space. -/
def isBlank (c : Char) : Bool :=
  blankRanges.any fun r => r.1 ≤ c.toNat && c.toNat ≤ r.2

/-- The text between the white space at its two ends. -/
def trim (cs : List Char) : List Char :=
  ((cs.dropWhile isBlank).reverse.dropWhile isBlank).reverse

/-- A setting's word: trimmed, with the ASCII letters in lower case. -/
def word (s : String) : String :=
  String.ofList ((trim s.toList).map Char.toLower)

/-- A word that a setting does not know, as it was compared. -/
inductive WordError where
  | dtype (word : String)
  | policy (word : String)
  deriving DecidableEq

def WordError.message : WordError → String
  | .dtype w => "unknown dtype: " ++ w
  | .policy w => "unknown renumber policy: " ++ w

end TypedGraph.Text
