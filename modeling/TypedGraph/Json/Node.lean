import TypedGraph.Json.Literal

/-!
# Reading JSON texts

A text is first read by the grammar alone. A `Node` is the result: where a piece of text is well
formed but has no value (a number too large, half of a surrogate pair), the node says so and leaves
it to the reader of the node whether that matters. Members of an object stay in the order of the
text, repetitions included.
-/

namespace TypedGraph.Json

open Decimal

/-- A well-formed JSON text; `none` stands for a number or a string without a value. -/
inductive Node where
  | null
  | bool (b : Bool)
  | number (n : Option Number)
  | string (s : Option String)
  | array (elements : List Node)
  | object (members : List (Option String × Node))

instance : Inhabited Node := ⟨.null⟩

/-! ### Blanks and words -/

/-- Whether a character may stand between the tokens of a JSON text. -/
def isSpace (c : Char) : Bool := c = ' ' || c = '\t' || c = '\n' || c = '\r'

/-- What remains after blanks. -/
def skipSpace (cs : List Char) : List Char := cs.dropWhile isSpace

/-! ### Strings -/

/-- A piece of a string: a character, or one half of a surrogate pair. -/
inductive Piece where
  | char (c : Char)
  | half (unit : Nat)
  deriving DecidableEq

/-- The number of a hexadecimal digit. -/
def hexValue? (c : Char) : Option Nat :=
  if '0' ≤ c && c ≤ '9' then some (c.toNat - 48)
  else if 'a' ≤ c && c ≤ 'f' then some (c.toNat - 87)
  else if 'A' ≤ c && c ≤ 'F' then some (c.toNat - 55)
  else none

/-- The piece that four hexadecimal digits stand for. -/
def pieceOfHex? (a b c d : Char) : Option Piece := do
  let unit := 4096 * (← hexValue? a) + 256 * (← hexValue? b) + 16 * (← hexValue? c) +
    (← hexValue? d)
  pure (if 0xD800 ≤ unit && unit ≤ 0xDFFF then .half unit else .char (Char.ofNat unit))

/-- The character that a letter after a backslash stands for. -/
def unescape? : Char → Option Char
  | '"' => some '"'
  | '\\' => some '\\'
  | '/' => some '/'
  | 'b' => some '\x08'
  | 'f' => some '\x0c'
  | 'n' => some '\n'
  | 'r' => some '\r'
  | 't' => some '\t'
  | _ => none

/-- Reads the pieces of a string up to its closing quote. -/
def readPieces : List Char → Option (List Piece × List Char)
  | [] => none
  | '"' :: cs => some ([], cs)
  | '\\' :: 'u' :: a :: b :: c :: d :: cs => do
    let p ← pieceOfHex? a b c d
    let (ps, cs) ← readPieces cs
    pure (p :: ps, cs)
  | '\\' :: e :: cs => do
    let c ← unescape? e
    let (ps, cs) ← readPieces cs
    pure (.char c :: ps, cs)
  | c :: cs => do
    guard (32 ≤ c.toNat)
    let (ps, cs) ← readPieces cs
    pure (.char c :: ps, cs)

/-- The characters of pieces: a high half joins the low half right after it, and no half may be left
alone. -/
def joinHalves? : List Piece → Option (List Char)
  | [] => some []
  | .char c :: ps => (joinHalves? ps).map (c :: ·)
  | .half high :: .half low :: ps =>
    if high < 0xDC00 && 0xDC00 ≤ low then
      (joinHalves? ps).map (Char.ofNat (0x10000 + 1024 * (high - 0xD800) + (low - 0xDC00)) :: ·)
    else none
  | .half _ :: _ => none

/-- Reads a string after its opening quote. -/
def readString (cs : List Char) : Option (Option String × List Char) :=
  (readPieces cs).map fun (ps, cs) => ((joinHalves? ps).map String.ofList, cs)

/-! ### Numbers -/

/-- Splits off the leading digits. -/
def readDigits (cs : List Char) : List Nat × List Char :=
  ((cs.takeWhile Char.isDigit).map fun c => c.toNat - 48, cs.dropWhile Char.isDigit)

/-- Reads the fraction of a number, which has a digit if it has a point. -/
def readFraction : List Char → Option (List Nat × List Char)
  | '.' :: cs =>
    match readDigits cs with
    | ([], _) => none
    | (ds, cs) => some (ds, cs)
  | cs => some ([], cs)

/-- Reads the sign of an exponent; whether it is a minus sign. -/
def readExponentSign : List Char → Bool × List Char
  | '+' :: cs => (false, cs)
  | '-' :: cs => (true, cs)
  | cs => (false, cs)

def readExponent : List Char → Option (Option Int × List Char)
  | [] => some (none, [])
  | c :: cs =>
    if c = 'e' || c = 'E' then
      let (negative, cs) := readExponentSign cs
      match readDigits cs with
      | ([], _) => none
      | (ds, cs) => some (some (if negative then -value ds else value ds), cs)
    else some (none, c :: cs)

/-- Reads the digits before the point: no zero leads another digit. -/
def readWhole (cs : List Char) : Option (List Nat × List Char) :=
  match readDigits cs with
  | ([], _) | (0 :: _ :: _, _) => none
  | (ds, cs) => some (ds, cs)

/-- Reads a number after its sign. -/
def readUnsigned (negative : Bool) (cs : List Char) : Option (Literal × List Char) := do
  let (whole, cs) ← readWhole cs
  let (fraction, cs) ← readFraction cs
  let (exponent, cs) ← readExponent cs
  pure (⟨negative, whole, fraction, exponent⟩, cs)

def readLiteral : List Char → Option (Literal × List Char)
  | '-' :: cs => readUnsigned true cs
  | cs => readUnsigned false cs

/-! ### Values -/

/-- Reads a character that has to come next, after blanks. -/
def readMark (c : Char) (cs : List Char) : Option (List Char) :=
  match skipSpace cs with
  | d :: cs => if d = c then some cs else none
  | [] => none

/-- Reads the rest of a word that has to come next. -/
def readWord (word cs : List Char) : Option (List Char) :=
  if word.isPrefixOf cs then some (cs.drop word.length) else none

/-- Reads a value that is neither an array nor an object, blanks before it skipped. -/
def readScalar (cs : List Char) : Option (Node × List Char) :=
  match cs with
  | '"' :: cs => (readString cs).map fun (s, cs) => (.string s, cs)
  | 'n' :: cs => (readWord "ull".toList cs).map (.null, ·)
  | 't' :: cs => (readWord "rue".toList cs).map (.bool true, ·)
  | 'f' :: cs => (readWord "alse".toList cs).map (.bool false, ·)
  | cs => (readLiteral cs).map fun (l, cs) => (.number l.number?, cs)

mutual

/-- Reads a value of bounded nesting and length. -/
def readNode : Nat → List Char → Option (Node × List Char)
  | 0, _ => none
  | n + 1, cs =>
    match skipSpace cs with
    | '[' :: cs =>
      match readMark ']' cs with
      | some cs => some (.array [], cs)
      | none => do
        let (v, cs) ← readNode n cs
        let (vs, cs) ← readElements n cs
        pure (.array (v :: vs), cs)
    | '\x7b' :: cs =>
      match readMark '\x7d' cs with
      | some cs => some (.object [], cs)
      | none => do
        let (m, cs) ← readMember n cs
        let (ms, cs) ← readMembers n cs
        pure (.object (m :: ms), cs)
    | cs => readScalar cs

/-- Reads the further elements of an array and its end. -/
def readElements : Nat → List Char → Option (List Node × List Char)
  | 0, _ => none
  | n + 1, cs =>
    match readMark ']' cs with
    | some cs => some ([], cs)
    | none => do
      let cs ← readMark ',' cs
      let (v, cs) ← readNode n cs
      let (vs, cs) ← readElements n cs
      pure (v :: vs, cs)

/-- Reads a name, a colon and a value. -/
def readMember : Nat → List Char → Option ((Option String × Node) × List Char)
  | 0, _ => none
  | n + 1, cs => do
    let cs ← readMark '"' cs
    let (k, cs) ← readString cs
    let cs ← readMark ':' cs
    let (v, cs) ← readNode n cs
    pure ((k, v), cs)

/-- Reads the further members of an object and its end. -/
def readMembers : Nat → List Char → Option (List (Option String × Node) × List Char)
  | 0, _ => none
  | n + 1, cs =>
    match readMark '\x7d' cs with
    | some cs => some ([], cs)
    | none => do
      let cs ← readMark ',' cs
      let (m, cs) ← readMember n cs
      let (ms, cs) ← readMembers n cs
      pure (m :: ms, cs)

end

/-- Reads a whole text. Every step of the reader takes a character, so the length bounds it. -/
def Node.read (s : String) : Option Node := do
  let cs := s.toList
  let (v, rest) ← readNode (cs.length + 1) cs
  guard (skipSpace rest).isEmpty
  pure v

end TypedGraph.Json
