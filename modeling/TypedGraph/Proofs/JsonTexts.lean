import Mathlib
import TypedGraph.Json.Node
import TypedGraph.Json.Printer

/-!
# Reading printed JSON

The text of a value whose numbers are integers of 64 bits is read as that value: strings of any
characters, lists and objects of any nesting (`Value.read_text`). Within a text every number is
followed by a character that cannot be part of it (`Ends`), which is what lets the parts of a value
be read one after the other.
-/

namespace TypedGraph

/-! ### Digits -/

namespace Decimal

variable {k n : Nat}

lemma isDigit_digitChar {d : Nat} (h : d < 10) : (digitChar d).isDigit := by
  interval_cases d <;> decide

lemma toNat_digitChar {d : Nat} (h : d < 10) : (digitChar d).toNat - 48 = d := by
  interval_cases d <;> decide

lemma digitsWithin_ne_nil (k n : Nat) : digitsWithin k n ≠ [] := by
  cases k with
  | zero => simp [digitsWithin]
  | succ k =>
    rw [digitsWithin]
    split_ifs <;> simp

lemma natChars_eq_cons (n : Nat) : ∃ c cs, c.isDigit ∧ natChars n = c :: cs := by
  obtain ⟨d, ds, hds⟩ := List.exists_cons_of_ne_nil (digitsWithin_ne_nil n.log2 n)
  have hd : d < 10 := lt_ten_of_mem_digits (n := n) (by simp [digits, hds])
  exact ⟨digitChar d, ds.map digitChar, isDigit_digitChar hd, by simp [natChars, digits, hds]⟩

lemma intChars_eq_cons (n : Int) : ∃ c cs, (c = '-' ∨ c.isDigit) ∧ intChars n = c :: cs := by
  rw [intChars]
  split_ifs with hn
  · exact ⟨'-', _, .inl rfl, rfl⟩
  · obtain ⟨c, cs, hc, hcs⟩ := natChars_eq_cons n.natAbs
    exact ⟨c, cs, .inr hc, hcs⟩

/-- Only a number of one digit starts with a zero. -/
lemma eq_nil_of_digitsWithin {ds : List Nat} (hn : n.log2 ≤ k) (h : digitsWithin k n = 0 :: ds) :
    ds = [] := by
  induction k generalizing n ds with
  | zero => simp_all [digitsWithin]
  | succ k ih =>
    rw [digitsWithin] at h
    split_ifs at h with hlt
    · simp_all
    · have hk := log2_div_ten_le hn (by omega)
      obtain ⟨e, es, hes⟩ := List.exists_cons_of_ne_nil (digitsWithin_ne_nil k (n / 10))
      obtain ⟨rfl, -⟩ : e = 0 ∧ es ++ [n % 10] = ds := by simpa [hes] using h
      -- The digits before the last would be a single zero, and what they denote is not zero.
      have hval := value_digitsWithin hk
      rw [hes, ih hk hes] at hval
      have : n / 10 = 0 := by simpa [value] using hval.symm
      omega

end Decimal

namespace Json

open Decimal

/-! ### Numbers -/

/-- Whether no number goes on with what follows. -/
def Ends : List Char → Prop
  | [] => True
  | c :: _ => ¬ c.isDigit ∧ c ≠ '.' ∧ c ≠ 'e' ∧ c ≠ 'E'

variable {rest : List Char}

lemma readDigits_append {ds : List Nat} (hds : ∀ d ∈ ds, d < 10) (h : Ends rest) :
    readDigits (ds.map digitChar ++ rest) = (ds, rest) := by
  induction ds with
  | nil =>
    cases rest with
    | nil => rfl
    | cons c cs => simp [readDigits, h.1]
  | cons d ds ih =>
    obtain ⟨hd, hds⟩ := List.forall_mem_cons.mp hds
    have ih := ih hds
    simp only [readDigits, Prod.mk.injEq] at ih
    simp [readDigits, isDigit_digitChar hd, toNat_digitChar hd, ih]

lemma readWhole_natChars (n : Nat) (h : Ends rest) :
    readWhole (natChars n ++ rest) = some (digits n, rest) := by
  rw [readWhole, natChars, readDigits_append (fun _ => lt_ten_of_mem_digits) h]
  split
  · rename_i heq
    exact absurd (Prod.ext_iff.mp heq).1 (digitsWithin_ne_nil _ _)
  · rename_i heq
    have := eq_nil_of_digitsWithin le_rfl (Prod.ext_iff.mp heq).1
    simp at this
  · simp_all

lemma readUnsigned_natChars (negative : Bool) (n : Nat) (h : Ends rest) :
    readUnsigned negative (natChars n ++ rest) = some (⟨negative, digits n, [], none⟩, rest) := by
  have fraction : readFraction rest = some ([], rest) := by
    cases rest with
    | nil => rfl
    | cons c cs =>
      have := h.2.1
      simp [readFraction, this]
  have exponent : readExponent rest = some (none, rest) := by
    cases rest with
    | nil => rfl
    | cons c cs => simp [readExponent, h.2.2]
  simp [readUnsigned, readWhole_natChars n h, fraction, exponent]

lemma readLiteral_intChars (n : Int) (h : Ends rest) :
    readLiteral (intChars n ++ rest) = some (⟨n < 0, digits n.natAbs, [], none⟩, rest) := by
  rw [intChars]
  split_ifs with hn
  · simp [readLiteral, readUnsigned_natChars true _ h, hn]
  · obtain ⟨c, cs, hc, hcs⟩ := natChars_eq_cons n.natAbs
    have hminus : c ≠ '-' := by
      rintro rfl
      exact absurd hc (by decide)
    have := readUnsigned_natChars false n.natAbs h
    simp_all [readLiteral]

namespace Literal

/-- Digits that denote a number of 64 bits are all absorbed. -/
lemma absorb_eq_foldl {m : Nat} {ds : List Nat}
    (h : ds.foldl (fun n d => 10 * n + d) m < 0x10000000000000000) :
    absorb m ds = (ds.foldl (fun n d => 10 * n + d) m, 0) := by
  have le_foldl (ds : List Nat) (m : Nat) : m ≤ ds.foldl (fun n d => 10 * n + d) m := by
    induction ds generalizing m with
    | nil => exact le_rfl
    | cons d ds ih => exact le_trans (by omega) (ih (10 * m + d))
  induction ds generalizing m with
  | nil => rfl
  | cons d ds ih =>
    rw [absorb, if_pos (lt_of_le_of_lt (le_foldl ds _) h)]
    exact ih h

lemma absorb_digits {n : Nat} (h : n < 0x10000000000000000) : absorb 0 (digits n) = (n, 0) := by
  have hval : (digits n).foldl (fun n d => 10 * n + d) 0 = n := value_digits n
  rw [absorb_eq_foldl (by rwa [hval]), hval]

/-- An integer of 64 bits, signed or not, is not rounded. -/
lemma number?_digits {n : Int} (hlo : -0x8000000000000000 ≤ n) (hhi : n < 0x10000000000000000) :
    number? ⟨n < 0, digits n.natAbs, [], none⟩ = some (.int n) := by
  simp only [number?, absorb_digits (show n.natAbs < 0x10000000000000000 by omega)]
  by_cases hn : n < 0
  · have : ¬ 0x8000000000000000 < n.natAbs := by omega
    simp [hn, this, hn.ne, abs_of_neg hn]
  · simp [hn, abs_of_nonneg (not_lt.mp hn)]

end Literal

/-! ### Strings -/

lemma pieceOfHex?_hexDigit {n : Nat} (h : n < 32) :
    pieceOfHex? '0' '0' (hexDigit (n / 16)) (hexDigit (n % 16)) = some (.char (Char.ofNat n)) := by
  interval_cases n <;> decide

lemma readPieces_cons {c : Char} (hq : c ≠ '"') (hb : c ≠ '\\') (hc : 32 ≤ c.toNat)
    (cs : List Char) :
    readPieces (c :: cs) = (readPieces cs).bind fun r => some (.char c :: r.1, r.2) := by
  rw [readPieces.eq_def]
  split
  · simp_all
  · simp_all
  · simp_all
  · simp_all
  · rename_i heq
    obtain ⟨rfl, rfl⟩ := List.cons.inj heq
    simp [hc]

/-- What stands for a character within a string is read as that character. -/
lemma readPieces_escape (c : Char) (cs : List Char) :
    readPieces (escape c ++ cs) = (readPieces cs).bind fun r => some (.char c :: r.1, r.2) := by
  rw [escape]
  split_ifs with h1 h2 h3 h4 h5 h6 h7 h8
  · subst h1; simp [readPieces, unescape?]
  · subst h2; simp [readPieces, unescape?]
  · subst h3; simp [readPieces, unescape?]
  · subst h4; simp [readPieces, unescape?]
  · subst h5; simp [readPieces, unescape?]
  · subst h6; simp [readPieces, unescape?]
  · subst h7; simp [readPieces, unescape?]
  · simp [readPieces, pieceOfHex?_hexDigit h8]
  · exact readPieces_cons h1 h2 (by omega) cs

lemma readString_escape (s : String) (cs : List Char) :
    readString (s.toList.flatMap escape ++ '"' :: cs) = some (some s, cs) := by
  have pieces (ds : List Char) :
      readPieces (ds.flatMap escape ++ '"' :: cs) = some (ds.map .char, cs) := by
    induction ds with
    | nil => simp [readPieces]
    | cons d ds ih =>
      rw [List.flatMap_cons, List.append_assoc, readPieces_escape, ih]
      rfl
  -- An escape never stands for half of a surrogate pair, so nothing is left to join.
  have joined (ds : List Char) : joinHalves? (ds.map .char) = some ds := by
    induction ds with
    | nil => rfl
    | cons d ds ih => simp [joinHalves?, ih]
  simp [readString, pieces, joined]

/-! ### Marks -/

lemma skipSpace_cons {c : Char} (h : isSpace c = false) (cs : List Char) :
    skipSpace (c :: cs) = c :: cs := by
  simp [skipSpace, h]

lemma readMark_cons {c : Char} (h : isSpace c = false) (cs : List Char) :
    readMark c (c :: cs) = some cs := by
  simp [readMark, skipSpace_cons h]

lemma readMark_cons_of_ne {c d : Char} (h : isSpace d = false) (hcd : d ≠ c) (cs : List Char) :
    readMark c (d :: cs) = none := by
  simp [readMark, skipSpace_cons h, hcd]

lemma isSpace_of_isDigit {c : Char} (h : c.isDigit) : isSpace c = false := by
  rw [← Bool.not_eq_true]
  intro hs
  have : c = ' ' ∨ c = '\t' ∨ c = '\n' ∨ c = '\r' := by simpa [isSpace, or_assoc] using hs
  rcases this with rfl | rfl | rfl | rfl <;> exact absurd h (by decide)

lemma isSpace_of_sign_or_digit {c : Char} (h : c = '-' ∨ c.isDigit) : isSpace c = false := by
  rcases h with rfl | h
  · decide
  · exact isSpace_of_isDigit h

/-! ### Steps of the reader -/

variable {n : Nat}

/-- What starts with a sign or a digit is read as a number. -/
lemma readNode_of_sign_or_digit {c : Char} (h : c = '-' ∨ c.isDigit) (cs : List Char) :
    readNode (n + 1) (c :: cs) =
      (readLiteral (c :: cs)).map fun r => (.number r.1.number?, r.2) := by
  have ne {d : Char} (hd : d ≠ '-' ∧ d.isDigit = false) : c ≠ d := by
    rintro rfl
    simp_all
  have h1 := ne (show '[' ≠ '-' ∧ _ by decide)
  have h2 := ne (show '\x7b' ≠ '-' ∧ _ by decide)
  have h3 := ne (show '"' ≠ '-' ∧ _ by decide)
  have h4 := ne (show 'n' ≠ '-' ∧ _ by decide)
  have h5 := ne (show 't' ≠ '-' ∧ _ by decide)
  have h6 := ne (show 'f' ≠ '-' ∧ _ by decide)
  simp [readNode, skipSpace_cons (isSpace_of_sign_or_digit h), readScalar, *]

lemma readNode_intChars {k : Int} (hlo : -0x8000000000000000 ≤ k) (hhi : k < 0x10000000000000000)
    (h : Ends rest) :
    readNode (n + 1) (intChars k ++ rest) = some (.number (some (.int k)), rest) := by
  obtain ⟨c, cs, hc, hcs⟩ := intChars_eq_cons k
  rw [hcs, List.cons_append, readNode_of_sign_or_digit hc, ← List.cons_append, ← hcs,
    readLiteral_intChars k h]
  simp [Literal.number?_digits hlo hhi]

lemma readMember_quoted {k : String} {cs : List Char} {v : Node}
    (h : readNode n cs = some (v, rest)) :
    readMember (n + 1) (quoted k ++ ':' :: cs) = some ((some k, v), rest) := by
  have hquote (ds) :
      readMark '"' (quoted k ++ ds) = some (k.toList.flatMap escape ++ '"' :: ds) := by
    simp [quoted, readMark_cons, isSpace]
  have hcolon := readMark_cons (c := ':') (by decide) cs
  simp [readMember, hquote, readString_escape, hcolon, h]

/-! ### Values -/

namespace Value

mutual

/-- The node that the text of a value is read as. -/
def node : Value → Node
  | .null => .null
  | .bool b => .bool b
  | .number n => .number (some n)
  | .string s => .string (some s)
  | .array vs => .array (elementNodes vs)
  | .object ms => .object (memberNodes ms)

def elementNodes : List Value → List Node
  | [] => []
  | v :: vs => v.node :: elementNodes vs

def memberNodes : List (String × Value) → List (Option String × Node)
  | [] => []
  | (k, v) :: ms => (some k, v.node) :: memberNodes ms

end

lemma elementNodes_eq_map (vs : List Value) : elementNodes vs = vs.map node := by
  induction vs with
  | nil => rfl
  | cons v vs ih => simp [elementNodes, ih]

lemma memberNodes_eq_map (ms : List (String × Value)) :
    memberNodes ms = ms.map fun m => (some m.1, m.2.node) := by
  induction ms with
  | nil => rfl
  | cons m ms ih => simp [memberNodes, ih]

mutual

/-- Whether every number of a value is an integer of 64 bits, signed or not. -/
def IsWhole : Value → Prop
  | .null | .bool _ | .string _ => True
  | .number (.int n) => -0x8000000000000000 ≤ n ∧ n < 0x10000000000000000
  | .number (.float _) => False
  | .array vs => AreWhole vs
  | .object ms => MembersAreWhole ms

def AreWhole : List Value → Prop
  | [] => True
  | v :: vs => v.IsWhole ∧ AreWhole vs

def MembersAreWhole : List (String × Value) → Prop
  | [] => True
  | (_, v) :: ms => v.IsWhole ∧ MembersAreWhole ms

end

/-- The text of a value starts with neither a blank nor the end of an array. -/
lemma exists_chars_eq_cons (v : Value) (h : v.IsWhole) :
    ∃ c cs, isSpace c = false ∧ c ≠ ']' ∧ v.chars = c :: cs := by
  cases v with
  | null => exact ⟨'n', "ull".toList, by decide, by decide, by simp [chars]⟩
  | bool b =>
    cases b
    · exact ⟨'f', "alse".toList, by decide, by decide, by simp [chars]⟩
    · exact ⟨'t', "rue".toList, by decide, by decide, by simp [chars]⟩
  | number n =>
    cases n with
    | float x => exact h.elim
    | int n =>
      obtain ⟨c, cs, hc, hcs⟩ := intChars_eq_cons n
      refine ⟨c, cs, isSpace_of_sign_or_digit hc, ?_, by simpa [chars, Number.chars] using hcs⟩
      rintro rfl
      exact absurd hc (by decide)
  | string s => exact ⟨'"', _, by decide, by decide, by rw [chars, quoted, List.cons_append]⟩
  | array vs =>
    cases vs with
    | nil => exact ⟨'[', [']'], by decide, by decide, by rw [chars]⟩
    | cons v vs => exact ⟨'[', _, by decide, by decide, by rw [chars, List.cons_append]⟩
  | object ms =>
    cases ms with
    | nil => exact ⟨'\x7b', ['\x7d'], by decide, by decide, by rw [chars]⟩
    | cons m ms =>
      exact ⟨'\x7b', _, by decide, by decide, by rw [chars, List.cons_append, List.cons_append]⟩

lemma ends_elementChars (vs : List Value) (cs : List Char) : Ends (elementChars vs ++ cs) := by
  cases vs <;> simp [elementChars, Ends]

lemma ends_memberChars (ms : List (String × Value)) (cs : List Char) :
    Ends (memberChars ms ++ cs) := by
  cases ms <;> simp [memberChars, Ends]

-- The reader's bound counts down at every part of a value, and the characters of the parts are
-- fewer than those of the whole.
mutual

theorem readNode_chars {n : Nat} {rest : List Char} (h : Ends rest) :
    (v : Value) → v.IsWhole → v.chars.length < n →
      readNode n (v.chars ++ rest) = some (v.node, rest)
  | v, hw, hn => by
    obtain _ | n := n
    · simp at hn
    cases v with
    | null => simp [chars, node, readNode, skipSpace_cons, isSpace, readScalar, readWord]
    | bool b =>
      cases b <;> simp [chars, node, readNode, skipSpace_cons, isSpace, readScalar, readWord]
    | number k =>
      cases k with
      | float x => exact hw.elim
      | int k => simpa [chars, Number.chars, node] using readNode_intChars hw.1 hw.2 h
    | string s =>
      simp [chars, node, quoted, readNode, skipSpace_cons, isSpace, readScalar, readString_escape]
    | array vs =>
      cases vs with
      | nil => simp [chars, node, readNode, skipSpace_cons, isSpace, readMark_cons, elementNodes]
      | cons v vs =>
        simp only [chars, List.length_cons, List.length_append] at hn
        -- what follows an element is a comma or the end of the array, and both end a number
        have hv := readNode_chars (n := n) (ends_elementChars vs rest) v hw.1 (by omega)
        have hvs := readElements_chars (n := n) rest vs hw.2 (by omega)
        obtain ⟨c, cs, hc, hne, hcs⟩ := exists_chars_eq_cons v hw.1
        have hend := readMark_cons_of_ne hc hne
        rw [hcs, List.cons_append] at hv
        simp [chars, node, readNode, skipSpace_cons, isSpace, elementNodes, hcs, hend, hv, hvs]
    | object ms =>
      cases ms with
      | nil => simp [chars, node, readNode, skipSpace_cons, isSpace, readMark_cons, memberNodes]
      | cons m ms =>
        obtain ⟨k, v⟩ := m
        obtain _ | n := n
        · simp [chars] at hn
        -- a member takes two levels, one for itself and one for its value
        simp only [chars, List.length_cons, List.length_append] at hn
        have hv := readNode_chars (n := n) (ends_memberChars ms rest) v hw.1 (by omega)
        have hms := readMembers_chars (n := n + 1) rest ms hw.2 (by omega)
        have hm := readMember_quoted (k := k) hv
        have hend (cs) : readMark '\x7d' (quoted k ++ cs) = none :=
          readMark_cons_of_ne (by decide) (by decide) _
        simp [chars, node, readNode, skipSpace_cons, isSpace, memberNodes, hend, hm, hms]

theorem readElements_chars {n : Nat} (rest : List Char) :
    (vs : List Value) → AreWhole vs → (elementChars vs).length < n →
      readElements n (elementChars vs ++ rest) = some (elementNodes vs, rest)
  | vs, hw, hn => by
    obtain _ | n := n
    · simp at hn
    cases vs with
    | nil => simp [elementChars, elementNodes, readElements, readMark_cons, isSpace]
    | cons v vs =>
      simp only [elementChars, List.length_cons, List.length_append] at hn
      have hv := readNode_chars (n := n) (ends_elementChars vs rest) v hw.1 (by omega)
      have hvs := readElements_chars (n := n) rest vs hw.2 (by omega)
      have hend := readMark_cons_of_ne (c := ']') (d := ',') (by decide) (by decide)
      have hcomma := readMark_cons (c := ',') (by decide)
      simp [elementChars, elementNodes, readElements, hend, hcomma, hv, hvs]

theorem readMembers_chars {n : Nat} (rest : List Char) :
    (ms : List (String × Value)) → MembersAreWhole ms → (memberChars ms).length < n →
      readMembers n (memberChars ms ++ rest) = some (memberNodes ms, rest)
  | ms, hw, hn => by
    obtain _ | n := n
    · simp at hn
    cases ms with
    | nil => simp [memberChars, memberNodes, readMembers, readMark_cons, isSpace]
    | cons m ms =>
      obtain ⟨k, v⟩ := m
      obtain _ | n := n
      · simp [memberChars] at hn
      simp only [memberChars, List.length_cons, List.length_append] at hn
      have hv := readNode_chars (n := n) (ends_memberChars ms rest) v hw.1 (by omega)
      have hms := readMembers_chars (n := n + 1) rest ms hw.2 (by omega)
      have hm := readMember_quoted (k := k) hv
      -- a brace is no comma, so the list does not end before its next member
      have hend := readMark_cons_of_ne (c := '\x7d') (d := ',') (by decide) (by decide)
      have hcomma := readMark_cons (c := ',') (by decide)
      simp only [memberChars, memberNodes, List.cons_append, List.append_assoc]
      rw [readMembers, hend]
      simp [hcomma, hm, hms]

end

/-- The text of a value is read as that value. -/
theorem read_text {v : Value} (h : v.IsWhole) : Node.read v.text = some v.node := by
  have hread : readNode (v.chars.length + 1) v.chars = some (v.node, []) := by
    have hends : Ends [] := trivial
    simpa using readNode_chars hends v h (Nat.lt_succ_self v.chars.length)
  rw [Node.read, text, String.toList_ofList]
  simp only [hread]
  rfl

end Value

end Json

end TypedGraph
