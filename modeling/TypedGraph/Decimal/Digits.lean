/-!
# Decimal digits

The digits of a natural number, most significant first, and the text of an integer. Main statement:
`value_digits` (the digits of a number read back as that number).
-/

namespace TypedGraph.Decimal

/-- Ten to a power; one if the power is negative. -/
def tenTo (k : Int) : Nat := Nat.pow 10 k.toNat

/-! ### Digits of a number -/

/-- The digits of a number below ten to the power of the first argument. -/
def digitsWithin : Nat → Nat → List Nat
  | 0, n => [n % 10]
  | k + 1, n => if n < 10 then [n] else digitsWithin k (n / 10) ++ [n % 10]

/-- The decimal digits of a number, most significant first. -/
def digits (n : Nat) : List Nat := digitsWithin n.log2 n

/-- The number that a list of digits denotes. -/
def value (ds : List Nat) : Nat := ds.foldl (fun n d => 10 * n + d) 0

@[simp] theorem value_nil : value [] = 0 := rfl

@[simp] theorem value_append_singleton (ds : List Nat) (d : Nat) :
    value (ds ++ [d]) = 10 * value ds + d := by
  simp [value]

theorem lt_ten_of_mem_digitsWithin {k n d : Nat} (h : d ∈ digitsWithin k n) : d < 10 := by
  induction k generalizing n with
  | zero =>
    have : d = n % 10 := by simpa [digitsWithin] using h
    omega
  | succ k ih =>
    unfold digitsWithin at h
    split at h
    · have : d = n := by simpa using h
      omega
    · rcases List.mem_append.mp h with h | h
      · exact ih h
      · have : d = n % 10 := by simpa using h
        omega

theorem log2_div_ten_le {k n : Nat} (h : n.log2 ≤ k + 1) (hn : 10 ≤ n) : (n / 10).log2 ≤ k := by
  have hlt := (Nat.log2_lt (by omega)).mp (Nat.lt_succ_of_le h)
  refine Nat.le_of_lt_succ ((Nat.log2_lt (by omega)).mpr ?_)
  rw [Nat.pow_succ] at hlt ⊢
  omega

theorem value_digitsWithin {k n : Nat} (h : n.log2 ≤ k) : value (digitsWithin k n) = n := by
  induction k generalizing n with
  | zero =>
    have hlt : n < 2 := by
      rw [Nat.log2_def] at h
      split at h <;> omega
    have : n % 10 = n := Nat.mod_eq_of_lt (by omega)
    simp [digitsWithin, value, this]
  | succ k ih =>
    unfold digitsWithin
    split
    · simp [value]
    · rw [value_append_singleton, ih (log2_div_ten_le h (by omega))]
      omega

theorem lt_ten_of_mem_digits {n d : Nat} (h : d ∈ digits n) : d < 10 :=
  lt_ten_of_mem_digitsWithin h

theorem value_digits (n : Nat) : value (digits n) = n :=
  value_digitsWithin (Nat.le_refl _)

/-! ### Text -/

def digitChar (d : Nat) : Char := Char.ofNat (48 + d)

def natChars (n : Nat) : List Char := (digits n).map digitChar

/-- The characters of an integer, a minus sign before a negative one. -/
def intChars (n : Int) : List Char :=
  if n < 0 then '-' :: natChars n.natAbs else natChars n.natAbs

def natText (n : Nat) : String := String.ofList (natChars n)

def intText (n : Int) : String := String.ofList (intChars n)

end TypedGraph.Decimal
