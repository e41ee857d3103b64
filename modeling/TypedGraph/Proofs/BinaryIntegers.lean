import Mathlib
import TypedGraph.Binary.Round

/-!
# Integers as binary values

What becomes of an integer that is rounded to a binary value of 64 bits and read back. Between two
powers of two these values lie at one distance (`spacing`), so an integer comes back as the multiple
of the spacing next to it (`truncate?_ofInt`), at most half a spacing away (`two_mul_dist_nearby`).
It comes back as it is exactly if it has at most 53 binary digits and zeros after them
(`nearby_eq_iff`).
-/

namespace TypedGraph.Binary

/-! ### Nearest integers -/

section Nearest

variable {num den k : Nat}

lemma nearest_of_multiple (hden : 0 < den) (h : num = k * den) : nearest num den = k := by
  simp [nearest, hden, h]

/-- The nearest integer is at most half off. -/
lemma nearest_bounds (hden : 0 < den) (num : Nat) :
    2 * (nearest num den * den) ≤ 2 * num + den ∧ 2 * num ≤ 2 * (nearest num den * den) + den := by
  have hsplit : num / den * den + num % den = num := Nat.div_add_mod' num den
  have hnext : (num / den + 1) * den = num / den * den + den := Nat.succ_mul _ _
  have hlt : num % den < den := Nat.mod_lt num hden
  simp only [nearest]
  split_ifs <;> omega

lemma le_nearest (hden : 0 < den) (h : k * den ≤ num) : k ≤ nearest num den := by
  have hk : k ≤ num / den := (Nat.le_div_iff_mul_le hden).mpr h
  simp only [nearest]
  split_ifs <;> omega

lemma nearest_le (hden : 0 < den) (h : num < k * den) : nearest num den ≤ k := by
  have hk : num / den < k := (Nat.div_lt_iff_lt_mul hden).mpr h
  simp only [nearest]
  split_ifs <;> omega

end Nearest

/-! ### Spacing -/

section Spacing

variable {m : Nat}

/-- The distance between the binary values of 64 bits from the power of two below an integer to the
next one, or one where they are closer. -/
def spacing (m : Nat) : Nat := 2 ^ (m.log2 - 52)

/-- The multiple of the spacing nearest to an integer. -/
def rounded (m : Nat) : Nat := nearest m (spacing m) * spacing m

lemma spacing_pos (m : Nat) : 0 < spacing m := Nat.two_pow_pos _

lemma spacing_of_small (h : m.log2 ≤ 52) : spacing m = 1 := by
  rw [spacing, Nat.sub_eq_zero_of_le h, Nat.pow_zero]

lemma pow_log2_mul (m : Nat) : 2 ^ m.log2 * 2 ^ (52 - m.log2) = 2 ^ 52 * spacing m := by
  rw [spacing, ← Nat.pow_add, ← Nat.pow_add]
  congr 1
  omega

/-- Counted in spacings, an integer has 53 binary digits. -/
lemma nearest_scaled_bounds (hm : m ≠ 0) :
    2 ^ 52 ≤ nearest (m * 2 ^ (52 - m.log2)) (spacing m) ∧
      nearest (m * 2 ^ (52 - m.log2)) (spacing m) ≤ 2 ^ 53 := by
  have hlow := Nat.mul_le_mul_right (2 ^ (52 - m.log2)) (Nat.log2_self_le hm)
  have hhigh := Nat.mul_lt_mul_of_pos_right (Nat.lt_log2_self (n := m))
    (Nat.two_pow_pos (52 - m.log2))
  rw [Nat.pow_succ, Nat.mul_right_comm] at hhigh
  rw [pow_log2_mul] at hlow hhigh
  exact ⟨le_nearest (spacing_pos m) hlow, nearest_le (spacing_pos m) (by omega)⟩

end Spacing

/-! ### Magnitudes of integers -/

section Magnitude

variable {m c k r : Nat}

/-- An integer gets the exponent of its leading binary digit, and the rest rounded. -/
lemma magnitudeOfRatio_one (hm : m ≠ 0) : magnitudeOfRatio binary64 m 1
    = (m.log2 + 1022) * 2 ^ 52 + nearest (m * 2 ^ (52 - m.log2)) (spacing m) := by
  have hmin : binary64.minExponent = -1074 := by decide
  have hplace : lastPlace binary64 m 1 = (m.log2 : Int) - 52 := by
    have hlog : Nat.log2 1 = 0 := by decide
    have hbelow : ¬ m <<< (-(m.log2 : Int)).toNat < 1 <<< (m.log2 : Int).toNat := by
      simpa [Nat.shiftLeft_eq] using Nat.log2_self_le hm
    simp only [lastPlace, hlog, Nat.cast_zero, sub_zero, hbelow, if_false, hmin]
    show max (-1074 : Int) (m.log2 - (53 : Nat) + 1) = m.log2 - 52
    omega
  have hfraction : binary64.fractionBits = 52 := rfl
  have hsteps : ((m.log2 : Int) - 52 - -1074).toNat = m.log2 + 1022 := by omega
  have hup : (-((m.log2 : Int) - 52)).toNat = 52 - m.log2 := by omega
  have hdown : ((m.log2 : Int) - 52).toNat = m.log2 - 52 := by omega
  rw [magnitudeOfRatio, if_neg hm]
  simp only [hplace, hmin, hfraction, hsteps, hup, hdown, Nat.shiftLeft_eq, one_mul, spacing]

/-- A significand with all its digits and an exponent can be told apart in a magnitude. -/
lemma significand_and_exponent (hlow : 2 ^ 52 ≤ r) (hhigh : r < 2 ^ 53) :
    significand binary64 (c * 2 ^ 52 + r) = r ∧
      exponent binary64 (c * 2 ^ 52 + r) = (c : Int) - 1074 := by
  have hmin : binary64.minExponent = -1074 := by decide
  have hfraction : 1 <<< binary64.fractionBits = 2 ^ 52 := by decide
  have hdiv : (c * 2 ^ 52 + r) / 2 ^ 52 = c + 1 := by omega
  constructor
  · rw [significand, hfraction]
    split_ifs <;> omega
  · rw [exponent, hmin, Nat.shiftRight_eq_div_pow, show binary64.fractionBits = 52 from rfl, hdiv]
    omega

/-- The integer part of a numbered magnitude. -/
def wholeOf (magnitude : Nat) : Nat :=
  (ratio binary64 magnitude).1 / (ratio binary64 magnitude).2

lemma wholeOf_place (hlow : 2 ^ 52 ≤ r) (hhigh : r < 2 ^ 53) :
    wholeOf ((k + 1074) * 2 ^ 52 + r) = r * 2 ^ k := by
  obtain ⟨hsignificand, hexponent⟩ := significand_and_exponent (c := k + 1074) hlow hhigh
  have hup : ((k + 1074 : Nat) - 1074 : Int).toNat = k := by omega
  have hdown : (-((k + 1074 : Nat) - 1074 : Int)).toNat = 0 := by omega
  simp only [wholeOf, ratio, hsignificand, hexponent, hup, hdown, Nat.shiftLeft_eq, Nat.pow_zero,
    Nat.one_mul, Nat.div_one]

/-- A significand that was rounded up to the next power of two carries into the exponent. -/
lemma wholeOf_carry : wholeOf ((k + 1074) * 2 ^ 52 + 2 ^ 53) = 2 ^ 53 * 2 ^ k := by
  have hnext : (k + 1074) * 2 ^ 52 + 2 ^ 53 = (k + 1 + 1074) * 2 ^ 52 + 2 ^ 52 := by ring
  rw [hnext, wholeOf_place (Nat.le_refl _) (by decide)]
  ring

/-- An integer of at most 53 binary digits is kept. -/
lemma wholeOf_magnitude_of_small (hm : m ≠ 0) (h : m.log2 ≤ 52) :
    wholeOf (magnitudeOfRatio binary64 m 1) = m := by
  obtain ⟨hlow, -⟩ := nearest_scaled_bounds hm
  have hpos : 0 < 2 ^ (52 - m.log2) := Nat.two_pow_pos _
  have hhigh : m * 2 ^ (52 - m.log2) < 2 ^ 53 := by
    have hlt := Nat.mul_lt_mul_of_pos_right (Nat.lt_log2_self (n := m)) hpos
    rw [Nat.pow_succ, Nat.mul_right_comm, pow_log2_mul, spacing_of_small h] at hlt
    exact hlt
  rw [spacing_of_small h, nearest_one] at hlow
  obtain ⟨hsignificand, hexponent⟩ := significand_and_exponent (c := m.log2 + 1022) hlow hhigh
  have hup : ((m.log2 + 1022 : Nat) - 1074 : Int).toNat = 0 := by omega
  have hdown : (-((m.log2 + 1022 : Nat) - 1074 : Int)).toNat = 52 - m.log2 := by omega
  rw [magnitudeOfRatio_one hm, spacing_of_small h, nearest_one]
  simp only [wholeOf, ratio, hsignificand, hexponent, hup, hdown, Nat.shiftLeft_eq, Nat.pow_zero,
    Nat.mul_one, Nat.one_mul]
  exact Nat.mul_div_cancel m hpos

/-- A longer integer is rounded to a multiple of the spacing. -/
lemma wholeOf_magnitude_of_large (hm : m ≠ 0) (h : 52 ≤ m.log2) :
    wholeOf (magnitudeOfRatio binary64 m 1) = rounded m := by
  obtain ⟨k, hk⟩ := Nat.exists_eq_add_of_le h
  have hplace : m.log2 + 1022 = k + 1074 := by omega
  have hspacing : spacing m = 2 ^ k := by
    rw [spacing, hk, Nat.add_sub_cancel_left]
  have hscaled : m * 2 ^ (52 - m.log2) = m := by
    rw [Nat.sub_eq_zero_of_le h, Nat.pow_zero, Nat.mul_one]
  obtain ⟨hlow, hhigh⟩ := nearest_scaled_bounds hm
  rw [hscaled] at hlow hhigh
  rw [magnitudeOfRatio_one hm, hscaled, hplace, rounded]
  rcases hhigh.lt_or_eq with hlt | heq
  · rw [wholeOf_place hlow hlt, hspacing]
  · rw [heq, wholeOf_carry, hspacing]

/-- The integer part of an integer made binary. -/
lemma wholeOf_magnitude (m : Nat) : wholeOf (magnitudeOfRatio binary64 m 1) = rounded m := by
  rcases eq_or_ne m 0 with rfl | hm
  · decide +kernel
  · rcases Nat.le_total m.log2 52 with hsmall | hlarge
    · rw [wholeOf_magnitude_of_small hm hsmall, rounded, spacing_of_small hsmall, nearest_one,
        Nat.mul_one]
    · exact wholeOf_magnitude_of_large hm hlarge

/-- Integers of 64 bits are far from the largest finite value. -/
lemma magnitude_lt_finiteCount (hm : m < 2 ^ 64) :
    magnitudeOfRatio binary64 m 1 < binary64.finiteCount := by
  have hcount : binary64.finiteCount = 2 ^ 63 - 2 ^ 52 := by decide
  rcases eq_or_ne m 0 with rfl | hne
  · decide +kernel
  · have hlog : m.log2 < 64 := (Nat.log2_lt hne).mpr hm
    have hnearest := (nearest_scaled_bounds hne).2
    rw [magnitudeOfRatio_one hne, hcount]
    omega

end Magnitude

/-! ### Integers read back -/

/-- The integer that an integer becomes as a binary value of 64 bits. -/
def nearby (n : Int) : Int := n.sign * rounded n.natAbs

/-- An integer of 64 bits comes back from a binary value as its nearest multiple of the spacing. -/
theorem truncate?_ofInt {n : Int} (h : n.natAbs < 2 ^ 64) :
    (Value.ofInt n : Binary64).truncate? = some (nearby n) := by
  have hwhole : ((ratio binary64 (magnitudeOfRatio binary64 n.natAbs 1)).1 : Int)
      / (ratio binary64 (magnitudeOfRatio binary64 n.natAbs 1)).2 = rounded n.natAbs := by
    rw [← wholeOf_magnitude, wholeOf, Int.natCast_div]
  rw [Value.ofInt, Value.ofRatio, Value.ofMagnitude, dif_pos (magnitude_lt_finiteCount h),
    Value.truncate?]
  simp only [hwhole, nearby]
  rcases lt_trichotomy n 0 with hneg | rfl | hpos
  · simp [hneg, Int.sign_eq_neg_one_of_neg hneg]
  · decide +kernel
  · simp [hpos.not_gt, Int.sign_eq_one_of_pos hpos]

section Nearby

variable {n : Int}

lemma rounded_zero : rounded 0 = 0 := by decide

/-- What comes back is at most half a spacing away. -/
lemma two_mul_dist_nearby (n : Int) : 2 * (nearby n - n).natAbs ≤ spacing n.natAbs := by
  have hbounds := nearest_bounds (spacing_pos n.natAbs) n.natAbs
  rw [← rounded] at hbounds
  rcases lt_trichotomy n 0 with hneg | rfl | hpos
  · rw [nearby, Int.sign_eq_neg_one_of_neg hneg]
    omega
  · simp [nearby]
  · rw [nearby, Int.sign_eq_one_of_pos hpos]
    omega

lemma nearby_eq_iff_rounded : nearby n = n ↔ rounded n.natAbs = n.natAbs := by
  rw [nearby]
  rcases lt_trichotomy n 0 with hneg | rfl | hpos
  · rw [Int.sign_eq_neg_one_of_neg hneg]
    omega
  · simp [rounded_zero]
  · rw [Int.sign_eq_one_of_pos hpos]
    omega

lemma rounded_eq_iff {m : Nat} : rounded m = m ↔ ∃ k, m = k * spacing m := by
  constructor
  · intro h
    exact ⟨nearest m (spacing m), h.symm⟩
  · rintro ⟨k, hk⟩
    rw [rounded, nearest_of_multiple (spacing_pos m) hk, ← hk]

/-- The integers of at most 53 binary digits and zeros after them. -/
def IsShort (n : Int) : Prop := ∃ digits zeros, digits < 2 ^ 53 ∧ n.natAbs = digits * 2 ^ zeros

/-- An integer comes back as it is exactly if 53 binary digits are enough for it. -/
theorem nearby_eq_iff : nearby n = n ↔ IsShort n := by
  rw [nearby_eq_iff_rounded, rounded_eq_iff]
  constructor
  · rintro ⟨k, hk⟩
    have hlt : k * spacing n.natAbs < 2 ^ 53 * spacing n.natAbs := by
      rw [← hk]
      refine (Nat.lt_log2_self (n := n.natAbs)).trans_le ?_
      rw [spacing, ← Nat.pow_add]
      exact Nat.pow_le_pow_right (by decide) (by omega)
    exact ⟨k, n.natAbs.log2 - 52, Nat.lt_of_mul_lt_mul_right hlt, hk⟩
  · rintro ⟨digits, zeros, hdigits, habs⟩
    rcases eq_or_ne n.natAbs 0 with hzero | hne
    · exact ⟨0, by rw [hzero, Nat.zero_mul]⟩
    · -- with fewer zeros the digits would not reach the leading one
      have hzeros : n.natAbs.log2 - 52 ≤ zeros := by
        have hbelow : n.natAbs < 2 ^ (53 + zeros) := by
          rw [habs, Nat.pow_add]
          exact Nat.mul_lt_mul_of_pos_right hdigits (Nat.two_pow_pos zeros)
        have hlog := (Nat.log2_lt hne).mpr hbelow
        omega
      obtain ⟨k, hk⟩ := Nat.pow_dvd_pow 2 hzeros
      refine ⟨digits * k, ?_⟩
      rw [spacing, Nat.mul_assoc, Nat.mul_comm k, ← hk]
      exact habs

end Nearby

end TypedGraph.Binary
