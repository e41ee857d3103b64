import Mathlib
import TypedGraph.Search

/-!
# Insertion points

Where an insertion point lies. In any list, halving finds a position with a low element before it
and none at it (`low_of_partitionPoint`, `not_low_of_getElem?`), and no earlier one where more
elements are low (`partitionPoint_mono`). If the low elements come first, it finds what counting
from the head does (`partitionPoint_eq`), so in an ascending list both searches find exactly the
position of what the list holds (`position?_eq_some_iff`, `find?_eq_some_iff`).
-/

namespace TypedGraph.Search

variable {xs : List Int} {x y : Int} {p : Nat}

/-! ### Halving any list -/

section Halving

variable {α : Type} {as : List α} {a : α} {low low' : α → Bool} {isLow isLow' : Nat → Bool}
variable {base size stop i : Nat}

/-- Halving goes on in the upper half from a low middle, and in the lower half otherwise. -/
lemma halving (isLow : Nat → Bool) {motive : Nat → Nat → Prop}
    (one : ∀ base size, size ≤ 1 → motive base size)
    (upper : ∀ base size, 1 < size → isLow (base + size / 2) →
      motive (base + size / 2) (size - size / 2) → motive base size)
    (lower : ∀ base size, 1 < size → ¬ isLow (base + size / 2) →
      motive base (size - size / 2) → motive base size) (base size : Nat) : motive base size := by
  fun_induction settle isLow base size with
  | case1 base size hone => exact one base size hone
  | case2 base size hmany middle ih =>
    by_cases hlow : isLow middle
    · exact upper base size (not_le.mp hmany) hlow (by simpa [hlow] using ih)
    · exact lower base size (not_le.mp hmany) hlow (by simpa [hlow] using ih)

lemma settle_of_le (h : size ≤ 1) : settle isLow base size = base := by
  rw [settle, if_pos h]

lemma settle_of_low (hsize : 1 < size) (h : isLow (base + size / 2)) :
    settle isLow base size = settle isLow (base + size / 2) (size - size / 2) := by
  rw [settle.eq_def isLow base size, if_neg (not_le.mpr hsize)]
  simp [h]

lemma settle_of_not_low (hsize : 1 < size) (h : ¬ isLow (base + size / 2)) :
    settle isLow base size = settle isLow base (size - size / 2) := by
  rw [settle.eq_def isLow base size, if_neg (not_le.mpr hsize)]
  simp [h]

lemma le_settle : base ≤ settle isLow base size := by
  induction base, size using halving isLow with
  | one base size hone => rw [settle_of_le hone]
  | upper base size hmany hlow ih => rw [settle_of_low hmany hlow]; omega
  | lower base size hmany hlow ih => rwa [settle_of_not_low hmany hlow]

lemma settle_le : settle isLow base size ≤ base + (size - 1) := by
  induction base, size using halving isLow with
  | one base size hone => rw [settle_of_le hone]; omega
  | upper base size hmany hlow ih => rw [settle_of_low hmany hlow]; omega
  | lower base size hmany hlow ih => rw [settle_of_not_low hmany hlow]; omega

/-- The position that halving settles on is low, unless it is the first of all. -/
lemma isLow_settle (hbase : base = 0 ∨ isLow base) :
    settle isLow base size = 0 ∨ isLow (settle isLow base size) := by
  induction base, size using halving isLow with
  | one base size hone => rwa [settle_of_le hone]
  | upper base size hmany hlow ih => rw [settle_of_low hmany hlow]; exact ih (.inr hlow)
  | lower base size hmany hlow ih => rw [settle_of_not_low hmany hlow]; exact ih hbase

/-- The position after the one that halving settles on is not low, unless it is after the last. The
range that is left always ends at such a position, or one after it. -/
lemma not_isLow_settle {n : Nat} (hbase : base < stop) (hlow : base + size ≤ stop + 1)
    (hhigh : stop ≤ base + size) (hstop : stop = n ∧ stop = base + size ∨ ¬ isLow stop) :
    settle isLow base size + 1 = n ∨ ¬ isLow (settle isLow base size + 1) := by
  -- along the halvings; the invariant is that the end of the range has been tested, or is the end
  -- of the list
  induction base, size using halving isLow generalizing stop with
  | one base size hone =>
    obtain rfl : stop = base + 1 := by omega
    rw [settle_of_le hone]
    exact hstop.imp_left And.left
  | upper base size hmany hmiddle ih =>
    have hne : stop ≠ base + size / 2 := by
      rintro rfl
      rcases hstop with ⟨-, hend⟩ | hnot
      · omega
      · exact hnot hmiddle
    rw [settle_of_low hmany hmiddle]
    exact ih (by omega) (by omega) (by omega) (hstop.imp_left fun hend => ⟨hend.1, by omega⟩)
  | lower base size hmany hmiddle ih =>
    rw [settle_of_not_low hmany hmiddle]
    exact ih (by omega) (by omega) (by omega) (.inr hmiddle)

/-- Halving settles no earlier where more positions are low. -/
lemma settle_mono (h : ∀ i, isLow i → isLow' i) :
    settle isLow base size ≤ settle isLow' base size := by
  induction base, size using halving isLow with
  | one base size hone => rw [settle_of_le hone, settle_of_le hone]
  | upper base size hmany hlow ih => rwa [settle_of_low hmany hlow, settle_of_low hmany (h _ hlow)]
  | lower base size hmany hlow ih =>
    rw [settle_of_not_low hmany hlow]
    by_cases hlow' : isLow' (base + size / 2)
    -- the one search stays at or before the middle, from where the other one goes on
    · have hbefore : settle isLow base (size - size / 2) ≤ base + size / 2 :=
        settle_le.trans (by omega)
      rw [settle_of_low hmany hlow']
      exact hbefore.trans le_settle
    · rwa [settle_of_not_low hmany hlow']

lemma isLow_settle_zero (low : α → Bool) (as : List α) :
    settle (fun i => as[i]?.any low) 0 as.length = 0 ∨
      as[settle (fun i => as[i]?.any low) 0 as.length]?.any low := isLow_settle (.inl rfl)

lemma partitionPoint_eq_settle (low : α → Bool) (as : List α) : partitionPoint low as =
    let p := settle (fun i => as[i]?.any low) 0 as.length
    if as[p]?.any low then p + 1 else p := by
  have hcompare : (fun a => (if low a then Ordering.lt else .gt) != .gt) = low := by
    funext a
    cases low a <;> rfl
  simp only [partitionPoint, bisect, hcompare]
  cases as[settle (fun i => as[i]?.any low) 0 as.length]? with
  | none => rfl
  | some a => cases hlow : low a <;> simp [hlow]

/-- The element at a partition point is not low. -/
lemma not_low_of_getElem? (h : as[partitionPoint low as]? = some a) : ¬ low a := by
  have hlength : 0 < as.length := by
    refine Nat.pos_of_ne_zero fun hzero => ?_
    simp [List.length_eq_zero_iff.mp hzero] at h
  have hnext : settle (fun i => as[i]?.any low) 0 as.length + 1 = as.length ∨
      ¬ as[settle (fun i => as[i]?.any low) 0 as.length + 1]?.any low :=
    not_isLow_settle hlength (by omega) (by omega) (.inl ⟨rfl, (Nat.zero_add _).symm⟩)
  rw [partitionPoint_eq_settle] at h
  dsimp only at h
  split_ifs at h with hlow
  · rcases hnext with hend | hnot
    · rw [hend] at h
      simp at h
    · simpa [h] using hnot
  · simpa [h] using hlow

/-- The element before a partition point is low. -/
lemma low_of_partitionPoint (h : partitionPoint low as = i + 1) : ∃ a, as[i]? = some a ∧ low a := by
  rw [← Option.any_eq_true]
  have hlast := isLow_settle_zero low as
  rw [partitionPoint_eq_settle] at h
  dsimp only at h
  split_ifs at h with hlow
  · obtain rfl := Nat.succ.inj h
    exact hlow
  · rw [h] at hlast hlow
    exact absurd (hlast.resolve_left (Nat.succ_ne_zero i)) hlow

lemma partitionPoint_le_length : partitionPoint low as ≤ as.length := by
  have hle : settle (fun i => as[i]?.any low) 0 as.length ≤ 0 + (as.length - 1) := settle_le
  rw [partitionPoint_eq_settle]
  dsimp only
  split_ifs with hlow
  · obtain ⟨a, ha, -⟩ := Option.any_eq_true _ _ |>.mp hlow
    exact (List.getElem?_eq_some_iff.mp ha).1
  · omega

/-- A partition point comes before the end if the last element is not low. -/
lemma partitionPoint_lt_length (hlast : as.getLast? = some a) (h : ¬ low a) :
    partitionPoint low as < as.length := by
  refine partitionPoint_le_length.lt_of_ne fun heq => h ?_
  have hpos : as.length ≠ 0 := by
    rintro hzero
    simp [List.length_eq_zero_iff.mp hzero] at hlast
  obtain ⟨k, hk⟩ := Nat.exists_eq_succ_of_ne_zero hpos
  obtain ⟨b, hb, hlow⟩ := low_of_partitionPoint (heq.trans hk)
  rw [List.getLast?_eq_getElem?, hk, Nat.succ_sub_one, hb] at hlast
  exact Option.some.inj hlast ▸ hlow

/-- A partition point comes no earlier where more elements are low. -/
lemma partitionPoint_mono (h : ∀ a, low a → low' a) :
    partitionPoint low as ≤ partitionPoint low' as := by
  have hany : ∀ i : Nat, as[i]?.any low → as[i]?.any low' := by
    intro i hi
    obtain ⟨a, ha, hlow⟩ := Option.any_eq_true _ _ |>.mp hi
    exact Option.any_eq_true _ _ |>.mpr ⟨a, ha, h a hlow⟩
  have hle : settle (fun i => as[i]?.any low) 0 as.length
      ≤ settle (fun i => as[i]?.any low') 0 as.length := settle_mono hany
  rw [partitionPoint_eq_settle, partitionPoint_eq_settle]
  dsimp only
  split_ifs with hlow hlow'
  · omega
  -- the one that settles on a low position has gone further, if the other one has not
  · rcases hle.lt_or_eq with hlt | heq
    · exact hlt
    · exact absurd (heq ▸ hany _ hlow) hlow'
  · omega
  · exact hle

/-- Halving settles right before the partition point. -/
lemma settle_eq_pred (low : α → Bool) (as : List α) :
    settle (fun i => as[i]?.any low) 0 as.length = partitionPoint low as - 1 := by
  have hfirst := isLow_settle_zero low as
  rw [partitionPoint_eq_settle]
  dsimp only
  split_ifs with hlow
  · exact (Nat.add_sub_cancel _ 1).symm
  · rw [hfirst.resolve_right hlow]

end Halving

/-! ### Ascending lists -/

section Leading

variable {α : Type} {as : List α} {low : α → Bool} {i : Nat}

/-- Where the low elements come first, they are those before the first one that is not low. -/
lemma lt_length_takeWhile_iff (h : as.Pairwise fun a b => low b → low a) :
    i < (as.takeWhile low).length ↔ ∃ a, as[i]? = some a ∧ low a := by
  induction as generalizing i with
  | nil => simp
  -- once an element is not low, none after it is
  | cons a as ih =>
    obtain ⟨ha, has⟩ := List.pairwise_cons.mp h
    by_cases hlow : low a
    · cases i with
      | zero => simp [hlow]
      | succ i => simp [hlow, ih has]
    · have hnone : ∀ b ∈ as, ¬ low b := fun b hb hb' => hlow (ha b hb hb')
      cases i with
      | zero => simp [hlow]
      | succ i =>
        have hrest : ¬ ∃ b, as[i]? = some b ∧ low b := by
          rintro ⟨b, hb, hb'⟩
          exact hnone b (List.mem_of_getElem? hb) hb'
        simpa [hlow] using hrest

/-- Halving finds the first element that is not low. -/
lemma partitionPoint_eq (h : as.Pairwise fun a b => low b → low a) :
    partitionPoint low as = (as.takeWhile low).length := by
  apply le_antisymm
  · cases hp : partitionPoint low as with
    | zero => exact Nat.zero_le _
    | succ i => exact (lt_length_takeWhile_iff h).mpr (low_of_partitionPoint hp)
  · by_contra hlt
    obtain ⟨a, ha, hlow⟩ := (lt_length_takeWhile_iff h).mp (not_le.mp hlt)
    exact not_low_of_getElem? ha hlow

end Leading

lemma pairwise_below (hxs : xs.Pairwise (· < ·)) (x : Int) :
    xs.Pairwise fun a b => decide (b < x) → decide (a < x) := by
  refine hxs.imp fun {a b} hab hb => ?_
  simp only [decide_eq_true_eq] at hb ⊢
  exact hab.trans hb

lemma pairwise_notAbove (hxs : xs.Pairwise (· ≤ ·)) (x : Int) :
    xs.Pairwise fun a b => decide (b ≤ x) → decide (a ≤ x) := by
  refine hxs.imp fun {a b} hab hb => ?_
  simp only [decide_eq_true_eq] at hb ⊢
  exact hab.trans hb

/-- The elements before a position of an ascending list are exactly those below its element. -/
lemma lowerBound_eq (hxs : xs.Pairwise (· < ·)) (h : xs[p]? = some x) : lowerBound xs x = p := by
  obtain ⟨hp, rfl⟩ := List.getElem?_eq_some_iff.mp h
  refine eq_of_forall_lt_iff fun i => ?_
  rw [lowerBound, lt_length_takeWhile_iff (pairwise_below hxs _)]
  constructor
  · rintro ⟨y, hy, hlt⟩
    obtain ⟨hi, rfl⟩ := List.getElem?_eq_some_iff.mp hy
    exact hxs.sortedLT.getElem_lt_getElem_iff.mp (by simpa using hlt)
  · intro hip
    have hi : i < xs.length := hip.trans hp
    refine ⟨xs[i], List.getElem?_eq_getElem hi, ?_⟩
    simpa using hxs.sortedLT.getElem_lt_getElem_iff.mpr hip

lemma partitionPoint_lt_eq (hxs : xs.Pairwise (· < ·)) :
    partitionPoint (· < x) xs = lowerBound xs x := partitionPoint_eq (pairwise_below hxs x)

/-- The elements of an ascending list that are not above one of them are those up to it. -/
lemma partitionPoint_le_eq (hxs : xs.Pairwise (· < ·)) (h : xs[p]? = some x) :
    partitionPoint (· ≤ x) xs = p + 1 := by
  obtain ⟨hp, rfl⟩ := List.getElem?_eq_some_iff.mp h
  have hle := pairwise_notAbove (hxs.imp le_of_lt) xs[p]
  rw [partitionPoint_eq hle]
  refine eq_of_forall_lt_iff fun i => ?_
  rw [lt_length_takeWhile_iff hle, Nat.lt_succ_iff]
  constructor
  · rintro ⟨y, hy, hle⟩
    obtain ⟨hi, rfl⟩ := List.getElem?_eq_some_iff.mp hy
    exact hxs.sortedLT.getElem_le_getElem_iff.mp (by simpa using hle)
  · intro hip
    have hi : i < xs.length := hip.trans_lt hp
    refine ⟨xs[i], List.getElem?_eq_getElem hi, ?_⟩
    simpa using hxs.sortedLT.getElem_le_getElem_iff.mpr hip

/-! ### Positions -/

lemma getElem?_of_position? (h : position? xs x = some p) : xs[p]? = some x := by
  simp only [position?] at h
  split_ifs at h with hx
  obtain rfl : partitionPoint (· < x) xs = p := by simpa using h
  exact hx

lemma position?_eq_some_iff (hxs : xs.Pairwise (· < ·)) :
    position? xs x = some p ↔ xs[p]? = some x := by
  constructor
  · exact getElem?_of_position?
  · intro h
    have hp : partitionPoint (· < x) xs = p := by
      rw [partitionPoint_lt_eq hxs, lowerBound_eq hxs h]
    simp [position?, hp, h]

/-- A vertex that an ascending list lacks has no position, and one that it holds has. -/
lemma position?_isSome_iff (hxs : xs.Pairwise (· < ·)) : (position? xs x).isSome ↔ x ∈ xs := by
  rw [List.mem_iff_getElem?, Option.isSome_iff_exists]
  exact exists_congr fun p => position?_eq_some_iff hxs

lemma getElem?_of_find? (h : find? xs x = some p) : xs[p]? = some x := by
  simp only [find?, bisect] at h
  split at h
  case h_1 hequal =>
    obtain ⟨y, hy, hcompare⟩ := Option.map_eq_some_iff.mp hequal
    obtain rfl := compare_eq_iff_eq.mp hcompare
    obtain rfl := Option.some.inj h
    exact hy
  case h_2 => cases h
  case h_3 => cases h

lemma find?_eq_some_iff (hxs : xs.Pairwise (· < ·)) : find? xs x = some p ↔ xs[p]? = some x := by
  constructor
  · exact getElem?_of_find?
  · intro h
    have hnotAbove : (fun y => compare y x != .gt) = fun y => decide (y ≤ x) := by
      funext y
      rw [Bool.eq_iff_iff, bne_iff_ne, decide_eq_true_iff]
      exact compare_le_iff_le
    have hlast : settle (fun i => xs[i]?.any fun y => decide (y ≤ x)) 0 xs.length = p := by
      rw [settle_eq_pred, partitionPoint_le_eq hxs h, Nat.add_sub_cancel]
    have hequal : compare x x = .eq := compare_eq_iff_eq.mpr rfl
    simp only [find?, bisect, hnotAbove, hlast, h, Option.map_some, hequal]
    rfl

end TypedGraph.Search
