import TypedGraph.Proofs.Elements

/-!
# Shapes and elements

A tensor is built if the product of its sizes is the number of its elements. The sizes are
multiplied up one by one, which fails where a word of 64 bits does not hold a product on the way,
even if a size of zero follows (`shapeCount_of_overflows`). The multi-indices within a shape are in
row-major order the places below the product (`rowMajor_bijOn`), so a tensor that is built has one
element for each multi-index within its shape, and no other (`make?_shapeLaw`).
-/

namespace TypedGraph.Tensor

open Traversal

variable {shape index index' : List Nat} {n : Nat}
variable {data : TensorData} {device : Device} {t : Tensor}

/-! ### Places in row-major order -/

/-- A multi-index within a shape has a position below each size. -/
def IsWithin (index shape : List Nat) : Prop := List.Forall₂ (· < ·) index shape

/-- The place of a multi-index in row-major order, where the last position runs fastest. -/
def rowMajor : (shape index : List Nat) → Nat
  | _ :: shape, i :: index => i * shape.prod + rowMajor shape index
  | _, _ => 0

/-- The element at a multi-index. -/
def at? (t : Tensor) (index : List Nat) : Option Element := t.elements[rowMajor t.shape index]?

lemma rowMajor_lt (h : IsWithin index shape) : rowMajor shape index < shape.prod := by
  induction h with
  | nil => simp [rowMajor]
  | @cons i size index shape hi _ ih =>
    calc i * shape.prod + rowMajor shape index
        < i * shape.prod + shape.prod := by omega
      _ = (i + 1) * shape.prod := by ring
      _ ≤ size * shape.prod := Nat.mul_le_mul_right _ hi
      _ = (size :: shape).prod := List.prod_cons.symm

lemma exists_rowMajor (h : n < shape.prod) :
    ∃ index, IsWithin index shape ∧ rowMajor shape index = n := by
  induction shape generalizing n with
  | nil => exact ⟨[], .nil, by simpa [rowMajor, eq_comm] using h⟩
  | cons size shape ih =>
    rw [List.prod_cons] at h
    have hpos : 0 < shape.prod := by
      refine Nat.pos_of_ne_zero fun hzero => ?_
      simp [hzero] at h
    obtain ⟨index, hindex, hplace⟩ := ih (Nat.mod_lt n hpos)
    have hfirst : n / shape.prod < size := Nat.div_lt_of_lt_mul (by rwa [Nat.mul_comm])
    refine ⟨n / shape.prod :: index, .cons hfirst hindex, ?_⟩
    rw [rowMajor, hplace, Nat.div_add_mod']

/-- The order of the places is the lexicographic order of the multi-indices. -/
lemma rowMajor_lt_iff (h : IsWithin index shape) (h' : IsWithin index' shape) :
    rowMajor shape index < rowMajor shape index' ↔ index < index' := by
  induction h generalizing index' with
  | nil =>
    cases h'
    simp
  | @cons i size index shape hi hindex ih =>
    obtain ⟨j, rest, hj, hrest, rfl⟩ := List.forall₂_cons_right_iff.mp h'
    have hlt := rowMajor_lt hindex
    have hlt' := rowMajor_lt hrest
    rw [List.cons_lt_cons_iff, ← ih hrest, rowMajor, rowMajor]
    rcases lt_trichotomy i j with hij | rfl | hij
    · -- a smaller leading index stays below, wherever the rest of the other one points
      have hle : (i + 1) * shape.prod ≤ j * shape.prod := Nat.mul_le_mul_right _ hij
      rw [Nat.add_mul] at hle
      simp only [hij, true_or, iff_true]
      omega
    · simp
    · have hle : (j + 1) * shape.prod ≤ i * shape.prod := Nat.mul_le_mul_right _ hij
      rw [Nat.add_mul] at hle
      simp only [hij.not_gt, hij.ne', false_and, or_false, iff_false]
      omega

/-- The multi-indices within a shape are told by their places, one for each number below the product
of the sizes. -/
lemma rowMajor_bijOn (shape : List Nat) :
    Set.BijOn (rowMajor shape) {index | IsWithin index shape} (Set.Iio shape.prod) := by
  refine ⟨fun index h => rowMajor_lt h, fun index h index' h' heq => ?_, fun n h => ?_⟩
  · apply le_antisymm <;> rw [← not_lt]
    · rw [← rowMajor_lt_iff h' h, heq]
      exact lt_irrefl _
    · rw [← rowMajor_lt_iff h h', heq]
      exact lt_irrefl _
  · obtain ⟨index, hindex, hplace⟩ := exists_rowMajor h
    exact ⟨index, hindex, hplace⟩

/-! ### Multiplying sizes -/

/-- The product of the first sizes of a shape, some or all, is beyond what a word holds. -/
def Overflows (shape : List Nat) : Prop := ∃ k, sizeLimit ≤ (shape.take k).prod

lemma not_overflows_iff : ¬ Overflows shape ↔ ∀ k, (shape.take k).prod < sizeLimit := by
  simp [Overflows]

/-- Checking each product is checking them all at once. -/
lemma multiplied_of_fits (h : ∀ k, n * (shape.take k).prod < sizeLimit) :
    shape.foldlM (fun n size => checkSize (n * size)) n = .ok (n * shape.prod) := by
  induction shape generalizing n with
  | nil => simp [pure, Except.pure]
  | cons size shape ih =>
    have hfirst : n * size < sizeLimit := by simpa using h 1
    have hlater : ∀ k, n * size * (shape.take k).prod < sizeLimit := by
      intro k
      simpa [Nat.mul_assoc] using h (k + 1)
    rw [List.foldlM_cons, checkSize_of_lt hfirst, ok_bind, ih hlater, List.prod_cons,
      Nat.mul_assoc]

lemma multiplied_of_exceeds (hn : n < sizeLimit) (h : ∃ k, sizeLimit ≤ n * (shape.take k).prod) :
    shape.foldlM (fun n size => checkSize (n * size)) n = .error .sizeOverflow := by
  induction shape generalizing n with
  | nil =>
    obtain ⟨k, hk⟩ := h
    simp only [List.take_nil, List.prod_nil, Nat.mul_one] at hk
    exact absurd hn (Nat.not_lt.mpr hk)
  | cons size shape ih =>
    rw [List.foldlM_cons]
    by_cases hfirst : n * size < sizeLimit
    · obtain ⟨k, hk⟩ := h
      cases k with
      | zero => simp at hk; omega
      | succ k =>
        rw [List.take_succ_cons, List.prod_cons, ← Nat.mul_assoc] at hk
        rw [checkSize_of_lt hfirst, ok_bind, ih hfirst ⟨k, hk⟩]
    · rw [checkSize_of_le (Nat.not_lt.mp hfirst), error_bind]

lemma shapeCount_of_fits (h : ¬ Overflows shape) : shapeCount shape = .ok shape.prod := by
  rw [shapeCount, multiplied_of_fits (by simpa using not_overflows_iff.mp h), Nat.one_mul]

lemma shapeCount_of_overflows (h : Overflows shape) : shapeCount shape = .error .sizeOverflow :=
  multiplied_of_exceeds (by decide) (by simpa [Overflows] using h)

/-- Sizes other than zero overflow only if all of them do. -/
lemma not_overflows_of_pos (hpos : 0 < shape.prod) (hlt : shape.prod < sizeLimit) :
    ¬ Overflows shape := by
  rw [not_overflows_iff]
  intro k
  have hdvd : (shape.take k).prod ∣ shape.prod := (List.take_sublist k shape).prod_dvd_prod
  exact (Nat.le_of_dvd hpos hdvd).trans_lt hlt

/-! ### Building -/

lemma make?_of_fits (h : ¬ Overflows shape) : make? data shape device
    = .ok (if shape.prod = data.length then some ⟨data, shape, device⟩ else none) := by
  rw [make?, shapeCount_of_fits h]
  rfl

lemma make?_of_overflows (h : Overflows shape) :
    make? data shape device = .error .sizeOverflow := by
  rw [make?, shapeCount_of_overflows h]
  rfl

lemma make?_eq_some_iff : make? data shape device = .ok (some t) ↔
    ¬ Overflows shape ∧ shape.prod = data.length ∧ t = ⟨data, shape, device⟩ := by
  by_cases h : Overflows shape
  · simp [make?_of_overflows h, h]
  · rw [make?_of_fits h]
    split_ifs with hcount <;> simp [h, hcount, eq_comm]

lemma make?_eq_none_iff : make? data shape device = .ok none ↔
    ¬ Overflows shape ∧ shape.prod ≠ data.length := by
  by_cases h : Overflows shape
  · simp [make?_of_overflows h, h]
  · rw [make?_of_fits h]
    split_ifs with hcount <;> simp [h, hcount]

lemma make?_eq_error_iff {e : TensorError} :
    make? data shape device = .error e ↔ Overflows shape ∧ e = .sizeOverflow := by
  by_cases h : Overflows shape
  · simp [make?_of_overflows h, h, eq_comm]
  · simp [make?_of_fits h, h]

/-- A multi-index within the shape addresses an element. -/
lemma exists_at? (ht : t.shape.prod = t.data.length) (hindex : IsWithin index t.shape) :
    ∃ e, t.at? index = some e := by
  have hlt : rowMajor t.shape index < t.elements.length := by
    rw [elements, TensorData.length_elements, ← ht]
    exact rowMajor_lt hindex
  exact ⟨_, List.getElem?_eq_getElem hlt⟩

/-- What building a tensor of some elements in a shape comes to. -/
structure ShapeLaw (data : TensorData) (shape : List Nat) (device : Device) : Prop where
  made_iff : ∀ t, make? data shape device = .ok (some t) ↔
    ¬ Overflows shape ∧ shape.prod = data.length ∧ t = ⟨data, shape, device⟩
  refused_iff : make? data shape device = .ok none ↔ ¬ Overflows shape ∧ shape.prod ≠ data.length
  fails_iff : ∀ e, make? data shape device = .error e ↔ Overflows shape ∧ e = .sizeOverflow
  /-- A shape that asks for as many elements as there are overflows only if there are none. -/
  empty : Overflows shape → shape.prod = data.length → data.length < sizeLimit → data.length = 0
  addressed : ∀ t, make? data shape device = .ok (some t) →
    ∀ index, IsWithin index t.shape → ∃ e, t.at? index = some e
  /-- Every element is that of one multi-index, in row-major order. -/
  places : ∀ t, make? data shape device = .ok (some t) →
    Set.BijOn (rowMajor t.shape) {index | IsWithin index t.shape} (Set.Iio t.data.length)

/-- A tensor is built exactly if the product of the sizes is the number of the elements and no
product on the way overflows, and then the multi-indices within its shape address its elements. -/
theorem make?_shapeLaw (data : TensorData) (shape : List Nat) (device : Device) :
    ShapeLaw data shape device where
  made_iff _ := make?_eq_some_iff
  refused_iff := make?_eq_none_iff
  fails_iff _ := make?_eq_error_iff
  empty hover hcount hlt := by
    by_contra hne
    have hpos : 0 < shape.prod := hcount ▸ Nat.pos_of_ne_zero hne
    exact not_overflows_of_pos hpos (hcount ▸ hlt) hover
  addressed t ht index hindex := by
    obtain ⟨-, hcount, rfl⟩ := make?_eq_some_iff.mp ht
    exact exists_at? hcount hindex
  places t ht := by
    obtain ⟨-, hcount, rfl⟩ := make?_eq_some_iff.mp ht
    exact hcount ▸ rowMajor_bijOn shape

/-- Two sizes that no word holds the product of fail, rather than being refused; and so they do
before a size of zero, where the shape asks for no elements and there are none. -/
theorem make?_overflows :
    make? (.int64 []) [4294967296, 4294967296] .cpu = .error .sizeOverflow ∧
      [4294967296, 4294967296].prod ≠ (TensorData.int64 []).length ∧
      make? (.int64 []) [4294967296, 4294967296, 0] .cpu = .error .sizeOverflow ∧
      [4294967296, 4294967296, 0].prod = (TensorData.int64 []).length := by
  decide

end TypedGraph.Tensor
