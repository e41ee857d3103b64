import TypedGraph.Proofs.FeatureRows
import TypedGraph.Proofs.FrameAppends
import TypedGraph.Proofs.JoinedTensors

/-!
# Frames as matrices

A frame of numbers becomes the matrix of its cells, row by row, in the common type of its columns
(`ofFrame_eq_ok_iff`); a column of strings is refused, and the first of them is named
(`ofFrame_eq_error_iff`). Taking rows of the frame is taking rows of the matrix, in any order and
with repeats (`ofFrame_commutes`).
-/

namespace TypedGraph

open Traversal

/-! ### Rows of a tensor -/

namespace Tensor

variable {t u : Tensor} {rows : List Nat}

/-- The elements of a row. -/
def row (t : Tensor) (r : Nat) : List Element :=
  (t.elements.drop (r * t.rowShape.prod)).take t.rowShape.prod

lemma getElem?_row (t : Tensor) (r c : Nat) :
    (t.row r)[c]? = if c < t.rowShape.prod then t.elements[r * t.rowShape.prod + c]? else none := by
  rw [row, List.getElem?_take]
  split_ifs
  · rw [List.getElem?_drop]
  · rfl

/-- A tensor has some rows of another one, in order. -/
structure Gathers (t : Tensor) (rows : List Nat) (u : Tensor) : Prop where
  dtype : u.dtype = t.dtype
  device : u.device = t.device
  shape : u.shape = rows.length :: t.rowShape
  length : u.elements.length = rows.length * t.rowShape.prod
  row : ∀ k r, rows[k]? = some r → u.row k = t.row r

end Tensor

namespace Frame

variable {f : Frame} {t u : Tensor} {rows : List Nat} {name : String}

/-! ### Columns of strings -/

/-- The first column of strings has this name. -/
def FirstText (f : Frame) (name : String) : Prop :=
  ∃ before texts after, f.columns = before ++ (name, .utf8 texts) :: after ∧
    ∀ c ∈ before, c.2.dtype? ≠ none

lemma firstText_iff :
    f.FirstText name ↔ (f.columns.find? fun c => c.2.dtype?.isNone).map (·.1) = some name := by
  have htexts : ∀ c : Column, c.dtype? = none ↔ ∃ texts, c = .utf8 texts := by
    intro c
    cases c <;> simp [Column.dtype?]
  have hnumbers : ∀ o : Option DType, (!o.isNone) = true ↔ o ≠ none := by
    intro o
    cases o <;> simp
  simp only [Option.map_eq_some_iff, List.find?_eq_some_iff_append, hnumbers,
    Option.isNone_iff_eq_none, htexts]
  constructor
  · rintro ⟨before, texts, after, hcolumns, hbefore⟩
    exact ⟨(name, .utf8 texts), ⟨⟨texts, rfl⟩, before, after, hcolumns, hbefore⟩, rfl⟩
  · rintro ⟨⟨_, _⟩, ⟨⟨texts, rfl⟩, before, after, hcolumns, hbefore⟩, rfl⟩
    exact ⟨before, texts, after, hcolumns, hbefore⟩

lemma exists_firstText_iff :
    (∃ name, f.FirstText name) ↔ ∃ c ∈ f.columns, c.2.dtype? = none := by
  simp only [firstText_iff, ← Option.isSome_iff_exists, Option.isSome_map, List.find?_isSome,
    Option.isNone_iff_eq_none]

lemma firstText_pick_iff : (f.pick rows).FirstText name ↔ f.FirstText name := by
  rw [firstText_iff, firstText_iff, pick, List.find?_map, Option.map_map]
  simp only [Function.comp_def, Column.dtype?_pick]

lemma ofFrame_of_firstText (h : f.FirstText name) :
    Tensor.ofFrame f = .error (.nonNumericColumn name) := by
  obtain ⟨c, hc, rfl⟩ := Option.map_eq_some_iff.mp (firstText_iff.mp h)
  rw [Tensor.ofFrame, Tensor.dataOfFrame, hc]
  rfl

/-! ### Matrices -/

/-- A tensor holds the cells of a frame row by row, in the common type of its columns. -/
structure IsMatrix (f : Frame) (t : Tensor) : Prop where
  dtype : t.dtype = f.elementType
  device : t.device = .cpu
  shape : t.shape = [f.rows, f.columns.length]
  length : t.elements.length = f.rows * f.columns.length
  cells : ∀ r c column, r < f.rows → f.columns[c]? = some column →
    ∃ cell, column.2.element? r = some cell ∧
      t.elements[r * f.columns.length + c]? = some (cell.promote f.elementType)

lemma IsMatrix.unique (h : f.IsMatrix t) (h' : f.IsMatrix u) : t = u := by
  apply Tensor.eq_of_elements
  · rw [h.dtype, h'.dtype]
  · rw [h.shape, h'.shape]
  · rw [h.device, h'.device]
  refine List.ext_getElem? fun i => ?_
  by_cases hi : i < f.rows * f.columns.length
  · have hpos : 0 < f.columns.length := by
      refine Nat.pos_of_ne_zero fun hzero => ?_
      simp [hzero] at hi
    have hr : i / f.columns.length < f.rows := Nat.div_lt_of_lt_mul (by rwa [Nat.mul_comm])
    -- the place of a cell gives its row and its column back
    have hplace : i = i / f.columns.length * f.columns.length + i % f.columns.length :=
      (Nat.div_add_mod' i _).symm
    have hcolumn := List.getElem?_eq_getElem (Nat.mod_lt i hpos)
    obtain ⟨cell, hcell, ht⟩ := h.cells _ _ _ hr hcolumn
    obtain ⟨cell', hcell', hu⟩ := h'.cells _ _ _ hr hcolumn
    obtain rfl := Option.some.inj (hcell.symm.trans hcell')
    rw [hplace, ht, hu]
  · rw [List.getElem?_eq_none (by rw [h.length]; omega),
      List.getElem?_eq_none (by rw [h'.length]; omega)]

lemma device_of_ofFrame (h : Tensor.ofFrame f = .ok t) : t.device = .cpu := by
  obtain ⟨data, -, rfl⟩ := map_eq_ok_iff.mp h
  rfl

/-- A level frame of numbers becomes its matrix. -/
lemma exists_matrix (hf : f.Level) (hne : f.columns ≠ []) (hnumeric : f.IsNumeric) :
    ∃ t, Tensor.ofFrame f = .ok t ∧ f.IsMatrix t := by
  obtain ⟨t, ht, hshape, hdtype, helements⟩ := ofFrame_eq_ok hf hne hnumeric
  refine ⟨t, ht, hdtype, device_of_ofFrame ht, hshape, ?_, ?_⟩
  · simpa [Tensor.elements] using congrArg List.length helements
  · intro r c column hr hc
    have hrow : (List.range f.rows)[r]? = some r := by simp [hr]
    have hplace := getElem?_flatMap_map
      (g := fun r c => (c.2.element? r).map (·.promote f.elementType)) hrow hc
    rw [← helements, List.getElem?_map] at hplace
    obtain ⟨x, hx, heq⟩ := Option.map_eq_some_iff.mp hplace
    obtain ⟨cell, hcell, rfl⟩ := Option.map_eq_some_iff.mp heq.symm
    exact ⟨cell, hcell, hx⟩

lemma ofFrame_eq_ok_iff (hf : f.Level) (hne : f.columns ≠ []) :
    Tensor.ofFrame f = .ok t ↔ f.IsNumeric ∧ f.IsMatrix t := by
  constructor
  · intro h
    have hnumeric := isNumeric_of_ofFrame h
    obtain ⟨u, hu, hmatrix⟩ := exists_matrix hf hne hnumeric
    obtain rfl := Except.ok.inj (h.symm.trans hu)
    exact ⟨hnumeric, hmatrix⟩
  · rintro ⟨hnumeric, h⟩
    obtain ⟨u, hu, hmatrix⟩ := exists_matrix hf hne hnumeric
    rw [hu, h.unique hmatrix]

lemma ofFrame_eq_error_iff (hf : f.Level) (hne : f.columns ≠ []) {e : TensorError} :
    Tensor.ofFrame f = .error e ↔ ∃ name, f.FirstText name ∧ e = .nonNumericColumn name := by
  constructor
  · intro h
    by_cases hnumeric : f.IsNumeric
    · obtain ⟨t, ht, -⟩ := exists_matrix hf hne hnumeric
      simp [ht] at h
    · obtain ⟨name, hname⟩ := exists_firstText_iff.mpr (by simpa [IsNumeric] using hnumeric)
      rw [ofFrame_of_firstText hname] at h
      exact ⟨name, hname, (Except.error.inj h).symm⟩
  · rintro ⟨name, hname, rfl⟩
    exact ofFrame_of_firstText hname

/-! ### Taking rows -/

lemma IsMatrix.prod_rowShape (h : f.IsMatrix t) : t.rowShape.prod = f.columns.length := by
  simp [Tensor.rowShape, h.shape]

/-- A row of the matrix holds the cells of the row of the frame. -/
lemma IsMatrix.map_row (h : f.IsMatrix t) {r : Nat} (hr : r < f.rows) :
    (t.row r).map some
      = f.columns.map fun c => (c.2.element? r).map (·.promote f.elementType) := by
  refine List.ext_getElem? fun c => ?_
  rw [List.getElem?_map, List.getElem?_map, Tensor.getElem?_row, h.prod_rowShape]
  cases hcolumn : f.columns[c]? with
  | none => rw [if_neg (by simpa using hcolumn)]; rfl
  | some column =>
    obtain ⟨cell, hcell, hx⟩ := h.cells r c column hr hcolumn
    rw [if_pos (List.getElem?_eq_some_iff.mp hcolumn).1, hx]
    simp [hcell]

lemma rows_pick (hf : f.Level) (hne : f.columns ≠ []) (hrows : ∀ row ∈ rows, row < f.rows) :
    (f.pick rows).rows = rows.length :=
  rows_of_even (even_pick hf hrows) (by simpa [pick] using hne)

/-- The matrix of the rows that are taken has these rows of the matrix. -/
lemma gathers_of_isMatrix (hf : f.Level) (hne : f.columns ≠ [])
    (hrows : ∀ row ∈ rows, row < f.rows) (ht : f.IsMatrix t) (hu : (f.pick rows).IsMatrix u) :
    t.Gathers rows u := by
  have hcount : (f.pick rows).rows = rows.length := rows_pick hf hne hrows
  have hwidth : (f.pick rows).columns.length = f.columns.length := List.length_map _
  refine ⟨?_, ?_, ?_, ?_, ?_⟩
  · rw [hu.dtype, ht.dtype, elementType_pick]
  · rw [hu.device, ht.device]
  · rw [hu.shape, hcount, hwidth, Tensor.rowShape, ht.shape]
    rfl
  · rw [hu.length, hcount, hwidth, ht.prod_rowShape]
  · intro k r hk
    have hlt : k < (f.pick rows).rows := hcount ▸ (List.getElem?_eq_some_iff.mp hk).1
    have hmap : (u.row k).map some = (t.row r).map some := by
      rw [hu.map_row hlt, ht.map_row (hrows r (List.mem_of_getElem? hk)), elementType_pick, pick,
        List.map_map]
      refine List.map_congr_left fun c hc => ?_
      have hcolumn : ∀ row ∈ rows, row < c.2.length := by rwa [hf c hc]
      simp [Column.element?_pick hcolumn, hk]
    exact List.map_injective_iff.mpr (Option.some_injective _) hmap

/-- What the tensor of a frame tells of it. -/
structure MatrixLaw (f : Frame) : Prop where
  fails_iff : (∃ e, Tensor.ofFrame f = .error e) ↔ ∃ c ∈ f.columns, c.2.dtype? = none
  error_iff : ∀ e, Tensor.ofFrame f = .error e ↔
    ∃ name, f.FirstText name ∧ e = .nonNumericColumn name
  ok_iff : ∀ t, Tensor.ofFrame f = .ok t ↔ f.IsNumeric ∧ f.IsMatrix t
  /-- Rows can be taken before or after, with the same outcome. -/
  take : ∀ rows, (∀ row ∈ rows, row < f.rows) → ∃ g, f.take rows = .ok g ∧
    (∀ e, Tensor.ofFrame g = .error e ↔ Tensor.ofFrame f = .error e) ∧
    ∀ t, Tensor.ofFrame f = .ok t → ∃ u, Tensor.ofFrame g = .ok u ∧ t.Gathers rows u

/-- A frame becomes the matrix of its cells, and taking rows commutes with that. -/
theorem ofFrame_commutes (hf : f.Level) (hne : f.columns ≠ []) : f.MatrixLaw where
  fails_iff := by
    simp only [ofFrame_eq_error_iff hf hne, ← exists_firstText_iff]
    constructor
    · rintro ⟨-, name, hname, -⟩
      exact ⟨name, hname⟩
    · rintro ⟨name, hname⟩
      exact ⟨_, name, hname, rfl⟩
  error_iff e := ofFrame_eq_error_iff hf hne
  ok_iff t := ofFrame_eq_ok_iff hf hne
  take rows hrows := by
    have hlevel : (f.pick rows).Level := (even_pick hf hrows).level
    have hcolumns : (f.pick rows).columns ≠ [] := by simpa [pick] using hne
    refine ⟨f.pick rows, take_eq_pick hf hrows, fun e => ?_, fun t ht => ?_⟩
    · simp only [ofFrame_eq_error_iff hf hne, ofFrame_eq_error_iff hlevel hcolumns,
        firstText_pick_iff]
    · obtain ⟨hnumeric, hmatrix⟩ := (ofFrame_eq_ok_iff hf hne).mp ht
      obtain ⟨u, hu, hmatrix'⟩ :=
        exists_matrix hlevel hcolumns (isNumeric_pick_iff.mpr hnumeric)
      exact ⟨u, hu, gathers_of_isMatrix hf hne hrows hmatrix hmatrix'⟩

/-- Two readings of two sensors under one name, one of them in whole numbers. -/
def readings : Frame := ⟨[("level", .int64 [3, -1]), ("level", .float64 [.nan, .ofInt 7])]⟩

/-- Taking the second reading twice and then the first one takes these rows of the matrix. -/
theorem ofFrame_commutes_readings :
    readings.Level ∧ readings.columns ≠ [] ∧ ∃ t g u, Tensor.ofFrame readings = .ok t ∧
      readings.IsMatrix t ∧ readings.take [1, 1, 0] = .ok g ∧ Tensor.ofFrame g = .ok u ∧
      t.Gathers [1, 1, 0] u ∧
      u.data = .float64 [.ofInt (-1), .ofInt 7, .ofInt (-1), .ofInt 7, .ofInt 3, .nan] := by
  have hlevel : readings.Level := by decide
  have hne : readings.columns ≠ [] := by decide
  have hlaw := ofFrame_commutes hlevel hne
  obtain ⟨g, hg, -, hgather⟩ := hlaw.take [1, 1, 0] (by decide)
  have ht : Tensor.ofFrame readings = _ := eq_ok_get (by decide +kernel)
  obtain ⟨u, hu, hgathers⟩ := hgather _ ht
  refine ⟨hlevel, hne, _, g, u, ht, ((hlaw.ok_iff _).mp ht).2, hg, hu, hgathers, ?_⟩
  have hrun : ((readings.take [1, 1, 0]).toOption.bind fun g =>
      (Tensor.ofFrame g).toOption.map (·.data))
      = some (.float64 [.ofInt (-1), .ofInt 7, .ofInt (-1), .ofInt 7, .ofInt 3, .nan]) := by
    decide +kernel
  simpa [hg, hu, Except.toOption] using hrun

end Frame

end TypedGraph
