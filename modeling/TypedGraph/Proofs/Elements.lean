import TypedGraph.Proofs.Frames
import TypedGraph.Tensor.Build

/-!
# Tensors by their elements

An element of a column or a tensor on its own, and what the operations do to each. Changing the
element type of a tensor changes its elements one by one (`elements_castTo`). A frame becomes a
tensor exactly if its columns are numeric, and then the elements are its cells row by row
(`ofFrame_eq_ok`).
-/

namespace TypedGraph

open Traversal

/-! ### Elements -/

/-- An element of a column or a tensor. -/
inductive Element where
  | int (n : Int)
  | binary32 (x : Binary32)
  | binary64 (x : Binary64)

namespace Element

/-- The element as an element of an integer type. -/
def fit (t : DType) : Element → Except TensorError Int
  | int n => t.fitInt n
  | binary32 x => t.fitBinary x.convert
  | binary64 x => t.fitBinary x

def toBinary32 : Element → Binary32
  | int n => .ofInt n
  | binary32 x => x
  | binary64 x => x.convert

def toBinary64 : Element → Binary64
  | int n => .ofInt n
  | binary32 x => x.convert
  | binary64 x => x

/-- The element as a signed 64-bit integer: fractions are cut off and large values held back. -/
def toInt : Element → Int
  | int n => n
  | binary32 x => x.clamp (-0x8000000000000000) 0x7FFFFFFFFFFFFFFF
  | binary64 x => x.clamp (-0x8000000000000000) 0x7FFFFFFFFFFFFFFF

/-- The element in another element type. -/
def convert (e : Element) : DType → Except TensorError Element
  | .int32 => int <$> e.fit .int32
  | .int64 => int <$> e.fit .int64
  | .float32 => .ok (binary32 e.toBinary32)
  | .float64 => .ok (binary64 e.toBinary64)

/-- The element of one type in the type that is asked for, if any; in its own type it is left as
it is. -/
def castTo (own : DType) (asked : Option DType) (e : Element) : Except TensorError Element :=
  match asked with
  | none => .ok e
  | some t => if own = t then .ok e else e.convert t

/-- A cell among columns whose elements have a common type: binary if that type is. -/
def promote (common : DType) (e : Element) : Element :=
  if common = .float64 then binary64 e.toBinary64 else e

end Element

/-! ### Elements of tensors -/

namespace TensorData

def elements : TensorData → List Element
  | int32 xs | int64 xs => xs.map .int
  | float32 xs => xs.map .binary32
  | float64 xs => xs.map .binary64

lemma length_elements (d : TensorData) : d.elements.length = d.length := by
  cases d <;> simp [elements, length]

lemma ext_elements {d d' : TensorData} (htype : d.dtype = d'.dtype)
    (helements : d.elements = d'.elements) : d = d' := by
  have hint : Function.Injective Element.int := fun _ _ h => Element.int.inj h
  have hnarrow : Function.Injective Element.binary32 := fun _ _ h => Element.binary32.inj h
  have hwide : Function.Injective Element.binary64 := fun _ _ h => Element.binary64.inj h
  cases d <;> cases d' <;> simp [dtype] at htype
  · rw [List.map_injective_iff.mpr hint helements]
  · rw [List.map_injective_iff.mpr hint helements]
  · rw [List.map_injective_iff.mpr hnarrow helements]
  · rw [List.map_injective_iff.mpr hwide helements]

lemma toInts_eq (d : TensorData) : d.toInts = d.elements.map Element.toInt := by
  cases d <;> simp [toInts, elements, Element.toInt, Function.comp_def]

lemma toIntType_eq (d : TensorData) (t : DType) :
    d.toIntType t = d.elements.mapM (Element.fit t) := by
  cases d <;> rw [elements, List.mapM_map] <;> rfl

lemma toBinary32_eq (d : TensorData) : d.toBinary32 = d.elements.map Element.toBinary32 := by
  cases d <;> simp [toBinary32, elements, Element.toBinary32, Function.comp_def]

lemma toBinaries_eq (d : TensorData) : d.toBinaries = d.elements.map Element.toBinary64 := by
  cases d <;> simp [toBinaries, elements, Element.toBinary64, Function.comp_def]

/-- Changing the element type changes the elements one by one. -/
lemma elements_cast (d : TensorData) (t : DType) :
    elements <$> d.cast t = d.elements.mapM (·.convert t) := by
  cases t with
  | int32 =>
    have hmap := mapM_map_eq Element.int (f := Element.fit .int32) d.elements
    rw [← toIntType_eq] at hmap
    show elements <$> int32 <$> d.toIntType .int32 = d.elements.mapM fun e => _
    rw [Functor.map_map]
    exact hmap.symm
  | int64 =>
    have hmap := mapM_map_eq Element.int (f := Element.fit .int64) d.elements
    rw [← toIntType_eq] at hmap
    show elements <$> int64 <$> d.toIntType .int64 = d.elements.mapM fun e => _
    rw [Functor.map_map]
    exact hmap.symm
  | float32 =>
    rw [cast, toBinary32_eq, map_ok, elements, List.map_map]
    exact (mapM_eq_ok_map fun _ _ => rfl).symm
  | float64 =>
    rw [cast, toBinaries_eq, map_ok, elements, List.map_map]
    exact (mapM_eq_ok_map fun _ _ => rfl).symm

lemma dtype_of_cast {d d' : TensorData} {t : DType} (h : d.cast t = .ok d') : d'.dtype = t := by
  cases t with
  | int32 =>
    obtain ⟨_, -, rfl⟩ := map_eq_ok_iff.mp h
    rfl
  | int64 =>
    obtain ⟨_, -, rfl⟩ := map_eq_ok_iff.mp h
    rfl
  | float32 => exact Except.ok.inj h ▸ rfl
  | float64 => exact Except.ok.inj h ▸ rfl

end TensorData

namespace Tensor

def elements (t : Tensor) : List Element := t.data.elements

lemma eq_of_elements {t u : Tensor} (hdtype : t.dtype = u.dtype) (hshape : t.shape = u.shape)
    (hdevice : t.device = u.device) (helements : t.elements = u.elements) : t = u := by
  have hdata : t.data = u.data := TensorData.ext_elements hdtype helements
  cases t
  cases u
  simp_all

/-- The tensor in the element type that is asked for, if any. -/
def castTo (t : Tensor) : Option DType → Except TensorError Tensor
  | none => .ok t
  | some dtype => t.cast dtype

/-- A tensor is changed to an element type exactly if all its elements are. -/
lemma elements_castTo (t : Tensor) (asked : Option DType) :
    (·.data.elements) <$> t.castTo asked = t.data.elements.mapM (·.castTo t.dtype asked) := by
  have hkept : t.data.elements.mapM (Except.ok (ε := TensorError)) = .ok t.data.elements :=
    (mapM_eq_ok_map (g := id) fun _ _ => rfl).trans (by rw [List.map_id])
  cases asked with
  | none => exact hkept.symm
  | some dtype =>
    simp only [castTo, cast, Element.castTo]
    split_ifs
    · exact hkept.symm
    · rw [Functor.map_map]
      exact t.data.elements_cast dtype

lemma shape_and_dtype_of_castTo {t t' : Tensor} {asked : Option DType}
    (h : t.castTo asked = .ok t') :
    t'.shape = t.shape ∧ t'.dtype = asked.getD t.dtype := by
  cases asked with
  | none =>
    obtain rfl := Except.ok.inj h
    exact ⟨rfl, rfl⟩
  | some dtype =>
    rw [castTo, cast] at h
    split_ifs at h with hsame
    · obtain rfl := Except.ok.inj h
      exact ⟨rfl, hsame⟩
    · obtain ⟨data, hdata, rfl⟩ := map_eq_ok_iff.mp h
      exact ⟨rfl, TensorData.dtype_of_cast hdata⟩

end Tensor

/-! ### Elements of frames -/

namespace Column

/-- The cell of a numeric column at a row. -/
def element? : Column → Nat → Option Element
  | int64 cs, row => cs[row]?.map .int
  | float64 cs, row => cs[row]?.map .binary64
  | utf8 _, _ => none

@[simp] lemma dtype?_pick (c : Column) (rows : List Nat) : (c.pick rows).dtype? = c.dtype? := by
  cases c <;> rfl

lemma element?_pick {c : Column} {rows : List Nat} (h : ∀ row ∈ rows, row < c.length) (i : Nat) :
    (c.pick rows).element? i = rows[i]?.bind c.element? := by
  cases c with
  | int64 cs =>
    rw [pick, element?, getElem?_pick h]
    cases rows[i]? <;> rfl
  | float64 cs =>
    rw [pick, element?, getElem?_pick h]
    cases rows[i]? <;> rfl
  | utf8 cs => cases rows[i]? <;> rfl

/-- A numeric column can be read as binary values. -/
lemma binaries?_reads {c : Column} (h : c.dtype? ≠ none) :
    ∃ xs, c.binaries? = some xs ∧ xs.length = c.length ∧
      ∀ row, xs[row]?.map .binary64 = (c.element? row).map (·.promote .float64) := by
  cases c with
  | int64 xs =>
    refine ⟨_, rfl, List.length_map _, fun row => ?_⟩
    rw [List.getElem?_map, element?, Option.map_map, Option.map_map]
    rfl
  | float64 xs =>
    refine ⟨_, rfl, rfl, fun row => ?_⟩
    rw [element?, Option.map_map]
    rfl
  | utf8 xs => exact absurd rfl h

/-- A numeric column that is not binary can be read as integers. -/
lemma ints?_reads {c : Column} (h : c.dtype? ≠ none) (hint : c.dtype? ≠ some .float64) :
    ∃ xs, c.ints? = some xs ∧ xs.length = c.length ∧
      ∀ row, xs[row]?.map .int = (c.element? row).map (·.promote .int64) := by
  cases c with
  | int64 xs =>
    refine ⟨_, rfl, rfl, fun row => ?_⟩
    rw [element?, Option.map_map]
    rfl
  | float64 xs => exact absurd rfl hint
  | utf8 xs => exact absurd rfl h

end Column

namespace Tensor

/-- The cell of a column at a row. -/
def cellAt {α : Type} (row : Nat) (column : List α) : Except TensorError α :=
  match column[row]? with
  | some x => .ok x
  | none => .error .raggedFrame

lemma toOption_cellAt {α : Type} (row : Nat) (column : List α) :
    (cellAt row column).toOption = column[row]? := by
  rw [cellAt]
  cases column[row]? <;> rfl

/-- Columns are put row by row as the rows are read one after the other. -/
lemma interleave_eq {α : Type} (rows : Nat) (columns : List (List α)) :
    interleave rows columns
      = List.flatten <$> (List.range rows).mapM fun row => columns.mapM (cellAt row) := by
  rw [interleave]
  induction List.range rows with
  | nil => rfl
  | cons row rest ih =>
    rw [List.foldr_cons, ih, List.mapM_cons]
    show (columns.mapM (cellAt row) >>= _) = _
    cases columns.mapM (cellAt row) with
    | error e => rfl
    | ok cells => cases rest.mapM fun row => columns.mapM (cellAt row) <;> rfl

/-- Columns of one length are put row by row. -/
lemma interleave_eq_ok {α : Type} {rows : Nat} {columns : List (List α)}
    (h : ∀ column ∈ columns, column.length = rows) : ∃ cells, interleave rows columns = .ok cells ∧
      cells.map some = (List.range rows).flatMap fun row => columns.map (·[row]?) := by
  have hrow : ∀ row ∈ List.range rows, ∃ cells, columns.mapM (cellAt row) = .ok cells := by
    intro row hrow
    refine mapM_ok_of_forall fun column hcolumn => ?_
    have hlt : row < column.length := by
      rw [h column hcolumn]
      exact List.mem_range.mp hrow
    exact ⟨column[row], by rw [cellAt, List.getElem?_eq_getElem hlt]⟩
  obtain ⟨lines, hlines⟩ := mapM_ok_of_forall hrow
  refine ⟨lines.flatten, by rw [interleave_eq, hlines]; rfl, ?_⟩
  have hmap : lines.map (List.map some)
      = (List.range rows).map fun row => columns.map (·[row]?) := by
    rw [← List.forall₂_eq_eq_eq, List.forall₂_map_left_iff, List.forall₂_map_right_iff]
    refine (mapM_eq_ok_iff.mp hlines).flip.imp fun line row hline => ?_
    rw [← mapM_eq_ok_iff_map.mp hline]
    exact List.map_congr_left fun column _ => toOption_cellAt row column
  rw [List.map_flatten, hmap, List.flatMap_def]

/-- The cells of columns that are read alike, row by row. -/
lemma elements_interleave {α : Type} {columns : List (String × Column)} {n : Nat} {common : DType}
    (read : Column → Option (List α)) (wrap : α → Element)
    (h : ∀ c ∈ columns, ∃ xs, read c.2 = some xs ∧ xs.length = n ∧
      ∀ row, xs[row]?.map wrap = (c.2.element? row).map (·.promote common)) :
    ∃ cells, interleave n (columns.filterMap fun c => read c.2) = .ok cells ∧
      (cells.map wrap).map some = (List.range n).flatMap fun row =>
        columns.map fun c => (c.2.element? row).map (·.promote common) := by
  have hlength : ∀ xs ∈ columns.filterMap fun c => read c.2, xs.length = n := by
    intro xs hxs
    obtain ⟨c, hc, hread⟩ := List.mem_filterMap.mp hxs
    obtain ⟨ys, hys, hlen, -⟩ := h c hc
    obtain rfl := Option.some.inj (hread.symm.trans hys)
    exact hlen
  obtain ⟨cells, hcells, hmap⟩ := interleave_eq_ok hlength
  refine ⟨cells, hcells, ?_⟩
  have hwrap : (cells.map wrap).map some = (cells.map some).map (Option.map wrap) := by
    simp [Function.comp_def]
  rw [hwrap, hmap, List.map_flatMap]
  refine List.flatMap_congr fun row _ => ?_
  rw [List.map_map, List.map_filterMap, ← List.filterMap_eq_map]
  refine List.filterMap_congr fun c hc => ?_
  obtain ⟨xs, hxs, -, hrow⟩ := h c hc
  rw [hxs]
  exact congrArg some (hrow row)

end Tensor

/-! ### Frames as tensors -/

namespace Frame

variable {f : Frame} {n : Nat}

/-- The common element type of the columns: binary if one of them is. -/
def elementType (f : Frame) : DType :=
  if f.columns.any (·.2.dtype? = some .float64) then .float64 else .int64

def IsNumeric (f : Frame) : Prop := ∀ c ∈ f.columns, c.2.dtype? ≠ none

lemma isNumeric_pick_iff {rows : List Nat} : (f.pick rows).IsNumeric ↔ f.IsNumeric := by
  simp only [IsNumeric, pick, List.forall_mem_map, Column.dtype?_pick]

lemma elementType_pick (f : Frame) (rows : List Nat) :
    (f.pick rows).elementType = f.elementType := by
  rw [elementType, elementType, pick, List.any_map]
  simp only [Function.comp_def, Column.dtype?_pick]

lemma isNumeric_of_ofFrame {t : Tensor} (h : Tensor.ofFrame f = .ok t) : f.IsNumeric := by
  obtain ⟨data, hdata, -⟩ := map_eq_ok_iff.mp h
  rw [Tensor.dataOfFrame] at hdata
  cases hfind : f.columns.find? fun c => c.2.dtype?.isNone with
  | some c => simp [hfind] at hdata
  | none =>
    intro c hc
    simpa using List.find?_eq_none.mp hfind c hc

lemma mapM_ints?_of_forall {columns : List (String × Column)}
    (h : ∀ c ∈ columns, ∃ xs, c.2.ints? = some xs) :
    (columns.mapM fun c => c.2.ints?) = some (columns.filterMap fun c => c.2.ints?) := by
  induction columns with
  | nil => rfl
  | cons c cs ih =>
    obtain ⟨⟨xs, hxs⟩, hcs⟩ := List.forall_mem_cons.mp h
    rw [List.mapM_cons, ih hcs, hxs]
    simp [hxs]

lemma mapM_ints?_of_exists {columns : List (String × Column)}
    (h : ∃ c ∈ columns, c.2.ints? = none) : (columns.mapM fun c => c.2.ints?) = none := by
  induction columns with
  | nil => simp at h
  | cons c cs ih =>
    rw [List.mapM_cons]
    rcases (List.exists_mem_cons_iff _ _ _).mp h with hc | hcs
    · simp [hc]
    · cases c.2.ints? <;> simp [ih hcs]

/-- The elements of a frame of numeric columns are its cells in their common type, row by row. -/
lemma dataOfFrame_eq_ok (heven : f.Even n) (hne : f.columns ≠ []) (hnumeric : f.IsNumeric) :
    ∃ data, Tensor.dataOfFrame f = .ok data ∧ data.dtype = f.elementType ∧
      data.elements.map some = (List.range n).flatMap fun row =>
        f.columns.map fun c => (c.2.element? row).map (·.promote f.elementType) := by
  have hfind : (f.columns.find? fun c => c.2.dtype?.isNone) = none := by
    rw [List.find?_eq_none]
    intro c hc
    simpa using hnumeric c hc
  rw [Tensor.dataOfFrame, hfind, rows_of_even heven hne]
  -- one column of binary values makes binary values of all; otherwise all are integers
  by_cases hbinary : f.columns.any (·.2.dtype? = some .float64)
  · have htype : f.elementType = .float64 := if_pos hbinary
    obtain ⟨c, hc, hdtype⟩ := List.any_eq_true.mp hbinary
    have hnone : c.2.ints? = none := by
      cases hcolumn : c.2 <;> simp [hcolumn, Column.dtype?, Column.ints?] at hdtype ⊢
    have hreads : ∀ c ∈ f.columns, ∃ xs, c.2.binaries? = some xs ∧ xs.length = n ∧
        ∀ row, xs[row]?.map .binary64 = (c.2.element? row).map (·.promote .float64) := by
      intro c hc
      rw [← heven c hc]
      exact Column.binaries?_reads (hnumeric c hc)
    obtain ⟨cells, hcells, hmap⟩ := Tensor.elements_interleave Column.binaries? .binary64 hreads
    rw [htype, mapM_ints?_of_exists ⟨c, hc, hnone⟩]
    exact ⟨.float64 cells, by rw [hcells]; rfl, rfl, hmap⟩
  · have htype : f.elementType = .int64 := if_neg hbinary
    have hreads : ∀ c ∈ f.columns, ∃ xs, c.2.ints? = some xs ∧ xs.length = n ∧
        ∀ row, xs[row]?.map .int = (c.2.element? row).map (·.promote .int64) := by
      intro c hc
      rw [← heven c hc]
      refine Column.ints?_reads (hnumeric c hc) fun hdtype => hbinary ?_
      exact List.any_eq_true.mpr ⟨c, hc, decide_eq_true hdtype⟩
    obtain ⟨cells, hcells, hmap⟩ := Tensor.elements_interleave Column.ints? .int hreads
    rw [htype, mapM_ints?_of_forall fun c hc => (hreads c hc).imp fun _ h => h.1]
    -- there is a column, so the integers that were read are not taken for none
    cases hread : f.columns.filterMap fun c => c.2.ints? with
    | nil =>
      obtain ⟨c, hc⟩ := List.exists_mem_of_ne_nil _ hne
      obtain ⟨xs, hxs, -⟩ := hreads c hc
      have hnone := List.filterMap_eq_nil_iff.mp hread c hc
      simp [hxs] at hnone
    | cons xs xss =>
      rw [hread] at hcells
      exact ⟨.int64 cells, by dsimp only; rw [hcells]; rfl, rfl, hmap⟩

/-- A frame of numeric columns becomes a tensor of its cells. -/
theorem ofFrame_eq_ok (heven : f.Even n) (hne : f.columns ≠ []) (hnumeric : f.IsNumeric) :
    ∃ t, Tensor.ofFrame f = .ok t ∧ t.shape = [n, f.columns.length] ∧ t.dtype = f.elementType ∧
      t.data.elements.map some = (List.range n).flatMap fun row =>
        f.columns.map fun c => (c.2.element? row).map (·.promote f.elementType) := by
  obtain ⟨data, hdata, hdtype, hmap⟩ := dataOfFrame_eq_ok heven hne hnumeric
  refine ⟨⟨data, [f.rows, f.columns.length], .cpu⟩, ?_, ?_, hdtype, hmap⟩
  · rw [Tensor.ofFrame, hdata]
    rfl
  · rw [rows_of_even heven hne]

end Frame

end TypedGraph
