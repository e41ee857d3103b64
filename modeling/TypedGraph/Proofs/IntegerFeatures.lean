import TypedGraph.Proofs.BinaryIntegers
import TypedGraph.Proofs.GatheredTensors

/-!
# Integer features

What a tensor of integers tells of an integer that a vertex stores. The integer comes back as it is
if every vertex of the request has an integer or a truth value under every property asked for
(`Graph.IsIntegral`). Otherwise all columns of the tensor go through binary values of 64 bits, and
the integer comes back as the nearest of these: as it is exactly if it has at most 53 binary digits
and zeros after them (`tensor_of_integers`).
-/

namespace TypedGraph

open Traversal TypedGraph.Action

/-! ### Integers as elements -/

lemma Json.Value.isSigned64_of_cellInt? {v : Json.Value} {n : Int} (h : v.cellInt? = some n) :
    Json.isSigned64 n := by
  cases v with
  | bool b =>
    obtain rfl := Option.some.inj h
    cases b <;> rfl
  | number x =>
    cases x with
    | int m =>
      simp only [cellInt?, Number.toInt?, Option.ite_none_right_eq_some] at h
      rw [← Option.some.inj h.2]
      exact h.1
    | float x => simp [cellInt?, Number.toInt?] at h
  | _ => simp [cellInt?] at h

/-- An integer that went through a binary value fits an element type if the nearest one does. -/
lemma DType.fitBinary_ofInt_eq_ok_iff {t : DType} {n m : Int} (hn : Json.isSigned64 n) :
    t.fitBinary (.ofInt n) = .ok m ↔ t.holds (Binary.nearby n) ∧ m = Binary.nearby n := by
  have hsmall : n.natAbs < 2 ^ 64 := by
    simp only [Json.isSigned64, Bool.and_eq_true, decide_eq_true_eq] at hn
    omega
  rw [fitBinary, Binary.truncate?_ofInt hsmall]
  cases hholds : t.holds (Binary.nearby n) <;> simp [hholds, eq_comm]

namespace Column

variable {name : String} {values : List (Option Json.Value)} {c : Column} {i : Nat}
variable {v : Option Json.Value} {n : Int}

lemma dtype?_ofValues (h : ofValues name values = .ok c) (hnumeric : c.dtype? ≠ none) :
    c.dtype? = some .float64 ↔ ¬ IsIntegral values := by
  rw [ofValues_of_numeric h hnumeric]
  split_ifs with hints
  · exact iff_of_false (by simp [dtype?]) (not_not_intro hints)
  · exact iff_of_true rfl hints

/-- The integer of a row is a cell of its column, made binary where another row has no integer. -/
lemma element?_ofValues (h : ofValues name values = .ok c) (hnumeric : c.dtype? ≠ none)
    (hi : values[i]? = some v) (hn : v.bind Json.Value.cellInt? = some n) :
    c.element? i = some (if IsIntegral values then .int n else .binary64 (.ofInt n)) := by
  rw [ofValues_of_numeric h hnumeric]
  split_ifs with hints
  · -- no row is left out among integers, so the places are the same
    have hall : (values.filterMap (·.bind Json.Value.cellInt?)).map some
        = values.map (·.bind Json.Value.cellInt?) := by
      rw [List.map_filterMap_some_eq_filter_map_isSome, List.filter_eq_self]
      exact List.forall_mem_map.mpr hints.2
    have hcell : (values.filterMap (·.bind Json.Value.cellInt?))[i]? = some n := by
      have hplace := congrArg (·[i]?) hall
      simp only [List.getElem?_map, hi, Option.map_some, hn] at hplace
      simpa using hplace
    rw [element?, hcell]
    rfl
  · obtain ⟨w, rfl, hw⟩ := Option.bind_eq_some_iff.mp hn
    rw [element?, List.getElem?_map, hi, Option.map_some, Option.bind_some,
      Json.Value.cellBinary?_of_cellInt? hw]
    rfl

end Column

/-! ### Requests for integers -/

namespace Graph

/-- What a vertex stores under a property. -/
def property? (g : Graph) (id : Int) (name : String) : Option Json.Value :=
  (g.vertices.get? id).bind (·.properties.get? name)

/-- Every one of some vertices has an integer or a truth value under every one of some properties.
-/
def IsIntegral (g : Graph) (ids : List Int) (names : List String) : Prop :=
  ∀ name ∈ names, name ∉ fixedNames → ∀ id ∈ ids,
    ((g.property? id name).bind Json.Value.cellInt?).isSome

lemma columnOver_of_property {g : Graph} {rows : List (Int × Vertex)} {name : String} {c : Column}
    (h : g.columnOver rows name = .ok c) (hname : name ∉ fixedNames) :
    Column.ofValues name (rows.map (·.2.properties.get? name)) = .ok c := by
  rw [columnOver, if_neg hname] at h
  split_ifs at h
  exact h

lemma dtype?_of_fixed {g : Graph} {rows : List (Int × Vertex)} {name : String} {c : Column}
    (h : g.columnOver rows name = .ok c) (hname : name ∈ fixedNames) :
    c.dtype? ≠ some .float64 := by
  rw [columnOver, if_pos hname] at h
  rcases List.mem_pair.mp hname with rfl | rfl
  · obtain rfl := Except.ok.inj h
    simp [Column.dtype?]
  · obtain rfl := Except.ok.inj h
    simp [Column.dtype?]

end Graph

namespace Store

variable {s : Store} {g : Graph} {d d' : TensorDescriptor} {host host' : Host} {ids : List Int}
variable {names : List String} {name : String} {id n : Int} {f : Frame} {t : Tensor} {x : Element}

namespace Gathers

variable (h : s.Gathers g d ids names f t)

include h

/-- The row of a vertex holds what the vertex stores. -/
lemma exists_row (hid : id ∈ ids) : ∃ row, f.rowOf? id = some row ∧ ∀ name,
    ((s.requestedRows g d ids).map (·.2.properties.get? name))[row]?
      = some (g.property? id name) := by
  obtain ⟨row, v, hrow, hv⟩ := Graph.exists_row (h.mem_rows hid)
  have hrow' : (s.requestedRows g d ids)[row]? = some (id, v) := hrow
  refine ⟨row, Frame.rowOf?_of_getElem? h.hasVertices ?_, fun name => ?_⟩
  · rw [List.getElem?_map, hrow']
    rfl
  · rw [List.getElem?_map, hrow', Graph.property?, hv]
    rfl

/-- A property makes a column of integers if every vertex of the request has one. -/
lemma isIntegral_values_iff (hne : ids ≠ []) (name : String) :
    Column.IsIntegral ((s.requestedRows g d ids).map (·.2.properties.get? name)) ↔
      ∀ id ∈ ids, ((g.property? id name).bind Json.Value.cellInt?).isSome := by
  constructor
  · rintro ⟨-, hall⟩ id hid
    obtain ⟨row, -, hrow⟩ := h.exists_row hid
    exact hall _ (List.mem_of_getElem? (hrow name))
  · intro hall
    obtain ⟨id, hid⟩ := List.exists_mem_of_ne_nil ids hne
    obtain ⟨row, -, hrow⟩ := h.exists_row hid
    refine ⟨List.ne_nil_of_mem (List.mem_of_getElem? (hrow name)), List.forall_mem_map.mpr ?_⟩
    intro r hr
    have hvalue := hall r.1 (Graph.id_mem_of_mem_vertexRows hr rfl)
    rwa [Graph.property?, Graph.get?_of_mem_vertexRows hr] at hvalue

/-- The columns of a tensor are all of integers exactly if the request is for integers. -/
lemma commonType_eq_iff (hne : ids ≠ []) :
    f.commonType names = .int64 ↔ g.IsIntegral ids names := by
  have hnone : f.commonType names = .int64 ↔ ∀ name ∈ names, ∀ c, f.column name = .ok c →
      c.dtype? ≠ some .float64 := by
    rw [Frame.commonType, ite_eq_right_iff]
    simp [Option.any_eq_true, toOption_eq_some_iff]
  rw [hnone]
  refine forall₂_congr fun name hname => ?_
  obtain ⟨c, hnumeric, hcolumn, hover⟩ := h.column hname
  rw [hcolumn]
  simp only [Except.ok.injEq, forall_eq']
  -- a fixed column is never binary, and nothing is stored in it
  by_cases hfixed : name ∈ Graph.fixedNames
  · exact iff_of_true (Graph.dtype?_of_fixed hover hfixed) fun hnot => absurd hfixed hnot
  · rw [ne_eq, Column.dtype?_ofValues (Graph.columnOver_of_property hover hfixed) hnumeric, not_not,
      h.isIntegral_values_iff hne]
    exact ⟨fun hall _ => hall, fun hall => hall hfixed⟩

/-- The cell of an integer among the columns of its tensor. -/
lemma promoted_cell (hid : id ∈ ids) (hname : name ∈ names) (hfixed : name ∉ Graph.fixedNames)
    (hn : (g.property? id name).bind Json.Value.cellInt? = some n) :
    (f.cell? id name).map (·.promote (f.commonType names))
      = some (if f.commonType names = .float64 then .binary64 (.ofInt n) else .int n) := by
  obtain ⟨c, hnumeric, hcolumn, hover⟩ := h.column hname
  obtain ⟨row, hrow, hvalues⟩ := h.exists_row hid
  have hvalue := Graph.columnOver_of_property hover hfixed
  have hcell := Column.element?_ofValues hvalue hnumeric (hvalues name) hn
  rw [Frame.cell?, hrow, hcolumn]
  show (c.element? row).map _ = _
  rw [hcell, Option.map_some]
  by_cases hcommon : f.commonType names = .float64
  · rw [if_pos hcommon, hcommon]
    split_ifs <;> rfl
  · have hints : Column.IsIntegral ((s.requestedRows g d ids).map (·.2.properties.get? name)) := by
      by_contra hnot
      have hdtype := (Column.dtype?_ofValues hvalue hnumeric).mpr hnot
      refine hcommon (if_pos (List.any_eq_true.mpr ⟨name, hname, ?_⟩))
      rw [hcolumn]
      exact decide_eq_true hdtype
    rw [if_neg hcommon, if_pos hints, Element.promote, if_neg hcommon]

/-- An integer in a tensor of integers. -/
lemma value?_of_int (hid : id ∈ ids) (hname : name ∈ names) (hfixed : name ∉ Graph.fixedNames)
    (hn : (g.property? id name).bind Json.Value.cellInt? = some n)
    (hx : f.value? names (some .int64) id name = some x) :
    x = .int (if f.commonType names = .float64 then Binary.nearby n else n) := by
  have hcell := h.promoted_cell hid hname hfixed hn
  obtain ⟨v, -, hv⟩ := Option.bind_eq_some_iff.mp hn
  have hsigned := Json.Value.isSigned64_of_cellInt? hv
  obtain ⟨cell, hread, hcast⟩ := Option.bind_eq_some_iff.mp hx
  rw [hread, Option.map_some] at hcell
  rw [Option.some.inj hcell, toOption_eq_some_iff] at hcast
  -- a binary column rounds the integer, and reading it back gives the nearest one
  by_cases hcommon : f.commonType names = .float64
  · simp only [hcommon, if_true] at hcast ⊢
    obtain ⟨m, hm, rfl⟩ := map_eq_ok_iff.mp hcast
    rw [((DType.fitBinary_ofInt_eq_ok_iff hsigned).mp hm).2]
  · have hint : f.commonType names = .int64 := by
      rw [Frame.commonType, ite_eq_left_iff] at hcommon
      rw [Frame.commonType, if_neg fun hany => hcommon fun hnot => absurd hany hnot]
    simp only [hint, if_neg (show DType.int64 ≠ .float64 by decide)] at hcast ⊢
    exact (Except.ok.inj hcast).symm

end Gathers

end Store

/-! ### Tensors of integers -/

namespace Graph

/-- A place of a tensor is for an integer that one of some vertices stores under one of some
properties. The columns of ids and types are not read off the properties of their names. -/
def StoresAt (g : Graph) (ids : List Int) (names : List String) (place : Nat) (n : Int) : Prop :=
  ∃ r c id name, ids[r]? = some id ∧ names[c]? = some name ∧ name ∉ fixedNames ∧
    (g.property? id name).bind Json.Value.cellInt? = some n ∧ place = r * names.length + c

/-- What a tensor tells of the integers that some vertices store under some properties. -/
structure TellsIntegers (g : Graph) (ids : List Int) (names : List String) (t : Tensor) : Prop where
  /-- Where all values are integers or truth values, each integer comes back as it is. -/
  kept : g.IsIntegral ids names → ∀ place n, g.StoresAt ids names place n →
    t.data.elements[place]? = some (.int n)
  /-- Where one is not, each integer comes back as the binary value of 64 bits nearest to it. -/
  rounded : ¬ g.IsIntegral ids names → ∀ place n, g.StoresAt ids names place n →
    t.data.elements[place]? = some (.int (Binary.nearby n))
  /-- So an integer comes back as it is exactly if all values are integers or truth values, or it
  has at most 53 binary digits and zeros after them. -/
  exact_iff : ∀ place n, g.StoresAt ids names place n →
    (t.data.elements[place]? = some (.int n) ↔ g.IsIntegral ids names ∨ Binary.IsShort n)
  /-- What comes back is at most half the distance of binary values away. -/
  close : ∀ place n m, g.StoresAt ids names place n → t.data.elements[place]? = some (.int m) →
    2 * (m - n).natAbs ≤ Binary.spacing n.natAbs

end Graph

namespace Store

variable {s : Store} {g : Graph} {d d' : TensorDescriptor} {host : Host} {ids : List Int}
variable {names : List String} {n : Int} {f : Frame} {t : Tensor} {place : Nat}

lemma Gathers.element_of_int (h : s.Gathers g d ids names f t)
    (hdtype : d.dtype.flat = some .int64) (hplace : g.StoresAt ids names place n) :
    t.data.elements[place]?
      = some (.int (if f.commonType names = .float64 then Binary.nearby n else n)) := by
  obtain ⟨r, c, id, name, hr, hc, hfixed, hn, rfl⟩ := hplace
  have hname := List.mem_of_getElem? hc
  have hanswers := h.answers (List.ne_nil_of_mem hname)
  rw [hdtype] at hanswers
  obtain ⟨x, hx, helement⟩ := hanswers.cells r c id name hr hc
  rw [helement, h.value?_of_int (List.mem_of_getElem? hr) hname hfixed hn hx]

lemma Gathers.tellsIntegers (h : s.Gathers g d ids names f t)
    (hdtype : d.dtype.flat = some .int64) : g.TellsIntegers ids names t := by
  -- a request that has a place has a vertex, so the common type is told by the properties
  have hcommon (place : Nat) (n : Int) (hplace : g.StoresAt ids names place n) :
      f.commonType names = .float64 ↔ ¬ g.IsIntegral ids names := by
    obtain ⟨r, c, id, name, hr, -⟩ := hplace
    rw [← h.commonType_eq_iff (List.ne_nil_of_mem (List.mem_of_getElem? hr)), Frame.commonType]
    split_ifs <;> simp
  have hkept : g.IsIntegral ids names → ∀ place n, g.StoresAt ids names place n →
      t.data.elements[place]? = some (.int n) := by
    intro hints place n hplace
    rw [h.element_of_int hdtype hplace, if_neg fun hfloat => (hcommon _ _ hplace).mp hfloat hints]
  have hrounded : ¬ g.IsIntegral ids names → ∀ place n, g.StoresAt ids names place n →
      t.data.elements[place]? = some (.int (Binary.nearby n)) := by
    intro hmixed place n hplace
    rw [h.element_of_int hdtype hplace, if_pos ((hcommon _ _ hplace).mpr hmixed)]
  refine ⟨hkept, hrounded, fun place n hplace => ?_, fun place n m hplace hm => ?_⟩
  · by_cases hints : g.IsIntegral ids names
    · exact iff_of_true (hkept hints place n hplace) (.inl hints)
    · rw [hrounded hints place n hplace, ← Binary.nearby_eq_iff]
      simp [hints]
  · by_cases hints : g.IsIntegral ids names
    · obtain rfl : n = m := by simpa [hkept hints place n hplace] using hm
      simp
    · obtain rfl : Binary.nearby n = m := by simpa [hrounded hints place n hplace] using hm
      exact Binary.two_mul_dist_nearby n

/-- A tensor of integers tells the integers of its request, as they are or through binary values. -/
theorem tensor_of_integers (hsource : FetchesRows s.source) (hinfer : s.tensors.infer d = .ok d')
    (hdtype : d'.dtype.flat = some .int64) (h : ((s.tensor d).runOn host).1 = .ok t) :
    ∃ ids names, s.requestedIds d' = .ok ids ∧ d'.properties.flat = some names ∧
      host.graph.TellsIntegers ids names t := by
  obtain ⟨ids, names, f, hgathers⟩ := gathers_of_tensor hsource hinfer h
  exact ⟨ids, names, hgathers.requested, hgathers.named, hgathers.tellsIntegers hdtype⟩

/-! ### A hashed file -/

/-- A file with a large hash, a fraction, and a property under the name of the column of ids. -/
def files : Graph where
  vertices := .ofList [(0, { type := "file", properties := .ofList [("_VERTEX_", .int 7),
    ("hash", .int 9007199254740993), ("load", .number (.float (.ofRatio false 1 2)))] })]

/-- The outcome of building a store over the file. -/
def filesRun : Except StoreError Store × Host :=
  (build .plain .cpu {}).runOn { graph := files }

/-- The store over the file, and the tables that its construction leaves. -/
def filesStore : Store := filesRun.1.toOption.get (by decide +kernel)

lemma reachable_filesStore : Reachable .plain filesRun.2.graph filesStore :=
  .built (Prod.ext (eq_ok_get _) rfl)

/-- A request for some properties of the file as integers. -/
def filesRequest (names : List String) : TensorDescriptor where
  group := .value (some "file")
  name := .value (some "h")
  index := .value (some [0])
  properties := .value (some names)
  dtype := .value (some .int64)

/-- The tensor of some properties of the file. -/
def filesTensor (names : List String) : Option Tensor :=
  ((filesStore.tensor (filesRequest names)).runOn filesRun.2).1.toOption

theorem tensor_of_integers_files :
    FetchesRows filesStore.source ∧
      filesStore.tensors.infer (filesRequest ["hash", "load"])
        = .ok (filesRequest ["hash", "load"]) ∧
      (filesRequest ["hash", "load"]).dtype.flat = some .int64 ∧
      ∃ t ids names,
        ((filesStore.tensor (filesRequest ["hash", "load"])).runOn filesRun.2).1 = .ok t ∧
        filesStore.requestedIds (filesRequest ["hash", "load"]) = .ok ids ∧
        (filesRequest ["hash", "load"]).properties.flat = some names ∧
        filesRun.2.graph.TellsIntegers ids names t := by
  have hsource : FetchesRows filesStore.source := .inl reachable_filesStore.source_eq
  have hsome : (filesTensor ["hash", "load"]).isSome := by decide +kernel
  obtain ⟨t, ht⟩ := Option.isSome_iff_exists.mp hsome
  have h := toOption_eq_some_iff.mp ht
  obtain ⟨ids, names, hids, hnames, htells⟩ := tensor_of_integers hsource rfl rfl h
  exact ⟨hsource, rfl, rfl, t, ids, names, h, hids, hnames, htells⟩

/-- Asked for alone, the hash comes back as it is; beside the fraction it is altered. Under the name
of the column of ids, the id comes back and not the property. -/
theorem tensor_alters_integers :
    Reachable .plain filesRun.2.graph filesStore ∧
      (filesRun.2.graph.property? 0 "hash").bind Json.Value.cellInt? = some 9007199254740993 ∧
      (filesRun.2.graph.property? 0 "_VERTEX_").bind Json.Value.cellInt? = some 7 ∧
      filesTensor ["hash"] = some ⟨.int64 [9007199254740993], [1, 1], .cpu⟩ ∧
      filesTensor ["hash", "load", "_VERTEX_"]
        = some ⟨.int64 [9007199254740992, 0, 0], [1, 3], .cpu⟩ := by
  refine ⟨reachable_filesStore, ?_, ?_, ?_, ?_⟩ <;> decide +kernel

end Store

end TypedGraph
