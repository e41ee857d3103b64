import TypedGraph.Proofs.IdWidths
import TypedGraph.Proofs.OffsetLookups

/-!
# Joined tensors

What tensors joined along their first dimension are: all elements in order, as many rows as there
are altogether, on the device of the first. Tensors are joined exactly if they are alike and the
sizes can be multiplied (`exists_join_iff`), which those of one or two dimensions can be
(`not_overflows_of_flat`). Joining blocks of them first changes nothing (`Joins.flatten_iff`). The
ids of some vertex types are joined in this way, type after type.
-/

namespace TypedGraph

open Traversal

namespace Tensor

variable {a first t u : Tensor} {as ts ps : List Tensor} {blocks : List (List Tensor)}

/-- A tensor of at least one dimension that can be built. -/
structure IsShaped (t : Tensor) : Prop where
  shape_ne_nil : t.shape ≠ []
  made : make? t.data t.shape t.device = .ok (some t)

lemma IsShaped.prod_shape (h : t.IsShaped) : t.shape.prod = t.elements.length := by
  rw [elements, TensorData.length_elements]
  exact (make?_eq_some_iff.mp h.made).2.1

lemma isShaped_of_fits (hne : t.shape ≠ []) (hfits : ¬ Overflows t.shape)
    (hcount : t.shape.prod = t.elements.length) : t.IsShaped := by
  rw [elements, TensorData.length_elements] at hcount
  exact ⟨hne, make?_eq_some_iff.mpr ⟨hfits, hcount, rfl⟩⟩

lemma shape_eq_cons (h : t.shape ≠ []) : t.shape = t.rows :: t.rowShape := by
  rw [rows, rowShape]
  cases hshape : t.shape with
  | nil => exact absurd hshape h
  | cons n ns => simp

/-- A tensor has the elements of some tensors in order, as many rows as they have, the element type
and the row shape of each, and the device of the first. -/
@[mk_iff]
structure Joins (ts : List Tensor) (t : Tensor) : Prop where
  alike : ∀ a ∈ ts, a.dtype = t.dtype ∧ a.rowShape = t.rowShape
  elements : t.elements = ts.flatMap elements
  shape : t.shape = (ts.map Tensor.rows).sum :: t.rowShape
  device : ts.head?.map (·.device) = some t.device

lemma Joins.ne_nil (h : Joins ts t) : ts ≠ [] := by
  rintro rfl
  simpa using h.device

lemma Joins.rows (h : Joins ts t) : t.rows = (ts.map Tensor.rows).sum := by
  simp [Tensor.rows, h.shape]

lemma Joins.unique (h : Joins ts t) (h' : Joins ts u) : t = u := by
  obtain ⟨first, as, rfl⟩ := List.exists_cons_of_ne_nil h.ne_nil
  obtain ⟨htype, hrow⟩ := h.alike first List.mem_cons_self
  obtain ⟨htype', hrow'⟩ := h'.alike first List.mem_cons_self
  apply eq_of_elements
  · rw [← htype, htype']
  · rw [h.shape, h'.shape, ← hrow, hrow']
  · exact Option.some.inj (h.device.symm.trans h'.device)
  · rw [h.elements, h'.elements]

/-! ### Joining -/

/-- Tensors of one element type and one row shape. -/
def AllAlike (ts : List Tensor) : Prop :=
  ∀ a ∈ ts, ∀ b ∈ ts, a.dtype = b.dtype ∧ a.rowShape = b.rowShape

/-- The shape of some tensors together: all rows, in the row shape of the first. -/
def joinedShape (ts : List Tensor) : List Nat :=
  (ts.map rows).sum :: (ts.head?.map rowShape).getD []

lemma Joins.shape_eq (h : Joins ts t) : t.shape = joinedShape ts := by
  obtain ⟨first, as, rfl⟩ := List.exists_cons_of_ne_nil h.ne_nil
  rw [h.shape, ← (h.alike first List.mem_cons_self).2]
  rfl

/-- The elements of tensors with one row shape are those of all their rows. -/
lemma sum_length (h : ∀ a ∈ ts, a.IsShaped ∧ a.rowShape = t.rowShape) :
    (ts.map rows).sum * t.rowShape.prod = (ts.map (·.elements.length)).sum := by
  induction ts with
  | nil => simp
  | cons a ts ih =>
    obtain ⟨⟨hshaped, hrow⟩, hts⟩ := List.forall_mem_cons.mp h
    have hcount := hshaped.prod_shape
    rw [shape_eq_cons hshaped.shape_ne_nil, List.prod_cons, hrow] at hcount
    rw [List.map_cons, List.sum_cons, List.map_cons, List.sum_cons, Nat.add_mul, ih hts, hcount]

lemma length_flatMap_elements (ts : List Tensor) :
    (ts.flatMap elements).length = (ts.map (·.elements.length)).sum :=
  List.length_flatMap

/-- The shape of joined tensors asks for as many elements as they have. -/
lemma Joins.prod_shape (hts : ∀ a ∈ ts, a.IsShaped) (h : Joins ts t) :
    t.shape.prod = t.elements.length := by
  have hrows : ∀ a ∈ ts, a.IsShaped ∧ a.rowShape = t.rowShape :=
    fun a ha => ⟨hts a ha, (h.alike a ha).2⟩
  rw [h.shape, List.prod_cons, sum_length hrows, h.elements, length_flatMap_elements]

lemma Joins.isShaped (hts : ∀ a ∈ ts, a.IsShaped) (h : Joins ts t) (hfits : ¬ Overflows t.shape) :
    t.IsShaped :=
  isShaped_of_fits (by simp [h.shape]) hfits (h.prod_shape hts)

lemma joins_joined (h : Alike first (first :: as)) : Joins (first :: as) (joined first as) where
  alike a ha := by
    rw [dtype_joined]
    exact h a ha
  elements := elements_joinData h
  shape := rfl
  device := rfl

lemma Joins.alike_first (h : Joins (first :: as) t) : Alike first (first :: as) := by
  obtain ⟨htype, hrow⟩ := h.alike first List.mem_cons_self
  exact fun a ha => ⟨(h.alike a ha).1.trans htype.symm, (h.alike a ha).2.trans hrow.symm⟩

/-- Joining gives the one tensor that is all of them, unless its sizes overflow. -/
lemma join_eq_ok_iff_joins (hts : ∀ a ∈ ts, a.IsShaped) :
    join ts = .ok t ↔ Joins ts t ∧ ¬ Overflows t.shape := by
  cases ts with
  | nil => exact iff_of_false (by simp [join]) fun h => h.1.ne_nil rfl
  | cons first as =>
    rw [join_eq_ok_iff]
    constructor
    · rintro ⟨halike, hfits, -, rfl⟩
      exact ⟨joins_joined halike, hfits⟩
    · rintro ⟨h, hfits⟩
      have hjoined := joins_joined h.alike_first
      obtain rfl := hjoined.unique h
      refine ⟨h.alike_first, hfits, ?_, rfl⟩
      rw [h.prod_shape hts, elements, TensorData.length_elements]

lemma AllAlike.alike (h : AllAlike (first :: as)) : Alike first (first :: as) :=
  fun a ha => h a ha first List.mem_cons_self

lemma Joins.allAlike (h : Joins ts t) : AllAlike ts := by
  intro a ha b hb
  obtain ⟨htype, hrow⟩ := h.alike b hb
  rw [htype, hrow]
  exact h.alike a ha

lemma exists_join_iff (hts : ∀ a ∈ ts, a.IsShaped) : (∃ t, join ts = .ok t) ↔
    ts ≠ [] ∧ AllAlike ts ∧ ¬ Overflows (joinedShape ts) := by
  simp only [join_eq_ok_iff_joins hts]
  constructor
  · rintro ⟨t, h, hfits⟩
    exact ⟨h.ne_nil, h.allAlike, h.shape_eq ▸ hfits⟩
  · rintro ⟨hne, hsame, hfits⟩
    obtain ⟨first, as, rfl⟩ := List.exists_cons_of_ne_nil hne
    exact ⟨_, joins_joined hsame.alike, hfits⟩

/-- Tensors of one or two dimensions overflow only with their rows or their elements. -/
lemma not_overflows_of_flat (hts : ∀ a ∈ ts, a.IsShaped) (hsame : AllAlike ts)
    (hflat : ∀ a ∈ ts, a.shape.length ≤ 2) (hrows : (ts.map rows).sum < sizeLimit)
    (helements : (ts.map (·.elements.length)).sum < sizeLimit) :
    ¬ Overflows (joinedShape ts) := by
  rw [not_overflows_iff]
  cases ts with
  | nil => intro k; cases k <;> simp [joinedShape, sizeLimit]
  | cons first as =>
    -- rows times width is the number of elements, which is counted
    have hcount := sum_length fun a ha => ⟨hts a ha, (hsame.alike a ha).2⟩
    have hwidth : first.rowShape.length ≤ 1 := by
      have hle := hflat first List.mem_cons_self
      rw [rowShape, List.length_drop]
      omega
    -- the first sizes of the joined shape are none, the rows, or all of it
    rintro (_ | _ | k)
    · simp [sizeLimit]
    · simpa [joinedShape] using hrows
    · have htake : first.rowShape.take (k + 1) = first.rowShape :=
        List.take_of_length_le (by omega)
      have hall : (joinedShape (first :: as)).take (k + 2)
          = ((first :: as).map rows).sum :: first.rowShape := congrArg (_ :: ·) htake
      rw [hall, List.prod_cons, hcount]
      exact helements

/-! ### Block by block -/

section Blocks

lemma alike_iff_of_joins (h : List.Forall₂ Joins blocks ps) :
    (∀ p ∈ ps, p.dtype = t.dtype ∧ p.rowShape = t.rowShape) ↔
      ∀ a ∈ blocks.flatten, a.dtype = t.dtype ∧ a.rowShape = t.rowShape := by
  induction h with
  | nil => simp
  | @cons block p blocks ps hp _ ih =>
    have hblock : (∀ a ∈ block, a.dtype = t.dtype ∧ a.rowShape = t.rowShape) ↔
        p.dtype = t.dtype ∧ p.rowShape = t.rowShape := by
      constructor
      · -- a joined block has a tensor, which stands for the block
        intro hall
        obtain ⟨a, ha⟩ := List.exists_mem_of_ne_nil _ hp.ne_nil
        obtain ⟨htype, hrow⟩ := hp.alike a ha
        rw [← htype, ← hrow]
        exact hall a ha
      · intro hall a ha
        obtain ⟨htype, hrow⟩ := hp.alike a ha
        rwa [htype, hrow]
    rw [List.forall_mem_cons, List.flatten_cons, List.forall_mem_append, hblock, ih]

lemma flatMap_elements_of_joins (h : List.Forall₂ Joins blocks ps) :
    ps.flatMap elements = blocks.flatten.flatMap elements := by
  induction h with
  | nil => rfl
  | cons hp _ ih =>
    rw [List.flatMap_cons, List.flatten_cons, List.flatMap_append, hp.elements, ih]

lemma sum_rows_of_joins (h : List.Forall₂ Joins blocks ps) :
    (ps.map rows).sum = (blocks.flatten.map rows).sum := by
  induction h with
  | nil => rfl
  | cons hp _ ih =>
    rw [List.map_cons, List.sum_cons, List.flatten_cons, List.map_append, List.sum_append, hp.rows,
      ih]

lemma device_of_joins (h : List.Forall₂ Joins blocks ps) :
    ps.head?.map (·.device) = blocks.flatten.head?.map (·.device) := by
  cases h with
  | nil => rfl
  | @cons block p _ _ hp _ =>
    obtain ⟨first, as, rfl⟩ := List.exists_cons_of_ne_nil hp.ne_nil
    exact hp.device.symm

/-- Joining what blocks of tensors are joined to is joining the tensors. -/
lemma Joins.flatten_iff (h : List.Forall₂ Joins blocks ps) :
    Joins ps t ↔ Joins blocks.flatten t := by
  rw [joins_iff, joins_iff, alike_iff_of_joins h, flatMap_elements_of_joins h, sum_rows_of_joins h,
    device_of_joins h]

lemma Overflows.mono {n m : Nat} {shape : List Nat} (h : Overflows (n :: shape)) (hle : n ≤ m) :
    Overflows (m :: shape) := by
  obtain ⟨k, hk⟩ := h
  refine ⟨k, hk.trans ?_⟩
  cases k with
  | zero => exact le_refl _
  | succ k =>
    rw [List.take_succ_cons, List.take_succ_cons, List.prod_cons, List.prod_cons]
    exact Nat.mul_le_mul_right _ hle

/-- Where all tensors can be joined, some in a row of them can be. -/
lemma exists_join_block {block : List Tensor} (hts : ∀ a ∈ blocks.flatten, a.IsShaped)
    (hblock : block ∈ blocks) (hne : block ≠ []) (h : Joins blocks.flatten u)
    (hfits : ¬ Overflows u.shape) : ∃ p, join block = .ok p := by
  have hsub : block.Sublist blocks.flatten := List.sublist_flatten_of_mem hblock
  refine (exists_join_iff fun a ha => hts a (hsub.subset ha)).mpr ⟨hne, ?_, fun hover => hfits ?_⟩
  · exact fun a ha b hb => h.allAlike a (hsub.subset ha) b (hsub.subset hb)
  · obtain ⟨first, as, rfl⟩ := List.exists_cons_of_ne_nil hne
    have hle : ((first :: as).map Tensor.rows).sum ≤ (blocks.flatten.map Tensor.rows).sum :=
      (hsub.map _).sum_le_sum fun _ _ => Nat.zero_le _
    rw [h.shape, ← (h.alike first (hsub.subset List.mem_cons_self)).2]
    exact hover.mono hle

lemma join_flatten (hts : ∀ a ∈ blocks.flatten, a.IsShaped) (hne : ∀ block ∈ blocks, block ≠ []) :
    (blocks.mapM join >>= join).toOption = (join blocks.flatten).toOption := by
  have hall : ∀ block ∈ blocks, ∀ a ∈ block, a.IsShaped := fun block hblock a ha =>
    hts a (List.mem_flatten.mpr ⟨block, hblock, ha⟩)
  -- the joined blocks are tensors of whole shapes themselves, so they can be joined in turn
  have hparts {ps : List Tensor} (h : blocks.mapM join = .ok ps) :
      List.Forall₂ (fun block p => Joins block p ∧ p.IsShaped) blocks ps := by
    have hboth := (List.forall₂_and_left blocks ps).mpr ⟨hall, mapM_eq_ok_iff.mp h⟩
    refine hboth.imp fun block p hp => ?_
    obtain ⟨hjoins, hfits⟩ := (join_eq_ok_iff_joins hp.1).mp hp.2
    exact ⟨hjoins, hjoins.isShaped hp.1 hfits⟩
  have hsame {ps : List Tensor} (h : blocks.mapM join = .ok ps) (u : Tensor) :
      join ps = .ok u ↔ join blocks.flatten = .ok u := by
    have hshaped : ∀ p ∈ ps, p.IsShaped := by
      intro p hp
      obtain ⟨k, hk⟩ := List.mem_iff_getElem?.mp hp
      obtain ⟨block, -, -, hblock⟩ := exists_of_forall₂ (hparts h).flip hk
      exact hblock
    rw [join_eq_ok_iff_joins hshaped, join_eq_ok_iff_joins hts,
      Joins.flatten_iff ((hparts h).imp fun _ _ hp => hp.1)]
  refine Option.ext fun u => ?_
  rw [toOption_eq_some_iff, toOption_eq_some_iff, bind_eq_ok_iff]
  constructor
  · rintro ⟨ps, hps, hu⟩
    exact (hsame hps u).mp hu
  · intro hu
    -- tensors that can be joined all together can be joined block by block
    obtain ⟨hjoins, hfits⟩ := (join_eq_ok_iff_joins hts).mp hu
    obtain ⟨ps, hps⟩ := mapM_ok_of_forall fun block hblock =>
      exists_join_block hts hblock (hne block hblock) hjoins hfits
    exact ⟨ps, hps, (hsame hps u).mpr hu⟩

end Blocks

/-- What joining some tensors comes to. -/
structure JoinLaw (ts : List Tensor) : Prop where
  ok_iff : (∃ t, join ts = .ok t) ↔ ts ≠ [] ∧ AllAlike ts ∧ ¬ Overflows (joinedShape ts)
  joins : ∀ t, join ts = .ok t ↔ Joins ts t ∧ ¬ Overflows t.shape
  overflows : ts ≠ [] → AllAlike ts → Overflows (joinedShape ts) → join ts = .error .sizeOverflow
  /-- Nothing overflows where there are at most two dimensions, and rows and elements are counted.
  -/
  flat : AllAlike ts → (∀ a ∈ ts, a.shape.length ≤ 2) → (ts.map rows).sum < 2 ^ 64 →
    (ts.map (·.elements.length)).sum < 2 ^ 64 → ¬ Overflows (joinedShape ts)
  /-- Joining blocks first gives the same tensor, or none either. -/
  blocks : ∀ blocks : List (List Tensor), blocks.flatten = ts → (∀ block ∈ blocks, block ≠ []) →
    (blocks.mapM join >>= join).toOption = (join ts).toOption

lemma joinLaw (hts : ∀ a ∈ ts, a.IsShaped) : JoinLaw ts where
  ok_iff := exists_join_iff hts
  joins _ := join_eq_ok_iff_joins hts
  overflows hne hsame hover := by
    obtain ⟨first, as, rfl⟩ := List.exists_cons_of_ne_nil hne
    exact join_of_overflows hsame.alike hover
  flat := not_overflows_of_flat hts
  blocks := by
    rintro blocks rfl hne
    exact join_flatten hts hne

/-! ### Lists of integers -/

lemma joins_ofInts {parts : List (List Int)} (hne : parts ≠ []) :
    Joins (parts.map ofInts) (ofInts parts.flatten) where
  alike := List.forall_mem_map.mpr fun _ _ => ⟨rfl, rfl⟩
  elements := by
    rw [List.flatMap_map]
    exact List.map_flatten
  shape := by
    rw [List.map_map]
    exact congrArg (· :: []) List.length_flatten
  device := by
    obtain ⟨xs, rest, rfl⟩ := List.exists_cons_of_ne_nil hne
    rfl

lemma not_overflows_singleton {n : Nat} (h : n < sizeLimit) : ¬ Overflows [n] := by
  rw [not_overflows_iff]
  rintro (_ | k)
  · simp [sizeLimit]
  · simpa using h

lemma isShaped_ofInts {xs : List Int} (hlt : xs.length < 2 ^ 64) : (ofInts xs).IsShaped :=
  isShaped_of_fits (by simp [ofInts]) (not_overflows_singleton hlt)
    (by simp [ofInts, elements, TensorData.elements])

lemma join_ofInts {parts : List (List Int)} (hne : parts ≠ [])
    (hlt : parts.flatten.length < 2 ^ 64) :
    join (parts.map ofInts) = .ok (ofInts parts.flatten) := by
  have hshaped : ∀ a ∈ parts.map ofInts, a.IsShaped := by
    refine List.forall_mem_map.mpr fun xs hxs => isShaped_ofInts ?_
    exact (List.sublist_flatten_of_mem hxs).length_le.trans_lt hlt
  exact (join_eq_ok_iff_joins hshaped).mpr ⟨joins_ofInts hne, not_overflows_singleton hlt⟩

end Tensor

namespace Store

variable {s : Store} {types : List String} {parts : List (List Int)}

/-! ### Vertices of some types -/

lemma rangePart_int64 (h : s.config.vertexDType = .int64) (start stop : Int) :
    s.rangePart start stop = .ok (.ofInts (intRange start stop)) := by
  rw [rangePart, h]
  rfl

lemma vertexPart_int64 (h : s.config.vertexDType = .int64) (type : String) :
    s.vertexPart type = Tensor.ofInts <$> s.offsets.idsOf type := by
  rw [vertexPart, Offsets.idsOf]
  cases s.offsets.rangeOf type with
  | error e => rfl
  | ok r =>
    rw [ok_bind, rangePart_int64 h]
    rfl

/-- Without types there is one part to join, which has no ids. -/
lemma someParts_int64 (h : s.config.vertexDType = .int64) (parts : List (List Int)) :
    ∃ parts', s.someParts (parts.map Tensor.ofInts) = .ok (parts'.map Tensor.ofInts) ∧
      parts' ≠ [] ∧ parts'.flatten = parts.flatten := by
  cases parts with
  | nil => exact ⟨[[]], by rw [someParts, rangePart_int64 h]; rfl, by simp, rfl⟩
  | cons ids parts => exact ⟨ids :: parts, rfl, by simp, rfl⟩

lemma vertexIndex_of_ids (h : s.config.vertexDType = .int64)
    (hparts : types.mapM s.offsets.idsOf = .ok parts) (hlt : parts.flatten.length < 2 ^ 64) :
    s.vertexIndex types = .ok ((Tensor.ofInts parts.flatten).on s.device) := by
  obtain ⟨parts', hsome, hne, hflatten⟩ := someParts_int64 h parts
  have hjoin := Tensor.join_ofInts hne (hflatten ▸ hlt)
  rw [vertexIndex_eq, funext (vertexPart_int64 h), mapM_map_eq, hparts, map_ok, ok_bind, hsome,
    ok_bind, joinParts, hjoin, hflatten]
  rfl

/-- Only an unknown type is a failed look-up. -/
lemma vertexIndex_eq_lookup_iff (h : s.config.vertexDType = .int64) {cause : LookupError} :
    s.vertexIndex types = .error (.lookup cause) ↔
      types.mapM s.offsets.idsOf = .error (.lookup cause) := by
  rw [vertexIndex_eq, funext (vertexPart_int64 h), mapM_map_eq]
  cases types.mapM s.offsets.idsOf with
  | error e => simp
  | ok parts =>
    obtain ⟨parts', hsome, -, -⟩ := someParts_int64 h parts
    rw [map_ok, ok_bind, hsome, ok_bind, joinParts]
    cases Tensor.join (parts'.map Tensor.ofInts) <;> simp

lemma exists_idsOf_iff {name : String} :
    (∃ ids, s.offsets.idsOf name = .ok ids) ↔ name ∈ s.offsets.names := by
  constructor
  · rintro ⟨ids, hids⟩
    by_contra hnot
    rw [Offsets.idsOf_eq_error_iff.mpr ⟨hnot, rfl⟩] at hids
    cases hids
  · intro hname
    cases hids : s.offsets.idsOf name with
    | ok ids => exact ⟨ids, rfl⟩
    | error e => exact absurd hname (Offsets.idsOf_eq_error_iff.mp hids).1

/-- The vertex ids of some types, as a store with ids of 64 bits tells them. -/
structure IndexesTypes (s : Store) (types : List String) : Prop where
  known : (∃ parts, types.mapM s.offsets.idsOf = .ok parts) ↔ ∀ type ∈ types, type ∈ s.offsets.names
  tells : ∀ parts, types.mapM s.offsets.idsOf = .ok parts → parts.flatten.length < 2 ^ 64 →
    s.vertexIndex types = .ok ⟨.int64 parts.flatten, [parts.flatten.length], s.device⟩
  fails : (∃ cause, s.vertexIndex types = .error (.lookup cause)) ↔
    ∃ type ∈ types, type ∉ s.offsets.names
  /-- The first unknown type is named. -/
  blames : ∀ cause, s.vertexIndex types = .error (.lookup cause) ↔
    ∃ before type after, types = before ++ type :: after ∧ (∀ b ∈ before, b ∈ s.offsets.names) ∧
      type ∉ s.offsets.names ∧ cause = .unknownVertexType type

lemma indexesTypes (h : s.config.vertexDType = .int64) (types : List String) :
    s.IndexesTypes types := by
  have hknown : (∃ parts, types.mapM s.offsets.idsOf = .ok parts) ↔
      ∀ type ∈ types, type ∈ s.offsets.names := by
    simp only [← exists_idsOf_iff]
    constructor
    · rintro ⟨parts, hparts⟩ type htype
      exact ok_of_mapM_eq_ok hparts htype
    · exact mapM_ok_of_forall
  have hblames (cause : LookupError) : s.vertexIndex types = .error (.lookup cause) ↔
      ∃ before type after, types = before ++ type :: after ∧ (∀ b ∈ before, b ∈ s.offsets.names) ∧
        type ∉ s.offsets.names ∧ cause = .unknownVertexType type := by
    rw [vertexIndex_eq_lookup_iff h, mapM_eq_error_iff]
    simp only [exists_idsOf_iff, Offsets.idsOf_eq_error_iff, StoreError.lookup.injEq]
  refine ⟨hknown, fun parts hparts hlt => vertexIndex_of_ids h hparts hlt, ?_, hblames⟩
  constructor
  · rintro ⟨cause, hcause⟩
    obtain ⟨before, type, after, rfl, -, htype, -⟩ := (hblames cause).mp hcause
    exact ⟨type, by simp, htype⟩
  · rintro ⟨type, htype, hunknown⟩
    cases hparts : types.mapM s.offsets.idsOf with
    | ok parts => exact absurd (hknown.mp ⟨parts, hparts⟩ type htype) hunknown
    | error e =>
      obtain ⟨-, unknown, -, -, -, herror⟩ := mapM_eq_error_iff.mp hparts
      obtain ⟨-, rfl⟩ := Offsets.idsOf_eq_error_iff.mp herror
      exact ⟨_, (vertexIndex_eq_lookup_iff h).mpr hparts⟩

/-- Tensors are joined as their lists are, unless the sizes overflow, and so are the vertex ids of
types. -/
theorem joins_in_order (ts : List Tensor) (s : Store) (types : List String) :
    ((∀ t ∈ ts, t.IsShaped) → Tensor.JoinLaw ts) ∧
      (s.config.vertexDType = .int64 → s.IndexesTypes types) :=
  ⟨Tensor.joinLaw, fun hs => indexesTypes hs types⟩

/-- Two rows, none, and one more, of two columns each. -/
def sheets : List Tensor :=
  [⟨.int32 [1, 2, 3, 4], [2, 2], .cpu⟩, ⟨.int32 [], [0, 2], .gpu 1⟩, ⟨.int32 [5, 6], [1, 2], .cpu⟩]

theorem joins_in_order_sheets :
    (∀ t ∈ sheets, t.IsShaped) ∧ libraryStore.config.vertexDType = .int64 ∧
    Tensor.Joins sheets ⟨.int32 [1, 2, 3, 4, 5, 6], [3, 2], .cpu⟩ ∧
    (∃ cause, libraryStore.vertexIndex ["paper", "cites"] = .error (.lookup cause)) ∧
    libraryStore.vertexIndex ["paper", "author", "paper"]
      = .ok ⟨.int64 [2, 3, 0, 1, 2, 3], [6], .cpu⟩ := by
  have hshaped : ∀ t ∈ sheets, t.IsShaped := by
    intro t ht
    fin_cases ht <;> exact ⟨by decide, by decide⟩
  have hdtype : libraryStore.config.vertexDType = .int64 := by decide +kernel
  have hjoin := (joins_in_order sheets libraryStore []).1 hshaped
  have hindex (types : List String) := (joins_in_order [] libraryStore types).2 hdtype
  have hjoined : Tensor.join sheets = .ok ⟨.int32 [1, 2, 3, 4, 5, 6], [3, 2], .cpu⟩ := by
    decide +kernel
  have hparts : ["paper", "author", "paper"].mapM libraryStore.offsets.idsOf
      = .ok [[2, 3], [0, 1], [2, 3]] := by
    decide +kernel
  refine ⟨hshaped, hdtype, ((hjoin.joins _).mp hjoined).1, ?_, ?_⟩
  · rw [(hindex _).fails]
    exact ⟨"cites", by simp, by decide +kernel⟩
  · exact (hindex _).tells _ hparts (by decide)

/-- A tensor without elements, of a row shape in which a large size comes before zero. -/
def hollow : Tensor := ⟨.int64 [], [2147483648, 4294967296, 0], .cpu⟩

/-- Two alike tensors that can be built, with few rows, are not joined: their rows and the size
after them overflow before the zero does away with all. -/
theorem join_overflows : hollow.IsShaped ∧ Tensor.AllAlike [hollow, hollow] ∧
    ([hollow, hollow].map Tensor.rows).sum < 2 ^ 64 ∧
    Tensor.join [hollow, hollow] = .error .sizeOverflow := by
  refine ⟨⟨by decide, by decide⟩, ?_, by decide, by decide⟩
  simp [Tensor.AllAlike]

end Store

end TypedGraph
