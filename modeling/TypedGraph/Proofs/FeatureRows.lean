import TypedGraph.Proofs.Elements
import TypedGraph.Proofs.FeatureRefinement

/-!
# Feature rows

A feature tensor has a row for each vertex of the request, in the order of the request: its elements
are the cells of the columns asked for in the row that the fetched frame has for the vertex
(`Frame.Answers`). So what a row says depends on its vertex only, and requests for the same
vertices in two orders succeed or fail together (`tensor_follows`).
-/

namespace TypedGraph

open Traversal TypedGraph.Action

/-! ### Lists row by row -/

/-- What is told of each of some things under each of some names is told row by row. -/
lemma getElem?_flatMap_map {α β γ : Type} {as : List α} {bs : List β} {g : α → β → γ} {r c : Nat}
    {a : α} {b : β} (ha : as[r]? = some a) (hb : bs[c]? = some b) :
    (as.flatMap fun a => bs.map (g a))[r * bs.length + c]? = some (g a b) := by
  have hc : c < bs.length := (List.getElem?_eq_some_iff.mp hb).1
  induction as generalizing r with
  | nil => simp at ha
  | cons x as ih =>
    rw [List.flatMap_cons]
    cases r with
    | zero =>
      obtain rfl : x = a := by simpa using ha
      rw [Nat.zero_mul, Nat.zero_add, List.getElem?_append_left (by simpa using hc),
        List.getElem?_map, hb, Option.map_some]
    | succ r =>
      have hplace : (r + 1) * bs.length + c = bs.length + (r * bs.length + c) := by ring
      rw [hplace, List.getElem?_append_right (by simp), List.length_map, Nat.add_sub_cancel_left]
      exact ih (by simpa using ha)

/-- Telling something of every position is telling it of the element there. -/
lemma flatMap_range_eq {α β : Type} {as : List α} {f : Nat → List β} {g : α → List β}
    (h : ∀ i a, as[i]? = some a → f i = g a) : (List.range as.length).flatMap f = as.flatMap g := by
  have hmap : (List.range as.length).map f = as.map g := by
    refine List.ext_getElem (by simp) fun i hi hi' => ?_
    rw [List.getElem_map, List.getElem_map, List.getElem_range]
    exact h i _ (List.getElem?_eq_getElem _)
  rw [List.flatMap_def, hmap, ← List.flatMap_def]

/-! ### Cells by vertex -/

namespace Frame

variable {f fs : Frame} {stored ids : List Int} {names : List String} {id : Int}

/-- The row that a frame of vertices has for a vertex. -/
def rowOf? (f : Frame) (id : Int) : Option Nat :=
  ((f.column Graph.vertexColumn).toOption.bind Column.ints?).bind (·.idxOf? id)

/-- The cell of a column in the row of a vertex. -/
def cell? (f : Frame) (id : Int) (name : String) : Option Element :=
  (f.rowOf? id).bind fun row => (f.column name).toOption.bind (·.element? row)

/-- The common element type of some columns: binary if one of them is. -/
def commonType (f : Frame) (names : List String) : DType :=
  if names.any fun name => (f.column name).toOption.any (·.dtype? = some .float64) then .float64
  else .int64

/-- What is told of a vertex under a name: the cell, promoted to the common type of the columns and
then changed to the element type that is asked for. -/
def value? (f : Frame) (names : List String) (asked : Option DType) (id : Int) (name : String) :
    Option Element :=
  (f.cell? id name).bind fun cell =>
    ((cell.promote (f.commonType names)).castTo (f.commonType names) asked).toOption

/-- A tensor tells the columns of some names in the rows of some vertices. -/
structure Answers (f : Frame) (ids : List Int) (names : List String) (asked : Option DType)
    (t : Tensor) : Prop where
  shape : t.shape = [ids.length, names.length]
  dtype : t.dtype = asked.getD (f.commonType names)
  length : t.data.elements.length = ids.length * names.length
  cells : ∀ r c id name, ids[r]? = some id → names[c]? = some name → ∃ x,
    f.value? names asked id name = some x ∧ t.data.elements[r * names.length + c]? = some x

/-- A tensor holds the columns of some names in the rows of some vertices, in the common type of the
columns. -/
structure HoldsCells (f : Frame) (ids : List Int) (names : List String) (t : Tensor) : Prop where
  shape : t.shape = [ids.length, names.length]
  dtype : t.dtype = f.commonType names
  elements : t.data.elements.map some = ids.flatMap fun id =>
    names.map fun name => (f.cell? id name).map (·.promote (f.commonType names))

/-- A frame has a row for each of some vertices, and no other rows. -/
structure HasVertices (f : Frame) (stored : List Int) : Prop where
  column : f.column Graph.vertexColumn = .ok (.int64 stored)
  nodup : stored.Nodup
  even : f.Even stored.length

lemma rowOf?_eq (h : f.HasVertices stored) (id : Int) : f.rowOf? id = stored.idxOf? id := by
  rw [rowOf?, h.column]
  rfl

lemma rowOf?_eq_none_iff (h : f.HasVertices stored) : f.rowOf? id = none ↔ id ∉ stored := by
  rw [rowOf?_eq h, List.idxOf?_eq_none_iff]

lemma rowOf?_of_getElem? (h : f.HasVertices stored) {row : Nat} (hrow : stored[row]? = some id) :
    f.rowOf? id = some row := by
  rw [rowOf?_eq h, idxOf?_eq_some_iff_getElem? h.nodup]
  exact hrow

/-- In any order the rows are those of the same vertices. -/
lemma HasVertices.pick (h : f.HasVertices stored) {order : List Nat}
    (horder : order.Perm (List.range stored.length)) :
    (f.pick order).HasVertices (TypedGraph.pick stored order) where
  column := by
    rw [column_pick, h.column]
    rfl
  nodup := (pick_perm horder).nodup_iff.mpr h.nodup
  even := by
    have hlt : ∀ row ∈ order, row < stored.length := fun row hrow =>
      List.mem_range.mp (horder.mem_iff.mp hrow)
    rw [length_pick hlt]
    exact even_pick h.even hlt

/-! ### Selected columns -/

lemma map_columns_select (h : f.select names = .ok fs) :
    fs.columns.map (fun c => some c.2) = names.map fun name => (f.column name).toOption := by
  obtain ⟨cs, hcs, rfl⟩ := map_eq_ok_iff.mp h
  have hmap := congrArg (List.map (Option.map Prod.snd)) (mapM_eq_ok_iff_map.mp hcs)
  simp only [List.map_map, Function.comp_def, Option.map_some] at hmap
  rw [← hmap]
  refine List.map_congr_left fun name _ => ?_
  cases f.column name <;> rfl

lemma length_columns_select (h : f.select names = .ok fs) : fs.columns.length = names.length := by
  simpa using congrArg List.length (map_columns_select h)

lemma elementType_select (h : f.select names = .ok fs) : fs.elementType = f.commonType names := by
  have hany : fs.columns.any (·.2.dtype? = some .float64)
      = (fs.columns.map fun c => some c.2).any fun c => c.any (·.dtype? = some .float64) := by
    rw [List.any_map]
    rfl
  rw [elementType, commonType, hany, map_columns_select h, List.any_map]
  rfl

lemma elements_select (h : f.select names = .ok fs) (row : Nat) (change : Element → Element) :
    (fs.columns.map fun c => (c.2.element? row).map change)
      = names.map fun name => ((f.column name).toOption.bind (·.element? row)).map change := by
  have hmap := congrArg (List.map fun c : Option Column => (c.bind (·.element? row)).map change)
    (map_columns_select h)
  simpa [Function.comp_def] using hmap

/-- Cells whose element type is changed answer for their vertices. -/
lemma HoldsCells.answers {asked : Option DType} {t t' : Tensor} (h : f.HoldsCells ids names t)
    (hcast : t.castTo asked = .ok t') : f.Answers ids names asked t' := by
  obtain ⟨hshape, hdtype⟩ := Tensor.shape_and_dtype_of_castTo hcast
  have hmapM := t.elements_castTo asked
  rw [hcast, map_ok, h.dtype] at hmapM
  have helements : t'.data.elements.map some
      = ids.flatMap fun id => names.map (f.value? names asked id) := by
    have hmap := congrArg (List.map fun e : Option Element => e.bind fun e =>
      (e.castTo (f.commonType names) asked).toOption) h.elements
    rw [List.map_map, List.map_flatMap] at hmap
    refine (mapM_eq_ok_iff_map.mp hmapM.symm).symm.trans (hmap.trans ?_)
    simp only [List.map_map, Function.comp_def, Option.bind_map]
    rfl
  refine ⟨hshape.trans h.shape, ?_, by simpa using congrArg List.length helements, ?_⟩
  · rw [hdtype, h.dtype]
  · intro r c id name hr hc
    have hplace := getElem?_flatMap_map (g := f.value? names asked) hr hc
    rw [← helements, List.getElem?_map] at hplace
    obtain ⟨x, hx, heq⟩ := Option.map_eq_some_iff.mp hplace
    exact ⟨x, heq.symm, hx⟩

/-- Whether the element type of cells can be changed depends on the vertices, but not on their
order. -/
lemma HoldsCells.castTo_eq_ok {asked : Option DType} {t t' u : Tensor} {ids' : List Int}
    (h : f.HoldsCells ids names t) (h' : f.HoldsCells ids' names t')
    (hids : ∀ id ∈ ids', id ∈ ids) (hcast : t.castTo asked = .ok u) :
    ∃ u', t'.castTo asked = .ok u' := by
  have hmapM := t.elements_castTo asked
  rw [hcast, map_ok, h.dtype] at hmapM
  -- an element of the second tensor is a cell of some vertex, which the first tensor holds too
  have hsub : ∀ e ∈ t'.data.elements, e ∈ t.data.elements := by
    intro e he
    have hsome : some e ∈ t'.data.elements.map some := List.mem_map_of_mem he
    rw [h'.elements] at hsome
    obtain ⟨id, hid, hcell⟩ := List.mem_flatMap.mp hsome
    have hmem : some e ∈ t.data.elements.map some := by
      rw [h.elements]
      exact List.mem_flatMap.mpr ⟨id, hids id hid, hcell⟩
    simpa using hmem
  obtain ⟨es, hes⟩ := mapM_ok_of_forall fun e he => ok_of_mapM_eq_ok hmapM.symm (hsub e he)
  have hmapM' := t'.elements_castTo asked
  rw [h'.dtype, hes] at hmapM'
  obtain ⟨u', hu', -⟩ := map_eq_ok_iff.mp hmapM'
  exact ⟨u', hu'⟩

end Frame

/-! ### Gathering rows -/

namespace Store

variable {s : Store} {d : TensorDescriptor} {f : Frame} {stored ids ids' : List Int}
variable {names : List String} {group : Option String} {t : Tensor} {host host' : Host}

/-- The tensor that is gathered from a fetched frame. -/
def gather (s : Store) (d : TensorDescriptor) (stored ids : List Int) (names : List String)
    (f : Frame) : Except StoreError Tensor := do
  let rows ← ids.mapM (rowOf stored d.group.flat)
  let fs ← (f.select names).mapError .graph
  let fs ← (fs.take rows).mapError .graph
  let t ← (Tensor.ofFrame fs).mapError .tensor
  let t ← (t.castTo d.dtype.flat).mapError .tensor
  pure (t.on s.device)

lemma mapM_rowOf_eq_ok (hnodup : stored.Nodup) {rows : List Nat}
    (h : ids.mapM (rowOf stored group) = .ok rows) :
    List.Forall₂ (fun id row => stored[row]? = some id) ids rows :=
  (mapM_eq_ok_iff.mp h).imp fun _ _ hrow => (rowOf_eq_ok_iff hnodup).mp hrow

lemma row_lt_of_mapM_rowOf (hnodup : stored.Nodup) {rows : List Nat}
    (h : ids.mapM (rowOf stored group) = .ok rows) : ∀ row ∈ rows, row < stored.length := by
  intro row hrow
  obtain ⟨id, -, hid⟩ := (mem_iff_of_mapM_eq_ok h).mp hrow
  exact (List.getElem?_eq_some_iff.mp ((rowOf_eq_ok_iff hnodup).mp hid)).1

/-- The rows of some vertices, in some columns, become a tensor of the cells. -/
lemma ofFrame_pick_eq_ok (hf : f.HasVertices stored) (hne : names ≠ []) {fs : Frame}
    (hselect : f.select names = .ok fs) (hnumeric : fs.IsNumeric) {rows : List Nat}
    (hrows : ids.mapM (rowOf stored group) = .ok rows) :
    ∃ t, Tensor.ofFrame (fs.pick rows) = .ok t ∧ f.HoldsCells ids names t := by
  have hplaces := mapM_rowOf_eq_ok hf.nodup hrows
  have hlt := row_lt_of_mapM_rowOf hf.nodup hrows
  have heven := Frame.even_select hf.even hselect
  have hlength : (fs.pick rows).columns.length = names.length := by
    rw [← Frame.length_columns_select hselect, Frame.pick, List.length_map]
  have hcolumns : (fs.pick rows).columns ≠ [] := by
    refine List.ne_nil_of_length_pos ?_
    rw [hlength]
    exact List.length_pos_of_ne_nil hne
  obtain ⟨t, ht, hshape, hdtype, helements⟩ := Frame.ofFrame_eq_ok (Frame.even_pick heven hlt)
    hcolumns (Frame.isNumeric_pick_iff.mpr hnumeric)
  rw [Frame.elementType_pick, Frame.elementType_select hselect] at hdtype helements
  rw [← hplaces.length_eq] at hshape helements
  refine ⟨t, ht, by rw [hshape, hlength], hdtype, helements.trans ?_⟩
  -- row by row: the id there names the stored row that was picked
  refine flatMap_range_eq fun i id hid => ?_
  obtain ⟨row, hi, hrow⟩ : ∃ row, rows[i]? = some row ∧ stored[row]? = some id := by
    obtain ⟨hlt, rfl⟩ := List.getElem?_eq_some_iff.mp hid
    have hlt' : i < rows.length := hplaces.length_eq ▸ hlt
    exact ⟨rows[i], List.getElem?_eq_getElem hlt', hplaces.get hlt hlt'⟩
  simp only [Frame.cell?, Frame.rowOf?_of_getElem? hf hrow, Option.bind_some]
  rw [← Frame.elements_select hselect, Frame.pick, List.map_map]
  refine List.map_congr_left fun c hc => ?_
  have hlt' : ∀ row ∈ rows, row < c.2.length := by rwa [heven c hc]
  simp only [Function.comp_apply, Column.element?_pick hlt', hi, Option.bind_some]

/-- What is gathered from a frame are the cells of the vertices, with their element type changed. -/
lemma gather_eq_ok (hf : f.HasVertices stored) (hne : names ≠ [])
    (h : s.gather d stored ids names f = .ok t) :
    (∀ id ∈ ids, id ∈ stored) ∧ ∃ fs t₀ t₁, f.select names = .ok fs ∧ fs.IsNumeric ∧
      f.HoldsCells ids names t₀ ∧ t₀.castTo d.dtype.flat = .ok t₁ ∧ t = t₁.on s.device := by
  obtain ⟨rows, hrows, h⟩ := bind_eq_ok_iff.mp h
  obtain ⟨fs, hselect, h⟩ := bind_eq_ok_iff.mp h
  obtain ⟨taken, htake, h⟩ := bind_eq_ok_iff.mp h
  obtain ⟨t₀, hframe, h⟩ := bind_eq_ok_iff.mp h
  obtain ⟨t₁, hcast, hlast⟩ := bind_eq_ok_iff.mp h
  rw [mapError_eq_ok_iff] at hselect htake hframe hcast
  have hlt := row_lt_of_mapM_rowOf hf.nodup hrows
  rw [Frame.take_eq_pick (Frame.even_select hf.even hselect) hlt] at htake
  obtain rfl := Except.ok.inj htake
  -- a tensor is made, so the columns are numeric, and for such columns it holds the cells
  have hnumeric := Frame.isNumeric_pick_iff.mp (Frame.isNumeric_of_ofFrame hframe)
  obtain ⟨t₀', hframe', hcells⟩ := ofFrame_pick_eq_ok hf hne hselect hnumeric hrows
  obtain rfl := Except.ok.inj (hframe'.symm.trans hframe)
  refine ⟨fun id hid => ?_, fs, t₀', t₁, hselect, hnumeric, hcells, hcast,
    (Except.ok.inj hlast).symm⟩
  obtain ⟨row, hrow⟩ := ok_of_mapM_eq_ok hrows hid
  exact List.mem_of_getElem? ((rowOf_eq_ok_iff hf.nodup).mp hrow)

/-- The cells of vertices that are there, in columns of numbers, can be gathered. -/
lemma gather_of_numeric (hf : f.HasVertices stored) (hne : names ≠ [])
    (hids : ∀ id ∈ ids, id ∈ stored) {fs : Frame} (hselect : f.select names = .ok fs)
    (hnumeric : fs.IsNumeric) :
    ∃ t₀, f.HoldsCells ids names t₀ ∧ ∀ t₁, t₀.castTo d.dtype.flat = .ok t₁ →
      s.gather d stored ids names f = .ok (t₁.on s.device) := by
  obtain ⟨rows, hrows⟩ : ∃ rows, ids.mapM (rowOf stored d.group.flat) = .ok rows := by
    refine mapM_ok_of_forall fun id hid => ?_
    obtain ⟨row, hrow⟩ := List.mem_iff_getElem?.mp (hids id hid)
    exact ⟨row, (rowOf_eq_ok_iff hf.nodup).mpr hrow⟩
  have htake := Frame.take_eq_pick (Frame.even_select hf.even hselect)
    (row_lt_of_mapM_rowOf hf.nodup hrows)
  obtain ⟨t₀, hframe, hcells⟩ := ofFrame_pick_eq_ok hf hne hselect hnumeric hrows
  refine ⟨t₀, hcells, fun t₁ hcast => ?_⟩
  rw [gather, hrows, ok_bind, hselect, mapError_ok, ok_bind, htake, mapError_ok, ok_bind, hframe,
    mapError_ok, ok_bind, hcast]
  rfl

/-- Whether a tensor can be gathered depends on the vertices, but not on their order. -/
lemma exists_gather (hf : f.HasVertices stored) (hne : names ≠ [])
    (h : s.gather d stored ids names f = .ok t) (hids : ∀ id ∈ ids', id ∈ ids) :
    ∃ t', s.gather d stored ids' names f = .ok t' := by
  obtain ⟨hstored, fs, t₀, t₁, hselect, hnumeric, hcells, hcast, -⟩ := gather_eq_ok hf hne h
  obtain ⟨t₀', hcells', hgather⟩ := gather_of_numeric hf hne
    (fun id hid => hstored id (hids id hid)) hselect hnumeric
  obtain ⟨t₁', hcast'⟩ := hcells.castTo_eq_ok hcells' hids hcast
  exact ⟨_, hgather t₁' hcast'⟩

lemma gather_of_missing {id : Int} (hid : id ∈ ids) (hmissing : id ∉ stored) :
    ∃ e, s.gather d stored ids names f = .error (.lookup e) := by
  cases hrows : ids.mapM (rowOf stored d.group.flat) with
  | ok rows =>
    obtain ⟨row, hrow⟩ := ok_of_mapM_eq_ok hrows hid
    rw [rowOf_of_notMem hmissing] at hrow
    simp at hrow
  | error e =>
    obtain ⟨_, other, _, -, -, hother⟩ := split_of_mapM_eq_error hrows
    refine ⟨.missingRow other d.group.flat, ?_⟩
    rw [gather, hrows, error_bind]
    rw [rowOf] at hother
    split at hother
    · simp at hother
    · exact congrArg Except.error (Except.error.inj hother).symm

/-! ### Fetched frames -/

/-- A source that fetches rows at once or part by part. -/
def FetchesRows (source : Source) : Prop :=
  source = .plain ∨ ∃ parts, source = .partitioned parts

variable {source : Source}

lemma FetchesRows.columns_eq (h : FetchesRows source) : source.columns = {} := by
  rcases h with rfl | ⟨parts, rfl⟩ <;> rfl

/-- How a source hands out what the tables give: errors as they are, and rows in an order that their
ids decide. -/
structure HandsOut (source : Source) (handOut : Except GraphError Frame → Except StoreError Frame)
    (left : Host → Host) : Prop where
  run : ∀ (q : Query) (host : Host), (ofFetch source.fetchVertices q).runOn host
    = (handOut (host.graph.fetchVertices q), left host)
  error : ∀ e, handOut (.error e) = .error (.graph e)
  rows : ∀ stored : List Int, ∃ order, order.Perm (List.range stored.length) ∧
    ∀ f : Frame, f.HasVertices stored → handOut (.ok f) = .ok (f.pick order)

/-- Rows are arranged over parts in an order that their ids decide. -/
lemma exists_partOrder (parts : Nat) (stored : List Int) :
    ∃ order : List Nat, order.Perm (List.range stored.length) ∧ ∀ f : Frame,
      f.HasVertices stored → Source.arrange Graph.vertexColumn parts f = .ok (f.pick order) := by
  by_cases hparts : parts < 2 ^ 63
  · refine ⟨_, Source.partOrder_perm parts stored, fun f hf => ?_⟩
    exact (shuffled_of_arrange hparts hf.column hf.nodup hf.even).1
  · refine ⟨_, .refl _, fun f hf => ?_⟩
    rw [Source.arrange, hf.column, ok_bind]
    simp only [Column.ints?]
    rw [if_neg (show ¬ parts < 0x8000000000000000 from hparts), Frame.pick_range hf.even]
    rfl

lemma FetchesRows.exists_handsOut (h : FetchesRows source) :
    ∃ handOut left, HandsOut source handOut left := by
  rcases h with rfl | ⟨parts, rfl⟩
  · refine ⟨Except.mapError .graph, id, runOn_ofFetch_ready Graph.fetchVertices, fun _ => rfl,
      fun stored => ⟨_, .refl _, fun f hf => ?_⟩⟩
    rw [Frame.pick_range hf.even]
    rfl
  · refine ⟨fun x => (x.bind (Source.arrange Graph.vertexColumn (max parts 1))).mapError .graph, _,
      runOn_ofFetch_delay Graph.vertexColumn (max parts 1) Graph.fetchVertices, fun _ => rfl,
      fun stored => ?_⟩
    obtain ⟨order, horder, harrange⟩ := exists_partOrder (max parts 1) stored
    refine ⟨order, horder, fun f hf => ?_⟩
    rw [Except.bind, harrange f hf]
    rfl

lemma hasVertices_of_fetchVertices {g : Graph} {q : Query} (h : g.fetchVertices q = .ok f) :
    f.HasVertices ((g.vertexRows q).map (·.1)) := by
  obtain ⟨hcolumn, -, heven⟩ := Graph.fetchVertices_eq_ok h
  exact ⟨hcolumn, g.nodup_vertexRows q, by rwa [List.length_map]⟩

/-- A fetched frame has rows for distinct vertices. -/
lemma FetchesRows.hasVertices (h : FetchesRows source) {q : Query}
    (hfetch : (ofFetch source.fetchVertices q).runOn host = (.ok f, host')) :
    ∃ stored, f.HasVertices stored := by
  obtain ⟨handOut, left, hout⟩ := h.exists_handsOut
  obtain ⟨hf, -⟩ := Prod.mk.inj ((hout.run q host).symm.trans hfetch)
  cases htables : host.graph.fetchVertices q with
  | error e => simp [htables, hout.error] at hf
  | ok f₀ =>
    have hstored := hasVertices_of_fetchVertices htables
    obtain ⟨order, horder, hrows⟩ := hout.rows ((host.graph.vertexRows q).map (·.1))
    rw [htables, hrows f₀ hstored] at hf
    obtain rfl := Except.ok.inj hf
    exact ⟨_, hstored.pick horder⟩

/-- A fetch is told by the rows that are chosen and the columns. -/
lemma fetchVertices_congr_rows {g : Graph} {q q' : Query} (hrows : g.vertexRows q = g.vertexRows q')
    (hcolumns : q.columns = q'.columns) : g.fetchVertices q = g.fetchVertices q' := by
  rw [Graph.fetchVertices, Graph.fetchVertices, hrows, hcolumns]

/-- The order of the ids that are asked for does not matter to a fetch. -/
lemma fetchVertices_congr (g : Graph) (h : ∀ id, id ∈ ids' ↔ id ∈ ids)
    (types columns : Option (List String)) :
    g.fetchVertices { ids := some ids', types, columns }
      = g.fetchVertices { ids := some ids, types, columns } := by
  refine fetchVertices_congr_rows ?_ rfl
  rw [Graph.vertexRows, Graph.vertexRows]
  simp only [Graph.rowsWithIds, Ascending.ofList_congr h]

/-! ### Requests -/

/-- The frame that the tensor of a request is read off. -/
def fetchFeatures (s : Store) (d : TensorDescriptor) (ids : List Int) (names : List String) :
    Action Frame :=
  .ofFetch s.source.fetchVertices
    { ids := some ids
      types := s.requestedTypes d
      columns := s.requestedColumns d names }

/-- Reads the tensor of a request off a frame. -/
def readFeatures (s : Store) (d : TensorDescriptor) (ids : List Int) (names : List String)
    (f : Frame) : Action Tensor := do
  let stored ← match (← .ofGraph (f.column s.source.columns.vertex)).ints? with
    | some stored => pure stored
    | none => throw (.internal (.noIds s.source.columns.vertex))
  let rows ← .ofExcept (ids.mapM (rowOf stored d.group.flat))
  let f ← .ofGraph (f.select names)
  let f ← .ofGraph (f.take rows)
  let t ← .ofTensor (Tensor.ofFrame f)
  let t ← match d.dtype.flat with
    | some dtype => .ofTensor (t.cast dtype)
    | none => pure t
  pure (t.on s.device)

/-- A request in which nothing is open, for some vertices and some properties. -/
structure AsksFor (d : TensorDescriptor) (ids : List Int) (names : List String) : Prop where
  complete : d.isComplete
  index : d.index = .value (some ids)
  properties : d.properties = .value (some names)

/-- A request in which nothing is open is answered as it is. -/
lemma runOn_tensor_of_complete (hd : d.isComplete) (host : Host) :
    (s.tensor d).runOn host = (s.fetchTensor d).runOn host := by
  have hinfer : s.tensors.infer d = .ok d := by
    obtain ⟨-, -, -, hproperties, hdtype⟩ := TensorDescriptor.isComplete_iff.mp hd
    rw [TensorCatalog.infer, hproperties, hdtype]
    rfl
  rw [tensor, hinfer]
  refine (runOn_bind_ok (runOn_ofExcept _ host)).trans ?_
  rw [hd]
  rfl

lemma runOn_tensor_eq (hd : AsksFor d ids names) (host : Host) : (s.tensor d).runOn host
    = (s.fetchFeatures d ids names >>= s.readFeatures d ids names).runOn host := by
  have hflat : d.properties.flat = some names := by rw [hd.properties]; rfl
  have hids : s.requestedIds d = .ok ids := by rw [requestedIds, hd.index]; rfl
  rw [runOn_tensor_of_complete hd.complete, fetchTensor, hflat, hids]
  rfl

lemma runOn_readFeatures (hcolumns : s.source.columns = {}) (hf : f.HasVertices stored)
    (host : Host) : (s.readFeatures d ids names f).runOn host
      = (s.gather d stored ids names f, host) := by
  have hcolumn : (ofGraph (f.column Graph.vertexColumn)).runOn host
      = (.ok (.int64 stored), host) := by
    rw [hf.column]
    rfl
  rw [readFeatures, hcolumns]
  refine (runOn_bind_ok hcolumn).trans ?_
  refine (runOn_bind_ok (runOn_pure stored host)).trans ?_
  refine runOn_ofExcept_bind fun rows => runOn_ofExcept_bind fun fs =>
    runOn_ofExcept_bind fun taken => runOn_ofExcept_bind fun t => ?_
  cases d.dtype.flat with
  | none => rfl
  | some dtype => exact runOn_ofExcept_bind fun _ => rfl

/-- Two outcomes of which both are failures, or both are results that belong together. -/
def SucceedTogether {ε α β : Type} (P : α → β → Prop) : Except ε α → Except ε β → Prop
  | .ok a, .ok b => P a b
  | .error _, .error _ => True
  | _, _ => False

/-- Tensors of one element type, with rows of a width, that tell the same of the same vertices. -/
structure SameFeatures (width : Nat) (ids ids' : List Int) (t t' : Tensor) : Prop where
  dtype : t'.dtype = t.dtype
  rows : ∀ r r' id, ids[r]? = some id → ids'[r']? = some id → ∀ c < width,
    t'.data.elements[r' * width + c]? = t.data.elements[r * width + c]?

/-- Tensors that answer for some vertices by one frame tell the same of the same vertices. -/
lemma sameFeatures_of_answers {asked : Option DType} {t' : Tensor}
    (h : f.Answers ids names asked t) (h' : f.Answers ids' names asked t') :
    SameFeatures names.length ids ids' t t' := by
  refine ⟨h'.dtype.trans h.dtype.symm, fun r r' id hr hr' c hc => ?_⟩
  obtain ⟨x, hx, hplace⟩ := h.cells r c id _ hr (List.getElem?_eq_getElem hc)
  obtain ⟨x', hx', hplace'⟩ := h'.cells r' c id _ hr' (List.getElem?_eq_getElem hc)
  rw [hplace, hplace', ← hx, ← hx']

lemma answers_of_gather (hf : f.HasVertices stored) (hne : names ≠ [])
    (h : s.gather d stored ids names f = .ok t) : f.Answers ids names d.dtype.flat t := by
  obtain ⟨-, fs, t₀, t₁, -, -, hcells, hcast, rfl⟩ := gather_eq_ok hf hne h
  have hanswers := hcells.answers hcast
  exact ⟨hanswers.shape, hanswers.dtype, hanswers.length, hanswers.cells⟩

/-- Gathering for the same vertices fails alike or tells the same of them. -/
lemma gather_reordered (hf : f.HasVertices stored) (hne : names ≠ [])
    (hids : ∀ id, id ∈ ids' ↔ id ∈ ids) :
    SucceedTogether (SameFeatures names.length ids ids') (s.gather d stored ids names f)
      (s.gather d stored ids' names f) := by
  -- either list can take the place of the other, so neither can fail alone
  cases hgather : s.gather d stored ids names f with
  | ok t =>
    obtain ⟨t', hgather'⟩ := exists_gather hf hne hgather fun id => (hids id).mp
    rw [hgather']
    exact sameFeatures_of_answers (answers_of_gather hf hne hgather)
      (answers_of_gather hf hne hgather')
  | error e =>
    cases hgather' : s.gather d stored ids' names f with
    | ok t' =>
      obtain ⟨t, ht⟩ := exists_gather hf hne hgather' fun id => (hids id).mpr
      simp [hgather] at ht
    | error e' => trivial

/-- The tensor of a request follows the request and not the storage. -/
structure FollowsRequest (s : Store) (d : TensorDescriptor) (ids : List Int)
    (names : List String) : Prop where
  /-- A tensor tells the properties asked for of the vertices asked for, by the fetched frame. -/
  answered : ∀ host host' t, (s.tensor d).runOn host = (.ok t, host') →
    ∃ f, (s.fetchFeatures d ids names).runOn host = (.ok f, host') ∧
      f.Answers ids names d.dtype.flat t
  /-- A request for the same vertices in another order, or repeated otherwise, fails alike or is
  answered with the same rows. -/
  reordered : ∀ ids' host host', (∀ id, id ∈ ids' ↔ id ∈ ids) → host'.graph = host.graph →
    SucceedTogether (SameFeatures names.length ids ids') ((s.tensor d).runOn host).1
      ((s.tensor (d.withIndex ids')).runOn host').1
  /-- A vertex without a row in the fetched frame is an error. -/
  missing : ∀ host host' f id, (s.fetchFeatures d ids names).runOn host = (.ok f, host') →
    id ∈ ids → f.rowOf? id = none → ∃ e, (s.tensor d).runOn host = (.error (.lookup e), host')

section Follows

variable (hsource : FetchesRows s.source) (hd : AsksFor d ids names)

include hsource hd

lemma runOn_tensor_of_fetch (hfetch : (s.fetchFeatures d ids names).runOn host = (.ok f, host')) :
    ∃ stored, f.HasVertices stored ∧
      (s.tensor d).runOn host = (s.gather d stored ids names f, host') := by
  obtain ⟨stored, hstored⟩ := hsource.hasVertices hfetch
  refine ⟨stored, hstored, ?_⟩
  rw [runOn_tensor_eq hd, runOn_bind_ok hfetch, runOn_readFeatures hsource.columns_eq hstored]

lemma tensor_answers (hne : names ≠ []) (h : (s.tensor d).runOn host = (.ok t, host')) :
    ∃ f, (s.fetchFeatures d ids names).runOn host = (.ok f, host') ∧
      f.Answers ids names d.dtype.flat t := by
  rcases hfetch : (s.fetchFeatures d ids names).runOn host with ⟨e | f, between⟩
  · rw [runOn_tensor_eq hd, runOn_bind_error hfetch] at h
    simp at h
  · obtain ⟨stored, hstored, hrun⟩ := runOn_tensor_of_fetch hsource hd hfetch
    obtain ⟨hgather, rfl⟩ := Prod.mk.inj (hrun.symm.trans h)
    exact ⟨f, rfl, answers_of_gather hstored hne hgather⟩

lemma tensor_reordered (hne : names ≠ []) (hids : ∀ id, id ∈ ids' ↔ id ∈ ids)
    (hgraph : host'.graph = host.graph) :
    SucceedTogether (SameFeatures names.length ids ids') ((s.tensor d).runOn host).1
      ((s.tensor (d.withIndex ids')).runOn host').1 := by
  have hd' : AsksFor (d.withIndex ids') ids' names := by
    obtain ⟨hgroup, hname, -, hproperties, hdtype⟩ :=
      TensorDescriptor.isComplete_iff.mp hd.complete
    exact ⟨TensorDescriptor.isComplete_iff.mpr ⟨hgroup, hname, rfl, hproperties, hdtype⟩, rfl,
      hd.properties⟩
  -- both fetches have the same outcome, since the tables see the ids of a query as a set
  obtain ⟨handOut, left, hout⟩ := hsource.exists_handsOut
  have hsame : ((s.fetchFeatures (d.withIndex ids') ids' names).runOn host').1
      = ((s.fetchFeatures d ids names).runOn host).1 := by
    rw [fetchFeatures, fetchFeatures, hout.run, hout.run, hgraph]
    exact congrArg handOut (fetchVertices_congr host.graph hids _ _)
  rcases hfetch : (s.fetchFeatures d ids names).runOn host with ⟨e | f, between⟩ <;>
    rcases hfetch' : (s.fetchFeatures (d.withIndex ids') ids' names).runOn host'
      with ⟨e' | f', between'⟩ <;>
    rw [hfetch, hfetch'] at hsame
  · rw [runOn_tensor_eq hd, runOn_bind_error hfetch, runOn_tensor_eq hd',
      runOn_bind_error hfetch']
    trivial
  · simp at hsame
  · simp at hsame
  · obtain rfl := Except.ok.inj hsame
    obtain ⟨stored, hstored, hrun⟩ := runOn_tensor_of_fetch hsource hd hfetch
    obtain ⟨stored', hstored', hrun'⟩ := runOn_tensor_of_fetch hsource hd' hfetch'
    obtain rfl : stored = stored' :=
      Column.int64.inj (Except.ok.inj (hstored.column.symm.trans hstored'.column))
    rw [hrun, hrun']
    exact gather_reordered hstored hne hids

lemma tensor_of_missing {id : Int}
    (hfetch : (s.fetchFeatures d ids names).runOn host = (.ok f, host')) (hid : id ∈ ids)
    (hmissing : f.rowOf? id = none) :
    ∃ e, (s.tensor d).runOn host = (.error (.lookup e), host') := by
  obtain ⟨stored, hstored, hrun⟩ := runOn_tensor_of_fetch hsource hd hfetch
  obtain ⟨e, he⟩ := gather_of_missing hid ((Frame.rowOf?_eq_none_iff hstored).mp hmissing)
  exact ⟨e, by rw [hrun, he]⟩

end Follows

/-- The tensor of a request follows the request: its rows are those of the vertices asked for, in
the order in which they are asked for. -/
theorem tensor_follows (hsource : FetchesRows s.source) (hd : AsksFor d ids names)
    (hne : names ≠ []) : s.FollowsRequest d ids names where
  answered _ _ _ := tensor_answers hsource hd hne
  reordered _ _ _ := tensor_reordered hsource hd hne
  missing _ _ _ _ := tensor_of_missing hsource hd

/-- A request for two papers, one of them twice, under their ids now and before. -/
def libraryRequest : TensorDescriptor where
  group := .value (some "paper")
  name := .value (some "ids")
  index := .value (some [3, 2, 3])
  properties := .value (some ["_VERTEX_", "_VERTEX__old"])
  dtype := .value (some .float32)

theorem tensor_follows_library :
    FetchesRows libraryStore.source ∧
      AsksFor libraryRequest [3, 2, 3] ["_VERTEX_", "_VERTEX__old"] ∧
      ["_VERTEX_", "_VERTEX__old"] ≠ [] ∧
      libraryStore.FollowsRequest libraryRequest [3, 2, 3] ["_VERTEX_", "_VERTEX__old"] ∧
      ((libraryStore.tensor libraryRequest).runOn libraryRun.2).1.toOption
        = some ⟨.float32 ([3, 3, 2, 1, 3, 3].map .ofInt), [3, 2], .cpu⟩ := by
  have hsource : FetchesRows libraryStore.source := .inl reachable_libraryStore.source_eq
  have hd : AsksFor libraryRequest [3, 2, 3] ["_VERTEX_", "_VERTEX__old"] :=
    ⟨by decide, rfl, rfl⟩
  have hne : ["_VERTEX_", "_VERTEX__old"] ≠ [] := by decide
  exact ⟨hsource, hd, hne, tensor_follows hsource hd hne, by decide +kernel⟩

end Store

end TypedGraph
