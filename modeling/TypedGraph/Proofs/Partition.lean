import TypedGraph.Graph.Source
import TypedGraph.Proofs.Frames
import TypedGraph.Proofs.Order

/-!
# Rows part by part

What a fetch answers with, and what spreading its rows over parts does to them. A fetched frame
holds its fixed columns row by row (`fetchVertices_eq_ok`, `fetchEdges_eq_ok`). Handing rows out
part by part is sorting them by the part of their id (`pick_partOrder`), so no row is lost or
repeated (`partOrder_perm`).
-/

namespace TypedGraph

open Traversal

/-! ### Pushing columns -/

namespace Frame

variable {f f' : Frame} {name : String} {c : Column}

lemma push_eq_ok_iff : f.push name c = .ok f' ↔
    (f.columns ≠ [] → c.length = f.rows) ∧ name ∉ f.names ∧
      f' = ⟨f.columns ++ [(name, c)]⟩ := by
  have hlength : (!f.columns.isEmpty && f.rows != c.length) = true ↔
      ¬ (f.columns ≠ [] → c.length = f.rows) := by
    rw [Classical.not_imp, Bool.and_eq_true, Bool.not_eq_true', List.isEmpty_eq_false_iff,
      bne_iff_ne, ne_comm (a := f.rows)]
  have hname : f.names.contains name = true ↔ name ∈ f.names := List.contains_iff_mem
  rw [push]
  split_ifs with hlen hdup
  · constructor
    · intro h
      simp at h
    · rintro ⟨hgood, -⟩
      exact absurd hgood (hlength.mp hlen)
  · constructor
    · intro h
      simp at h
    · rintro ⟨-, hnew, -⟩
      exact absurd (hname.mp hdup) hnew
  · constructor
    · intro h
      exact ⟨not_not.mp (mt hlength.mpr hlen), mt hname.mpr hdup, (Except.ok.inj h).symm⟩
    · rintro ⟨-, -, rfl⟩
      rfl

/-- A column before some others is found under its name. -/
lemma column_of_append {base more : List (String × Column)} (hcolumns : f.columns = base ++ more)
    (h : Frame.column ⟨base⟩ name = .ok c) : f.column name = .ok c := by
  rw [column_eq_ok_iff] at h ⊢
  obtain ⟨e, he, hc⟩ := Option.map_eq_some_iff.mp h
  rw [hcolumns, List.find?_append, he]
  exact congrArg some hc

end Frame

namespace Graph

/-- Pushing properties keeps the columns that are there, and all columns equally long. -/
lemma pushProperties_eq_ok {rows : List Json.Properties} {names : List String} {f f' : Frame}
    {n : Nat} (heven : f.Even n) (hne : f.columns ≠ []) (h : pushProperties rows names f = .ok f') :
    f'.Even n ∧ ∃ more, f'.columns = f.columns ++ more := by
  induction names generalizing f with
  | nil =>
    obtain rfl : f = f' := Except.ok.inj h
    exact ⟨heven, [], by simp⟩
  | cons name names ih =>
    obtain ⟨between, hpush, h⟩ := bind_eq_ok_iff.mp h
    obtain ⟨c, -, hpush⟩ := bind_eq_ok_iff.mp hpush
    obtain ⟨hlen, -, rfl⟩ := Frame.push_eq_ok_iff.mp hpush
    have heven' : Frame.Even ⟨f.columns ++ [(name, c)]⟩ n := by
      intro d hd
      rcases List.mem_append.mp hd with hd | hd
      · exact heven d hd
      · rw [List.mem_singleton.mp hd, hlen hne, Frame.rows_of_even heven hne]
    obtain ⟨hev, more, hmore⟩ := ih heven' (by simp) h
    exact ⟨hev, (name, c) :: more, by simp [hmore]⟩

variable {g : Graph} {q : Query} {f : Frame}

/-! ### Fetched frames -/

lemma pairwise_rowsWithIds {α : Type} (table : SortedMap Int α) (ids : Option (List Int)) :
    (rowsWithIds table ids).Pairwise (·.1 < ·.1) := by
  cases ids with
  | none => exact table.ascending
  | some ids =>
    rw [rowsWithIds, List.pairwise_filterMap]
    refine (Ascending.pairwise_ofList ids).imp ?_
    intro a b hab r hr r' hr'
    obtain ⟨v, -, rfl⟩ := Option.map_eq_some_iff.mp hr
    obtain ⟨v', -, rfl⟩ := Option.map_eq_some_iff.mp hr'
    exact hab

/-- A frame of vertices holds the ids and the types of the rows that were chosen. -/
lemma fetchVertices_eq_ok (h : g.fetchVertices q = .ok f) :
    f.column vertexColumn = .ok (.int64 ((g.vertexRows q).map (·.1))) ∧
      f.column typeColumn = .ok (.utf8 ((g.vertexRows q).map (·.2.type))) ∧
      f.Even (g.vertexRows q).length := by
  obtain ⟨names, -, h⟩ := bind_eq_ok_iff.mp h
  have hbase : Frame.Even ⟨vertexColumns (g.vertexRows q)⟩ (g.vertexRows q).length := by
    simp [Frame.Even, vertexColumns]
  obtain ⟨heven, more, hmore⟩ := pushProperties_eq_ok hbase (by simp [vertexColumns]) h
  exact ⟨Frame.column_of_append hmore rfl, Frame.column_of_append hmore rfl, heven⟩

/-- A frame of edges holds the ids and the ends of the rows that were chosen. -/
lemma fetchEdges_eq_ok (h : g.fetchEdges q = .ok f) :
    f.column edgeIdColumn = .ok (.int64 ((g.edgeRows q).map (·.1))) ∧
      f.column sourceColumn = .ok (.int64 ((g.edgeRows q).map (·.2.source))) ∧
      f.column destinationColumn = .ok (.int64 ((g.edgeRows q).map (·.2.destination))) ∧
      f.Even (g.edgeRows q).length := by
  obtain ⟨names, -, h⟩ := bind_eq_ok_iff.mp h
  have hbase : Frame.Even ⟨edgeColumns (g.edgeRows q)⟩ (g.edgeRows q).length := by
    simp [Frame.Even, edgeColumns]
  obtain ⟨heven, more, hmore⟩ := pushProperties_eq_ok hbase (by simp [edgeColumns]) h
  exact ⟨Frame.column_of_append hmore rfl, Frame.column_of_append hmore rfl,
    Frame.column_of_append hmore rfl, heven⟩

lemma nodup_vertexRows (g : Graph) (q : Query) : ((g.vertexRows q).map (·.1)).Nodup := by
  have hasc : (g.vertexRows q).Pairwise (·.1 < ·.1) := (pairwise_rowsWithIds _ _).filter _
  exact (List.pairwise_map.mpr hasc).imp ne_of_lt

lemma get?_of_mem_vertexRows {r : Int × Vertex} (h : r ∈ g.vertexRows q) :
    g.vertices.get? r.1 = some r.2 := by
  have hrow := (List.mem_filter.mp h).1
  cases hids : q.ids with
  | none =>
    rw [hids] at hrow
    exact SortedMap.mem_entries_iff.mp hrow
  | some ids =>
    rw [hids] at hrow
    obtain ⟨id, -, hid⟩ := List.mem_filterMap.mp hrow
    obtain ⟨v, hv, rfl⟩ := Option.map_eq_some_iff.mp hid
    exact hv

lemma id_mem_of_mem_vertexRows {r : Int × Vertex} (h : r ∈ g.vertexRows q) {ids : List Int}
    (hids : q.ids = some ids) : r.1 ∈ ids := by
  have hrow := (List.mem_filter.mp h).1
  rw [hids] at hrow
  obtain ⟨id, hid, heq⟩ := List.mem_filterMap.mp hrow
  obtain ⟨v, -, rfl⟩ := Option.map_eq_some_iff.mp heq
  exact Ascending.mem_ofList.mp hid

lemma mem_vertexRows_of_get? {ids : List Int} (hids : q.ids = some ids) {id : Int} (hid : id ∈ ids)
    {v : Vertex} (hv : g.vertices.get? id = some v) (htype : admits q.types (some v.type)) :
    (id, v) ∈ g.vertexRows q := by
  refine List.mem_filter.mpr ⟨?_, htype⟩
  rw [hids]
  exact List.mem_filterMap.mpr ⟨id, Ascending.mem_ofList.mpr hid, by rw [hv]; rfl⟩

lemma nodup_edgeRows (g : Graph) (q : Query) : ((g.edgeRows q).map (·.1)).Nodup := by
  have hasc : (g.edgeRows q).Pairwise (·.1 < ·.1) := (pairwise_rowsWithIds _ _).filter _
  exact (List.pairwise_map.mpr hasc).imp ne_of_lt

end Graph

/-! ### Parts -/

namespace Source

/-- Whether one id comes before another part by part. -/
def partLe (parts : Nat) (a b : Int) : Bool := decide (a % (parts : Int) ≤ b % (parts : Int))

/-- The order part by part is that of sorting positions by the part of their id. -/
lemma partOrder_eq (parts : Nat) (ids : List Int) :
    partOrder parts ids
      = (Sorting.sort (fun a b => partLe parts a.1 b.1) ids.zipIdx).map (·.2) := by
  have hsort := Sorting.sort_by_key (fun p : Int × Nat => p.1)
    (ids.zipIdx.map fun p => (p.1 % (parts : Int), p.2))
  have hgroups : partOrder parts ids = (Sorting.groups (fun p : Int × Nat => p.1)
      (Ascending.ofList ((ids.zipIdx.map fun p => (p.1 % (parts : Int), p.2)).map (·.1)))
      (ids.zipIdx.map fun p => (p.1 % (parts : Int), p.2))).map (·.2) := by
    rw [partOrder, Sorting.groups, List.map_flatMap]
  rw [hgroups, ← hsort, Sorting.sort_map, List.map_map]
  rfl

lemma partOrder_perm (parts : Nat) (ids : List Int) :
    (partOrder parts ids).Perm (List.range ids.length) := by
  have hrange : List.range ids.length = ids.zipIdx.map (·.2) := by
    rw [List.zipIdx_map_snd, List.range_eq_range']
  rw [partOrder_eq, hrange]
  exact (Sorting.sort_perm _ _).map _

/-- Rows handed out part by part are the rows sorted by the part of their id. -/
theorem pick_partOrder {α : Type} (parts : Nat) (id : α → Int) (rows : List α) :
    pick rows (partOrder parts (rows.map id))
      = Sorting.sort (fun a b => partLe parts (id a) (id b)) rows := by
  have hzip : (rows.map id).zipIdx = rows.zipIdx.map fun p => (id p.1, p.2) := by
    rw [List.zipIdx_map]
    rfl
  have hsort : partOrder parts (rows.map id)
      = (Sorting.sort (fun a b => partLe parts (id a.1) (id b.1)) rows.zipIdx).map (·.2) := by
    rw [partOrder_eq, hzip, Sorting.sort_map, List.map_map]
    rfl
  -- every row is still beside its place, by which it is taken again
  have hat : ∀ p ∈ Sorting.sort (fun a b => partLe parts (id a.1) (id b.1)) rows.zipIdx,
      rows[p.2]? = some p.1 := by
    intro p hp
    exact List.mem_zipIdx_iff_getElem?.mp ((Sorting.mem_sort _).mp hp)
  have hrows := Sorting.sort_map (fun a b => partLe parts (id a) (id b)) Prod.fst rows.zipIdx
  rw [List.zipIdx_map_fst] at hrows
  rw [hsort, pick_map_snd hat]
  exact hrows.symm

end Source

end TypedGraph
