import TypedGraph.Proofs.Building
import TypedGraph.Proofs.Grouping

/-!
# Offset tables of renumbered graphs

Renumbering puts the vertices of a type in one block, so the blocks of equal neighbours are one
range for each type, and the ranges tile the ids from zero on. Such ranges pass the check of a table
as they are, and what the table tells of an id or of a type is what the graph tells
(`build_offsets_describe`).
-/

namespace TypedGraph

open Traversal

/-! ### Ranges of counted types -/

namespace TypeRange

variable {count : String → Nat} {first id : Int} {keys : List String} {r : TypeRange}

/-- One range for each of some types, as long as the type counts, one after the other. -/
def tile (count : String → Nat) (first : Int) : List String → List TypeRange
  | [] => []
  | k :: ks => ⟨k, first, first + count k⟩ :: tile count (first + count k) ks

/-- Each of some types as often as it counts, in order. -/
def repeated (count : String → Nat) (keys : List String) : List String :=
  keys.flatMap fun k => List.replicate (count k) k

lemma repeated_cons (count : String → Nat) (k : String) (ks : List String) :
    repeated count (k :: ks) = List.replicate (count k) k ++ repeated count ks :=
  List.flatMap_cons

lemma mem_of_mem_repeated {k : String} (h : k ∈ repeated count keys) : k ∈ keys := by
  obtain ⟨k', hk', hk⟩ := List.mem_flatMap.mp h
  rwa [List.eq_of_mem_replicate hk]

/-- Ascending names are each name as often as it occurs, in order. -/
lemma eq_repeated_of_ascending {names : List String} (h : names.Pairwise (· ≤ ·)) :
    names = repeated (names.count ·) (Ascending.ofList names) := by
  have hsorted := Sorting.sort_by_key (fun name : String => name) names
  rw [Sorting.sort_eq_self (h.imp decide_eq_true), List.map_id'] at hsorted
  refine hsorted.trans (List.flatMap_congr fun name _ => List.eq_replicate_iff.mpr ⟨?_, ?_⟩)
  · exact List.count_eq_length_filter.symm
  · intro other hother
    simpa using (List.mem_filter.mp hother).2

lemma map_name_ofNames_head (first : Int) (names : List String) :
    (ofNames first names).head?.map (·.name) = names.head? := by
  cases names with
  | nil => rfl
  | cons name names =>
    rw [ofNames]
    cases ofNames (first + 1) names with
    | nil => rfl
    | cons r rs =>
      rw [prepend]
      split_ifs with h
      · simpa using h
      · rfl

/-- Equal names before others make one range. -/
lemma ofNames_replicate_append {k : String} {rest : List String} (hrest : k ∉ rest) (first : Int)
    (n : Nat) : ofNames first (List.replicate (n + 1) k ++ rest)
      = ⟨k, first, first + (n + 1)⟩ :: ofNames (first + (n + 1)) rest := by
  induction n generalizing first with
  | zero =>
    have hhead := map_name_ofNames_head (first + 1) rest
    simp only [zero_add, List.replicate_one, List.singleton_append, ofNames, Nat.cast_zero]
    -- what comes next does not begin with the name, so the range is not lengthened
    cases hranges : ofNames (first + 1) rest with
    | nil => rfl
    | cons r rs =>
      rw [hranges, List.head?_cons, Option.map_some] at hhead
      have hne : r.name ≠ k := fun h => hrest (h ▸ List.mem_of_head? hhead.symm)
      rw [prepend, if_neg hne]
  | succ n ih =>
    rw [List.replicate_succ, List.cons_append, ofNames, ih (first + 1), prepend, if_pos rfl]
    have hstop : first + 1 + ((n : Int) + 1) = first + ((n + 1 : Nat) + 1) := by
      push_cast
      ring
    rw [hstop]

/-- The blocks of equal neighbours in counted types are one range for each type. -/
lemma ofNames_repeated (hkeys : keys.Nodup) (hcount : ∀ k ∈ keys, count k ≠ 0) (first : Int) :
    ofNames first (repeated count keys) = tile count first keys := by
  induction keys generalizing first with
  | nil => rfl
  | cons k ks ih =>
    obtain ⟨hk, hks⟩ := List.nodup_cons.mp hkeys
    obtain ⟨hpos, hrest⟩ := List.forall_mem_cons.mp hcount
    obtain ⟨n, hn⟩ := Nat.exists_eq_succ_of_ne_zero hpos
    have hnot : k ∉ repeated count ks := fun h => hk (mem_of_mem_repeated h)
    rw [repeated_cons, tile, hn, ofNames_replicate_append hnot, ← ih hks hrest, Nat.cast_succ]

@[simp] lemma map_name_tile (count : String → Nat) (first : Int) (keys : List String) :
    (tile count first keys).map (·.name) = keys := by
  induction keys generalizing first with
  | nil => rfl
  | cons k ks ih => rw [tile, List.map_cons, ih]

lemma start_le_of_mem_tile (h : r ∈ tile count first keys) :
    first ≤ r.start ∧ r.start ≤ r.stop := by
  induction keys generalizing first with
  | nil => simp [tile] at h
  | cons k ks ih =>
    rcases List.mem_cons.mp h with rfl | h
    · exact ⟨le_refl _, by simp⟩
    · have hlater := ih h
      exact ⟨by omega, hlater.2⟩

/-- The ids of the ranges, range by range, are one range. -/
lemma flatMap_tile (count : String → Nat) (first : Int) (keys : List String) :
    ((tile count first keys).flatMap fun r => intRange r.start r.stop)
      = intRange first (first + (repeated count keys).length) := by
  induction keys generalizing first with
  | nil => simp [tile, repeated, intRange_eq_nil]
  | cons k ks ih =>
    have hfirst : first ≤ first + (count k : Int) := by omega
    rw [tile, List.flatMap_cons, ih, intRange_append hfirst (by omega), repeated_cons,
      List.length_append, List.length_replicate]
    congr 1
    push_cast
    ring

lemma getElem?_repeated_of_lt {k : String} (ks : List String) (h : first ≤ id)
    (hlt : id < first + count k) : (repeated count (k :: ks))[(id - first).toNat]? = some k := by
  rw [repeated_cons, List.getElem?_append_left (by rw [List.length_replicate]; omega),
    List.getElem?_replicate_of_lt (by omega)]

lemma getElem?_repeated_of_le {k : String} (ks : List String) (h : first + count k ≤ id) :
    (repeated count (k :: ks))[(id - first).toNat]?
      = (repeated count ks)[(id - (first + count k)).toNat]? := by
  rw [repeated_cons, List.getElem?_append_right (by rw [List.length_replicate]; omega),
    List.length_replicate]
  congr 1
  omega

/-- An id is in the range of a type exactly if the type is repeated at its place. -/
lemma mem_tile_iff (hkeys : keys.Nodup) (hr : r ∈ tile count first keys) :
    r.start ≤ id ∧ id < r.stop ↔
      first ≤ id ∧ (repeated count keys)[(id - first).toNat]? = some r.name := by
  induction keys generalizing first with
  | nil => simp [tile] at hr
  | cons k ks ih =>
    obtain ⟨hk, hks⟩ := List.nodup_cons.mp hkeys
    rcases lt_or_ge id first with hlt | hge
    · have hstart := (start_le_of_mem_tile hr).1
      constructor
      · omega
      · omega
    rcases lt_or_ge id (first + count k) with hin | hout
    -- the id is at a place of the first type, which no later range has for its name
    · rw [getElem?_repeated_of_lt ks hge hin]
      rcases List.mem_cons.mp hr with rfl | hr
      · simp [hge, hin]
      · have hstart := (start_le_of_mem_tile hr).1
        have hname : r.name ∈ ks := by
          rw [← map_name_tile count (first + count k) ks]
          exact List.mem_map_of_mem hr
        constructor
        · omega
        · rintro ⟨-, heq⟩
          exact absurd (Option.some.inj heq ▸ hname) hk
    · -- the id is past the first type, so it is at the same place among the others
      rw [getElem?_repeated_of_le ks hout]
      rcases List.mem_cons.mp hr with rfl | hr
      · constructor
        · rintro ⟨-, hlt⟩
          exact absurd hlt (not_lt.mpr hout)
        · rintro ⟨-, heq⟩
          exact absurd (mem_of_mem_repeated (List.mem_of_getElem? heq)) hk
      · rw [ih hks hr]
        simp [hge, hout]

lemma pairwise_stop_tile (count : String → Nat) (first : Int) (keys : List String) :
    ((tile count first keys).map (·.stop)).Pairwise (· ≤ ·) := by
  induction keys generalizing first with
  | nil => exact .nil
  | cons k ks ih =>
    refine List.pairwise_cons.mpr ⟨List.forall_mem_map.mpr fun r hr => ?_, ih _⟩
    obtain ⟨hstart, hstop⟩ := start_le_of_mem_tile hr
    exact hstart.trans hstop

/-- As many ranges end up to an id as there are types before the one that is repeated at its place.
-/
lemma getElem?_takeWhile_tile (h : first ≤ id) :
    keys[(((tile count first keys).map (·.stop)).takeWhile (· ≤ id)).length]?
      = (repeated count keys)[(id - first).toNat]? := by
  induction keys generalizing first with
  | nil => simp [repeated]
  | cons k ks ih =>
    rw [tile, List.map_cons, List.takeWhile_cons]
    by_cases hstop : first + (count k : Int) ≤ id
    · rw [if_pos (decide_eq_true hstop), List.length_cons, List.getElem?_cons_succ, ih hstop,
        getElem?_repeated_of_le ks hstop]
    · rw [if_neg (by simpa using hstop), getElem?_repeated_of_lt ks h (not_le.mp hstop)]
      rfl

/-- The search among the ends of the ranges comes to the type that is repeated at the place of the
id. -/
lemma getElem?_partitionPoint_tile (h : first ≤ id) :
    keys[Search.partitionPoint (· ≤ id) ((tile count first keys).map (·.stop))]?
      = (repeated count keys)[(id - first).toNat]? := by
  rw [Search.partitionPoint_eq (Search.pairwise_notAbove (pairwise_stop_tile count first keys) id)]
  exact getElem?_takeWhile_tile h

end TypeRange

/-! ### Tables of tiling ranges -/

namespace Offsets

open TypeRange

variable {t : Offsets} {count : String → Nat} {keys : List String} {id : Int} {name : String}

/-- The block of a name, if no other has the name. -/
lemma rangeOf_of_mem (hnames : t.names.Nodup) {r : TypeRange} (hr : r ∈ t.ranges) :
    t.rangeOf r.name = .ok r := by
  have hsome : (t.ranges.find? (·.name = r.name)).isSome :=
    List.find?_isSome.mpr ⟨r, hr, by simp⟩
  obtain ⟨found, hfound⟩ := Option.isSome_iff_exists.mp hsome
  have hname : found.name = r.name := by simpa using List.find?_some hfound
  rw [rangeOf, hfound, List.inj_on_of_nodup_map hnames (List.mem_of_find?_eq_some hfound) hr hname]

lemma idsOf_of_mem (hnames : t.names.Nodup) {r : TypeRange} (hr : r ∈ t.ranges) :
    t.idsOf r.name = .ok (intRange r.start r.stop) := by
  rw [idsOf, rangeOf_of_mem hnames hr]
  rfl

/-- The table of the ranges of some types, from zero on. -/
def tiling (count : String → Nat) (keys : List String) : Offsets := ⟨tile count 0 keys⟩

@[simp] lemma names_tiling (count : String → Nat) (keys : List String) :
    (tiling count keys).names = keys :=
  map_name_tile count 0 keys

lemma pairwise_tile (count : String → Nat) (first : Int) (keys : List String) :
    (tile count first keys).Pairwise (before · ·) := by
  induction keys generalizing first with
  | nil => exact .nil
  | cons k ks ih =>
    refine List.pairwise_cons.mpr ⟨fun r hr => ?_, ih _⟩
    obtain ⟨hstart, hstop⟩ := start_le_of_mem_tile hr
    simp only [before, Bool.or_eq_true, Bool.and_eq_true, decide_eq_true_eq]
    omega

lemma check_tile (hkeys : keys.Nodup) (first : Int) {seen : List String}
    (hseen : ∀ k ∈ keys, k ∉ seen) : check first seen (tile count first keys) = .ok () := by
  induction keys generalizing first seen with
  | nil => rfl
  | cons k ks ih =>
    obtain ⟨hk, hks⟩ := List.nodup_cons.mp hkeys
    obtain ⟨hnew, hseen⟩ := List.forall_mem_cons.mp hseen
    have hnot : ∀ k' ∈ ks, k' ∉ k :: seen := fun k' hk' hmem =>
      (List.mem_cons.mp hmem).elim (fun h => hk (h ▸ hk')) (hseen k' hk')
    rw [tile, check, if_neg (by simp), if_neg (by simp), if_neg (by simpa using hnew)]
    exact ih hks _ hnot

/-- Ranges that tile the ids are a table as they are. -/
lemma ofRanges_tile (hkeys : keys.Nodup) :
    ofRanges (tile count 0 keys) = .ok (tiling count keys) := by
  rw [ofRanges, Sorting.sort_eq_self (pairwise_tile count 0 keys)]
  rw [check_tile hkeys 0 (by simp)]
  rfl

lemma typeOf_tiling : (tiling count keys).typeOf id = .ok name ↔
    0 ≤ id ∧ (repeated count keys)[id.toNat]? = some name := by
  rw [typeOf_eq_ok_iff, names_tiling]
  refine and_congr_right fun hneg => ?_
  rw [ends, tiling, getElem?_partitionPoint_tile hneg, sub_zero]

lemma idsOf_tiling (hkeys : keys.Nodup) {r : TypeRange} (hr : r ∈ tile count 0 keys) :
    (tiling count keys).idsOf r.name = .ok (intRange r.start r.stop) :=
  idsOf_of_mem (by rwa [names_tiling]) hr

/-- The ids of the types of a table, type after type, are those from zero on. -/
lemma mapM_idsOf_tiling (hkeys : keys.Nodup) :
    ∃ parts, (tiling count keys).names.mapM (tiling count keys).idsOf = .ok parts ∧
      parts.flatten = intRange 0 (repeated count keys).length := by
  refine ⟨(tile count 0 keys).map fun r => intRange r.start r.stop, ?_, ?_⟩
  · rw [names, tiling, List.mapM_map]
    exact mapM_eq_ok_map fun r hr => idsOf_tiling hkeys hr
  · rw [← List.flatMap_def, flatMap_tile, zero_add]

end Offsets

/-! ### Tables of counts -/

namespace Offsets

lemma map_name_blocks (start : Int) (counts : List (String × Nat)) :
    (blocks start counts).map (·.name) = counts.map (·.1) := by
  induction counts generalizing start with
  | nil => rfl
  | cons c counts ih => rw [blocks, List.map_cons, List.map_cons, ih]

lemma names_ofCounts (counts : List (String × Nat)) :
    (ofCounts counts).names.Perm (counts.map (·.1)) := by
  rw [names, ofCounts, map_name_blocks]
  exact (Sorting.sort_perm _ counts).map _

end Offsets

/-! ### Tables that describe a graph -/

namespace Graph

variable {g : Graph}

/-- The ids of the vertices of a type, ascending. -/
def vertexIdsOf (g : Graph) (type : String) : List Int :=
  (g.vertices.entries.filter (·.2.type = type)).map (·.1)

lemma pairwise_vertexIdsOf (g : Graph) (type : String) :
    (g.vertexIdsOf type).Pairwise (· < ·) :=
  List.pairwise_map.mpr (g.vertices.ascending.filter _)

lemma mem_vertexIdsOf {type : String} {id : Int} :
    id ∈ g.vertexIdsOf type ↔ ∃ v, g.vertices.get? id = some v ∧ v.type = type := by
  simp [vertexIdsOf, SortedMap.mem_entries_iff]

lemma mem_vertexTypes {type : String} :
    type ∈ g.vertexTypes ↔ ∃ id, id ∈ g.vertexIdsOf type := by
  simp [vertexTypes, Ascending.mem_ofList, SortedMap.values, vertexIdsOf]

lemma vertexTypes_congr {g' : Graph} (h : ∀ type, type ∈ g'.vertexTypes ↔ type ∈ g.vertexTypes) :
    g'.vertexTypes = g.vertexTypes :=
  (Ascending.pairwise_ofList _).eq_of_mem_iff (Ascending.pairwise_ofList _) h

end Graph

namespace Offsets

open TypeRange

variable {t : Offsets} {g : Graph} {id : Int} {v : Vertex} {name : String}

/-- A table tells of a graph what is so. -/
structure Describes (t : Offsets) (g : Graph) : Prop where
  keys : g.vertices.keys = intRange 0 g.vertices.size
  typeOf : ∀ id v, g.vertices.get? id = some v → t.typeOf id = .ok v.type
  idsOf : ∀ type ∈ g.vertexTypes, t.idsOf type = .ok (g.vertexIdsOf type)
  names : t.names.Perm g.vertexTypes
  /-- The ids of the types, type after type, are those from zero on. -/
  parts : ∃ parts, t.names.mapM t.idsOf = .ok parts ∧
    parts.flatten = intRange 0 g.vertices.size

/-- The ranges of types tell what is so of vertices that stand type by type. -/
lemma describes_tiling {count : String → Nat} {keys : List String} (hkeys : keys.Nodup)
    (hcount : ∀ k ∈ keys, count k ≠ 0) {g : Graph} {rows : List Vertex}
    (hvertices : g.vertices = Graph.enumerate rows)
    (htypes : rows.map (·.type) = repeated count keys) : (tiling count keys).Describes g := by
  have hsize : (repeated count keys).length = g.vertices.size := by
    rw [hvertices, Graph.size_enumerate, ← htypes, List.length_map]
  have hids {id : Int} {type : String} : id ∈ g.vertexIdsOf type ↔
      0 ≤ id ∧ (repeated count keys)[id.toNat]? = some type := by
    simp only [Graph.mem_vertexIdsOf, hvertices, ← htypes, List.getElem?_map,
      Option.map_eq_some_iff, Graph.get?_enumerate_eq_some_iff, and_assoc, exists_and_left]
  have hmem {type : String} : type ∈ g.vertexTypes ↔ type ∈ keys := by
    rw [Graph.mem_vertexTypes]
    constructor
    · rintro ⟨id, hid⟩
      exact mem_of_mem_repeated (List.mem_of_getElem? (hids.mp hid).2)
    · intro htype
      have hrepeated : type ∈ repeated count keys :=
        List.mem_flatMap.mpr ⟨type, htype, List.mem_replicate.mpr ⟨hcount type htype, rfl⟩⟩
      obtain ⟨n, hn⟩ := List.mem_iff_getElem?.mp hrepeated
      exact ⟨n, hids.mpr ⟨by simp, by simpa using hn⟩⟩
  -- the table and the graph are both read off the same list of repeated types
  refine ⟨?_, fun id v hv => ?_, fun type htype => ?_, ?_, ?_⟩
  · rw [hvertices, Graph.keys_enumerate, Graph.size_enumerate]
  · rw [typeOf_tiling, ← hids, Graph.mem_vertexIdsOf]
    exact ⟨v, hv, rfl⟩
  · rw [hmem, ← map_name_tile count 0 keys] at htype
    obtain ⟨r, hr, rfl⟩ := List.mem_map.mp htype
    rw [idsOf_tiling hkeys hr]
    refine congrArg Except.ok ((pairwise_intRange _ _).eq_of_mem_iff (g.pairwise_vertexIdsOf _)
      fun id => ?_)
    rw [mem_intRange, mem_tile_iff hkeys hr, hids, sub_zero]
  · rw [names_tiling]
    have hnodup : g.vertexTypes.Nodup := Ascending.nodup_ofList _
    exact (List.perm_ext_iff_of_nodup hkeys hnodup).mpr fun type => hmem.symm
  · rw [← hsize]
    exact mapM_idsOf_tiling hkeys

/-- Where some id of the last block is of the type of the block, an id of any type is below the
total. -/
lemma lt_total_of_typeOf (hnames : t.names.Nodup) {last : TypeRange}
    (hlast : t.ranges.getLast? = some last) {j : Int} (hj : t.typeOf j = .ok last.name)
    (hstop : j < last.stop) (hid : t.typeOf id = .ok name) : id < t.total := by
  obtain ⟨-, hjname⟩ := typeOf_eq_ok_iff.mp hj
  obtain ⟨-, hname⟩ := typeOf_eq_ok_iff.mp hid
  have hlt := (List.getElem?_eq_some_iff.mp hname).1
  have hindex : t.names[t.names.length - 1]? = some last.name := by
    rw [← List.getLast?_eq_getElem?, names, List.getLast?_map, hlast]
    rfl
  -- names come once, so the block is told by its name: the last one
  have hblock : Search.partitionPoint (· ≤ j) t.ends = t.names.length - 1 :=
    (List.getElem?_inj (List.getElem?_eq_some_iff.mp hjname).1 hnames).mp
      (hjname.trans hindex.symm)
  have htotal : t.total = last.stop := by
    rw [total, ends, List.getLast?_map, hlast]
    rfl
  rw [htotal]
  by_contra hge
  push Not at hge
  -- the id is not below `j`, so it falls in the last block, whose end is above it
  have hmono : Search.partitionPoint (· ≤ j) t.ends ≤ Search.partitionPoint (· ≤ id) t.ends :=
    Search.partitionPoint_mono fun stop hle =>
      decide_eq_true ((of_decide_eq_true hle).trans (hstop.le.trans hge))
  have hsame : Search.partitionPoint (· ≤ id) t.ends = t.ends.length - 1 := by
    rw [length_ends]
    omega
  have hend : t.ends[Search.partitionPoint (· ≤ id) t.ends]? = some last.stop := by
    rw [hsame, ← List.getLast?_eq_getElem?, ends, List.getLast?_map, hlast]
    rfl
  exact Search.not_low_of_getElem? hend (decide_eq_true hge)

namespace Describes

lemma nodup_names (h : t.Describes g) : t.names.Nodup :=
  h.names.nodup_iff.mpr (Ascending.nodup_ofList _)

/-- The id of a vertex is in the table. -/
lemma id_within (h : t.Describes g) (hv : g.vertices.get? id = some v) :
    0 ≤ id ∧ id < t.total := by
  obtain ⟨hneg, hname⟩ := typeOf_eq_ok_iff.mp (h.typeOf id v hv)
  refine ⟨hneg, ?_⟩
  have hne : t.ranges ≠ [] := by
    intro hnil
    have hlt := (List.getElem?_eq_some_iff.mp hname).1
    simp [Offsets.names, hnil] at hlt
  have hmem := List.getLast_mem hne
  have htype : (t.ranges.getLast hne).name ∈ g.vertexTypes :=
    h.names.mem_iff.mp (List.mem_map_of_mem hmem)
  -- the last block has a vertex, since its name is one of the vertex types
  obtain ⟨j, hj⟩ := Graph.mem_vertexTypes.mp htype
  obtain ⟨w, hw, hwtype⟩ := Graph.mem_vertexIdsOf.mp hj
  rw [← Except.ok.inj ((idsOf_of_mem h.nodup_names hmem).symm.trans (h.idsOf _ htype)),
    mem_intRange] at hj
  exact lt_total_of_typeOf h.nodup_names (List.getLast?_eq_some_getLast hne)
    ((h.typeOf j w hw).trans (congrArg Except.ok hwtype)) hj.2 (h.typeOf id v hv)

end Describes

end Offsets

/-! ### Tables of stores -/

namespace Graph

variable {g g' : Graph} {previous : Option String} {ranges : List TypeRange}

/-- The table made of the blocks of renumbered vertices tells what is so of them. -/
lemma ofRanges_describes (h : g.renumberVertices previous = .ok (ranges, g')) :
    ∃ t, Offsets.ofRanges ranges = .ok t ∧
      ∀ now : Graph, now.vertices = g'.vertices → t.Describes now := by
  let count (type : String) : Nat := (g.vertices.entries.filter (·.2.type = type)).length
  obtain ⟨rfl, hvertices⟩ := vertices_of_renumberVertices h
  have hkeys : g.typesByAppearance.Nodup := nodup_eraseDups _
  -- types that appear have vertices, so no block is empty
  have hcount : ∀ type ∈ g.typesByAppearance, count type ≠ 0 := by
    intro type htype hzero
    obtain ⟨e, he, rfl⟩ := mem_typesByAppearance.mp htype
    have hnil := List.length_eq_zero_iff.mp hzero
    exact List.not_mem_nil (hnil ▸ List.mem_filter.mpr ⟨he, decide_eq_true rfl⟩)
  have htypes : g.verticesByType.map (·.2.type)
      = TypeRange.repeated count g.typesByAppearance := map_inBlocks _ _ _
  refine ⟨Offsets.tiling count g.typesByAppearance, ?_, fun now hnow => ?_⟩
  · rw [htypes, TypeRange.ofNames_repeated hkeys hcount, Offsets.ofRanges_tile hkeys]
  · refine Offsets.describes_tiling hkeys hcount (hnow.trans hvertices) ?_
    rw [List.map_map, ← htypes]
    rfl

end Graph

namespace Store

variable {s : Store} {served : Device} {config : Config} {host host' : Host}

/-- Under a policy that renumbers, the table of a store tells of the graph what is so when the store
is built. -/
theorem build_offsets_describe (hpolicy : config.policy ≠ .keep)
    (h : (build .plain served config).runOn host = (.ok s, host')) :
    s.offsets.Describes host'.graph := by
  obtain ⟨-, -, -, -, between, hoffsets, hedges⟩ := build_eq_ok h
  rw [makeOffsets_of_ne_keep hpolicy] at hoffsets
  obtain ⟨ranges, _, hvertices, htable, hbetween⟩ := renumber_plain_eq_ok hoffsets
  obtain ⟨t, ht, hdescribes⟩ := Graph.ofRanges_describes hvertices
  obtain rfl := Except.ok.inj (ht.symm.trans htable)
  apply hdescribes
  rw [(EdgeCatalog.build_plain hedges).1, hbetween]
  rfl

theorem build_offsets_describe_library :
    ({} : Config).policy ≠ .keep ∧
      (build .plain .cpu {}).runOn { graph := library } = (.ok libraryStore, libraryRun.2) ∧
      libraryStore.offsets.Describes libraryRun.2.graph := by
  have hpolicy : ({} : Config).policy ≠ .keep := by decide
  exact ⟨hpolicy, runOn_build_library, build_offsets_describe hpolicy runOn_build_library⟩

end Store

end TypedGraph
