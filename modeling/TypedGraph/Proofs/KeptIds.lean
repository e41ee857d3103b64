import TypedGraph.Proofs.TypeConsistency

/-!
# Kept ids

Where ids are kept, the offset table is made of the counts of the vertex types alone, which are put
in the order of their names. It tells the type of every vertex exactly if the vertices have the ids
from zero on and their types ascend along them (`build_keep_tells`); over every other graph it
misses some vertex. The converse is a count: the block that an id is found in has room for no more
ids than it counts, so a table that is right about all ids of a type leaves no gap before the next
one.
-/

namespace TypedGraph

open Traversal TypedGraph.Action

/-! ### Counting ids -/

section Ids

variable {ids : List Int} {start stop : Int}

/-- Distinct ids of a range are no more than it is long. -/
lemma length_le_of_within (hids : ids.Nodup) (h : ∀ id ∈ ids, start ≤ id ∧ id < stop)
    (hle : start ≤ stop) : (ids.length : Int) ≤ stop - start := by
  have hsub : ids ⊆ intRange start stop := fun id hid => mem_intRange.mpr (h id hid)
  have hlength := (List.subperm_of_subset hids hsub).length_le
  rw [length_intRange] at hlength
  omega

/-- Ascending ids below their number are those from zero on. -/
lemma eq_intRange_of_lt_length (hids : ids.Pairwise (· < ·))
    (h : ∀ id ∈ ids, 0 ≤ id ∧ id < ids.length) : ids = intRange 0 ids.length := by
  have hsub : ids ⊆ intRange 0 ids.length := fun id hid => mem_intRange.mpr (h id hid)
  have hperm := (List.subperm_of_subset (hids.imp ne_of_lt) hsub).perm_of_length_le (by simp)
  exact hids.eq_of_mem_iff (pairwise_intRange _ _) fun _ => hperm.mem_iff

end Ids

/-! ### Blocks of counts -/

namespace Offsets

open TypeRange

variable {count : String → Nat} {keys : List String} {start : Int}

/-- Some types with their counts. -/
def counted (count : String → Nat) (keys : List String) : List (String × Nat) :=
  keys.map fun k => (k, count k)

lemma word64_lt (n : Int) : word64 n < 2 ^ 63 := Int.bmod_lt (by decide)

lemma word64_add_word64 (n m : Int) : word64 (n + word64 m) = word64 (n + m) := Int.add_bmod_bmod

/-- A word that is no less than the number it stands for is that number. -/
lemma word64_eq_of_le {n : Int} (hn : 0 ≤ n) (h : n ≤ word64 n) : word64 n = n := by
  have hlt := word64_lt n
  rw [word64, Int.bmod_def] at h hlt ⊢
  omega

/-- Counts that add up to less than `2 ^ 63` make blocks that tile the ids. -/
lemma blocks_counted (hstart : 0 ≤ start)
    (hsum : start + (repeated count keys).length < 2 ^ 63) :
    blocks start (counted count keys) = tile count start keys := by
  induction keys generalizing start with
  | nil => rfl
  | cons k ks ih =>
    rw [repeated_cons, List.length_append, List.length_replicate, Nat.cast_add] at hsum
    have hstop : word64 (start + word64 (count k)) = start + count k := by
      rw [word64_add_word64, word64_of_lt (by omega) (by omega)]
    have hrest : blocks (start + count k) (counted count ks) = tile count (start + count k) ks :=
      ih (by omega) (by omega)
    rw [counted] at hrest ⊢
    rw [List.map_cons, blocks, hstop, hrest]
    rfl

/-- A block within which there are as many ids as it counts is as long as it counts. -/
lemma stop_eq_of_within {ids : List Int} (hids : ids.Nodup) (hstart : 0 ≤ start)
    (hlt : start < 2 ^ 63)
    (h : ∀ id ∈ ids, start ≤ id ∧ id < word64 (start + word64 ids.length)) :
    word64 (start + word64 ids.length) = start + ids.length := by
  rw [word64_add_word64] at h ⊢
  refine word64_eq_of_le (by omega) ?_
  by_cases hnil : ids = []
  · rw [hnil, List.length_nil, Nat.cast_zero, add_zero, word64_of_lt hstart hlt]
  · obtain ⟨id, hid⟩ := List.exists_mem_of_ne_nil _ hnil
    have hle : start ≤ word64 (start + ids.length) := (h id hid).1.trans (h id hid).2.le
    have hlength := length_le_of_within hids h hle
    omega

/-- The block that an id is found in starts at or before it and ends after it. -/
lemma within_of_found {ends : List Int} {id first stop : Int} {i : Nat} (hstart : start ≤ id)
    (hfound : Search.partitionPoint (· ≤ id) ends = i) (hfirst : (start :: ends)[i]? = some first)
    (hstop : ends[i]? = some stop) : first ≤ id ∧ id < stop := by
  have hat : ends[Search.partitionPoint (· ≤ id) ends]? = some stop := hfound ▸ hstop
  refine ⟨?_, not_le.mp fun hle => Search.not_low_of_getElem? hat (decide_eq_true hle)⟩
  cases i with
  | zero =>
    obtain rfl := Option.some.inj hfirst
    exact hstart
  | succ i =>
    obtain ⟨stop', hstop', hle⟩ := Search.low_of_partitionPoint hfound
    rw [List.getElem?_cons_succ, hstop'] at hfirst
    obtain rfl := Option.some.inj hfirst
    exact of_decide_eq_true hle

/-- Blocks that have room for the ids of their types, one after the other, are as long as they
count. So the counts add up to less than `2 ^ 63`. -/
lemma lt_of_within {ids : String → List Int} (hids : ∀ k ∈ keys, (ids k).Nodup)
    (hstart : 0 ≤ start) (hlt : start < 2 ^ 63)
    (hwithin : ∀ (i : Nat) k first stop, keys[i]? = some k →
      (start :: (blocks start (counted (fun k => (ids k).length) keys)).map (·.stop))[i]?
        = some first →
      ((blocks start (counted (fun k => (ids k).length) keys)).map (·.stop))[i]? = some stop →
      ∀ id ∈ ids k, first ≤ id ∧ id < stop) :
    start + (repeated (fun k => (ids k).length) keys).length < 2 ^ 63 := by
  induction keys generalizing start with
  | nil => simpa [repeated] using hlt
  | cons k ks ih =>
    obtain ⟨hids, hidsLater⟩ := List.forall_mem_cons.mp hids
    set stop := word64 (start + word64 (ids k).length) with hstop
    have hends : (blocks start (counted (fun k => (ids k).length) (k :: ks))).map (·.stop)
        = stop :: (blocks stop (counted (fun k => (ids k).length) ks)).map (·.stop) := rfl
    rw [hends] at hwithin
    -- the ids of the type are distinct and lie within the block, so the block is not shorter
    have hexact : stop = start + (ids k).length :=
      stop_eq_of_within hids hstart hlt (hwithin 0 k start stop rfl rfl rfl)
    have hrest := ih hidsLater (by omega) (by rw [hstop]; exact word64_lt _)
      fun i k' first' stop' => hwithin (i + 1) k' first' stop'
    rw [repeated_cons, List.length_append, List.length_replicate, Nat.cast_add]
    omega

/-- The table of counts of types in ascending order has their blocks as they come. -/
lemma ofCounts_counted (hkeys : keys.Pairwise (· < ·)) :
    ofCounts (counted count keys) = ⟨blocks 0 (counted count keys)⟩ := by
  have hsorted : (counted count keys).Pairwise fun a b => decide (a.1 ≤ b.1) = true := by
    refine List.pairwise_map.mpr (hkeys.imp fun hlt => ?_)
    exact decide_eq_true (le_of_lt hlt)
  rw [ofCounts, Sorting.sort_eq_self hsorted]

lemma typeOf_eq_error {t : Offsets} {id : Int} {e : StoreError} (h : t.typeOf id = .error e) :
    e = .lookup (.idOutside id (if id < 0 then none else some t.total)) := by
  rw [typeOf, indexOf] at h
  by_cases hneg : id < 0
  · rw [if_pos hneg] at h ⊢
    exact (Except.error.inj h).symm
  rw [if_neg hneg] at h ⊢
  by_cases hlt : Search.partitionPoint (· ≤ id) t.ends < t.length
  · rw [if_pos hlt, ok_bind, List.getElem?_eq_getElem hlt] at h
    cases h
  · rw [if_neg hlt] at h
    exact (Except.error.inj h).symm

end Offsets

/-! ### Graphs in order -/

namespace Graph

variable {g : Graph}

/-- The vertices have the ids from zero on, and their types ascend along them. -/
structure IsInOrder (g : Graph) : Prop where
  keys : g.vertices.keys = intRange 0 g.vertices.size
  types : (g.vertices.values.map (·.type)).Pairwise (· ≤ ·)

/-- A table with the ids from zero on is that of its rows. -/
lemma eq_enumerate_of_keys {α : Type} {table : SortedMap Int α}
    (h : table.keys = intRange 0 table.size) : table = enumerate table.values := by
  have hsize : table.values.length = table.size := List.length_map _
  have hzip (m : SortedMap Int α) : m.entries = m.keys.zip m.values := by
    rw [SortedMap.keys, SortedMap.values, ← List.unzip_fst, ← List.unzip_snd, List.zip_unzip]
  have hentries : table.entries = (enumerate table.values).entries := by
    rw [hzip, hzip (enumerate _), keys_enumerate, values_enumerate, hsize, h]
  exact SortedMap.ext_get? fun id => by rw [SortedMap.get?, SortedMap.get?, hentries]

/-- Types that ascend are each type as often as there are vertices of it, in ascending order. -/
lemma types_eq_repeated (h : (g.vertices.values.map (·.type)).Pairwise (· ≤ ·)) :
    g.vertices.values.map (·.type)
      = TypeRange.repeated (fun type => (g.vertexIdsOf type).length) g.vertexTypes := by
  have hcount (type : String) :
      (g.vertices.values.map (·.type)).count type = (g.vertexIdsOf type).length := by
    rw [length_vertexIdsOf, List.count_eq_length_filter, List.filter_map, List.length_map]
    rfl
  have hrepeated := TypeRange.eq_repeated_of_ascending h
  simp only [hcount] at hrepeated
  exact hrepeated

lemma length_repeated_vertexTypes (g : Graph) :
    (TypeRange.repeated (fun type => (g.vertexIdsOf type).length) g.vertexTypes).length
      = g.vertices.size := by
  rw [TypeRange.repeated, List.length_flatMap, ← g.sum_length_vertexIdsOf]
  simp

lemma length_vertexIdsOf_ne_zero {type : String} (h : type ∈ g.vertexTypes) :
    (g.vertexIdsOf type).length ≠ 0 := by
  obtain ⟨id, hid⟩ := mem_vertexTypes.mp h
  exact (List.length_pos_of_mem hid).ne'

end Graph

namespace Offsets

open TypeRange

variable {t : Offsets} {g : Graph}

/-- A table tells the type of every vertex. -/
def TellsTypes (t : Offsets) (g : Graph) : Prop :=
  ∀ id v, g.vertices.get? id = some v → t.typeOf id = .ok v.type

/-- A table tells a wrong type of an id, or puts it outside every block. -/
def Misses (t : Offsets) (id : Int) (type : String) : Prop :=
  (∃ other, t.typeOf id = .ok other ∧ other ≠ type) ∨
    ∃ total, t.typeOf id = .error (.lookup (.idOutside id total))

lemma misses_iff {id : Int} {type : String} : t.Misses id type ↔ t.typeOf id ≠ .ok type := by
  rw [Misses]
  cases h : t.typeOf id with
  | ok other => simp
  | error e =>
    obtain rfl := typeOf_eq_error h
    simp

/-- A table that does not tell all types misses some vertex. -/
lemma exists_misses (h : ¬ t.TellsTypes g) :
    ∃ id v, g.vertices.get? id = some v ∧ t.Misses id v.type := by
  rw [TellsTypes] at h
  push Not at h
  obtain ⟨id, v, hv, hne⟩ := h
  exact ⟨id, v, hv, misses_iff.mpr hne⟩

/-- The table of the counted vertex types of a graph. -/
def ofGraph (g : Graph) : Offsets :=
  ofCounts (counted (fun type => (g.vertexIdsOf type).length) g.vertexTypes)

lemma ofGraph_eq (g : Graph) :
    ofGraph g = ⟨blocks 0 (counted (fun type => (g.vertexIdsOf type).length) g.vertexTypes)⟩ :=
  ofCounts_counted (Ascending.pairwise_ofList _)

lemma ofGraph_eq_tiling (h : g.vertices.size < 2 ^ 63) :
    ofGraph g = tiling (fun type => (g.vertexIdsOf type).length) g.vertexTypes := by
  have hsum : (0 : Int) + (repeated (fun type => (g.vertexIdsOf type).length)
      g.vertexTypes).length < 2 ^ 63 := by
    rw [g.length_repeated_vertexTypes]
    omega
  rw [ofGraph_eq, blocks_counted (le_refl 0) hsum, tiling]

/-- The counts of a graph in order make a table that tells what is so. -/
lemma describes_of_isInOrder (h : g.IsInOrder) (hsize : g.vertices.size < 2 ^ 63) :
    (ofGraph g).Describes g := by
  rw [ofGraph_eq_tiling hsize]
  exact describes_tiling (Ascending.nodup_ofList _) (fun _ => Graph.length_vertexIdsOf_ne_zero)
    (Graph.eq_enumerate_of_keys h.keys) (Graph.types_eq_repeated h.types)

/-- A graph whose counts tell the type of every vertex has fewer than `2 ^ 63` vertices. -/
lemma size_lt_of_tellsTypes (h : (ofGraph g).TellsTypes g) : g.vertices.size < 2 ^ 63 := by
  have htold {type : String} {id : Int} (hid : id ∈ g.vertexIdsOf type) : 0 ≤ id ∧
      (ofGraph g).names[Search.partitionPoint (· ≤ id) (ofGraph g).ends]? = some type := by
    obtain ⟨v, hv, rfl⟩ := Graph.mem_vertexIdsOf.mp hid
    exact typeOf_eq_ok_iff.mp (h id v hv)
  have hnames : (ofGraph g).names = g.vertexTypes := by
    rw [ofGraph_eq, names, map_name_blocks, counted, List.map_map]
    exact List.map_id _
  rw [hnames, ofGraph_eq] at htold
  have hlength := g.length_repeated_vertexTypes
  have hlt : (0 : Int) + (repeated (fun type => (g.vertexIdsOf type).length)
      g.vertexTypes).length < 2 ^ 63 := by
    refine lt_of_within (fun type _ => (g.pairwise_vertexIdsOf type).imp ne_of_lt) (le_refl 0)
      (by decide) fun i type first stop htype hfirst hstop id hid => ?_
    obtain ⟨hneg, hname⟩ := htold hid
    have hfound := (List.getElem?_inj (List.getElem?_eq_some_iff.mp hname).1
      (Ascending.nodup_ofList _)).mp (hname.trans htype.symm)
    exact within_of_found hneg hfound hfirst hstop
  omega

/-- A graph whose counts tell the type of every vertex is in order. -/
lemma isInOrder_of_tellsTypes (h : (ofGraph g).TellsTypes g) : g.IsInOrder := by
  have htiling := ofGraph_eq_tiling (size_lt_of_tellsTypes h)
  have hlength := g.length_repeated_vertexTypes
  -- the table repeats each type as often as it has vertices, and a vertex is at the place of its id
  set types := repeated (fun type => (g.vertexIdsOf type).length) g.vertexTypes with htypes
  have htold : ∀ r ∈ g.vertices.entries, 0 ≤ r.1 ∧ types[r.1.toNat]? = some r.2.type := by
    intro r hr
    have htype := h r.1 r.2 (SortedMap.mem_entries_iff.mp hr)
    rw [htiling] at htype
    exact typeOf_tiling.mp htype
  have hsize : g.vertices.keys.length = g.vertices.size := List.length_map _
  -- as many places as vertices, so the ids leave none out
  have hkeys : g.vertices.keys = intRange 0 g.vertices.size := by
    rw [← hsize]
    refine eq_intRange_of_lt_length g.vertices.pairwise_keys ?_
    intro id hid
    obtain ⟨r, hr, rfl⟩ := List.mem_map.mp hid
    obtain ⟨hneg, htype⟩ := htold r hr
    have hlt := (List.getElem?_eq_some_iff.mp htype).1
    exact ⟨hneg, by omega⟩
  refine ⟨hkeys, ?_⟩
  have hvalues : g.vertices.values.map (·.type) = types := by
    refine List.ext_getElem?' fun n hn => ?_
    have hn : n < g.vertices.size := by simpa [SortedMap.values, SortedMap.size, hlength] using hn
    have hkey : g.vertices.keys[n]? = some (n : Int) := by
      rw [hkeys, intRange]
      simp [hn]
    rw [SortedMap.keys, List.getElem?_map, Option.map_eq_some_iff] at hkey
    obtain ⟨r, hr, hid⟩ := hkey
    have htype := (htold r (List.mem_of_getElem? hr)).2
    rw [hid, Int.toNat_natCast] at htype
    rw [SortedMap.values, List.getElem?_map, List.getElem?_map, hr, htype]
    rfl
  rw [hvalues, htypes]
  -- each type is repeated in one place, and the places are in the order of the types
  refine List.pairwise_flatMap.mpr ⟨fun k _ => List.pairwise_replicate_of_refl, ?_⟩
  have hascending : g.vertexTypes.Pairwise (· < ·) := Ascending.pairwise_ofList _
  refine hascending.imp fun {k k'} hlt a ha b hb => ?_
  rw [List.eq_of_mem_replicate ha, List.eq_of_mem_replicate hb]
  exact le_of_lt hlt

/-- The counts of a graph tell the type of every vertex exactly if the graph is in order. -/
theorem tellsTypes_ofGraph_iff :
    (ofGraph g).TellsTypes g ↔ g.IsInOrder ∧ g.vertices.size < 2 ^ 63 :=
  ⟨fun h => ⟨isInOrder_of_tellsTypes h, size_lt_of_tellsTypes h⟩,
    fun h => (describes_of_isInOrder h.1 h.2).typeOf⟩

/-- Blocks are not enough: they have to be in the order of the names of their types. -/
example : ¬ Graph.IsInOrder
    { vertices := .ofList [(0, { type := "paper" }), (1, { type := "author" })] } :=
  fun h => absurd h.types (by decide +kernel)

end Offsets

/-! ### Stores that keep ids -/

namespace Store

variable {served : Device} {config : Config} {host host' : Host} {s : Store}

/-- Where ids are kept, building leaves the tables as they are. -/
lemma build_keep_graph (hpolicy : config.policy = .keep)
    (h : (build .plain served config).runOn host = (.ok s, host')) : host'.graph = host.graph := by
  obtain ⟨-, -, -, -, between, hoffsets, hedges⟩ := build_eq_ok h
  rw [hpolicy] at hoffsets
  have hkept := makeOffsets_keep_keepsTables .plain host
  rw [hoffsets] at hkept
  exact (EdgeCatalog.build_plain hedges).1.trans hkept

/-- A store that keeps ids leaves the tables as they are, and tells the type of every vertex exactly
if the vertices have the ids from zero on and their types ascend along them. Over every other graph
some vertex is told a wrong type, or is outside all blocks. Counts are words of 64 bits, so it takes
fewer than `2 ^ 63` vertices as well. -/
theorem build_keep_tells (hpolicy : config.policy = .keep)
    (h : (build .plain served config).runOn host = (.ok s, host')) :
    host'.graph = host.graph ∧
      (s.offsets.TellsTypes host.graph ↔
        host.graph.IsInOrder ∧ host.graph.vertices.size < 2 ^ 63) ∧
      (¬ host.graph.IsInOrder →
        ∃ id v, host.graph.vertices.get? id = some v ∧ s.offsets.Misses id v.type) := by
  have hkept := build_keep_graph hpolicy h
  obtain ⟨-, -, hconfig, -⟩ := build_eq_ok h
  have htable : s.offsets = Offsets.ofGraph host.graph := by
    rw [← hkept]
    exact (Reachable.built h).offsets_of_keep (by rw [hconfig, hpolicy])
  rw [htable]
  exact ⟨hkept, Offsets.tellsTypes_ofGraph_iff,
    fun hnot => Offsets.exists_misses fun htells => hnot (Offsets.isInOrder_of_tellsTypes htells)⟩

/-- The outcome of building a store over the library that keeps its ids. -/
def keptRun : Except StoreError Store × Host :=
  (build .plain .cpu { policy := .keep }).runOn { graph := library }

/-- The store over the library that keeps its ids. -/
def keptStore : Store := keptRun.1.toOption.get (by decide +kernel)

/-- Authors and papers alternate in the library, so some paper is told to be an author. -/
theorem build_keep_tells_library :
    (build .plain .cpu { policy := .keep }).runOn { graph := library }
        = (.ok keptStore, keptRun.2) ∧
      ¬ library.IsInOrder ∧ ∃ id v, library.vertices.get? id = some v ∧
        keptStore.offsets.Misses id v.type := by
  have hrun : (build .plain .cpu { policy := .keep }).runOn { graph := library }
      = (.ok keptStore, keptRun.2) := Prod.ext (eq_ok_get _) rfl
  have hnot : ¬ library.IsInOrder := fun h => absurd h.types (by decide +kernel)
  exact ⟨hrun, hnot, (build_keep_tells rfl hrun).2.2 hnot⟩

end Store

end TypedGraph
