import TypedGraph.Proofs.OffsetLookups

/-!
# Blocks of edges

Renumbering edges is a stable grouping by type: the edges of a type get one block of ids and stay in
their order, and nothing else about them changes (`renumberEdges_isRegrouping`). The names of the
types ascend along the new ids, the empty name of a missing type first, so the ranges that are told
are one for each name (`ofNames_of_ascending`); a missing type and the type of the empty name share
theirs.
-/

namespace TypedGraph

/-! ### Ranges of ascending names -/

namespace TypeRange

variable {first : Int}

lemma tiles_tile (count : String → Nat) (first : Int) (keys : List String) :
    Tiles first (tile count first keys) := by
  induction keys generalizing first with
  | nil => trivial
  | cons k ks ih => exact ⟨rfl, by simp, ih _⟩

/-- Ascending names make one range for each of them. -/
lemma ofNames_of_ascending {names : List String} (h : names.Pairwise (· ≤ ·)) (first : Int) :
    ofNames first names = tile (names.count ·) first (Ascending.ofList names) := by
  have hcount : ∀ name ∈ Ascending.ofList names, names.count name ≠ 0 := by
    intro name hname
    rw [Ascending.mem_ofList] at hname
    exact (List.count_pos_iff.mpr hname).ne'
  conv_lhs => rw [eq_repeated_of_ascending h]
  exact ofNames_repeated (Ascending.nodup_ofList _) hcount first

end TypeRange

/-- The name under which the ids of an edge's type are told. -/
def Edge.typeName (e : Edge) : String := e.type.getD ""

namespace Graph

open TypeRange

variable {g : Graph} {previous : Option String}

/-! ### Names along the new ids -/

lemma empty_le (name : String) : "" ≤ name := by
  rw [← not_lt, String.lt_iff_toList_lt]
  exact List.not_lt_nil _

/-- A missing type comes first, and the others ascend. -/
lemma pairwise_edgeTypes (g : Graph) :
    g.edgeTypes.Pairwise fun t u => t.getD "" ≤ u.getD "" := by
  have hascending : g.namedEdgeTypes.Pairwise (· < ·) := Ascending.pairwise_ofList _
  have hnamed : (g.namedEdgeTypes.map some).Pairwise fun t u => t.getD "" ≤ u.getD "" :=
    List.pairwise_map.mpr (hascending.imp fun hlt => le_of_lt hlt)
  rw [edgeTypes]
  split_ifs
  · exact List.pairwise_cons.mpr ⟨fun u _ => empty_le _, hnamed⟩
  · exact hnamed

/-- The names of the types of the edges, along the new ids. -/
def edgeTypeNames (g : Graph) : List String := g.edgesByType.map fun r => r.2.typeName

lemma pairwise_edgeTypeNames (g : Graph) : g.edgeTypeNames.Pairwise (· ≤ ·) := by
  have hrows : g.edgesByType.Pairwise fun a b =>
      a.2.type = b.2.type ∧ a.1 < b.1 ∨ a.2.type.getD "" ≤ b.2.type.getD "" := by
    rw [edgesByType_eq]
    exact pairwise_inBlocks g.edges.ascending g.pairwise_edgeTypes
  refine List.pairwise_map.mpr (hrows.imp ?_)
  rintro a b (⟨heq, -⟩ | hle)
  · exact (congrArg (Option.getD · "") heq).le
  · exact hle

lemma length_edgeTypeNames (g : Graph) : g.edgeTypeNames.length = g.edges.size := by
  rw [edgeTypeNames, List.length_map, g.edgesByType_perm.length_eq]
  rfl

lemma ranges_renumberEdges (g : Graph) (previous : Option String) :
    (g.renumberEdges previous).1
      = tile (g.edgeTypeNames.count ·) 0 (Ascending.ofList g.edgeTypeNames) :=
  ofNames_of_ascending g.pairwise_edgeTypeNames 0

/-- An edge under a new id is the one of that place among the edges in blocks. -/
lemma get?_renumberEdges_eq_some_iff {id : Int} {e : Edge} :
    (g.renumberEdges previous).2.edges.get? id = some e ↔ 0 ≤ id ∧
      ∃ r, g.edgesByType[id.toNat]? = some r ∧
        { r.2 with properties := keepId previous r.1 r.2.properties } = e := by
  rw [renumberEdges, get?_enumerate_eq_some_iff, List.getElem?_map, Option.map_eq_some_iff]

lemma exists_edge_of_typeName_iff {id : Int} {name : String} :
    (∃ e, (g.renumberEdges previous).2.edges.get? id = some e ∧ e.typeName = name) ↔
      0 ≤ id ∧ g.edgeTypeNames[id.toNat]? = some name := by
  simp only [get?_renumberEdges_eq_some_iff, edgeTypeNames, List.getElem?_map,
    Option.map_eq_some_iff]
  constructor
  · rintro ⟨e, ⟨hneg, r, hr, rfl⟩, rfl⟩
    exact ⟨hneg, r, hr, rfl⟩
  · rintro ⟨hneg, r, hr, rfl⟩
    exact ⟨_, ⟨hneg, r, hr, rfl⟩, rfl⟩

/-- Between two edges of a type there are only edges of it. -/
lemma type_eq_of_between {i j k : Int} {c d e : Edge}
    (hc : (g.renumberEdges previous).2.edges.get? i = some c)
    (hd : (g.renumberEdges previous).2.edges.get? j = some d)
    (he : (g.renumberEdges previous).2.edges.get? k = some e) (hij : i < j) (hjk : j < k)
    (htype : c.type = e.type) : d.type = c.type := by
  obtain ⟨hi, a, ha, rfl⟩ := get?_renumberEdges_eq_some_iff.mp hc
  obtain ⟨hj, b, hb, rfl⟩ := get?_renumberEdges_eq_some_iff.mp hd
  obtain ⟨-, r, hr, rfl⟩ := get?_renumberEdges_eq_some_iff.mp he
  exact key_eq_of_between (fun r : Int × Edge => r.2.type) g.nodup_edgeTypes ha hb hr
    (by omega) (by omega) htype

/-! ### Edges that are added afterwards -/

lemma nextEdgeId_renumberEdges (g : Graph) (previous : Option String) :
    (g.renumberEdges previous).2.nextEdgeId = g.edges.size :=
  congrArg Nat.cast g.edgesByType_perm.length_eq

lemma addEdges_of_hasEnds {type : Option String} {rs : List EdgeRecord}
    (h : ∀ r ∈ rs, g.HasEnds r) : g.addEdges type rs = .ok (g.putEdges type rs) := by
  have hnone : rs.findSome? g.missingEnd? = none :=
    List.findSome?_eq_none_iff.mpr fun r hr => missingEnd?_eq_none_iff.mpr (h r hr)
  rw [addEdges, hnone]
  rfl

/-- Edges that are added get the ids after those of the edges that are there. -/
lemma exists_addEdges_renumberEdges {type : Option String} {rs : List EdgeRecord}
    (hrs : ∀ r ∈ rs, g.HasEnds r) :
    ∃ g'', (g.renumberEdges previous).2.addEdges type rs = .ok g'' ∧
      (∀ id e, (g.renumberEdges previous).2.edges.get? id = some e →
        g''.edges.get? id = some e) ∧
      ∀ (n : Nat) r, rs[n]? = some r → g''.edges.get? (g.edges.size + n)
        = some ⟨r.source, r.destination, type, r.properties⟩ := by
  refine ⟨_, addEdges_of_hasEnds hrs, fun id e he => ?_, fun n r hr => ?_⟩
  · have hid := SortedMap.mem_keys_iff.mpr ⟨e, he⟩
    rw [keys_renumberEdges, mem_intRange] at hid
    have hlt : id < (g.renumberEdges previous).2.nextEdgeId := by
      rw [nextEdgeId_renumberEdges]
      exact hid.2
    exact (get?_putEdges_of_lt type rs hlt).trans he
  · rw [← g.nextEdgeId_renumberEdges previous]
    exact get?_putEdges type hr

/-! ### Renumbering edges -/

/-- How a graph becomes another one by giving its edges new ids, type by type. -/
structure IsRegrouping (f : Int → Int) (previous : Option String) (ranges : List TypeRange)
    (g g' : Graph) : Prop where
  /-- Edges go to the ids from zero on, one to one. -/
  bijOn : Set.BijOn f {id | id ∈ g.edges.keys} (Set.Ico 0 (g.edges.size : Int))
  keys : g'.edges.keys = intRange 0 g.edges.size
  /-- Edges of one type keep their order. -/
  within : ∀ id d other e, g.edges.get? id = some d → g.edges.get? other = some e →
    d.type = e.type → id < other → f id < f other
  /-- An edge keeps its ends, its type and its properties, but for the one that holds its previous
  id. -/
  edges : ∀ id e, g.edges.get? id = some e → ∃ e', g'.edges.get? (f id) = some e' ∧
    e'.source = e.source ∧ e'.destination = e.destination ∧ e'.type = e.type ∧
    ∀ c, e'.properties.get? c = if previous = some c then some (.int id) else e.properties.get? c
  vertices : g'.vertices = g.vertices
  /-- Between two edges of a type there are only edges of it. -/
  block : ∀ i j k c d e, g'.edges.get? i = some c → g'.edges.get? j = some d →
    g'.edges.get? k = some e → i < j → j < k → c.type = e.type → d.type = c.type
  /-- The ranges follow one another from zero on. -/
  tiles : Tiles 0 ranges
  /-- They end with the number of edges. -/
  stop : (ranges.map (·.stop)).getLast?.getD 0 = g.edges.size
  names : (ranges.map (·.name)).Nodup
  /-- A range has the ids of the edges whose type goes by its name. -/
  mem_range : ∀ r ∈ ranges, ∀ id,
    r.start ≤ id ∧ id < r.stop ↔ ∃ e, g'.edges.get? id = some e ∧ e.typeName = r.name
  /-- Edges that are added afterwards get the ids from the number of edges on. -/
  next : ∀ type rs, (∀ r ∈ rs, g.HasEnds r) → ∃ g'', g'.addEdges type rs = .ok g'' ∧
    (∀ id e, g'.edges.get? id = some e → g''.edges.get? id = some e) ∧
    ∀ (n : Nat) r, rs[n]? = some r → g''.edges.get? (g.edges.size + n)
      = some ⟨r.source, r.destination, type, r.properties⟩

/-- Renumbering edges groups them by type, and changes nothing else but the column that holds their
previous ids. The next edge follows the last of them. -/
theorem renumberEdges_isRegrouping (g : Graph) (previous : Option String) :
    IsRegrouping g.newEdgeId previous (g.renumberEdges previous).1 g
      (g.renumberEdges previous).2 where
  bijOn := g.newEdgeId_bijOn
  keys := g.keys_renumberEdges previous
  within _ _ _ _ := newEdgeId_lt
  edges id e he := ⟨_, get?_renumberEdges previous he, rfl, rfl, rfl, get?_keepId previous id _⟩
  vertices := rfl
  block _ _ _ _ _ _ := type_eq_of_between
  tiles := by
    rw [ranges_renumberEdges]
    exact tiles_tile _ 0 _
  stop := by
    rw [ranges_renumberEdges, getLast?_stop_tile,
      ← eq_repeated_of_ascending g.pairwise_edgeTypeNames,
      length_edgeTypeNames, zero_add]
  names := by
    rw [ranges_renumberEdges, map_name_tile]
    exact Ascending.nodup_ofList _
  mem_range r hr id := by
    rw [ranges_renumberEdges] at hr
    rw [mem_tile_iff (Ascending.nodup_ofList _) hr, exists_edge_of_typeName_iff, sub_zero,
      ← eq_repeated_of_ascending g.pairwise_edgeTypeNames]
  next _ _ := exists_addEdges_renumberEdges

/-- An edge without a type shares the range of the type of the empty name. -/
example : let g : Graph := ⟨.ofList [(0, { type := "page" })], .ofList
      [(2, ⟨0, 0, some "links", .empty⟩), (5, ⟨0, 0, some "", .empty⟩), (7, ⟨0, 0, none, .empty⟩)],
      8⟩
    (g.renumberEdges none).1 = [⟨"", 0, 2⟩, ⟨"links", 2, 3⟩] := by
  decide +kernel

end Graph

end TypedGraph
