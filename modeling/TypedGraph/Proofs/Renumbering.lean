import TypedGraph.Proofs.Blocks
import TypedGraph.Proofs.Traversal

/-!
# Renumbered graphs

Renumbering puts the rows of a table in blocks, one for each type, and gives them the ids from zero
on. Where every edge ends at vertices, renumbering vertices succeeds and gives the same graph under
new vertex ids (`isRelabeling_of_closed`). Renumbering edges moves every edge to the place of its
new id (`get?_renumberEdges`) and keeps the order of the edges of one type (`newEdgeId_lt`).
-/

namespace TypedGraph

open Traversal Json

/-- The edge between the new ids of its ends. -/
def Edge.move (f : Int → Int) (e : Edge) : Edge :=
  { e with source := f e.source, destination := f e.destination }

namespace Graph

variable {g g' : Graph} {previous : Option String}

/-! ### Edge types -/

lemma some_mem_edgeTypes {type : String} : some type ∈ g.edgeTypes ↔ type ∈ g.namedEdgeTypes := by
  rw [edgeTypes]
  split <;> simp

lemma mem_namedEdgeTypes_iff_values {type : String} :
    type ∈ g.namedEdgeTypes ↔ ∃ e ∈ g.edges.values, e.type = some type := by
  rw [namedEdgeTypes, Ascending.mem_ofList, List.mem_filterMap]

lemma mem_namedEdgeTypes {type : String} :
    type ∈ g.namedEdgeTypes ↔ ∃ id e, g.edges.get? id = some e ∧ e.type = some type := by
  rw [mem_namedEdgeTypes_iff_values]
  constructor
  · rintro ⟨e, he, htype⟩
    obtain ⟨⟨id, _⟩, hmem, rfl⟩ := List.mem_map.mp he
    exact ⟨id, _, SortedMap.mem_entries_iff.mp hmem, htype⟩
  · rintro ⟨id, e, he, htype⟩
    exact ⟨e, List.mem_map_of_mem (SortedMap.mem_entries_iff.mpr he), htype⟩

lemma namedEdgeTypes_congr (h : ∀ type, type ∈ g'.namedEdgeTypes ↔ type ∈ g.namedEdgeTypes) :
    g'.namedEdgeTypes = g.namedEdgeTypes :=
  (Ascending.pairwise_ofList _).eq_of_mem_iff (Ascending.pairwise_ofList _) h

lemma nodup_namedEdgeTypes (g : Graph) : g.namedEdgeTypes.Nodup := Ascending.nodup_ofList _

/-- Edge types that all have names are the named ones. -/
lemma edgeTypes_eq (h : ∀ type ∈ g.edgeTypes, type.isSome) :
    g.edgeTypes = g.namedEdgeTypes.map some := by
  rw [edgeTypes] at h ⊢
  split_ifs at h ⊢ with hnone
  · simp at h
  · rfl

lemma type_mem_edgeTypes {e : Int × Edge} (he : e ∈ g.edges.entries) : e.2.type ∈ g.edgeTypes := by
  have hvalue : e.2 ∈ g.edges.values := List.mem_map_of_mem he
  cases htype : e.2.type with
  | none =>
    have hany : g.edges.values.any (·.type.isNone) = true := by
      rw [List.any_eq_true]
      exact ⟨e.2, hvalue, by simp [htype]⟩
    simp [edgeTypes, hany]
  | some t =>
    exact some_mem_edgeTypes.mpr (mem_namedEdgeTypes_iff_values.mpr ⟨e.2, hvalue, htype⟩)

lemma nodup_edgeTypes (g : Graph) : g.edgeTypes.Nodup := by
  have hsome : (g.namedEdgeTypes.map some).Nodup :=
    g.nodup_namedEdgeTypes.map (Option.some_injective _)
  rw [edgeTypes]
  split_ifs
  · simpa using hsome
  · simpa using hsome

/-! ### Rows by type -/

lemma nodup_keys {α : Type} (table : SortedMap Int α) : table.keys.Nodup :=
  table.pairwise_keys.imp ne_of_lt

lemma nodup_entries {α : Type} (table : SortedMap Int α) : table.entries.Nodup :=
  (nodup_keys table).of_map _

lemma verticesByType_eq (g : Graph) :
    g.verticesByType = inBlocks (·.2.type) g.typesByAppearance g.vertices.entries := rfl

lemma edgesByType_eq (g : Graph) :
    g.edgesByType = inBlocks (·.2.type) g.edgeTypes g.edges.entries := rfl

lemma mem_typesByAppearance {type : String} :
    type ∈ g.typesByAppearance ↔ ∃ e ∈ g.vertices.entries, e.2.type = type := by
  simp [typesByAppearance, SortedMap.values]

lemma verticesByType_perm (g : Graph) : g.verticesByType.Perm g.vertices.entries :=
  inBlocks_perm (nodup_eraseDups _) (nodup_entries _) fun e he =>
    mem_typesByAppearance.mpr ⟨e, he, rfl⟩

lemma edgesByType_perm (g : Graph) : g.edgesByType.Perm g.edges.entries :=
  inBlocks_perm g.nodup_edgeTypes (nodup_entries _) fun _ he => type_mem_edgeTypes he

lemma nodup_verticesByType (g : Graph) : (g.verticesByType.map (·.1)).Nodup :=
  (g.verticesByType_perm.map _).nodup_iff.mpr (nodup_keys g.vertices)

lemma nodup_edgesByType (g : Graph) : (g.edgesByType.map (·.1)).Nodup :=
  (g.edgesByType_perm.map _).nodup_iff.mpr (nodup_keys g.edges)

/-- The new id of a vertex. -/
def newVertexId (g : Graph) : Int → Int := position g.verticesByType

/-- The new id of an edge. -/
def newEdgeId (g : Graph) : Int → Int := position g.edgesByType

/-! ### Order of vertex types -/

/-- The smallest id of the vertices of a type. -/
def IsFirst (g : Graph) (type : String) (id : Int) : Prop :=
  (∃ v, g.vertices.get? id = some v ∧ v.type = type) ∧
    ∀ other w, g.vertices.get? other = some w → w.type = type → id ≤ other

/-- A type that comes up before another one has a smaller id than all vertices of the other one. -/
lemma exists_lt_of_appearsBefore {t u : String}
    (h : AppearsBefore (g.vertices.values.map (·.type)) t u) :
    ∃ id v, g.vertices.get? id = some v ∧ v.type = t ∧
      ∀ other w, g.vertices.get? other = some w → w.type = u → id < other := by
  obtain ⟨before, after, hsplit, hbefore, hne⟩ := h
  rw [SortedMap.values, List.map_map] at hsplit
  obtain ⟨es, rest, hentries, rfl, hrest⟩ := List.map_eq_append_iff.mp hsplit
  obtain ⟨⟨id, v⟩, es', rfl, rfl, -⟩ := List.map_eq_cons_iff.mp hrest
  refine ⟨id, v, SortedMap.mem_entries_iff.mp (by simp [hentries]), rfl, ?_⟩
  intro other w hw htype
  have hasc := g.vertices.ascending
  have hmem := SortedMap.mem_entries_iff.mpr hw
  rw [hentries] at hasc hmem
  rcases List.mem_append.mp hmem with hmem | hmem
  · exact absurd (List.mem_map.mpr ⟨_, hmem, htype⟩) hbefore
  · rcases List.mem_cons.mp hmem with heq | hmem
    · obtain ⟨-, rfl⟩ := Prod.mk.inj heq
      exact absurd htype.symm hne
    · exact (List.pairwise_cons.mp (List.pairwise_append.mp hasc).2.1).1 _ hmem

/-- Of two types, the one with the smaller id does not come up after the other one. -/
lemma not_appearsBefore {t u : String} {a b : Int} (ha : g.IsFirst t a) (hb : g.IsFirst u b)
    (hab : a < b) : ¬ AppearsBefore (g.vertices.values.map (·.type)) u t := by
  intro h
  obtain ⟨id, v, hv, htype, hlt⟩ := exists_lt_of_appearsBefore h
  obtain ⟨w, hw, hwtype⟩ := ha.1
  have hle : b ≤ id := hb.2 id v hv htype
  have hlt : id < a := hlt a w hw hwtype
  omega

/-! ### Renumbering vertices -/

/-- Every edge ends at vertices. -/
def Closed (g : Graph) : Prop :=
  ∀ id e, g.edges.get? id = some e → e.source ∈ g.vertices.keys ∧ e.destination ∈ g.vertices.keys

/-- The vertices under their new ids. -/
def vertexTable (g : Graph) (previous : Option String) : SortedMap Int Vertex :=
  enumerate (g.verticesByType.map fun r =>
    { r.2 with properties := keepId previous r.1 r.2.properties })

/-- How a graph becomes another one by giving its vertices new ids. -/
structure IsRelabeling (f : Int → Int) (previous : Option String) (g g' : Graph) : Prop where
  /-- Vertices go to the ids from zero on, one to one. -/
  bijOn : Set.BijOn f {id | id ∈ g.vertices.keys} (Set.Ico 0 (g.vertices.size : Int))
  /-- Vertices of one type keep their order. -/
  within : ∀ id v other w, g.vertices.get? id = some v → g.vertices.get? other = some w →
    v.type = w.type → id < other → f id < f other
  /-- Types are in the order of their smallest ids. -/
  across : ∀ t a u b, g.IsFirst t a → g.IsFirst u b → a < b → ∀ id v other w,
    g.vertices.get? id = some v → v.type = t → g.vertices.get? other = some w → w.type = u →
      f id < f other
  keys : g'.vertices.keys = intRange 0 g.vertices.size
  /-- A vertex keeps its type and its properties, but for the one that holds its previous id. -/
  vertices : ∀ id v, g.vertices.get? id = some v → ∃ v', g'.vertices.get? (f id) = some v' ∧
    v'.type = v.type ∧ ∀ c, v'.properties.get? c =
      if previous = some c then some (.int id) else v.properties.get? c
  closed : g.Closed
  /-- An edge keeps its id, its type and its properties. -/
  edges : g'.edges = g.edges.mapValues fun _ e => e.move f
  nextEdgeId : g'.nextEdgeId = g.nextEdgeId

lemma get?_keepId (previous : Option String) (id : Int) (properties : Properties) (c : String) :
    (keepId previous id properties).get? c
      = if previous = some c then some (.int id) else properties.get? c := by
  cases previous with
  | none => simp [keepId]
  | some name =>
    rw [keepId]
    rw [SortedMap.get?_insert]
    simp [eq_comm]

lemma mem_verticesByType {id : Int} {v : Vertex} :
    (id, v) ∈ g.verticesByType ↔ g.vertices.get? id = some v := by
  rw [g.verticesByType_perm.mem_iff, SortedMap.mem_entries_iff]

lemma mem_edgesByType {id : Int} {e : Edge} :
    (id, e) ∈ g.edgesByType ↔ g.edges.get? id = some e := by
  rw [g.edgesByType_perm.mem_iff, SortedMap.mem_entries_iff]

lemma keys_vertexTable (g : Graph) (previous : Option String) :
    (g.vertexTable previous).keys = intRange 0 g.vertices.size := by
  rw [vertexTable, keys_enumerate, List.length_map, g.verticesByType_perm.length_eq]
  rfl

/-- A vertex is found under its new id. -/
lemma get?_vertexTable (previous : Option String) {id : Int} {v : Vertex}
    (h : g.vertices.get? id = some v) : (g.vertexTable previous).get? (g.newVertexId id)
      = some { v with properties := keepId previous id v.properties } :=
  get?_enumerate_position g.nodup_verticesByType (mem_verticesByType.mpr h) _

/-- The order of the vertices under their new ids. -/
lemma pairwise_verticesByType (g : Graph) :
    g.verticesByType.Pairwise fun a b => a.2.type = b.2.type ∧ a.1 < b.1 ∨
      AppearsBefore (g.vertices.values.map (·.type)) a.2.type b.2.type := by
  rw [verticesByType_eq]
  exact pairwise_inBlocks g.vertices.ascending (pairwise_eraseDups _)

section NewIds

variable {id other : Int} {v w : Vertex}

lemma newVertexId_lt_within (hv : g.vertices.get? id = some v) (hw : g.vertices.get? other = some w)
    (htype : v.type = w.type) (hlt : id < other) : g.newVertexId id < g.newVertexId other := by
  refine position_lt g.nodup_verticesByType g.pairwise_verticesByType (mem_verticesByType.mpr hv)
    (mem_verticesByType.mpr hw) hlt.ne ?_
  rintro (⟨-, hgt⟩ | ⟨_, _, _, _, hne⟩)
  · exact lt_asymm hlt hgt
  · exact hne htype

lemma newVertexId_lt_across {t u : String} {a b : Int} (ha : g.IsFirst t a) (hb : g.IsFirst u b)
    (hab : a < b) (hv : g.vertices.get? id = some v) (hvt : v.type = t)
    (hw : g.vertices.get? other = some w) (hwu : w.type = u) :
    g.newVertexId id < g.newVertexId other := by
  have htu : u ≠ t := by
    rintro rfl
    obtain ⟨x, hx, hxt⟩ := ha.1
    have hle := hb.2 a x hx hxt
    omega
  have hne : id ≠ other := by
    rintro rfl
    obtain rfl : v = w := Option.some.inj (hv.symm.trans hw)
    exact htu (hwu.symm.trans hvt)
  -- of the two orders that the rows can have, the other one would put the second type first
  refine position_lt g.nodup_verticesByType g.pairwise_verticesByType (mem_verticesByType.mpr hv)
    (mem_verticesByType.mpr hw) hne ?_
  rw [hvt, hwu]
  rintro (⟨heq, -⟩ | hbefore)
  · exact htu heq
  · exact not_appearsBefore ha hb hab hbefore

end NewIds

lemma newId_eq_ok {id : Int} (h : id ∈ g.vertices.keys) :
    newId (g.verticesByType.map (·.1)) id = .ok (g.newVertexId id) := by
  have hmem : id ∈ g.verticesByType.map (·.1) := (g.verticesByType_perm.map _).mem_iff.mpr h
  obtain ⟨n, hn⟩ := Option.isSome_iff_exists.mp (List.isSome_idxOf?.mpr hmem)
  rw [newId, hn, newVertexId, position, List.idxOf_eq_getD_idxOf?, hn]
  rfl

/-- Where every edge ends at vertices, renumbering them succeeds. -/
lemma renumberVertices_of_closed (hg : g.Closed) (previous : Option String) :
    g.renumberVertices previous = .ok (TypeRange.ofNames 0 (g.verticesByType.map (·.2.type)),
      { g with
        vertices := g.vertexTable previous
        edges := g.edges.mapValues fun _ e => e.move g.newVertexId }) := by
  have hmoved : g.edges.entries.mapM (fun e : Int × Edge =>
      return (e.1, ← moveEdge (g.verticesByType.map fun r : Int × Vertex => r.1) e.2))
        = .ok (g.edges.entries.map fun e : Int × Edge => (e.1, e.2.move g.newVertexId)) := by
    apply mapM_eq_ok_map
    intro e he
    obtain ⟨hsource, hdestination⟩ := hg e.1 e.2 (SortedMap.mem_entries_iff.mp he)
    rw [moveEdge, newId_eq_ok hsource, newId_eq_ok hdestination]
    rfl
  have hedges := SortedMap.ofList_map (fun _ e => e.move g.newVertexId) g.edges
  rw [renumberVertices]
  rw [hmoved, ok_bind, hedges]
  rfl

/-- What vertices become wherever renumbering them succeeds. -/
lemma vertices_of_renumberVertices {ranges : List TypeRange}
    (h : g.renumberVertices previous = .ok (ranges, g')) :
    ranges = TypeRange.ofNames 0 (g.verticesByType.map (·.2.type)) ∧
      g'.vertices = g.vertexTable previous := by
  obtain ⟨moved, -, h⟩ := bind_eq_ok_iff.mp h
  obtain ⟨rfl, rfl⟩ := Prod.mk.inj (Except.ok.inj h)
  exact ⟨rfl, rfl⟩

/-- Renumbering the vertices of a graph without loose ends gives it new vertex ids and changes
nothing else. -/
theorem isRelabeling_of_closed (hg : g.Closed) (previous : Option String) :
    IsRelabeling g.newVertexId previous g
      { g with
        vertices := g.vertexTable previous
        edges := g.edges.mapValues fun _ e => e.move g.newVertexId } where
  bijOn := by
    have hbij := position_bijOn g.nodup_verticesByType
    have hkeys : {id | id ∈ g.verticesByType.map (·.1)} = {id | id ∈ g.vertices.keys} :=
      Set.ext fun _ => (g.verticesByType_perm.map _).mem_iff
    rwa [hkeys, g.verticesByType_perm.length_eq] at hbij
  within _ _ _ _ := newVertexId_lt_within
  across _ _ _ _ ha hb hab _ _ _ _ := newVertexId_lt_across ha hb hab
  keys := g.keys_vertexTable previous
  vertices id v h := ⟨_, get?_vertexTable previous h, rfl, get?_keepId previous id v.properties⟩
  closed := hg
  edges := rfl
  nextEdgeId := rfl

/-- Whatever comes of renumbering the vertices of a graph without loose ends is the same graph under
new vertex ids. -/
lemma isRelabeling_of_eq_ok (hg : g.Closed) {ranges : List TypeRange}
    (h : g.renumberVertices previous = .ok (ranges, g')) :
    IsRelabeling g.newVertexId previous g g' := by
  obtain ⟨-, rfl⟩ := Prod.mk.inj (Except.ok.inj ((renumberVertices_of_closed hg _).symm.trans h))
  exact isRelabeling_of_closed hg previous

/-! ### Renumbering edges -/

/-- Edges go to the ids from zero on, one to one. -/
lemma newEdgeId_bijOn (g : Graph) :
    Set.BijOn g.newEdgeId {id | id ∈ g.edges.keys} (Set.Ico 0 (g.edges.size : Int)) := by
  have hbij := position_bijOn g.nodup_edgesByType
  have hkeys : {id | id ∈ g.edgesByType.map (·.1)} = {id | id ∈ g.edges.keys} :=
    Set.ext fun _ => (g.edgesByType_perm.map _).mem_iff
  rwa [hkeys, g.edgesByType_perm.length_eq] at hbij

lemma keys_renumberEdges (g : Graph) (previous : Option String) :
    (g.renumberEdges previous).2.edges.keys = intRange 0 g.edges.size := by
  rw [renumberEdges]
  rw [keys_enumerate, List.length_map, g.edgesByType_perm.length_eq]
  rfl

/-- An edge is found under its new id. -/
lemma get?_renumberEdges (previous : Option String) {id : Int} {e : Edge}
    (h : g.edges.get? id = some e) : (g.renumberEdges previous).2.edges.get? (g.newEdgeId id)
      = some { e with properties := keepId previous id e.properties } :=
  get?_enumerate_position g.nodup_edgesByType (mem_edgesByType.mpr h) _

/-- Edges of one type keep their order. -/
lemma newEdgeId_lt {id other : Int} {d e : Edge} (hd : g.edges.get? id = some d)
    (he : g.edges.get? other = some e) (htype : d.type = e.type) (hlt : id < other) :
    g.newEdgeId id < g.newEdgeId other := by
  have hpairwise : g.edgesByType.Pairwise fun a b =>
      a.2.type = b.2.type ∧ a.1 < b.1 ∨ a.2.type ≠ b.2.type := by
    rw [edgesByType_eq]
    exact pairwise_inBlocks g.edges.ascending g.nodup_edgeTypes
  refine position_lt g.nodup_edgesByType hpairwise (mem_edgesByType.mpr hd)
    (mem_edgesByType.mpr he) hlt.ne ?_
  rintro (⟨-, hgt⟩ | hne)
  · exact lt_asymm hlt hgt
  · exact hne htype.symm

end Graph

end TypedGraph
