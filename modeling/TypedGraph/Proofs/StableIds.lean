import TypedGraph.Proofs.KeptIds
import TypedGraph.Proofs.LoadOrder

/-!
# Stable ids

Renumbering vertices changes nothing exactly if they have the ids from zero on and each type owns
one block of them (`withNewVertexIds_eq_self_iff`). It leaves such a graph, and renumbering edges
finds its own order again. On tables without properties the two are idempotent and commute, so
wherever both have taken place no further renumbering moves an id (`settles_performAll`). Then all
that changes is what is saved of the ids (`IsSettled.keepsRows_performAll`).
-/

namespace TypedGraph

open Traversal Json

/-! ### Tables without properties -/

def Vertex.bare (v : Vertex) : Vertex := { v with properties := .empty }

def Edge.bare (e : Edge) : Edge := { e with properties := .empty }

namespace SortedMap

variable {α β γ : Type}

lemma values_mapValues (f : Int → α → β) (m : SortedMap Int α) :
    (m.mapValues f).values = m.entries.map fun e => f e.1 e.2 := by
  simp [values]

lemma mapValues_mapValues (f : Int → α → β) (g : Int → β → γ) (m : SortedMap Int α) :
    (m.mapValues f).mapValues g = m.mapValues fun k a => g k (f k a) := by
  refine ext_get? fun k => ?_
  simp only [get?_mapValues, Option.map_map]
  rfl

/-- A change that every value of a table withstands leaves the table as it is. -/
lemma mapValues_eq_self {f : Int → α → α} {m : SortedMap Int α}
    (h : ∀ k a, m.get? k = some a → f k a = a) : m.mapValues f = m := by
  refine ext_get? fun k => ?_
  rw [get?_mapValues]
  cases hk : m.get? k with
  | none => rfl
  | some a => rw [Option.map_some, h k a hk]

end SortedMap

section Blocks

variable {α β κ : Type} [DecidableEq κ] {key : α → κ} {keys : List κ} {rows : List α} {k : κ}

/-- Rows are put in blocks alike before and after they are changed. -/
lemma inBlocks_map (key : β → κ) (keys : List κ) (f : α → β) (rows : List α) :
    inBlocks key keys (rows.map f) = (inBlocks (fun a => key (f a)) keys rows).map f := by
  simp only [inBlocks, List.map_flatMap, List.filter_map]
  rfl

lemma filter_inBlocks_of_notMem (h : k ∉ keys) :
    (inBlocks key keys rows).filter (key · = k) = [] := by
  refine List.filter_eq_nil_iff.mpr fun a ha hk => h ?_
  rw [← of_decide_eq_true hk]
  exact (mem_inBlocks.mp ha).2

/-- Rows in blocks have the rows of each key, in their order. -/
lemma filter_inBlocks_of_mem (hkeys : keys.Nodup) (h : k ∈ keys) :
    (inBlocks key keys rows).filter (key · = k) = rows.filter (key · = k) := by
  induction keys with
  | nil => cases h
  | cons first keys ih =>
    obtain ⟨hfirst, hkeys⟩ := List.nodup_cons.mp hkeys
    have hsplit : inBlocks key (first :: keys) rows
        = rows.filter (key · = first) ++ inBlocks key keys rows := rfl
    rw [hsplit, List.filter_append, List.filter_filter]
    by_cases heq : k = first
    · subst heq
      simp [filter_inBlocks_of_notMem hfirst]
    · -- rows of another key have left the first block
      have hnone : rows.filter (fun a => key a = k && key a = first) = [] :=
        List.filter_eq_nil_iff.mpr fun a _ ha => by
          obtain ⟨hk, hf⟩ : key a = k ∧ key a = first := by simpa using ha
          exact heq (hk.symm.trans hf)
      rw [hnone, List.nil_append, ih hkeys ((List.mem_cons.mp h).resolve_left heq)]

/-- So they have if there is a block for every row. -/
lemma filter_inBlocks (hkeys : keys.Nodup) (hrows : ∀ a ∈ rows, key a ∈ keys) (k : κ) :
    (inBlocks key keys rows).filter (key · = k) = rows.filter (key · = k) := by
  by_cases h : k ∈ keys
  · exact filter_inBlocks_of_mem hkeys h
  · rw [filter_inBlocks_of_notMem h, eq_comm, List.filter_eq_nil_iff]
    intro a ha hk
    exact h (of_decide_eq_true hk ▸ hrows a ha)

/-- A list is told by the sequence of its keys and by its rows of each key. -/
lemma eq_of_filter_eq {key : α → κ} {xs ys : List α} (hkeys : xs.map key = ys.map key)
    (h : ∀ k, xs.filter (key · = k) = ys.filter (key · = k)) : xs = ys := by
  induction xs generalizing ys with
  | nil => exact (List.map_eq_nil_iff.mp hkeys.symm).symm
  | cons x xs ih =>
    obtain ⟨y, ys, rfl, hkey, hrest⟩ := List.map_eq_cons_iff.mp hkeys.symm
    -- both heads are the first row of their key
    have hheads := h (key x)
    rw [List.filter_cons_of_pos (by simp), List.filter_cons_of_pos (by simp [hkey])] at hheads
    obtain ⟨rfl, -⟩ := List.cons.inj hheads
    refine congrArg (x :: ·) (ih hrest.symm fun k => ?_)
    by_cases hk : key x = k
    · simpa [hk] using h k
    · simpa [hk] using h k

end Blocks

namespace Graph

variable {g g' : Graph} {previous : Option String} {id : Int}

lemma mapValues_enumerate {α β : Type} (f : α → β) (rows : List α) :
    (enumerate rows).mapValues (fun _ => f) = enumerate (rows.map f) := by
  have hentries : ((enumerate rows).mapValues fun _ => f).entries
      = (enumerate (rows.map f)).entries := by
    rw [SortedMap.entries_mapValues, entries_enumerate, entries_enumerate, List.zipIdx_map,
      List.map_map, List.map_map]
    rfl
  exact SortedMap.ext_get? fun id => by rw [SortedMap.get?, SortedMap.get?, hentries]

/-- The tables without their properties: the vertices with their types, and the edges with their
ends and their types. -/
def bare (g : Graph) : Graph where
  vertices := g.vertices.mapValues fun _ => Vertex.bare
  edges := g.edges.mapValues fun _ => Edge.bare
  nextEdgeId := g.nextEdgeId

lemma keys_bare (g : Graph) : g.bare.vertices.keys = g.vertices.keys :=
  SortedMap.keys_mapValues _ _

lemma get?_bare (g : Graph) (id : Int) :
    g.bare.vertices.get? id = (g.vertices.get? id).map Vertex.bare :=
  SortedMap.get?_mapValues _ _ _

lemma verticesByType_bare (g : Graph) :
    g.bare.verticesByType = g.verticesByType.map fun r => (r.1, r.2.bare) := by
  have htypes : g.bare.typesByAppearance = g.typesByAppearance := by
    rw [typesByAppearance, bare, SortedMap.values_mapValues, List.map_map, typesByAppearance,
      SortedMap.values, List.map_map]
    rfl
  rw [verticesByType_eq, htypes, verticesByType_eq]
  exact inBlocks_map _ _ _ _

lemma newVertexId_bare (g : Graph) : g.bare.newVertexId = g.newVertexId := by
  funext id
  rw [newVertexId, newVertexId, position, position, verticesByType_bare, List.map_map]
  rfl

lemma closed_bare : g.bare.Closed ↔ g.Closed := by
  simp only [Closed, bare, SortedMap.keys_mapValues, SortedMap.get?_mapValues,
    Option.map_eq_some_iff, forall_exists_index, and_imp, forall_apply_eq_imp_iff₂]
  rfl

lemma bare_withNewVertexIds (g : Graph) (previous : Option String) :
    (g.withNewVertexIds previous).bare = g.bare.withNewVertexIds none := by
  have hvertices : (g.vertexTable previous).mapValues (fun _ => Vertex.bare)
      = g.bare.vertexTable none := by
    rw [vertexTable, mapValues_enumerate, vertexTable, verticesByType_bare, List.map_map,
      List.map_map]
    rfl
  have hedges : (g.edges.mapValues fun _ e => e.move g.newVertexId).mapValues (fun _ => Edge.bare)
      = (g.edges.mapValues fun _ => Edge.bare).mapValues
          fun _ e => e.move g.bare.newVertexId := by
    rw [SortedMap.mapValues_mapValues, SortedMap.mapValues_mapValues, newVertexId_bare]
    rfl
  rw [withNewVertexIds, bare, hvertices, hedges]
  rfl

/-- Changes of edges that leave their types leave the edge types. -/
lemma types_of_mapValues {f : Edge → Edge} (hf : ∀ e, (f e).type = e.type)
    (h : g'.edges = g.edges.mapValues fun _ => f) :
    g'.namedEdgeTypes = g.namedEdgeTypes ∧ g'.edgeTypes = g.edgeTypes := by
  have hvalues : g'.edges.values = g.edges.values.map f := by
    rw [h, SortedMap.values_mapValues, SortedMap.values, List.map_map]
    rfl
  have hnamed : g'.namedEdgeTypes = g.namedEdgeTypes := by
    rw [namedEdgeTypes, namedEdgeTypes, hvalues, List.filterMap_map]
    simp only [Function.comp_def, hf]
  refine ⟨hnamed, ?_⟩
  rw [edgeTypes, edgeTypes, hnamed, hvalues, List.any_map]
  simp only [Function.comp_def, hf]

/-- They leave the blocks of edges as well. -/
lemma edgesByType_of_mapValues {f : Edge → Edge} (hf : ∀ e, (f e).type = e.type)
    (h : g'.edges = g.edges.mapValues fun _ => f) :
    g'.edgesByType = g.edgesByType.map fun r => (r.1, f r.2) := by
  rw [edgesByType_eq, (types_of_mapValues hf h).2, h, SortedMap.entries_mapValues, inBlocks_map,
    edgesByType_eq]
  simp only [hf]

lemma namedEdgeTypes_bare (g : Graph) : g.bare.namedEdgeTypes = g.namedEdgeTypes :=
  (types_of_mapValues (f := Edge.bare) (fun _ => rfl) rfl).1

lemma edgeTypes_bare (g : Graph) : g.bare.edgeTypes = g.edgeTypes :=
  (types_of_mapValues (f := Edge.bare) (fun _ => rfl) rfl).2

lemma edgesByType_bare (g : Graph) :
    g.bare.edgesByType = g.edgesByType.map fun r => (r.1, r.2.bare) :=
  edgesByType_of_mapValues (fun _ => rfl) rfl

lemma bare_renumberEdges (g : Graph) (previous : Option String) :
    g.bare.renumberEdges none
      = ((g.renumberEdges previous).1, (g.renumberEdges previous).2.bare) := by
  have hedges : (enumerate (g.bare.edgesByType.map fun r =>
      { r.2 with properties := keepId none r.1 r.2.properties }))
        = (enumerate (g.edgesByType.map fun r =>
            { r.2 with properties := keepId previous r.1 r.2.properties })).mapValues
              fun _ => Edge.bare := by
    rw [mapValues_enumerate, edgesByType_bare, List.map_map, List.map_map]
    rfl
  rw [renumberEdges, hedges, edgesByType_bare, List.map_map, List.length_map]
  rfl

/-! ### Vertices in blocks -/

/-- The vertices have the ids from zero on, and each type owns one block of them. -/
structure IsBlockwise (g : Graph) : Prop where
  keys : g.vertices.keys = intRange 0 g.vertices.size
  /-- Between two vertices of a type there are only vertices of it. -/
  blocks : ∀ i j k u v w, g.vertices.get? i = some u → g.vertices.get? j = some v →
    g.vertices.get? k = some w → i < j → j < k → u.type = w.type → v.type = u.type

/-- Renumbered vertices are in blocks. -/
lemma isBlockwise_of_vertices (h : g'.vertices = g.vertexTable previous) : g'.IsBlockwise where
  keys := by
    rw [h, keys_vertexTable, vertexTable, size_enumerate, List.length_map,
      g.verticesByType_perm.length_eq]
    rfl
  blocks i j k u v w hu hv hw hij hjk huw := by
    have hrow {i : Int} {v : Vertex} (hv : g'.vertices.get? i = some v) :
        ∃ r, 0 ≤ i ∧ g.verticesByType[i.toNat]? = some r ∧ r.2.type = v.type := by
      rw [h, vertexTable, get?_enumerate_eq_some_iff, List.getElem?_map,
        Option.map_eq_some_iff] at hv
      obtain ⟨hneg, r, hr, rfl⟩ := hv
      exact ⟨r, hneg, hr, rfl⟩
    obtain ⟨a, hi, ha, hut⟩ := hrow hu
    obtain ⟨b, hj, hb, hvt⟩ := hrow hv
    obtain ⟨c, -, hc, hwt⟩ := hrow hw
    -- a row between two rows of a type lies in their block
    have hbetween := key_eq_of_between (fun r : Int × Vertex => r.2.type)
      (nodup_eraseDups _) ha hb hc (by omega) (by omega) (by rw [hut, hwt, huw])
    rw [← hvt, ← hut]
    exact hbetween

namespace IsBlockwise

variable (h : g.IsBlockwise)

include h

/-- Vertices in blocks stay in their order. -/
lemma verticesByType_eq : g.verticesByType = g.vertices.entries := by
  have hascending : g.verticesByType.Pairwise (·.1 < ·.1) := by
    refine g.pairwise_verticesByType.imp_of_mem fun {a b} ha hb horder => ?_
    -- a row comes first because of its id within a type, or because its type does
    rcases horder with ⟨-, hlt⟩ | hbefore
    · exact hlt
    obtain ⟨id, v, hv, htype, hafter⟩ := exists_lt_of_appearsBefore hbefore
    obtain ⟨_, _, -, -, hne⟩ := hbefore
    have ha := mem_verticesByType.mp ha
    have hb := mem_verticesByType.mp hb
    rcases lt_trichotomy a.1 b.1 with hlt | heq | hgt
    · exact hlt
    · rw [heq, hb] at ha
      exact absurd (congrArg Vertex.type (Option.some.inj ha)) hne
    · -- the type that comes first has a vertex before both, so its block would enclose the other
      -- one
      have hsame := h.blocks id b.1 a.1 v b.2 a.2 hv hb ha (hafter b.1 b.2 hb rfl) hgt htype
      exact absurd (hsame.trans htype) hne
  exact g.verticesByType_perm.eq_of_pairwise
    (fun _ _ _ _ hlt hgt => absurd hgt hlt.asymm) hascending g.vertices.ascending

lemma vertexTable_eq : g.vertexTable none = g.vertices := by
  rw [vertexTable, h.verticesByType_eq]
  exact (eq_enumerate_of_keys h.keys).symm

/-- Vertices in blocks have their own ids as new ones. -/
lemma newVertexId_eq {id : Int} (hid : id ∈ g.vertices.keys) : g.newVertexId id = id := by
  have hpositions : g.vertices.keys.map g.newVertexId = g.vertices.keys.map fun id => id := by
    rw [newVertexId, h.verticesByType_eq, List.map_id']
    exact (map_position (nodup_keys g.vertices)).trans h.keys.symm
  exact List.map_inj_left.mp hpositions id hid

lemma withNewVertexIds_eq (hg : g.Closed) : g.withNewVertexIds none = g := by
  have hedges : (g.edges.mapValues fun _ e => e.move g.newVertexId) = g.edges := by
    refine SortedMap.mapValues_eq_self fun id e he => ?_
    obtain ⟨hsource, hdestination⟩ := hg id e he
    rw [Edge.move, h.newVertexId_eq hsource, h.newVertexId_eq hdestination]
  rw [withNewVertexIds, h.vertexTable_eq, hedges]

end IsBlockwise

/-- Where every edge ends at vertices, new vertex ids change nothing exactly if the vertices have
the ids from zero on and each type owns one block of them. -/
theorem withNewVertexIds_eq_self_iff (hg : g.Closed) :
    g.withNewVertexIds none = g ↔ g.IsBlockwise := by
  constructor
  · intro heq
    exact isBlockwise_of_vertices (congrArg Graph.vertices heq).symm
  · intro h
    exact h.withNewVertexIds_eq hg

/-! ### Renumbering again -/

lemma closed_withNewVertexIds (hg : g.Closed) (previous : Option String) :
    (g.withNewVertexIds previous).Closed := by
  have hnew {id : Int} (hid : id ∈ g.vertices.keys) :
      g.newVertexId id ∈ (g.vertexTable previous).keys := by
    rw [keys_vertexTable, mem_intRange]
    exact (isRelabeling_withNewVertexIds hg previous).bijOn.mapsTo hid
  intro id e he
  rw [withNewVertexIds, SortedMap.get?_mapValues, Option.map_eq_some_iff] at he
  obtain ⟨e, he, rfl⟩ := he
  obtain ⟨hsource, hdestination⟩ := hg id e he
  exact ⟨hnew hsource, hnew hdestination⟩

/-- New vertex ids are given once. -/
lemma withNewVertexIds_idempotent (hg : g.Closed) :
    (g.withNewVertexIds none).withNewVertexIds none = g.withNewVertexIds none :=
  (isBlockwise_of_vertices rfl).withNewVertexIds_eq (closed_withNewVertexIds hg none)

lemma types_withNewVertexIds (g : Graph) (previous : Option String) :
    (g.withNewVertexIds previous).verticesByType.map (·.2.type)
      = g.verticesByType.map (·.2.type) := by
  have hvalues : (g.vertexTable previous).values.map (·.type)
      = g.verticesByType.map (·.2.type) := by
    rw [vertexTable, values_enumerate, List.map_map]
    rfl
  have hblocks : (g.withNewVertexIds previous).IsBlockwise := isBlockwise_of_vertices rfl
  rw [hblocks.verticesByType_eq, ← hvalues, SortedMap.values, List.map_map]
  rfl

/-- New edge ids keep the edges of each type in their order. -/
lemma sameByType_renumberEdges (g : Graph) : SameByType (g.renumberEdges none).2 g where
  vertices := rfl
  edges type := by
    have hvalues : (g.renumberEdges none).2.edges.values = g.edgesByType.map (·.2) :=
      values_enumerate _
    have htypes : ∀ e ∈ g.edges.entries, e.2.type ∈ g.edgeTypes := fun _ => type_mem_edgeTypes
    have hrows := filter_inBlocks g.nodup_edgeTypes htypes type
    rw [← edgesByType_eq] at hrows
    rw [hvalues, SortedMap.values, List.filter_map, List.filter_map]
    exact congrArg (List.map _) hrows

/-- New edge ids are given once, and renumbering edges again tells the same blocks. -/
lemma renumberEdges_idempotent (g : Graph) :
    (g.renumberEdges none).2.renumberEdges none = g.renumberEdges none :=
  g.sameByType_renumberEdges.renumberEdges_eq

/-- Vertices and edges can be renumbered in either order. -/
lemma renumberEdges_withNewVertexIds (g : Graph) : (g.withNewVertexIds none).renumberEdges none
    = ((g.renumberEdges none).1, (g.renumberEdges none).2.withNewVertexIds none) := by
  have hrows : (g.withNewVertexIds none).edgesByType
      = g.edgesByType.map fun r => (r.1, r.2.move g.newVertexId) :=
    edgesByType_of_mapValues (fun _ => rfl) rfl
  have hedges : enumerate ((g.withNewVertexIds none).edgesByType.map fun r =>
      { r.2 with properties := keepId none r.1 r.2.properties })
        = (g.renumberEdges none).2.edges.mapValues fun _ e => e.move g.newVertexId := by
    rw [hrows, List.map_map, renumberEdges, mapValues_enumerate, List.map_map]
    rfl
  rw [renumberEdges, hedges, hrows, List.map_map, List.length_map]
  rfl

lemma withNewVertexIds_renumberEdges (g : Graph) :
    (g.renumberEdges none).2.withNewVertexIds none
      = ((g.withNewVertexIds none).renumberEdges none).2 :=
  (congrArg Prod.snd g.renumberEdges_withNewVertexIds).symm

/-! ### Renumbering after any renumberings -/

/-- The blocks of ids that renumbering vertices tells. -/
def vertexBlocks (g : Graph) : List TypeRange :=
  TypeRange.ofNames 0 (g.verticesByType.map (·.2.type))

/-- The blocks of ids that renumbering edges tells. -/
def edgeBlocks (g : Graph) : List TypeRange := (g.renumberEdges none).1

lemma perform_renumberVertices (hg : g.Closed) (previous : Option String) :
    g.perform (.renumberVertices previous)
      = (.ok g.vertexBlocks, g.withNewVertexIds previous) := by
  obtain ⟨ranges, g', h, hplace⟩ := renumberInPlace_of_closed hg previous
  obtain ⟨rfl, rfl⟩ := Prod.mk.inj (Except.ok.inj ((renumberVertices_of_closed hg _).symm.trans h))
  exact hplace

lemma perform_renumberEdges (g : Graph) (previous : Option String) :
    g.perform (.renumberEdges previous) = (.ok g.edgeBlocks, (g.renumberEdges previous).2) := rfl

lemma vertexBlocks_bare (g : Graph) : g.bare.vertexBlocks = g.vertexBlocks := by
  rw [vertexBlocks, verticesByType_bare, List.map_map]
  rfl

lemma edgeBlocks_bare (g : Graph) : g.bare.edgeBlocks = g.edgeBlocks := by
  rw [edgeBlocks, bare_renumberEdges g none]
  rfl

/-- What some renumberings leave of tables without properties. -/
structure Settles (cs : List Call) (b b' : Graph) : Prop where
  closed : b'.Closed
  vertexBlocks : b'.vertexBlocks = b.vertexBlocks
  edgeBlocks : b'.edgeBlocks = b.edgeBlocks
  vertices : (∃ previous, .renumberVertices previous ∈ cs) → b'.withNewVertexIds none = b'
  edges : (∃ previous, .renumberEdges previous ∈ cs) → (b'.renumberEdges none).2 = b'

variable {b b' : Graph} {cs : List Call}

lemma settles_nil (hb : b.Closed) : Settles [] b b where
  closed := hb
  vertexBlocks := rfl
  edgeBlocks := rfl
  vertices := by simp
  edges := by simp

lemma Settles.renumberVertices (h : Settles cs b b') (previous : Option String) :
    Settles (cs ++ [.renumberVertices previous]) b (b'.withNewVertexIds none) where
  closed := closed_withNewVertexIds h.closed none
  vertexBlocks := by
    rw [← h.vertexBlocks, Graph.vertexBlocks, types_withNewVertexIds]
    rfl
  edgeBlocks := by
    rw [← h.edgeBlocks, Graph.edgeBlocks, renumberEdges_withNewVertexIds]
    rfl
  vertices _ := withNewVertexIds_idempotent h.closed
  edges hmem := by
    rw [renumberEdges_withNewVertexIds, h.edges (by simpa using hmem)]

lemma Settles.renumberEdges (h : Settles cs b b') (previous : Option String) :
    Settles (cs ++ [.renumberEdges previous]) b (b'.renumberEdges none).2 where
  closed id e he := by
    obtain ⟨old, d, hd, -, rfl⟩ := exists_of_get?_renumberEdges he
    exact h.closed old d hd
  vertexBlocks := h.vertexBlocks
  edgeBlocks := by
    rw [← h.edgeBlocks, Graph.edgeBlocks, renumberEdges_idempotent]
    rfl
  vertices hmem := by
    rw [withNewVertexIds_renumberEdges, h.vertices (by simpa using hmem)]
  edges _ := congrArg Prod.snd b'.renumberEdges_idempotent

/-- Renumberings of any kinds and under any columns settle the ids of those kinds. -/
theorem settles_performAll (hg : g.Closed) (hcs : ∀ c ∈ cs, c.IsRenumbering) :
    Settles cs g.bare (g.performAll cs).bare := by
  induction cs using List.reverseRecOn with
  | nil => exact settles_nil (closed_bare.mpr hg)
  | append_singleton cs c ih =>
    obtain ⟨hcs, hc⟩ : (∀ c ∈ cs, c.IsRenumbering) ∧ c.IsRenumbering := by
      simpa [or_imp, forall_and] using hcs
    have hsettles := ih hcs
    -- on bare tables the last call does what it would do without a column
    have hlast : g.performAll (cs ++ [c]) = ((g.performAll cs).perform c).2 := by
      rw [performAll, List.foldl_append]
      rfl
    rw [hlast]
    cases hc with
    | vertices previous =>
      rw [perform_renumberVertices (closed_bare.mp hsettles.closed), bare_withNewVertexIds]
      exact hsettles.renumberVertices previous
    | edges previous =>
      have hbare : ((g.performAll cs).bare.renumberEdges none).2
          = ((g.performAll cs).renumberEdges previous).2.bare :=
        congrArg Prod.snd (bare_renumberEdges _ previous)
      rw [perform_renumberEdges, ← hbare]
      exact hsettles.renumberEdges previous

/-! ### Rows under settled ids -/

/-- No renumbering moves an id. -/
structure IsSettled (g : Graph) : Prop where
  closed : g.Closed
  vertices : g.bare.withNewVertexIds none = g.bare
  edges : (g.bare.renumberEdges none).2 = g.bare

lemma Settles.isSettled (h : Settles cs g.bare g'.bare)
    (hvertices : ∃ previous, .renumberVertices previous ∈ cs)
    (hedges : ∃ previous, .renumberEdges previous ∈ cs) : g'.IsSettled where
  closed := closed_bare.mp h.closed
  vertices := h.vertices hvertices
  edges := h.edges hedges

/-- The properties of a row are the same, except in some columns, which now hold its id. -/
structure KeepsProperties (columns : Set String) (id : Int) (p p' : Properties) : Prop where
  kept : ∀ c ∉ columns, p'.get? c = p.get? c
  saved : ∀ c ∈ columns, p'.get? c = some (.int id)

/-- The rows are the same under the same ids, with their types and their ends, and they have the
same properties, except in the columns that now hold their ids. -/
structure KeepsRows (vertexColumns edgeColumns : Set String) (g g' : Graph) : Prop where
  bare : g'.bare = g.bare
  vertices : ∀ id v, g.vertices.get? id = some v → ∃ v', g'.vertices.get? id = some v' ∧
    KeepsProperties vertexColumns id v.properties v'.properties
  edges : ∀ id e, g.edges.get? id = some e → ∃ e', g'.edges.get? id = some e' ∧
    KeepsProperties edgeColumns id e.properties e'.properties

section KeepsRows

variable {vertexColumns vertexColumns' edgeColumns edgeColumns' : Set String}

lemma keepsProperties_self (id : Int) (p : Properties) : KeepsProperties ∅ id p p where
  kept _ _ := rfl
  saved _ h := h.elim

lemma KeepsProperties.trans {columns columns' : Set String} {p p' p'' : Properties}
    (h : KeepsProperties columns id p p') (h' : KeepsProperties columns' id p' p'') :
    KeepsProperties (columns ∪ columns') id p p'' where
  kept c hc := by
    obtain ⟨hnot, hnot'⟩ := not_or.mp hc
    rw [h'.kept c hnot', h.kept c hnot]
  saved c hc := by
    by_cases hc' : c ∈ columns'
    · exact h'.saved c hc'
    · rw [h'.kept c hc', h.saved c (hc.resolve_right hc')]

lemma keepsProperties_keepId {p p' : Properties}
    (h : ∀ c, p'.get? c = if previous = some c then some (.int id) else p.get? c) :
    KeepsProperties {c | previous = some c} id p p' where
  kept c hc := (h c).trans (if_neg hc)
  saved c hc := (h c).trans (if_pos hc)

lemma keepsRows_self (g : Graph) : KeepsRows ∅ ∅ g g where
  bare := rfl
  vertices id v h := ⟨v, h, keepsProperties_self id _⟩
  edges id e h := ⟨e, h, keepsProperties_self id _⟩

lemma KeepsRows.trans {g'' : Graph} (h : KeepsRows vertexColumns edgeColumns g g')
    (h' : KeepsRows vertexColumns' edgeColumns' g' g'') :
    KeepsRows (vertexColumns ∪ vertexColumns') (edgeColumns ∪ edgeColumns') g g'' where
  bare := h'.bare.trans h.bare
  vertices id v hv := by
    obtain ⟨v', hv', hkeeps⟩ := h.vertices id v hv
    obtain ⟨v'', hv'', hkeeps'⟩ := h'.vertices id v' hv'
    exact ⟨v'', hv'', hkeeps.trans hkeeps'⟩
  edges id e he := by
    obtain ⟨e', he', hkeeps⟩ := h.edges id e he
    obtain ⟨e'', he'', hkeeps'⟩ := h'.edges id e' he'
    exact ⟨e'', he'', hkeeps.trans hkeeps'⟩

lemma KeepsRows.isSettled (h : KeepsRows vertexColumns edgeColumns g g') (hg : g.IsSettled) :
    g'.IsSettled where
  closed := by
    rw [← closed_bare, h.bare]
    exact closed_bare.mpr hg.closed
  vertices := by rw [h.bare, hg.vertices]
  edges := by rw [h.bare, hg.edges]

end KeepsRows

namespace IsSettled

variable (h : g.IsSettled)

include h

lemma newVertexId_eq (hid : id ∈ g.vertices.keys) : g.newVertexId id = id := by
  have hblocks := (withNewVertexIds_eq_self_iff (closed_bare.mpr h.closed)).mp h.vertices
  rw [← newVertexId_bare]
  exact hblocks.newVertexId_eq (by rwa [keys_bare])

/-- Edges in blocks stay in their order. Edges without properties can be equal, so the order is told
by their types. -/
lemma edgesByType_eq : g.edgesByType = g.edges.entries := by
  have htypes : g.edgesByType.map (·.2.type) = g.edges.entries.map (·.2.type) := by
    have hrenumbered : (g.bare.renumberEdges none).2.edges.values.map (·.type)
        = g.edgesByType.map (·.2.type) := by
      rw [renumberEdges, values_enumerate, edgesByType_bare, List.map_map, List.map_map]
      rfl
    rw [← hrenumbered, h.edges, bare, SortedMap.values_mapValues, List.map_map]
    rfl
  refine eq_of_filter_eq htypes fun type => ?_
  rw [Graph.edgesByType_eq]
  exact filter_inBlocks g.nodup_edgeTypes (fun _ => type_mem_edgeTypes) type

lemma newEdgeId_eq (hid : id ∈ g.edges.keys) : g.newEdgeId id = id := by
  have hkeys : g.edges.keys = intRange 0 g.edges.size := by
    have hbare := keys_renumberEdges g.bare none
    rw [h.edges, bare, SortedMap.keys_mapValues] at hbare
    rw [hbare]
    exact congrArg (intRange 0 ·) (congrArg Nat.cast (List.length_map _))
  have hpositions : g.edges.keys.map g.newEdgeId = g.edges.keys.map fun id => id := by
    rw [newEdgeId, h.edgesByType_eq, List.map_id']
    exact (map_position (nodup_keys g.edges)).trans hkeys.symm
  exact List.map_inj_left.mp hpositions id hid

lemma keepsRows_withNewVertexIds (previous : Option String) :
    KeepsRows {c | previous = some c} ∅ g (g.withNewVertexIds previous) where
  bare := by rw [bare_withNewVertexIds, h.vertices]
  vertices id v hv := by
    have hid := SortedMap.mem_keys_iff.mpr ⟨v, hv⟩
    obtain ⟨v', hv', -, hproperties⟩ :=
      (isRelabeling_withNewVertexIds h.closed previous).vertices id v hv
    rw [h.newVertexId_eq hid] at hv'
    exact ⟨v', hv', keepsProperties_keepId hproperties⟩
  edges id e he := by
    refine ⟨e.move g.newVertexId, ?_, keepsProperties_self id _⟩
    rw [withNewVertexIds, SortedMap.get?_mapValues, he]
    rfl

lemma keepsRows_renumberEdges (previous : Option String) :
    KeepsRows ∅ {c | previous = some c} g (g.renumberEdges previous).2 where
  bare := by rw [← h.edges, bare_renumberEdges g previous]
  vertices id v hv := ⟨v, hv, keepsProperties_self id _⟩
  edges id e he := by
    have hmoved := get?_renumberEdges previous he
    rw [h.newEdgeId_eq (SortedMap.mem_keys_iff.mpr ⟨e, he⟩)] at hmoved
    exact ⟨_, hmoved, keepsProperties_keepId (get?_keepId previous id e.properties)⟩

lemma keepsRows_renumbered (old : Option String × Option String) :
    KeepsRows {c | old.1 = some c} {c | old.2 = some c} g (g.renumbered old) := by
  have hvertices := h.keepsRows_withNewVertexIds old.1
  have hboth := hvertices.trans ((hvertices.isSettled h).keepsRows_renumberEdges old.2)
  rwa [Set.union_empty, Set.empty_union] at hboth

end IsSettled

/-- Once ids are settled, further renumberings only save them, each in its column. -/
theorem IsSettled.keepsRows_performAll (h : g.IsSettled) (hcs : ∀ c ∈ cs, c.IsRenumbering) :
    KeepsRows {c | .renumberVertices (some c) ∈ cs} {c | .renumberEdges (some c) ∈ cs} g
      (g.performAll cs) := by
  induction cs generalizing g with
  | nil => simpa [performAll] using keepsRows_self g
  | cons c cs ih =>
    obtain ⟨hc, hrenumberings⟩ := List.forall_mem_cons.mp hcs
    cases hc with
    | vertices previous =>
      have hfirst := h.keepsRows_withNewVertexIds previous
      have hrest := hfirst.trans (ih (hfirst.isSettled h) hrenumberings)
      have hcall : g.performAll (.renumberVertices previous :: cs)
          = (g.withNewVertexIds previous).performAll cs := by
        rw [performAll, List.foldl_cons, perform_renumberVertices h.closed]
        rfl
      -- the columns of the first call and of the others together are those of all calls
      rw [hcall]
      convert hrest using 1 <;> ext c <;> simp [eq_comm]
    | edges previous =>
      have hfirst := h.keepsRows_renumberEdges previous
      have hrest := hfirst.trans (ih (hfirst.isSettled h) hrenumberings)
      show KeepsRows _ _ g ((g.renumberEdges previous).2.performAll cs)
      convert hrest using 1 <;> ext c <;> simp [eq_comm]

end Graph

end TypedGraph
