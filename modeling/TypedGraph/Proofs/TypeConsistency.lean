import TypedGraph.Proofs.EdgeIndices
import TypedGraph.Proofs.TensorRows

/-!
# Type-consistent graphs

A store can be built over a graph exactly if every edge has a type, and the edges of one type leave
vertices of one type and enter vertices of one type (`build_of_reachable`). The ends are inspected
on the renumbered tables, but renumbering keeps the types at the ends of every edge
(`IsRelabeling.kinds_eq`, `kinds_renumberEdges`), so what is decided is a property of the graph that
was given.
-/

namespace TypedGraph

open Traversal TypedGraph.Action

/-- The vertex type at an end of the edges of a triple. -/
def EdgeTriple.typeAt (t : EdgeTriple) : EdgeEnd → String
  | .source => t.source
  | .destination => t.destination

/-! ### Types at the ends of edges -/

namespace Graph

variable {g g' : Graph} {edge type : String} {ids : List Int} {id : Int} {e : Edge}
variable {side : EdgeEnd}

/-- Every edge has a type, and the edges of one type have vertices of one type at each end. -/
structure TypeConsistent (g : Graph) : Prop where
  typed : ∀ e ∈ g.edges.values, e.type ≠ none
  ends : ∀ edge side, ∃ type, ∀ e ∈ g.edges.values, e.type = some edge →
    g.typeAt? (e.endAt side) = some type

lemma endAt_mem_keys (hg : g.Closed) (he : e ∈ g.edges.values) (side : EdgeEnd) :
    e.endAt side ∈ g.vertices.keys := by
  obtain ⟨⟨id, _⟩, hmem, rfl⟩ := List.mem_map.mp he
  obtain ⟨hsource, hdestination⟩ := hg id _ (SortedMap.mem_entries_iff.mp hmem)
  cases side with
  | source => exact hsource
  | destination => exact hdestination

/-- Vertices have one type among them exactly if all are of it. -/
lemma typesOf_eq_singleton_iff (hne : ids ≠ []) (hids : ∀ id ∈ ids, id ∈ g.vertices.keys) :
    g.typesOf ids = [type] ↔ ∀ id ∈ ids, g.typeAt? id = some type := by
  constructor
  · intro h id hid
    obtain ⟨v, hv⟩ := SortedMap.mem_keys_iff.mp (hids id hid)
    have htype : g.typeAt? id = some v.type := by rw [typeAt?, hv, Option.map_some]
    have hmem : v.type ∈ g.typesOf ids := mem_typesOf.mpr ⟨id, hid, htype⟩
    rw [h, List.mem_singleton] at hmem
    rw [htype, hmem]
  · intro h
    -- the types of vertices are listed in ascending order and once each, so membership decides
    have hascending : (g.typesOf ids).Pairwise (· < ·) := Ascending.pairwise_ofList _
    refine hascending.eq_of_mem_iff (List.pairwise_singleton _ type) fun other => ?_
    rw [mem_typesOf, List.mem_singleton]
    constructor
    · rintro ⟨id, hid, hother⟩
      exact Option.some.inj (hother.symm.trans (h id hid))
    · rintro rfl
      obtain ⟨id, hid⟩ := List.exists_mem_of_ne_nil ids hne
      exact ⟨id, hid, h id hid⟩

/-! ### Kinds of edges -/

/-- The type of an edge, and the types of the vertices at its ends. -/
def kind (g : Graph) (e : Edge) : Option String × (EdgeEnd → Option String) :=
  (e.type, fun side => g.typeAt? (e.endAt side))

def kinds (g : Graph) : List (Option String × (EdgeEnd → Option String)) :=
  g.edges.values.map g.kind

lemma typeConsistent_iff_kinds : g.TypeConsistent ↔
    (∀ k ∈ g.kinds, k.1 ≠ none) ∧
      ∀ edge side, ∃ type, ∀ k ∈ g.kinds, k.1 = some edge → k.2 side = some type := by
  simp only [kinds, List.forall_mem_map]
  exact ⟨fun h => ⟨h.typed, h.ends⟩, fun h => ⟨h.1, h.2⟩⟩

/-- Consistency is a matter of the kinds of edges. -/
lemma typeConsistent_congr (h : g'.kinds.Perm g.kinds) :
    g'.TypeConsistent ↔ g.TypeConsistent := by
  simp only [typeConsistent_iff_kinds, h.mem_iff]

lemma typed_congr (h : g'.kinds.Perm g.kinds) :
    (∀ e ∈ g'.edges.values, e.type ≠ none) ↔ ∀ e ∈ g.edges.values, e.type ≠ none := by
  have hkinds (g : Graph) : (∀ e ∈ g.edges.values, e.type ≠ none) ↔ ∀ k ∈ g.kinds, k.1 ≠ none := by
    rw [kinds, List.forall_mem_map]
    rfl
  simp only [hkinds, h.mem_iff]

lemma mem_namedEdgeTypes_congr (h : g'.kinds.Perm g.kinds) :
    edge ∈ g'.namedEdgeTypes ↔ edge ∈ g.namedEdgeTypes := by
  have hkinds (g : Graph) : edge ∈ g.namedEdgeTypes ↔ ∃ k ∈ g.kinds, k.1 = some edge := by
    simp only [mem_namedEdgeTypes_iff_values, kinds, List.mem_map, exists_exists_and_eq_and, kind]
  simp only [hkinds, h.mem_iff]

/-- A vertex has the same type under its new id. -/
lemma IsRelabeling.typeAt?_eq {f : Int → Int} {previous : Option String}
    (h : IsRelabeling f previous g g') (hid : id ∈ g.vertices.keys) :
    g'.typeAt? (f id) = g.typeAt? id := by
  obtain ⟨v, hv⟩ := SortedMap.mem_keys_iff.mp hid
  obtain ⟨v', hv', htype, -⟩ := h.vertices id v hv
  rw [typeAt?, typeAt?, hv, hv', Option.map_some, Option.map_some, htype]

lemma IsRelabeling.kinds_eq {f : Int → Int} {previous : Option String}
    (h : IsRelabeling f previous g g') : g'.kinds = g.kinds := by
  rw [kinds, kinds, h.edges, SortedMap.values, SortedMap.values, SortedMap.entries_mapValues,
    List.map_map, List.map_map, List.map_map]
  refine List.map_congr_left fun r hr => Prod.ext rfl (funext fun side => ?_)
  have hend := endAt_mem_keys h.closed (List.mem_map_of_mem hr) side
  cases side with
  | source => exact h.typeAt?_eq hend
  | destination => exact h.typeAt?_eq hend

lemma values_enumerate {α : Type} (rows : List α) : (enumerate rows).values = rows := by
  rw [SortedMap.values, entries_enumerate, List.map_map]
  exact List.zipIdx_map_fst 0 rows

lemma kinds_renumberEdges (g : Graph) (previous : Option String) :
    (g.renumberEdges previous).2.kinds.Perm g.kinds := by
  have hkinds : (g.renumberEdges previous).2.kinds = g.edgesByType.map fun r => g.kind r.2 := by
    rw [kinds, renumberEdges, values_enumerate, List.map_map]
    rfl
  rw [hkinds, kinds, SortedMap.values, List.map_map]
  exact g.edgesByType_perm.map _

/-! ### Entries read off the tables -/

/-- An entry tells of the edges of its type what is so. -/
structure Tells (g : Graph) (entry : EdgeEntry) : Prop where
  ends : ∀ e ∈ g.edges.values, e.type = some entry.triple.edge →
    ∀ side, g.typeAt? (e.endAt side) = some (entry.triple.typeAt side)
  count : entry.count = g.edges.values.countP (·.type = some entry.triple.edge)

lemma length_edgesOf (g : Graph) (edge : String) :
    (g.edgesOf edge).length = g.edges.values.countP (·.type = some edge) := by
  rw [edgesOf, SortedMap.values, List.countP_map, List.countP_eq_length_filter]
  rfl

lemma edgesOf_ne_nil (hedge : edge ∈ g.namedEdgeTypes) : g.edgesOf edge ≠ [] := by
  obtain ⟨e, he, htype⟩ := mem_namedEdgeTypes_iff_values.mp hedge
  refine List.ne_nil_of_length_pos ?_
  rw [length_edgesOf]
  exact List.countP_pos_iff.mpr ⟨e, he, decide_eq_true htype⟩

/-- What is so of edges is a matter of their kinds. -/
lemma tells_congr {entry : EdgeEntry} (h : g'.kinds.Perm g.kinds) :
    g'.Tells entry ↔ g.Tells entry := by
  have hkinds (g : Graph) : g.Tells entry ↔
      (∀ k ∈ g.kinds, k.1 = some entry.triple.edge →
        ∀ side, k.2 side = some (entry.triple.typeAt side)) ∧
      entry.count = g.kinds.countP (·.1 = some entry.triple.edge) := by
    simp only [kinds, List.forall_mem_map, List.countP_map]
    exact ⟨fun h => ⟨h.ends, h.count⟩, fun h => ⟨h.1, h.2⟩⟩
  rw [hkinds, hkinds, h.countP_eq]
  simp only [h.mem_iff]

lemma oneType_eq_ok_iff {types : List String} :
    EdgeCatalog.oneType edge side types = .ok type ↔ types = [type] :=
  ⟨EdgeCatalog.oneType_eq_ok, fun h => by rw [h]; rfl⟩

/-- An end of the edges of a type has one vertex type exactly if it has it at every edge. -/
lemma endTypeOf_eq_ok_iff (hg : g.Closed) (hedge : edge ∈ g.namedEdgeTypes) :
    g.endTypeOf edge side = .ok type ↔
      ∀ e ∈ g.edges.values, e.type = some edge → g.typeAt? (e.endAt side) = some type := by
  have hne : g.endsOf edge side ≠ [] := by
    rw [endsOf, Ne, List.map_eq_nil_iff]
    exact edgesOf_ne_nil hedge
  have hids : ∀ id ∈ g.endsOf edge side, id ∈ g.vertices.keys := by
    intro id hid
    obtain ⟨e, he, -, rfl⟩ := mem_endsOf.mp hid
    exact endAt_mem_keys hg he side
  rw [endTypeOf, oneType_eq_ok_iff, typesOf_eq_singleton_iff hne hids]
  constructor
  · intro h e he htype
    exact h _ (mem_endsOf.mpr ⟨e, he, htype, rfl⟩)
  · intro h id hid
    obtain ⟨e, he, htype, rfl⟩ := mem_endsOf.mp hid
    exact h e he htype

lemma tells_of_entryOf (hg : g.Closed) (hedge : edge ∈ g.namedEdgeTypes) {entry : EdgeEntry}
    (h : g.entryOf edge = .ok entry) : g.Tells entry := by
  obtain ⟨source, hsource, h⟩ := bind_eq_ok_iff.mp h
  obtain ⟨destination, hdestination, h⟩ := bind_eq_ok_iff.mp h
  obtain rfl := Except.ok.inj h
  refine ⟨fun e he htype side => ?_, g.length_edgesOf edge⟩
  cases side with
  | source => exact (endTypeOf_eq_ok_iff hg hedge).mp hsource e he htype
  | destination => exact (endTypeOf_eq_ok_iff hg hedge).mp hdestination e he htype

/-- An edge type has an entry exactly if its edges have one vertex type at each end. -/
lemma exists_entryOf_iff (hg : g.Closed) (hedge : edge ∈ g.namedEdgeTypes) :
    (∃ entry, g.entryOf edge = .ok entry) ↔ ∀ side, ∃ type, ∀ e ∈ g.edges.values,
      e.type = some edge → g.typeAt? (e.endAt side) = some type := by
  constructor
  · rintro ⟨entry, h⟩ side
    have hends := (tells_of_entryOf hg hedge h).ends
    rw [triple_edge_of_entryOf h] at hends
    exact ⟨_, fun e he htype => hends e he htype side⟩
  · intro h
    obtain ⟨source, hsource⟩ := h .source
    obtain ⟨destination, hdestination⟩ := h .destination
    rw [← endTypeOf_eq_ok_iff hg hedge] at hsource hdestination
    exact ⟨_, by rw [entryOf, hsource, hdestination]; rfl⟩

end Graph

/-! ### Catalogs of plain sources -/

namespace EdgeCatalog

variable {c : EdgeCatalog} {edge : String} {host : Host} {entry : EdgeEntry}
variable {types : List String} {es : List EdgeEntry}

/-- The catalog with an entry under the name in its triple. -/
def file (c : EdgeCatalog) (entry : EdgeEntry) : EdgeCatalog :=
  ⟨c.entries.insert entry.triple.edge entry⟩

lemma mem_of_entry_foldl_file (h : (es.foldl file c).entry edge = .ok entry) :
    entry ∈ es ∨ c.entry edge = .ok entry := by
  induction es generalizing c with
  | nil => exact .inr h
  | cons e es ih =>
    rcases ih h with hmem | hfiled
    · exact .inl (List.mem_cons_of_mem _ hmem)
    · rw [entry_eq_ok_iff, file, SortedMap.get?_insert] at hfiled
      split_ifs at hfiled
      · obtain rfl := Option.some.inj hfiled
        exact .inl List.mem_cons_self
      · exact .inr (entry_eq_ok_iff.mpr hfiled)

/-- Adding types files the entry of each, up to the first that has none. -/
lemma runOn_addTypes (h : ∀ edge ∈ types, edge ∈ host.graph.namedEdgeTypes) :
    (addTypes .plain (types.map some) c).runOn host
      = (((·.foldl file c) <$> types.mapM host.graph.entryOf).mapError .construction, host) := by
  -- the first type without an entry stops the rest, so the error is its own
  induction types generalizing c with
  | nil => rfl
  | cons edge types ih =>
    obtain ⟨hedge, htypes⟩ := List.forall_mem_cons.mp h
    have hinspect := runOn_inspect (Graph.edgesOf_ne_nil hedge)
    rw [List.mapM_cons]
    cases hentry : host.graph.entryOf edge with
    | error e =>
      rw [hentry] at hinspect
      exact runOn_bind_error hinspect
    | ok entry =>
      rw [hentry] at hinspect
      refine (runOn_bind_ok hinspect).trans ((ih htypes).trans ?_)
      rw [← Graph.triple_edge_of_entryOf hentry]
      cases types.mapM host.graph.entryOf <;> rfl

end EdgeCatalog

namespace Graph

variable {g : Graph} {c : EdgeCatalog} {edge : String} {entry : EdgeEntry} {host : Host}

/-- The catalog of a graph whose edges all have types. -/
def catalogOf (g : Graph) : Except ConstructionError EdgeCatalog :=
  (·.foldl EdgeCatalog.file {}) <$> g.namedEdgeTypes.mapM g.entryOf

lemma runOn_catalog (htyped : host.graph.edgeTypes = host.graph.namedEdgeTypes.map some) :
    (EdgeCatalog.build .plain).runOn host
      = (host.graph.catalogOf.mapError .construction, host) := by
  rw [EdgeCatalog.build, runOn_bind_ok (runOn_get host)]
  have hplain : Source.plain.edgeTypes host.graph = host.graph.namedEdgeTypes.map some := htyped
  rw [hplain]
  exact EdgeCatalog.runOn_addTypes fun _ hedge => hedge

/-- There is a catalog exactly if the edges of each type have one vertex type at each end. -/
lemma exists_catalogOf_iff (hg : g.Closed) : (∃ c, g.catalogOf = .ok c) ↔
    ∀ edge side, ∃ type, ∀ e ∈ g.edges.values, e.type = some edge →
      g.typeAt? (e.endAt side) = some type := by
  constructor
  · rintro ⟨c, hc⟩ edge side
    obtain ⟨es, hes, -⟩ := map_eq_ok_iff.mp hc
    by_cases hedge : edge ∈ g.namedEdgeTypes
    · exact (exists_entryOf_iff hg hedge).mp (ok_of_mapM_eq_ok hes hedge) side
    · -- of a type without edges, any vertex type will do
      refine ⟨edge, fun e he htype => absurd ?_ hedge⟩
      exact mem_namedEdgeTypes_iff_values.mpr ⟨e, he, htype⟩
  · intro h
    obtain ⟨es, hes⟩ := mapM_ok_of_forall fun edge hedge =>
      (exists_entryOf_iff hg hedge).mpr (h edge)
    exact ⟨_, map_eq_ok_iff.mpr ⟨es, hes, rfl⟩⟩

/-- The entries of a catalog tell of the edges what is so. -/
lemma tells_of_catalogOf (hg : g.Closed) (hc : g.catalogOf = .ok c)
    (h : c.entry edge = .ok entry) : g.Tells entry := by
  obtain ⟨es, hes, rfl⟩ := map_eq_ok_iff.mp hc
  rcases EdgeCatalog.mem_of_entry_foldl_file h with hmem | hempty
  · obtain ⟨name, hname, hentry⟩ := (mem_iff_of_mapM_eq_ok hes).mp hmem
    exact tells_of_entryOf hg hname hentry
  · rw [EdgeCatalog.entry_eq_ok_iff] at hempty
    simp at hempty

lemma any_isNone_edgeTypes :
    g.edgeTypes.any Option.isNone = true ↔ ∃ e ∈ g.edges.values, e.type = none := by
  rw [edgeTypes, List.any_append, List.any_map]
  simp

lemma edgeTypes_of_typed (h : ∀ e ∈ g.edges.values, e.type ≠ none) :
    g.edgeTypes = g.namedEdgeTypes.map some := by
  refine g.edgeTypes_eq fun type htype => ?_
  rw [Option.isSome_iff_ne_none]
  rintro rfl
  obtain ⟨e, he, hnone⟩ := any_isNone_edgeTypes.mp (List.any_eq_true.mpr ⟨none, htype, rfl⟩)
  exact h e he hnone

end Graph

/-! ### Building stores -/

namespace Store

variable {served : Device} {config : Config} {host : Host} {s : Store}

/-- The offset table of a graph that comes to be can always be made. What it leaves comes to be as
well, and has edges of the same kinds. -/
lemma exists_makeOffsets (hg : Graph.Reachable host.graph) (policy : IdPolicy) :
    ∃ t between, (makeOffsets .plain policy).runOn host = (.ok t, between) ∧
      Graph.Reachable between.graph ∧ between.graph.kinds.Perm host.graph.kinds := by
  by_cases hpolicy : policy = .keep
  · obtain rfl := hpolicy
    have hcounts := congrArg (Except.mapError StoreError.graph) (countTypes_plain host.graph)
    have hrun : (ofGraph (countTypes .plain host.graph)).runOn host = (.ok _, host) :=
      Prod.ext hcounts rfl
    exact ⟨_, host, (runOn_bind_ok (runOn_get host)).trans (runOn_bind_ok hrun), hg, .refl _⟩
  · -- renumbering vertices cannot fail over a graph that comes to be, and its blocks make a table
    obtain ⟨order, hloaded⟩ := hg
    let old := oldColumns .plain policy
    obtain ⟨ranges, g', f, hvertices, hrelabeling⟩ :=
      Graph.renumberVertices_isRelabeling ⟨order, hloaded⟩ old.1
    obtain ⟨t, htable, -⟩ := Graph.ofRanges_describes hvertices
    have hfirst : (change fun g => Source.plain.renumberVertices g old.1).runOn host
        = (.ok ranges, { host with graph := g' }) :=
      runOn_change_eq_ok_iff.mpr ⟨g', hvertices, rfl⟩
    refine ⟨t, { host with graph := (g'.renumberEdges old.2).2 }, ?_,
      ⟨_, (hloaded.renumberVertices hvertices).renumberEdges old.2⟩, ?_⟩
    · rw [makeOffsets_of_ne_keep hpolicy, renumber, runOn_bind_ok hfirst]
      have hsecond : (change fun g => Source.plain.renumberEdges g old.2).runOn
          { host with graph := g' } = (.ok (g'.renumberEdges old.2).1,
            { host with graph := (g'.renumberEdges old.2).2 }) :=
        runOn_change_eq_ok_iff.mpr ⟨_, rfl, rfl⟩
      rw [runOn_bind_ok hsecond, htable, runOn_ofExcept]
    · rw [← hrelabeling.kinds_eq]
      exact g'.kinds_renumberEdges old.2

/-- The store that comes of the parts that are made for it. -/
def assembled (source : Source) (served : Device) (config : Config) (g : Graph) (offsets : Offsets)
    (edges : EdgeCatalog) : Store where
  source
  device := served
  config
  offsets
  edges
  tensors := TensorCatalog.defaults (source.vertexTypes g) (source.vertexPropertyNames g)
    config.featureName config.labelName config.propertyDType config.vertexDType
  oldVertexColumn := (oldColumns source config.policy).1
  oldEdgeColumn := (oldColumns source config.policy).2

/-- Over a graph whose edges all have types, a store is built exactly if what renumbering leaves has
a catalog. -/
lemma runOn_build_of_typed (hg : Graph.Reachable host.graph) (hdevice : config.device = served)
    (hint : config.vertexDType.isInteger) (htyped : ∀ e ∈ host.graph.edges.values, e.type ≠ none) :
    ∃ between, Graph.Reachable between.graph ∧ between.graph.kinds.Perm host.graph.kinds ∧
      ((∃ e, between.graph.catalogOf = .error e ∧
          (build .plain served config).runOn host = (.error (.construction e), between)) ∨
        ∃ s, between.graph.catalogOf = .ok s.edges ∧
          (build .plain served config).runOn host = (.ok s, between)) := by
  have hcheck : (Action.ofExcept ((precheck .plain served config host.graph).mapError
      .construction)).runOn host = (.ok (), host) := by
    have hplain : Source.plain.edgeTypes host.graph = host.graph.edgeTypes := rfl
    have hany : ¬ host.graph.edgeTypes.any Option.isNone = true :=
      mt Graph.any_isNone_edgeTypes.mp fun ⟨e, he, htype⟩ => htyped e he htype
    rw [precheck, hplain, if_neg hany, if_neg (not_not.mpr hdevice), hint]
    rfl
  obtain ⟨t, between, hoffsets, hreachable, hperm⟩ := exists_makeOffsets hg config.policy
  have hcatalog := Graph.runOn_catalog
    (Graph.edgeTypes_of_typed ((Graph.typed_congr hperm).mpr htyped))
  -- whether there is a catalog is decided by kinds of edges, which renumbering leaves
  refine ⟨between, hreachable, hperm, ?_⟩
  cases hedges : between.graph.catalogOf with
  | error e =>
    rw [hedges] at hcatalog
    refine .inl ⟨e, rfl, ?_⟩
    exact (runOn_bind_ok (runOn_get host)).trans ((runOn_bind_ok hcheck).trans
      ((runOn_bind_ok hoffsets).trans (runOn_bind_error hcatalog)))
  | ok c =>
    rw [hedges] at hcatalog
    exact .inr ⟨assembled .plain served config host.graph t c, rfl,
      (runOn_bind_ok (runOn_get host)).trans ((runOn_bind_ok hcheck).trans
        ((runOn_bind_ok hoffsets).trans (runOn_bind_ok hcatalog)))⟩

/-- The descriptors of a store tell of the edges of a graph what is so. -/
structure DescribesEdges (s : Store) (g : Graph) : Prop where
  nodup : (s.edges.descriptors.map (·.key.edge)).Nodup
  complete : ∀ edge, edge ∈ s.edges.descriptors.map (·.key.edge) ↔
    ∃ e ∈ g.edges.values, e.type = some edge
  truthful : ∀ d ∈ s.edges.descriptors, ∃ entry : EdgeEntry,
    d.key = .triple entry.triple ∧ d.size = some (entry.count, entry.count) ∧ g.Tells entry

lemma describesEdges_of_catalogOf (hs : s.edges.IsNamed) {g : Graph} (hg : g.Closed)
    (hcatalog : g.catalogOf = .ok s.edges) (hnames : s.edges.names = g.namedEdgeTypes) :
    s.DescribesEdges g := by
  have hdescriptors := map_edge_descriptors hs
  refine ⟨?_, fun edge => ?_, fun d hd => ?_⟩
  · rw [hdescriptors]
    exact s.edges.entries.pairwise_keys.imp ne_of_lt
  · rw [hdescriptors, hnames]
    exact Graph.mem_namedEdgeTypes_iff_values
  · obtain ⟨entry, hentry, rfl⟩ := List.mem_map.mp hd
    obtain ⟨⟨edge, _⟩, hmem, rfl⟩ := List.mem_map.mp hentry
    exact ⟨_, rfl, rfl, Graph.tells_of_catalogOf hg hcatalog
      (EdgeCatalog.entry_eq_ok_iff.mpr (SortedMap.mem_entries_iff.mp hmem))⟩

/-- What descriptors tell is a matter of the kinds of edges. -/
lemma describesEdges_congr {g g' : Graph} (h : g'.kinds.Perm g.kinds) (hs : s.DescribesEdges g') :
    s.DescribesEdges g := by
  refine ⟨hs.nodup, fun edge => ?_, fun d hd => ?_⟩
  · rw [hs.complete, ← Graph.mem_namedEdgeTypes_iff_values, Graph.mem_namedEdgeTypes_congr h,
      Graph.mem_namedEdgeTypes_iff_values]
  · obtain ⟨entry, hkey, hsize, htells⟩ := hs.truthful d hd
    exact ⟨entry, hkey, hsize, (Graph.tells_congr h).mp htells⟩

section Building

variable (hg : Graph.Reachable host.graph) (hdevice : config.device = served)
  (hint : config.vertexDType.isInteger)

include hg hdevice hint

lemma build_of_consistent (h : host.graph.TypeConsistent) :
    ∃ s between, (build .plain served config).runOn host = (.ok s, between) ∧
      s.DescribesEdges host.graph ∧ s.DescribesEdges between.graph := by
  obtain ⟨between, ⟨order, hloaded⟩, hperm, hrun⟩ := runOn_build_of_typed hg hdevice hint h.typed
  have hclosed := hloaded.isLoaded.closed
  have hexists := (Graph.exists_catalogOf_iff hclosed).mpr
    ((Graph.typeConsistent_congr hperm).mpr h).ends
  rcases hrun with ⟨e, hcatalog, -⟩ | ⟨s, hcatalog, hrun⟩
  · obtain ⟨c, hc⟩ := hexists
    simp [hcatalog] at hc
  · have hbuilt : Reachable .plain between.graph s := .built hrun
    have hdescribes := describesEdges_of_catalogOf hbuilt.isNamed hclosed hcatalog
      hbuilt.edges_names.1
    exact ⟨s, between, hrun, describesEdges_congr hperm hdescribes, hdescribes⟩

lemma build_of_inconsistent (h : ¬ host.graph.TypeConsistent) :
    ∃ e between, (build .plain served config).runOn host = (.error (.construction e), between) := by
  by_cases htyped : ∀ e ∈ host.graph.edges.values, e.type ≠ none
  · obtain ⟨between, ⟨order, hloaded⟩, hperm, hrun⟩ :=
      runOn_build_of_typed hg hdevice hint htyped
    rcases hrun with ⟨e, -, hrun⟩ | ⟨s, hcatalog, -⟩
    · exact ⟨e, between, hrun⟩
    · have hends := (Graph.exists_catalogOf_iff hloaded.isLoaded.closed).mp ⟨_, hcatalog⟩
      have hconsistent : between.graph.TypeConsistent :=
        ⟨(Graph.typed_congr hperm).mpr htyped, hends⟩
      exact absurd ((Graph.typeConsistent_congr hperm).mp hconsistent) h
  · -- an edge without a type is found before anything is renumbered
    push Not at htyped
    have hany : (Source.plain.edgeTypes host.graph).any Option.isNone :=
      Graph.any_isNone_edgeTypes.mpr htyped
    have hcheck : (Action.ofExcept ((precheck .plain served config host.graph).mapError
        .construction)).runOn host = (.error (.construction .untypedEdges), host) := by
      rw [precheck, if_pos hany]
      rfl
    exact ⟨_, host, (runOn_bind_ok (runOn_get host)).trans (runOn_bind_error hcheck)⟩

end Building

/-- With ids of an integer type on the device that is served, a store is built over a graph that
comes to be exactly if the graph is type-consistent; if not, the construction is refused. The
descriptors of the store tell of the edges what is so, before and after renumbering. -/
theorem build_of_reachable (hg : Graph.Reachable host.graph) (hdevice : config.device = served)
    (hint : config.vertexDType.isInteger) :
    ((∃ s host', (build .plain served config).runOn host = (.ok s, host')) ↔
        host.graph.TypeConsistent) ∧
      (∀ e host', (build .plain served config).runOn host = (.error e, host') →
        ∃ c, e = .construction c) ∧
      ∀ s host', (build .plain served config).runOn host = (.ok s, host') →
        s.DescribesEdges host.graph ∧ s.DescribesEdges host'.graph := by
  -- one of the two outcomes is known in each case, and decides all three statements
  by_cases h : host.graph.TypeConsistent
  · obtain ⟨s, between, hrun, hbefore, hafter⟩ := build_of_consistent hg hdevice hint h
    simp only [hrun, Prod.mk.injEq]
    refine ⟨iff_of_true ⟨s, between, rfl, rfl⟩ h, by simp, ?_⟩
    rintro s' host' ⟨hout, rfl⟩
    obtain rfl := Except.ok.inj hout
    exact ⟨hbefore, hafter⟩
  · obtain ⟨e, between, hrun⟩ := build_of_inconsistent hg hdevice hint h
    simp only [hrun, Prod.mk.injEq]
    refine ⟨iff_of_false (by simp) h, ?_, by simp⟩
    rintro e' host' ⟨hout, -⟩
    exact ⟨e, (Except.error.inj hout).symm⟩

theorem build_of_reachable_library :
    Graph.Reachable library ∧ ({} : Config).device = .cpu ∧ ({} : Config).vertexDType.isInteger ∧
      library.TypeConsistent ∧ libraryStore.DescribesEdges library ∧
      libraryStore.DescribesEdges libraryRun.2.graph := by
  have hdevice : ({} : Config).device = .cpu := rfl
  have hint : ({} : Config).vertexDType.isInteger := by decide
  have hreachable : Graph.Reachable (Host.graph { graph := library }) := Graph.reachable_library
  obtain ⟨hiff, -, hdescribes⟩ := build_of_reachable hreachable hdevice hint
  exact ⟨Graph.reachable_library, hdevice, hint, hiff.mp ⟨_, _, runOn_build_library⟩,
    hdescribes _ _ runOn_build_library⟩

end Store

end TypedGraph
