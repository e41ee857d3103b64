import TypedGraph.Proofs.EdgeIndices
import TypedGraph.Proofs.IntegerFeatures

/-!
# Previous ids

A store that renumbers its graph and keeps the previous ids tells them as a feature, so the graph
from before can be read back: the vertices of each type in ascending order of their ids, and the
ends of the edges of each type in the order of loading (`build_restores`). The same map of ids
serves the rows of vertices, the saved property and the ends of edges.
-/

namespace TypedGraph

open Traversal TypedGraph.Action

/-! ### Requests that are answered -/

namespace Graph

variable {g : Graph} {q : Query} {ids : List Int} {id : Int} {v : Vertex} {names : List String}

lemma mem_keys_of_mem_vertexIdsOf {type : String} (h : id ∈ g.vertexIdsOf type) :
    id ∈ g.vertices.keys := by
  obtain ⟨v, hv, -⟩ := mem_vertexIdsOf.mp h
  exact SortedMap.mem_keys_iff.mpr ⟨v, hv⟩

/-- A property that every one of some vertices has as an integer makes a column over their rows. -/
lemma columnOver_of_isIntegral {name : String} (hids : q.ids = some ids)
    (hints : g.IsIntegral ids names) (hname : name ∈ names) (hfixed : name ∉ fixedNames)
    (hne : g.vertexRows q ≠ []) :
    ∃ cells, g.columnOver (g.vertexRows q) name = .ok (.int64 cells) := by
  have hvalue : ∀ r ∈ g.vertexRows q,
      ((r.2.properties.get? name).bind Json.Value.cellInt?).isSome := by
    intro r hr
    have hcell := hints name hname hfixed r.1 (id_mem_of_mem_vertexRows hr hids)
    rwa [property?, get?_of_mem_vertexRows hr, Option.bind_some] at hcell
  have hproperty : name ∈ g.vertexPropertyNames := by
    obtain ⟨r, hr⟩ := List.exists_mem_of_ne_nil _ hne
    obtain ⟨n, hn⟩ := Option.isSome_iff_exists.mp (hvalue r hr)
    obtain ⟨w, hw, -⟩ := Option.bind_eq_some_iff.mp hn
    rw [vertexPropertyNames, Ascending.mem_ofList, List.mem_flatMap]
    exact ⟨r.2, List.mem_map_of_mem (SortedMap.mem_entries_iff.mpr (get?_of_mem_vertexRows hr)),
      SortedMap.mem_keys_iff.mpr ⟨w, hw⟩⟩
  have hvalues : Column.IsIntegral ((g.vertexRows q).map (·.2.properties.get? name)) :=
    ⟨by simpa using hne, List.forall_mem_map.mpr hvalue⟩
  rw [columnOver, if_neg hfixed, if_pos hproperty, Column.ofValues_of_isIntegral name hvalues]
  exact ⟨_, rfl⟩

end Graph

lemma TensorData.eq_int64 {data : TensorData} {xs : List Int} (hdtype : data.dtype = .int64)
    (h : data.elements = xs.map .int) : data = .int64 xs := by
  cases data with
  | int64 ys =>
    have hinjective : Function.Injective Element.int := fun _ _ heq => Element.int.inj heq
    rw [List.map_injective_iff.mpr hinjective h]
  | int32 ys => cases hdtype
  | float32 ys => cases hdtype
  | float64 ys => cases hdtype

namespace Store

variable {s : Store} {g : Graph} {d : TensorDescriptor} {host : Host} {ids : List Int}
variable {names : List String} {f : Frame} {t : Tensor}

/-- A request for properties of some vertices as integers, as a store answers it if they all are. -/
structure AsksForIntegers (s : Store) (g : Graph) (d : TensorDescriptor) (ids : List Int)
    (names : List String) : Prop where
  asks : AsksFor d ids names
  dtype : d.dtype.flat = some .int64
  /-- The columns are not those of all properties. -/
  name : d.name.flat ≠ some s.config.featureName
  ids_ne : ids ≠ []
  names_ne : names ≠ []
  property : ∀ name ∈ names, name ∉ Graph.fixedNames
  /-- Every vertex is there, and of the types by which the rows are fetched. -/
  vertices : ∀ id ∈ ids, ∃ v, g.vertices.get? id = some v ∧
    Graph.admits (s.requestedTypes d) (some v.type)
  integral : g.IsIntegral ids names

namespace AsksForIntegers

variable (h : s.AsksForIntegers g d ids names)

include h

lemma requested : s.requestedIds d = .ok ids := by
  rw [requestedIds, h.asks.index]
  rfl

lemma named : d.properties.flat = some names := by
  rw [h.asks.properties]
  rfl

lemma mem_rows {id : Int} (hid : id ∈ ids) : id ∈ (s.requestedRows g d ids).map (·.1) := by
  obtain ⟨v, hv, htype⟩ := h.vertices id hid
  exact List.mem_map_of_mem (Graph.mem_vertexRows_of_get? rfl hid hv htype)

lemma rows_ne : s.requestedRows g d ids ≠ [] := by
  obtain ⟨id, hid⟩ := List.exists_mem_of_ne_nil ids h.ids_ne
  intro hnil
  have hmem := h.mem_rows hid
  rw [hnil] at hmem
  exact List.not_mem_nil hmem

/-- Such a request is fetched, and its columns are of integers. -/
lemma exists_fetched : ∃ f, g.fetchVertices
      { ids := some ids, types := s.requestedTypes d, columns := s.requestedColumns d names }
        = .ok f ∧
    ∀ name ∈ names, ∃ cells, f.column name = .ok (.int64 cells) := by
  let q : Query := { ids := some ids, types := s.requestedTypes d, columns := some names }
  have hcolumns : ∀ name ∈ names, ∃ cells,
      g.columnOver (g.vertexRows q) name = .ok (.int64 cells) := fun name hname =>
    Graph.columnOver_of_isIntegral rfl h.integral hname (h.property name hname) h.rows_ne
  obtain ⟨f, hf⟩ := (Graph.exists_fetchVertices_some_iff (q := q) rfl).mpr fun name hname =>
    (hcolumns name hname).imp' Column.int64 fun _ hcells => hcells
  refine ⟨f, by rwa [requestedColumns, if_neg h.name], fun name hname => ?_⟩
  obtain ⟨cells, hcells⟩ := hcolumns name hname
  have hasked : ∀ asked, q.columns = some asked → name ∈ asked := fun _ heq =>
    Option.some.inj heq ▸ hname
  exact ⟨cells, (Graph.column_of_fetchVertices hf hasked).trans hcells⟩

/-- Such a request is answered. -/
lemma exists_gathers : ∃ f t, s.Gathers g d ids names f t := by
  obtain ⟨f, hf, hcolumns⟩ := h.exists_fetched
  have hrows := hasVertices_of_fetchVertices hf
  have hstored : f.HasVertices ((s.requestedRows g d ids).map (·.1)) := hrows
  obtain ⟨cs, hcs⟩ : ∃ cs, (names.mapM fun name => (fun c => (name, c)) <$> f.column name)
      = .ok cs := by
    refine mapM_ok_of_forall fun name hname => ?_
    obtain ⟨cells, hcells⟩ := hcolumns name hname
    exact ⟨_, by rw [hcells, map_ok]⟩
  have hselect : f.select names = .ok ⟨cs⟩ := by rw [Frame.select, hcs, map_ok]
  have hnumeric : Frame.IsNumeric ⟨cs⟩ := by
    intro e he
    obtain ⟨name, hname, hmade⟩ := (mem_iff_of_mapM_eq_ok hcs).mp he
    obtain ⟨cells, hcells⟩ := hcolumns name hname
    rw [hcells, map_ok] at hmade
    obtain rfl := Except.ok.inj hmade
    simp [Column.dtype?]
  obtain ⟨t, hcells, hgather⟩ :=
    gather_of_numeric hstored h.names_ne (fun _ => h.mem_rows) hselect hnumeric
  -- of integer columns alone the element type is that of integers, so nothing is rounded
  have hcommon : f.commonType names = .int64 := by
    refine if_neg fun hany => ?_
    obtain ⟨name, hname, hdtype⟩ := List.any_eq_true.mp hany
    obtain ⟨cells, hcells⟩ := hcolumns name hname
    simp [hcells, Except.toOption, Column.dtype?] at hdtype
  have hcast : t.castTo d.dtype.flat = .ok t := by
    rw [h.dtype, Tensor.castTo, Tensor.cast, if_pos (hcells.dtype.trans hcommon)]
  exact ⟨f, t.on s.device, h.asks.complete, h.requested, h.named, hf, hgather t hcast⟩

/-- What is told are the integers, vertex by vertex. -/
lemma tells (hf : s.Gathers g d ids names f t) {value : Int → String → Int}
    (hvalue : ∀ id ∈ ids, ∀ name ∈ names,
      (g.property? id name).bind Json.Value.cellInt? = some (value id name)) :
    t = ⟨.int64 (ids.flatMap fun id => names.map (value id)), [ids.length, names.length],
      s.device⟩ := by
  have hcommon : f.commonType names = .int64 := (hf.commonType_eq_iff h.ids_ne).mpr h.integral
  obtain ⟨-, fs, t₀, t₁, -, -, hcells, hcast, rfl⟩ :=
    gather_eq_ok hf.hasVertices h.names_ne hf.gathered
  have hdtype : t₀.dtype = .int64 := hcells.dtype.trans hcommon
  rw [h.dtype, Tensor.castTo, Tensor.cast, if_pos hdtype] at hcast
  obtain rfl := Except.ok.inj hcast
  have helements : t₀.data.elements = (ids.flatMap fun id => names.map (value id)).map .int := by
    apply List.map_injective_iff.mpr (Option.some_injective _)
    rw [hcells.elements, List.map_map, List.map_flatMap]
    refine List.flatMap_congr fun id hid => ?_
    rw [List.map_map]
    refine List.map_congr_left fun name hname => ?_
    rw [hf.promoted_cell hid hname (h.property name hname) (hvalue id hid name hname), hcommon]
    rfl
  rw [Tensor.on, hcells.shape, TensorData.eq_int64 hdtype helements]

end AsksForIntegers

lemma outcome_of_integers (hsource : FetchesRows s.source)
    (h : s.AsksForIntegers host.graph d ids names) (value : Int → String → Int)
    (hvalue : ∀ id ∈ ids, ∀ name ∈ names,
      (host.graph.property? id name).bind Json.Value.cellInt? = some (value id name)) :
    ((s.tensor d).runOn host).1 = .ok ⟨.int64 (ids.flatMap fun id => names.map (value id)),
      [ids.length, names.length], s.device⟩ := by
  obtain ⟨f, t, hgathers⟩ := h.exists_gathers
  rw [outcome_tensor hsource h.asks.complete, ← h.tells hgathers hvalue]
  exact (tensorOver_eq_ok_iff h.requested h.named).mpr ⟨f, hgathers.fetched, hgathers.gathered⟩

end Store

/-! ### Renumbered rows -/

namespace Graph

variable {g g' : Graph} {f : Int → Int} {previous : Option String} {order : List Int}
variable {type column : String} {id : Int}

namespace IsRelabeling

variable (h : IsRelabeling f previous g g')

include h

/-- A vertex under a new id is an old one. -/
lemma exists_vertex {v' : Vertex} (hv' : g'.vertices.get? id = some v') :
    ∃ old v, g.vertices.get? old = some v ∧ f old = id ∧ v'.type = v.type := by
  have hid := SortedMap.mem_keys_iff.mpr ⟨v', hv'⟩
  rw [h.keys, mem_intRange] at hid
  obtain ⟨old, hold, rfl⟩ := h.bijOn.surjOn hid
  obtain ⟨v, hv⟩ := SortedMap.mem_keys_iff.mp hold
  obtain ⟨w, hw, htype, -⟩ := h.vertices old v hv
  obtain rfl := Option.some.inj (hv'.symm.trans hw)
  exact ⟨old, v, hv, rfl, htype⟩

/-- The new ids of a type stand in the order of the old ones. -/
lemma vertexIdsOf_eq (type : String) : g'.vertexIdsOf type = (g.vertexIdsOf type).map f := by
  -- both lists ascend, so it is enough that they have the same elements
  have hascending : ((g.vertexIdsOf type).map f).Pairwise (· < ·) := by
    refine List.pairwise_map.mpr ((g.pairwise_vertexIdsOf type).imp_of_mem fun ha hb hlt => ?_)
    obtain ⟨v, hv, hvtype⟩ := mem_vertexIdsOf.mp ha
    obtain ⟨w, hw, hwtype⟩ := mem_vertexIdsOf.mp hb
    exact h.within _ _ _ _ hv hw (hvtype.trans hwtype.symm) hlt
  refine (g'.pairwise_vertexIdsOf type).eq_of_mem_iff hascending fun id => ?_
  rw [List.mem_map]
  constructor
  · intro hid
    obtain ⟨v', hv', rfl⟩ := mem_vertexIdsOf.mp hid
    obtain ⟨old, v, hv, hold, htype⟩ := h.exists_vertex hv'
    exact ⟨old, mem_vertexIdsOf.mpr ⟨v, hv, htype.symm⟩, hold⟩
  · rintro ⟨old, hold, rfl⟩
    obtain ⟨v, hv, rfl⟩ := mem_vertexIdsOf.mp hold
    obtain ⟨v', hv', htype, -⟩ := h.vertices old v hv
    exact mem_vertexIdsOf.mpr ⟨v', hv', htype⟩

/-- A vertex tells its old id under the property that keeps it. -/
lemma property?_previous (hprevious : previous = some column) (hid : id ∈ g.vertices.keys) :
    g'.property? (f id) column = some (.int id) := by
  obtain ⟨v, hv⟩ := SortedMap.mem_keys_iff.mp hid
  obtain ⟨v', hv', -, hproperties⟩ := h.vertices id v hv
  rw [property?, hv', Option.bind_some, hproperties, if_pos hprevious]

/-- The edges of a type keep their order of loading, between the new ids of their ends. -/
lemma map_loadedOf (hg : IsLoaded g order) (edgeColumn : Option String) (edge : String) :
    ((g'.renumberEdges edgeColumn).2.loadedOf (order.map g'.newEdgeId) edge).map
        (fun r => (r.2.source, r.2.destination))
      = (g.loadedOf order edge).map fun r => (f r.2.source, f r.2.destination) := by
  rw [loadedOf, loadedOf, edgesUnder, edgesUnder, List.filterMap_map, List.filter_filterMap,
    List.filter_filterMap, List.map_filterMap, List.map_filterMap]
  refine List.filterMap_congr fun id hid => ?_
  obtain ⟨e, he⟩ := SortedMap.mem_keys_iff.mp (hg.perm.mem_iff.mp hid)
  have hmoved : g'.edges.get? id = some (e.move f) := by
    rw [h.edges, SortedMap.get?_mapValues, he]
    rfl
  rw [Function.comp_apply, get?_renumberEdges edgeColumn hmoved, he]
  by_cases htype : e.type = some edge
  · simp [Option.filter, Edge.move, htype]
  · simp [Option.filter, Edge.move, htype]

end IsRelabeling

/-- Tables hold the vertices of a graph under new ids, in the order of the old ones within a type,
and keep the old ids under a property. -/
structure KeepsIds (f : Int → Int) (column : String) (g tables : Graph) : Prop where
  ids : ∀ type, tables.vertexIdsOf type = (g.vertexIdsOf type).map f
  saved : ∀ id ∈ g.vertices.keys, tables.property? (f id) column = some (.int id)

lemma IsRelabeling.keepsIds (h : IsRelabeling f (some column) g g') {tables : Graph}
    (htables : tables.vertices = g'.vertices) : KeepsIds f column g tables where
  ids type := by
    rw [← h.vertexIdsOf_eq, vertexIdsOf, htables]
    rfl
  saved id hid := by
    rw [property?, htables]
    exact h.property?_previous rfl hid

end Graph

/-! ### Graphs read back -/

namespace Store

variable {s : Store} {g : Graph} {order : List Int} {host host' : Host} {served : Device}
variable {config : Config} {type : String} {name : Option String} {column : String} {ids : List Int}

/-- A request for a property of some vertices of a type as integers, under some name. -/
def integersRequest (type : String) (name : Option String) (ids : List Int) (column : String) :
    TensorDescriptor where
  group := .value (some type)
  name := .value name
  index := .value (some ids)
  properties := .value (some [column])
  dtype := .value (some .int64)

/-- An id is listed under some vertex type of a graph. -/
def ListsVertex (s : Store) (g : Graph) (id : Int) : Prop :=
  ∃ type ∈ g.vertexTypes, ∃ ids, s.offsets.idsOf type = .ok ids ∧ id ∈ ids

/-- A graph can be read back from a store over other tables: `old` is what is read of the vertices
under a property, and it tells the ids of the graph. -/
structure Restores (s : Store) (tables g : Graph) (order : List Int) (column : String)
    (old : Int → Int) : Prop where
  /-- The vertices of each type are told by their ids in the graph, which ascend. -/
  vertices : ∀ type ∈ g.vertexTypes, ∀ name ≠ some s.config.featureName, ∀ host : Host,
    host.graph = tables → ∃ ids, s.offsets.idsOf type = .ok ids ∧
      ((s.tensor (integersRequest type name ids column)).runOn host).1
        = .ok ⟨.int64 (ids.map old), [ids.length, 1], s.device⟩ ∧ ids.map old = g.vertexIdsOf type
  /-- The edges of each type are told in the order of loading, between vertices whose ids in the
  graph are told. -/
  edges : ∀ (d : EdgeDescriptor) (host : Host), host.graph = tables → d.layout = .coo →
    d.key.edge ∈ g.namedEdgeTypes → ∃ index, (s.edgeIndex d).runOn host = (.ok index, host) ∧
      index.pairs.map (Prod.map old old)
        = (g.loadedOf order d.key.edge).map (fun e => (e.2.source, e.2.destination)) ∧
      ∀ p ∈ index.pairs, s.ListsVertex g p.1 ∧ s.ListsVertex g p.2

/-- What is read of a vertex under a property. -/
def readInt (tables : Graph) (column : String) (id : Int) : Int :=
  ((tables.property? id column).bind Json.Value.cellInt?).getD 0

/-- Under the policy that keeps previous ids, a store is built over the graph with new vertex ids,
and new edge ids. -/
lemma relabeling_of_build (hpolicy : config.policy = .auto) (hg : host.graph.Closed)
    (h : (build .plain served config).runOn host = (.ok s, host')) :
    ∃ f between edgeColumn, Graph.IsRelabeling f (some "_VERTEX__old") host.graph between ∧
      host'.graph = (between.renumberEdges edgeColumn).2 ∧
      s.oldVertexColumn = some "_VERTEX__old" := by
  obtain ⟨-, -, -, -, middle, hoffsets, hedges⟩ := build_eq_ok h
  obtain ⟨-, hcolumns⟩ := build_settings h
  rw [hpolicy] at hcolumns
  rw [hpolicy, makeOffsets_of_ne_keep (by decide)] at hoffsets
  obtain ⟨ranges, between, hvertices, -, hmiddle⟩ := renumber_plain_eq_ok hoffsets
  exact ⟨_, between, _, Graph.isRelabeling_of_eq_ok hg hvertices,
    (EdgeCatalog.build_plain hedges).1.trans hmiddle, (Prod.mk.inj hcolumns).1⟩

section Saved

variable {f : Int → Int} {tables : Graph} (h : Graph.KeepsIds f column g tables)
variable (hids : ∀ id ∈ g.vertices.keys, Json.isSigned64 id)

include h hids

/-- The saved property undoes the new ids. -/
lemma cellInt?_saved {id : Int} (hid : id ∈ g.vertices.keys) :
    (tables.property? (f id) column).bind Json.Value.cellInt? = some id := by
  rw [h.saved id hid, Option.bind_some]
  exact if_pos (hids id hid)

lemma readInt_saved {id : Int} (hid : id ∈ g.vertices.keys) :
    readInt tables column (f id) = id := by
  rw [readInt, cellInt?_saved h hids hid]
  rfl

lemma map_readInt (type : String) :
    (tables.vertexIdsOf type).map (readInt tables column) = g.vertexIdsOf type := by
  rw [h.ids, List.map_map]
  refine (List.map_congr_left fun id hid => ?_).trans (List.map_id _)
  exact readInt_saved h hids (Graph.mem_keys_of_mem_vertexIdsOf hid)

lemma cellInt?_of_mem {id : Int} (hid : id ∈ tables.vertexIdsOf type) :
    (tables.property? id column).bind Json.Value.cellInt? = some (readInt tables column id) := by
  rw [h.ids, List.mem_map] at hid
  obtain ⟨old, hold, rfl⟩ := hid
  have hkey := Graph.mem_keys_of_mem_vertexIdsOf hold
  rw [readInt_saved h hids hkey, cellInt?_saved h hids hkey]

/-- A request for the saved ids of a type is one for integers that are all there. -/
lemma asksForIntegers_saved (hcolumn : column ∉ Graph.fixedNames) (htype : type ∈ g.vertexTypes)
    (hname : name ≠ some s.config.featureName) :
    s.AsksForIntegers tables (integersRequest type name (tables.vertexIdsOf type) column)
      (tables.vertexIdsOf type) [column] where
  asks := ⟨rfl, rfl, rfl⟩
  dtype := rfl
  name := hname
  ids_ne := by
    obtain ⟨id, hid⟩ := Graph.mem_vertexTypes.mp htype
    rw [h.ids]
    exact List.ne_nil_of_mem (List.mem_map_of_mem hid)
  names_ne := by simp
  property := by simpa using hcolumn
  vertices id hid := by
    obtain ⟨v, hv, rfl⟩ := Graph.mem_vertexIdsOf.mp hid
    refine ⟨v, hv, ?_⟩
    -- with a single type there is no filter; with several, it is the type of the vertices
    rw [requestedTypes]
    split_ifs
    · rfl
    · simp [Graph.admits, integersRequest, Setting.flat, Setting.value?]
  integral := by
    intro asked hasked _ id hid
    obtain rfl := List.mem_singleton.mp hasked
    rw [cellInt?_of_mem h hids hid]
    rfl

/-- The saved ids of a type are told. -/
lemma outcome_saved (hsource : FetchesRows s.source) (hcolumn : column ∉ Graph.fixedNames)
    (htype : type ∈ g.vertexTypes) (hname : name ≠ some s.config.featureName)
    (hhost : host.graph = tables) :
    ((s.tensor (integersRequest type name (tables.vertexIdsOf type) column)).runOn host).1
      = .ok ⟨.int64 ((tables.vertexIdsOf type).map (readInt tables column)),
        [(tables.vertexIdsOf type).length, 1], s.device⟩ := by
  obtain rfl := hhost
  have hasks := asksForIntegers_saved h hids hcolumn htype hname
  have hvalue : ∀ id ∈ host.graph.vertexIdsOf type, ∀ asked ∈ [column],
      (host.graph.property? id asked).bind Json.Value.cellInt?
        = some (readInt host.graph asked id) := by
    intro id hid asked hasked
    obtain rfl := List.mem_singleton.mp hasked
    exact cellInt?_of_mem h hids hid
  rw [outcome_of_integers hsource hasks (fun id asked => readInt host.graph asked id) hvalue]
  simp [List.map_eq_flatMap]

end Saved

/-! ### Stores that keep previous ids -/

section Kept

variable {f : Int → Int} {between : Graph} {edgeColumn : Option String}

/-- An id of a vertex is listed under the type of the vertex. -/
lemma listsVertex_of_keepsIds {tables : Graph} (h : Graph.KeepsIds f column g tables)
    (hoffsets : s.offsets.Describes tables) {id : Int} (hid : id ∈ g.vertices.keys) :
    s.ListsVertex g (f id) := by
  obtain ⟨v, hv⟩ := SortedMap.mem_keys_iff.mp hid
  have hold : id ∈ g.vertexIdsOf v.type := Graph.mem_vertexIdsOf.mpr ⟨v, hv, rfl⟩
  have hnew : f id ∈ tables.vertexIdsOf v.type := by
    rw [h.ids]
    exact List.mem_map_of_mem hold
  exact ⟨v.type, Graph.mem_vertexTypes.mpr ⟨id, hold⟩, _,
    hoffsets.idsOf v.type (Graph.mem_vertexTypes.mpr ⟨f id, hnew⟩), hnew⟩

/-- The edge index of a type, read back, tells the edges of the type in the order of loading. -/
lemma edgeIndex_restores (hs : Reachable .plain (between.renumberEdges edgeColumn).2 s)
    (hdtype : s.config.vertexDType = .int64) (hg : Graph.IsLoaded g order)
    (hrelabeling : Graph.IsRelabeling f (some column) g between)
    (hids : ∀ id ∈ g.vertices.keys, Json.isSigned64 id) {d : EdgeDescriptor}
    (hhost : host.graph = (between.renumberEdges edgeColumn).2) (hlayout : d.layout = .coo)
    (hedge : d.key.edge ∈ g.namedEdgeTypes) :
    ∃ index, (s.edgeIndex d).runOn host = (.ok index, host) ∧
      index.pairs.map (Prod.map (readInt host.graph column) (readInt host.graph column))
        = (g.loadedOf order d.key.edge).map (fun e => (e.2.source, e.2.destination)) ∧
      ∀ p ∈ index.pairs, ∃ source destination, source ∈ g.vertices.keys ∧
        destination ∈ g.vertices.keys ∧ p = (f source, f destination) := by
  have hloaded := (hrelabeling.isLoaded hg).renumberEdges edgeColumn
  have hvertices : host.graph.vertices = between.vertices := by
    rw [hhost]
    rfl
  have hkeeps := hrelabeling.keepsIds hvertices
  have hedge' : d.key.edge ∈ (between.renumberEdges edgeColumn).2.namedEdgeTypes := by
    obtain ⟨id, e, he, htype⟩ := Graph.mem_namedEdgeTypes.mp hedge
    obtain ⟨e', he', htype'⟩ := Graph.keepsEdgeTypes_of_renumber hrelabeling edgeColumn id e he
    exact Graph.mem_namedEdgeTypes.mpr ⟨_, e', he', htype'.trans htype⟩
  -- an end of an edge is a vertex of the first graph, so its saved id can be read back
  have hends : ∀ r ∈ g.loadedOf order d.key.edge,
      r.2.source ∈ g.vertices.keys ∧ r.2.destination ∈ g.vertices.keys := by
    intro r hr
    rw [Graph.loadedOf_eq hg] at hr
    exact hg.closed r.1 r.2 (SortedMap.mem_entries_iff.mp (List.mem_of_mem_filter hr))
  have hpairs := hrelabeling.map_loadedOf hg edgeColumn d.key.edge
  refine ⟨_, runOn_edgeIndex hs hdtype hloaded hlayout hedge' hhost, ?_, ?_⟩
  · rw [EdgeIndex.pairs_ofRows, hpairs, List.map_map]
    refine List.map_congr_left fun r hr => ?_
    obtain ⟨hsource, hdestination⟩ := hends r hr
    rw [Function.comp_apply, Prod.map_apply, readInt_saved hkeeps hids hsource,
      readInt_saved hkeeps hids hdestination]
  · intro p hp
    rw [EdgeIndex.pairs_ofRows, hpairs] at hp
    obtain ⟨r, hr, rfl⟩ := List.mem_map.mp hp
    exact ⟨_, _, (hends r hr).1, (hends r hr).2, rfl⟩

end Kept

/-- A store that renumbers a graph and keeps the previous ids tells the graph: what is read of the
vertices under the saved property are their ids from before, type by type, and the edge indices
between these are the edges from before, in the order of loading. -/
theorem build_restores (hpolicy : config.policy = .auto) (hdtype : config.vertexDType = .int64)
    (hg : Graph.Loaded host.graph order)
    (hids : ∀ id ∈ host.graph.vertices.keys, Json.isSigned64 id)
    (h : (build .plain served config).runOn host = (.ok s, host')) :
    ∃ column old, s.oldVertexColumn = some column ∧
      s.Restores host'.graph host.graph order column old := by
  obtain ⟨f, between, edgeColumn, hrelabeling, htables, hcolumn⟩ :=
    relabeling_of_build hpolicy hg.isLoaded.closed h
  have hconfig : s.config = config := (build_eq_ok h).2.2.1
  have hs : Reachable .plain (between.renumberEdges edgeColumn).2 s := htables ▸ .built h
  have hvertices : host'.graph.vertices = between.vertices := by
    rw [htables]
    rfl
  have hkeeps := hrelabeling.keepsIds hvertices
  have hoffsets := (Reachable.built h).offsets_describe (by rw [hconfig, hpolicy]; decide)
  -- the ids are read from what the construction left, whatever is loaded before a request
  refine ⟨_, readInt host'.graph "_VERTEX__old", hcolumn, ?_, ?_⟩
  · intro type htype name hname now hnow
    obtain ⟨id, hid⟩ := Graph.mem_vertexTypes.mp htype
    have htype' : type ∈ host'.graph.vertexTypes :=
      Graph.mem_vertexTypes.mpr ⟨f id, by rw [hkeeps.ids]; exact List.mem_map_of_mem hid⟩
    refine ⟨_, hoffsets.idsOf type htype', ?_, map_readInt hkeeps hids type⟩
    exact outcome_saved hkeeps hids (.inl hs.source_eq) (by decide) htype hname hnow
  · intro d now hnow hlayout hedge
    have hwide : s.config.vertexDType = .int64 := by rw [hconfig, hdtype]
    obtain ⟨index, hrun, hpairs, hends⟩ := edgeIndex_restores hs hwide hg.isLoaded
      hrelabeling hids (hnow.trans htables) hlayout hedge
    rw [hnow] at hpairs
    refine ⟨index, hrun, hpairs, fun p hp => ?_⟩
    obtain ⟨source, destination, hsource, hdestination, rfl⟩ := hends p hp
    exact ⟨listsVertex_of_keepsIds hkeeps hoffsets hsource,
      listsVertex_of_keepsIds hkeeps hoffsets hdestination⟩

theorem build_restores_library :
    ∃ order, ({} : Config).policy = .auto ∧ ({} : Config).vertexDType = .int64 ∧
      Graph.Loaded library order ∧ (∀ id ∈ library.vertices.keys, Json.isSigned64 id) ∧
      (build .plain .cpu {}).runOn { graph := library } = (.ok libraryStore, libraryRun.2) ∧
      ∃ column old, libraryStore.oldVertexColumn = some column ∧
        libraryStore.Restores libraryRun.2.graph library order column old := by
  obtain ⟨order, hloaded⟩ := Graph.reachable_library
  have hhost : Graph.Loaded (Host.graph { graph := library }) order := hloaded
  have hids : ∀ id ∈ library.vertices.keys, Json.isSigned64 id := by decide +kernel
  exact ⟨order, rfl, rfl, hloaded, hids, runOn_build_library,
    build_restores rfl rfl hhost hids runOn_build_library⟩

end Store

end TypedGraph
