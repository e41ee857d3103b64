import TypedGraph.Proofs.EdgeEnds
import TypedGraph.Proofs.EdgeIndices

/-!
# Edge indices after later loads

A store shares its graph, which others may go on loading. Loads put their edges after those that are
there (`Graph.HasFreshId.loadAll`). A store that was built over one edge type goes on telling all
edges, so its edge index is what a fetch by the type gives exactly as long as every edge that was
loaded since is of the type (`edgeIndex_after_loads`).
-/

namespace TypedGraph

open Traversal TypedGraph.Action

/-! ### Loads -/

/-- Rows that are loaded at once. -/
inductive Load where
  | vertices (type : String) (rs : List VertexRecord)
  | edges (type : Option String) (rs : List EdgeRecord)

/-- The edges of a load, in their order. -/
def Load.added : Load → List Edge
  | .vertices _ _ => []
  | .edges type rs => rs.map fun r => ⟨r.source, r.destination, type, r.properties⟩

namespace Graph

variable {g g' now : Graph} {type : Option String} {r : EdgeRecord} {loads : List Load}

def load (g : Graph) : Load → Except GraphError Graph
  | .vertices type rs => g.addVertices type rs
  | .edges type rs => g.addEdges type rs

/-- The graph after some loads, each of which succeeds. -/
def loadAll (g : Graph) (loads : List Load) : Except GraphError Graph := loads.foldlM load g

/-- Every edge has an id below the next one. -/
def HasFreshId (g : Graph) : Prop := ∀ id ∈ g.edges.keys, id < g.nextEdgeId

/-- A graph in which some edges come after those of another one. -/
structure Extends (g g' : Graph) (added : List Edge) : Prop where
  fresh : g'.HasFreshId
  values : g'.edges.values = g.edges.values ++ added

lemma HasFreshId.extends (h : g.HasFreshId) : Extends g g [] := ⟨h, by simp⟩

lemma Extends.trans {g'' : Graph} {added added' : List Edge} (h : Extends g g' added)
    (h' : Extends g' g'' added') : Extends g g'' (added ++ added') :=
  ⟨h'.fresh, by rw [h'.values, h.values, List.append_assoc]⟩

lemma insertEntry_of_lt {α : Type} {k : Int} {a : α} {es : List (Int × α)}
    (h : ∀ e ∈ es, e.1 < k) : SortedMap.insertEntry k a es = es ++ [(k, a)] := by
  induction es with
  | nil => rfl
  | cons e es ih =>
    obtain ⟨he, hes⟩ := List.forall_mem_cons.mp h
    rw [SortedMap.insertEntry, if_neg (not_lt.mpr he.le), if_pos he, ih hes, List.cons_append]

/-- An edge under the next id comes last. -/
lemma HasFreshId.putEdge (h : g.HasFreshId) (type : Option String) (r : EdgeRecord) :
    Extends g (g.putEdge type r) [⟨r.source, r.destination, type, r.properties⟩] where
  fresh id hid := by
    show id < g.nextEdgeId + 1
    rcases SortedMap.mem_keys_insert.mp hid with rfl | hid
    · exact Int.lt_succ _
    · exact (h id hid).trans (Int.lt_succ _)
  values := by
    have hbelow : ∀ e ∈ g.edges.entries, e.1 < g.nextEdgeId := fun e he =>
      h e.1 (List.mem_map_of_mem he)
    show (SortedMap.insertEntry _ _ g.edges.entries).map (·.2) = _
    rw [insertEntry_of_lt hbelow, List.map_append]
    rfl

lemma HasFreshId.putEdges (h : g.HasFreshId) (type : Option String) (rs : List EdgeRecord) :
    Extends g (g.putEdges type rs) (Load.edges type rs).added := by
  induction rs generalizing g with
  | nil => exact h.extends
  | cons r rs ih =>
    have hfirst := h.putEdge type r
    exact hfirst.trans (ih hfirst.fresh)

lemma edges_addVertices {type : String} {rs : List VertexRecord}
    (h : g.addVertices type rs = .ok g') : g'.edges = g.edges ∧ g'.nextEdgeId = g.nextEdgeId := by
  rw [addVertices] at h
  split at h
  · simp at h
  · rename_i hfree
    obtain rfl := Except.ok.inj h
    clear h hfree
    induction rs generalizing g with
    | nil => exact ⟨rfl, rfl⟩
    | cons r rs ih => exact ih (g := g.putVertex type r)

/-- A load puts its edges after those that are there. -/
lemma HasFreshId.load (h : g.HasFreshId) {l : Load} (hl : g.load l = .ok g') :
    Extends g g' l.added := by
  cases l with
  | vertices type rs =>
    obtain ⟨hedges, hnext⟩ := edges_addVertices hl
    exact ⟨by rw [HasFreshId, hedges, hnext]; exact h, by rw [hedges]; simp [Load.added]⟩
  | edges type rs =>
    obtain ⟨-, rfl⟩ := addEdges_eq_ok hl
    exact h.putEdges type rs

/-- Loads put their edges after those that are there, load by load. -/
theorem HasFreshId.loadAll (h : g.HasFreshId) (hloads : g.loadAll loads = .ok now) :
    Extends g now (loads.flatMap (·.added)) := by
  induction loads generalizing g with
  | nil =>
    obtain rfl : g = now := by simpa [Graph.loadAll] using hloads
    exact h.extends
  | cons l loads ih =>
    rw [Graph.loadAll, List.foldlM_cons] at hloads
    obtain ⟨between, hl, hrest⟩ := bind_eq_ok_iff.mp hloads
    have hfirst := h.load hl
    rw [List.flatMap_cons]
    exact hfirst.trans (ih hfirst.fresh hrest)

lemma edgeRows_all (g : Graph) : g.edgeRows {} = g.edges.entries :=
  List.filter_eq_self.mpr fun _ _ => rfl

/-- The edges of a type are all edges exactly if every edge is of the type. -/
lemma length_edgesOf_eq_iff {edge : String} : (g.edgesOf edge).length = g.edges.entries.length ↔
    ∀ e ∈ g.edges.values, e.type = some edge := by
  rw [edgesOf, List.length_filter_eq_length_iff, SortedMap.values, List.forall_mem_map]
  simp

end Graph

/-! ### Edge indices -/

/-- An edge index that tells the edges of a type as a fetch by the type hands them out. -/
def EdgeIndex.TellsFetched (index : EdgeIndex) (g : Graph) (edge : String) : Prop :=
  ∃ f, g.fetchEdges
      { types := some [edge], columns := some [Graph.sourceColumn, Graph.destinationColumn] }
        = .ok f ∧
    f.column Graph.sourceColumn = .ok (.int64 index.source.data.toInts) ∧
    f.column Graph.destinationColumn = .ok (.int64 index.destination.data.toInts)

lemma EdgeIndex.tellsFetched_iff {index : EdgeIndex} {g : Graph} {edge : String} :
    index.TellsFetched g edge ↔
      index.source.data.toInts = (g.edgesOf edge).map (·.2.source) ∧
        index.destination.data.toInts = (g.edgesOf edge).map (·.2.destination) := by
  obtain ⟨f, hf⟩ := g.fetchEdges_ends (some [edge])
  obtain ⟨-, hsource, hdestination, -⟩ := Graph.fetchEdges_eq_ok hf
  rw [Graph.edgeRows_some] at hsource hdestination
  constructor
  · rintro ⟨f', hf', hsource', hdestination'⟩
    obtain rfl := Except.ok.inj (hf.symm.trans hf')
    rw [hsource] at hsource'
    rw [hdestination] at hdestination'
    simp only [Except.ok.injEq, Column.int64.injEq] at hsource' hdestination'
    exact ⟨hsource'.symm, hdestination'.symm⟩
  · rintro ⟨h, h'⟩
    exact ⟨f, hf, by rw [hsource, h], by rw [hdestination, h']⟩

namespace Store

variable {s : Store} {g now : Graph} {loads : List Load} {only : String} {entry : EdgeEntry}
variable {d : EdgeDescriptor} {host : Host} {rows : List (Int × Edge)} {index : EdgeIndex}

/-- A store with one edge type tells all edges that are there. -/
lemma runOn_edgeIndex_of_single (hs : Reachable .plain g s)
    (hsingle : s.edges.single? = some (only, entry)) (hlayout : d.layout = .coo)
    (hedge : d.key.edge = only) (host : Host) :
    (s.edgeIndex d).runOn host = (s.indexOf d host.graph.edges.entries, host) := by
  have htypes : s.edgeFilter d.key.edge = .ok none := by simp [edgeFilter, hsingle, hedge]
  rw [runOn_edgeIndex_of_filter hs hlayout htypes, Graph.edgeRows_all]

lemma indexOf_eq_ok_iff : s.indexOf d rows = .ok index ↔
    s.config.vertexDType.misfit? (ends rows) = none ∧
      index = .ofRows s.config.vertexDType s.device d rows := by
  rw [indexOf]
  cases s.config.vertexDType.misfit? (ends rows) <;> simp [eq_comm]

/-- The index of all edges tells those of a type exactly if every edge is of the type. -/
lemma tellsFetched_ofRows_iff {t : DType} {device : Device} {edge : String} :
    (EdgeIndex.ofRows t device d g.edges.entries).TellsFetched g edge ↔
      ∀ e ∈ g.edges.values, e.type = some edge := by
  have hints (xs : List Int) : ((Tensor.ofIntsIn t xs).on device).data.toInts = xs :=
    Tensor.toInts_ofIntsIn t xs
  rw [EdgeIndex.tellsFetched_iff, EdgeIndex.ofRows, hints, hints, ← Graph.length_edgesOf_eq_iff]
  constructor
  · rintro ⟨h, -⟩
    simpa using (congrArg List.length h).symm
  · intro hlength
    have hall : g.edgesOf edge = g.edges.entries := List.filter_sublist.eq_of_length hlength
    rw [hall]
    exact ⟨rfl, rfl⟩

/-- What a store that was built over one edge type tells of a graph that was loaded further. -/
theorem edgeIndex_after_loads (hs : Reachable .plain g s) (hg : g.Reachable)
    (hsingle : s.edges.single? = some (only, entry)) (hloads : g.loadAll loads = .ok now)
    (hlayout : d.layout = .coo) (hedge : d.key.edge = only) (hhost : host.graph = now) :
    now.edges.values = g.edges.values ++ loads.flatMap (·.added) ∧
      (s.edgeIndex d).runOn host = (s.indexOf d now.edges.entries, host) ∧
      ((∃ index, (s.edgeIndex d).runOn host = (.ok index, host) ∧ index.TellsFetched now only) ↔
        s.config.vertexDType.misfit? (ends now.edges.entries) = none ∧
          ∀ l ∈ loads, ∀ e ∈ l.added, e.type = some only) := by
  obtain ⟨order, hloaded⟩ := hg
  have hextends := Graph.HasFreshId.loadAll hloaded.isLoaded.fresh hloads
  have hrun := runOn_edgeIndex_of_single hs hsingle hlayout hedge host
  rw [hhost] at hrun
  -- at the construction the only type was that of every edge
  have hbefore : ∀ e ∈ g.edges.values, e.type = some only := by
    intro e he
    obtain ⟨r, hr, rfl⟩ := List.mem_map.mp he
    have hmem := Graph.type_mem_edgeTypes hr
    rw [hs.edges_names.2, ← hs.edges_names.1, (EdgeCatalog.names_of_single hsingle).2.1] at hmem
    simpa using hmem
  have hlater : (∀ e ∈ now.edges.values, e.type = some only) ↔
      ∀ l ∈ loads, ∀ e ∈ l.added, e.type = some only := by
    rw [hextends.values, List.forall_mem_append, List.forall_mem_flatMap]
    exact and_iff_right hbefore
  refine ⟨hextends.values, hrun, ?_⟩
  rw [hrun, ← hlater]
  simp only [Prod.mk.injEq, and_true, indexOf_eq_ok_iff]
  constructor
  · rintro ⟨_, ⟨hfits, rfl⟩, htells⟩
    exact ⟨hfits, tellsFetched_ofRows_iff.mp htells⟩
  · rintro ⟨hfits, hall⟩
    exact ⟨_, ⟨hfits, rfl⟩, tellsFetched_ofRows_iff.mpr hall⟩

/-- The site as it is loaded. -/
def loadSite : Except GraphError Graph := do
  let pages : List VertexRecord :=
    [{ id := 0, properties := .ofList [("tag", .int 1), ("words", .int 3)] },
      { id := 1, properties := .ofList [("tag", .string "draft"), ("words", .int 5)] }]
  let g ← ({} : Graph).addVertices "page" pages
  g.addEdges (some "links") [{ source := 0, destination := 1 }]

lemma reachable_site : site.Reachable := by
  have hload : loadSite = .ok site := by decide +kernel
  obtain ⟨_, hpages, hlinks⟩ := bind_eq_ok_iff.mp hload
  exact ⟨_, (Graph.Loaded.empty.addVertices hpages).addEdges hlinks⟩

lemma reachable_siteGraph : siteRun.2.graph.Reachable := by
  obtain ⟨order, hsite⟩ := reachable_site
  obtain ⟨f, hloaded, -⟩ := loaded_of_build (by exact hsite) runOn_build_site
  exact ⟨_, hloaded⟩

/-- A link back is told as long as it is of the type. -/
theorem edgeIndex_after_loads_site :
    let loads : List Load := [.edges (some "links") [{ source := 1, destination := 0 }]]
    let d : EdgeDescriptor := { key := .name "links" }
    Reachable .plain siteRun.2.graph siteStore ∧ siteRun.2.graph.Reachable ∧
      siteStore.edges.single? = some ("links", ⟨⟨"page", "links", "page"⟩, 1⟩) ∧
      d.layout = .coo ∧ d.key.edge = "links" ∧
      ∃ now, siteRun.2.graph.loadAll loads = .ok now ∧
        ∃ index, (siteStore.edgeIndex d).runOn { graph := now } = (.ok index, { graph := now }) ∧
          index.TellsFetched now "links" := by
  intro loads d
  have hloads : siteRun.2.graph.loadAll loads = _ := eq_ok_get (by decide +kernel)
  have hall : ∀ l ∈ loads, ∀ e ∈ l.added, e.type = some "links" := by decide
  refine ⟨reachable_siteStore, reachable_siteGraph, single?_siteStore, rfl, rfl, _, hloads, ?_⟩
  exact Iff.mpr (edgeIndex_after_loads reachable_siteStore reachable_siteGraph single?_siteStore
    hloads rfl rfl (by rfl)).2.2 ⟨by decide +kernel, hall⟩

/-- A citation back is told among the links, of which a fetch gives only the first. -/
theorem edgeIndex_tells_other_types :
    let d : EdgeDescriptor := { key := .name "links" }
    let query : Query :=
      { types := some ["links"], columns := some [Graph.sourceColumn, Graph.destinationColumn] }
    Reachable .plain siteRun.2.graph siteStore ∧ siteStore.edges.names = ["links"] ∧
      ∃ now, siteRun.2.graph.loadAll [.edges (some "cites") [{ source := 1, destination := 0 }]]
          = .ok now ∧
        (∃ f, now.fetchEdges query = .ok f ∧ f.column Graph.sourceColumn = .ok (.int64 [0]) ∧
          f.column Graph.destinationColumn = .ok (.int64 [1])) ∧
        ∃ index, (siteStore.edgeIndex d).runOn { graph := now } = (.ok index, { graph := now }) ∧
          index.source.data.toInts = [0, 1] ∧ index.destination.data.toInts = [1, 0] := by
  intro d query
  have hloads : siteRun.2.graph.loadAll
      [.edges (some "cites") [{ source := 1, destination := 0 }]] = _ :=
    eq_ok_get (by decide +kernel)
  refine ⟨reachable_siteStore, by decide +kernel, _, hloads, ⟨_, eq_ok_get ?_, ?_, ?_⟩, _,
    Prod.ext (eq_ok_get ?_) ?_, ?_, ?_⟩ <;> decide +kernel

end Store

end TypedGraph
