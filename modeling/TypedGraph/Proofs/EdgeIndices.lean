import TypedGraph.Proofs.EdgeRefinement
import TypedGraph.Proofs.Loading

/-!
# Edge indices of loaded graphs

An edge index over a plain source tells the edges of the type that was asked for, each once and in
the order in which they were loaded, whether the store has one edge type or several
(`edgeIndex_tells`). The indices of all edge types together tell every edge of the graph once.
-/

namespace TypedGraph

open Traversal TypedGraph.Action

/-! ### Edges in the order of loading -/

namespace Graph

variable {g : Graph} {order : List Int}

/-- The edges under some ids, in the order of these. -/
def edgesUnder (g : Graph) (order : List Int) : List (Int × Edge) :=
  order.filterMap fun id => (g.edges.get? id).map fun e => (id, e)

/-- The edges of a type under some ids, in the order of these. -/
def loadedOf (g : Graph) (order : List Int) (edge : String) : List (Int × Edge) :=
  (g.edgesUnder order).filter fun e => e.2.type = some edge

lemma edgesUnder_keys (g : Graph) : g.edgesUnder g.edges.keys = g.edges.entries := by
  rw [edgesUnder, SortedMap.keys, List.filterMap_map]
  refine (List.filterMap_congr fun e he => ?_).trans List.filterMap_some
  show (g.edges.get? e.1).map (fun a => (e.1, a)) = some e
  rw [SortedMap.mem_entries_iff.mp he]
  rfl

lemma edgesUnder_perm (h : IsLoaded g order) : (g.edgesUnder order).Perm g.edges.entries := by
  rw [← edgesUnder_keys]
  exact h.perm.filterMap _

/-- Ids ascend along the edges of one type. -/
lemma pairwise_loadedOf (h : IsLoaded g order) (edge : String) :
    (g.loadedOf order edge).Pairwise (·.1 < ·.1) := by
  have hascending : (g.edgesUnder order).Pairwise fun a b => a.2.type = b.2.type → a.1 < b.1 := by
    refine List.pairwise_filterMap.mpr (h.ascending.imp fun hlt a ha b hb htype => ?_)
    obtain ⟨d, hd, rfl⟩ := Option.map_eq_some_iff.mp ha
    obtain ⟨e, he, rfl⟩ := Option.map_eq_some_iff.mp hb
    exact hlt d e hd he htype
  refine (hascending.filter _).imp_of_mem fun ha hb hlt => hlt ?_
  rw [key_of_mem_filter ha, key_of_mem_filter hb]

/-- The order of loading is the order of ids, as far as one edge type goes. -/
lemma loadedOf_eq (h : IsLoaded g order) (edge : String) :
    g.loadedOf order edge = g.edgesOf edge :=
  ((edgesUnder_perm h).filter _).eq_of_pairwise (fun _ _ _ _ hlt hgt => absurd hgt hlt.asymm)
    (pairwise_loadedOf h edge) (g.edges.ascending.filter _)

/-- Only the fixed columns of edges are fetched where two of them are asked for. -/
lemma fetchEdges_ends (g : Graph) (types : Option (List String)) :
    ∃ f, g.fetchEdges { types, columns := some [sourceColumn, destinationColumn] } = .ok f :=
  ⟨_, rfl⟩

end Graph

/-! ### Answers -/

/-- The pairs of ends that an edge index tells. -/
def EdgeIndex.pairs (index : EdgeIndex) : List (Int × Int) :=
  index.source.data.toInts.zip index.destination.data.toInts

lemma EdgeIndex.pairs_ofRows (t : DType) (device : Device) (d : EdgeDescriptor)
    (rows : List (Int × Edge)) : (EdgeIndex.ofRows t device d rows).pairs
      = rows.map fun e => (e.2.source, e.2.destination) := by
  have hints (xs : List Int) : ((Tensor.ofIntsIn t xs).on device).data.toInts = xs :=
    Tensor.toInts_ofIntsIn t xs
  rw [pairs, ofRows, hints, hints, List.zip_map']

namespace Store

variable {s : Store} {g : Graph} {order : List Int} {host : Host} {d : EdgeDescriptor}
variable {edge : String}

lemma edgeFilter_of_mem (h : edge ∈ s.edges.names) : ∃ types, s.edgeFilter edge = .ok types := by
  rw [edgeFilter]
  cases hsingle : s.edges.single? with
  | some e =>
    rw [(EdgeCatalog.names_of_single hsingle).2.1, List.mem_singleton] at h
    exact ⟨none, if_pos h.symm⟩
  | none =>
    obtain ⟨e, he⟩ := EdgeCatalog.mem_names_iff.mp h
    exact ⟨some [edge], by rw [he]; rfl⟩

/-- A query for edges is answered with those that its filter lets through. -/
lemma runOn_edgeIndex_of_filter (hs : Reachable .plain g s) (hlayout : d.layout = .coo)
    {types : Option (List String)} (htypes : s.edgeFilter d.key.edge = .ok types) (host : Host) :
    (s.edgeIndex d).runOn host = (s.indexOf d (host.graph.edgeRows { types }), host) := by
  obtain ⟨f, hf⟩ := host.graph.fetchEdges_ends types
  obtain ⟨-, hsource, hdestination, -⟩ := Graph.fetchEdges_eq_ok hf
  have hfilter : (Action.ofExcept (s.edgeFilter d.key.edge)).runOn host = (.ok types, host) := by
    rw [runOn_ofExcept, htypes]
  have hfetch : (s.fetchIndex d).runOn host = (.ok f, host) := by
    rw [fetchIndex, if_neg (not_not.mpr hlayout), hs.source_eq]
    refine (runOn_bind_ok hfilter).trans ((runOn_ofFetch_ready Graph.fetchEdges _ host).trans ?_)
    exact congrArg (fun x => (Except.mapError StoreError.graph x, host)) hf
  have hread := runOn_readIndex (by rw [hs.source_eq]; rfl) hs.isInteger d
    ⟨hsource, hdestination⟩ host
  rw [edgeIndex_eq, runOn_bind_ok hfetch, hread]
  rfl

/-- A query for the edges of a type is answered with these, in the order of loading. -/
lemma runOn_edgeIndex (hs : Reachable .plain g s) (hdtype : s.config.vertexDType = .int64)
    (hg : Graph.IsLoaded g order) (hlayout : d.layout = .coo)
    (hedge : d.key.edge ∈ g.namedEdgeTypes) (hhost : host.graph = g) :
    (s.edgeIndex d).runOn host
      = (.ok (.ofRows .int64 s.device d (g.loadedOf order d.key.edge)), host) := by
  rw [← hs.edges_names.1] at hedge
  obtain ⟨types, htypes⟩ := edgeFilter_of_mem hedge
  rw [runOn_edgeIndex_of_filter hs hlayout htypes, hhost, edgeRows_of_edgeFilter hs htypes, indexOf,
    hdtype, Graph.loadedOf_eq hg]
  rfl

/-- The descriptors of a store name its edge types, one each. -/
lemma map_edge_descriptors (hs : s.edges.IsNamed) :
    s.edges.descriptors.map (·.key.edge) = s.edges.names := by
  rw [EdgeCatalog.descriptors, EdgeCatalog.names, SortedMap.values, SortedMap.keys, List.map_map,
    List.map_map]
  refine List.map_congr_left fun e he => ?_
  exact hs e.1 e.2 (EdgeCatalog.entry_eq_ok_iff.mpr (SortedMap.mem_entries_iff.mp he))

/-- Building a store keeps the order in which edges were loaded, under the ids that they then
have. -/
lemma loaded_of_build {served : Device} {config : Config} {host' : Host}
    (hg : Graph.Loaded host.graph order)
    (h : (build .plain served config).runOn host = (.ok s, host')) :
    ∃ f, Graph.Loaded host'.graph (order.map f) ∧
      Graph.KeepsEdgeTypes f host.graph host'.graph := by
  obtain ⟨-, -, -, -, between, hoffsets, hedges⟩ := build_eq_ok h
  have hkept := (EdgeCatalog.build_plain hedges).1
  -- only a policy that renumbers gives edges new ids
  by_cases hpolicy : config.policy = .keep
  · rw [hpolicy] at hoffsets
    have hsame := makeOffsets_keep_keepsTables .plain host
    rw [hoffsets] at hsame
    refine ⟨id, ?_, fun id e he => ⟨e, ?_, rfl⟩⟩
    · rw [hkept, hsame, List.map_id]
      exact hg
    · rw [hkept, hsame]
      exact he
  · rw [makeOffsets_of_ne_keep hpolicy] at hoffsets
    obtain ⟨ranges, moved, hmoved, -, hbetween⟩ := renumber_plain_eq_ok hoffsets
    have hrelabeling := Graph.isRelabeling_of_eq_ok hg.isLoaded.closed hmoved
    rw [hkept, hbetween]
    exact ⟨_, (hg.renumberVertices hmoved).renumberEdges _,
      Graph.keepsEdgeTypes_of_renumber hrelabeling _⟩

end Store

end TypedGraph
