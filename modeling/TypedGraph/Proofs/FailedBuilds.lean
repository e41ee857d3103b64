import TypedGraph.Proofs.TypeConsistency

/-!
# Failed constructions

What a construction leaves of the graph that it is given. The configuration is checked before
anything is changed, but the ends of edges are looked at on the renumbered tables. So a construction
that is refused for edges of one type between vertices of several types leaves the graph with new
ids, unless it was to keep them (`build_error_leaves`); every other refusal leaves it as it was.
-/

namespace TypedGraph

open Traversal TypedGraph.Action

/-! ### Causes of failure -/

namespace Graph

variable {g : Graph} {edge : String} {side : EdgeEnd} {c : ConstructionError}

/-- The edges of a type have vertices of two types at an end. -/
structure MixesEnds (g : Graph) (edge : String) (side : EdgeEnd) (first second : String) :
    Prop where
  ne : first ≠ second
  first : ∃ e ∈ g.edges.values, e.type = some edge ∧ g.typeAt? (e.endAt side) = some first
  second : ∃ e ∈ g.edges.values, e.type = some edge ∧ g.typeAt? (e.endAt side) = some second

/-- Mixed ends are a matter of the kinds of edges. -/
lemma mixesEnds_congr {g' : Graph} {first second : String} (h : g'.kinds.Perm g.kinds) :
    g'.MixesEnds edge side first second ↔ g.MixesEnds edge side first second := by
  have hkinds (g : Graph) : g.MixesEnds edge side first second ↔ first ≠ second ∧
      (∃ k ∈ g.kinds, k.1 = some edge ∧ k.2 side = some first) ∧
      ∃ k ∈ g.kinds, k.1 = some edge ∧ k.2 side = some second := by
    simp only [kinds, List.mem_map, exists_exists_and_eq_and]
    exact ⟨fun h => ⟨h.ne, h.first, h.second⟩, fun h => ⟨h.1, h.2.1, h.2.2⟩⟩
  simp only [hkinds, h.mem_iff]

lemma exists_of_mem_typesOf {type : String} (h : type ∈ g.typesOf (g.endsOf edge side)) :
    ∃ e ∈ g.edges.values, e.type = some edge ∧ g.typeAt? (e.endAt side) = some type := by
  obtain ⟨id, hid, htype⟩ := mem_typesOf.mp h
  obtain ⟨e, he, hedge, rfl⟩ := mem_endsOf.mp hid
  exact ⟨e, he, hedge, htype⟩

/-- An end of the edges of a type has no one vertex type only if it has two. -/
lemma mixesEnds_of_endTypeOf (hg : g.Closed) (hedge : edge ∈ g.namedEdgeTypes)
    (h : g.endTypeOf edge side = .error c) :
    ∃ first second, c = .mixedEnds edge side first second ∧
      g.MixesEnds edge side first second := by
  have hascending : (g.typesOf (g.endsOf edge side)).Pairwise (· < ·) := Ascending.pairwise_ofList _
  rw [endTypeOf] at h
  cases htypes : g.typesOf (g.endsOf edge side) with
  | nil =>
    -- some edge is of the type, and there is a vertex at its end
    obtain ⟨e, he, htype⟩ := mem_namedEdgeTypes_iff_values.mp hedge
    obtain ⟨v, hv⟩ := SortedMap.mem_keys_iff.mp (endAt_mem_keys hg he side)
    have hmem : v.type ∈ g.typesOf (g.endsOf edge side) :=
      mem_typesOf.mpr ⟨_, mem_endsOf.mpr ⟨e, he, htype, rfl⟩, by rw [typeAt?, hv, Option.map_some]⟩
    rw [htypes] at hmem
    exact absurd hmem List.not_mem_nil
  | cons first types =>
    cases types with
    | nil => rw [htypes] at h; cases h
    | cons second types =>
      rw [htypes] at h hascending
      refine ⟨first, second, (Except.error.inj h).symm, ?_, ?_, ?_⟩
      · exact ne_of_lt ((List.pairwise_cons.mp hascending).1 second List.mem_cons_self)
      · exact exists_of_mem_typesOf (htypes ▸ List.mem_cons_self)
      · exact exists_of_mem_typesOf (htypes ▸ List.mem_cons_of_mem _ List.mem_cons_self)

/-- There is no catalog only because of mixed ends. -/
lemma mixesEnds_of_catalogOf (hg : g.Closed) (h : g.catalogOf = .error c) :
    ∃ edge side first second, c = .mixedEnds edge side first second ∧
      g.MixesEnds edge side first second := by
  obtain ⟨before, edge, after, hsplit, -, hentry⟩ := split_of_mapM_eq_error (map_eq_error_iff.mp h)
  have hedge : edge ∈ g.namedEdgeTypes := by simp [hsplit]
  rcases bind_eq_error_iff.mp hentry with hsource | ⟨source, -, hrest⟩
  · exact ⟨edge, .source, mixesEnds_of_endTypeOf hg hedge hsource⟩
  rcases bind_eq_error_iff.mp hrest with hdestination | ⟨destination, -, hentry⟩
  · exact ⟨edge, .destination, mixesEnds_of_endTypeOf hg hedge hdestination⟩
  · cases hentry

/-! ### Renumbered graphs -/

/-- The graph with new vertex ids. -/
def withNewVertexIds (g : Graph) (previous : Option String) : Graph :=
  { g with
    vertices := g.vertexTable previous
    edges := g.edges.mapValues fun _ e => e.move g.newVertexId }

/-- The graph with new vertex ids, and then new edge ids. -/
def renumbered (g : Graph) (old : Option String × Option String) : Graph :=
  ((g.withNewVertexIds old.1).renumberEdges old.2).2

lemma isRelabeling_withNewVertexIds (hg : g.Closed) (previous : Option String) :
    IsRelabeling g.newVertexId previous g (g.withNewVertexIds previous) :=
  isRelabeling_of_closed hg previous

lemma kinds_renumbered (hg : g.Closed) (old : Option String × Option String) :
    (g.renumbered old).kinds.Perm g.kinds := by
  rw [← (isRelabeling_withNewVertexIds hg old.1).kinds_eq]
  exact (g.withNewVertexIds old.1).kinds_renumberEdges old.2

lemma Reachable.renumbered (hg : g.Reachable) (old : Option String × Option String) :
    (g.renumbered old).Reachable := by
  obtain ⟨order, hloaded⟩ := hg
  have hvertices := renumberVertices_of_closed hloaded.isLoaded.closed old.1
  exact ⟨_, (hloaded.renumberVertices hvertices).renumberEdges old.2⟩

end Graph

namespace Store

variable {served : Device} {config : Config} {host host' between : Host} {s : Store}
variable {policy : IdPolicy} {t : Offsets} {g : Graph} {e : StoreError}

/-- The graph that a construction leaves once the configuration is accepted. -/
def leftBy (policy : IdPolicy) (g : Graph) : Graph :=
  if policy = .keep then g else g.renumbered (oldColumns .plain policy)

/-! ### What constructions leave -/

lemma precheck_eq_ok_iff : precheck .plain served config g = .ok () ↔
    (∀ e ∈ g.edges.values, e.type ≠ none) ∧ config.device = served ∧
      config.vertexDType.isInteger := by
  have htyped : (Source.plain.edgeTypes g).any Option.isNone = true ↔
      ¬ ∀ e ∈ g.edges.values, e.type ≠ none := by
    push Not
    exact Graph.any_isNone_edgeTypes
  rw [precheck]
  split_ifs with hnone hdevice hint
  · simp [htyped.mp hnone]
  · simp [hdevice]
  · simp [Bool.eq_false_of_not_eq_true' hint]
  · simp only [htyped, not_not, Bool.not_eq_true', Bool.not_eq_false] at hnone hdevice hint
    exact iff_of_true rfl ⟨hnone, hdevice, hint⟩

lemma graph_of_makeOffsets (hg : host.graph.Closed)
    (h : (makeOffsets .plain policy).runOn host = (.ok t, between)) :
    between.graph = leftBy policy host.graph := by
  rw [leftBy]
  split_ifs with hpolicy
  · obtain rfl := hpolicy
    have hkept := makeOffsets_keep_keepsTables .plain host
    rwa [h] at hkept
  · rw [makeOffsets_of_ne_keep hpolicy] at h
    obtain ⟨ranges, g', hvertices, -, hgraph⟩ := renumber_plain_eq_ok h
    rw [Graph.renumberVertices_of_closed hg] at hvertices
    obtain ⟨-, rfl⟩ := Prod.mk.inj (Except.ok.inj hvertices)
    exact hgraph

/-- A construction whose configuration is refused leaves the host as it is. -/
lemma runOn_build_of_precheck {c : ConstructionError}
    (h : precheck .plain served config host.graph = .error c) :
    (build .plain served config).runOn host = (.error (.construction c), host) := by
  have hcheck : (Action.ofExcept ((precheck .plain served config host.graph).mapError
      StoreError.construction)).runOn host = (.error (.construction c), host) := by
    rw [h]
    rfl
  exact (runOn_bind_ok (runOn_get host)).trans (runOn_bind_error hcheck)

/-- A construction whose configuration is accepted leaves the tables that the offset table was made
for, whether it succeeds. -/
lemma graph_of_build_of_precheck (hg : Graph.Reachable host.graph)
    (h : precheck .plain served config host.graph = .ok ()) :
    ((build .plain served config).runOn host).2.graph = leftBy config.policy host.graph := by
  obtain ⟨t, between, hoffsets, -, -⟩ := exists_makeOffsets hg config.policy
  have hcheck : (Action.ofExcept ((precheck .plain served config host.graph).mapError
      StoreError.construction)).runOn host = (.ok (), host) := by
    rw [h]
    rfl
  have hcatalog : (EdgeCatalog.build .plain).KeepsTables :=
    .bind (fun _ => rfl) fun _ => EdgeCatalog.addTypes_keepsTables _ _
  obtain ⟨order, hloaded⟩ := hg
  rw [← graph_of_makeOffsets hloaded.isLoaded.closed hoffsets, build,
    runOn_bind_ok (runOn_get host), runOn_bind_ok hcheck, runOn_bind_ok hoffsets]
  exact (hcatalog.bind fun _ => .pure _) between

/-- What a construction leaves, whether it succeeds or fails. -/
theorem graph_of_build (hg : Graph.Reachable host.graph) :
    ((build .plain served config).runOn host).2.graph =
      match precheck .plain served config host.graph with
      | .error _ => host.graph
      | .ok () => leftBy config.policy host.graph := by
  cases hcheck : precheck .plain served config host.graph with
  | error c => rw [runOn_build_of_precheck hcheck]
  | ok _ => exact graph_of_build_of_precheck hg hcheck

/-- A construction that fails leaves the graph as it was if its configuration is refused. Otherwise
the edges of some type have vertices of two types at an end, and the graph is left as it was if ids
are kept, and else with new vertex ids and then new edge ids, previous ids among the properties
under the policy that saves them. -/
theorem build_error_leaves (hg : Graph.Reachable host.graph)
    (h : (build .plain served config).runOn host = (.error e, host')) :
    (∃ c, precheck .plain served config host.graph = .error c ∧ e = .construction c ∧
        host'.graph = host.graph) ∨
      ∃ edge side first second, precheck .plain served config host.graph = .ok () ∧
        e = .construction (.mixedEnds edge side first second) ∧
        host.graph.MixesEnds edge side first second ∧
        (config.policy = .keep → host'.graph = host.graph) ∧
        (config.policy ≠ .keep → ∃ f between,
          Graph.IsRelabeling f (oldColumns .plain config.policy).1 host.graph between ∧
            host'.graph = (between.renumberEdges (oldColumns .plain config.policy).2).2) := by
  cases hcheck : precheck .plain served config host.graph with
  | error c =>
    rw [runOn_build_of_precheck hcheck] at h
    obtain ⟨he, rfl⟩ := Prod.mk.inj h
    exact .inl ⟨c, rfl, (Except.error.inj he).symm, rfl⟩
  | ok _ =>
    have hleft := graph_of_build_of_precheck hg hcheck
    rw [h] at hleft
    obtain ⟨htyped, hdevice, hint⟩ := precheck_eq_ok_iff.mp hcheck
    -- the tables are ready, so that only the catalog of the edge types can fail
    obtain ⟨between, ⟨order, hloaded⟩, hperm, hrun⟩ :=
      runOn_build_of_typed hg hdevice hint htyped
    rw [h] at hrun
    rcases hrun with ⟨c, hcatalog, hrun⟩ | ⟨s, -, hrun⟩
    · obtain ⟨he, rfl⟩ := Prod.mk.inj hrun
      obtain ⟨edge, side, first, second, rfl, hmixes⟩ :=
        Graph.mixesEnds_of_catalogOf hloaded.isLoaded.closed hcatalog
      refine .inr ⟨edge, side, first, second, rfl, Except.error.inj he,
        (Graph.mixesEnds_congr hperm).mp hmixes, fun hkeep => ?_, fun hpolicy => ?_⟩
      · rw [hleft, leftBy, if_pos hkeep]
      · obtain ⟨order, hbefore⟩ := hg
        refine ⟨_, _, Graph.isRelabeling_withNewVertexIds hbefore.isLoaded.closed _, ?_⟩
        rw [hleft, leftBy, if_neg hpolicy, Graph.renumbered]
    · simp at hrun

/-! ### A library with mixed citations -/

/-- The library with an author who cites a paper. -/
def mixedLibrary : Graph := library.putEdge (some "cites") { source := 0, destination := 3 }

lemma reachable_mixedLibrary : mixedLibrary.Reachable := by
  obtain ⟨order, hloaded⟩ := Graph.reachable_library
  have hload : library.addEdges (some "cites") [{ source := 0, destination := 3 }]
      = .ok mixedLibrary := by decide +kernel
  exact ⟨_, hloaded.addEdges hload⟩

/-- The outcome of building a store over the library with mixed citations. -/
def mixedRun : Except StoreError Store × Host :=
  (build .plain .cpu { policy := .renumber }).runOn { graph := mixedLibrary }

lemma exists_error_mixedRun : ∃ e, mixedRun = (.error e, mixedRun.2) := by
  have hnone : mixedRun.1.toOption.isNone := by decide +kernel
  cases houtcome : mixedRun.1 with
  | error e => exact ⟨e, Prod.ext houtcome rfl⟩
  | ok s =>
    rw [houtcome] at hnone
    cases hnone

/-- Of the citations, some leave authors and some leave papers, which is found out too late. -/
theorem build_error_leaves_mixedLibrary : mixedLibrary.Reachable ∧ ∃ e,
    (build .plain .cpu { policy := .renumber }).runOn { graph := mixedLibrary }
      = (.error e, mixedRun.2) ∧
    ∃ f between, Graph.IsRelabeling f none mixedLibrary between ∧
      mixedRun.2.graph = (between.renumberEdges none).2 := by
  obtain ⟨e, hrun⟩ := exists_error_mixedRun
  have hcheck : precheck .plain .cpu { policy := .renumber } mixedLibrary = .ok () := rfl
  refine ⟨reachable_mixedLibrary, e, hrun, ?_⟩
  rcases build_error_leaves reachable_mixedLibrary hrun with
    ⟨c, hrefused, -⟩ | ⟨edge, side, first, second, -, -, -, -, hleft⟩
  · cases hcheck.symm.trans hrefused
  · exact hleft (by decide)

/-- A construction that fails may leave another graph: here an author under the id of a paper. -/
theorem failed_build_changes_graph : mixedLibrary.Reachable ∧ ∃ e,
    (build .plain .cpu { policy := .renumber }).runOn { graph := mixedLibrary }
      = (.error e, mixedRun.2) ∧
    mixedRun.2.graph ≠ mixedLibrary ∧ mixedLibrary.typeAt? 1 = some "paper" ∧
      mixedRun.2.graph.typeAt? 1 = some "author" := by
  obtain ⟨e, hrun⟩ := exists_error_mixedRun
  exact ⟨reachable_mixedLibrary, e, hrun, by decide +kernel, by decide +kernel, by decide +kernel⟩

end Store

end TypedGraph
