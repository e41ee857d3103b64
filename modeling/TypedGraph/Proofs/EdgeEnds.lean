import TypedGraph.Proofs.OffsetTables
import TypedGraph.Proofs.Refinement

/-!
# Types at the ends of edges

The catalog of a store looks up the ends of the edges once, when the store is built. On the tables
that the construction left, the vertices at the ends of an edge have the types of its triple
(`Reachable.edges_describe`), and under a policy that renumbers the offset table finds them under
these types (`Reachable.offsets_describe`). What is said of a store over a plain source is said of
one over parts as well (`Reachable.onPlain`).
-/

namespace TypedGraph

open Traversal TypedGraph.Action

/-- The vertices at the ends of the edges of a type have the types of its triple. -/
structure EdgeTriple.Describes (t : EdgeTriple) (g : Graph) : Prop where
  source : ∀ e ∈ g.edges.values, e.type = some t.edge →
    ∀ v, g.vertices.get? e.source = some v → v.type = t.source
  destination : ∀ e ∈ g.edges.values, e.type = some t.edge →
    ∀ v, g.vertices.get? e.destination = some v → v.type = t.destination

/-! ### Types at the ends of edges -/

/-- The id of the vertex at an end of an edge. -/
def Edge.endAt (e : Edge) : EdgeEnd → Int
  | .source => e.source
  | .destination => e.destination

namespace Graph

variable {g : Graph} {edge type : String} {ids : List Int}

/-- The type of a vertex. -/
def typeAt? (g : Graph) (id : Int) : Option String := (g.vertices.get? id).map (·.type)

/-- The types of some vertices, ascending. -/
def typesOf (g : Graph) (ids : List Int) : List String :=
  Ascending.ofList ((g.vertexRows { ids := some ids }).map (·.2.type))

lemma mem_typesOf : type ∈ g.typesOf ids ↔ ∃ id ∈ ids, g.typeAt? id = some type := by
  rw [typesOf, Ascending.mem_ofList, List.mem_map]
  constructor
  · rintro ⟨r, hr, rfl⟩
    refine ⟨r.1, id_mem_of_mem_vertexRows hr rfl, ?_⟩
    rw [typeAt?, get?_of_mem_vertexRows hr]
    rfl
  · rintro ⟨id, hid, htype⟩
    obtain ⟨v, hv, rfl⟩ := Option.map_eq_some_iff.mp htype
    exact ⟨(id, v), mem_vertexRows_of_get? rfl hid hv rfl, rfl⟩

/-- How often an id is given does not matter. -/
lemma typesOf_ofList (g : Graph) (ids : List Int) :
    g.typesOf (Ascending.ofList ids) = g.typesOf ids := by
  have hrows : g.vertexRows { ids := some (Ascending.ofList ids) }
      = g.vertexRows { ids := some ids } := by
    rw [vertexRows, vertexRows, rowsWithIds, rowsWithIds]
    rw [Ascending.ofList_congr fun id => Ascending.mem_ofList]
  rw [typesOf, typesOf, hrows]

/-- The ids at an end of the edges of a type. -/
def endsOf (g : Graph) (edge : String) (side : EdgeEnd) : List Int :=
  (g.edgesOf edge).map (·.2.endAt side)

lemma mem_endsOf {side : EdgeEnd} {id : Int} :
    id ∈ g.endsOf edge side ↔ ∃ e ∈ g.edges.values, e.type = some edge ∧ e.endAt side = id := by
  simp only [endsOf, edgesOf, SortedMap.values, List.mem_map, List.mem_filter, decide_eq_true_eq,
    exists_exists_and_eq_and, and_assoc]

/-- The one vertex type at an end of the edges of a type. -/
def endTypeOf (g : Graph) (edge : String) (side : EdgeEnd) : Except ConstructionError String :=
  EdgeCatalog.oneType edge side (g.typesOf (g.endsOf edge side))

/-- The entry of an edge type. -/
def entryOf (g : Graph) (edge : String) : Except ConstructionError EdgeEntry := do
  let source ← g.endTypeOf edge .source
  let destination ← g.endTypeOf edge .destination
  pure ⟨⟨source, edge, destination⟩, (g.edgesOf edge).length⟩

lemma triple_edge_of_entryOf {entry : EdgeEntry} (h : g.entryOf edge = .ok entry) :
    entry.triple.edge = edge := by
  obtain ⟨source, -, h⟩ := bind_eq_ok_iff.mp h
  obtain ⟨destination, -, h⟩ := bind_eq_ok_iff.mp h
  obtain rfl := Except.ok.inj h
  rfl

end Graph

/-! ### Inspecting an edge type -/

namespace EdgeCatalog

variable {c c' : EdgeCatalog} {edge type : String} {entry : EdgeEntry} {side : EdgeEnd}
variable {g : Graph} {f : Frame} {host host' : Host}

lemma oneType_eq_ok {types : List String} (h : oneType edge side types = .ok type) :
    types = [type] := by
  rcases types with _ | ⟨t, _ | ⟨u, types⟩⟩
  · simp [oneType] at h
  · obtain rfl := Except.ok.inj h
    rfl
  · simp [oneType] at h

lemma runOn_distinctIds {xs : List Int} {column : String} (h : f.column column = .ok (.int64 xs))
    (host : Host) : (distinctIds f column).runOn host = (.ok (Ascending.ofList xs), host) := by
  rw [distinctIds, h]
  rfl

lemma runOn_endType (edge : String) (side : EdgeEnd) (ids : List Int) (host : Host) :
    (endType .plain edge side ids).runOn host
      = ((oneType edge side (host.graph.typesOf ids)).mapError .construction, host) := by
  have hfetch := runOn_ofFetch_ready Graph.fetchVertices
    { ids := some ids, columns := some [Graph.typeColumn] } host
  exact runOn_bind_ok hfetch

/-- What inspecting an edge type that has edges comes to. -/
lemma runOn_inspect (hedges : host.graph.edgesOf edge ≠ []) :
    (inspect .plain edge).runOn host
      = ((host.graph.entryOf edge).mapError .construction, host) := by
  let q : Query :=
    { types := some [edge], columns := some [Graph.sourceColumn, Graph.destinationColumn] }
  let f : Frame := ⟨Graph.edgeColumns (host.graph.edgesOf edge)⟩
  have hfetch : (ofFetch Source.plain.fetchEdges q).runOn host = (.ok f, host) := by
    have hf : host.graph.fetchEdges q = .ok ⟨Graph.edgeColumns (host.graph.edgeRows q)⟩ := rfl
    rw [Graph.edgeRows_some] at hf
    refine (runOn_ofFetch_ready Graph.fetchEdges q host).trans ?_
    rw [hf]
    rfl
  have hrows : f.rows = (host.graph.edgesOf edge).length := List.length_map _
  have hne : f.rows ≠ 0 := hrows ▸ mt List.length_eq_zero_iff.mp hedges
  have hsource : f.column Graph.sourceColumn = .ok (.int64 _) := rfl
  have hdestination : f.column Graph.destinationColumn = .ok (.int64 _) := rfl
  have hend (side : EdgeEnd) :
      (endType .plain edge side (Ascending.ofList (host.graph.endsOf edge side))).runOn host
        = ((host.graph.endTypeOf edge side).mapError .construction, host) := by
    rw [runOn_endType, Graph.typesOf_ofList]
    rfl
  -- the fetch, the distinct ids and the types of both sides: none of these changes the host
  rw [inspect]
  refine (runOn_bind_ok hfetch).trans ?_
  rw [if_neg hne]
  refine (runOn_bind_ok (runOn_distinctIds hsource host)).trans
    ((runOn_bind_ok (runOn_distinctIds hdestination host)).trans ?_)
  refine (runOn_bind_kept (hend .source) fun source =>
    runOn_bind_kept (hend .destination) fun destination => rfl).trans ?_
  rw [Graph.entryOf, hrows]
  cases host.graph.endTypeOf edge .source with
  | error e => rfl
  | ok source => cases host.graph.endTypeOf edge .destination <;> rfl

/-- An end with one vertex type has it at every edge whose vertex is there. -/
lemma type_of_endTypeOf (h : g.endTypeOf edge side = .ok type) {e : Edge}
    (he : e ∈ g.edges.values) (hedge : e.type = some edge) {v : Vertex}
    (hv : g.vertices.get? (e.endAt side) = some v) : v.type = type := by
  have htype : g.typeAt? (e.endAt side) = some v.type := by
    rw [Graph.typeAt?, hv, Option.map_some]
  have hmem : v.type ∈ g.typesOf (g.endsOf edge side) :=
    Graph.mem_typesOf.mpr ⟨_, Graph.mem_endsOf.mpr ⟨e, he, hedge, rfl⟩, htype⟩
  rw [oneType_eq_ok h] at hmem
  exact List.mem_singleton.mp hmem

/-- The triple of an entry tells of the edges of the type what is so. -/
lemma describes_of_inspect (h : (inspect .plain edge).runOn host = (.ok entry, host')) :
    entry.triple.Describes host.graph := by
  have hedge : entry.triple.edge = edge := inspect_yields .plain edge _ _ _ h
  by_cases hedges : host.graph.edgesOf edge = []
  · -- there is no edge to tell of
    have hnone : ∀ e ∈ host.graph.edges.values, e.type ≠ some entry.triple.edge := by
      intro e he htype
      have hmem : e.source ∈ host.graph.endsOf edge .source :=
        Graph.mem_endsOf.mpr ⟨e, he, hedge ▸ htype, rfl⟩
      rw [Graph.endsOf, hedges] at hmem
      exact List.not_mem_nil hmem
    exact ⟨fun e he htype => absurd htype (hnone e he), fun e he htype => absurd htype (hnone e he)⟩
  · obtain ⟨hentry, -⟩ := Prod.mk.inj ((runOn_inspect hedges).symm.trans h)
    obtain ⟨source, hsource, hlast⟩ := bind_eq_ok_iff.mp (mapError_eq_ok_iff.mp hentry)
    obtain ⟨destination, hdestination, hlast⟩ := bind_eq_ok_iff.mp hlast
    obtain rfl := Except.ok.inj hlast
    exact ⟨fun e he htype v hv => type_of_endTypeOf hsource he htype hv,
      fun e he htype v hv => type_of_endTypeOf hdestination he htype hv⟩

/-- Every triple of a catalog tells of the edges of its type what is so. -/
def Describes (c : EdgeCatalog) (g : Graph) : Prop :=
  ∀ edge entry, c.entry edge = .ok entry → entry.triple.Describes g

lemma describes_empty (g : Graph) : Describes {} g := by
  intro edge entry h
  rw [entry_eq_ok_iff] at h
  simp at h

lemma Describes.insert (hc : c.Describes g) (hentry : entry.triple.Describes g) :
    Describes ⟨c.entries.insert edge entry⟩ g := by
  intro edge' entry' h
  rw [entry_eq_ok_iff, SortedMap.get?_insert] at h
  split_ifs at h
  · obtain rfl : entry = entry' := Option.some.inj h
    exact hentry
  · exact hc edge' entry' (entry_eq_ok_iff.mpr h)

lemma describes_of_addTypes {types : List (Option String)}
    (h : (addTypes .plain types c).runOn host = (.ok c', host')) (hc : c.Describes host.graph) :
    c'.Describes host.graph := by
  induction types generalizing c host with
  | nil =>
    obtain ⟨hout, -⟩ := Prod.mk.inj h
    obtain rfl := Except.ok.inj hout
    exact hc
  -- an inspection leaves the tables, so the entries before it still describe them
  | cons type types ih =>
    cases type with
    | none => simp [addTypes] at h
    | some edge =>
      obtain ⟨entry, between, hinspect, h⟩ := runOn_bind_eq_ok_iff.mp h
      have hkept : between.graph = host.graph := by
        have hkeeps := inspect_keepsTables edge host
        rwa [hinspect] at hkeeps
      rw [← hkept] at hc ⊢
      refine ih h (hc.insert ?_)
      rw [hkept]
      exact describes_of_inspect hinspect

end EdgeCatalog

/-! ### Stores over plain sources -/

/-- The sources that answer from the tables: at once, or over a number of parts that is a signed
64-bit integer. -/
def Source.OverTables (source : Source) : Prop :=
  source = .plain ∨ ∃ parts < 2 ^ 63, source = .partitioned parts

lemma Source.OverTables.edgeTypesOfNumerals_eq {source : Source} (h : source.OverTables) :
    source.edgeTypesOfNumerals = Graph.edgeTypesOfNumerals := by
  rcases h with rfl | ⟨parts, -, rfl⟩ <;> rfl

namespace Store

variable {source : Source} {g : Graph} {s : Store} {parts : Nat} {edge : String}
variable {entry : EdgeEntry}

/-- The counts of the vertex types are under their names. -/
lemma map_fst_countTypes {counts : List (String × Nat)} (h : countTypes .plain g = .ok counts) :
    counts.map (·.1) = g.vertexTypes := by
  have hnames : List.Forall₂ (fun type count => type = count.1) g.vertexTypes counts := by
    refine (mapM_eq_ok_iff.mp h).imp fun type count hcount => ?_
    obtain ⟨n, -, hlast⟩ := bind_eq_ok_iff.mp hcount
    exact congrArg Prod.fst (Except.ok.inj hlast)
  rw [eq_comm, ← List.forall₂_eq_eq_eq, List.forall₂_map_right_iff]
  exact hnames

namespace Reachable

/-- The entries of a store tell of the edges what is so on the tables that its construction left. -/
theorem edges_describe (h : Reachable .plain g s) : s.edges.Describes g := by
  obtain ⟨served, config, host, host', t, ht, rfl, hs⟩ := h.exists_built
  obtain ⟨-, -, -, -, between, -, hbuild⟩ := build_eq_ok ht
  have hkept := (EdgeCatalog.build_plain hbuild).1
  rw [EdgeCatalog.build, runOn_bind_ok (runOn_get between)] at hbuild
  rw [hs, hkept]
  exact EdgeCatalog.describes_of_addTypes hbuild (EdgeCatalog.describes_empty _)

/-- Under a policy that renumbers, the offset table of a store tells what is so on the tables that
its construction left. -/
theorem offsets_describe (h : Reachable .plain g s) (hpolicy : s.config.policy ≠ .keep) :
    s.offsets.Describes g := by
  obtain ⟨served, config, host, host', t, ht, rfl, hs⟩ := h.exists_built
  obtain ⟨-, -, hconfig, -, between, hoffsets, hedges⟩ := build_eq_ok ht
  have hconfig' : s.config = config := by rw [hs, ← hconfig]
  rw [makeOffsets_of_ne_keep (hconfig' ▸ hpolicy)] at hoffsets
  obtain ⟨ranges, _, hvertices, htable, hbetween⟩ := renumber_plain_eq_ok hoffsets
  obtain ⟨table, hok, hdescribes⟩ := Graph.ofRanges_describes hvertices
  obtain rfl := Except.ok.inj (hok.symm.trans htable)
  rw [hs]
  apply hdescribes
  rw [(EdgeCatalog.build_plain hedges).1, hbetween]
  rfl

/-- The offset table of a store has a block for each vertex type of the tables that its construction
left. -/
lemma names_perm (h : Reachable .plain g s) : s.offsets.names.Perm g.vertexTypes := by
  by_cases hpolicy : s.config.policy = .keep
  · obtain ⟨served, config, host, host', t, ht, rfl, hs⟩ := h.exists_built
    obtain ⟨-, -, hconfig, -, between, hoffsets, hedges⟩ := build_eq_ok ht
    have hconfig' : config.policy = .keep := by rw [← hpolicy, hs, ← hconfig]
    rw [hconfig', makeOffsets, runOn_bind_ok (runOn_get host)] at hoffsets
    obtain ⟨counts, _, hcounts, hlast⟩ := runOn_bind_eq_ok_iff.mp hoffsets
    obtain ⟨hcounts, rfl⟩ := runOn_ofExcept_eq_ok_iff.mp hcounts
    obtain ⟨htable, rfl⟩ := Prod.mk.inj hlast
    have hnames := map_fst_countTypes (mapError_eq_ok_iff.mp hcounts)
    rw [hs, ← Except.ok.inj htable, (EdgeCatalog.build_plain hedges).1, ← hnames]
    exact Offsets.names_ofCounts counts
  · exact (h.offsets_describe hpolicy).names

end Reachable

/-! ### Stores over parts -/

lemma onSource_self (h : s.source = source) : s.onSource source = s := by
  obtain rfl := h
  rfl

lemma onSource_onSource {other : Source} (h : s.source = source) :
    (s.onSource other).onSource source = s :=
  onSource_self h

namespace Reachable

/-- A store over parts is, but for its source, a store over the plain source. -/
lemma onPlain_of_partitioned (hparts : parts < 2 ^ 63) (h : Reachable (.partitioned parts) g s) :
    Reachable .plain g (s.onSource .plain) := by
  induction h with
  | @built served config host host' s h =>
    obtain ⟨hout, hleft⟩ := build_agree hparts served config host host rfl
    rw [h] at hout hleft
    -- the construction over parts has one over the plain source beside it
    rcases hrun : (build .plain served config).runOn host with ⟨e | s₀, left⟩ <;>
      rw [hrun] at hout hleft
    · exact hout.elim
    · obtain rfl : s = s₀.onSource (.partitioned parts) := hout
      have htables : left.graph = host'.graph := hleft
      rw [onSource_onSource (build_eq_ok hrun).1, ← htables]
      exact .built hrun
  | @registered g s _ group r ih => exact ih.registered group r
  | @extracted g s hs now types ih =>
    have hextracted := ih.extracted now types
    have hsame := subgraph_onSource (s := s.onSource .plain) rfl parts now types
    rw [onSource_onSource hs.source_eq] at hsame
    rw [hsame, onSource_onSource hextracted.source_eq]
    exact hextracted

/-- A store is, but for its source, a store over the plain source. -/
lemma onPlain (hsource : source.OverTables) (h : Reachable source g s) :
    Reachable .plain g (s.onSource .plain) := by
  rcases hsource with rfl | ⟨parts, hparts, rfl⟩
  · rwa [onSource_self h.source_eq]
  · exact h.onPlain_of_partitioned hparts

end Reachable

/-! ### A small site -/

/-- Two pages of some words, of which the first has a number for its tag and links to the second. -/
def site : Graph where
  vertices := .ofList
    [(0, { type := "page", properties := .ofList [("tag", .int 1), ("words", .int 3)] }),
      (1, { type := "page", properties := .ofList [("tag", .string "draft"), ("words", .int 5)] })]
  edges := .ofList [(0, ⟨0, 1, some "links", .empty⟩)]
  nextEdgeId := 1

/-- The outcome of building a store over the site. -/
def siteRun : Except StoreError Store × Host :=
  (build .plain .cpu {}).runOn { graph := site }

/-- The store over the site, and the tables that its construction leaves. -/
def siteStore : Store := siteRun.1.toOption.get (by decide +kernel)

lemma runOn_build_site : (build .plain .cpu {}).runOn { graph := site }
    = (.ok siteStore, siteRun.2) :=
  Prod.ext (eq_ok_get _) rfl

lemma reachable_siteStore : Reachable .plain siteRun.2.graph siteStore :=
  .built runOn_build_site

lemma single?_siteStore :
    siteStore.edges.single? = some ("links", ⟨⟨"page", "links", "page"⟩, 1⟩) := by
  decide +kernel

end Store

end TypedGraph
