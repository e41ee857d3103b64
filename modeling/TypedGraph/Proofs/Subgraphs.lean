import TypedGraph.Proofs.Extraction
import TypedGraph.Proofs.Memoization
import TypedGraph.Proofs.Refinement

/-!
# Subgraphs of a store

Whatever a store was asked before, a list of edge types gets the subgraph that a fresh extraction
over its graph gives, and the store has memoized one subgraph for each set of edge types that it has
served (`subgraph_tells`). A list that is refused leaves the store as it is. What carries the
sequence of requests is that the memo remembers fresh extractions only (`Remembers.call_fresh`).
-/

namespace TypedGraph

open Traversal TypedGraph.Action

/-! ### Fresh extractions -/

namespace Graph

variable {types types' : List String}

/-- The subgraph of the edges of some types, extracted anew. -/
def freshSubgraph (g : Graph) (types : List String) : Except StoreError Subgraph :=
  (g.extract (g.selectEdges types) { weightProperty := some typeColumn }).mapError .graph

lemma freshSubgraph_congr (g : Graph) (h : types.toFinset = types'.toFinset) :
    g.freshSubgraph types = g.freshSubgraph types' := by
  rw [freshSubgraph, freshSubgraph, selectEdges_eq, selectEdges_eq, edgesAmong_congr h]

/-- An extraction tells the edges of the types, in the order of their ids. -/
lemma exists_freshSubgraph (g : Graph) (types : List String) :
    ∃ sub, g.freshSubgraph types = .ok sub ∧ sub.Tells ((g.edgesAmong types).map (·.2)) := by
  obtain ⟨sub, hsub, htells⟩ := exists_extract_selectEdges
    (o := { weightProperty := some typeColumn }) rfl rfl g types
  exact ⟨sub, mapError_eq_ok_iff.mpr hsub, htells⟩

end Graph

/-! ### Memos of fresh extractions -/

namespace SubgraphMemo

variable {m : SubgraphMemo Subgraph} {g : Graph} {lists : List (List String)}

/-- A past in which the subgraphs of some lists of edge types were extracted anew. -/
def freshPast (g : Graph) (lists : List (List String)) :
    List (List String × Except StoreError Subgraph) :=
  lists.map fun types => (types, g.freshSubgraph types)

lemma served_freshPast (g : Graph) (lists : List (List String)) :
    served (freshPast g lists) = (lists.map List.toFinset).toFinset := by
  ext set
  simp only [mem_served_iff, freshPast, List.mem_map, List.mem_toFinset]
  constructor
  · rintro ⟨_, ⟨types, htypes, rfl⟩, hset, -⟩
    exact ⟨types, htypes, hset⟩
  · rintro ⟨types, htypes, hset⟩
    obtain ⟨sub, hsub, -⟩ := g.exists_freshSubgraph types
    exact ⟨_, ⟨types, htypes, rfl⟩, hset, sub, hsub⟩

/-- A memo of fresh extractions gives what a fresh extraction gives. -/
lemma Remembers.call_fresh (h : m.Remembers (freshPast g lists)) (types : List String) :
    (m.call ⟨types, g.freshSubgraph⟩).1 = g.freshSubgraph types := by
  have hanswers := h.answers ⟨types, g.freshSubgraph⟩
  by_cases hserved : types.toFinset ∈ served (freshPast g lists)
  · obtain ⟨sub, hfirst⟩ := Option.isSome_iff_exists.mp (firstValue?_isSome_iff.mpr hserved)
    rw [hanswers.first sub hfirst]
    obtain ⟨r, hr, hsub⟩ := List.exists_of_findSome?_eq_some hfirst
    obtain ⟨earlier, -, rfl⟩ := List.mem_map.mp hr
    split_ifs at hsub with hset
    rw [← g.freshSubgraph_congr hset]
    exact (toOption_eq_some_iff.mp hsub).symm
  · obtain ⟨names, hnames⟩ := Option.isSome_iff_exists.mp (hanswers.extracts_iff.mpr hserved)
    obtain ⟨-, hset, hcall⟩ := hanswers.extracted names hnames
    exact hcall.trans (g.freshSubgraph_congr hset)

/-- The memo after a further list has extracted that list as well. -/
lemma Remembers.freshPast_concat (h : m.Remembers (freshPast g lists)) (types : List String) :
    (m.call ⟨types, g.freshSubgraph⟩).2.Remembers (freshPast g (lists ++ [types])) := by
  have hnext := h.call ⟨types, g.freshSubgraph⟩
  rw [h.call_fresh] at hnext
  rw [freshPast, List.map_append]
  exact hnext

end SubgraphMemo

/-! ### One list of edge types -/

namespace Store

variable {s : Store} {g : Graph} {host : Host} {types : List String} {lists : List (List String)}

/-- A list with a name that is no edge type of the store is refused for the first such name. -/
lemma checkEdgeTypes_eq (hne : types ≠ []) :
    s.checkEdgeTypes types = match types.find? (· ∉ s.edges.names) with
      | some t => .error (.lookup (.unknownEdgeType t))
      | none => .ok () := by
  have hcheck : s.checkEdgeTypes types = types.forM fun t => discard (s.edges.entry t) := by
    rw [checkEdgeTypes, if_neg (by simpa using hne)]
  rw [hcheck]
  clear hcheck hne
  -- names are checked one by one, and the first that fails decides
  induction types with
  | nil => rfl
  | cons t types ih =>
    rw [List.forM_eq_forM, List.forM_cons, ← List.forM_eq_forM, ih, List.find?_cons]
    by_cases hmem : t ∈ s.edges.names
    · obtain ⟨e, he⟩ := EdgeCatalog.mem_names_iff.mp hmem
      have hfirst : discard (s.edges.entry t) = .ok () := by
        rw [he]
        rfl
      simp [hmem, hfirst]
    · have hfirst : discard (s.edges.entry t) = .error (.lookup (.unknownEdgeType t)) := by
        rw [EdgeCatalog.entry_of_notMem hmem]
        rfl
      simp [hmem, hfirst]

lemma subgraph_of_error {e : StoreError} (h : s.checkEdgeTypes types = .error e) :
    s.subgraph g types = (.error e, s) := by
  rw [subgraph, h]

/-- A list of edge types that is accepted is a call of the memo. -/
lemma subgraph_of_ok (hs : s.source = .plain) (h : s.checkEdgeTypes types = .ok ()) :
    s.subgraph g types = ((s.subgraphs.call ⟨types, g.freshSubgraph⟩).1,
      { s with subgraphs := (s.subgraphs.call ⟨types, g.freshSubgraph⟩).2 }) := by
  rw [subgraph, h]
  simp only [subgraphOptions, hs]
  rfl

/-- How a store answers a list of edge types. -/
structure AnswersTypes (s : Store) (g : Graph) (types : List String) : Prop where
  empty : types = [] → s.subgraph g types = (.error (.value .noEdgeTypes), s)
  unregistered : types ≠ [] → (∃ t ∈ types, t ∉ s.edges.names) →
    ∃ t ∈ types, t ∉ s.edges.names ∧
      s.subgraph g types = (.error (.lookup (.unknownEdgeType t)), s)
  /-- A list of edge types of the store gets the edges of the types by a fresh extraction, as does
  every other list of the same types. -/
  told : types ≠ [] → (∀ t ∈ types, t ∈ s.edges.names) →
    ∃ sub, g.freshSubgraph types = .ok sub ∧ sub.Tells ((g.edgesAmong types).map (·.2)) ∧
      ∀ types', types'.toFinset = types.toFinset → (s.subgraph g types').1 = .ok sub

lemma answersTypes (hs : s.source = .plain)
    (hmemo : s.subgraphs.Remembers (SubgraphMemo.freshPast g lists)) (types : List String) :
    s.AnswersTypes g types where
  empty := by
    rintro rfl
    exact subgraph_of_error rfl
  unregistered hne := by
    rintro ⟨t, ht, hnot⟩
    have hcheck := s.checkEdgeTypes_eq hne
    cases hfind : types.find? (· ∉ s.edges.names) with
    | none => exact absurd hnot (by simpa using List.find?_eq_none.mp hfind t ht)
    | some first =>
      rw [hfind] at hcheck
      exact ⟨first, List.mem_of_find?_eq_some hfind, by simpa using List.find?_some hfind,
        subgraph_of_error hcheck⟩
  told hne hnames := by
    obtain ⟨sub, hsub, htells⟩ := g.exists_freshSubgraph types
    refine ⟨sub, hsub, htells, fun types' hset => ?_⟩
    -- the same set in another list has the same names, so it is accepted as well
    have hmem (t : String) : t ∈ types' ↔ t ∈ types := by
      rw [← List.mem_toFinset, hset, List.mem_toFinset]
    have hne' : types' ≠ [] := by
      obtain ⟨t, ht⟩ := List.exists_mem_of_ne_nil _ hne
      exact List.ne_nil_of_mem ((hmem t).mpr ht)
    have hnone : types'.find? (· ∉ s.edges.names) = none := by
      rw [List.find?_eq_none]
      intro t ht
      simpa using hnames t ((hmem t).mp ht)
    have hcheck : s.checkEdgeTypes types' = .ok () := by rw [checkEdgeTypes_eq hne', hnone]
    rw [subgraph_of_ok hs hcheck, hmemo.call_fresh, g.freshSubgraph_congr hset, hsub]

/-! ### Sequences of requests -/

/-- The store and the host after some requests. -/
def leaves (s : Store) (host : Host) : List Request → Store × Host
  | [] => (s, host)
  | r :: rs => leaves (s.serve host r).2.1 (s.serve host r).2.2 rs

/-- The list of edge types of a request that a subgraph answers. -/
def servedTypes? : Request × Answer → Option (List String)
  | (.subgraph types, .subgraph (.ok _)) => some types
  | _ => none

/-- The lists of edge types whose subgraphs are among the answers to some requests. -/
def servedTypes (s : Store) (host : Host) (rs : List Request) : List (List String) :=
  (rs.zip (s.serveAll host rs)).filterMap servedTypes?

lemma serve_edges (s : Store) (host : Host) (r : Request) :
    (s.serve host r).2.1.edges = s.edges := by
  cases r with
  | subgraph types =>
    obtain ⟨subgraphs, heq⟩ := s.subgraph_snd host.graph types
    show (s.subgraph host.graph types).2.edges = s.edges
    rw [heq]
  | _ => rfl

/-- A store over some tables that has extracted subgraphs for some lists of edge types. -/
structure HasServed (s : Store) (host : Host) (g : Graph) (lists : List (List String)) : Prop where
  reachable : Reachable .plain g s
  graph : host.graph = g
  memo : s.subgraphs.Remembers (SubgraphMemo.freshPast g lists)

/-- One request leaves the tables, and adds its list of edge types if a subgraph answers it. -/
lemma HasServed.serve (h : s.HasServed host g lists) (r : Request) :
    HasServed (s.serve host r).2.1 (s.serve host r).2.2 g
      (lists ++ (servedTypes? (r, (s.serve host r).1)).toList) := by
  obtain ⟨-, hreachable, -, -, -, hgraph, -⟩ :=
    serve_agree (by norm_num : 1 < 2 ^ 63) h.reachable ⟨h.graph, h.graph⟩ r
  refine ⟨hreachable, hgraph, ?_⟩
  have hmemo := h.memo
  -- only a request for a subgraph can change the memo
  cases r with
  | subgraph types =>
    obtain rfl := h.graph
    rw [Store.serve]
    rcases hcheck : s.checkEdgeTypes types with e | ⟨⟨⟩⟩
    · rw [subgraph_of_error hcheck]
      simpa [servedTypes?] using hmemo
    · obtain ⟨sub, hsub, -⟩ := host.graph.exists_freshSubgraph types
      rw [subgraph_of_ok h.reachable.source_eq hcheck, hmemo.call_fresh, hsub]
      exact hmemo.freshPast_concat types
  | _ => simpa [Store.serve, servedTypes?, registerTensor] using hmemo

/-- Requests leave the tables and the edge types, and add the lists of edge types that they name. -/
lemma HasServed.leaves (h : s.HasServed host g lists) (rs : List Request) :
    HasServed (s.leaves host rs).1 (s.leaves host rs).2 g (lists ++ s.servedTypes host rs) ∧
      (s.leaves host rs).1.edges = s.edges := by
  induction rs generalizing s host lists with
  | nil => simpa [Store.leaves, servedTypes] using h
  | cons r rs ih =>
    obtain ⟨hrest, hedges⟩ := ih (h.serve r)
    refine ⟨?_, hedges.trans (s.serve_edges host r)⟩
    rw [List.append_assoc] at hrest
    have hlists : s.servedTypes host (r :: rs)
        = (servedTypes? (r, (s.serve host r).1)).toList
          ++ servedTypes (s.serve host r).2.1 (s.serve host r).2.2 rs := by
      rw [servedTypes, serveAll, List.zip_cons_cons, List.filterMap_cons]
      cases servedTypes? (r, (s.serve host r).1) <;> rfl
    rw [hlists]
    exact hrest

section Built

variable {served : Device} {config : Config} {left : Host}

/-- A store is built without subgraphs. -/
lemma hasServed_of_build (h : (build .plain served config).runOn host = (.ok s, left)) :
    s.HasServed left left.graph [] := by
  refine ⟨.built h, rfl, ?_⟩
  have hnone : s.subgraphs = {} := by
    rw [build, runOn_bind_ok (runOn_get host)] at h
    obtain ⟨_, _, -, h⟩ := runOn_bind_eq_ok_iff.mp h
    obtain ⟨_, _, -, h⟩ := runOn_bind_eq_ok_iff.mp h
    obtain ⟨_, _, -, h⟩ := runOn_bind_eq_ok_iff.mp h
    obtain rfl := Except.ok.inj (Prod.mk.inj h).1
    rfl
  rw [hnone]
  exact .empty

/-- After any requests to a store that was built over a graph, the graph is as it was, and a list of
edge types is refused if it is empty or names no edge type of the store, which leaves the store as
it is, or gets the subgraph that a fresh extraction of the edges of these types gives, whatever the
order and the repeats of the types. One subgraph is memoized for each set of types served so far. -/
theorem subgraph_tells (h : (build .plain served config).runOn host = (.ok s, left))
    (rs : List Request) :
    (s.leaves left rs).2.graph = left.graph ∧ (s.leaves left rs).1.edges = s.edges ∧
      (∀ types, (s.leaves left rs).1.AnswersTypes left.graph types) ∧
      (s.leaves left rs).1.subgraphs.length
        = ((s.servedTypes left rs).map List.toFinset).toFinset.card := by
  obtain ⟨hserved, hedges⟩ := (hasServed_of_build h).leaves rs
  rw [List.nil_append] at hserved
  refine ⟨hserved.graph, hedges, answersTypes hserved.reachable.source_eq hserved.memo, ?_⟩
  rw [hserved.memo.length, SubgraphMemo.served_freshPast]

/-- The library has served two lists of one set of edge types and refused two more lists. -/
theorem subgraph_tells_library :
    (build .plain .cpu {}).runOn { graph := library } = (.ok libraryStore, libraryRun.2) ∧
      (libraryStore.leaves libraryRun.2 [.subgraph ["writes", "cites"], .subgraph [],
        .subgraph ["cites", "writes", "cites"], .subgraph ["reads"]]).1.subgraphs.length = 1 ∧
      (libraryStore.leaves libraryRun.2 [.subgraph ["writes", "cites"], .subgraph [],
        .subgraph ["cites", "writes", "cites"], .subgraph ["reads"]]).1.AnswersTypes
        libraryRun.2.graph ["writes"] := by
  obtain ⟨-, -, hanswers, hlength⟩ := subgraph_tells runOn_build_library
    [.subgraph ["writes", "cites"], .subgraph [], .subgraph ["cites", "writes", "cites"],
      .subgraph ["reads"]]
  refine ⟨runOn_build_library, hlength.trans ?_, hanswers _⟩
  decide +kernel

end Built

end Store

end TypedGraph
