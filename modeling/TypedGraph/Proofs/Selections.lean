import TypedGraph.Proofs.Extraction
import TypedGraph.Proofs.Building

/-!
# Selections of edges

What is extracted for any list of edge ids, with repeats or unknown ids (`extract_isExact`). A list
is refused exactly if an id has no edge or, on demand, two of its places have one pair of ends. A
subgraph that is extracted has a row for each place of the list.
-/

namespace TypedGraph

open Traversal

/-- What a subgraph tells of a list of edge ids. -/
structure Subgraph.TellsSelection (sub : Subgraph) (g : Graph) (ids : List Int)
    (o : ExtractOptions) : Prop where
  length_sources : sub.sources.length = ids.length
  length_destinations : sub.destinations.length = ids.length
  length_weights : sub.weights.length = ids.length
  /-- Numbered vertices ascend, and are the ends that occur. -/
  ascending : o.renumber → sub.vertexIds.Pairwise (· < ·)
  mem_vertexIds : o.renumber → ∀ v, v ∈ sub.vertexIds ↔
    ∃ id ∈ ids, ∃ e, g.edges.get? id = some e ∧ (v = e.source ∨ v = e.destination)
  /-- The numbers at a place stand for the ends of its edge. -/
  numbered : o.renumber → ∀ (k : Nat) id, ids[k]? = some id → ∃ e, g.edges.get? id = some e ∧
    sub.sources[k]?.bind sub.vertexAt? = some e.source ∧
    sub.destinations[k]?.bind sub.vertexAt? = some e.destination
  /-- Without numbers, a place has the ends of its edge. -/
  vertexIds_eq_nil : ¬ o.renumber → sub.vertexIds = []
  plain : ¬ o.renumber → ∀ (k : Nat) id, ids[k]? = some id → ∃ e, g.edges.get? id = some e ∧
    sub.sources[k]? = some e.source ∧ sub.destinations[k]? = some e.destination
  edgeIds : sub.edgeIds = if o.addEdgeData then some ids else none

namespace Graph

variable {g : Graph} {distinct : Bool} {ids : List Int} {edges : List Edge} {o : ExtractOptions}
  {sub : Subgraph}

/-! ### Lists that are refused -/

/-- The ends of the edge of an id. -/
def pair? (g : Graph) (id : Int) : Option (Int × Int) :=
  (g.edges.get? id).map fun e => (e.source, e.destination)

lemma exists_edges_iff : (∃ edges, List.Forall₂ (fun id e => g.edges.get? id = some e) ids edges) ↔
    ∀ id ∈ ids, id ∈ g.edges.keys := by
  induction ids with
  | nil => simp
  | cons id ids ih =>
    rw [List.forall_mem_cons, ← ih, SortedMap.mem_keys_iff]
    constructor
    · rintro ⟨_, hall⟩
      cases hall with
      | cons he hedges => exact ⟨⟨_, he⟩, _, hedges⟩
    · rintro ⟨⟨e, he⟩, edges, hedges⟩
      exact ⟨e :: edges, .cons he hedges⟩

lemma nodup_ends_iff (h : List.Forall₂ (fun id e => g.edges.get? id = some e) ids edges) :
    (edges.map fun e => (e.source, e.destination)).Nodup ↔ (ids.map g.pair?).Nodup := by
  have hpairs : ids.map g.pair? = (edges.map fun e => (e.source, e.destination)).map some := by
    rw [List.map_map]
    exact map_read_eq h (Option.map fun e => (e.source, e.destination))
  rw [hpairs, List.nodup_map_iff (Option.some_injective _)]

lemma exists_chosenEdges_iff : (∃ edges, g.chosenEdges distinct [] ids = .ok edges) ↔
    (∀ id ∈ ids, id ∈ g.edges.keys) ∧ (distinct → (ids.map g.pair?).Nodup) := by
  rw [← exists_edges_iff]
  constructor
  · rintro ⟨edges, h⟩
    obtain ⟨hedges, hpairs⟩ := chosenEdges_eq_ok_iff.mp h
    exact ⟨⟨edges, hedges⟩, fun hdistinct => (nodup_ends_iff hedges).mp (hpairs hdistinct).1⟩
  · rintro ⟨⟨edges, hedges⟩, hpairs⟩
    refine ⟨edges, chosenEdges_eq_ok_iff.mpr ⟨hedges, fun hdistinct => ?_⟩⟩
    exact ⟨(nodup_ends_iff hedges).mpr (hpairs hdistinct), by simp⟩

/-! ### Places of a list -/

lemma mem_ends_iff (h : List.Forall₂ (fun id e => g.edges.get? id = some e) ids edges) {v : Int} :
    (∃ e ∈ edges, v = e.source ∨ v = e.destination) ↔
      ∃ id ∈ ids, ∃ e, g.edges.get? id = some e ∧ (v = e.source ∨ v = e.destination) := by
  constructor
  · rintro ⟨e, hmem, hv⟩
    obtain ⟨k, hk⟩ := List.mem_iff_getElem?.mp hmem
    obtain ⟨id, hid, he⟩ := exists_of_forall₂ h.flip hk
    exact ⟨id, List.mem_of_getElem? hid, e, he, hv⟩
  · rintro ⟨id, hmem, e, he, hv⟩
    obtain ⟨k, hk⟩ := List.mem_iff_getElem?.mp hmem
    obtain ⟨e', hplace, he'⟩ := exists_of_forall₂ h hk
    obtain rfl := Option.some.inj (he.symm.trans he')
    exact ⟨e, List.mem_of_getElem? hplace, hv⟩

/-- The number at a place stands for what the edge of the place has for it. -/
lemma bind_getElem?_eq {numbers : List Int} {read : Int → Option Int} {side : Edge → Int} {k : Nat}
    {e : Edge} (h : numbers.map read = edges.map fun e => some (side e)) (hk : edges[k]? = some e) :
    numbers[k]?.bind read = some (side e) := by
  have hplace := congrArg (·[k]?) h
  simp only [List.getElem?_map, hk, Option.map_some] at hplace
  obtain ⟨number, hnumber, hread⟩ := Option.map_eq_some_iff.mp hplace
  rw [hnumber, Option.bind_some, hread]

lemma tellsSelection_of_extract (h : g.extract ids o = .ok sub) :
    sub.TellsSelection g ids o := by
  obtain ⟨edges, hchosen, hids, hsources, hdestinations, hweights, hedgeIds⟩ := extract_eq_ok h
  have hedges := (chosenEdges_eq_ok_iff.mp hchosen).1
  have htells (ho : o.renumber) : sub.Tells edges := Subgraph.tells_of_extract ho h hedges
  refine ⟨?_, ?_, ?_, fun ho => (htells ho).ascending, ?_, ?_, ?_, ?_, hedgeIds⟩
  · rw [hsources, List.length_map, hedges.length_eq]
  · rw [hdestinations, List.length_map, hedges.length_eq]
  · rw [hweights, List.length_map, hedges.length_eq]
  · intro ho v
    rw [(htells ho).mem_vertexIds, mem_ends_iff hedges]
  · intro ho k id hk
    obtain ⟨e, hplace, he⟩ := exists_of_forall₂ hedges hk
    exact ⟨e, he, bind_getElem?_eq (htells ho).sources hplace,
      bind_getElem?_eq (htells ho).destinations hplace⟩
  · intro ho
    rw [hids, if_neg ho]
  · intro ho k id hk
    obtain ⟨e, hplace, he⟩ := exists_of_forall₂ hedges hk
    refine ⟨e, he, ?_, ?_⟩
    · rw [hsources, List.getElem?_map, hplace, Option.map_some, if_neg ho]
    · rw [hdestinations, List.getElem?_map, hplace, Option.map_some, if_neg ho]

/-- A selection is extracted exactly if each of its ids has an edge and, on demand, no two of its
places have the same ends, and what is extracted tells it place by place. -/
theorem extract_isExact (g : Graph) (ids : List Int) (o : ExtractOptions) :
    ((∃ sub, g.extract ids o = .ok sub) ↔
      (∀ id ∈ ids, id ∈ g.edges.keys) ∧ (o.checkMultiEdges → (ids.map g.pair?).Nodup)) ∧
    ∀ sub, g.extract ids o = .ok sub → sub.TellsSelection g ids o :=
  ⟨exists_extract_iff.trans exists_chosenEdges_iff, fun _ h => tellsSelection_of_extract h⟩

/-- An edge may be listed twice, unless repeated pairs are refused. -/
theorem extract_isExact_library :
    (∃ sub, Store.library.extract [2, 0, 2] { addEdgeData := true } = .ok sub ∧
      sub.TellsSelection Store.library [2, 0, 2] { addEdgeData := true }) ∧
    ¬ ∃ sub, Store.library.extract [2, 0, 2] { checkMultiEdges := true } = .ok sub := by
  obtain ⟨hlisted, htells⟩ := extract_isExact Store.library [2, 0, 2] { addEdgeData := true }
  obtain ⟨hdistinct, -⟩ := extract_isExact Store.library [2, 0, 2] { checkMultiEdges := true }
  have hrepeated : ¬ ([2, 0, 2].map Store.library.pair?).Nodup := by decide
  obtain ⟨sub, hsub⟩ := hlisted.mpr ⟨by decide, nofun⟩
  exact ⟨⟨sub, hsub, htells sub hsub⟩, fun h => hrepeated ((hdistinct.mp h).2 rfl)⟩

end Graph

end TypedGraph
