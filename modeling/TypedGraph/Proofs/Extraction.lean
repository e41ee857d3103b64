import TypedGraph.Graph.Subgraph
import TypedGraph.Proofs.Order
import TypedGraph.Proofs.Search
import TypedGraph.Proofs.Traversal

/-!
# Extracted subgraphs

The edges of chosen ids, and what a subgraph of numbered vertices tells of them: local vertex
numbers are positions in the ascending list of the ends of its edges (`Subgraph.tells_of_extract`).
What is extracted for some edge types depends on the set of the types only (`edgesAmong_congr`).
-/

namespace TypedGraph

open Traversal

/-! ### Numbered vertices -/

namespace Subgraph

/-- The vertex of a local number. -/
def vertexAt? (sub : Subgraph) (number : Int) : Option Int :=
  if number < 0 then none else sub.vertexIds[number.toNat]?

/-- A subgraph with numbered vertices tells some edges: each of them once, in their order. -/
structure Tells (sub : Subgraph) (edges : List Edge) : Prop where
  sources : sub.sources.map sub.vertexAt? = edges.map (some ·.source)
  destinations : sub.destinations.map sub.vertexAt? = edges.map (some ·.destination)
  /-- The numbered vertices are the ends of the edges, ascending. -/
  ascending : sub.vertexIds.Pairwise (· < ·)
  mem_vertexIds : ∀ id, id ∈ sub.vertexIds ↔ ∃ e ∈ edges, id = e.source ∨ id = e.destination

/-- The number of a vertex stands for it. -/
lemma vertexAt?_lowerBound {sub : Subgraph} (h : sub.vertexIds.Pairwise (· < ·)) {id : Int}
    (hid : id ∈ sub.vertexIds) : sub.vertexAt? (Search.lowerBound sub.vertexIds id) = some id := by
  obtain ⟨p, hp⟩ := List.mem_iff_getElem?.mp hid
  rw [Search.lowerBound_eq h hp, vertexAt?, if_neg (by omega), Int.toNat_natCast, hp]

end Subgraph

namespace Graph

variable {g : Graph} {distinct : Bool} {seen : List (Int × Int)} {ids : List Int}
  {edges : List Edge} {o : ExtractOptions} {sub : Subgraph}

/-! ### Chosen edges -/

/-- Ids have one list of edges. -/
lemma edges_unique {edges' : List Edge}
    (h : List.Forall₂ (fun id e => g.edges.get? id = some e) ids edges)
    (h' : List.Forall₂ (fun id e => g.edges.get? id = some e) ids edges') : edges = edges' :=
  List.right_unique_forall₂' (fun _ _ _ he he' => Option.some.inj (he.symm.trans he')) h h'

/-- What is read of the edges of ids is read of the edges that they are. -/
lemma map_read_eq {β : Type*} (h : List.Forall₂ (fun id e => g.edges.get? id = some e) ids edges)
    (read : Option Edge → β) :
    (ids.map fun id => read (g.edges.get? id)) = edges.map fun e => read (some e) := by
  rw [← List.forall₂_eq_eq_eq, List.forall₂_map_left_iff, List.forall₂_map_right_iff]
  exact h.imp fun id e he => congrArg read he

/-- The edges of ids that all have one are chosen; two between one pair are refused on demand. -/
lemma chosenEdges_eq_ok_iff : g.chosenEdges distinct seen ids = .ok edges ↔
    List.Forall₂ (fun id e => g.edges.get? id = some e) ids edges ∧
      (distinct → (edges.map fun e => (e.source, e.destination)).Nodup ∧
        ∀ e ∈ edges, (e.source, e.destination) ∉ seen) := by
  induction ids generalizing seen edges with
  | nil => cases edges <;> simp [chosenEdges]
  | cons id ids ih =>
    rw [chosenEdges]
    cases hid : g.edges.get? id with
    | none => cases edges <;> simp [hid]
    | some e =>
      simp only
      by_cases hseen : distinct && seen.contains (e.source, e.destination)
      · -- the edge repeats a pair: it is refused, and no list of edges qualifies
        obtain ⟨hdistinct, hmem⟩ := Bool.and_eq_true_iff.mp hseen
        rw [if_pos hseen]
        constructor
        · intro h
          cases h
        · rintro ⟨hedges, hpairs⟩
          cases hedges with
          | cons he hedges =>
            obtain rfl := Option.some.inj (hid.symm.trans he)
            exact absurd (List.contains_iff_mem.mp hmem)
              ((hpairs hdistinct).2 _ List.mem_cons_self)
      · -- otherwise the pair is seen from here on, and the others are chosen as the hypothesis says
        have hnew : distinct → (e.source, e.destination) ∉ seen := by
          intro hdistinct hmem
          exact hseen (by simp [hdistinct, hmem])
        rw [if_neg hseen, map_eq_ok_iff]
        constructor
        · rintro ⟨rest, hrest, rfl⟩
          obtain ⟨hedges, hpairs⟩ := ih.mp hrest
          refine ⟨.cons hid hedges, fun hdistinct => ?_⟩
          obtain ⟨hnodup, hfresh⟩ := hpairs hdistinct
          refine ⟨List.nodup_cons.mpr ⟨fun hmem => ?_, hnodup⟩, ?_⟩
          · obtain ⟨e', he', heq⟩ := List.mem_map.mp hmem
            exact hfresh e' he' (by simp [heq])
          · rintro e' (_ | ⟨_, he'⟩)
            · exact hnew hdistinct
            · exact fun hmem => hfresh e' he' (List.mem_cons_of_mem _ hmem)
        · rintro ⟨hedges, hpairs⟩
          cases hedges with
          | @cons _ e' _ rest he hedges =>
            obtain rfl := Option.some.inj (hid.symm.trans he)
            refine ⟨rest, ih.mpr ⟨hedges, fun hdistinct => ?_⟩, rfl⟩
            obtain ⟨hnodup, hfresh⟩ := hpairs hdistinct
            obtain ⟨hout, hnodup⟩ := List.nodup_cons.mp hnodup
            refine ⟨hnodup, fun e' he' hmem => ?_⟩
            rcases List.mem_cons.mp hmem with heq | hmem
            · exact hout (List.mem_map.mpr ⟨e', he', heq⟩)
            · exact hfresh e' (List.mem_cons_of_mem _ he') hmem

/-- A subgraph is made of the chosen edges. -/
lemma extract_eq_ok (h : g.extract ids o = .ok sub) :
    ∃ edges, g.chosenEdges o.checkMultiEdges [] ids = .ok edges ∧
      sub.vertexIds = (if o.renumber then
        Ascending.ofList (edges.map (·.source) ++ edges.map (·.destination)) else []) ∧
      sub.sources = edges.map (fun e =>
        if o.renumber then (Search.lowerBound sub.vertexIds e.source : Int) else e.source) ∧
      sub.destinations = edges.map (fun e =>
        if o.renumber then (Search.lowerBound sub.vertexIds e.destination : Int)
        else e.destination) ∧
      sub.weights = edges.map (fun e =>
        (o.weightProperty.bind (g.edgeWeight? · e)).getD o.defaultWeight) ∧
      sub.edgeIds = if o.addEdgeData then some ids else none := by
  rw [extract] at h
  obtain ⟨edges, hedges, hsub⟩ := bind_eq_ok_iff.mp h
  obtain rfl := Except.ok.inj hsub
  exact ⟨edges, hedges, rfl, List.map_map, List.map_map, rfl, rfl⟩

/-- Only the choice of the edges can fail. -/
lemma exists_extract_iff : (∃ sub, g.extract ids o = .ok sub) ↔
    ∃ edges, g.chosenEdges o.checkMultiEdges [] ids = .ok edges := by
  constructor
  · rintro ⟨sub, h⟩
    obtain ⟨edges, hedges, -⟩ := extract_eq_ok h
    exact ⟨edges, hedges⟩
  · rintro ⟨edges, hedges⟩
    rw [extract, hedges]
    exact ⟨_, rfl⟩

end Graph

/-- A subgraph whose vertices are numbered tells the edges of its ids. -/
theorem Subgraph.tells_of_extract {g : Graph} {ids : List Int} {o : ExtractOptions}
    {sub : Subgraph} {edges : List Edge} (ho : o.renumber) (h : g.extract ids o = .ok sub)
    (hedges : List.Forall₂ (fun id e => g.edges.get? id = some e) ids edges) : sub.Tells edges := by
  obtain ⟨chosen, hchosen, hids, hsources, hdestinations, -, -⟩ := Graph.extract_eq_ok h
  obtain rfl := Graph.edges_unique (Graph.chosenEdges_eq_ok_iff.mp hchosen).1 hedges
  rw [if_pos ho] at hids
  have hascending : sub.vertexIds.Pairwise (· < ·) := hids ▸ Ascending.pairwise_ofList _
  have hmem (id : Int) :
      id ∈ sub.vertexIds ↔ ∃ e ∈ chosen, id = e.source ∨ id = e.destination := by
    simp only [hids, Ascending.mem_ofList, List.mem_append, List.mem_map]
    grind
  refine ⟨?_, ?_, hascending, hmem⟩
  · rw [hsources, List.map_map]
    refine List.map_congr_left fun e he => ?_
    simp only [Function.comp, if_pos ho]
    exact vertexAt?_lowerBound hascending ((hmem _).mpr ⟨e, he, .inl rfl⟩)
  · rw [hdestinations, List.map_map]
    refine List.map_congr_left fun e he => ?_
    simp only [Function.comp, if_pos ho]
    exact vertexAt?_lowerBound hascending ((hmem _).mpr ⟨e, he, .inr rfl⟩)

/-! ### Edges of some types -/

namespace Graph

variable {g : Graph} {types types' : List String}

/-- The edges of some types with their ids, in id order. -/
def edgesAmong (g : Graph) (types : List String) : List (Int × Edge) :=
  g.edges.entries.filter fun e => e.2.type ∈ types.map some

lemma edgesAmong_congr (h : types.toFinset = types'.toFinset) :
    g.edgesAmong types = g.edgesAmong types' := by
  have hmem (type : String) : type ∈ types ↔ type ∈ types' := by
    rw [← List.mem_toFinset, h, List.mem_toFinset]
  refine List.filter_congr fun e _ => ?_
  simp only [List.mem_map, hmem]

lemma selectEdges_eq (g : Graph) (types : List String) :
    g.selectEdges types = (g.edgesAmong types).map (·.1) := by
  rw [selectEdges, edgesAmong]
  congr 1
  refine List.filter_congr fun e _ => ?_
  cases e.2.type <;> simp

/-- The edges of some types are chosen by their ids. -/
lemma chosenEdges_selectEdges (g : Graph) (types : List String) :
    g.chosenEdges false [] (g.selectEdges types) = .ok ((g.edgesAmong types).map (·.2)) := by
  rw [chosenEdges_eq_ok_iff, selectEdges_eq, List.forall₂_map_left_iff, List.forall₂_map_right_iff,
    List.forall₂_same]
  exact ⟨fun e he => SortedMap.mem_entries_iff.mp (List.mem_filter.mp he).1, by simp⟩

/-- The edges of some types can always be extracted, with numbered vertices and repeated pairs. -/
lemma exists_extract_selectEdges {o : ExtractOptions} (hnumbered : o.renumber)
    (hrepeats : o.checkMultiEdges = false) (g : Graph) (types : List String) :
    ∃ sub, g.extract (g.selectEdges types) o = .ok sub ∧
      sub.Tells ((g.edgesAmong types).map (·.2)) := by
  have hchosen := g.chosenEdges_selectEdges types
  obtain ⟨sub, hsub⟩ : ∃ sub, g.extract (g.selectEdges types) o = .ok sub :=
    exists_extract_iff.mpr ⟨_, hrepeats ▸ hchosen⟩
  have hedges := (chosenEdges_eq_ok_iff.mp hchosen).1
  exact ⟨sub, hsub, Subgraph.tells_of_extract hnumbered hsub hedges⟩

end Graph

end TypedGraph
