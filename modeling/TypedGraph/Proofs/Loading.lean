import TypedGraph.Proofs.Building

/-!
# Loaded graphs

A graph comes to be by loading vertices and edges and by renumbering them, in any order. Whatever
the order, its edges end at vertices, and edges of one type have ascending ids in the order in which
they were loaded (`Loaded.isLoaded`). Vertices of a graph that comes to be in this way can always be
renumbered, which gives the same graph under new vertex ids (`renumberVertices_isRelabeling`).
-/

namespace TypedGraph

open Traversal

namespace Graph

variable {g g' : Graph} {order : List Int} {previous : Option String}

/-- The graphs that come to be, with the ids of their edges in the order of loading. -/
inductive Loaded : Graph → List Int → Prop where
  | empty : Loaded {} []
  | addVertices {g g' : Graph} {order : List Int} {type : String} {rs : List VertexRecord}
      (hg : Loaded g order) (h : g.addVertices type rs = .ok g') : Loaded g' order
  | addEdges {g g' : Graph} {order : List Int} {type : Option String} {rs : List EdgeRecord}
      (hg : Loaded g order) (h : g.addEdges type rs = .ok g') :
      Loaded g' (order ++ intRange g.nextEdgeId (g.nextEdgeId + rs.length))
  | renumberVertices {g g' : Graph} {order : List Int} {previous : Option String}
      {ranges : List TypeRange} (hg : Loaded g order)
      (h : g.renumberVertices previous = .ok (ranges, g')) : Loaded g' order
  | renumberEdges {g : Graph} {order : List Int} (hg : Loaded g order)
      (previous : Option String) :
      Loaded (g.renumberEdges previous).2 (order.map g.newEdgeId)

/-- The graphs that come to be. -/
def Reachable (g : Graph) : Prop := ∃ order, Loaded g order

/-- What holds of a graph and the ids of its edges in the order of loading. -/
structure IsLoaded (g : Graph) (order : List Int) : Prop where
  closed : g.Closed
  fresh : ∀ id ∈ g.edges.keys, id < g.nextEdgeId
  perm : order.Perm g.edges.keys
  /-- Ids ascend along the edges of one type. -/
  ascending : order.Pairwise fun i j => ∀ d e, g.edges.get? i = some d → g.edges.get? j = some e →
    d.type = e.type → i < j

lemma isLoaded_empty : IsLoaded {} [] where
  closed _ _ h := by simp at h
  fresh _ h := by simp [SortedMap.keys] at h
  perm := .nil
  ascending := .nil

/-! ### Loading vertices -/

lemma mem_keys_putVertex {type : String} {r : VertexRecord} {id : Int} :
    id ∈ (g.putVertex type r).vertices.keys ↔ id = r.id ∨ id ∈ g.vertices.keys :=
  SortedMap.mem_keys_insert

lemma IsLoaded.putVertex (hg : IsLoaded g order) (type : String) (r : VertexRecord) :
    IsLoaded (g.putVertex type r) order where
  closed id e he :=
    ⟨mem_keys_putVertex.mpr (.inr (hg.closed id e he).1),
      mem_keys_putVertex.mpr (.inr (hg.closed id e he).2)⟩
  fresh := hg.fresh
  perm := hg.perm
  ascending := hg.ascending

lemma IsLoaded.addVertices {type : String} {rs : List VertexRecord} (hg : IsLoaded g order)
    (h : g.addVertices type rs = .ok g') : IsLoaded g' order := by
  rw [Graph.addVertices] at h
  split at h
  · simp at h
  · rename_i hfree
    obtain rfl := Except.ok.inj h
    clear h hfree
    induction rs generalizing g with
    | nil => exact hg
    | cons r rs ih => exact ih (hg.putVertex type r)

/-! ### Loading edges -/

section Edges

variable {type : Option String} {r : EdgeRecord} {rs : List EdgeRecord}

/-- The graph with some more edges. -/
def putEdges (g : Graph) (type : Option String) (rs : List EdgeRecord) : Graph :=
  rs.foldl (fun g r => g.putEdge type r) g

/-- The ends of an edge to load are vertices. -/
def HasEnds (g : Graph) (r : EdgeRecord) : Prop :=
  r.source ∈ g.vertices.keys ∧ r.destination ∈ g.vertices.keys

lemma missingEnd?_eq_none_iff : g.missingEnd? r = none ↔ g.HasEnds r := by
  simp [missingEnd?, HasEnds, SortedMap.contains, ← SortedMap.get?_isSome_iff_mem_keys,
    Option.isSome_iff_ne_none]

lemma addEdges_eq_ok (h : g.addEdges type rs = .ok g') :
    (∀ r ∈ rs, g.HasEnds r) ∧ g' = g.putEdges type rs := by
  rw [addEdges] at h
  split at h
  · simp at h
  · rename_i hnone
    obtain rfl := Except.ok.inj h
    rw [List.findSome?_eq_none_iff] at hnone
    exact ⟨fun r hr => missingEnd?_eq_none_iff.mp (hnone r hr), rfl⟩

lemma get?_putEdge (g : Graph) (type : Option String) (r : EdgeRecord) (id : Int) :
    (g.putEdge type r).edges.get? id = if id = g.nextEdgeId
      then some ⟨r.source, r.destination, type, r.properties⟩ else g.edges.get? id :=
  SortedMap.get?_insert _ _ _ _

lemma get?_putEdges_of_lt (type : Option String) (rs : List EdgeRecord) {id : Int}
    (h : id < g.nextEdgeId) : (g.putEdges type rs).edges.get? id = g.edges.get? id := by
  induction rs generalizing g with
  | nil => rfl
  | cons r rs ih =>
    have hnext : id < (g.putEdge type r).nextEdgeId := h.trans (Int.lt_succ _)
    refine (ih hnext).trans ?_
    rw [get?_putEdge, if_neg h.ne]

lemma get?_putEdges {n : Nat} (type : Option String) (h : rs[n]? = some r) :
    (g.putEdges type rs).edges.get? (g.nextEdgeId + n)
      = some ⟨r.source, r.destination, type, r.properties⟩ := by
  induction rs generalizing g n with
  | nil => simp at h
  | cons r' rs ih =>
    cases n with
    | zero =>
      obtain rfl : r' = r := by simpa using h
      have hnext : g.nextEdgeId < (g.putEdge type r').nextEdgeId := Int.lt_succ _
      have hlater := get?_putEdges_of_lt type rs hnext
      simp only [Nat.cast_zero, add_zero]
      refine hlater.trans ?_
      rw [get?_putEdge, if_pos rfl]
    | succ n =>
      have hrest := ih (g := g.putEdge type r') (n := n) (by simpa using h)
      have hid : (g.putEdge type r').nextEdgeId + (n : Int) = g.nextEdgeId + (n + 1 : Nat) := by
        show g.nextEdgeId + 1 + (n : Int) = _
        omega
      rwa [hid] at hrest

lemma IsLoaded.putEdge (hg : IsLoaded g order) (type : Option String) (hr : g.HasEnds r) :
    IsLoaded (g.putEdge type r) (order ++ [g.nextEdgeId]) where
  closed id e he := by
    rw [get?_putEdge] at he
    split_ifs at he
    · obtain rfl := Option.some.inj he
      exact hr
    · exact hg.closed id e he
  fresh id hid := by
    show id < g.nextEdgeId + 1
    rcases SortedMap.mem_keys_insert.mp hid with rfl | hid
    · exact Int.lt_succ _
    · exact (hg.fresh id hid).trans (Int.lt_succ _)
  perm := by
    -- ids in the order of loading are below the next one, so it is a new one
    have hnot : g.nextEdgeId ∉ order := fun hmem =>
      lt_irrefl _ (hg.fresh _ (hg.perm.mem_iff.mp hmem))
    have hnodup : (order ++ [g.nextEdgeId]).Nodup := by
      rw [List.nodup_append_comm]
      exact List.nodup_cons.mpr ⟨hnot, hg.perm.nodup_iff.mpr (nodup_keys _)⟩
    refine (List.perm_ext_iff_of_nodup hnodup (nodup_keys _)).mpr fun id => ?_
    rw [Graph.putEdge, SortedMap.mem_keys_insert, List.mem_append, List.mem_singleton,
      hg.perm.mem_iff, or_comm]
  ascending := by
    have hold {id : Int} (hid : id ∈ order) : id < g.nextEdgeId :=
      hg.fresh id (hg.perm.mem_iff.mp hid)
    -- the new edge comes last, and its id is above those of all others
    refine List.pairwise_append.mpr ⟨?_, List.pairwise_singleton _ _, ?_⟩
    · refine hg.ascending.imp_of_mem fun hi hj hlt d e hd he => ?_
      rw [get?_putEdge, if_neg (hold hi).ne] at hd
      rw [get?_putEdge, if_neg (hold hj).ne] at he
      exact hlt d e hd he
    · intro i hi j hj _ _ _ _ _
      rw [List.mem_singleton.mp hj]
      exact hold hi

lemma IsLoaded.putEdges (hg : IsLoaded g order) (type : Option String)
    (hrs : ∀ r ∈ rs, g.HasEnds r) : IsLoaded (g.putEdges type rs)
      (order ++ intRange g.nextEdgeId (g.nextEdgeId + rs.length)) := by
  induction rs generalizing g order with
  | nil =>
    rw [intRange_eq_nil (by simp), List.append_nil]
    exact hg
  | cons r rs ih =>
    obtain ⟨hr, hrs⟩ := List.forall_mem_cons.mp hrs
    have hrest := ih (hg.putEdge type hr) hrs
    have hone : intRange g.nextEdgeId (g.nextEdgeId + 1) = [g.nextEdgeId] := by
      simp [intRange]
    have hids : intRange g.nextEdgeId (g.nextEdgeId + (r :: rs).length)
        = [g.nextEdgeId] ++ intRange (g.nextEdgeId + 1) (g.nextEdgeId + 1 + rs.length) := by
      rw [← hone, intRange_append (by omega) (by omega), List.length_cons]
      congr 1
      omega
    rw [hids, ← List.append_assoc]
    exact hrest

end Edges

/-! ### Renumbering -/

/-- New vertex ids leave the edges loaded in their order. -/
lemma IsRelabeling.isLoaded {f : Int → Int} (h : IsRelabeling f previous g g')
    (hg : IsLoaded g order) : IsLoaded g' order := by
  have hkeys : g'.edges.keys = g.edges.keys := by
    rw [h.edges, SortedMap.keys_mapValues]
  have hedge {id : Int} {e : Edge} (he : g'.edges.get? id = some e) :
      ∃ e', g.edges.get? id = some e' ∧ e = e'.move f := by
    rw [h.edges, SortedMap.get?_mapValues, Option.map_eq_some_iff] at he
    obtain ⟨e', he', rfl⟩ := he
    exact ⟨e', he', rfl⟩
  -- ids, types and the order of edges are as before, and only their ends have moved
  refine ⟨fun id e he => ?_, ?_, ?_, ?_⟩
  · obtain ⟨old, hold, rfl⟩ := hedge he
    obtain ⟨hsource, hdestination⟩ := hg.closed id old hold
    rw [h.keys, mem_intRange, mem_intRange]
    exact ⟨h.bijOn.mapsTo hsource, h.bijOn.mapsTo hdestination⟩
  · rw [hkeys, h.nextEdgeId]
    exact hg.fresh
  · rw [hkeys]
    exact hg.perm
  · refine hg.ascending.imp fun hlt d e hd he htype => ?_
    obtain ⟨d', hd', rfl⟩ := hedge hd
    obtain ⟨e', he', rfl⟩ := hedge he
    exact hlt d' e' hd' he' htype

/-- Every edge of a graph with new edge ids is an old one. -/
lemma exists_of_get?_renumberEdges {id : Int} {e : Edge}
    (h : (g.renumberEdges previous).2.edges.get? id = some e) :
    ∃ old d, g.edges.get? old = some d ∧ id = g.newEdgeId old ∧
      e = { d with properties := keepId previous old d.properties } := by
  have hid := SortedMap.mem_keys_iff.mpr ⟨e, h⟩
  rw [keys_renumberEdges, mem_intRange] at hid
  have hsize : g.edgesByType.length = g.edges.size := g.edgesByType_perm.length_eq
  rw [← hsize] at hid
  obtain ⟨old, hold, rfl⟩ := (position_bijOn g.nodup_edgesByType).surjOn hid
  obtain ⟨⟨_, d⟩, hmem, rfl⟩ := List.mem_map.mp hold
  have hd := mem_edgesByType.mp hmem
  exact ⟨_, d, hd, rfl, Option.some.inj (h.symm.trans (get?_renumberEdges previous hd))⟩

/-- New edge ids keep the order of the edges of one type. -/
lemma IsLoaded.renumberEdges (hg : IsLoaded g order) (previous : Option String) :
    IsLoaded (g.renumberEdges previous).2 (order.map g.newEdgeId) where
  closed id e he := by
    obtain ⟨old, d, hd, -, rfl⟩ := exists_of_get?_renumberEdges he
    exact hg.closed old d hd
  fresh id hid := by
    rw [keys_renumberEdges, mem_intRange] at hid
    have hnext : (g.renumberEdges previous).2.nextEdgeId = g.edges.size :=
      congrArg Nat.cast g.edgesByType_perm.length_eq
    rw [hnext]
    exact hid.2
  perm := by
    have hmoved : (g.edgesByType.map (·.1)).map g.newEdgeId = intRange 0 g.edges.size := by
      have hsize : g.edgesByType.length = g.edges.size := g.edgesByType_perm.length_eq
      rw [← hsize]
      exact map_position g.nodup_edgesByType
    rw [keys_renumberEdges, ← hmoved]
    exact (hg.perm.trans (g.edgesByType_perm.map _).symm).map _
  ascending := by
    -- edges of one type keep their order under new ids, which is all that is asked
    refine List.pairwise_map.mpr (hg.ascending.imp_of_mem fun hi hj hlt d e hd he htype => ?_)
    obtain ⟨d', hd'⟩ := SortedMap.mem_keys_iff.mp (hg.perm.mem_iff.mp hi)
    obtain ⟨e', he'⟩ := SortedMap.mem_keys_iff.mp (hg.perm.mem_iff.mp hj)
    obtain rfl := Option.some.inj ((get?_renumberEdges previous hd').symm.trans hd)
    obtain rfl := Option.some.inj ((get?_renumberEdges previous he').symm.trans he)
    exact newEdgeId_lt hd' he' htype (hlt d' e' hd' he' htype)

/-- Edges go to edges of their types. -/
def KeepsEdgeTypes (f : Int → Int) (g g' : Graph) : Prop :=
  ∀ id e, g.edges.get? id = some e → ∃ e', g'.edges.get? (f id) = some e' ∧ e'.type = e.type

/-- Edges keep their types when vertices are renumbered, and then edges. -/
lemma keepsEdgeTypes_of_renumber {f : Int → Int} (h : IsRelabeling f previous g g')
    (edgeColumn : Option String) :
    KeepsEdgeTypes g'.newEdgeId g (g'.renumberEdges edgeColumn).2 := by
  intro id e he
  have hmoved : g'.edges.get? id = some (e.move f) := by
    rw [h.edges, SortedMap.get?_mapValues, he]
    rfl
  exact ⟨_, get?_renumberEdges edgeColumn hmoved, rfl⟩

/-! ### Graphs that come to be -/

/-- The edges of a graph that comes to be end at vertices, and those of one type have ascending ids
in the order of loading. -/
theorem Loaded.isLoaded (h : Loaded g order) : IsLoaded g order := by
  induction h with
  | empty => exact isLoaded_empty
  | addVertices _ h ih => exact ih.addVertices h
  | addEdges _ h ih =>
    obtain ⟨hends, rfl⟩ := addEdges_eq_ok h
    exact ih.putEdges _ hends
  | renumberVertices _ h ih => exact (isRelabeling_of_eq_ok ih.closed h).isLoaded ih
  | renumberEdges _ previous ih => exact ih.renumberEdges previous

/-- Renumbering the vertices of a graph that comes to be succeeds, and gives it new vertex ids: one
to one, block by block, and with nothing else changed. -/
theorem renumberVertices_isRelabeling (hg : g.Reachable) (previous : Option String) :
    ∃ ranges g' f, g.renumberVertices previous = .ok (ranges, g') ∧
      IsRelabeling f previous g g' := by
  obtain ⟨order, hg⟩ := hg
  have hclosed := hg.isLoaded.closed
  exact ⟨_, _, g.newVertexId, renumberVertices_of_closed hclosed previous,
    isRelabeling_of_closed hclosed previous⟩

/-- The library as it is loaded. -/
def loadLibrary : Except GraphError Graph := do
  let g ← ({} : Graph).addVertices "author" [{ id := 0 }, { id := 2 }]
  let g ← g.addVertices "paper" [{ id := 1 }, { id := 3 }]
  let writes : List EdgeRecord :=
    [{ source := 0, destination := 1 }, { source := 2, destination := 1 }]
  let g ← g.addEdges (some "writes") writes
  g.addEdges (some "cites") [{ source := 1, destination := 3 }]

lemma reachable_library : Reachable Store.library := by
  have hload : loadLibrary = .ok Store.library := by decide +kernel
  obtain ⟨_, hauthors, h⟩ := bind_eq_ok_iff.mp hload
  obtain ⟨_, hpapers, h⟩ := bind_eq_ok_iff.mp h
  obtain ⟨_, hwrites, hcites⟩ := bind_eq_ok_iff.mp h
  have hloaded := (Loaded.empty.addVertices hauthors).addVertices hpapers
  exact ⟨_, (hloaded.addEdges hwrites).addEdges hcites⟩

theorem renumberVertices_isRelabeling_library :
    Store.library.Reachable ∧ ∃ ranges g' f,
      Store.library.renumberVertices (some "id_old") = .ok (ranges, g') ∧
        IsRelabeling f (some "id_old") Store.library g' :=
  ⟨reachable_library, renumberVertices_isRelabeling reachable_library _⟩

end Graph

end TypedGraph
