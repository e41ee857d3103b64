import TypedGraph.Proofs.LaterLoads
import TypedGraph.Proofs.OldIds

/-!
# Sequences of calls

Tables are changed in place, by loads and by renumberings in any order. Renumbering vertices empties
the table and fills it again row by row, and may stop on the way; it never does where every edge
ends at vertices (`renumberInPlace_of_closed`). Every call keeps it so. After any calls the next one
either does what it is for or leaves the tables as they were (`performAll_keeps`), and the graphs
that come to be are those that calls leave (`reachable_iff_performAll`).
-/

namespace TypedGraph

open Traversal Json

/-! ### Renumbering in place -/

namespace SortedMap

variable {α : Type}

lemma insert_insert (m : SortedMap Int α) (k : Int) (a b : α) :
    (m.insert k a).insert k b = m.insert k b := by
  refine ext_get? fun k' => ?_
  rw [get?_insert, get?_insert, get?_insert]
  split_ifs <;> rfl

/-- Writing a new value under every key changes all values. -/
lemma insertMany_entries (f : Int → α → α) (m : SortedMap Int α) :
    m.insertMany (m.entries.map fun r => (r.1, f r.1 r.2)) = m.mapValues f := by
  have hkeys : (m.entries.map fun r => (r.1, f r.1 r.2)).Pairwise (·.1 ≠ ·.1) :=
    List.pairwise_map.mpr (m.ascending.imp ne_of_lt)
  refine ext_get? fun k => Option.ext fun a => ?_
  rw [get?_insertMany hkeys, get?_mapValues, Option.map_eq_some_iff]
  constructor
  · rintro (hmem | ⟨hnone, hget⟩)
    · obtain ⟨⟨key, b⟩, hb, heq⟩ := List.mem_map.mp hmem
      obtain ⟨rfl, rfl⟩ := Prod.mk.inj heq
      exact ⟨b, mem_entries_iff.mp hb, rfl⟩
    · exact absurd rfl (hnone _ (List.mem_map_of_mem (mem_entries_iff.mpr hget)))
  · rintro ⟨b, hget, rfl⟩
    exact .inl (List.mem_map_of_mem (f := fun r => (r.1, f r.1 r.2)) (mem_entries_iff.mpr hget))

end SortedMap

namespace Graph

variable {g g' : Graph} {order : List Int} {previous : Option String} {f : Int → Int}

/-- Writes some rows of vertices under their new ids, up to the first that has none. -/
def moveRows (order : List Int) (previous : Option String) (g : Graph) :
    List (Int × Vertex) → Except GraphError Unit × Graph
  | [] => (.ok (), g)
  | (id, v) :: rows =>
    match newId order id with
    | .error e => (.error e, g)
    | .ok new =>
      let row := { v with properties := keepId previous id v.properties }
      moveRows order previous { g with vertices := g.vertices.insert new row } rows

/-- Writes the new ids of the ends of some edges, source first, up to the first that has none. -/
def moveEnds (order : List Int) (g : Graph) : List (Int × Edge) → Except GraphError Unit × Graph
  | [] => (.ok (), g)
  | (id, e) :: rows =>
    match newId order e.source with
    | .error err => (.error err, g)
    | .ok source =>
      let e := { e with source }
      let g := { g with edges := g.edges.insert id e }
      match newId order e.destination with
      | .error err => (.error err, g)
      | .ok destination =>
        moveEnds order { g with edges := g.edges.insert id { e with destination } } rows

/-- Renumbers vertices in place: the outcome, and the tables that are left. -/
def renumberInPlace (g : Graph) (previous : Option String) :
    Except GraphError (List TypeRange) × Graph :=
  let rows := g.verticesByType
  let order := rows.map (·.1)
  match moveRows order previous { g with vertices := .empty } g.vertices.entries with
  | (.error e, g) => (.error e, g)
  | (.ok (), g) =>
    match moveEnds order g g.edges.entries with
    | (.error e, g) => (.error e, g)
    | (.ok (), g) => (.ok (TypeRange.ofNames 0 (rows.map (·.2.type))), g)

lemma moveRows_of_newId {rows : List (Int × Vertex)}
    (h : ∀ r ∈ rows, newId order r.1 = .ok (f r.1)) :
    moveRows order previous g rows = (.ok (), { g with
      vertices := g.vertices.insertMany (rows.map fun r =>
        (f r.1, { r.2 with properties := keepId previous r.1 r.2.properties })) }) := by
  induction rows generalizing g with
  | nil => rfl
  | cons r rows ih =>
    obtain ⟨hr, hrows⟩ := List.forall_mem_cons.mp h
    rw [moveRows, hr]
    exact ih hrows

lemma moveEnds_of_newId {rows : List (Int × Edge)}
    (h : ∀ r ∈ rows, newId order r.2.source = .ok (f r.2.source) ∧
      newId order r.2.destination = .ok (f r.2.destination)) :
    moveEnds order g rows = (.ok (), { g with
      edges := g.edges.insertMany (rows.map fun r => (r.1, r.2.move f)) }) := by
  induction rows generalizing g with
  | nil => rfl
  | cons r rows ih =>
    obtain ⟨⟨hsource, hdestination⟩, hrows⟩ := List.forall_mem_cons.mp h
    rw [moveEnds, hsource]
    dsimp only
    rw [hdestination]
    dsimp only
    rw [ih hrows, SortedMap.insert_insert]
    rfl

/-- The rows of all vertices under their new ids are the renumbered table, in whatever order they
are written. -/
lemma ofList_moved (hg : g.Closed) (previous : Option String) :
    SortedMap.ofList (g.vertices.entries.map fun r =>
      (g.newVertexId r.1, { r.2 with properties := keepId previous r.1 r.2.properties }))
        = g.vertexTable previous := by
  have hrelabeling := isRelabeling_of_closed hg previous
  have hkeys : (g.vertices.entries.map fun r =>
      (g.newVertexId r.1, { r.2 with properties := keepId previous r.1 r.2.properties
        -- new ids are distinct, so no row is written over another one
        : Vertex })).Pairwise (·.1 ≠ ·.1) := by
    refine List.pairwise_map.mpr (g.vertices.ascending.imp_of_mem fun ha hb hlt heq => ?_)
    exact hlt.ne (hrelabeling.bijOn.injOn (List.mem_map_of_mem ha) (List.mem_map_of_mem hb) heq)
  refine SortedMap.ext_get? fun k => Option.ext fun a => ?_
  rw [SortedMap.get?_ofList hkeys, List.mem_map]
  constructor
  · rintro ⟨⟨id, v⟩, hmem, heq⟩
    obtain ⟨rfl, rfl⟩ := Prod.mk.inj heq
    exact get?_vertexTable previous (SortedMap.mem_entries_iff.mp hmem)
  · intro hget
    obtain ⟨id, v, hv, rfl, -⟩ := hrelabeling.exists_vertex hget
    obtain rfl := Option.some.inj ((get?_vertexTable previous hv).symm.trans hget)
    exact ⟨(id, v), SortedMap.mem_entries_iff.mpr hv, rfl⟩

lemma moveRows_of_closed (hg : g.Closed) (previous : Option String) :
    moveRows (g.verticesByType.map (·.1)) previous { g with vertices := .empty }
      g.vertices.entries = (.ok (), { g with vertices := g.vertexTable previous }) := by
  have hids : ∀ r ∈ g.vertices.entries,
      newId (g.verticesByType.map (·.1)) r.1 = .ok (g.newVertexId r.1) :=
    fun r hr => newId_eq_ok (List.mem_map_of_mem hr)
  rw [moveRows_of_newId hids, ← ofList_moved hg]
  rfl

lemma moveEnds_of_closed (hg : g.Closed) (vertices : SortedMap Int Vertex) :
    moveEnds (g.verticesByType.map (·.1)) { g with vertices } g.edges.entries = (.ok (),
      { g with vertices, edges := g.edges.mapValues fun _ e => e.move g.newVertexId }) := by
  have hids : ∀ r ∈ g.edges.entries,
      newId (g.verticesByType.map (·.1)) r.2.source = .ok (g.newVertexId r.2.source) ∧
        newId (g.verticesByType.map (·.1)) r.2.destination
          = .ok (g.newVertexId r.2.destination) := by
    intro r hr
    obtain ⟨hsource, hdestination⟩ := hg r.1 r.2 (SortedMap.mem_entries_iff.mp hr)
    exact ⟨newId_eq_ok hsource, newId_eq_ok hdestination⟩
  rw [moveEnds_of_newId hids, ← SortedMap.insertMany_entries]

/-- Where every edge ends at vertices, renumbering in place goes through. -/
theorem renumberInPlace_of_closed (hg : g.Closed) (previous : Option String) :
    ∃ ranges g', g.renumberVertices previous = .ok (ranges, g') ∧
      g.renumberInPlace previous = (.ok ranges, g') := by
  refine ⟨_, _, renumberVertices_of_closed hg previous, ?_⟩
  rw [renumberInPlace, moveRows_of_closed hg]
  dsimp only
  rw [moveEnds_of_closed hg]

/-- A loose end stops the renumbering when the vertices have moved already. -/
example :
    let g : Graph :=
      ⟨.ofList [(5, { type := "page" })], .ofList [(0, ⟨5, 9, none, .empty⟩)], 1⟩
    (g.renumberInPlace none).1 = .error (.unknownVertex 9) ∧
      (g.renumberInPlace none).2.vertices.keys = [0] := by
  decide +kernel

end Graph

/-! ### Calls -/

/-- A call that changes the tables. -/
inductive Call where
  | addVertices (type : String) (rs : List VertexRecord)
  | addEdges (type : Option String) (rs : List EdgeRecord)
  | renumberVertices (previous : Option String)
  | renumberEdges (previous : Option String)

namespace Call

/-- How many edges a call adds if it succeeds. -/
def added : Call → Nat
  | .addEdges _ rs => rs.length
  | _ => 0

/-- The calls that give new ids. -/
inductive IsRenumbering : Call → Prop where
  | vertices (previous : Option String) : IsRenumbering (.renumberVertices previous)
  | edges (previous : Option String) : IsRenumbering (.renumberEdges previous)

end Call

namespace Graph

variable {g g' : Graph} {c : Call} {cs : List Call} {order : List Int}

/-- What a load gives. It checks all records before it writes any, and hands back no blocks. -/
def afterLoad (g : Graph) : Except GraphError Graph → Except GraphError (List TypeRange) × Graph
  | .ok g' => (.ok [], g')
  | .error e => (.error e, g)

/-- The outcome of a call, and the tables that it leaves. -/
def perform (g : Graph) : Call → Except GraphError (List TypeRange) × Graph
  | .addVertices type rs => g.afterLoad (g.addVertices type rs)
  | .addEdges type rs => g.afterLoad (g.addEdges type rs)
  | .renumberVertices previous => g.renumberInPlace previous
  | .renumberEdges previous => (.ok (g.renumberEdges previous).1, (g.renumberEdges previous).2)

/-- What some calls leave of a graph, one after the other, those that fail included. -/
def performAll (g : Graph) (cs : List Call) : Graph := cs.foldl (fun g c => (g.perform c).2) g

/-! ### The invariant -/

/-- Every edge is between vertices, and has an id from zero on that is below the next one. -/
structure IsSound (g : Graph) : Prop where
  closed : g.Closed
  ids : ∀ id ∈ g.edges.keys, 0 ≤ id ∧ id < g.nextEdgeId

/-- Ids of edges are from zero on, and so is the next one. -/
structure HasNaturalIds (g : Graph) : Prop where
  ids : ∀ id ∈ g.edges.keys, 0 ≤ id
  next : 0 ≤ g.nextEdgeId

lemma HasNaturalIds.putEdges (h : g.HasNaturalIds) (type : Option String) (rs : List EdgeRecord) :
    (g.putEdges type rs).HasNaturalIds := by
  induction rs generalizing g with
  | nil => exact h
  | cons r rs ih =>
    refine ih ⟨fun id hid => ?_, h.next.trans (Int.le_add_one (le_refl _))⟩
    rcases SortedMap.mem_keys_insert.mp hid with rfl | hid
    · exact h.next
    · exact h.ids id hid

lemma Loaded.hasNaturalIds (h : Loaded g order) : g.HasNaturalIds := by
  -- the induction is on how the graph came to be; only loading edges uses up ids
  induction h with
  | empty => exact ⟨by simp [SortedMap.keys], le_refl 0⟩
  | addVertices _ h ih =>
    obtain ⟨hedges, hnext⟩ := edges_addVertices h
    exact ⟨by rw [hedges]; exact ih.ids, by rw [hnext]; exact ih.next⟩
  | addEdges _ h ih =>
    obtain ⟨-, rfl⟩ := addEdges_eq_ok h
    exact ih.putEdges _ _
  | renumberVertices hg h ih =>
    have hrelabeling := isRelabeling_of_eq_ok hg.isLoaded.closed h
    refine ⟨?_, by rw [hrelabeling.nextEdgeId]; exact ih.next⟩
    rw [hrelabeling.edges, SortedMap.keys_mapValues]
    exact ih.ids
  | @renumberEdges g _ _ previous _ =>
    refine ⟨fun id hid => ?_, Int.natCast_nonneg _⟩
    rw [keys_renumberEdges, mem_intRange] at hid
    exact hid.1

lemma Reachable.isSound (h : g.Reachable) : g.IsSound := by
  obtain ⟨order, hloaded⟩ := h
  exact ⟨hloaded.isLoaded.closed, fun id hid =>
    ⟨hloaded.hasNaturalIds.ids id hid, hloaded.isLoaded.fresh id hid⟩⟩

/-- Every call over a graph that comes to be leaves one that does. -/
lemma Reachable.perform (hg : g.Reachable) (c : Call) : (g.perform c).2.Reachable := by
  obtain ⟨order, hloaded⟩ := hg
  cases c with
  | addVertices type rs =>
    rw [Graph.perform]
    cases h : g.addVertices type rs with
    | error e => exact ⟨_, hloaded⟩
    | ok g' => exact ⟨_, hloaded.addVertices h⟩
  | addEdges type rs =>
    rw [Graph.perform]
    cases h : g.addEdges type rs with
    | error e => exact ⟨_, hloaded⟩
    | ok g' => exact ⟨_, hloaded.addEdges h⟩
  | renumberVertices previous =>
    obtain ⟨ranges, g', h, hplace⟩ := renumberInPlace_of_closed hloaded.isLoaded.closed previous
    rw [Graph.perform, hplace]
    exact ⟨_, hloaded.renumberVertices h⟩
  | renumberEdges previous => exact ⟨_, hloaded.renumberEdges previous⟩

lemma Reachable.performAll (hg : g.Reachable) (cs : List Call) : (g.performAll cs).Reachable := by
  induction cs generalizing g with
  | nil => exact hg
  | cons c cs ih => exact ih (hg.perform c)

/-- The graphs that come to be are those that calls leave of the empty one. -/
theorem reachable_iff_performAll : g.Reachable ↔ ∃ cs, g = ({} : Graph).performAll cs := by
  constructor
  · rintro ⟨order, hloaded⟩
    have hcall {h h' : Graph} {c : Call} (hh : ∃ cs, h = ({} : Graph).performAll cs)
        (hc : (h.perform c).2 = h') : ∃ cs, h' = ({} : Graph).performAll cs := by
      obtain ⟨cs, rfl⟩ := hh
      exact ⟨cs ++ [c], by rw [Graph.performAll, List.foldl_append, ← hc]; rfl⟩
    induction hloaded with
    | empty => exact ⟨[], rfl⟩
    | @addVertices _ _ _ type rs _ h ih =>
      exact hcall (c := .addVertices type rs) ih (by rw [Graph.perform, h]; rfl)
    | @addEdges _ _ _ type rs _ h ih =>
      exact hcall (c := .addEdges type rs) ih (by rw [Graph.perform, h]; rfl)
    | @renumberVertices _ _ _ previous _ hg h ih =>
      obtain ⟨ranges, g', h', hplace⟩ := renumberInPlace_of_closed hg.isLoaded.closed previous
      obtain ⟨rfl, rfl⟩ := Prod.mk.inj (Except.ok.inj (h'.symm.trans h))
      exact hcall (c := .renumberVertices previous) ih (by rw [Graph.perform, hplace])
    | renumberEdges _ previous ih => exact hcall (c := .renumberEdges previous) ih rfl
  · rintro ⟨cs, rfl⟩
    exact Reachable.performAll ⟨_, .empty⟩ cs

/-! ### What one call does -/

/-- The rows of vertices are still there, each with its type, under ids that a map gives. -/
structure MovesVertices (f : Int → Int) (g g' : Graph) : Prop where
  injOn : Set.InjOn f {id | id ∈ g.vertices.keys}
  rows : ∀ id v, g.vertices.get? id = some v →
    ∃ v', g'.vertices.get? (f id) = some v' ∧ v'.type = v.type

/-- What a call keeps, by its outcome and the tables that it leaves. -/
structure Keeps (c : Call) (g : Graph) (result : Except GraphError (List TypeRange) × Graph) :
    Prop where
  /-- A call that fails changes nothing. -/
  failure : ∀ e, result.1 = .error e → result.2 = g
  /-- Renumbering does not fail. -/
  renumbers : c.IsRenumbering → ∃ ranges, result.1 = .ok ranges
  /-- A vertex has the type that it had, under the id that it had unless vertices are renumbered. -/
  vertices : ∃ f, MovesVertices f g result.2 ∧
    ((∀ previous, c ≠ .renumberVertices previous) → ∀ id, f id = id)
  /-- As many edges come to be as a load of edges has records, and with any other call none. -/
  size : result.2.edges.size = g.edges.size + if result.1.toOption.isSome then c.added else 0
  /-- A load of edges keeps the edges that are there. -/
  edges : ∀ type rs, c = .addEdges type rs →
    ∀ id e, g.edges.get? id = some e → result.2.edges.get? id = some e

lemma MovesVertices.of_vertices_eq (h : g'.vertices = g.vertices) :
    MovesVertices (fun id => id) g g' where
  injOn := Set.injOn_id _
  rows _ v hv := ⟨v, by rw [h, hv], rfl⟩

/-- Adding to the properties of a vertex, or adding a vertex, changes no type. -/
lemma movesVertices_putVertex (g : Graph) (type : String) (r : VertexRecord) :
    MovesVertices (fun id => id) g (g.putVertex type r) where
  injOn := Set.injOn_id _
  rows id v hv := by
    rw [putVertex, SortedMap.get?_alter]
    split_ifs with hid
    · rw [← hid, hv]
      exact ⟨_, rfl, rfl⟩
    · exact ⟨v, hv, rfl⟩

lemma MovesVertices.trans {g'' : Graph} (h : MovesVertices (fun id => id) g g')
    (h' : MovesVertices (fun id => id) g' g'') : MovesVertices (fun id => id) g g'' where
  injOn := Set.injOn_id _
  rows id v hv := by
    obtain ⟨v', hv', htype⟩ := h.rows id v hv
    obtain ⟨v'', hv'', htype'⟩ := h'.rows id v' hv'
    exact ⟨v'', hv'', htype'.trans htype⟩

lemma movesVertices_addVertices {type : String} {rs : List VertexRecord}
    (h : g.addVertices type rs = .ok g') : MovesVertices (fun id => id) g g' := by
  rw [addVertices] at h
  split at h
  · cases h
  · rename_i hfree
    obtain rfl := Except.ok.inj h
    clear h hfree
    induction rs generalizing g with
    | nil => exact .of_vertices_eq rfl
    | cons r rs ih => exact (movesVertices_putVertex g type r).trans ih

lemma vertices_putEdges (g : Graph) (type : Option String) (rs : List EdgeRecord) :
    (g.putEdges type rs).vertices = g.vertices := by
  induction rs generalizing g with
  | nil => rfl
  | cons r rs ih => exact ih (g.putEdge type r)

lemma IsRelabeling.movesVertices {f : Int → Int} {previous : Option String}
    (h : IsRelabeling f previous g g') : MovesVertices f g g' where
  injOn := h.bijOn.injOn
  rows id v hv := by
    obtain ⟨v', hv', htype, -⟩ := h.vertices id v hv
    exact ⟨v', hv', htype⟩

lemma HasFreshId.size_putEdges (h : g.HasFreshId) (type : Option String) (rs : List EdgeRecord) :
    (g.putEdges type rs).edges.size = g.edges.size + rs.length := by
  have hsize (table : SortedMap Int Edge) : table.size = table.values.length :=
    (List.length_map _).symm
  rw [hsize, (h.putEdges type rs).values, List.length_append, ← hsize, Load.added, List.length_map]

lemma size_renumberEdges (g : Graph) (previous : Option String) :
    (g.renumberEdges previous).2.edges.size = g.edges.size := by
  rw [renumberEdges, size_enumerate, List.length_map, g.edgesByType_perm.length_eq]
  rfl

lemma keeps_self {e : GraphError} (hc : ¬ c.IsRenumbering) : Keeps c g (.error e, g) where
  failure _ _ := rfl
  renumbers h := absurd h hc
  vertices := ⟨_, .of_vertices_eq rfl, fun _ _ => rfl⟩
  size := rfl
  edges _ _ _ _ _ h := h

/-- A call over a sound graph either fails and changes nothing, or does what it is for. -/
theorem IsSound.keeps (hg : g.IsSound) (c : Call) : Keeps c g (g.perform c) := by
  have hfresh : g.HasFreshId := fun id hid => (hg.ids id hid).2
  -- a call that can fail has changed nothing by then; the others are told by their own lemmas
  cases c with
  | addVertices type rs =>
    rw [perform]
    cases h : g.addVertices type rs with
    | error e => exact keeps_self (by rintro ⟨⟩)
    | ok g' =>
      obtain ⟨hedges, -⟩ := edges_addVertices h
      refine ⟨by rintro e ⟨⟩, by rintro ⟨⟩, ⟨_, movesVertices_addVertices h, fun _ _ => rfl⟩, ?_,
        by rintro _ _ ⟨⟩⟩
      show g'.edges.size = _
      rw [hedges]
      rfl
  | addEdges type rs =>
    rw [perform]
    cases h : g.addEdges type rs with
    | error e => exact keeps_self (by rintro ⟨⟩)
    | ok g' =>
      obtain ⟨-, rfl⟩ := addEdges_eq_ok h
      refine ⟨by rintro e ⟨⟩, by rintro ⟨⟩,
        ⟨_, .of_vertices_eq (g.vertices_putEdges type rs), fun _ _ => rfl⟩,
        hfresh.size_putEdges type rs, fun _ _ _ id e he => ?_⟩
      -- new edges get ids from the next one on, so those that are there stay
      have hlt := hfresh id (SortedMap.mem_keys_iff.mpr ⟨e, he⟩)
      exact (get?_putEdges_of_lt type rs hlt).trans he
  | renumberVertices previous =>
    obtain ⟨ranges, g', h, hplace⟩ := renumberInPlace_of_closed hg.closed previous
    have hrelabeling := isRelabeling_of_eq_ok hg.closed h
    rw [perform, hplace]
    refine ⟨by rintro e ⟨⟩, fun _ => ⟨ranges, rfl⟩,
      ⟨_, hrelabeling.movesVertices, fun hne => absurd rfl (hne previous)⟩, ?_, by rintro _ _ ⟨⟩⟩
    show g'.edges.size = _
    rw [hrelabeling.edges]
    exact List.length_map _
  | renumberEdges previous =>
    exact ⟨by rintro e ⟨⟩, fun _ => ⟨_, rfl⟩, ⟨_, .of_vertices_eq rfl, fun _ _ => rfl⟩,
      g.size_renumberEdges previous, by rintro _ _ ⟨⟩⟩

/-- After any calls, failing ones included, every edge is between vertices and has an id from zero
on that is below the next one. The next call fails without a change, or does what it is for:
renumberings never fail, vertices keep their types, and a load of edges adds as many as it has
records. -/
theorem performAll_keeps (cs : List Call) (c : Call) :
    (({} : Graph).performAll cs).IsSound ∧
      Keeps c (({} : Graph).performAll cs) ((({} : Graph).performAll cs).perform c) := by
  have hsound := (Reachable.performAll ⟨_, .empty⟩ cs).isSound
  exact ⟨hsound, hsound.keeps c⟩

end Graph

end TypedGraph
