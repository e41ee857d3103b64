import TypedGraph.Proofs.Agreement
import TypedGraph.Proofs.Localization
import TypedGraph.Store.EdgeIndex

/-!
# Edge indices over parts

An edge index tells the ends of the edges of a type in the order in which the source hands them
out. Over a plain source this is the order of edge ids, and over a partitioned one the edges are
sorted by the part of their id (`edgeIndex_agree`). An end that the element type of ids does not
hold is refused, and the first such end depends on the order.
-/

namespace TypedGraph

open Traversal TypedGraph.Action

/-! ### Edges of a type -/

namespace Graph

variable {g : Graph} {edge : String}

/-- The edges of a type, in the order of their ids. -/
def edgesOf (g : Graph) (edge : String) : List (Int × Edge) :=
  g.edges.entries.filter fun e => e.2.type = some edge

lemma edgeRows_some (columns : Option (List String)) :
    g.edgeRows { types := some [edge], columns } = g.edgesOf edge := by
  rw [edgeRows, edgesOf]
  apply List.filter_congr
  intro e _
  cases htype : e.2.type with
  | none => simp [admits]
  | some t => simp [admits, eq_comm]

/-- Where there is only one edge type, all edges are of it. -/
lemma edgeRows_none (h : g.edgeTypes = [some edge]) (columns : Option (List String)) :
    g.edgeRows { columns } = g.edgesOf edge := by
  rw [edgeRows, edgesOf]
  apply List.filter_congr
  intro e he
  have hmem := type_mem_edgeTypes he
  rw [h, List.mem_singleton] at hmem
  simp [admits, hmem]

end Graph

/-! ### Reading ends -/

lemma Frame.takeColumn_eq_ok {f : Frame} {name other : String} {c d : Column}
    (hc : f.column name = .ok c) (hd : f.column other = .ok d) (hne : name ≠ other) :
    ∃ rest, f.takeColumn name = .ok (c, rest) ∧ rest.column other = .ok d := by
  refine ⟨⟨f.columns.eraseP (·.1 = name)⟩, by rw [takeColumn, hc]; rfl, ?_⟩
  rw [column_eq_ok_iff] at hd ⊢
  rw [← hd]
  congr 1
  show (f.columns.eraseP (·.1 = name)).find? (·.1 = other) = f.columns.find? (·.1 = other)
  -- erasing one name leaves the first column of another name where it is
  induction f.columns with
  | nil => rfl
  | cons e es ih =>
    by_cases he : e.1 = name
    · have hother : e.1 ≠ other := fun h => hne (he.symm.trans h)
      rw [List.eraseP_cons_of_pos (by simpa using he),
        List.find?_cons_of_neg (by simpa using hother)]
    · rw [List.eraseP_cons_of_neg (by simpa using he), List.find?_cons, List.find?_cons, ih]

/-- The ends of some edges: their sources, then their destinations. -/
def ends (rows : List (Int × Edge)) : List Int :=
  rows.map (·.2.source) ++ rows.map (·.2.destination)

/-- The edge index of some edges, in their order. -/
def EdgeIndex.ofRows (t : DType) (device : Device) (d : EdgeDescriptor)
    (rows : List (Int × Edge)) : EdgeIndex where
  source := (Tensor.ofIntsIn t (rows.map (·.2.source))).on device
  destination := (Tensor.ofIntsIn t (rows.map (·.2.destination))).on device
  layout := d.layout
  sorted := d.sorted

namespace Store

variable {s : Store} {g : Graph} {parts : Nat} {host host' : Host}

/-- What a store tells of some edges: their index, unless an end does not fit the element type. -/
def indexOf (s : Store) (d : EdgeDescriptor) (rows : List (Int × Edge)) :
    Except StoreError EdgeIndex :=
  match s.config.vertexDType.misfit? (ends rows) with
  | some n => .error (.tensor (.intOutOfRange n s.config.vertexDType))
  | none => .ok (.ofRows s.config.vertexDType s.device d rows)

/-- The frame that an edge index is read off. -/
def fetchIndex (s : Store) (d : EdgeDescriptor) : Action Frame := do
  if d.layout ≠ .coo then throw (.unsupportedLayout d.layout)
  let types ← .ofExcept (s.edgeFilter d.key.edge)
  .ofFetch s.source.fetchEdges
    { types, columns := some [s.source.columns.source, s.source.columns.destination] }

/-- Reads an edge index off a frame. -/
def readIndex (s : Store) (d : EdgeDescriptor) (f : Frame) : Action EdgeIndex := do
  let (c, f) ← .ofGraph (f.takeColumn s.source.columns.source)
  let source ← .ofTensor (Tensor.ofColumn c)
  let (c, _) ← .ofGraph (f.takeColumn s.source.columns.destination)
  let destination ← .ofTensor (Tensor.ofColumn c)
  let source ← .ofTensor (s.placeIds source)
  let destination ← .ofTensor (s.placeIds destination)
  if source.rows ≠ destination.rows then
    throw (.shapeMismatch (.edges d.key source.rows destination.rows))
  pure ⟨source, destination, d.layout, d.sorted⟩

lemma edgeIndex_eq (s : Store) (d : EdgeDescriptor) :
    s.edgeIndex d = s.fetchIndex d >>= s.readIndex d := by
  rw [edgeIndex, fetchIndex]
  by_cases hlayout : d.layout = .coo
  · rw [if_neg (not_not.mpr hlayout), if_neg (not_not.mpr hlayout), fetchEnds]
    simp only [bind_assoc, pure_bind]
    rfl
  · rw [if_pos hlayout, if_pos hlayout]
    rfl

lemma misfit?_append (t : DType) (xs ys : List Int) :
    t.misfit? (xs ++ ys) = (t.misfit? xs).or (t.misfit? ys) := by
  rw [DType.misfit?, DType.misfit?, DType.misfit?]
  split_ifs
  · rfl
  · rw [List.find?_append]

/-- Placing ids fails on the first that does not fit. -/
lemma placeIds_eq (hint : s.config.vertexDType.isInteger) (xs : List Int) :
    s.placeIds (Tensor.ofInts xs) = match s.config.vertexDType.misfit? xs with
      | some n => .error (.intOutOfRange n s.config.vertexDType)
      | none => .ok ((Tensor.ofIntsIn s.config.vertexDType xs).on s.device) := by
  rw [placeIds, Tensor.cast_ofInts hint]
  cases s.config.vertexDType.misfit? xs <;> rfl

/-- A frame that tells the ends of some edges, row by row. -/
def HasEnds (rows : List (Int × Edge)) (f : Frame) : Prop :=
  f.column Graph.sourceColumn = .ok (.int64 (rows.map (·.2.source))) ∧
    f.column Graph.destinationColumn = .ok (.int64 (rows.map (·.2.destination)))

lemma runOn_placeIds_of_fits (hint : s.config.vertexDType.isInteger) {xs : List Int}
    (h : s.config.vertexDType.misfit? xs = none) (host : Host) :
    (ofTensor (s.placeIds (Tensor.ofInts xs))).runOn host
      = (.ok ((Tensor.ofIntsIn s.config.vertexDType xs).on s.device), host) := by
  rw [placeIds_eq hint, h]
  rfl

lemma runOn_placeIds_of_misfit (hint : s.config.vertexDType.isInteger) {xs : List Int} {n : Int}
    (h : s.config.vertexDType.misfit? xs = some n) (host : Host) :
    (ofTensor (s.placeIds (Tensor.ofInts xs))).runOn host
      = (.error (.tensor (.intOutOfRange n s.config.vertexDType)), host) := by
  rw [placeIds_eq hint, h]
  rfl

/-- A frame with the ends of some edges is read as the index of these edges. -/
lemma runOn_readIndex (hcolumns : s.source.columns = {}) (hint : s.config.vertexDType.isInteger)
    (d : EdgeDescriptor) {rows : List (Int × Edge)} {f : Frame} (hends : HasEnds rows f)
    (host : Host) : (s.readIndex d f).runOn host = (s.indexOf d rows, host) := by
  obtain ⟨hsource, hdestination⟩ := hends
  obtain ⟨rest, htake, hrest⟩ := Frame.takeColumn_eq_ok hsource hdestination (by decide)
  obtain ⟨last, htake'⟩ : ∃ last, rest.takeColumn Graph.destinationColumn
      = .ok (.int64 (rows.map (·.2.destination)), last) := by
    rw [Frame.takeColumn, hrest]
    exact ⟨_, rfl⟩
  have hfirst : (ofGraph (f.takeColumn Graph.sourceColumn)).runOn host
      = (.ok (.int64 (rows.map (·.2.source)), rest), host) := by
    rw [htake]
    rfl
  have hsecond : (ofGraph (rest.takeColumn Graph.destinationColumn)).runOn host
      = (.ok (.int64 (rows.map (·.2.destination)), last), host) := by
    rw [htake']
    rfl
  have hints (xs : List Int) : (ofTensor (Tensor.ofColumn (.int64 xs))).runOn host
      = (.ok (Tensor.ofInts xs), host) := rfl
  rw [readIndex, hcolumns]
  refine (runOn_bind_ok hfirst).trans ?_
  refine (runOn_bind_ok (hints _)).trans ?_
  refine (runOn_bind_ok hsecond).trans ?_
  refine (runOn_bind_ok (hints _)).trans ?_
  rw [indexOf, ends, misfit?_append]
  -- sources are placed first, so a misfit among them hides those among destinations
  cases hs : s.config.vertexDType.misfit? (rows.map (·.2.source)) with
  | some n => exact runOn_bind_error (runOn_placeIds_of_misfit hint hs host)
  | none =>
    refine (runOn_bind_ok (runOn_placeIds_of_fits hint hs host)).trans ?_
    cases hd : s.config.vertexDType.misfit? (rows.map (·.2.destination)) with
    | some n => exact runOn_bind_error (runOn_placeIds_of_misfit hint hd host)
    | none =>
      refine (runOn_bind_ok (runOn_placeIds_of_fits hint hd host)).trans ?_
      simp [Tensor.rows, EdgeIndex.ofRows]

/-- The edges that are fetched for a type are those of the type, by whichever query. -/
lemma edgeRows_of_edgeFilter (hs : Reachable .plain g s) {edge : String}
    {types : Option (List String)} (h : s.edgeFilter edge = .ok types)
    (columns : Option (List String)) : g.edgeRows { types, columns } = g.edgesOf edge := by
  rw [edgeFilter] at h
  -- with one edge type nothing is filtered, since all edges are of it
  cases hsingle : s.edges.single? with
  | some e =>
    obtain ⟨only, entry⟩ := e
    simp only [hsingle] at h
    split_ifs at h with honly
    obtain rfl := Except.ok.inj h
    refine Graph.edgeRows_none ?_ columns
    obtain ⟨hnames, htypes⟩ := hs.edges_names
    rw [htypes, ← hnames, (EdgeCatalog.names_of_single hsingle).2.1, honly]
    rfl
  | none =>
    simp only [hsingle] at h
    obtain ⟨entry, -, rfl⟩ := map_eq_ok_iff.mp h
    exact Graph.edgeRows_some columns

/-- The edges of a type as a partitioned source hands them out. -/
def partRows (parts : Nat) (rows : List (Int × Edge)) : List (Int × Edge) :=
  Sorting.sort (fun a b => Source.partLe (max parts 1) a.1 b.1) rows

lemma ends_partRows_perm (parts : Nat) (rows : List (Int × Edge)) :
    (ends (partRows parts rows)).Perm (ends rows) := by
  have hperm : (partRows parts rows).Perm rows := Sorting.sort_perm _ rows
  exact (hperm.map _).append (hperm.map _)

/-- Whether some integers fit does not depend on their order. -/
lemma misfit?_eq_none_of_perm {t : DType} {xs ys : List Int} (hperm : xs.Perm ys)
    (h : t.misfit? ys = none) : t.misfit? xs = none := by
  rw [DType.misfit?] at h ⊢
  split_ifs at h ⊢
  · rfl
  · rw [List.find?_eq_none] at h ⊢
    intro n hn
    exact h n (hperm.mem_iff.mp hn)

/-- What is told of some edges in the order of their ids and part by part: the same error, the
indices of these edges in both orders, or the first end that does not fit in each order. -/
inductive IndicesAgree (t : DType) (device : Device) (parts : Nat) (d : EdgeDescriptor)
    (rows : List (Int × Edge)) : Except StoreError EdgeIndex → Except StoreError EdgeIndex → Prop
  | refused (e : StoreError) : IndicesAgree t device parts d rows (.error e) (.error e)
  | told (hplain : t.misfit? (ends rows) = none)
    (hparted : t.misfit? (ends (partRows parts rows)) = none) :
    IndicesAgree t device parts d rows (.ok (.ofRows t device d rows))
      (.ok (.ofRows t device d (partRows parts rows)))
  | misfit {n m : Int} (hplain : t.misfit? (ends rows) = some n)
    (hparted : t.misfit? (ends (partRows parts rows)) = some m) :
    IndicesAgree t device parts d rows (.error (.tensor (.intOutOfRange n t)))
      (.error (.tensor (.intOutOfRange m t)))

lemma indexOf_agree (s : Store) (parts : Nat) (d : EdgeDescriptor) (rows : List (Int × Edge)) :
    IndicesAgree s.config.vertexDType s.device parts d rows (s.indexOf d rows)
      (s.indexOf d (partRows parts rows)) := by
  have hperm := ends_partRows_perm parts rows
  rw [indexOf, indexOf]
  cases hplain : s.config.vertexDType.misfit? (ends rows) with
  | none =>
    have hparted := misfit?_eq_none_of_perm hperm hplain
    rw [hparted]
    exact .told hplain hparted
  | some n =>
    cases hparted : s.config.vertexDType.misfit? (ends (partRows parts rows)) with
    | none => simp [misfit?_eq_none_of_perm hperm.symm hparted] at hplain
    | some m => exact .misfit hplain hparted

lemma fetchIndex_agree (hparts : parts < 2 ^ 63) (hs : Reachable .plain g s)
    (d : EdgeDescriptor) :
    Agree (BothOn g) (fun f f' => HasEnds (g.edgesOf d.key.edge) f ∧
        HasEnds (partRows parts (g.edgesOf d.key.edge)) f')
      (s.fetchIndex d) ((s.onSource (.partitioned parts)).fetchIndex d) := by
  rw [fetchIndex, fetchIndex]
  split
  · exact .throw _
  -- both stores filter alike, and then the two fetches hold the same edges
  refine .bind (P := fun types types' => types' = types ∧ s.edgeFilter d.key.edge = .ok types) ?_ ?_
  · refine .ofExcept ?_
    show OutcomesAgree _ (s.edgeFilter d.key.edge) (s.edgeFilter d.key.edge)
    cases s.edgeFilter d.key.edge with
    | error e => rfl
    | ok types => exact ⟨rfl, rfl⟩
  rintro types _ ⟨rfl, hfilter⟩
  rw [hs.source_eq]
  refine (fetchEdges_agree hparts _).mono ?_
  rintro f f' ⟨hfetch, hshuffled⟩
  obtain ⟨-, hsource, hdestination, -⟩ := Graph.fetchEdges_eq_ok hfetch
  rw [edgeRows_of_edgeFilter hs hfilter] at hsource hdestination hshuffled
  refine ⟨⟨hsource, hdestination⟩, ?_, ?_⟩
  · rw [hshuffled.column_eq, hsource, map_ok, Column.pick, pick_map, Source.pick_partOrder]
    rfl
  · rw [hshuffled.column_eq, hdestination, map_ok, Column.pick, pick_map, Source.pick_partOrder]
    rfl

/-- An edge query fails alike over both sources, or it is answered with the edges of its type: in
the order of their ids by a plain source, and by the part of their ids by a partitioned one. -/
lemma edgeIndex_agree (hparts : parts < 2 ^ 63) (hs : Reachable .plain g s)
    (d : EdgeDescriptor) (hhosts : BothOn g host host') :
    IndicesAgree s.config.vertexDType s.device parts d (g.edgesOf d.key.edge)
        ((s.edgeIndex d).runOn host).1
        (((s.onSource (.partitioned parts)).edgeIndex d).runOn host').1 ∧
      BothOn g ((s.edgeIndex d).runOn host).2
        (((s.onSource (.partitioned parts)).edgeIndex d).runOn host').2 := by
  obtain ⟨hout, hleft⟩ := fetchIndex_agree hparts hs d host host' hhosts
  rw [edgeIndex_eq, edgeIndex_eq]
  rcases hx : (s.fetchIndex d).runOn host with ⟨e | f, between⟩ <;>
    rcases hy : ((s.onSource (.partitioned parts)).fetchIndex d).runOn host'
      with ⟨e' | f', between'⟩ <;>
    rw [hx, hy] at hout hleft
  · obtain rfl : e = e' := hout
    rw [runOn_bind_error hx, runOn_bind_error hy]
    exact ⟨.refused e, hleft⟩
  · exact hout.elim
  · exact hout.elim
  · have hread := runOn_readIndex (by rw [hs.source_eq]; rfl) hs.isInteger d hout.1 between
    have hread' : ((s.onSource (.partitioned parts)).readIndex d f').runOn between'
        = (s.indexOf d (partRows parts (g.edgesOf d.key.edge)), between') :=
      runOn_readIndex (s := s.onSource (.partitioned parts)) rfl hs.isInteger d hout.2 between'
    rw [runOn_bind_ok hx, runOn_bind_ok hy, hread, hread']
    exact ⟨s.indexOf_agree parts d _, hleft⟩

end Store

end TypedGraph
