import TypedGraph.Proofs.FeatureShortcuts

/-!
# Gathered tensors

Every tensor that a store hands out is gathered from its tables (`gathers_of_tensor`): the request
is completed from the catalog, its vertices and properties are settled, the rows of these vertices
are fetched, and each of them has a row. So what a tensor tells of a vertex under a property is read
off the column that the property makes over the vertices of the request (`Gathers.column`).
-/

namespace TypedGraph

open Traversal TypedGraph.Action

/-! ### Rows of vertices -/

namespace Graph

variable {g : Graph} {q : Query} {id : Int}

/-- A vertex among the rows has one, which holds the vertex. -/
lemma exists_row (h : id ∈ (g.vertexRows q).map (·.1)) :
    ∃ (row : Nat) (v : Vertex), (g.vertexRows q)[row]? = some (id, v) ∧
      g.vertices.get? id = some v := by
  obtain ⟨⟨_, v⟩, hmem, rfl⟩ := List.mem_map.mp h
  obtain ⟨row, hrow⟩ := List.mem_iff_getElem?.mp hmem
  exact ⟨row, v, hrow, get?_of_mem_vertexRows hmem⟩

end Graph

namespace Store

variable {s : Store} {g : Graph} {d d' : TensorDescriptor} {host : Host} {ids : List Int}
variable {names : List String} {name : String} {id : Int} {f : Frame} {t : Tensor}

/-! ### From requests to tensors -/

/-- A request whose settings can be inferred is answered as the inferred one. -/
lemma runOn_tensor_of_infer (hinfer : s.tensors.infer d = .ok d') (host : Host) :
    (s.tensor d).runOn host = if d'.isComplete then (s.tensor d').runOn host
      else (.error (.value (.incomplete d')), host) := by
  rw [tensor, hinfer]
  refine (runOn_bind_ok (runOn_ofExcept _ host)).trans ?_
  by_cases hd : d'.isComplete
  · rw [if_pos hd, runOn_tensor_of_complete hd, hd]
    rfl
  · rw [if_neg hd, Bool.eq_false_of_not_eq_true hd]
    rfl

lemma infer_of_tensor (h : ((s.tensor d).runOn host).1 = .ok t) :
    ∃ d', s.tensors.infer d = .ok d' := by
  cases hinfer : s.tensors.infer d with
  | ok d' => exact ⟨d', rfl⟩
  | error e =>
    have hrun : (s.tensor d).runOn host = (.error e, host) := by
      rw [tensor, hinfer]
      exact runOn_bind_error (runOn_ofExcept _ host)
    simp [hrun] at h

/-- The rows that are fetched for some vertices by a request. -/
def requestedRows (s : Store) (g : Graph) (d : TensorDescriptor) (ids : List Int) :
    List (Int × Vertex) :=
  g.vertexRows { ids := some ids, types := s.requestedTypes d }

/-- A tensor comes of a request in which nothing is open, for some vertices and properties, by a
frame that is fetched from the tables. -/
structure Gathers (s : Store) (g : Graph) (d : TensorDescriptor) (ids : List Int)
    (names : List String) (f : Frame) (t : Tensor) : Prop where
  complete : d.isComplete
  requested : s.requestedIds d = .ok ids
  named : d.properties.flat = some names
  fetched : g.fetchVertices
    { ids := some ids, types := s.requestedTypes d, columns := s.requestedColumns d names } = .ok f
  gathered : s.gather d ((s.requestedRows g d ids).map (·.1)) ids names f = .ok t

/-- Every tensor that a store hands out is gathered from its tables. -/
theorem gathers_of_tensor (hsource : FetchesRows s.source) (hinfer : s.tensors.infer d = .ok d')
    (h : ((s.tensor d).runOn host).1 = .ok t) :
    ∃ ids names f, s.Gathers host.graph d' ids names f t := by
  rw [runOn_tensor_of_infer hinfer] at h
  split_ifs at h with hd
  rw [outcome_tensor hsource hd] at h
  obtain ⟨ids, names, hids, hnames⟩ := requested_of_ok h
  obtain ⟨f, hf, hgather⟩ := (tensorOver_eq_ok_iff hids hnames).mp h
  exact ⟨ids, names, f, hd, hids, hnames, hf, hgather⟩

namespace Gathers

variable (h : s.Gathers g d ids names f t)

include h

lemma hasVertices : f.HasVertices ((s.requestedRows g d ids).map (·.1)) := by
  have hrows := hasVertices_of_fetchVertices h.fetched
  exact hrows

/-- Each vertex of the request has a row. -/
lemma mem_rows (hid : id ∈ ids) : id ∈ (s.requestedRows g d ids).map (·.1) := by
  obtain ⟨rows, hrows, -⟩ := bind_eq_ok_iff.mp h.gathered
  obtain ⟨row, hrow⟩ := ok_of_mapM_eq_ok hrows hid
  exact List.mem_of_getElem? ((rowOf_eq_ok_iff h.hasVertices.nodup).mp hrow)

/-- The columns of a tensor are numeric, and each is that of its name over the rows. -/
lemma column (hname : name ∈ names) : ∃ c, c.dtype? ≠ none ∧ f.column name = .ok c ∧
    g.columnOver (s.requestedRows g d ids) name = .ok c := by
  have hne : names ≠ [] := List.ne_nil_of_mem hname
  obtain ⟨-, fs, -, -, hselect, hnumeric, -⟩ := gather_eq_ok h.hasVertices hne h.gathered
  have hasked : ∀ asked, s.requestedColumns d names = some asked → name ∈ asked := by
    intro asked h
    simp only [requestedColumns, Option.ite_none_left_eq_some] at h
    exact Option.some.inj h.2 ▸ hname
  have hcolumn := Graph.column_of_fetchVertices h.fetched hasked
  obtain ⟨cs, hcs, rfl⟩ := map_eq_ok_iff.mp hselect
  obtain ⟨e, he⟩ := ok_of_mapM_eq_ok hcs hname
  obtain ⟨c, hc, rfl⟩ := map_eq_ok_iff.mp he
  have hmem : (name, c) ∈ cs := (mem_iff_of_mapM_eq_ok hcs).mpr ⟨name, hname, he⟩
  exact ⟨c, hnumeric (name, c) hmem, hc, hcolumn.symm.trans hc⟩

/-- What a tensor tells is read off the frame. -/
lemma answers (hne : names ≠ []) : f.Answers ids names d.dtype.flat t :=
  answers_of_gather h.hasVertices hne h.gathered

end Gathers

end Store

end TypedGraph
