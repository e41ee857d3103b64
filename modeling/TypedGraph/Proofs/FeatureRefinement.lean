import TypedGraph.Proofs.Agreement
import TypedGraph.Store.Features

/-!
# Feature tensors over parts

The rows of a feature tensor are looked up by id among the rows that a fetch hands out, so they come
out in the order of the request whatever the order of the fetch (`rowOf_agree`). Tensors over a
partitioned source are those over the plain one (`fetchTensor_agree`, `tensor_agree`).
-/

namespace TypedGraph.Store

open Traversal TypedGraph.Action

/-! ### Rows by id -/

section Rows

variable {stored : List Int} {order : List Nat} {group : Option String} {id : Int} {r : Nat}

/-- Among distinct ids a row is found exactly where its id is. -/
lemma rowOf_eq_ok_iff (hnodup : stored.Nodup) :
    rowOf stored group id = .ok r ↔ stored[r]? = some id := by
  rw [rowOf]
  cases hfind : stored.zipIdx.reverse.find? (·.1 = id) with
  | some p =>
    have hp : stored[p.2]? = some id := by
      have hid : p.1 = id := by simpa using List.find?_some hfind
      have hmem := List.mem_reverse.mp (List.mem_of_find?_eq_some hfind)
      rw [List.mem_zipIdx_iff_getElem?.mp hmem, hid]
    constructor
    · intro h
      obtain rfl : p.2 = r := Except.ok.inj h
      exact hp
    · intro h
      have hlt : p.2 < stored.length := (List.getElem?_eq_some_iff.mp hp).1
      exact congrArg Except.ok ((List.getElem?_inj hlt hnodup).mp (hp.trans h.symm))
  | none =>
    simp only [List.find?_eq_none, List.mem_reverse, List.mem_zipIdx_iff_getElem?] at hfind
    constructor
    · intro h
      simp at h
    · intro h
      exact absurd (hfind (id, r) h) (by simp)

lemma rowOf_of_notMem (h : id ∉ stored) :
    rowOf stored group id = .error (.lookup (.missingRow id group)) := by
  rw [rowOf]
  have hnone : stored.zipIdx.reverse.find? (·.1 = id) = none := by
    simp only [List.find?_eq_none, List.mem_reverse, List.mem_zipIdx_iff_getElem?]
    intro p hp hid
    have hid : p.1 = id := by simpa using hid
    exact h (List.mem_of_getElem? (hid ▸ hp))
  rw [hnone]

/-- A row is found in any order of the ids, at the place where the order puts it. -/
lemma rowOf_agree (hnodup : stored.Nodup) (hperm : order.Perm (List.range stored.length))
    (group : Option String) (id : Int) :
    OutcomesAgree (fun r r' => order[r']? = some r) (rowOf stored group id)
      (rowOf (pick stored order) group id) := by
  have hpicked : (pick stored order).Perm stored := pick_perm hperm
  by_cases hmem : id ∈ stored
  · obtain ⟨r, hr⟩ := List.mem_iff_getElem?.mp hmem
    obtain ⟨r', hr'⟩ := List.mem_iff_getElem?.mp (hpicked.mem_iff.mpr hmem)
    rw [(rowOf_eq_ok_iff hnodup).mpr hr,
      (rowOf_eq_ok_iff (hpicked.nodup_iff.mpr hnodup)).mpr hr']
    have hlt : ∀ row ∈ order, row < stored.length := by
      intro row hrow
      exact List.mem_range.mp (hperm.mem_iff.mp hrow)
    rw [getElem?_pick hlt, Option.bind_eq_some_iff] at hr'
    obtain ⟨row, horder, hrow⟩ := hr'
    have hlt' : row < stored.length := (List.getElem?_eq_some_iff.mp hrow).1
    obtain rfl : row = r := (List.getElem?_inj hlt' hnodup).mp (hrow.trans hr.symm)
    exact horder
  · rw [rowOf_of_notMem hmem, rowOf_of_notMem (fun h => hmem (hpicked.mem_iff.mp h))]
    rfl

/-- Rows that stand beside their places in an order are picked from it by these. -/
lemma pick_eq_of_forall₂ {rows rows' : List Nat}
    (h : List.Forall₂ (fun r r' => order[r']? = some r) rows rows') : pick order rows' = rows := by
  induction h with
  | nil => rfl
  | cons hr _ ih =>
    obtain ⟨hlt, hget⟩ := List.getElem?_eq_some_iff.mp hr
    rw [pick_cons hlt, hget, ih]

end Rows

/-! ### Rows in the order of a request -/

section Frames

variable {idColumn : String} {stored : List Int} {order : List Nat} {f f' : Frame}

lemma select_agree (h : Shuffled idColumn stored order f f') (names : List String) :
    OutcomesAgree (fun fs fs' => fs.Even stored.length ∧ fs' = fs.pick order)
      ((f.select names).mapError StoreError.graph)
      ((f'.select names).mapError StoreError.graph) := by
  rw [h.eq, Frame.select_pick]
  cases hselect : f.select names with
  | error e => rfl
  | ok fs => exact ⟨Frame.even_select h.even hselect, rfl⟩

/-- Taking a row where the order put it gives the row. -/
lemma take_agree (h : Shuffled idColumn stored order f f') {fs : Frame}
    (heven : fs.Even stored.length) {rows rows' : List Nat}
    (hrows : List.Forall₂ (fun r r' => order[r']? = some r) rows rows') :
    OutcomesAgree Eq ((fs.take rows).mapError StoreError.graph)
      (((fs.pick order).take rows').mapError StoreError.graph) := by
  have hlt : ∀ row ∈ rows, row < stored.length := by
    intro row hrow
    rw [← pick_eq_of_forall₂ hrows] at hrow
    exact h.order_lt row (mem_of_mem_pick hrow)
  have hlt' : ∀ row ∈ rows', row < order.length := by
    clear hlt
    induction hrows with
    | nil => simp
    | cons hr _ ih => exact List.forall_mem_cons.mpr ⟨(List.getElem?_eq_some_iff.mp hr).1, ih⟩
  have heven' : (fs.pick order).Even order.length := Frame.even_pick heven h.order_lt
  rw [Frame.take_eq_pick heven hlt, Frame.take_eq_pick heven' hlt',
    Frame.pick_pick heven h.order_lt, pick_eq_of_forall₂ hrows]
  rfl

end Frames

/-! ### Tensors -/

variable {g : Graph} {s : Store} {parts : Nat}

lemma fetchTensor_agree (hparts : parts < 2 ^ 63) (hs : s.source = .plain) (d : TensorDescriptor) :
    Agree (BothOn g) Eq (s.fetchTensor d)
      ((s.onSource (.partitioned parts)).fetchTensor d) := by
  obtain ⟨source, device, config, offsets, edges, tensors, subgraphs, oldVertex, oldEdge⟩ := s
  obtain rfl : source = .plain := hs
  rw [fetchTensor, fetchTensor]
  cases d.properties.flat with
  | none => exact .throw _
  | some properties =>
    refine .bind (.pure (rfl : properties = properties)) ?_
    rintro properties _ rfl
    refine .bind (.ofExcept (.of_eq (fun _ => rfl) _)) ?_
    rintro ids _ rfl
    refine .bind (fetchVertices_agree hparts _) ?_
    rintro f f' ⟨stored, order, h⟩
    -- both find their ids, in two orders, and take rows by the places of ids
    have hcolumn : ofGraph (f.column Graph.vertexColumn) = .ofExcept (.ok (.int64 stored)) := by
      rw [h.column]
      rfl
    have hcolumn' : ofGraph (f'.column Graph.vertexColumn)
        = .ofExcept (.ok (.int64 (pick stored order))) := by
      rw [h.column_eq, h.column]
      rfl
    show Agree _ _ (ofGraph (f.column Graph.vertexColumn) >>= _)
      (ofGraph (f'.column Graph.vertexColumn) >>= _)
    rw [hcolumn, hcolumn']
    refine .bind (Q := Eq) (P := fun c c' => c = .int64 stored ∧ c' = .int64 (pick stored order))
      (.ofExcept ⟨rfl, rfl⟩) ?_
    rintro _ _ ⟨rfl, rfl⟩
    refine .bind (P := fun xs xs' => xs = stored ∧ xs' = pick stored order) (.pure ⟨rfl, rfl⟩) ?_
    rintro _ _ ⟨rfl, rfl⟩
    refine .bind (.ofExcept (.mapM (rowOf_agree h.nodup h.perm d.group.flat) ids)) ?_
    intro rows rows' hrows
    refine .bind (.ofExcept (select_agree h properties)) ?_
    rintro fs _ ⟨heven, rfl⟩
    refine .bind (.ofExcept (take_agree h heven hrows)) ?_
    rintro picked _ rfl
    refine .bind (.ofExcept (.of_eq (fun _ => rfl) _)) ?_
    rintro t _ rfl
    cases d.dtype.flat with
    | some dtype =>
      refine .bind (.ofExcept (.of_eq (fun _ => rfl) _)) ?_
      rintro t _ rfl
      exact .pure rfl
    | none => exact .pure rfl

lemma tensor_agree (hparts : parts < 2 ^ 63) (hs : s.source = .plain) (d : TensorDescriptor) :
    Agree (BothOn g) Eq (s.tensor d) ((s.onSource (.partitioned parts)).tensor d) := by
  refine .bind (.ofExcept (.of_eq (fun _ => rfl) (s.tensors.infer d))) ?_
  rintro d _ rfl
  split
  · exact .throw _
  · exact fetchTensor_agree hparts hs d

lemma tensorBatch_agree (hparts : parts < 2 ^ 63) (hs : s.source = .plain)
    (ds : List TensorDescriptor) :
    Agree (BothOn g) Eq (s.tensorBatch ds) ((s.onSource (.partitioned parts)).tensorBatch ds) := by
  refine .bind (.ofExcept (.of_eq (fun _ => rfl) (ds.mapM s.tensors.infer))) ?_
  rintro ds _ rfl
  show Agree _ _ (ite _ _ _) (ite _ _ _)
  split
  · exact .throw _
  · refine (Agree.mapM (fetchTensor_agree hparts hs) ds).mono ?_
    intro ts ts' hts
    rwa [List.forall₂_eq_eq_eq] at hts

lemma tensorShape_agree (hparts : parts < 2 ^ 63) (hs : s.source = .plain)
    (d : TensorDescriptor) :
    Agree (BothOn g) Eq (s.tensorShape d) ((s.onSource (.partitioned parts)).tensorShape d) := by
  refine .bind (tensor_agree hparts hs _) ?_
  rintro t _ rfl
  exact .pure rfl

end TypedGraph.Store
