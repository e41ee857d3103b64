import TypedGraph.Proofs.Localization

/-!
# Local ids

The local id of a vertex is its position in the group of its type. It is found in two ways: by a
search for the vertex itself, and as an insertion point at which the vertex is then looked for,
which is how the edges of a sample are localized. Over groups that ascend strictly, both find the
same positions and miss the same vertices, and both undo reading the vertex at a position
(`lookups_agree`).
-/

namespace TypedGraph

open Traversal

namespace BatchIndex

variable {b : BatchIndex} {type : String} {group ids : List Int} {id : Int} {p : Nat}

/-! ### One vertex -/

/-- A vertex has a local id exactly if it is the vertex at that position. -/
lemma localId?_eq_some_iff (hb : ∀ type group, b.get? type = some group → group.Pairwise (· < ·)) :
    b.localId? type id = some p ↔ b.globalId? type p = some id := by
  cases hget : b.get? type with
  | none => simp [localId?, globalId?, hget]
  | some group => simp [localId?, globalId?, hget, Search.find?_eq_some_iff (hb type group hget)]

lemma globalId?_of_get? (hget : b.get? type = some group) : b.globalId? type p = group[p]? := by
  simp [globalId?, hget]

/-- Both searches find the same position, or none. -/
lemma position?_eq_localId? (hgroup : group.Pairwise (· < ·)) (hget : b.get? type = some group) :
    Search.position? group id = b.localId? type id := by
  refine Option.ext fun p => ?_
  simp [localId?, hget, Search.position?_eq_some_iff hgroup, Search.find?_eq_some_iff hgroup]

/-- An insertion point passes the test for the vertex, and is then its local id, or else the vertex
has no local id. -/
structure TestsInsertion (b : BatchIndex) (type : String) (group : List Int) (id : Int) (p : Nat) :
    Prop where
  passes_iff : group[p]? = some id ↔ (b.localId? type id).isSome
  same : group[p]? = some id → b.localId? type id = some p ∧ b.globalId? type p = some id

lemma testsInsertion (hgroup : group.Pairwise (· < ·)) (hget : b.get? type = some group) :
    b.TestsInsertion type group id (Search.partitionPoint (· < id) group) := by
  have hposition : Search.position? group id = b.localId? type id :=
    position?_eq_localId? hgroup hget
  simp only [Search.position?] at hposition
  by_cases h : group[Search.partitionPoint (· < id) group]? = some id
  · rw [if_pos h] at hposition
    exact ⟨by simp [← hposition, h], fun _ => ⟨hposition.symm, by rw [globalId?_of_get? hget, h]⟩⟩
  · rw [if_neg h] at hposition
    exact ⟨by simp [← hposition, h], fun h' => absurd h' h⟩

/-! ### All vertices -/

/-- Elements of lists under distinct keys are counted key by key. -/
lemma count_flatten_eq_countP {entries : List (String × List Int)} {holds : String → Bool}
    (h : ∀ e ∈ entries, e.2.count id = if holds e.1 then 1 else 0) :
    (entries.map (·.2)).flatten.count id = (entries.map (·.1)).countP holds := by
  induction entries with
  | nil => simp
  | cons e entries ih =>
    obtain ⟨he, hentries⟩ := List.forall_mem_cons.mp h
    rw [List.map_cons, List.flatten_cons, List.count_append, he, ih hentries, List.map_cons,
      List.countP_cons, Nat.add_comm]

lemma count_group (hgroup : group.Pairwise (· < ·)) (hget : b.get? type = some group) :
    group.count id = if (b.localId? type id).isSome then 1 else 0 := by
  have hnodup : group.Nodup := hgroup.imp ne_of_lt
  rw [← position?_eq_localId? hgroup hget]
  simp only [Search.position?_isSome_iff hgroup]
  split_ifs with hid
  · exact List.count_eq_one_of_mem hnodup hid
  · exact List.count_eq_zero_of_not_mem hid

/-- A vertex is listed once for each type in which it has a local id. -/
lemma count_allIds (hb : ∀ type group, b.get? type = some group → group.Pairwise (· < ·))
    (id : Int) : b.allIds.count id = b.types.countP fun type => (b.localId? type id).isSome := by
  rw [allIds, (Sorting.sort_perm _ _).count_eq]
  apply count_flatten_eq_countP
  rintro ⟨type, group⟩ hentry
  have hget : b.get? type = some group := SortedMap.mem_entries_iff.mp hentry
  exact count_group (hb type group hget) hget

lemma pairwise_allIds (b : BatchIndex) : b.allIds.Pairwise (· ≤ ·) := by
  have hsort : b.allIds.Pairwise fun x y => decide (x ≤ y) = true := by
    apply Sorting.pairwise_sort
    · intro x y
      simpa using le_total x y
    · intro x y z hxy hyz
      simp only [decide_eq_true_eq] at hxy hyz ⊢
      exact hxy.trans hyz
  exact hsort.imp of_decide_eq_true

/-- The vertices of all groups, in ascending order. -/
structure ListsAll (b : BatchIndex) : Prop where
  ascending : b.allIds.Pairwise (· ≤ ·)
  perm : b.allIds.Perm b.groups.values.flatten
  mem_iff : ∀ id, id ∈ b.allIds ↔ ∃ type group, b.get? type = some group ∧ id ∈ group
  count : ∀ id, b.allIds.count id = b.types.countP fun type => (b.localId? type id).isSome
  length : b.allIds.length = b.vertexCount ∧
    b.vertexCount = (b.groups.values.map List.length).sum

lemma listsAll (hb : ∀ type group, b.get? type = some group → group.Pairwise (· < ·)) :
    b.ListsAll where
  ascending := b.pairwise_allIds
  perm := Sorting.sort_perm _ _
  mem_iff _ := mem_allIds_iff
  count := count_allIds hb
  length := ⟨Sorting.length_sort _ _, List.length_flatten⟩

/-! ### Agreement -/

/-- What the look-ups of a batch index tell of each other. -/
structure LooksUp (b : BatchIndex) : Prop where
  insertion : ∀ type group ids, b.get? type = some group → List.Forall₂
    (b.TestsInsertion type group) ids (Search.insertionPoints .left group ids)
  /-- A store localizes the vertices that have local ids, by these. -/
  localize : ∀ (s : Store) type group ids t, b.get? type = some group →
    (s.localize b type ids = .ok t ↔ ∃ ps : List Int,
      List.Forall₂ (fun id p => ∃ i : Nat, b.localId? type id = some i ∧ (i : Int) = p) ids ps ∧
        s.placeIds (.ofInts ps) = .ok t)
  /-- Without a group there is neither a local id nor anything to localize among. -/
  ungrouped : ∀ type, b.get? type = none → (∀ id, b.localId? type id = none) ∧
    ∀ (s : Store) ids, s.localize b type ids = .error (.consistency (.noGroup type))
  local_iff_global : ∀ type id p, b.localId? type id = some p ↔ b.globalId? type p = some id
  local_of_global : ∀ type group p, b.get? type = some group → p < group.length →
    ∃ id, b.globalId? type p = some id ∧ b.localId? type id = some p
  all : b.ListsAll

lemma localize_iff (hgroup : group.Pairwise (· < ·)) (hget : b.get? type = some group) {s : Store}
    {t : Tensor} : s.localize b type ids = .ok t ↔ ∃ ps : List Int,
      List.Forall₂ (fun id p => ∃ i : Nat, b.localId? type id = some i ∧ (i : Int) = p) ids ps ∧
        s.placeIds (.ofInts ps) = .ok t := by
  rw [Store.localize_eq_ok_iff]
  simp only [hget, Option.some.injEq, exists_and_left, exists_eq_left', mapM_eq_ok_iff,
    Store.positionIn_eq_ok_iff, position?_eq_localId? hgroup hget]

/-- Over groups that ascend strictly, both searches find the local ids, which are the positions of
the vertices. -/
theorem lookups_agree (hb : ∀ type group, b.get? type = some group → group.Pairwise (· < ·)) :
    b.LooksUp where
  insertion type group ids hget := by
    rw [Search.insertionPoints, List.forall₂_map_right_iff, List.forall₂_same]
    exact fun id _ => testsInsertion (hb type group hget) hget
  localize s type group ids t hget := localize_iff (hb type group hget) hget
  ungrouped type hget := by
    refine ⟨fun id => by simp [localId?, hget], fun s ids => ?_⟩
    simp [Store.localize, hget]
  local_iff_global type id p := localId?_eq_some_iff hb
  local_of_global type group p hget hp := by
    have hglobal : b.globalId? type p = some group[p] := by
      rw [globalId?_of_get? hget, List.getElem?_eq_getElem hp]
    exact ⟨group[p], hglobal, (localId?_eq_some_iff hb).mpr hglobal⟩
  all := listsAll hb

/-- Two types that share a vertex, and one that has no vertices. -/
def shelves : BatchIndex := ⟨.ofList [("loan", []), ("novel", [2, 5, 9]), ("poem", [-1, 5])]⟩

/-- Among the novels, only the vertices 5 and 9 of these are found, at the positions 1 and 2. -/
theorem lookups_agree_shelves :
    (∀ type group, shelves.get? type = some group → group.Pairwise (· < ·)) ∧
    Search.insertionPoints .left [2, 5, 9] [0, 5, 7, 9, 12] = [0, 1, 2, 2, 3] ∧
    [0, 5, 7, 9, 12].map (shelves.localId? "novel") = [none, some 1, none, some 2, none] ∧
    shelves.LooksUp ∧ shelves.allIds = [-1, 2, 5, 5, 9] := by
  have hentries : ∀ e ∈ shelves.groups.entries, e.2.Pairwise (· < ·) := by decide
  have hgroups : ∀ type group, shelves.get? type = some group → group.Pairwise (· < ·) :=
    fun type group h => hentries (type, group) (SortedMap.mem_entries_iff.mpr h)
  exact ⟨hgroups, by decide +kernel, by decide +kernel, lookups_agree hgroups, by decide⟩

end BatchIndex

end TypedGraph
