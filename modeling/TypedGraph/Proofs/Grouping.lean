import TypedGraph.Proofs.Order
import TypedGraph.Proofs.Search
import TypedGraph.Proofs.Traversal
import TypedGraph.Store.Localize

/-!
# Grouping vertices by type

The vertices of a batch are cut into runs of one block, and a run is filed under the name of its
block. Since blocks only go up along an ascending list, the runs are the vertices of each type
(`groupRuns_isPartition`), and there is only one such partition (`IsPartition.unique`).
-/

namespace TypedGraph

open Traversal

/-! ### Types of ids -/

namespace Offsets

variable {t : Offsets} {id : Int} {name : String}

lemma length_ends (t : Offsets) : t.ends.length = t.names.length := by
  simp [ends, names]

lemma indexOf_eq_ok_iff {i : Nat} : t.indexOf id = .ok i ↔
    0 ≤ id ∧ Search.partitionPoint (· ≤ id) t.ends = i ∧ i < t.length := by
  simp only [indexOf]
  split_ifs with hneg hin
  · simp [hneg]
  · simp [not_lt.mp hneg]
    rintro rfl
    exact hin
  · simp
    rintro - rfl
    exact not_lt.mp hin

/-- An id has the type of the block that its search among the ends comes to. -/
lemma typeOf_eq_ok_iff : t.typeOf id = .ok name ↔
    0 ≤ id ∧ t.names[Search.partitionPoint (· ≤ id) t.ends]? = some name := by
  rw [typeOf, names]
  rw [bind_eq_ok_iff, List.getElem?_map, Option.map_eq_some_iff]
  constructor
  · rintro ⟨i, hi, hname⟩
    obtain ⟨hneg, rfl, hlt⟩ := indexOf_eq_ok_iff.mp hi
    rw [List.getElem?_eq_getElem hlt] at hname ⊢
    exact ⟨hneg, _, rfl, Except.ok.inj hname⟩
  · rintro ⟨hneg, r, hr, rfl⟩
    have hlt := (List.getElem?_eq_some_iff.mp hr).1
    refine ⟨_, indexOf_eq_ok_iff.mpr ⟨hneg, rfl, hlt⟩, ?_⟩
    rw [hr]
    rfl

/-- An id below the total falls in some block. -/
lemma index_lt_length (hneg : 0 ≤ id) (htotal : id < t.total) :
    Search.partitionPoint (· ≤ id) t.ends < t.names.length := by
  rw [← length_ends]
  rw [total] at htotal
  cases hlast : t.ends.getLast? with
  | none =>
    rw [hlast, Option.getD_none] at htotal
    exact absurd hneg (not_le.mpr htotal)
  | some stop =>
    rw [hlast, Option.getD_some] at htotal
    exact Search.partitionPoint_lt_length hlast (by simpa using htotal)

lemma exists_typeOf (hneg : 0 ≤ id) (htotal : id < t.total) : ∃ name, t.typeOf id = .ok name :=
  ⟨_, typeOf_eq_ok_iff.mpr ⟨hneg, List.getElem?_eq_getElem (index_lt_length hneg htotal)⟩⟩

end Offsets

/-! ### Batch indices -/

namespace BatchIndex

lemma get?_insert (b : BatchIndex) (type other : String) (ids : List Int) :
    (b.insert type ids).get? other = if other = type then some ids else b.get? other :=
  SortedMap.get?_insert b.groups type other ids

lemma mem_types_iff {b : BatchIndex} {type : String} :
    type ∈ b.types ↔ ∃ group, b.get? type = some group := by
  rw [types, get?]
  rw [← SortedMap.get?_isSome_iff_mem_keys, Option.isSome_iff_exists]

lemma foldl_insert (b : BatchIndex) (groups : List (String × List Int)) :
    groups.foldl (fun b g => b.insert g.1 g.2) b = ⟨b.groups.insertMany groups⟩ := by
  induction groups generalizing b with
  | nil => rfl
  | cons g groups ih =>
    rw [List.foldl_cons, ih]
    rfl

lemma mem_allIds_iff {b : BatchIndex} {id : Int} :
    id ∈ b.allIds ↔ ∃ type group, b.get? type = some group ∧ id ∈ group := by
  rw [allIds, SortedMap.values]
  rw [Sorting.mem_sort, List.mem_flatten]
  constructor
  · rintro ⟨group, hgroup, hid⟩
    obtain ⟨⟨type, group⟩, hentry, rfl⟩ := List.mem_map.mp hgroup
    exact ⟨type, group, SortedMap.mem_entries_iff.mp hentry, hid⟩
  · rintro ⟨type, group, hget, hid⟩
    exact ⟨group, List.mem_map.mpr ⟨(type, group), SortedMap.mem_entries_iff.mpr hget, rfl⟩, hid⟩

end BatchIndex

namespace Store

variable {s : Store} {ids : List Int} {batch : BatchIndex}

/-! ### Partitions by type -/

/-- A batch index that holds some vertices, each under its type. -/
structure IsPartition (s : Store) (ids : List Int) (batch : BatchIndex) : Prop where
  /-- The types with a group are those of some vertex. -/
  mem_types : ∀ type, type ∈ batch.types ↔ ∃ id ∈ ids, s.offsets.typeOf id = .ok type
  ascending : ∀ type group, batch.get? type = some group → group.Pairwise (· < ·)
  /-- A group holds the vertices of its type. -/
  mem_group : ∀ type group, batch.get? type = some group →
    ∀ id, id ∈ group ↔ id ∈ ids ∧ s.offsets.typeOf id = .ok type

namespace IsPartition

variable {other : BatchIndex}

lemma get?_eq_some (h : s.IsPartition ids batch) (h' : s.IsPartition ids other) {type : String}
    {group : List Int} (hget : batch.get? type = some group) : other.get? type = some group := by
  have htype : type ∈ other.types := by
    rw [h'.mem_types, ← h.mem_types, BatchIndex.mem_types_iff]
    exact ⟨group, hget⟩
  obtain ⟨group', hget'⟩ := BatchIndex.mem_types_iff.mp htype
  have hgroup : group' = group :=
    (h'.ascending type group' hget').eq_of_mem_iff (h.ascending type group hget) fun id => by
      rw [h'.mem_group type group' hget', h.mem_group type group hget]
  rw [hget', hgroup]

/-- There is only one partition of some vertices by type. -/
theorem unique (h : s.IsPartition ids batch) (h' : s.IsPartition ids other) : batch = other := by
  have hgroups : batch.groups = other.groups := SortedMap.ext_get? fun type =>
    Option.ext fun group => ⟨h.get?_eq_some h', h'.get?_eq_some h⟩
  cases batch
  cases other
  exact congrArg BatchIndex.mk hgroups

/-- The vertices of a partition are those that were grouped. -/
lemma mem_allIds (h : s.IsPartition ids batch)
    (hids : ∀ id ∈ ids, ∃ type, s.offsets.typeOf id = .ok type) {id : Int} :
    id ∈ batch.allIds ↔ id ∈ ids := by
  rw [BatchIndex.mem_allIds_iff]
  constructor
  · rintro ⟨type, group, hget, hid⟩
    exact ((h.mem_group type group hget id).mp hid).1
  · intro hid
    obtain ⟨type, htype⟩ := hids id hid
    obtain ⟨group, hget⟩ := BatchIndex.mem_types_iff.mp ((h.mem_types type).mpr ⟨id, hid, htype⟩)
    exact ⟨type, group, hget, (h.mem_group type group hget id).mpr ⟨hid, htype⟩⟩

lemma congr {ids' : List Int} (h : s.IsPartition ids batch) (hids : ∀ id, id ∈ ids' ↔ id ∈ ids) :
    s.IsPartition ids' batch where
  mem_types type := by simp only [h.mem_types type, hids]
  ascending := h.ascending
  mem_group type group hget id := by rw [h.mem_group type group hget id, hids id]

end IsPartition

/-! ### Runs of one block -/

/-- A run beside the name of the block that its first vertex falls in. -/
def nameRun (s : Store) (run : List Int) : Except StoreError (String × List Int) :=
  match s.offsets.names[s.blockOf (run.headD 0)]? with
  | some name => .ok (name, run)
  | none => .error (.lookup (.idOutside (run.headD 0) none))

lemma insertRun_eq (b : BatchIndex) (run : List Int) :
    s.insertRun b run = (fun g : String × List Int => b.insert g.1 g.2) <$> s.nameRun run := by
  rw [insertRun, nameRun]
  cases s.offsets.names[s.blockOf (run.headD 0)]? <;> rfl

/-- Grouping runs is naming every run first and filing them all afterwards. -/
lemma groupRuns_eq (s : Store) (ids : List Int) :
    s.groupRuns ids = (fun groups => ⟨SortedMap.ofList groups⟩)
      <$> (runs s.blockOf ids).mapM s.nameRun := by
  have hstep : s.insertRun = fun b run =>
      (fun b (g : String × List Int) => b.insert g.1 g.2) b <$> s.nameRun run := by
    funext b run
    exact insertRun_eq b run
  rw [groupRuns]
  rw [hstep, foldlM_map_eq]
  congr 1
  funext groups
  exact BatchIndex.foldl_insert {} groups

lemma nameRun_eq_ok_iff {run : List Int} {g : String × List Int} :
    s.nameRun run = .ok g
      ↔ s.offsets.names[s.blockOf (run.headD 0)]? = some g.1 ∧ run = g.2 := by
  rw [nameRun]
  cases s.offsets.names[s.blockOf (run.headD 0)]? with
  | none => simp
  | some name => simp [Prod.ext_iff]

lemma headD_mem {run : List Int} (h : run ≠ []) : run.headD 0 ∈ run := by
  cases run with
  | nil => exact absurd rfl h
  | cons id run => exact List.mem_cons_self

/-- The blocks of ascending vertices never go down. -/
lemma pairwise_blockOf (s : Store) (hids : ids.Pairwise (· < ·)) :
    ids.Pairwise fun a b => s.blockOf a ≤ s.blockOf b :=
  hids.imp fun hab => Search.partitionPoint_mono fun _ hstop =>
    decide_eq_true ((of_decide_eq_true hstop).trans hab.le)

/-- Every vertex of the store is in the run of its type. -/
lemma mem_run_iff_typeOf (hnames : s.offsets.names.Nodup) (hids : ids.Pairwise (· < ·))
    (hneg : ∀ id ∈ ids, 0 ≤ id) {run : List Int} (hrun : run ∈ runs s.blockOf ids) {type : String}
    (htype : s.offsets.names[s.blockOf (run.headD 0)]? = some type) {id : Int} :
    id ∈ run ↔ id ∈ ids ∧ s.offsets.typeOf id = .ok type := by
  have hhead : run.headD 0 ∈ run := headD_mem (List.ne_nil_of_mem_splitBy hrun)
  rw [mem_run_iff (s.pairwise_blockOf hids) hrun hhead]
  apply and_congr_right
  intro hid
  rw [Offsets.typeOf_eq_ok_iff]
  constructor
  · intro hblock
    exact ⟨hneg id hid, (congrArg (s.offsets.names[·]?) hblock).trans htype⟩
  · rintro ⟨-, hname⟩
    have hlt : s.blockOf id < s.offsets.names.length := (List.getElem?_eq_some_iff.mp hname).1
    exact (List.getElem?_inj hlt hnames).mp (hname.trans htype.symm)

/-- Every run of ascending vertices is of a later block than the runs before it. -/
lemma pairwise_blockOf_runs (s : Store) (hids : ids.Pairwise (· < ·)) :
    (runs s.blockOf ids).Pairwise fun r r' => s.blockOf (r.headD 0) < s.blockOf (r'.headD 0) :=
  (pairwise_key_lt_runs (s.pairwise_blockOf hids)).imp_of_mem fun hr hr' hlt =>
    hlt _ (headD_mem (List.ne_nil_of_mem_splitBy hr)) _ (headD_mem (List.ne_nil_of_mem_splitBy hr'))

/-- What the runs are filed under, where each of them has a name. -/
lemma groupRuns_eq_ok (hnames : s.offsets.names.Nodup) (hids : ids.Pairwise (· < ·))
    (hblocks : ∀ id ∈ ids, s.blockOf id < s.offsets.names.length) :
    ∃ batch, s.groupRuns ids = .ok batch ∧ ∀ type group, batch.get? type = some group ↔
      group ∈ runs s.blockOf ids ∧ s.offsets.names[s.blockOf (group.headD 0)]? = some type := by
  -- a run is filed under its first vertex, which is one of the batch
  have hnamed : ∀ run ∈ runs s.blockOf ids, ∃ g, s.nameRun run = .ok g := by
    intro run hrun
    have hhead := mem_of_mem_run hrun (headD_mem (List.ne_nil_of_mem_splitBy hrun))
    exact ⟨(_, run), nameRun_eq_ok_iff.mpr ⟨List.getElem?_eq_getElem (hblocks _ hhead), rfl⟩⟩
  obtain ⟨groups, hgroups⟩ := mapM_ok_of_forall hnamed
  -- two runs lie in two blocks, whose names differ, so no run overwrites another one
  have hdistinct : groups.Pairwise (·.1 ≠ ·.1) := by
    refine pairwise_of_mapM_eq_ok hgroups (s.pairwise_blockOf_runs hids)
      fun r r' g g' hlt hg hg' heq => hlt.ne ?_
    obtain ⟨hname, -⟩ := nameRun_eq_ok_iff.mp hg
    obtain ⟨hname', -⟩ := nameRun_eq_ok_iff.mp hg'
    have hin : s.blockOf (r.headD 0) < s.offsets.names.length :=
      (List.getElem?_eq_some_iff.mp hname).1
    exact (List.getElem?_inj hin hnames).mp (by rw [hname, hname', heq])
  refine ⟨⟨SortedMap.ofList groups⟩, by rw [groupRuns_eq, hgroups, map_ok], ?_⟩
  intro type group
  rw [BatchIndex.get?, SortedMap.ofList]
  rw [SortedMap.get?_insertMany hdistinct, SortedMap.get?_empty, mem_iff_of_mapM_eq_ok hgroups]
  constructor
  · rintro (⟨run, hrun, hg⟩ | ⟨-, hnone⟩)
    · obtain ⟨hname, rfl⟩ := nameRun_eq_ok_iff.mp hg
      exact ⟨hrun, hname⟩
    · simp at hnone
  · rintro ⟨hrun, hname⟩
    exact .inl ⟨group, hrun, nameRun_eq_ok_iff.mpr ⟨hname, rfl⟩⟩

/-- The runs of ascending vertices, filed under the names of their blocks, are a partition. -/
lemma groupRuns_isPartition (hnames : s.offsets.names.Nodup) (hids : ids.Pairwise (· < ·))
    (hin : ∀ id ∈ ids, 0 ≤ id ∧ id < s.offsets.total) :
    ∃ batch, s.groupRuns ids = .ok batch ∧ s.IsPartition ids batch := by
  obtain ⟨batch, hbatch, hget⟩ := groupRuns_eq_ok hnames hids fun id hid =>
    Offsets.index_lt_length (hin id hid).1 (hin id hid).2
  have hmem {type : String} {group : List Int} (hgroup : batch.get? type = some group) (id : Int) :
      id ∈ group ↔ id ∈ ids ∧ s.offsets.typeOf id = .ok type := by
    obtain ⟨hrun, hname⟩ := (hget type group).mp hgroup
    exact mem_run_iff_typeOf hnames hids (fun id hid => (hin id hid).1) hrun hname
  refine ⟨batch, hbatch, ?_, ?_, ?_⟩
  · intro type
    rw [BatchIndex.mem_types_iff]
    constructor
    · rintro ⟨group, hgroup⟩
      obtain ⟨hrun, -⟩ := (hget type group).mp hgroup
      exact ⟨_, (hmem hgroup _).mp (headD_mem (List.ne_nil_of_mem_splitBy hrun))⟩
    · -- all vertices of a run fall in one block, that of the first
      rintro ⟨id, hid, htype⟩
      obtain ⟨run, hrun, hidrun⟩ := exists_run s.blockOf hid
      have hblock : s.blockOf id = s.blockOf (run.headD 0) :=
        key_eq_of_mem_run hrun hidrun (headD_mem (List.ne_nil_of_mem_splitBy hrun))
      refine ⟨run, (hget type run).mpr ⟨hrun, ?_⟩⟩
      rw [← hblock]
      exact (Offsets.typeOf_eq_ok_iff.mp htype).2
  · intro type group hgroup
    exact hids.sublist (sublist_of_mem_runs ((hget type group).mp hgroup).1)
  · intro type group hgroup id
    exact hmem hgroup id

/-! ### Grouping a batch -/

/-- The only block of a table with one type holds every id below the total. -/
lemma single_isPartition {name : String} (hname : s.offsets.names = [name]) (hne : ids ≠ [])
    (hids : ids.Pairwise (· < ·)) (hin : ∀ id ∈ ids, 0 ≤ id ∧ id < s.offsets.total) :
    s.IsPartition ids (BatchIndex.insert {} name ids) := by
  have htype : ∀ id ∈ ids, ∀ type, s.offsets.typeOf id = .ok type ↔ type = name := by
    intro id hid type
    have hlt := Offsets.index_lt_length (hin id hid).1 (hin id hid).2
    rw [hname, List.length_singleton, Nat.lt_one_iff] at hlt
    rw [Offsets.typeOf_eq_ok_iff, hname, hlt]
    simp [(hin id hid).1, eq_comm]
  have hget : ∀ type group, (BatchIndex.insert {} name ids).get? type = some group ↔
      type = name ∧ group = ids := by
    intro type group
    rw [BatchIndex.get?_insert]
    by_cases h : type = name
    · simp [h, eq_comm]
    · simp [h, BatchIndex.get?]
  refine ⟨?_, ?_, ?_⟩
  · intro type
    rw [BatchIndex.mem_types_iff]
    obtain ⟨id, hid⟩ := List.exists_mem_of_ne_nil ids hne
    constructor
    · rintro ⟨group, hgroup⟩
      exact ⟨id, hid, (htype id hid type).mpr ((hget type group).mp hgroup).1⟩
    · rintro ⟨id, hid, h⟩
      exact ⟨ids, (hget type ids).mpr ⟨(htype id hid type).mp h, rfl⟩⟩
  · intro type group hgroup
    obtain ⟨-, rfl⟩ := (hget type group).mp hgroup
    exact hids
  · intro type group hgroup id
    obtain ⟨rfl, rfl⟩ := (hget type group).mp hgroup
    constructor
    · intro hid
      exact ⟨hid, (htype id hid type).mpr rfl⟩
    · exact And.left

/-- The groups of ascending vertices that are all in the table. -/
def groupWithin (s : Store) (ids : List Int) : Except StoreError BatchIndex :=
  match s.offsets.names with
  | [name] => .ok (BatchIndex.insert {} name ids)
  | _ => s.groupRuns ids

/-- The lowest and the highest vertex decide whether a batch is refused. -/
lemma groupNodes_eq (s : Store) (hne : ids ≠ []) :
    ∃ lowest ∈ ids, ∃ highest ∈ ids, (∀ id ∈ ids, lowest ≤ id ∧ id ≤ highest) ∧
      s.groupNodes ids =
        if lowest < 0 then .error (.lookup (.idOutside lowest (some s.offsets.total)))
        else if s.offsets.total ≤ highest then
          .error (.lookup (.idOutside highest (some s.offsets.total)))
        else s.groupWithin (Ascending.ofList ids) := by
  have hasc := Ascending.pairwise_ofList ids
  have hne' : Ascending.ofList ids ≠ [] := fun h => hne (Ascending.ofList_eq_nil_iff.mp h)
  refine ⟨(Ascending.ofList ids).head hne', Ascending.mem_ofList.mp (List.head_mem hne'),
    (Ascending.ofList ids).getLast hne', Ascending.mem_ofList.mp (List.getLast_mem hne'), ?_, ?_⟩
  · intro id hmem
    have hid := Ascending.mem_ofList.mpr hmem
    exact ⟨Ascending.head_le hasc hne' hid, Ascending.le_getLast hasc hne' hid⟩
  · -- the ends of the ascending list are the lowest and the highest vertex
    simp only [groupNodes]
    rw [List.head?_eq_some_head hne', List.getLast?_eq_some_getLast hne']
    rfl

lemma groupNodes_congr (s : Store) {ids' : List Int} (h : ∀ id, id ∈ ids' ↔ id ∈ ids) :
    s.groupNodes ids' = s.groupNodes ids := by
  simp only [groupNodes]
  rw [Ascending.ofList_congr h]

lemma groupNodes_of_outside (h : ∃ id ∈ ids, id < 0 ∨ s.offsets.total ≤ id) :
    ∃ cause, s.groupNodes ids = .error (.lookup cause) := by
  obtain ⟨id, hid, hout⟩ := h
  obtain ⟨lowest, -, highest, -, hbounds, heq⟩ := s.groupNodes_eq (List.ne_nil_of_mem hid)
  rw [heq]
  split_ifs with hlow hhigh
  · exact ⟨_, rfl⟩
  · exact ⟨_, rfl⟩
  · have hb := hbounds id hid
    omega

/-- The search over all blocks and the path for a single one give the same partition. -/
lemma groupNodes_eq_groupRuns (hnames : s.offsets.names.Nodup)
    (hin : ∀ id ∈ ids, 0 ≤ id ∧ id < s.offsets.total) :
    s.groupNodes ids = s.groupRuns (Ascending.ofList ids) := by
  by_cases hne : ids = []
  · subst hne
    rfl
  obtain ⟨lowest, hlow, highest, hhigh, -, heq⟩ := s.groupNodes_eq hne
  rw [heq, if_neg (not_lt.mpr (hin lowest hlow).1), if_neg (not_le.mpr (hin highest hhigh).2),
    groupWithin]
  split
  · rename_i name hname
    have hasc := Ascending.pairwise_ofList ids
    have hin' : ∀ id ∈ Ascending.ofList ids, 0 ≤ id ∧ id < s.offsets.total := fun id hid =>
      hin id (Ascending.mem_ofList.mp hid)
    have hne' : Ascending.ofList ids ≠ [] := fun h => hne (Ascending.ofList_eq_nil_iff.mp h)
    obtain ⟨batch, hbatch, hpart⟩ := groupRuns_isPartition hnames hasc hin'
    -- both ways partition the batch, and there is one partition
    rw [hbatch, hpart.unique (single_isPartition hname hne' hasc hin')]
  · rfl

lemma groupNodes_isPartition (hnames : s.offsets.names.Nodup)
    (hin : ∀ id ∈ ids, 0 ≤ id ∧ id < s.offsets.total) :
    ∃ batch, s.groupNodes ids = .ok batch ∧ s.IsPartition ids batch := by
  rw [groupNodes_eq_groupRuns hnames hin]
  obtain ⟨batch, hbatch, hpart⟩ := groupRuns_isPartition hnames (Ascending.pairwise_ofList ids)
    fun id hid => hin id (Ascending.mem_ofList.mp hid)
  exact ⟨batch, hbatch, hpart.congr fun id => Ascending.mem_ofList.symm⟩

lemma typeOf_of_groupRuns (hneg : ∀ id ∈ ids, 0 ≤ id) (h : s.groupRuns ids = .ok batch)
    {type : String} {group : List Int} (hget : batch.get? type = some group) {id : Int}
    (hid : id ∈ group) : s.offsets.typeOf id = .ok type := by
  rw [groupRuns_eq, map_eq_ok_iff] at h
  obtain ⟨groups, hgroups, rfl⟩ := h
  rcases SortedMap.mem_of_get?_insertMany hget with hmem | hnone
  · obtain ⟨run, hrun, hname⟩ := (mem_iff_of_mapM_eq_ok hgroups).mp hmem
    obtain ⟨htype, rfl⟩ := nameRun_eq_ok_iff.mp hname
    rw [Offsets.typeOf_eq_ok_iff]
    have hhead := headD_mem (List.ne_nil_of_mem_splitBy hrun)
    have hblock : s.blockOf id = s.blockOf (run.headD 0) := key_eq_of_mem_run hrun hid hhead
    exact ⟨hneg id (mem_of_mem_run hrun hid),
      (congrArg (s.offsets.names[·]?) hblock).trans htype⟩
  · simp at hnone

/-- Whatever the names of the blocks, a vertex is grouped under its type only. -/
lemma typeOf_of_groupNodes (h : s.groupNodes ids = .ok batch) {type : String} {group : List Int}
    (hget : batch.get? type = some group) {id : Int} (hid : id ∈ group) :
    s.offsets.typeOf id = .ok type := by
  by_cases hne : ids = []
  · subst hne
    obtain rfl : {} = batch := Except.ok.inj h
    simp [BatchIndex.get?] at hget
  have hne' : Ascending.ofList ids ≠ [] := fun h => hne (Ascending.ofList_eq_nil_iff.mp h)
  obtain ⟨lowest, -, highest, -, hbounds, heq⟩ := s.groupNodes_eq hne
  rw [heq] at h
  split_ifs at h with hlow hhigh
  have hin : ∀ id ∈ Ascending.ofList ids, 0 ≤ id ∧ id < s.offsets.total := by
    intro id hid
    have hb := hbounds id (Ascending.mem_ofList.mp hid)
    omega
  rw [groupWithin] at h
  split at h
  · rename_i name hname
    obtain rfl := Except.ok.inj h
    have hpart := single_isPartition hname hne' (Ascending.pairwise_ofList ids) hin
    exact ((hpart.mem_group type group hget id).mp hid).2
  · exact typeOf_of_groupRuns (fun id hid => (hin id hid).1) h hget hid

/-- A batch with a vertex outside every block is refused. Any other batch is partitioned by type,
whichever path is taken, and the vertices of the partition give it back. Neither the order nor the
repeats of a batch matter. -/
theorem groupNodes_partitions (s : Store) (hnames : s.offsets.names.Nodup) (ids : List Int) :
    ((∃ id ∈ ids, id < 0 ∨ s.offsets.total ≤ id) →
        ∃ cause, s.groupNodes ids = .error (.lookup cause)) ∧
      ((∀ id ∈ ids, 0 ≤ id ∧ id < s.offsets.total) →
        ∃ batch, s.groupNodes ids = .ok batch ∧ s.IsPartition ids batch ∧
          s.groupRuns (Ascending.ofList ids) = .ok batch ∧
          s.groupNodes batch.allIds = .ok batch) ∧
      ∀ ids', (∀ id, id ∈ ids' ↔ id ∈ ids) → s.groupNodes ids' = s.groupNodes ids := by
  refine ⟨groupNodes_of_outside, ?_, fun ids' h => s.groupNodes_congr h⟩
  intro hin
  obtain ⟨batch, hbatch, hpart⟩ := groupNodes_isPartition hnames hin
  have htyped : ∀ id ∈ ids, ∃ type, s.offsets.typeOf id = .ok type := fun id hid =>
    Offsets.exists_typeOf (hin id hid).1 (hin id hid).2
  refine ⟨batch, hbatch, hpart, ?_, ?_⟩
  · rw [← groupNodes_eq_groupRuns hnames hin, hbatch]
  · -- the groups list the vertices of the batch, perhaps in another order
    rw [s.groupNodes_congr fun id => hpart.mem_allIds htyped, hbatch]

/-- A store of two authors and three papers, and of drafts of which there are none. -/
def threeBlocks : Store where
  source := .plain
  device := .cpu
  config := {}
  offsets := ⟨[⟨"author", 0, 2⟩, ⟨"draft", 2, 2⟩, ⟨"paper", 2, 5⟩]⟩
  edges := {}
  tensors := {}
  oldVertexColumn := none
  oldEdgeColumn := none

theorem groupNodes_partitions_threeBlocks :
    threeBlocks.offsets.names.Nodup ∧
      (∀ id ∈ [4, 1, 2, 1], 0 ≤ id ∧ id < threeBlocks.offsets.total) ∧
      ∃ batch, threeBlocks.groupNodes [4, 1, 2, 1] = .ok batch ∧
        threeBlocks.IsPartition [4, 1, 2, 1] batch ∧
        threeBlocks.groupRuns (Ascending.ofList [4, 1, 2, 1]) = .ok batch ∧
        threeBlocks.groupNodes batch.allIds = .ok batch :=
  have hin : ∀ id ∈ [4, 1, 2, 1], 0 ≤ id ∧ id < threeBlocks.offsets.total := by decide
  ⟨by decide, hin, (groupNodes_partitions threeBlocks (by decide) [4, 1, 2, 1]).2.1 hin⟩

end Store

end TypedGraph
