import TypedGraph.Graph.Renumber
import TypedGraph.Proofs.Order
import TypedGraph.Tensor.Build

/-!
# Rows in blocks

Rows are put key by key, and a table is made of them with the ids from zero on. Main statements:
`pairwise_inBlocks` (rows of one key keep their order, and other rows follow the order of the keys),
`position_bijOn` (old ids go to new ones one to one) and `get?_enumerate_position` (the row of an
old id is found under its new one).
-/

namespace TypedGraph

universe u v

/-! ### First appearances -/

section Appearance

variable {α : Type u}

/-- An element is in a list before every place of another one. -/
def AppearsBefore (as : List α) (a b : α) : Prop :=
  ∃ before after, as = before ++ a :: after ∧ b ∉ before ∧ b ≠ a

lemma AppearsBefore.of_filter {as : List α} {p : α → Bool} {a b : α}
    (h : AppearsBefore (as.filter p) a b) (hb : p b) : AppearsBefore as a b := by
  obtain ⟨before, after, hsplit, hbefore, hne⟩ := h
  obtain ⟨before', rest, rfl, rfl, hrest⟩ := List.filter_eq_append_iff.mp hsplit
  obtain ⟨skipped, after', rfl, hskipped, -, -⟩ := List.filter_eq_cons_iff.mp hrest
  refine ⟨before' ++ skipped, after', by simp, ?_, hne⟩
  have hnot : b ∉ before' := fun hmem => hbefore (List.mem_filter.mpr ⟨hmem, hb⟩)
  have hnot' : b ∉ skipped := fun hmem => hskipped b hmem hb
  simp [hnot, hnot']

lemma AppearsBefore.cons {as : List α} {x a b : α} (h : AppearsBefore as a b) (hb : b ≠ x) :
    AppearsBefore (x :: as) a b := by
  obtain ⟨before, after, rfl, hbefore, hne⟩ := h
  exact ⟨x :: before, after, rfl, by simp [hb, hbefore], hne⟩

variable [BEq α] [LawfulBEq α]

lemma AppearsBefore.idxOf_lt {as : List α} {a b : α} (h : AppearsBefore as a b) :
    as.idxOf a < as.idxOf b := by
  obtain ⟨before, after, rfl, hbefore, hne⟩ := h
  rw [List.idxOf_append_of_notMem hbefore, List.idxOf_cons_ne _ hne.symm]
  by_cases ha : a ∈ before
  · have hlt := List.idxOf_lt_length_of_mem ha
    rw [List.idxOf_append_of_mem ha]
    omega
  · rw [List.idxOf_append_of_notMem ha, List.idxOf_cons_self]
    omega

/-- Without its repeats a list holds its elements in the order of their first appearance. -/
lemma pairwise_eraseDups (as : List α) : as.eraseDups.Pairwise (AppearsBefore as) := by
  match as with
  | [] => exact .nil
  | x :: as =>
    rw [List.eraseDups_cons]
    have hne {b : α} (hb : b ∈ (as.filter (!· == x)).eraseDups) : b ≠ x := by
      simpa using (List.mem_filter.mp (List.mem_eraseDups.mp hb)).2
    refine List.pairwise_cons.mpr ⟨fun b hb => ⟨[], as, rfl, by simp, hne hb⟩, ?_⟩
    refine (pairwise_eraseDups _).imp_of_mem fun _ hb h => ?_
    exact (h.of_filter (by simpa using hne hb)).cons (hne hb)
termination_by as.length
decreasing_by exact Nat.lt_succ_of_le (List.length_filter_le _ _)

lemma nodup_eraseDups (as : List α) : as.eraseDups.Nodup :=
  (pairwise_eraseDups as).imp fun ⟨_, _, _, _, hne⟩ => hne.symm

lemma eraseDups_eq_self {as : List α} (h : as.Nodup) : as.eraseDups = as := by
  induction as with
  | nil => rfl
  | cons a as ih =>
    obtain ⟨ha, has⟩ := List.nodup_cons.mp h
    have hfilter : as.filter (!· == a) = as := by
      refine List.filter_eq_self.mpr fun b hb => ?_
      simpa using fun heq : b = a => ha (heq ▸ hb)
    rw [List.eraseDups_cons, hfilter, ih has]

end Appearance

/-! ### Blocks -/

section Blocks

variable {α : Type u} {κ : Type v} [DecidableEq κ] {key : α → κ} {keys : List κ} {rows : List α}

/-- The rows of the first key, then those of the next one, and so on. -/
def inBlocks (key : α → κ) (keys : List κ) (rows : List α) : List α :=
  keys.flatMap fun k => rows.filter (key · = k)

lemma key_of_mem_filter {k : κ} {a : α} (h : a ∈ rows.filter (key · = k)) : key a = k := by
  simpa using (List.mem_filter.mp h).2

lemma mem_inBlocks {a : α} : a ∈ inBlocks key keys rows ↔ a ∈ rows ∧ key a ∈ keys := by
  simp only [inBlocks, List.mem_flatMap, List.mem_filter, decide_eq_true_eq]
  constructor
  · rintro ⟨k, hk, ha, rfl⟩
    exact ⟨ha, hk⟩
  · rintro ⟨ha, hk⟩
    exact ⟨key a, hk, ha, rfl⟩

/-- Rows of one key keep their order, and rows of two keys are in the order of these. -/
theorem pairwise_inBlocks {R : α → α → Prop} {S : κ → κ → Prop} (hrows : rows.Pairwise R)
    (hkeys : keys.Pairwise S) :
    (inBlocks key keys rows).Pairwise fun a b => key a = key b ∧ R a b ∨ S (key a) (key b) := by
  refine List.pairwise_flatMap.mpr ⟨fun k _ => ?_, hkeys.imp fun hS a ha b hb => .inr ?_⟩
  · refine (hrows.filter _).imp_of_mem fun ha hb hR => .inl ⟨?_, hR⟩
    rw [key_of_mem_filter ha, key_of_mem_filter hb]
  · rwa [key_of_mem_filter ha, key_of_mem_filter hb]

/-- No row is lost or repeated if every key has one block. -/
lemma inBlocks_perm (hkeys : keys.Nodup) (hrows : rows.Nodup) (h : ∀ a ∈ rows, key a ∈ keys) :
    (inBlocks key keys rows).Perm rows := by
  have hnodup : (inBlocks key keys rows).Nodup := by
    refine (pairwise_inBlocks hrows hkeys).imp ?_
    rintro a _ (⟨-, hne⟩ | hne) rfl
    · exact hne rfl
    · exact hne rfl
  refine (List.perm_ext_iff_of_nodup hnodup hrows).mpr fun a => ?_
  rw [mem_inBlocks]
  exact and_iff_left_of_imp (h a)

/-- Between two rows of a key there are only rows of it. -/
lemma key_eq_of_between (key : α → κ) (hkeys : keys.Nodup) {i j k : Nat} {a b c : α}
    (ha : (inBlocks key keys rows)[i]? = some a) (hb : (inBlocks key keys rows)[j]? = some b)
    (hc : (inBlocks key keys rows)[k]? = some c) (hij : i < j) (hjk : j < k)
    (hac : key a = key c) : key b = key a := by
  have hplaces : keys.Pairwise fun s t => keys.idxOf s < keys.idxOf t := by
    refine List.pairwise_iff_getElem.mpr fun m n hm hn hmn => ?_
    rwa [hkeys.idxOf_getElem, hkeys.idxOf_getElem]
  have hrows : (inBlocks key keys rows).Pairwise fun a b =>
      key a = key b ∧ True ∨ keys.idxOf (key a) < keys.idxOf (key b) :=
    pairwise_inBlocks (List.pairwise_of_forall fun _ _ => trivial) hplaces
  rw [List.pairwise_iff_getElem] at hrows
  obtain ⟨hi, rfl⟩ := List.getElem?_eq_some_iff.mp ha
  obtain ⟨hj, rfl⟩ := List.getElem?_eq_some_iff.mp hb
  obtain ⟨hk, rfl⟩ := List.getElem?_eq_some_iff.mp hc
  have hfirst := hrows i j hi hj hij
  have hsecond := hrows j k hj hk hjk
  rw [← hac] at hsecond
  -- a row of another key would have a later place among the keys, and an earlier one
  rcases hfirst with ⟨heq, -⟩ | hlt
  · exact heq.symm
  rcases hsecond with ⟨heq, -⟩ | hgt
  · exact heq
  · exact absurd hgt hlt.asymm

/-- The keys of rows in blocks are each key as often as there are rows of it. -/
lemma map_inBlocks (key : α → κ) (keys : List κ) (rows : List α) :
    (inBlocks key keys rows).map key
      = keys.flatMap fun k => List.replicate (rows.filter (key · = k)).length k := by
  rw [inBlocks, List.map_flatMap]
  apply List.flatMap_congr
  intro k _
  refine List.eq_replicate_iff.mpr ⟨by simp, fun k' hk' => ?_⟩
  obtain ⟨a, ha, rfl⟩ := List.mem_map.mp hk'
  exact key_of_mem_filter ha

end Blocks

/-! ### Ranges of integers -/

lemma intRange_eq_nil {start stop : Int} (h : stop ≤ start) : intRange start stop = [] := by
  simp [intRange, h]

/-- Two ranges, one after the other, are one range. -/
lemma intRange_append {start middle stop : Int} (h : start ≤ middle) (h' : middle ≤ stop) :
    intRange start middle ++ intRange middle stop = intRange start stop := by
  obtain ⟨n, rfl⟩ := Int.le.dest h
  obtain ⟨m, rfl⟩ := Int.le.dest h'
  have hlen : (start + n + m - start).toNat = n + m := by omega
  rw [intRange, intRange, intRange, hlen, List.range_add, List.map_append, List.map_map]
  simp [Function.comp_def, add_assoc]

lemma pairwise_intRange (start stop : Int) : (intRange start stop).Pairwise (· < ·) := by
  refine List.pairwise_map.mpr (List.pairwise_lt_range.imp fun h => ?_)
  omega

/-! ### Tables from lists -/

namespace SortedMap

variable {κ : Type u} {α : Type v} [LinearOrder κ]

/-- A map made of pairs in ascending key order holds them as they are. -/
lemma ofList_of_ascending {ps : List (κ × α)} (h : ps.Pairwise (·.1 < ·.1)) :
    ofList ps = ⟨ps, h⟩ := by
  refine ext_get? fun k => Option.ext fun a => ?_
  rw [get?_ofList (h.imp ne_of_lt), ← mem_entries_iff]

lemma mem_keys_iff {m : SortedMap κ α} {k : κ} : k ∈ m.keys ↔ ∃ a, m.get? k = some a := by
  rw [← get?_isSome_iff_mem_keys, Option.isSome_iff_exists]

lemma get?_mapValues {β : Type*} (f : κ → α → β) (m : SortedMap κ α) (k : κ) :
    (m.mapValues f).get? k = (m.get? k).map (f k) := by
  refine Option.ext fun b => ?_
  rw [← mem_entries_iff, entries_mapValues, Option.map_eq_some_iff, List.mem_map]
  constructor
  · rintro ⟨⟨key, a⟩, hmem, heq⟩
    obtain ⟨rfl, rfl⟩ := Prod.mk.inj heq
    exact ⟨a, mem_entries_iff.mp hmem, rfl⟩
  · rintro ⟨a, ha, rfl⟩
    exact ⟨(k, a), mem_entries_iff.mpr ha, rfl⟩

lemma ofList_map {β : Type*} (f : κ → α → β) (m : SortedMap κ α) :
    ofList (m.entries.map fun e => (e.1, f e.1 e.2)) = m.mapValues f :=
  ofList_of_ascending (m.mapValues f).ascending

end SortedMap

namespace Graph

variable {α : Type} {rows : List α} {i : Int} {a : α}

lemma entries_enumerate (rows : List α) :
    (enumerate rows).entries = rows.zipIdx.map fun r => ((r.2 : Int), r.1) := by
  have hasc : (rows.zipIdx.map fun r => ((r.2 : Int), r.1)).Pairwise (·.1 < ·.1) := by
    refine List.pairwise_map.mpr (List.pairwise_iff_getElem.mpr fun i j hi hj hij => ?_)
    simpa using hij
  rw [enumerate, SortedMap.ofList_of_ascending hasc]

@[simp] lemma size_enumerate (rows : List α) : (enumerate rows).size = rows.length := by
  simp [SortedMap.size, entries_enumerate]

/-- The ids of an enumerated table are those from zero on. -/
lemma keys_enumerate (rows : List α) : (enumerate rows).keys = intRange 0 rows.length := by
  rw [SortedMap.keys, entries_enumerate, List.map_map, intRange]
  have hsnd := List.zipIdx_map_snd 0 rows
  rw [← List.range_eq_range'] at hsnd
  simp only [sub_zero, Int.toNat_natCast, zero_add, ← hsnd, List.map_map]
  rfl

lemma get?_enumerate (rows : List α) (n : Nat) : (enumerate rows).get? n = rows[n]? := by
  refine Option.ext fun a => ?_
  rw [← SortedMap.mem_entries_iff, entries_enumerate, List.mem_map]
  constructor
  · rintro ⟨⟨b, m⟩, hmem, heq⟩
    obtain ⟨hm, rfl⟩ := Prod.mk.inj heq
    obtain rfl : m = n := by exact_mod_cast hm
    exact List.mem_zipIdx_iff_getElem?.mp hmem
  · intro ha
    exact ⟨(a, n), List.mem_zipIdx_iff_getElem?.mpr ha, rfl⟩

lemma get?_enumerate_eq_some_iff :
    (enumerate rows).get? i = some a ↔ 0 ≤ i ∧ rows[i.toNat]? = some a := by
  constructor
  · intro h
    have hi := SortedMap.mem_keys_iff.mpr ⟨a, h⟩
    rw [keys_enumerate, mem_intRange] at hi
    obtain ⟨n, rfl⟩ := Int.eq_ofNat_of_zero_le hi.1
    exact ⟨hi.1, (get?_enumerate rows n).symm.trans h⟩
  · rintro ⟨hneg, h⟩
    obtain ⟨n, rfl⟩ := Int.eq_ofNat_of_zero_le hneg
    exact (get?_enumerate rows n).trans h

/-! ### Positions of ids -/

/-- The position of a row among some rows, told by its id. -/
def position (rows : List (Int × α)) (id : Int) : Int := ((rows.map (·.1)).idxOf id : Nat)

section Positions

variable {rows : List (Int × α)} {id other : Int} {b : α}

lemma position_eq_of_getElem? (hnodup : (rows.map (·.1)).Nodup) {n : Nat}
    (h : rows[n]? = some (id, a)) : position rows id = n := by
  have hn : (rows.map (·.1))[n]? = some id := by simp [h]
  obtain ⟨hlt, hget⟩ := List.getElem?_eq_some_iff.mp hn
  rw [position, ← hget, hnodup.idxOf_getElem]

/-- Rows with distinct ids are put under their positions one to one. -/
theorem position_bijOn (hnodup : (rows.map (·.1)).Nodup) :
    Set.BijOn (position rows) {id | id ∈ rows.map (·.1)} (Set.Ico 0 (rows.length : Int)) := by
  refine ⟨fun id hid => ?_, fun id hid other _ heq => ?_, fun i hi => ?_⟩
  · have hlt : (rows.map (·.1)).idxOf id < rows.length := by
      simpa using List.idxOf_lt_length_of_mem hid
    exact ⟨by simp [position], by simpa [position] using hlt⟩
  · exact (List.idxOf_inj hid).mp (by simpa [position] using heq)
  · obtain ⟨n, rfl⟩ := Int.eq_ofNat_of_zero_le hi.1
    have hlt : n < rows.length := by simpa using hi.2
    exact ⟨rows[n].1, List.mem_map_of_mem (List.getElem_mem hlt),
      position_eq_of_getElem? hnodup (List.getElem?_eq_getElem hlt)⟩

/-- The positions of rows in order are the ids from zero on. -/
lemma map_position (hnodup : (rows.map (·.1)).Nodup) :
    (rows.map (·.1)).map (position rows) = intRange 0 rows.length := by
  apply List.ext_getElem
  · simp
  · intro n hn hn'
    have hlt : n < rows.length := by simpa using hn
    have hat := position_eq_of_getElem? hnodup (List.getElem?_eq_getElem hlt)
    simpa [intRange] using hat

/-- The row of an id is found at the position of the id. -/
theorem get?_enumerate_position {β : Type} (hnodup : (rows.map (·.1)).Nodup)
    (h : (id, a) ∈ rows) (change : Int × α → β) :
    (enumerate (rows.map change)).get? (position rows id) = some (change (id, a)) := by
  obtain ⟨n, hn⟩ := List.mem_iff_getElem?.mp h
  rw [position_eq_of_getElem? hnodup hn, get?_enumerate, List.getElem?_map, hn, Option.map_some]

/-- Of two rows, the one that cannot come after the other has the smaller position. -/
lemma position_lt {R : Int × α → Int × α → Prop} (hnodup : (rows.map (·.1)).Nodup)
    (hrows : rows.Pairwise R) (ha : (id, a) ∈ rows) (hb : (other, b) ∈ rows) (hne : id ≠ other)
    (hnot : ¬ R (other, b) (id, a)) : position rows id < position rows other := by
  obtain ⟨n, hn⟩ := List.mem_iff_getElem?.mp ha
  obtain ⟨m, hm⟩ := List.mem_iff_getElem?.mp hb
  rw [position_eq_of_getElem? hnodup hn, position_eq_of_getElem? hnodup hm]
  obtain ⟨hn, han⟩ := List.getElem?_eq_some_iff.mp hn
  obtain ⟨hm, hbm⟩ := List.getElem?_eq_some_iff.mp hm
  rcases lt_trichotomy n m with hlt | rfl | hgt
  · exact_mod_cast hlt
  · exact absurd (congrArg Prod.fst (han.symm.trans hbm)) hne
  · have hR := List.pairwise_iff_getElem.mp hrows m n hm hn hgt
    rw [han, hbm] at hR
    exact absurd hR hnot

end Positions

end Graph

end TypedGraph
