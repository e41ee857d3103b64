import TypedGraph.Proofs.KeptIds

/-!
# Looking up in offset tables

A table is made of ranges that tile the ids from zero on, each under a name of its own, whether it
is made of ranges or of counts (`ofRanges_eq_ok`, `tiles_ofCounts`). Counts make one as soon as they
add up to less than `2 ^ 63` (`ofCounts?_of_lt`). In such a table the type of an id and the block of
a type are inverse look-ups, types without ids included (`Made.looksUp`).
-/

namespace TypedGraph

open Traversal

/-! ### Tilings -/

namespace TypeRange

variable {first : Int} {r : TypeRange} {rs : List TypeRange} {count : String → Nat}
  {keys : List String}

/-- Ranges that follow one another from a first id on. Any of them may be empty. -/
def Tiles (first : Int) : List TypeRange → Prop
  | [] => True
  | r :: rs => r.start = first ∧ r.start ≤ r.stop ∧ Tiles r.stop rs

namespace Tiles

lemma le_of_mem (h : Tiles first rs) (hr : r ∈ rs) : first ≤ r.start ∧ r.start ≤ r.stop := by
  induction rs generalizing first with
  | nil => simp at hr
  | cons s rs ih =>
    obtain ⟨hstart, hle, hrest⟩ := h
    rcases List.mem_cons.mp hr with rfl | hr
    · exact ⟨hstart.ge, hle⟩
    · have hlater := ih hrest hr
      exact ⟨by omega, hlater.2⟩

lemma pairwise (h : Tiles first rs) : rs.Pairwise fun r r' => r.stop ≤ r'.start := by
  induction rs generalizing first with
  | nil => exact .nil
  | cons r rs ih =>
    obtain ⟨-, -, hrest⟩ := h
    exact List.pairwise_cons.mpr ⟨fun r' hr' => (hrest.le_of_mem hr').1, ih hrest⟩

lemma pairwise_start (h : Tiles first rs) : (rs.map (·.start)).Pairwise (· ≤ ·) :=
  List.pairwise_map.mpr (h.pairwise.imp_of_mem fun hr _ hle => (h.le_of_mem hr).2.trans hle)

lemma pairwise_stop (h : Tiles first rs) : (rs.map (·.stop)).Pairwise (· ≤ ·) :=
  List.pairwise_map.mpr (h.pairwise.imp_of_mem fun _ hr' hle => hle.trans (h.le_of_mem hr').2)

/-- Each range starts where the one before it ends. -/
lemma isChain (h : Tiles first rs) : rs.IsChain fun r r' => r'.start = r.stop := by
  induction rs generalizing first with
  | nil => exact .nil
  | cons r rs ih =>
    obtain ⟨-, -, hrest⟩ := h
    cases rs with
    | nil => exact .singleton r
    | cons r' rs => exact .cons_cons hrest.1 (ih hrest)

end Tiles

lemma tile_congr {count' : String → Nat} (h : ∀ k ∈ keys, count k = count' k) (first : Int) :
    tile count first keys = tile count' first keys := by
  induction keys generalizing first with
  | nil => rfl
  | cons k ks ih =>
    obtain ⟨hk, hks⟩ := List.forall_mem_cons.mp h
    rw [tile, tile, hk, ih hks]

/-- Tiling ranges with names of their own are those of the types counted by their lengths. -/
lemma Tiles.exists_tile (h : Tiles first rs) (hnames : (rs.map (·.name)).Nodup) :
    ∃ count, rs = tile count first (rs.map (·.name)) := by
  induction rs generalizing first with
  | nil => exact ⟨fun _ => 0, rfl⟩
  | cons r rs ih =>
    obtain ⟨hstart, hle, hrest⟩ := h
    obtain ⟨hnew, hnames⟩ := List.nodup_cons.mp hnames
    obtain ⟨count, hcount⟩ := ih hrest hnames
    set length := (r.stop - r.start).toNat with hlength
    -- the name is new, so to give it a length changes no other range
    refine ⟨Function.update count r.name length, ?_⟩
    have hstop : first + (length : Int) = r.stop := by omega
    have hlater : tile (Function.update count r.name length) r.stop (rs.map (·.name)) = rs := by
      have hold : ∀ k ∈ rs.map (·.name), Function.update count r.name length k = count k := by
        intro k hk
        have hne : k ≠ r.name := by
          rintro rfl
          exact hnew hk
        exact Function.update_of_ne hne _ _
      rw [tile_congr hold, ← hcount]
    rw [List.map_cons, tile, Function.update_self, hstop, hlater, ← hstart]

/-- The ranges of some types end where the number of all their ids is reached. -/
lemma getLast?_stop_tile (count : String → Nat) (first : Int) (keys : List String) :
    ((tile count first keys).map (·.stop)).getLast?.getD first
      = first + (repeated count keys).length := by
  induction keys generalizing first with
  | nil => simp [tile, repeated]
  | cons k ks ih =>
    have hlast := ih (first + count k)
    rw [tile, List.map_cons, repeated_cons, List.length_append, List.length_replicate,
      List.getLast?_cons, Option.getD_some, hlast]
    push_cast
    ring

end TypeRange

namespace Offsets

open TypeRange

variable {t : Offsets} {first : Int} {seen : List String} {rs ranges : List TypeRange}
  {count : String → Nat} {keys : List String} {counts : List (String × Nat)} {id : Int}
  {name : String} {r : TypeRange}

/-! ### Tables tile the ids -/

/-- The check of a table accepts tilings under distinct names, and nothing else. -/
lemma check_eq_ok_iff : check first seen rs = .ok () ↔
    Tiles first rs ∧ (rs.map (·.name)).Nodup ∧ ∀ r ∈ rs, r.name ∉ seen := by
  induction rs generalizing first seen with
  | nil => simp [check, Tiles]
  | cons r rs ih =>
    rw [check, Tiles, List.map_cons, List.nodup_cons, List.forall_mem_cons]
    -- the three refusals contradict one part each of what is to be shown
    split_ifs with hle hstart hseen
    · exact iff_of_false (by simp) fun h => absurd h.1.2.1 (not_le.mpr hle)
    · exact iff_of_false (by simp) fun h => hstart h.1.1
    · exact iff_of_false (by simp) fun h => h.2.2.1 (List.contains_iff_mem.mp hseen)
    · have hnew : r.name ∉ seen := by simpa using hseen
      rw [ih]
      -- that no name is met twice is told by the names seen so far
      constructor
      · rintro ⟨htiles, hnodup, hfresh⟩
        have hout : r.name ∉ rs.map (·.name) := by
          intro hmem
          obtain ⟨r', hr', hname⟩ := List.mem_map.mp hmem
          exact hfresh r' hr' (hname ▸ List.mem_cons_self)
        exact ⟨⟨not_not.mp hstart, not_lt.mp hle, htiles⟩, ⟨hout, hnodup⟩, hnew,
          fun r' hr' hmem => hfresh r' hr' (List.mem_cons_of_mem _ hmem)⟩
      · rintro ⟨⟨-, -, htiles⟩, ⟨hout, hnodup⟩, -, hfresh⟩
        refine ⟨htiles, hnodup, fun r' hr' hmem => ?_⟩
        rcases List.mem_cons.mp hmem with heq | hmem
        · exact hout (heq ▸ List.mem_map_of_mem hr')
        · exact hfresh r' hr' hmem

/-- A table of ranges has these ranges, and they tile the ids under distinct names. -/
lemma ofRanges_eq_ok (h : ofRanges ranges = .ok t) :
    t.ranges = Sorting.sort before ranges ∧ Tiles 0 t.ranges ∧ t.names.Nodup := by
  simp only [ofRanges] at h
  cases hcheck : check 0 [] (Sorting.sort before ranges) with
  | error e =>
    rw [hcheck] at h
    cases h
  | ok _ =>
    rw [hcheck] at h
    obtain rfl := Except.ok.inj h
    obtain ⟨htiles, hnodup, -⟩ := check_eq_ok_iff.mp hcheck
    exact ⟨rfl, htiles, hnodup⟩

/-- Counts that add up to less than `2 ^ 63` make blocks that tile the ids. -/
lemma tiles_blocks (hfirst : 0 ≤ first) (hsum : first + (counts.map (·.2)).sum < 2 ^ 63) :
    Tiles first (blocks first counts) := by
  induction counts generalizing first with
  | nil => trivial
  | cons c counts ih =>
    rw [List.map_cons, List.sum_cons, Nat.cast_add] at hsum
    have hstop : word64 (first + word64 c.2) = first + c.2 := by
      rw [word64_add_word64, word64_of_lt (by omega) (by omega)]
    have hrest : Tiles (first + c.2) (blocks (first + c.2) counts) := ih (by omega) (by omega)
    rw [blocks, hstop]
    exact ⟨rfl, by simp, hrest⟩

lemma tiles_ofCounts (hnames : (counts.map (·.1)).Nodup) (hsum : (counts.map (·.2)).sum < 2 ^ 63) :
    Tiles 0 (ofCounts counts).ranges ∧ (ofCounts counts).names.Nodup := by
  refine ⟨tiles_blocks (le_refl 0) ?_, (names_ofCounts counts).nodup_iff.mpr hnames⟩
  have hperm := (Sorting.sort_perm (fun a b : String × Nat => decide (a.1 ≤ b.1)) counts).map (·.2)
  rw [hperm.sum_eq, zero_add]
  exact_mod_cast hsum

/-! ### Inverse look-ups -/

lemma rangeOf_eq_ok_iff (hnames : t.names.Nodup) :
    t.rangeOf name = .ok r ↔ r ∈ t.ranges ∧ r.name = name := by
  constructor
  · exact mem_of_rangeOf
  · rintro ⟨hr, rfl⟩
    exact rangeOf_of_mem hnames hr

lemma rangeOf_of_notMem (h : name ∉ t.names) :
    t.rangeOf name = .error (.lookup (.unknownVertexType name)) := by
  have hnone : t.ranges.find? (·.name = name) = none := by
    rw [List.find?_eq_none]
    intro r hr heq
    exact h (List.mem_map.mpr ⟨r, hr, by simpa using heq⟩)
  rw [rangeOf, hnone]

lemma rangeOf_eq_error_iff {e : StoreError} :
    t.rangeOf name = .error e ↔ name ∉ t.names ∧ e = .lookup (.unknownVertexType name) := by
  constructor
  · intro h
    have hnot : name ∉ t.names := by
      intro hmem
      obtain ⟨r, hr, rfl⟩ := List.mem_map.mp hmem
      have hfound : (t.ranges.find? (·.name = r.name)).isSome := by
        rw [List.find?_isSome]
        exact ⟨r, hr, by simp⟩
      obtain ⟨found, hfind⟩ := Option.isSome_iff_exists.mp hfound
      simp [rangeOf, hfind] at h
    rw [rangeOf_of_notMem hnot] at h
    exact ⟨hnot, (Except.error.inj h).symm⟩
  · rintro ⟨hnot, rfl⟩
    exact rangeOf_of_notMem hnot

lemma idsOf_eq_error_iff {e : StoreError} :
    t.idsOf name = .error e ↔ name ∉ t.names ∧ e = .lookup (.unknownVertexType name) := by
  rw [idsOf, map_eq_error_iff, rangeOf_eq_error_iff]

lemma total_tiling (count : String → Nat) (keys : List String) :
    (tiling count keys).total = (repeated count keys).length := by
  have hlast := getLast?_stop_tile count 0 keys
  rwa [zero_add] at hlast

/-- The look-ups of a table are inverse to each other. -/
structure LooksUp (t : Offsets) : Prop where
  starts : (t.ranges.map (·.start)).Pairwise (· ≤ ·)
  ends : t.ends.Pairwise (· ≤ ·)
  first : ∀ r, t.ranges.head? = some r → r.start = 0
  next : t.ranges.IsChain fun r r' => r'.start = r.stop
  /-- An id is of a type exactly if it lies in the block of the type. -/
  typeOf_iff : ∀ id name, t.typeOf id = .ok name ↔
    ∃ r, t.rangeOf name = .ok r ∧ r.start ≤ id ∧ id < r.stop
  typeOf_outside : ∀ id, (∃ cause, t.typeOf id = .error (.lookup cause)) ↔ id < 0 ∨ t.total ≤ id
  rangeOf_unknown : ∀ name, (∃ cause, t.rangeOf name = .error (.lookup cause)) ↔ name ∉ t.names
  idsOf_unknown : ∀ name, (∃ cause, t.idsOf name = .error (.lookup cause)) ↔ name ∉ t.names
  /-- The ids of the types, type after type, are those from zero on. -/
  parts : ∃ parts, t.names.mapM t.idsOf = .ok parts ∧ parts.flatten = intRange 0 t.total

lemma typeOf_tiling_iff (hkeys : keys.Nodup) :
    (tiling count keys).typeOf id = .ok name ↔
      ∃ r, (tiling count keys).rangeOf name = .ok r ∧ r.start ≤ id ∧ id < r.stop := by
  have hnames : (tiling count keys).names.Nodup := by rwa [names_tiling]
  rw [typeOf_tiling]
  constructor
  · rintro ⟨hneg, htype⟩
    have hname : name ∈ (tile count 0 keys).map (·.name) := by
      rw [map_name_tile]
      exact mem_of_mem_repeated (List.mem_of_getElem? htype)
    obtain ⟨r, hr, rfl⟩ := List.mem_map.mp hname
    refine ⟨r, rangeOf_of_mem hnames hr, (mem_tile_iff hkeys hr).mpr ⟨hneg, ?_⟩⟩
    rwa [sub_zero]
  · rintro ⟨r, hr, hwithin⟩
    obtain ⟨hmem, rfl⟩ := (rangeOf_eq_ok_iff hnames).mp hr
    have htold := (mem_tile_iff hkeys hmem).mp hwithin
    rwa [sub_zero] at htold

lemma typeOf_tiling_outside_iff :
    (∃ cause, (tiling count keys).typeOf id = .error (.lookup cause)) ↔
      id < 0 ∨ (tiling count keys).total ≤ id := by
  constructor
  · rintro ⟨cause, h⟩
    by_contra hwithin
    push Not at hwithin
    obtain ⟨name, hname⟩ := exists_typeOf hwithin.1 hwithin.2
    rw [hname] at h
    cases h
  · intro houtside
    cases h : (tiling count keys).typeOf id with
    -- with no type there is nothing to compare: the error is the one of an id outside
    | error e =>
      exact ⟨_, congrArg Except.error (typeOf_eq_error h)⟩
    | ok name =>
      obtain ⟨hneg, htype⟩ := typeOf_tiling.mp h
      have hlt := (List.getElem?_eq_some_iff.mp htype).1
      rw [total_tiling] at houtside
      omega

/-- A table whose ranges tile the ids under distinct names looks ids and types up both ways. -/
lemma looksUp_of_tiles (htiles : Tiles 0 t.ranges) (hnames : t.names.Nodup) : t.LooksUp := by
  obtain ⟨count, hcount⟩ := htiles.exists_tile hnames
  have ht : t = tiling count t.names := by
    rw [tiling, names, ← hcount]
  -- the table is the tiling of its own names, whose look-ups are known
  refine ⟨htiles.pairwise_start, htiles.pairwise_stop, fun r hr => ?_, htiles.isChain,
    fun id name => ?_, fun id => ?_, fun name => by simp [rangeOf_eq_error_iff],
    fun name => by simp [idsOf_eq_error_iff], ?_⟩
  · cases hranges : t.ranges with
    | nil => simp [hranges] at hr
    | cons s rs =>
      rw [hranges] at hr htiles
      obtain rfl := Option.some.inj hr
      exact htiles.1
  · rw [ht]
    exact typeOf_tiling_iff hnames
  · rw [ht]
    exact typeOf_tiling_outside_iff
  · rw [ht, total_tiling]
    exact mapM_idsOf_tiling hnames

lemma sumsFit_of_lt (hfirst : 0 ≤ first) (hsum : first + (counts.map (·.2)).sum < 2 ^ 63) :
    sumsFit first counts := by
  induction counts generalizing first with
  | nil => rfl
  | cons c counts ih =>
    rw [List.map_cons, List.sum_cons, Nat.cast_add] at hsum
    have hcount : word64 c.2 = c.2 := word64_of_lt (by omega) (by omega)
    have hstop : word64 (first + c.2) = first + c.2 := word64_of_lt (by omega) (by omega)
    rw [sumsFit, hcount, hstop, ih (by omega) (by omega)]
    simp

/-- Counts that add up to less than `2 ^ 63` make a table. -/
lemma ofCounts?_of_lt (hsum : (counts.map (·.2)).sum < 2 ^ 63) :
    ofCounts? counts = some (ofCounts counts) := by
  have hperm := (Sorting.sort_perm (fun a b : String × Nat => decide (a.1 ≤ b.1)) counts).map (·.2)
  refine if_pos (sumsFit_of_lt (le_refl 0) ?_)
  rw [hperm.sum_eq, zero_add]
  exact_mod_cast hsum

/-- The tables that are made of ranges or of counts. -/
inductive Made : Offsets → Prop where
  | ofRanges {ranges : List TypeRange} {t : Offsets} (h : ofRanges ranges = .ok t) : Made t
  | ofCounts {counts : List (String × Nat)} (distinct : (counts.map (·.1)).Nodup)
      (small : (counts.map (·.2)).sum < 2 ^ 63) : Made (ofCounts counts)

/-- A table that is accepted from ranges, or made of counts of distinct types that add up to less
than `2 ^ 63`, looks ids and types up both ways. -/
theorem Made.looksUp (h : Made t) : t.LooksUp := by
  cases h with
  | ofRanges h =>
    obtain ⟨-, htiles, hnames⟩ := ofRanges_eq_ok h
    exact looksUp_of_tiles htiles hnames
  | ofCounts distinct small =>
    obtain ⟨htiles, hnames⟩ := tiles_ofCounts distinct small
    exact looksUp_of_tiles htiles hnames

/-- Three types, of which the second in id order has no vertices. -/
theorem Made.looksUp_threeTypes :
    Made (Offsets.ofCounts [("paper", 3), ("author", 2), ("empty", 0)]) ∧
      (Offsets.ofCounts [("paper", 3), ("author", 2), ("empty", 0)]).LooksUp := by
  have hmade : Made (Offsets.ofCounts [("paper", 3), ("author", 2), ("empty", 0)]) :=
    .ofCounts (by decide) (by decide)
  exact ⟨hmade, hmade.looksUp⟩

/-- A type without vertices owns no id, also not the one at which its block starts. -/
example : (ofCounts [("paper", 3), ("author", 2), ("empty", 0)]).typeOf 2 = .ok "paper" := by
  decide +kernel

end Offsets

end TypedGraph
