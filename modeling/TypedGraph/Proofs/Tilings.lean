import TypedGraph.Proofs.OffsetLookups

/-!
# Ranges that make a table

A table can be made of ranges exactly if they tile the ids from zero on in some order, each under a
name of its own (`ofRanges_accepts`). In a tiling no range starts before an earlier one, and an
empty range stands before a longer one that starts where it does, so a tiling is in the order of a
table already (`Tiles.pairwise_bounds`). That order leaves no choice but among empty ranges at one
place, and these own no ids, so that no look-up depends on it (`answersLike_of_perm`).
-/

namespace TypedGraph

open Traversal

/-! ### Ranges in order -/

namespace TypeRange

variable {first : Int} {rs rs' : List TypeRange} {a b : TypeRange}

/-- Where a range starts and, for ranges that start at one place, where it stops. -/
def bounds (r : TypeRange) : ℤ ×ₗ ℤ := toLex (r.start, r.stop)

lemma before_iff : Offsets.before a b ↔ a.bounds ≤ b.bounds := by
  simp [Offsets.before, bounds, Prod.Lex.toLex_le_toLex]

/-- Ranges tile by their bounds, whatever their names. -/
lemma tiles_congr (h : rs.map bounds = rs'.map bounds) : Tiles first rs ↔ Tiles first rs' := by
  induction rs generalizing first rs' with
  | nil =>
    obtain rfl : rs' = [] := by simpa [eq_comm] using h
    rfl
  | cons r rs ih =>
    cases rs' with
    | nil => simp at h
    | cons r' rs' =>
      simp only [List.map_cons, List.cons.injEq, bounds, toLex_inj, Prod.mk.injEq] at h
      obtain ⟨⟨hstart, hstop⟩, hrest⟩ := h
      rw [Tiles, Tiles, hstart, hstop, ih hrest]

/-- A tiling is in the order of its bounds. -/
lemma Tiles.pairwise_bounds (h : Tiles first rs) : (rs.map bounds).Pairwise (· ≤ ·) := by
  refine List.pairwise_map.mpr (h.pairwise.imp_of_mem fun hr hr' hle => ?_)
  have hfirst := (h.le_of_mem hr).2
  have hsecond := (h.le_of_mem hr').2
  rw [← before_iff]
  simp only [Offsets.before, Bool.or_eq_true, Bool.and_eq_true, decide_eq_true_eq]
  omega

lemma pairwise_bounds_sort (rs : List TypeRange) :
    ((Sorting.sort Offsets.before rs).map bounds).Pairwise (· ≤ ·) := by
  have htotal : ∀ a b, Offsets.before a b || Offsets.before b a := by
    intro a b
    rw [Bool.or_eq_true, before_iff, before_iff]
    exact le_total _ _
  have htrans : ∀ a b c, Offsets.before a b → Offsets.before b c → Offsets.before a c := by
    intro a b c
    rw [before_iff, before_iff, before_iff]
    exact le_trans
  exact List.pairwise_map.mpr ((Sorting.pairwise_sort htotal htrans rs).imp before_iff.mp)

/-- The same ranges have the same bounds wherever they are in order. -/
lemma map_bounds_eq (hperm : rs.Perm rs') (h : (rs.map bounds).Pairwise (· ≤ ·))
    (h' : (rs'.map bounds).Pairwise (· ≤ ·)) : rs.map bounds = rs'.map bounds :=
  (hperm.map bounds).eq_of_pairwise (fun _ _ _ _ => le_antisymm) h h'

/-- Sorting finds a tiling if there is one. -/
lemma Tiles.sort (h : Tiles first rs) (hperm : rs.Perm rs') :
    Tiles first (Sorting.sort Offsets.before rs') := by
  have hsame : (Sorting.sort Offsets.before rs').map bounds = rs.map bounds :=
    map_bounds_eq ((Sorting.sort_perm _ _).trans hperm.symm) (pairwise_bounds_sort rs')
      h.pairwise_bounds
  exact (tiles_congr hsame).mpr h

/-- Ranges under distinct names that tile the ids from zero on in some order. -/
def CanTile (rs : List TypeRange) : Prop :=
  (rs.map (·.name)).Nodup ∧ ∃ ordered, ordered.Perm rs ∧ Tiles 0 ordered

lemma canTile_congr (hperm : rs'.Perm rs) : CanTile rs' ↔ CanTile rs := by
  rw [CanTile, CanTile, (hperm.map _).nodup_iff]
  refine and_congr_right fun _ => exists_congr fun ordered => and_congr_left fun _ => ?_
  exact ⟨fun h => h.trans hperm, fun h => h.trans hperm.symm⟩

end TypeRange

namespace Offsets

open TypeRange

variable {t t' : Offsets} {ranges ranges' : List TypeRange} {id : Int} {name : String}

/-! ### Accepted ranges -/

lemma exists_ofRanges_iff : (∃ t, ofRanges ranges = .ok t) ↔ CanTile ranges := by
  constructor
  · rintro ⟨t, h⟩
    obtain ⟨hranges, htiles, hnames⟩ := ofRanges_eq_ok h
    have hperm : t.ranges.Perm ranges := hranges ▸ Sorting.sort_perm _ _
    exact ⟨(hperm.map _).nodup_iff.mp hnames, t.ranges, hperm, htiles⟩
  · rintro ⟨hnames, ordered, hperm, htiles⟩
    have hsorted := (Sorting.sort_perm before ranges).map (·.name)
    have hcheck : check 0 [] (Sorting.sort before ranges) = .ok () :=
      check_eq_ok_iff.mpr ⟨htiles.sort hperm, hsorted.nodup_iff.mpr hnames, by simp⟩
    exact ⟨_, by rw [ofRanges, hcheck]⟩

lemma exists_ofRanges_error (h : ¬ CanTile ranges) :
    ∃ cause, ofRanges ranges = .error (.construction cause) := by
  rw [← exists_ofRanges_iff, ofRanges] at h
  rw [ofRanges]
  cases hcheck : check 0 [] (Sorting.sort before ranges) with
  | error cause => exact ⟨cause, rfl⟩
  | ok _ =>
    rw [hcheck] at h
    exact absurd ⟨_, rfl⟩ h

/-! ### Tables of the same ranges -/

/-- Tables that answer every look-up alike, also one that fails. -/
structure AnswersLike (t t' : Offsets) : Prop where
  typeOf : ∀ id, t.typeOf id = t'.typeOf id
  rangeOf : ∀ name, t.rangeOf name = t'.rangeOf name
  idsOf : ∀ name, t.idsOf name = t'.idsOf name
  total : t.total = t'.total

lemma total_congr (h : t.ranges.map bounds = t'.ranges.map bounds) : t.total = t'.total := by
  have hends (t : Offsets) : t.ends = (t.ranges.map bounds).map fun b => (ofLex b).2 := by
    rw [List.map_map]
    rfl
  rw [total, total, hends, hends, h]

lemma rangeOf_congr (hperm : t.ranges.Perm t'.ranges) (hnames : t.names.Nodup)
    (hnames' : t'.names.Nodup) (name : String) : t.rangeOf name = t'.rangeOf name := by
  have hmem : name ∈ t.names ↔ name ∈ t'.names := (hperm.map _).mem_iff
  by_cases h : name ∈ t.names
  · obtain ⟨r, hr, rfl⟩ := List.mem_map.mp h
    rw [rangeOf_of_mem hnames hr, rangeOf_of_mem hnames' (hperm.mem_iff.mp hr)]
  · rw [rangeOf_of_notMem h, rangeOf_of_notMem (hmem.not.mp h)]

/-- The type of an id is told by the blocks of the types and, where it has none, by the total. -/
lemma typeOf_congr (h : t.LooksUp) (h' : t'.LooksUp) (hrangeOf : t.rangeOf = t'.rangeOf)
    (htotal : t.total = t'.total) (id : Int) : t.typeOf id = t'.typeOf id := by
  have hiff (name : String) : t.typeOf id = .ok name ↔ t'.typeOf id = .ok name := by
    rw [h.typeOf_iff, h'.typeOf_iff, hrangeOf]
  cases htype : t.typeOf id with
  | ok name => rw [(hiff name).mp htype]
  | error e =>
    cases htype' : t'.typeOf id with
    | ok name =>
      rw [(hiff name).mpr htype'] at htype
      cases htype
    | error e' => rw [typeOf_eq_error htype, typeOf_eq_error htype', htotal]

/-- Tables of the same ranges answer alike, in whatever order the ranges were given. -/
lemma answersLike_of_perm (hperm : ranges'.Perm ranges) (h : ofRanges ranges = .ok t)
    (h' : ofRanges ranges' = .ok t') : AnswersLike t t' := by
  obtain ⟨hranges, htiles, hnames⟩ := ofRanges_eq_ok h
  obtain ⟨hranges', htiles', hnames'⟩ := ofRanges_eq_ok h'
  have hsame : t.ranges.Perm t'.ranges := by
    rw [hranges, hranges']
    exact (Sorting.sort_perm _ _).trans (hperm.symm.trans (Sorting.sort_perm _ _).symm)
  have hrangeOf := rangeOf_congr hsame hnames hnames'
  have htotal := total_congr (map_bounds_eq hsame htiles.pairwise_bounds htiles'.pairwise_bounds)
  refine ⟨?_, hrangeOf, fun name => ?_, htotal⟩
  · exact typeOf_congr (looksUp_of_tiles htiles hnames) (looksUp_of_tiles htiles' hnames')
      (funext hrangeOf) htotal
  · rw [idsOf, idsOf, hrangeOf]

/-- A table is made of ranges exactly if they have distinct names and tile the ids from zero on in
some order; it is refused otherwise. The order in which they are given decides neither whether there
is a table nor what it answers. -/
theorem ofRanges_accepts (ranges : List TypeRange) :
    ((∃ t, ofRanges ranges = .ok t) ↔ CanTile ranges) ∧
      (¬ CanTile ranges → ∃ cause, ofRanges ranges = .error (.construction cause)) ∧
      ∀ ranges', ranges'.Perm ranges →
        ((∃ t, ofRanges ranges' = .ok t) ↔ ∃ t, ofRanges ranges = .ok t) ∧
          ∀ t t', ofRanges ranges = .ok t → ofRanges ranges' = .ok t' → AnswersLike t t' := by
  refine ⟨exists_ofRanges_iff, exists_ofRanges_error, fun ranges' hperm => ⟨?_, ?_⟩⟩
  · rw [exists_ofRanges_iff, exists_ofRanges_iff, canTile_congr hperm]
  · intro t t' h h'
    exact answersLike_of_perm hperm h h'

/-- A block, two empty ones where it starts, and the block before it. -/
def draftedRanges : List TypeRange :=
  [⟨"paper", 2, 5⟩, ⟨"draft", 2, 2⟩, ⟨"author", 0, 2⟩, ⟨"note", 2, 2⟩]

/-- The two orders put the empty blocks in two places, and a block that leaves a gap is refused. -/
theorem ofRanges_accepts_draftedRanges :
    draftedRanges.reverse.Perm draftedRanges ∧
      (∃ t t', ofRanges draftedRanges = .ok t ∧ ofRanges draftedRanges.reverse = .ok t' ∧
        t.names = ["author", "draft", "note", "paper"] ∧
        t'.names = ["author", "note", "draft", "paper"] ∧ AnswersLike t t') ∧
      ¬ CanTile [⟨"author", 0, 2⟩, ⟨"paper", 3, 5⟩] ∧
      ∃ cause, ofRanges [⟨"author", 0, 2⟩, ⟨"paper", 3, 5⟩] = .error (.construction cause) := by
  have hperm : draftedRanges.reverse.Perm draftedRanges := List.reverse_perm _
  have h : ofRanges draftedRanges = _ := eq_ok_get (by decide +kernel)
  have h' : ofRanges draftedRanges.reverse = _ := eq_ok_get (by decide +kernel)
  obtain ⟨-, -, halike⟩ := ofRanges_accepts draftedRanges
  obtain ⟨haccepted, hrefused, -⟩ := ofRanges_accepts [⟨"author", 0, 2⟩, ⟨"paper", 3, 5⟩]
  have hgap : ¬ CanTile [⟨"author", 0, 2⟩, ⟨"paper", 3, 5⟩] := by
    rw [← haccepted]
    rintro ⟨t, ht⟩
    cases ht
  refine ⟨hperm, ⟨_, _, h, h', ?_, ?_, (halike _ hperm).2 _ _ h h'⟩, hgap, hrefused hgap⟩
  · decide +kernel
  · decide +kernel

end Offsets

end TypedGraph
