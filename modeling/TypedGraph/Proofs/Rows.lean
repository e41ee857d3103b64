import TypedGraph.Proofs.Traversal
import TypedGraph.Store.Localize

/-!
# Rows of a sample by edge type

The edge type of a row is the only one that the store has, or else the one that its numeral decodes
to. Grouping appends each row to the group of its type, so a group holds the rows of its type in
order (`rowsByType_isGrouping`), and all groups together hold every row once
(`IsGrouping.flatMap_perm`).
-/

namespace TypedGraph.Store

open Traversal

variable {s : Store} {g : Graph} {sample : Sample} {row : Nat} {type : String}

/-! ### The type of a row -/

/-- The edge types that the numerals of a sample decode to. -/
def decoding (s : Store) (g : Graph) (sample : Sample) : List (Int × String) :=
  match s.source.edgeTypesOfNumerals g (Ascending.ofList sample.numerals) with
  | .ok names => (Ascending.ofList sample.numerals).zip names
  | .error _ => []

/-- The edge type of a row: the only one, or the one that its numeral decodes to. -/
def typeOfRow? (s : Store) (g : Graph) (sample : Sample) (row : Nat) : Option String :=
  match s.edges.single? with
  | some (only, _) => some only
  | none => (sample.numerals[row]?).bind fun n => (s.decoding g sample).lookup n

lemma typeOfRow?_of_single {entry : EdgeEntry} (h : s.edges.single? = some (type, entry)) :
    s.typeOfRow? g sample row = some type := by
  simp [typeOfRow?, h]

lemma typeOfRow?_of_not_single (h : s.edges.single? = none) :
    s.typeOfRow? g sample row
      = (sample.numerals[row]?).bind fun n => (s.decoding g sample).lookup n := by
  simp [typeOfRow?, h]

/-- The rows of an edge type, in the order of the sample. -/
def rowsOfType (s : Store) (g : Graph) (sample : Sample) (type : String) : List Nat :=
  (List.range sample.length).filter fun row => s.typeOfRow? g sample row = some type

lemma mem_rowsOfType_iff :
    row ∈ s.rowsOfType g sample type ↔
      row < sample.length ∧ s.typeOfRow? g sample row = some type := by
  simp [rowsOfType]

lemma pairwise_rowsOfType (s : Store) (g : Graph) (sample : Sample) (type : String) :
    (s.rowsOfType g sample type).Pairwise (· < ·) :=
  List.pairwise_lt_range.filter _

/-- Where numerals are decoded one by one, the type of a row is that of its numeral. -/
lemma typeOfRow?_eq_some_iff (hsource : s.source.edgeTypesOfNumerals = Graph.edgeTypesOfNumerals)
    (hsingle : s.edges.single? = none) {names : List String}
    (hnames : g.edgeTypesOfNumerals (Ascending.ofList sample.numerals) = .ok names) {n : Int}
    (hn : sample.numerals[row]? = some n) :
    s.typeOfRow? g sample row = some type ↔ g.edgeTypeOfNumeral n = .ok type := by
  have hdecoding : s.decoding g sample = (Ascending.ofList sample.numerals).zip names := by
    simp only [decoding, hsource, hnames]
  rw [typeOfRow?_of_not_single hsingle, hn, Option.bind_some, hdecoding,
    lookup_zip_eq_some_iff hnames, Ascending.mem_ofList]
  exact and_iff_right (List.mem_of_getElem? hn)

/-! ### Groups -/

/-- What a group becomes when rows are added to it; no rows make no group. -/
def addRows (old : Option (List Nat)) (new : List Nat) : Option (List Nat) :=
  if new = [] then old else some (old.getD [] ++ new)

lemma addRows_cons (old : Option (List Nat)) (row : Nat) (rows : List Nat) :
    addRows old (row :: rows) = addRows (some (old.getD [] ++ [row])) rows := by
  by_cases h : rows = [] <;> simp [addRows, h]

lemma addRows_none_eq_some_iff {new rows : List Nat} :
    addRows none new = some rows ↔ rows = new ∧ rows ≠ [] := by
  rw [addRows]
  split_ifs with h
  · simp [h]
  · constructor
    · intro heq
      obtain rfl : new = rows := by simpa using heq
      exact ⟨rfl, h⟩
    · rintro ⟨rfl, -⟩
      simp

/-- Grouping rows succeeds only on decoded numerals, and adds to every group the rows of its
type. -/
lemma foldlM_insertRow {names : List (Int × String)} {rows : List (Int × Nat)}
    {groups groups' : SortedMap String (List Nat)}
    (h : rows.foldlM (insertRow names) groups = .ok groups') :
    (∀ r ∈ rows, (names.lookup r.1).isSome) ∧ ∀ type, groups'.get? type =
      addRows (groups.get? type) ((rows.filter (names.lookup ·.1 = some type)).map (·.2)) := by
  induction rows generalizing groups with
  | nil =>
    obtain rfl : groups = groups' := by simpa using h
    exact ⟨by simp, fun type => by simp [addRows]⟩
  | cons r rows ih =>
    rw [List.foldlM_cons, bind_eq_ok_iff] at h
    obtain ⟨between, hinsert, h⟩ := h
    obtain ⟨hsome, hget⟩ := ih h
    rw [insertRow] at hinsert
    cases hname : names.lookup r.1 with
    | none => simp [hname] at hinsert
    | some name =>
      rw [hname] at hinsert
      obtain rfl := Except.ok.inj hinsert
      refine ⟨fun x hx => ?_, fun type => ?_⟩
      · rcases List.mem_cons.mp hx with rfl | hx
        · simp [hname]
        · exact hsome x hx
      rw [hget type, SortedMap.get?_alter]
      -- the row goes to the group of its type and to no other
      by_cases htype : type = name
      · subst htype
        rw [if_pos rfl, List.filter_cons_of_pos (by simpa using hname), List.map_cons, addRows_cons]
      · rw [if_neg htype, List.filter_cons_of_neg (by simpa [hname] using Ne.symm htype)]

lemma exists_foldlM_insertRow {names : List (Int × String)} {rows : List (Int × Nat)}
    (h : ∀ r ∈ rows, (names.lookup r.1).isSome) (groups : SortedMap String (List Nat)) :
    ∃ groups', rows.foldlM (insertRow names) groups = .ok groups' := by
  induction rows generalizing groups with
  | nil => exact ⟨groups, rfl⟩
  | cons r rows ih =>
    obtain ⟨name, hname⟩ := Option.isSome_iff_exists.mp (h r List.mem_cons_self)
    have hinsert : insertRow names groups r
        = .ok (groups.alter name fun rows => rows.getD [] ++ [r.2]) := by
      simp [insertRow, hname]
    rw [List.foldlM_cons, hinsert, ok_bind]
    exact ih (fun x hx => h x (List.mem_cons_of_mem r hx)) _

/-- Rows chosen by their numerals are those chosen by their positions. -/
lemma map_filter_zipIdx (p : Int → Bool) (ns : List Int) :
    (ns.zipIdx.filter fun r => p r.1).map (·.2)
      = (List.range ns.length).filter fun row => ns[row]?.any p := by
  have hrange : List.range ns.length = ns.zipIdx.map (·.2) := by
    rw [List.zipIdx_map_snd, List.range_eq_range']
  rw [hrange, List.filter_map]
  congr 1
  apply List.filter_congr
  intro r hr
  simp [List.mem_zipIdx_iff_getElem?.mp hr]

/-- The groups of the rows of a sample, each under its type. -/
structure IsGrouping (s : Store) (g : Graph) (sample : Sample)
    (groups : List (String × List Nat)) : Prop where
  distinct : groups.Pairwise (·.1 ≠ ·.1)
  nonempty : sample.length ≠ 0 → ∀ group ∈ groups, group.2 ≠ []
  rows_eq : ∀ group ∈ groups, group.2 = s.rowsOfType g sample group.1
  /-- Every row is in some group. -/
  covers : ∀ row < sample.length, ∃ group ∈ groups, s.typeOfRow? g sample row = some group.1

lemma isGrouping_single {entry : EdgeEntry} (h : s.edges.single? = some (type, entry)) :
    s.IsGrouping g sample [(type, List.range sample.length)] where
  distinct := List.pairwise_singleton _ _
  nonempty := by simp
  rows_eq := by simp [rowsOfType, typeOfRow?_of_single h]
  covers := by simp [typeOfRow?_of_single h]

/-- The groups that numerals are folded into are those of their types. -/
lemma isGrouping_fold (h : s.edges.single? = none)
    (haligned : sample.numerals.length = sample.length) {groups : SortedMap String (List Nat)}
    (hfold : sample.numerals.zipIdx.foldlM (insertRow (s.decoding g sample)) .empty = .ok groups) :
    s.IsGrouping g sample groups.entries := by
  obtain ⟨hsome, hget⟩ := foldlM_insertRow hfold
  have hrows : ∀ type, ((sample.numerals.zipIdx.filter
      ((s.decoding g sample).lookup ·.1 = some type)).map (·.2))
        = s.rowsOfType g sample type := by
    intro type
    rw [map_filter_zipIdx fun n => (s.decoding g sample).lookup n = some type, haligned]
    rw [rowsOfType]
    apply List.filter_congr
    intro row hrow
    rw [typeOfRow?_of_not_single h]
    cases sample.numerals[row]? <;> simp
  simp only [hrows, SortedMap.get?_empty] at hget
  -- a group is only made for a row that goes there
  have hgroup : ∀ group ∈ groups.entries, group.2 = s.rowsOfType g sample group.1 ∧ group.2 ≠ [] :=
    fun group hgroup => by
      rw [← addRows_none_eq_some_iff, ← hget]
      exact SortedMap.mem_entries_iff.mp hgroup
  refine ⟨groups.ascending.imp ne_of_lt, fun _ group h => (hgroup group h).2,
    fun group h => (hgroup group h).1, fun row hrow => ?_⟩
  · obtain ⟨n, hn⟩ : ∃ n, sample.numerals[row]? = some n :=
      ⟨_, List.getElem?_eq_getElem (haligned ▸ hrow)⟩
    obtain ⟨type, htype⟩ := Option.isSome_iff_exists.mp
      (hsome (n, row) (List.mem_zipIdx_iff_getElem?.mpr hn))
    have hof : s.typeOfRow? g sample row = some type := by
      rw [typeOfRow?_of_not_single h, hn]
      exact htype
    refine ⟨(type, s.rowsOfType g sample type), ?_, hof⟩
    rw [SortedMap.mem_entries_iff, hget, addRows_none_eq_some_iff]
    exact ⟨rfl, List.ne_nil_of_mem (mem_rowsOfType_iff.mpr ⟨hrow, hof⟩)⟩

/-- The rows of a sample whose lists fit together are grouped by their types. -/
theorem rowsByType_isGrouping (haligned : s.alignedFor sample) {groups : List (String × List Nat)}
    (h : s.rowsByType g sample = .ok groups) : s.IsGrouping g sample groups := by
  rw [rowsByType] at h
  rw [alignedFor] at haligned
  cases hsingle : s.edges.single? with
  | some e =>
    rw [hsingle] at h
    obtain rfl := Except.ok.inj h
    exact isGrouping_single hsingle
  | none =>
    simp only [hsingle] at h haligned
    obtain ⟨names, hnames, h⟩ := bind_eq_ok_iff.mp h
    obtain ⟨folded, hfold, h⟩ := bind_eq_ok_iff.mp h
    obtain rfl := Except.ok.inj h
    have hdecoding : s.decoding g sample = (Ascending.ofList sample.numerals).zip names := by
      rw [decoding]
      rw [mapError_eq_ok_iff.mp hnames]
    have hlength : sample.numerals.length = sample.length := by
      simp only [Sample.isAligned, Bool.and_eq_true, decide_eq_true_eq] at haligned
      exact haligned.2.symm
    exact isGrouping_fold hsingle hlength (hdecoding ▸ hfold)

lemma rowsByType_of_undecoded (hsingle : s.edges.single? = none) {e : GraphError}
    (h : s.source.edgeTypesOfNumerals g (Ascending.ofList sample.numerals) = .error e) :
    s.rowsByType g sample = .error (.graph e) := by
  simp [rowsByType, rowsByNumeral, hsingle, h]

/-- Rows are grouped as soon as all numerals are decoded. -/
lemma exists_rowsByType (hsource : s.source.edgeTypesOfNumerals = Graph.edgeTypesOfNumerals)
    (hnames : s.edges.single? = none →
      ∃ names, g.edgeTypesOfNumerals (Ascending.ofList sample.numerals) = .ok names) :
    ∃ groups, s.rowsByType g sample = .ok groups := by
  rw [rowsByType]
  cases hsingle : s.edges.single? with
  | some e => exact ⟨_, rfl⟩
  | none =>
    obtain ⟨names, hnames⟩ := hnames hsingle
    have hlookup : ∀ r ∈ sample.numerals.zipIdx,
        (((Ascending.ofList sample.numerals).zip names).lookup r.1).isSome := by
      intro r hr
      have hmem : r.1 ∈ Ascending.ofList sample.numerals :=
        Ascending.mem_ofList.mpr (List.mem_of_getElem? (List.mem_zipIdx_iff_getElem?.mp hr))
      obtain ⟨name, hname⟩ := ok_of_mapM_eq_ok hnames hmem
      rw [(lookup_zip_eq_some_iff hnames).mpr ⟨hmem, hname⟩]
      rfl
    obtain ⟨groups, hgroups⟩ := exists_foldlM_insertRow hlookup .empty
    exact ⟨groups.entries, by simp [rowsByNumeral, hsource, hnames, hgroups]⟩

namespace IsGrouping

variable {groups : List (String × List Nat)}

lemma mem_of_mem_groups (h : s.IsGrouping g sample groups) {group : String × List Nat}
    (hgroup : group ∈ groups) (hrow : row ∈ group.2) :
    row < sample.length ∧ s.typeOfRow? g sample row = some group.1 := by
  rw [h.rows_eq group hgroup] at hrow
  exact mem_rowsOfType_iff.mp hrow

/-- The groups of a sample hold every row exactly once. -/
theorem flatMap_perm (h : s.IsGrouping g sample groups) :
    (groups.flatMap (·.2)).Perm (List.range sample.length) := by
  refine (List.perm_ext_iff_of_nodup (List.nodup_flatMap.mpr ⟨fun group hgroup => ?_, ?_⟩)
    List.nodup_range).mpr fun row => ?_
  · rw [h.rows_eq group hgroup]
    exact (s.pairwise_rowsOfType g sample group.1).imp ne_of_lt
  · refine h.distinct.imp_of_mem fun hgroup hother hne row hrow hrow' => hne ?_
    have htype := (h.mem_of_mem_groups hgroup hrow).2
    -- a row of two groups would have both their types
    rw [(h.mem_of_mem_groups hother hrow').2] at htype
    exact (Option.some.inj htype).symm
  · rw [List.mem_flatMap, List.mem_range]
    constructor
    · rintro ⟨group, hgroup, hrow⟩
      exact (h.mem_of_mem_groups hgroup hrow).1
    · intro hrow
      obtain ⟨group, hgroup, htype⟩ := h.covers row hrow
      refine ⟨group, hgroup, ?_⟩
      rw [h.rows_eq group hgroup]
      exact mem_rowsOfType_iff.mpr ⟨hrow, htype⟩

lemma sum_length (h : s.IsGrouping g sample groups) :
    (groups.map (·.2.length)).sum = sample.length := by
  have hlength := h.flatMap_perm.length_eq
  rwa [List.length_flatMap, List.length_range] at hlength

end IsGrouping

end TypedGraph.Store
