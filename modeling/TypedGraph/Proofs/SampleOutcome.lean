import TypedGraph.Proofs.Localization

/-!
# Which samples are refused

Over a plain source whose tables did not change, a sample is refused for its lengths, or else for a
numeral without an edge type, or else for an end that the batch lacks, and it is told by positions
in every other case. The four cases are `renumberSample_of_misaligned`,
`renumberSample_of_badNumeral`, `renumberSample_of_absent` and `renumberSample_of_present`.
-/

namespace TypedGraph

open Traversal

variable {s : Store} {g : Graph} {sample : Sample} {batch : BatchIndex}

/-! ### Numerals -/

namespace Graph

lemma edgeTypeOfNumeral_eq_ok_iff {n : Int} {type : String} :
    g.edgeTypeOfNumeral n = .ok type ↔ 0 ≤ n ∧ g.namedEdgeTypes[n.toNat]? = some type := by
  rw [edgeTypeOfNumeral]
  split_ifs with hneg
  · simp [hneg]
  · cases g.namedEdgeTypes[n.toNat]? <;> simp [not_lt.mp hneg]

lemma exists_edgeTypeOfNumeral_iff {n : Int} :
    (∃ type, g.edgeTypeOfNumeral n = .ok type) ↔ 0 ≤ n ∧ n < g.namedEdgeTypes.length := by
  simp only [edgeTypeOfNumeral_eq_ok_iff, exists_and_left]
  apply and_congr_right
  intro hneg
  rw [← Int.toNat_lt hneg]
  constructor
  · rintro ⟨type, htype⟩
    exact (List.getElem?_eq_some_iff.mp htype).1
  · intro hlt
    exact ⟨_, List.getElem?_eq_getElem hlt⟩

lemma edgeTypeOfNumeral_eq_error {n : Int} {e : GraphError} (h : g.edgeTypeOfNumeral n = .error e) :
    e = .unknownEdgeTypeNumeral n := by
  rw [edgeTypeOfNumeral] at h
  split at h
  · simp at h
  · exact (Except.error.inj h).symm

end Graph

/-! ### Reasons for refusal -/

namespace Store

/-- A sample whose lists do not fit together; numerals count where there is a choice of types. -/
def Misaligned (s : Store) (sample : Sample) : Prop :=
  sample.sources.length ≠ sample.destinations.length ∨
    s.edges.length ≠ 1 ∧ sample.numerals.length ≠ sample.sources.length

/-- A numeral of a sample that is outside the edge types of the graph, where there is a choice. -/
def BadNumeral (s : Store) (g : Graph) (sample : Sample) (n : Int) : Prop :=
  s.edges.length ≠ 1 ∧ n ∈ sample.numerals ∧ (n < 0 ∨ (g.edgeTypes.length : Int) ≤ n)

/-- The edge type of a row: the only one that the store has, or the one of its numeral. -/
def RowHasType (s : Store) (g : Graph) (sample : Sample) (row : Nat) (type : String) : Prop :=
  row < sample.length ∧
    ((s.edges.length = 1 ∧ type ∈ s.edges.names) ∨
      (s.edges.length ≠ 1 ∧
        ∃ n, sample.numerals[row]? = some n ∧ g.edgeTypeOfNumeral n = .ok type))

/-- A row with an end that the batch does not hold under the vertex type of that end. -/
def MissesEnd (sample : Sample) (batch : BatchIndex) (triple : EdgeTriple) (row : Nat) : Prop :=
  (∃ id, sample.sources[row]? = some id ∧ ¬ batch.Holds triple.source id) ∨
    ∃ id, sample.destinations[row]? = some id ∧ ¬ batch.Holds triple.destination id

/-- Some row of an edge type has an end that the batch lacks. -/
def Absent (s : Store) (g : Graph) (sample : Sample) (batch : BatchIndex) : Prop :=
  ∃ row type entry, s.RowHasType g sample row type ∧ s.edges.entry type = .ok entry ∧
    MissesEnd sample batch entry.triple row

/-! ### Lengths -/

lemma alignedFor_iff : s.alignedFor sample ↔ ¬ s.Misaligned sample := by
  rw [alignedFor, Misaligned]
  cases hsingle : s.edges.single? with
  | some e => simp [(EdgeCatalog.names_of_single hsingle).1]
  | none =>
    simp only [Sample.isAligned, Bool.and_eq_true, decide_eq_true_eq]
    have hlen := EdgeCatalog.single?_eq_none_iff.mp hsingle
    omega

lemma renumberSample_of_misaligned (h : s.Misaligned sample) :
    ∃ cause, s.renumberSample g sample batch = .error (.shapeMismatch cause) := by
  have haligned : ¬ s.alignedFor sample := fun h' => alignedFor_iff.mp h' h
  exact ⟨_, by simp [renumberSample, haligned]; rfl⟩

/-! ### Numerals -/

lemma edgeTypesOfNumerals_eq (hs : Reachable .plain g s) :
    s.source.edgeTypesOfNumerals = Graph.edgeTypesOfNumerals := by
  rw [hs.source_eq]
  rfl

lemma badNumeral_iff (hs : Reachable .plain g s) {n : Int} :
    s.BadNumeral g sample n ↔ s.edges.length ≠ 1 ∧ n ∈ sample.numerals ∧
      ¬ ∃ type, g.edgeTypeOfNumeral n = .ok type := by
  rw [BadNumeral]
  rw [Graph.exists_edgeTypeOfNumeral_iff, hs.edges_names.2, List.length_map]
  refine and_congr_right fun _ => and_congr_right ?_
  intro _
  omega

/-- A sample with a bad numeral is refused for the smallest one. -/
lemma renumberSample_of_badNumeral (batch : BatchIndex) (hs : Reachable .plain g s)
    (haligned : ¬ s.Misaligned sample) (hbad : ∃ n, s.BadNumeral g sample n) :
    ∃ n, s.renumberSample g sample batch = .error (.graph (.unknownEdgeTypeNumeral n)) ∧
      s.BadNumeral g sample n ∧ ∀ m, s.BadNumeral g sample m → n ≤ m := by
  obtain ⟨b, hb⟩ := hbad
  have hsingle : s.edges.single? = none := EdgeCatalog.single?_eq_none_iff.mpr hb.1
  have hmem {n : Int} : n ∈ Ascending.ofList sample.numerals ↔ n ∈ sample.numerals :=
    Ascending.mem_ofList
  cases hnames : g.edgeTypesOfNumerals (Ascending.ofList sample.numerals) with
  | ok names =>
    obtain ⟨-, hbmem, hnone⟩ := (badNumeral_iff hs).mp hb
    exact absurd (ok_of_mapM_eq_ok hnames (hmem.mpr hbmem)) hnone
  | error e =>
    -- the numerals are decoded in ascending order, so the first that fails is the smallest bad one
    obtain ⟨before, n, after, hsplit, hbefore, hn⟩ := split_of_mapM_eq_error hnames
    obtain rfl := Graph.edgeTypeOfNumeral_eq_error hn
    refine ⟨n, ?_, (badNumeral_iff hs).mpr ⟨hb.1, hmem.mp (by simp [hsplit]), by simp [hn]⟩, ?_⟩
    · rw [renumberSample_eq (alignedFor_iff.mpr haligned),
        rowsByType_of_undecoded hsingle (by rw [edgeTypesOfNumerals_eq hs, hnames]), error_bind]
    · intro m hm
      obtain ⟨-, hmmem, hnone⟩ := (badNumeral_iff hs).mp hm
      have hasc := Ascending.pairwise_ofList sample.numerals
      have hm' := hmem.mpr hmmem
      rw [hsplit] at hasc hm'
      rcases List.mem_append.mp hm' with hm' | hm'
      · exact absurd (hbefore m hm') hnone
      · rcases List.mem_cons.mp hm' with rfl | hm'
        · exact le_refl m
        · exact ((List.pairwise_cons.mp (List.pairwise_append.mp hasc).2.1).1 m hm').le

/-! ### Types of rows -/

/-- Where no numeral is bad, all are decoded. -/
lemma decoded_of_not_badNumeral (hs : Reachable .plain g s)
    (hgood : ∀ n, ¬ s.BadNumeral g sample n) (hsingle : s.edges.single? = none) :
    ∃ names, g.edgeTypesOfNumerals (Ascending.ofList sample.numerals) = .ok names := by
  apply mapM_ok_of_forall
  intro n hn
  by_contra hnone
  exact hgood n ((badNumeral_iff hs).mpr
    ⟨EdgeCatalog.single?_eq_none_iff.mp hsingle, Ascending.mem_ofList.mp hn, hnone⟩)

/-- Rows are grouped under the types that they have. -/
lemma rowHasType_iff (hs : Reachable .plain g s) (hgood : ∀ n, ¬ s.BadNumeral g sample n)
    {row : Nat} {type : String} :
    s.RowHasType g sample row type ↔
      row < sample.length ∧ s.typeOfRow? g sample row = some type := by
  apply and_congr_right
  intro _
  cases hsingle : s.edges.single? with
  | some e =>
    obtain ⟨hlen, hnames, -⟩ := EdgeCatalog.names_of_single hsingle
    simp [hlen, hnames, typeOfRow?_of_single hsingle, eq_comm]
  | none =>
    have hlen := EdgeCatalog.single?_eq_none_iff.mp hsingle
    obtain ⟨names, hnames⟩ := decoded_of_not_badNumeral hs hgood hsingle
    cases hn : sample.numerals[row]? with
    | none => simp [hlen, typeOfRow?_of_not_single hsingle, hn]
    | some n =>
      rw [typeOfRow?_eq_some_iff (edgeTypesOfNumerals_eq hs) hsingle hnames hn]
      simp [hlen]

/-- The catalog has an entry for the type of every row. -/
lemma exists_entry (hs : Reachable .plain g s) {row : Nat} {type : String}
    (h : s.RowHasType g sample row type) : ∃ entry, s.edges.entry type = .ok entry := by
  rw [← EdgeCatalog.mem_names_iff]
  obtain ⟨-, ⟨-, hmem⟩ | ⟨-, n, -, hn⟩⟩ := h
  · exact hmem
  · rw [hs.edges_names.1]
    exact List.mem_of_getElem? (Graph.edgeTypeOfNumeral_eq_ok_iff.mp hn).2

/-! ### Ends -/

section Ends

variable {type : String} {ids : List Int} {e : StoreError}

lemma placeIds_of_int64 (hdtype : s.config.vertexDType = .int64) (ps : List Int) :
    ∃ t, s.placeIds (Tensor.ofInts ps) = .ok t := by
  rw [placeIds]
  rw [Tensor.cast_ofInts (by rw [hdtype]; rfl), hdtype]
  exact ⟨_, rfl⟩

/-- Vertices that a batch holds under a type have positions in the group. -/
lemma exists_positions {group : List Int} (hgroup : batch.get? type = some group)
    (hasc : group.Pairwise (· < ·)) (hall : ∀ id ∈ ids, batch.Holds type id) :
    ∃ ps, ids.mapM (positionIn type group) = .ok ps := by
  refine mapM_ok_of_forall fun id hid => ?_
  obtain ⟨group', hgroup', hmem⟩ := hall id hid
  obtain rfl : group' = group := Option.some.inj (hgroup'.symm.trans hgroup)
  obtain ⟨i, hi⟩ := Option.isSome_iff_exists.mp ((Search.position?_isSome_iff hasc).mpr hmem)
  exact ⟨i, positionIn_eq_ok_iff.mpr ⟨i, hi, rfl⟩⟩

/-- Vertices are located exactly if the batch holds all of them. -/
lemma exists_localize_iff (hdtype : s.config.vertexDType = .int64)
    (hbatch : ∀ group, batch.get? type = some group → group.Pairwise (· < ·)) (hne : ids ≠ []) :
    (∃ t, s.localize batch type ids = .ok t) ↔ ∀ id ∈ ids, batch.Holds type id := by
  simp only [localize_eq_ok_iff]
  constructor
  · -- what was found at a position is in the group, whatever the order of the group
    rintro ⟨t, group, ps, hgroup, hps, -⟩ id hid
    obtain ⟨p, hp⟩ := ok_of_mapM_eq_ok hps hid
    obtain ⟨i, hi, -⟩ := positionIn_eq_ok_iff.mp hp
    exact ⟨group, hgroup, List.mem_of_getElem? (Search.getElem?_of_position? hi)⟩
  · -- the converse needs the ascending order, and a first id for a group to be there at all
    intro hall
    obtain ⟨first, hfirst⟩ := List.exists_mem_of_ne_nil ids hne
    obtain ⟨group, hgroup, -⟩ := hall first hfirst
    obtain ⟨ps, hps⟩ := exists_positions hgroup (hbatch group hgroup) hall
    obtain ⟨t, ht⟩ := placeIds_of_int64 hdtype ps
    exact ⟨t, group, ps, hgroup, hps, ht⟩

lemma localize_eq_error (hdtype : s.config.vertexDType = .int64)
    (h : s.localize batch type ids = .error e) : ∃ cause, e = .consistency cause := by
  rw [localize] at h
  cases hgroup : batch.get? type with
  | none =>
    simp only [hgroup, throw_eq_error, error_bind] at h
    exact ⟨_, (Except.error.inj h).symm⟩
  | some group =>
    simp only [hgroup, pure_eq_ok, ok_bind] at h
    cases hps : ids.mapM (positionIn type group) with
    | error e' =>
      rw [hps, error_bind] at h
      obtain rfl := Except.error.inj h
      obtain ⟨-, id, -, -, -, hid⟩ := split_of_mapM_eq_error hps
      rw [positionIn] at hid
      split at hid
      · simp at hid
      · exact ⟨_, (Except.error.inj hid).symm⟩
    | ok ps =>
      obtain ⟨t, ht⟩ := placeIds_of_int64 hdtype ps
      simp [hps, ht] at h

/-- The ids at some rows of a column are all held exactly if that of every row is. -/
lemma forall_filterMap_iff {column : List Int} {rows : List Nat} {P : Int → Prop} :
    (∀ id ∈ rows.filterMap (column[·]?), P id) ↔
      ∀ row ∈ rows, ¬ ∃ id, column[row]? = some id ∧ ¬ P id := by
  simp only [List.mem_filterMap]
  constructor
  · rintro h row hrow ⟨id, hid, hnot⟩
    exact hnot (h id ⟨row, hrow, hid⟩)
  · rintro h id ⟨row, hrow, hid⟩
    by_contra hnot
    exact h row hrow ⟨id, hid, hnot⟩

lemma filterMap_ne_nil (column : List Int) {rows : List Nat} (hne : rows ≠ [])
    (hrows : ∀ row ∈ rows, row < column.length) : rows.filterMap (column[·]?) ≠ [] := by
  rw [filterMap_getElem? hrows]
  simpa using hne

end Ends

/-! ### Groups of rows -/

section Groups

variable {group : String × List Nat} {entry : EdgeEntry}

lemma exists_localizeGroup_iff (hdtype : s.config.vertexDType = .int64)
    (hbatch : ∀ type group, batch.get? type = some group → group.Pairwise (· < ·))
    (haligned : ¬ s.Misaligned sample) (hentry : s.edges.entry group.1 = .ok entry)
    (hne : group.2 ≠ []) (hrows : ∀ row ∈ group.2, row < sample.length) :
    (∃ l, s.localizeGroup sample batch group = .ok l) ↔
      ∀ row ∈ group.2, ¬ MissesEnd sample batch entry.triple row := by
  obtain ⟨hlen, hlen'⟩ := lengths_of_alignedFor (alignedFor_iff.mpr haligned)
  have hsources := exists_localize_iff hdtype (hbatch entry.triple.source)
    (filterMap_ne_nil sample.sources hne (by rwa [hlen]))
  have hdestinations := exists_localize_iff hdtype (hbatch entry.triple.destination)
    (filterMap_ne_nil sample.destinations hne (by rwa [hlen']))
  rw [forall_filterMap_iff] at hsources hdestinations
  have hparts : (∃ l, s.localizeGroup sample batch group = .ok l) ↔
      (∃ t, s.localize batch entry.triple.source
        (group.2.filterMap (sample.sources[·]?)) = .ok t) ∧
      ∃ t, s.localize batch entry.triple.destination
        (group.2.filterMap (sample.destinations[·]?)) = .ok t := by
    simp only [localizeGroup_eq_ok_iff, hentry, Except.ok.injEq, exists_eq_left']
    constructor
    · rintro ⟨l, htriple, hs, hd⟩
      rw [htriple] at hs hd
      exact ⟨⟨_, hs⟩, _, hd⟩
    · rintro ⟨⟨t, hs⟩, t', hd⟩
      exact ⟨(entry.triple, t, t'), rfl, hs, hd⟩
  rw [hparts, hsources, hdestinations, ← forall₂_and]
  simp only [MissesEnd]
  simp only [not_or]

lemma localizeGroup_eq_error (hdtype : s.config.vertexDType = .int64)
    (hentry : s.edges.entry group.1 = .ok entry) {e : StoreError}
    (h : s.localizeGroup sample batch group = .error e) : ∃ cause, e = .consistency cause := by
  rw [localizeGroup] at h
  rw [hentry, ok_bind] at h
  cases hsources : s.localize batch entry.triple.source
      (group.2.filterMap (sample.sources[·]?)) with
  | error e' =>
    rw [hsources, error_bind] at h
    obtain rfl := Except.error.inj h
    exact localize_eq_error hdtype hsources
  | ok sources =>
    rw [hsources, ok_bind] at h
    cases hdestinations : s.localize batch entry.triple.destination
        (group.2.filterMap (sample.destinations[·]?)) with
    | error e' =>
      rw [hdestinations, error_bind] at h
      obtain rfl := Except.error.inj h
      exact localize_eq_error hdtype hdestinations
    | ok destinations => simp [hdestinations] at h

end Groups

/-! ### Outcomes -/

/-- The groups of a sample whose lists fit together and whose numerals are decoded. A batch lacks an
end of some row exactly if some group cannot be localized. -/
lemma exists_groups (hs : Reachable .plain g s) (hdtype : s.config.vertexDType = .int64)
    (hbatch : ∀ type group, batch.get? type = some group → group.Pairwise (· < ·))
    (hne : sample.sources ≠ []) (haligned : ¬ s.Misaligned sample)
    (hgood : ∀ n, ¬ s.BadNumeral g sample n) :
    ∃ groups, s.rowsByType g sample = .ok groups ∧
      (∀ group ∈ groups, ∃ entry, s.edges.entry group.1 = .ok entry) ∧
      (s.Absent g sample batch ↔
        ∃ group ∈ groups, ¬ ∃ l, s.localizeGroup sample batch group = .ok l) := by
  obtain ⟨groups, hgroups⟩ := exists_rowsByType (edgeTypesOfNumerals_eq hs)
    (decoded_of_not_badNumeral hs hgood)
  have hgrouping := rowsByType_isGrouping (alignedFor_iff.mpr haligned) hgroups
  have hnonempty : ∀ group ∈ groups, group.2 ≠ [] :=
    hgrouping.nonempty (by simpa [Sample.length] using hne)
  have hrow {group : String × List Nat} (hgroup : group ∈ groups) {row : Nat}
      (hrow : row ∈ group.2) : s.RowHasType g sample row group.1 :=
    (rowHasType_iff hs hgood).mpr (hgrouping.mem_of_mem_groups hgroup hrow)
  have hentry : ∀ group ∈ groups, ∃ entry, s.edges.entry group.1 = .ok entry :=
    fun group hgroup => by
      obtain ⟨row, hmem⟩ := List.exists_mem_of_ne_nil group.2 (hnonempty group hgroup)
      exact exists_entry hs (hrow hgroup hmem)
  have hlocal {group : String × List Nat} (hgroup : group ∈ groups) {entry : EdgeEntry}
      (hentry : s.edges.entry group.1 = .ok entry) :=
    exists_localizeGroup_iff hdtype hbatch haligned hentry (hnonempty group hgroup)
      fun row hmem => (hgrouping.mem_of_mem_groups hgroup hmem).1
  -- the row that misses an end decides the group that fails, and the other way round
  refine ⟨groups, hgroups, hentry, ?_, ?_⟩
  · rintro ⟨row, type, entry, htype, hentry, hmiss⟩
    obtain ⟨hlt, htype⟩ := (rowHasType_iff hs hgood).mp htype
    obtain ⟨group, hgroup, hof⟩ := hgrouping.covers row hlt
    obtain rfl : type = group.1 := Option.some.inj (htype.symm.trans hof)
    refine ⟨group, hgroup, fun hok => (hlocal hgroup hentry).mp hok row ?_ hmiss⟩
    rw [hgrouping.rows_eq group hgroup]
    exact mem_rowsOfType_iff.mpr ⟨hlt, hof⟩
  · rintro ⟨group, hgroup, hfail⟩
    obtain ⟨entry, hok⟩ := hentry group hgroup
    rw [hlocal hgroup hok] at hfail
    push Not at hfail
    obtain ⟨row, hmem, hmiss⟩ := hfail
    exact ⟨row, group.1, entry, hrow hgroup hmem, hok, hmiss⟩

lemma renumberSample_of_absent (hs : Reachable .plain g s) (hdtype : s.config.vertexDType = .int64)
    (hbatch : ∀ type group, batch.get? type = some group → group.Pairwise (· < ·))
    (hne : sample.sources ≠ []) (haligned : ¬ s.Misaligned sample)
    (hgood : ∀ n, ¬ s.BadNumeral g sample n) (habsent : s.Absent g sample batch) :
    ∃ cause, s.renumberSample g sample batch = .error (.consistency cause) := by
  obtain ⟨groups, hgroups, hentry, hiff⟩ := exists_groups hs hdtype hbatch hne haligned hgood
  obtain ⟨bad, hbad, hfail⟩ := hiff.mp habsent
  rw [renumberSample_eq (alignedFor_iff.mpr haligned), hgroups, ok_bind]
  cases hls : groups.mapM (s.localizeGroup sample batch) with
  | ok ls => exact absurd (ok_of_mapM_eq_ok hls hbad) hfail
  | error e =>
    obtain ⟨before, group, after, hsplit, -, hgroup⟩ := split_of_mapM_eq_error hls
    obtain ⟨entry, hok⟩ := hentry group (by simp [hsplit])
    obtain ⟨cause, rfl⟩ := localizeGroup_eq_error hdtype hok hgroup
    exact ⟨cause, rfl⟩

lemma renumberSample_of_present (hs : Reachable .plain g s)
    (hdtype : s.config.vertexDType = .int64)
    (hbatch : ∀ type group, batch.get? type = some group → group.Pairwise (· < ·))
    (hne : sample.sources ≠ []) (haligned : ¬ s.Misaligned sample)
    (hgood : ∀ n, ¬ s.BadNumeral g sample n) (hpresent : ¬ s.Absent g sample batch) :
    ∃ edges, s.renumberSample g sample batch = .ok edges := by
  obtain ⟨groups, hgroups, -, hiff⟩ := exists_groups hs hdtype hbatch hne haligned hgood
  rw [hiff] at hpresent
  push Not at hpresent
  obtain ⟨ls, hls⟩ := mapM_ok_of_forall hpresent
  rw [renumberSample_eq (alignedFor_iff.mpr haligned), hgroups, ok_bind, hls]
  exact ⟨_, rfl⟩

/-- What becomes of a sample whose lists fit together. -/
lemma renumberSample_cases (hs : Reachable .plain g s) (hdtype : s.config.vertexDType = .int64)
    (hbatch : ∀ type group, batch.get? type = some group → group.Pairwise (· < ·))
    (hne : sample.sources ≠ []) (haligned : ¬ s.Misaligned sample) :
    (∃ n, s.renumberSample g sample batch = .error (.graph (.unknownEdgeTypeNumeral n)) ∧
      s.BadNumeral g sample n ∧ ∀ m, s.BadNumeral g sample m → n ≤ m) ∨
    ((¬ ∃ n, s.BadNumeral g sample n) ∧ s.Absent g sample batch ∧
      ∃ cause, s.renumberSample g sample batch = .error (.consistency cause)) ∨
    ((¬ ∃ n, s.BadNumeral g sample n) ∧ ¬ s.Absent g sample batch ∧
      ∃ edges, s.renumberSample g sample batch = .ok edges) := by
  by_cases hbad : ∃ n, s.BadNumeral g sample n
  · exact .inl (renumberSample_of_badNumeral batch hs haligned hbad)
  · have hgood := not_exists.mp hbad
    by_cases habsent : s.Absent g sample batch
    · exact .inr (.inl ⟨hbad, habsent,
        renumberSample_of_absent hs hdtype hbatch hne haligned hgood habsent⟩)
    · exact .inr (.inr ⟨hbad, habsent,
        renumberSample_of_present hs hdtype hbatch hne haligned hgood habsent⟩)

/-- A sample with an edge is refused for its lengths, or else for its smallest bad numeral, or else
for an end that the batch lacks, and is told by positions otherwise. -/
theorem renumberSample_outcome (hs : Reachable .plain g s)
    (hdtype : s.config.vertexDType = .int64)
    (hbatch : ∀ type group, batch.get? type = some group → group.Pairwise (· < ·))
    (hne : sample.sources ≠ []) :
    ((∃ cause, s.renumberSample g sample batch = .error (.shapeMismatch cause)) ↔
        s.Misaligned sample) ∧
      (¬ s.Misaligned sample →
        ((∃ n, s.renumberSample g sample batch = .error (.graph (.unknownEdgeTypeNumeral n))) ↔
          ∃ n, s.BadNumeral g sample n) ∧
        ∀ n, s.renumberSample g sample batch = .error (.graph (.unknownEdgeTypeNumeral n)) →
          s.BadNumeral g sample n ∧ ∀ m, s.BadNumeral g sample m → n ≤ m) ∧
      (¬ s.Misaligned sample → (¬ ∃ n, s.BadNumeral g sample n) →
        ((∃ cause, s.renumberSample g sample batch = .error (.consistency cause)) ↔
          s.Absent g sample batch)) ∧
      (¬ s.Misaligned sample → (¬ ∃ n, s.BadNumeral g sample n) → ¬ s.Absent g sample batch →
        ∃ edges, s.renumberSample g sample batch = .ok edges) := by
  -- the three outcomes of an aligned sample exclude one another, so each is told by its error
  have hcases := renumberSample_cases hs hdtype hbatch hne
  refine ⟨⟨?_, renumberSample_of_misaligned⟩, fun haligned => ⟨⟨?_, ?_⟩, ?_⟩,
    fun haligned hgood => ⟨?_, ?_⟩, ?_⟩
  · rintro ⟨cause, hc⟩
    by_contra haligned
    rcases hcases haligned with ⟨n, hn, -⟩ | ⟨-, -, cause', hc'⟩ | ⟨-, -, edges, hok⟩
    · simp [hc] at hn
    · simp [hc] at hc'
    · simp [hc] at hok
  · rintro ⟨n, hn⟩
    rcases hcases haligned with ⟨m, -, hm, -⟩ | ⟨-, -, cause, hc⟩ | ⟨-, -, edges, hok⟩
    · exact ⟨m, hm⟩
    · simp [hn] at hc
    · simp [hn] at hok
  · intro hbad
    obtain ⟨n, hn, -⟩ := renumberSample_of_badNumeral batch hs haligned hbad
    exact ⟨n, hn⟩
  · intro n hn
    rcases hcases haligned with ⟨m, hm, hleast⟩ | ⟨-, -, cause, hc⟩ | ⟨-, -, edges, hok⟩
    · obtain rfl : n = m := by simpa [hn] using hm
      exact hleast
    · simp [hn] at hc
    · simp [hn] at hok
  · rintro ⟨cause, hc⟩
    rcases hcases haligned with ⟨n, -, hn, -⟩ | ⟨-, habsent, -⟩ | ⟨-, -, edges, hok⟩
    · exact absurd ⟨n, hn⟩ hgood
    · exact habsent
    · simp [hc] at hok
  · -- a bad numeral is found before any end is looked for
    intro habsent
    exact renumberSample_of_absent hs hdtype hbatch hne haligned (not_exists.mp hgood) habsent
  · intro haligned hgood hpresent
    exact renumberSample_of_present hs hdtype hbatch hne haligned (not_exists.mp hgood) hpresent

lemma pairwise_libraryBatch (type : String) (group : List Int)
    (h : libraryBatch.get? type = some group) : group.Pairwise (· < ·) := by
  have hentries : ∀ e ∈ libraryBatch.groups.entries, e.2.Pairwise (· < ·) := by decide
  exact hentries (type, group) (SortedMap.mem_entries_iff.mpr h)

/-- Over the library, two edges need two numerals. -/
theorem renumberSample_outcome_library :
    Reachable .plain libraryRun.2.graph libraryStore ∧
      libraryStore.config.vertexDType = .int64 ∧
      (∀ type group, libraryBatch.get? type = some group → group.Pairwise (· < ·)) ∧
      ∃ cause, libraryStore.renumberSample libraryRun.2.graph ⟨[2, 1], [3, 2], [0]⟩ libraryBatch
        = .error (.shapeMismatch cause) := by
  have hdtype : libraryStore.config.vertexDType = .int64 := by decide +kernel
  have hmis : libraryStore.Misaligned ⟨[2, 1], [3, 2], [0]⟩ :=
    .inr ⟨by decide +kernel, by decide⟩
  exact ⟨reachable_libraryStore, hdtype, pairwise_libraryBatch,
    (renumberSample_outcome reachable_libraryStore hdtype pairwise_libraryBatch
      (by decide)).1.mpr hmis⟩

end Store

end TypedGraph
