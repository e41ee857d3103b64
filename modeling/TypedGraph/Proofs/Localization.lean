import TypedGraph.Proofs.Building
import TypedGraph.Proofs.Grouping
import TypedGraph.Proofs.Rows

/-!
# Batch-local ids

The edges of a sample are told by positions within groups, one tensor for the sources and one for
the destinations of every edge type. The positions give back the ends of the rows of each type, in
order, and every row is told once (`ofTypes_localizes`).
-/

namespace TypedGraph

open Traversal

variable {s : Store} {g : Graph} {sample : Sample} {batch : BatchIndex}

/-! ### Integers of a type -/

/-- The first of some integers that an integer type does not hold; integers of 64 bits are not
looked at. -/
def DType.misfit? (t : DType) (xs : List Int) : Option Int :=
  if t = .int64 then none else xs.find? fun n => !t.holds n

/-- Integers as the elements of an integer type. -/
def Tensor.ofIntsIn (t : DType) (xs : List Int) : Tensor :=
  ⟨if t = .int64 then .int64 xs else .int32 xs, [xs.length], .cpu⟩

@[simp] lemma Tensor.toInts_ofIntsIn (t : DType) (xs : List Int) :
    (Tensor.ofIntsIn t xs).data.toInts = xs := by
  rw [Tensor.ofIntsIn]
  dsimp only
  split <;> rfl

@[simp] lemma Tensor.shape_ofIntsIn (t : DType) (xs : List Int) :
    (Tensor.ofIntsIn t xs).shape = [xs.length] := rfl

lemma DType.mapM_fitInt (t : DType) (xs : List Int) :
    xs.mapM t.fitInt = match xs.find? fun n => !t.holds n with
      | some n => .error (.intOutOfRange n t)
      | none => .ok xs := by
  induction xs with
  | nil => rfl
  | cons x xs ih =>
    rw [List.mapM_cons, ih]
    rw [DType.fitInt]
    by_cases hx : t.holds x
    · rw [if_pos hx, List.find?_cons_of_neg (by simpa using hx)]
      cases xs.find? fun n => !t.holds n <;> rfl
    · rw [if_neg hx, List.find?_cons_of_pos (by simpa using hx)]
      rfl

/-- Changing integers to an integer type fails on the first that it does not hold. -/
lemma Tensor.cast_ofInts {t : DType} (ht : t.isInteger) (xs : List Int) :
    (Tensor.ofInts xs).cast t = match t.misfit? xs with
      | some n => .error (.intOutOfRange n t)
      | none => .ok (Tensor.ofIntsIn t xs) := by
  rw [Tensor.cast, DType.misfit?]
  cases t with
  | int64 => rfl
  | int32 =>
    have hdata : (Tensor.ofInts xs).data.cast .int32 = .int32 <$> xs.mapM DType.int32.fitInt := rfl
    rw [if_neg (by simp [Tensor.dtype, Tensor.ofInts, TensorData.dtype]), hdata, DType.mapM_fitInt,
      if_neg (by simp)]
    cases xs.find? fun n => !DType.int32.holds n <;> rfl
  | float32 => simp [DType.isInteger] at ht
  | float64 => simp [DType.isInteger] at ht

/-! ### Positions -/

/-- A tensor that holds, for some rows of a column of ids, the positions of the ids within the group
of a type. -/
structure BatchIndex.Locates (batch : BatchIndex) (type : String) (column : List Int)
    (rows : List Nat) (t : Tensor) : Prop where
  shape : t.shape = [rows.length]
  /-- There is one position per row, and the group has the id of the row there. -/
  positions : List.Forall₂ (fun p row => ∃ id, column[row]? = some id ∧ 0 ≤ p ∧
    batch.globalId? type p.toNat = some id) t.data.toInts rows

/-- A batch index that has a vertex in the group of a type. -/
def BatchIndex.Holds (batch : BatchIndex) (type : String) (id : Int) : Prop :=
  ∃ group, batch.get? type = some group ∧ id ∈ group

namespace Store

variable {type : String} {group column ids : List Int} {rows : List Nat} {id p : Int} {t : Tensor}

lemma positionIn_eq_ok_iff :
    positionIn type group id = .ok p ↔ ∃ i : Nat, Search.position? group id = some i ∧ i = p := by
  rw [positionIn]
  cases Search.position? group id <;> simp

/-- Positions in an integer type are positions still. -/
lemma placeIds_eq_ok {ps : List Int} (hint : s.config.vertexDType.isInteger)
    (h : s.placeIds (Tensor.ofInts ps) = .ok t) : t.data.toInts = ps ∧ t.shape = [ps.length] := by
  obtain ⟨cast, hcast, rfl⟩ := map_eq_ok_iff.mp h
  rw [Tensor.cast_ofInts hint] at hcast
  split at hcast
  · simp at hcast
  · obtain rfl := Except.ok.inj hcast
    simp

lemma localize_eq_ok_iff :
    s.localize batch type ids = .ok t ↔ ∃ group ps, batch.get? type = some group ∧
      ids.mapM (positionIn type group) = .ok ps ∧ s.placeIds (Tensor.ofInts ps) = .ok t := by
  rw [localize]
  cases hgroup : batch.get? type with
  | none => simp
  | some group => simp [bind_eq_ok_iff, mapError_eq_ok_iff]

lemma filterMap_getElem? (h : ∀ row ∈ rows, row < column.length) :
    rows.filterMap (column[·]?) = rows.map fun row => column[row]?.getD 0 := by
  rw [← List.filterMap_eq_map]
  apply List.filterMap_congr
  intro row hrow
  simp [List.getElem?_eq_getElem (h row hrow)]

/-- The positions of the ids at some rows give the ids back. -/
lemma localize_locates (hint : s.config.vertexDType.isInteger)
    (hrows : ∀ row ∈ rows, row < column.length)
    (h : s.localize batch type (rows.filterMap (column[·]?)) = .ok t) :
    batch.Locates type column rows t := by
  obtain ⟨group, ps, hgroup, hps, hplace⟩ := localize_eq_ok_iff.mp h
  obtain ⟨hints, hshape⟩ := placeIds_eq_ok hint hplace
  rw [filterMap_getElem? hrows, mapM_eq_ok_iff, List.forall₂_map_left_iff] at hps
  refine ⟨by rw [hshape, hps.length_eq], ?_⟩
  rw [hints]
  refine (List.forall₂_iff_zip.mpr ⟨hps.length_eq, ?_⟩).flip
  intro row p hmem
  obtain ⟨i, hi, rfl⟩ := positionIn_eq_ok_iff.mp (List.forall₂_zip hps hmem)
  have hlt := hrows row (List.of_mem_zip hmem).1
  refine ⟨column[row], List.getElem?_eq_getElem hlt, Int.natCast_nonneg i, ?_⟩
  -- a position that is found holds the id that was sought
  rw [List.getElem?_eq_getElem hlt, Option.getD_some] at hi
  simpa [BatchIndex.globalId?, hgroup] using Search.getElem?_of_position? hi

/-! ### Edge types of a sample -/

/-- The triple of an edge type, and the ends of its rows by position. -/
abbrev LocalType := EdgeTriple × Tensor × Tensor

/-- The ends of the rows of one type. -/
def localizeGroup (s : Store) (sample : Sample) (batch : BatchIndex) (group : String × List Nat) :
    Except StoreError LocalType := do
  let entry ← s.edges.entry group.1
  let sources ← s.localize batch entry.triple.source (group.2.filterMap (sample.sources[·]?))
  let destinations ←
    s.localize batch entry.triple.destination (group.2.filterMap (sample.destinations[·]?))
  pure (entry.triple, sources, destinations)

/-- Edges with those of one more type. -/
def LocalEdges.add (edges : LocalEdges) (l : LocalType) : LocalEdges :=
  ⟨edges.sources.insert l.1 l.2.1, edges.destinations.insert l.1 l.2.2⟩

/-- The edges of some types. -/
def LocalEdges.ofTypes (ls : List LocalType) : LocalEdges :=
  ⟨.ofList (ls.map fun l => (l.1, l.2.1)), .ofList (ls.map fun l => (l.1, l.2.2))⟩

lemma LocalEdges.foldl_add (ls : List LocalType) (edges : LocalEdges) :
    ls.foldl LocalEdges.add edges =
      ⟨edges.sources.insertMany (ls.map fun l => (l.1, l.2.1)),
        edges.destinations.insertMany (ls.map fun l => (l.1, l.2.2))⟩ := by
  induction ls generalizing edges with
  | nil => rfl
  | cons l ls ih =>
    rw [List.foldl_cons, ih]
    rfl

lemma localizeType_eq (edges : LocalEdges) (group : String × List Nat) :
    s.localizeType sample batch edges group
      = edges.add <$> s.localizeGroup sample batch group := by
  rw [localizeType, localizeGroup]
  cases s.edges.entry group.1 with
  | error e => rfl
  | ok entry =>
    simp only [ok_bind]
    cases s.localize batch entry.triple.source _ with
    | error e => rfl
    | ok sources =>
      simp only [ok_bind]
      cases s.localize batch entry.triple.destination _ <;> rfl

/-- An aligned sample is grouped by type, and its types are localized one by one. -/
lemma renumberSample_eq (haligned : s.alignedFor sample) :
    s.renumberSample g sample batch = (do
      let groups ← s.rowsByType g sample
      LocalEdges.ofTypes <$> groups.mapM (s.localizeGroup sample batch)) := by
  have hstep : s.localizeType sample batch = fun edges group =>
      LocalEdges.add edges <$> s.localizeGroup sample batch group := by
    funext edges group
    exact localizeType_eq edges group
  have hofTypes : (·.foldl LocalEdges.add {}) = LocalEdges.ofTypes := by
    funext ls
    exact LocalEdges.foldl_add ls {}
  simp [renumberSample, haligned, hstep, foldlM_map_eq, hofTypes]

/-! ### No edge is lost, repeated or moved -/

/-- Edges that tell every row of a sample once, under the triple of its type, by the positions of
its ends in the groups of a batch. -/
structure Localizes (s : Store) (g : Graph) (sample : Sample) (batch : BatchIndex)
    (edges : LocalEdges) : Prop where
  keys : edges.sources.keys = edges.destinations.keys
  /-- The keys are triples of the catalog. -/
  registered : ∀ triple ∈ edges.sources.keys,
    ∃ entry, s.edges.entry triple.edge = .ok entry ∧ entry.triple = triple
  sources : ∀ triple t, edges.sources.get? triple = some t →
    batch.Locates triple.source sample.sources (s.rowsOfType g sample triple.edge) t
  destinations : ∀ triple t, edges.destinations.get? triple = some t →
    batch.Locates triple.destination sample.destinations (s.rowsOfType g sample triple.edge) t
  sum_sources : (edges.sources.values.map Tensor.rows).sum = sample.length
  sum_destinations : (edges.destinations.values.map Tensor.rows).sum = sample.length

lemma lengths_of_alignedFor (h : s.alignedFor sample) :
    sample.sources.length = sample.length ∧ sample.destinations.length = sample.length := by
  rw [alignedFor] at h
  cases hsingle : s.edges.single? with
  | some e =>
    rw [hsingle] at h
    simp only [decide_eq_true_eq] at h
    exact ⟨rfl, h.symm⟩
  | none =>
    simp only [hsingle, Sample.isAligned, Bool.and_eq_true, decide_eq_true_eq] at h
    exact ⟨rfl, h.1.symm⟩

/-- The parts that one group of rows becomes. -/
lemma localizeGroup_eq_ok_iff {group : String × List Nat} {l : LocalType} :
    s.localizeGroup sample batch group = .ok l ↔ ∃ entry, s.edges.entry group.1 = .ok entry ∧
      l.1 = entry.triple ∧
      s.localize batch l.1.source (group.2.filterMap (sample.sources[·]?)) = .ok l.2.1 ∧
      s.localize batch l.1.destination (group.2.filterMap (sample.destinations[·]?))
        = .ok l.2.2 := by
  rw [localizeGroup]
  constructor
  · intro h
    obtain ⟨entry, hentry, h⟩ := bind_eq_ok_iff.mp h
    obtain ⟨sources, hsources, h⟩ := bind_eq_ok_iff.mp h
    obtain ⟨destinations, hdestinations, h⟩ := bind_eq_ok_iff.mp h
    obtain rfl := Except.ok.inj h
    exact ⟨entry, hentry, rfl, hsources, hdestinations⟩
  · rintro ⟨entry, hentry, htriple, hsources, hdestinations⟩
    obtain ⟨triple, sources, destinations⟩ := l
    obtain rfl : triple = entry.triple := htriple
    simp [hentry, hsources, hdestinations]

lemma localizeGroup_edge (hnamed : s.edges.IsNamed) {group : String × List Nat} {l : LocalType}
    (h : s.localizeGroup sample batch group = .ok l) : l.1.edge = group.1 := by
  obtain ⟨entry, hentry, htriple, -, -⟩ := localizeGroup_eq_ok_iff.mp h
  rw [htriple]
  exact hnamed group.1 entry hentry

/-- Distinct types become distinct triples. -/
lemma pairwise_triples (hnamed : s.edges.IsNamed) {groups : List (String × List Nat)}
    (hdistinct : groups.Pairwise (·.1 ≠ ·.1)) {ls : List LocalType}
    (hls : groups.mapM (s.localizeGroup sample batch) = .ok ls) : ls.Pairwise (·.1 ≠ ·.1) := by
  refine pairwise_of_mapM_eq_ok hls hdistinct ?_
  intro group group' l l' hne hl hl' heq
  apply hne
  rw [← localizeGroup_edge hnamed hl, ← localizeGroup_edge hnamed hl', heq]

/-- One group of rows becomes the positions of the ends of its rows. -/
lemma localizeGroup_locates (hint : s.config.vertexDType.isInteger) (hnamed : s.edges.IsNamed)
    (haligned : s.alignedFor sample) {groups : List (String × List Nat)}
    (hgroups : s.IsGrouping g sample groups) {group : String × List Nat} (hmem : group ∈ groups)
    {l : LocalType} (h : s.localizeGroup sample batch group = .ok l) :
    batch.Locates l.1.source sample.sources (s.rowsOfType g sample l.1.edge) l.2.1 ∧
      batch.Locates l.1.destination sample.destinations (s.rowsOfType g sample l.1.edge) l.2.2 := by
  obtain ⟨entry, -, -, hsources, hdestinations⟩ := localizeGroup_eq_ok_iff.mp h
  obtain ⟨hlen, hlen'⟩ := lengths_of_alignedFor haligned
  rw [localizeGroup_edge hnamed h, ← hgroups.rows_eq group hmem]
  constructor
  · refine localize_locates hint ?_ hsources
    intro row hrow
    rw [hlen]
    exact (hgroups.mem_of_mem_groups hmem hrow).1
  · refine localize_locates hint ?_ hdestinations
    intro row hrow
    rw [hlen']
    exact (hgroups.mem_of_mem_groups hmem hrow).1

/-- Every row is told once by the tensors of its type, so that their sizes add up to the sample. -/
lemma sum_rows (hnamed : s.edges.IsNamed) {groups : List (String × List Nat)}
    (hgroups : s.IsGrouping g sample groups) {ls : List LocalType}
    (hls : groups.mapM (s.localizeGroup sample batch) = .ok ls)
    (hdistinct : ls.Pairwise (·.1 ≠ ·.1)) {f : LocalType → Tensor}
    (hf : ∀ l ∈ ls, (f l).shape = [(s.rowsOfType g sample l.1.edge).length]) :
    ((SortedMap.ofList (ls.map fun l => (l.1, f l))).values.map Tensor.rows).sum
      = sample.length := by
  -- distinct triples, so every tensor keeps its place in the table
  have hps : (ls.map fun l => (l.1, f l)).Pairwise (·.1 ≠ ·.1) := List.pairwise_map.mpr hdistinct
  have hperm := ((SortedMap.entries_ofList_perm hps).map (·.2)).map Tensor.rows
  have hrows : ls.map (fun l => (f l).rows) = groups.map (·.2.length) := by
    have hforall := mapM_eq_ok_iff.mp hls
    rw [← List.forall₂_eq_eq_eq, List.forall₂_map_left_iff, List.forall₂_map_right_iff]
    refine (List.forall₂_iff_zip.mpr ⟨hforall.length_eq, ?_⟩).flip
    intro group l hmem
    have hl := hf l (List.of_mem_zip hmem).2
    rw [localizeGroup_edge hnamed (List.forall₂_zip hforall hmem),
      ← hgroups.rows_eq group (List.of_mem_zip hmem).1] at hl
    simp [flip, Tensor.rows, hl]
  rw [SortedMap.values]
  rw [hperm.sum_eq, List.map_map, List.map_map, ← hgroups.sum_length, ← hrows]
  rfl

/-- The groups of a sample, localized one by one, tell all of its rows. -/
lemma ofTypes_localizes (hint : s.config.vertexDType.isInteger) (hnamed : s.edges.IsNamed)
    (haligned : s.alignedFor sample) {groups : List (String × List Nat)}
    (hgroups : s.IsGrouping g sample groups) {ls : List LocalType}
    (hls : groups.mapM (s.localizeGroup sample batch) = .ok ls) :
    s.Localizes g sample batch (LocalEdges.ofTypes ls) := by
  have hdistinct := pairwise_triples hnamed hgroups.distinct hls
  -- with distinct triples the table holds exactly the parts that were put in
  have hget (f : LocalType → Tensor) (triple : EdgeTriple) (t : Tensor) :
      (SortedMap.ofList (ls.map fun l => (l.1, f l))).get? triple = some t ↔
        ∃ l ∈ ls, l.1 = triple ∧ f l = t := by
    have hps : (ls.map fun l => (l.1, f l)).Pairwise (·.1 ≠ ·.1) :=
      List.pairwise_map.mpr hdistinct
    rw [SortedMap.get?_ofList hps]
    simp
  have hkeys (f : LocalType → Tensor) (triple : EdgeTriple) :
      triple ∈ (SortedMap.ofList (ls.map fun l => (l.1, f l))).keys ↔ ∃ l ∈ ls, l.1 = triple := by
    rw [← SortedMap.get?_isSome_iff_mem_keys, Option.isSome_iff_exists]
    simp [hget]
  have hlocates (l : LocalType) (hl : l ∈ ls) :
      batch.Locates l.1.source sample.sources (s.rowsOfType g sample l.1.edge) l.2.1 ∧
        batch.Locates l.1.destination sample.destinations (s.rowsOfType g sample l.1.edge)
          l.2.2 := by
    obtain ⟨group, hgroup, hok⟩ := (mem_iff_of_mapM_eq_ok hls).mp hl
    exact localizeGroup_locates hint hnamed haligned hgroups hgroup hok
  refine ⟨SortedMap.keys_ext ?_, ?_, ?_, ?_, ?_, ?_⟩
  · intro triple
    exact (hkeys _ triple).trans (hkeys _ triple).symm
  · intro triple htriple
    obtain ⟨l, hl, rfl⟩ := (hkeys _ triple).mp htriple
    obtain ⟨group, -, hok⟩ := (mem_iff_of_mapM_eq_ok hls).mp hl
    obtain ⟨entry, hentry, heq, -, -⟩ := localizeGroup_eq_ok_iff.mp hok
    exact ⟨entry, by rw [localizeGroup_edge hnamed hok, hentry], heq.symm⟩
  · intro triple t ht
    obtain ⟨l, hl, rfl, rfl⟩ := (hget _ triple t).mp ht
    exact (hlocates l hl).1
  · intro triple t ht
    obtain ⟨l, hl, rfl, rfl⟩ := (hget _ triple t).mp ht
    exact (hlocates l hl).2
  · exact sum_rows hnamed hgroups hls hdistinct fun l hl => (hlocates l hl).1.shape
  · exact sum_rows hnamed hgroups hls hdistinct fun l hl => (hlocates l hl).2.shape

/-- What is located in a group has what every vertex of the group has. -/
lemma exists_of_locates {P : Int → Prop} (h : batch.Locates type column rows t)
    (hbatch : ∀ group, batch.get? type = some group → ∀ id ∈ group, P id) {row : Nat}
    (hrow : row ∈ rows) : ∃ id, column[row]? = some id ∧ P id := by
  have hpositions := h.positions
  generalize t.data.toInts = ps at hpositions
  clear h
  induction hpositions with
  | nil => simp at hrow
  | cons hp _ ih =>
    rcases List.mem_cons.mp hrow with rfl | hrow
    · obtain ⟨id, hid, -, hglobal⟩ := hp
      obtain ⟨group, hgroup, hget⟩ := Option.bind_eq_some_iff.mp hglobal
      exact ⟨id, hid, hbatch group hgroup id (List.mem_of_getElem? hget)⟩
    · exact ih hrow

/-- A sample that is told by positions was grouped by type first. -/
lemma renumberSample_eq_ok {edges : LocalEdges}
    (h : s.renumberSample g sample batch = .ok edges) :
    s.alignedFor sample ∧ ∃ groups ls, s.rowsByType g sample = .ok groups ∧
      groups.mapM (s.localizeGroup sample batch) = .ok ls ∧ edges = .ofTypes ls := by
  by_cases haligned : s.alignedFor sample
  · rw [renumberSample_eq haligned] at h
    obtain ⟨groups, hgroups, h⟩ := bind_eq_ok_iff.mp h
    obtain ⟨ls, hls, rfl⟩ := map_eq_ok_iff.mp h
    exact ⟨haligned, groups, ls, hgroups, hls, rfl⟩
  · simp [renumberSample, haligned] at h

/-- The numerals of rows that are grouped are all decoded. -/
lemma decoded_of_rowsByType (hsingle : s.edges.single? = none)
    {groups : List (String × List Nat)} (h : s.rowsByType g sample = .ok groups) :
    ∃ names, s.source.edgeTypesOfNumerals g (Ascending.ofList sample.numerals) = .ok names := by
  rw [rowsByType] at h
  simp only [hsingle] at h
  obtain ⟨names, hnames, -⟩ := bind_eq_ok_iff.mp h
  exact ⟨names, mapError_eq_ok_iff.mp hnames⟩

/-- Telling a sample by positions loses, repeats and moves no edge. The groups of a batch may be
any; where they are those of the store, the ends of an edge have the vertex types of its triple. -/
theorem renumberSample_localizes {source : Source} {built : Graph} (hs : Reachable source built s)
    {edges : LocalEdges} (hok : s.renumberSample g sample batch = .ok edges) :
    s.Localizes g sample batch edges ∧
      (s.source.edgeTypesOfNumerals = Graph.edgeTypesOfNumerals → s.edges.single? = none →
        ∀ row n type, sample.numerals[row]? = some n →
          (s.typeOfRow? g sample row = some type ↔ g.edgeTypeOfNumeral n = .ok type)) ∧
      ((∃ ids, s.groupNodes ids = .ok batch) →
        ∀ triple ∈ edges.sources.keys, ∀ row ∈ s.rowsOfType g sample triple.edge,
          (∃ id, sample.sources[row]? = some id ∧ s.offsets.typeOf id = .ok triple.source) ∧
          ∃ id, sample.destinations[row]? = some id ∧
            s.offsets.typeOf id = .ok triple.destination) := by
  obtain ⟨haligned, groups, ls, hgroups, hls, rfl⟩ := renumberSample_eq_ok hok
  have hlocal : s.Localizes g sample batch (.ofTypes ls) :=
    ofTypes_localizes hs.isInteger hs.isNamed haligned (rowsByType_isGrouping haligned hgroups) hls
  refine ⟨hlocal, ?_, ?_⟩
  · intro hsource hsingle row n type hn
    obtain ⟨names, hnames⟩ := decoded_of_rowsByType hsingle hgroups
    rw [hsource] at hnames
    exact typeOfRow?_eq_some_iff hsource hsingle hnames hn
  · rintro ⟨ids, hbatch⟩ triple htriple row hrow
    -- a vertex of a group has the type of the group, by which its row was filed
    have htyped (type : String) (group : List Int) (hget : batch.get? type = some group) (id : Int)
        (hid : id ∈ group) : s.offsets.typeOf id = .ok type :=
      typeOf_of_groupNodes hbatch hget hid
    have htriple' := hlocal.keys ▸ htriple
    rw [← SortedMap.get?_isSome_iff_mem_keys, Option.isSome_iff_exists] at htriple htriple'
    obtain ⟨sources, hsources⟩ := htriple
    obtain ⟨destinations, hdestinations⟩ := htriple'
    exact ⟨exists_of_locates (hlocal.sources triple sources hsources) (htyped triple.source) hrow,
      exists_of_locates (hlocal.destinations triple destinations hdestinations)
        (htyped triple.destination) hrow⟩

/-- Two edges of the library as they are after renumbering, the citation first. -/
def librarySample : Sample where
  sources := [2, 1]
  destinations := [3, 2]
  numerals := [0, 1]

/-- All vertices of the library by type. -/
def libraryBatch : BatchIndex := ⟨.ofList [("author", [0, 1]), ("paper", [2, 3])]⟩

theorem renumberSample_localizes_library :
    Reachable .plain libraryRun.2.graph libraryStore ∧
      ∃ edges, libraryStore.renumberSample libraryRun.2.graph librarySample libraryBatch
          = .ok edges ∧
        libraryStore.Localizes libraryRun.2.graph librarySample libraryBatch edges :=
  have hok : libraryStore.renumberSample libraryRun.2.graph librarySample libraryBatch = _ :=
    eq_ok_get (by decide +kernel)
  ⟨reachable_libraryStore, _, hok, (renumberSample_localizes reachable_libraryStore hok).1⟩

end Store

end TypedGraph
