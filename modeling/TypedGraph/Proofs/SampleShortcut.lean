import TypedGraph.Proofs.EdgeEnds
import TypedGraph.Proofs.SampleOutcome

/-!
# Samples of one edge type

A store with one edge type files all rows of a sample under that type and does not read the
numerals. For a sample with a row this is what the numerals would say. A sample without rows has no
group by its numerals, but the store makes an empty group of it, for which the batch needs vertices
of both ends (`renumberSample_skips_numerals`).
-/

namespace TypedGraph

open Traversal

/-- A sample whose rows are edges of a graph, told by their ends. -/
def Sample.DrawnFrom (sample : Sample) (g : Graph) : Prop :=
  ∃ es : List Edge, (∀ e ∈ es, e ∈ g.edges.values) ∧
    sample.sources = es.map (·.source) ∧ sample.destinations = es.map (·.destination)

lemma Sample.isAligned_iff {sample : Sample} :
    sample.isAligned ↔ sample.sources.length = sample.destinations.length ∧
      sample.sources.length = sample.numerals.length := by
  simp [isAligned]

namespace Store

variable {source : Source} {s : Store} {g : Graph} {sample : Sample} {batch : BatchIndex}
variable {only : String} {entry : EdgeEntry} {type : String} {ids : List Int}

/-! ### Reading the numerals -/

/-- The edges of a sample told by batch-local ids, its rows grouped by their numerals as in a store
with several edge types. -/
def renumberByNumeral (s : Store) (g : Graph) (sample : Sample) (batch : BatchIndex) :
    Except StoreError LocalEdges := do
  if !sample.isAligned then
    throw (.shapeMismatch (.sample sample.sources.length sample.destinations.length
      sample.numerals.length))
  (← s.rowsByNumeral g sample).foldlM (s.localizeType sample batch) {}

/-- Rows under numerals of one type make one group, if there is a row. -/
lemma foldlM_insertRow_of_one {names : List (Int × String)} {ns : List Int}
    (h : ∀ n ∈ ns, names.lookup n = some only) : ∃ groups,
      ns.zipIdx.foldlM (insertRow names) SortedMap.empty = .ok groups ∧
      groups.entries = if ns = [] then [] else [(only, List.range ns.length)] := by
  have hrows : ∀ r ∈ ns.zipIdx, names.lookup r.1 = some only := fun r hr =>
    h r.1 (List.mem_of_getElem? (List.mem_zipIdx_iff_getElem?.mp hr))
  obtain ⟨groups, hgroups⟩ := exists_foldlM_insertRow
    (fun r hr => Option.isSome_iff_exists.mpr ⟨only, hrows r hr⟩) SortedMap.empty
  refine ⟨groups, hgroups, ?_⟩
  obtain ⟨-, hget⟩ := foldlM_insertRow hgroups
  have hsame : groups.entries
      = (if ns = [] then SortedMap.empty else SortedMap.empty.insert only (List.range ns.length)
          : SortedMap String (List Nat)).entries := by
    refine congrArg SortedMap.entries (SortedMap.ext_get? fun type => ?_)
    have hrange : ns.zipIdx.map (·.2) = List.range ns.length := by
      rw [List.zipIdx_map_snd, List.range_eq_range']
    rw [hget type, SortedMap.get?_empty, addRows]
    by_cases htype : type = only
    · rw [List.filter_eq_self.mpr fun r hr => by simpa [htype] using hrows r hr, hrange]
      by_cases hns : ns = []
      · simp [hns]
      · simp [hns, htype, SortedMap.get?_insert]
    · have hnone : ns.zipIdx.filter (names.lookup ·.1 = some type) = [] :=
        List.filter_eq_nil_iff.mpr fun r hr => by simpa [hrows r hr] using Ne.symm htype
      rw [hnone, List.map_nil, if_pos rfl]
      split_ifs
      · rfl
      · simp [SortedMap.get?_insert, htype]
  rw [hsame]
  split_ifs <;> rfl

lemma rowsByNumeral_of_one (hsource : s.source.edgeTypesOfNumerals = Graph.edgeTypesOfNumerals)
    (haligned : sample.isAligned)
    (hnumerals : ∀ n ∈ sample.numerals, g.edgeTypeOfNumeral n = .ok only) :
    s.rowsByNumeral g sample
      = .ok (if sample.sources = [] then [] else [(only, List.range sample.length)]) := by
  have hlength := (Sample.isAligned_iff.mp haligned).2.symm
  have hnames : g.edgeTypesOfNumerals (Ascending.ofList sample.numerals)
      = .ok ((Ascending.ofList sample.numerals).map fun _ => only) :=
    mapM_eq_ok_map fun n hn => hnumerals n (Ascending.mem_ofList.mp hn)
  obtain ⟨groups, hgroups, hentries⟩ := foldlM_insertRow_of_one fun n hn =>
    (lookup_zip_eq_some_iff hnames).mpr ⟨Ascending.mem_ofList.mpr hn, hnumerals n hn⟩
  rw [rowsByNumeral]
  simp only [hsource, hnames, mapError_ok, ok_bind, hgroups, pure_eq_ok, hentries, hlength]
  simp only [← List.length_eq_zero_iff, hlength, Sample.length]

lemma renumberByNumeral_of_one (hsource : s.source.edgeTypesOfNumerals = Graph.edgeTypesOfNumerals)
    (haligned : sample.isAligned)
    (hnumerals : ∀ n ∈ sample.numerals, g.edgeTypeOfNumeral n = .ok only) (batch : BatchIndex) :
    s.renumberByNumeral g sample batch
      = (if sample.sources = [] then [] else [(only, List.range sample.length)]).foldlM
          (s.localizeType sample batch) {} := by
  rw [renumberByNumeral, rowsByNumeral_of_one hsource haligned hnumerals, haligned]
  rfl

/-! ### Samples without rows -/

/-- Positions below a bound that an integer type holds are placed. -/
lemma exists_placeIds_of_lt (hint : s.config.vertexDType.isInteger) {bound : Nat}
    (hfits : s.config.vertexDType = .int64 ∨ bound ≤ 2 ^ 31) {ps : List Int}
    (hps : ∀ p ∈ ps, 0 ≤ p ∧ p < bound) : ∃ t, s.placeIds (Tensor.ofInts ps) = .ok t := by
  suffices h : s.config.vertexDType.misfit? ps = none from
    ⟨_, by rw [placeIds_eq hint, h]⟩
  rw [DType.misfit?]
  split_ifs with hwide
  · rfl
  · have hbound : bound ≤ 2 ^ 31 := hfits.resolve_left hwide
    have hnarrow : s.config.vertexDType = .int32 := by
      cases hdtype : s.config.vertexDType <;> simp_all [DType.isInteger]
    rw [List.find?_eq_none, hnarrow]
    intro p hp
    obtain ⟨hneg, hlt⟩ := hps p hp
    have hlow : (-0x80000000 : Int) ≤ p := by omega
    have hhigh : p ≤ (0x7FFFFFFF : Int) := by omega
    simp [DType.holds, DType.intBounds, hlow, hhigh]

lemma exists_localize_nil (hint : s.config.vertexDType.isInteger) (batch : BatchIndex)
    (type : String) :
    (∃ t, s.localize batch type [] = .ok t) ↔ ∃ group, batch.get? type = some group := by
  obtain ⟨t, ht⟩ := exists_placeIds_of_lt hint (.inr (Nat.zero_le _)) (List.forall_mem_nil _)
  simp only [localize_eq_ok_iff]
  constructor
  · rintro ⟨t, group, ps, hgroup, -⟩
    exact ⟨group, hgroup⟩
  · rintro ⟨group, hgroup⟩
    exact ⟨t, group, [], hgroup, rfl, ht⟩

lemma alignedFor_of_single (hsingle : s.edges.single? = some (only, entry))
    (haligned : sample.sources.length = sample.destinations.length) : s.alignedFor sample := by
  simp [alignedFor, hsingle, haligned]

lemma rowsByType_of_single (hsingle : s.edges.single? = some (only, entry)) (g : Graph)
    (sample : Sample) :
    s.rowsByType g sample = .ok [(only, List.range sample.length)] := by
  rw [rowsByType, hsingle]

/-- The only group of a sample is localized as such. -/
lemma renumberSample_of_single (hsingle : s.edges.single? = some (only, entry))
    (haligned : sample.sources.length = sample.destinations.length) :
    s.renumberSample g sample batch
      = (fun l => .ofTypes [l])
          <$> s.localizeGroup sample batch (only, List.range sample.length) := by
  rw [renumberSample_eq (alignedFor_of_single hsingle haligned), rowsByType_of_single hsingle,
    ok_bind, List.mapM_cons, List.mapM_nil]
  cases s.localizeGroup sample batch (only, List.range sample.length) <;> rfl

/-- Without rows, a sample needs a batch with vertices of both ends, and gets an entry for the edge
type. -/
lemma renumberSample_of_no_rows (hs : Reachable source g s)
    (hsingle : s.edges.single? = some (only, entry)) (hsources : sample.sources = [])
    (hdestinations : sample.destinations = []) (batch : BatchIndex) :
    ((∃ edges, s.renumberSample g sample batch = .ok edges) ↔
        (∃ group, batch.get? entry.triple.source = some group) ∧
          ∃ group, batch.get? entry.triple.destination = some group) ∧
      ∀ edges, s.renumberSample g sample batch = .ok edges →
        edges.sources.keys = [entry.triple] ∧ edges.destinations.keys = [entry.triple] := by
  have hentry : s.edges.entry only = .ok entry := (EdgeCatalog.names_of_single hsingle).2.2
  have hrange : List.range sample.length = [] := by simp [Sample.length, hsources]
  rw [renumberSample_of_single hsingle (by rw [hsources, hdestinations]), hrange]
  constructor
  · rw [← exists_localize_nil hs.isInteger, ← exists_localize_nil hs.isInteger]
    constructor
    · rintro ⟨edges, hedges⟩
      obtain ⟨l, hl, -⟩ := map_eq_ok_iff.mp hedges
      obtain ⟨entry', hentry', htriple, hsource, hdestination⟩ := localizeGroup_eq_ok_iff.mp hl
      obtain rfl := Except.ok.inj (hentry.symm.trans hentry')
      rw [htriple] at hsource hdestination
      exact ⟨⟨_, hsource⟩, _, hdestination⟩
    · rintro ⟨⟨t, ht⟩, t', ht'⟩
      have hl : s.localizeGroup sample batch (only, []) = .ok (entry.triple, t, t') :=
        localizeGroup_eq_ok_iff.mpr ⟨entry, hentry, rfl, ht, ht'⟩
      rw [hl]
      exact ⟨_, rfl⟩
  · intro edges hedges
    obtain ⟨l, hl, rfl⟩ := map_eq_ok_iff.mp hedges
    obtain ⟨entry', hentry', htriple, -, -⟩ := localizeGroup_eq_ok_iff.mp hl
    obtain rfl := Except.ok.inj (hentry.symm.trans hentry')
    rw [← htriple]
    exact ⟨rfl, rfl⟩

/-! ### Samples of stored edges -/

/-- Vertices that a partition holds under a type are located. -/
lemma exists_localize_of_holds (hint : s.config.vertexDType.isInteger)
    (hpart : s.IsPartition ids batch)
    (hfits : s.config.vertexDType = .int64 ∨ ids.length ≤ 2 ^ 31) {needles : List Int}
    (hne : needles ≠ []) (hneedles : ∀ id ∈ needles, batch.Holds type id) :
    ∃ t, s.localize batch type needles = .ok t := by
  obtain ⟨first, hfirst⟩ := List.exists_mem_of_ne_nil needles hne
  obtain ⟨group, hgroup, -⟩ := hneedles first hfirst
  have hasc := hpart.ascending type group hgroup
  have hlength : group.length ≤ ids.length := by
    have hsub : group ⊆ ids := fun id hid => ((hpart.mem_group type group hgroup id).mp hid).1
    exact (List.subperm_of_subset (hasc.imp ne_of_lt) hsub).length_le
  obtain ⟨ps, hps⟩ := exists_positions hgroup hasc hneedles
  have hbound : ∀ p ∈ ps, 0 ≤ p ∧ p < ids.length := by
    intro p hp
    obtain ⟨id, -, hid⟩ := (mem_iff_of_mapM_eq_ok hps).mp hp
    obtain ⟨i, hi, rfl⟩ := positionIn_eq_ok_iff.mp hid
    have hlt := (List.getElem?_eq_some_iff.mp (Search.getElem?_of_position? hi)).1
    -- a position is below the length of the group, which is a part of the batch
    omega
  obtain ⟨t, ht⟩ := exists_placeIds_of_lt hint hfits hbound
  exact ⟨t, localize_eq_ok_iff.mpr ⟨group, ps, hgroup, hps, ht⟩⟩

/-- A partition of some vertices holds each under its type. -/
lemma IsPartition.holds (hpart : s.IsPartition ids batch) (hdescribes : s.offsets.Describes g)
    {id : Int} {v : Vertex} (hid : id ∈ ids) (hv : g.vertices.get? id = some v) :
    batch.Holds v.type id := by
  have htype := hdescribes.typeOf id v hv
  obtain ⟨group, hgroup⟩ :=
    BatchIndex.mem_types_iff.mp ((hpart.mem_types v.type).mpr ⟨id, hid, htype⟩)
  exact ⟨group, hgroup, (hpart.mem_group v.type group hgroup id).mpr ⟨hid, htype⟩⟩

/-- A sample with a row whose ends are all in their groups is told by positions. -/
lemma exists_renumberSample (hint : s.config.vertexDType.isInteger)
    (hsingle : s.edges.single? = some (only, entry)) (hpart : s.IsPartition ids batch)
    (hfits : s.config.vertexDType = .int64 ∨ ids.length ≤ 2 ^ 31)
    (haligned : sample.sources.length = sample.destinations.length) (hne : sample.sources ≠ [])
    (hsources : ∀ id ∈ sample.sources, batch.Holds entry.triple.source id)
    (hdestinations : ∀ id ∈ sample.destinations, batch.Holds entry.triple.destination id) :
    ∃ edges, s.renumberSample g sample batch = .ok edges := by
  have hentry : s.edges.entry only = .ok entry := (EdgeCatalog.names_of_single hsingle).2.2
  have hne' : sample.destinations ≠ [] :=
    List.ne_nil_of_length_pos (haligned ▸ List.length_pos_of_ne_nil hne)
  obtain ⟨t, ht⟩ := exists_localize_of_holds hint hpart hfits hne hsources
  obtain ⟨t', ht'⟩ := exists_localize_of_holds hint hpart hfits hne' hdestinations
  have hall : (List.range sample.length).filterMap (sample.sources[·]?) = sample.sources :=
    pick_range sample.sources
  have hall' : (List.range sample.length).filterMap (sample.destinations[·]?)
      = sample.destinations := by
    rw [Sample.length, haligned]
    exact pick_range sample.destinations
  have hl : s.localizeGroup sample batch (only, List.range sample.length)
      = .ok (entry.triple, t, t') :=
    localizeGroup_eq_ok_iff.mpr ⟨entry, hentry, rfl, by rwa [hall], by rwa [hall']⟩
  rw [renumberSample_of_single hsingle haligned, hl]
  exact ⟨_, rfl⟩

section Drawn

variable (hsource : source.OverTables) (hs : Reachable source g s)
variable (hsingle : s.edges.single? = some (only, entry)) (hclosed : g.Closed)

include hsource hs hsingle hclosed

/-- The ends of an edge are vertices of the types of the only triple. -/
lemma exists_ends {e : Edge} (he : e ∈ g.edges.values) :
    (∃ v, g.vertices.get? e.source = some v ∧ v.type = entry.triple.source) ∧
      ∃ v, g.vertices.get? e.destination = some v ∧ v.type = entry.triple.destination := by
  obtain ⟨-, hnames, hentry⟩ := EdgeCatalog.names_of_single hsingle
  have hplain := hs.onPlain hsource
  have hdescribes := hplain.edges_describe only entry hentry
  have hedge : entry.triple.edge = only := hs.isNamed only entry hentry
  obtain ⟨⟨id, e⟩, hmem, rfl⟩ := List.mem_map.mp he
  -- every edge type of the graph is in the catalog, which has this one only
  have htype : e.type = some entry.triple.edge := by
    obtain ⟨hplainNames, htypes⟩ := hplain.edges_names
    have hin := Graph.type_mem_edgeTypes hmem
    rw [htypes, ← hplainNames, show (s.onSource .plain).edges.names = [only] from hnames] at hin
    rw [hedge]
    simpa using hin
  obtain ⟨hsourceKey, hdestinationKey⟩ := hclosed id e (SortedMap.mem_entries_iff.mp hmem)
  obtain ⟨v, hv⟩ := SortedMap.mem_keys_iff.mp hsourceKey
  obtain ⟨w, hw⟩ := SortedMap.mem_keys_iff.mp hdestinationKey
  exact ⟨⟨v, hv, hdescribes.source e he htype v hv⟩,
    w, hw, hdescribes.destination e he htype w hw⟩

/-- The vertices of a sample of stored edges are grouped by type, and the groups tell all of its
rows as soon as there is one. -/
lemma exists_batch (hdescribes : s.offsets.Describes g) (hdrawn : sample.DrawnFrom g)
    (hfits : s.config.vertexDType = .int64 ∨ sample.nodes.length ≤ 2 ^ 31) :
    ∃ batch, s.groupNodes sample.nodes = .ok batch ∧
      ((∃ edges, s.renumberSample g sample batch = .ok edges) ↔ sample.sources ≠ []) := by
  obtain ⟨es, hes, hsources, hdestinations⟩ := hdrawn
  have hsource' : ∀ id ∈ sample.sources,
      ∃ v, g.vertices.get? id = some v ∧ v.type = entry.triple.source := by
    rw [hsources]
    exact List.forall_mem_map.mpr fun e he =>
      (exists_ends hsource hs hsingle hclosed (hes e he)).1
  have hdestination' : ∀ id ∈ sample.destinations,
      ∃ v, g.vertices.get? id = some v ∧ v.type = entry.triple.destination := by
    rw [hdestinations]
    exact List.forall_mem_map.mpr fun e he =>
      (exists_ends hsource hs hsingle hclosed (hes e he)).2
  have hin : ∀ id ∈ sample.nodes, 0 ≤ id ∧ id < s.offsets.total := by
    intro id hid
    rcases Sample.mem_nodes.mp hid with hid | hid
    · obtain ⟨v, hv, -⟩ := hsource' id hid
      exact hdescribes.id_within hv
    · obtain ⟨v, hv, -⟩ := hdestination' id hid
      exact hdescribes.id_within hv
  obtain ⟨batch, hbatch, hpart⟩ := groupNodes_isPartition hdescribes.nodup_names hin
  refine ⟨batch, hbatch, ?_, ?_⟩
  · -- without rows no vertex is grouped, and the store wants a group for each end
    intro hedges hnil
    have hempty : es = [] := List.map_eq_nil_iff.mp (hsources.symm.trans hnil)
    have hnil' : sample.destinations = [] := by rw [hdestinations, hempty, List.map_nil]
    obtain ⟨hiff, -⟩ := renumberSample_of_no_rows hs hsingle hnil hnil' batch
    obtain ⟨⟨group, hgroup⟩, -⟩ := hiff.mp hedges
    obtain ⟨id, hid, -⟩ := (hpart.mem_types _).mp (BatchIndex.mem_types_iff.mpr ⟨group, hgroup⟩)
    simp [Sample.mem_nodes, hnil, hnil'] at hid
  · intro hne
    have haligned : sample.sources.length = sample.destinations.length := by
      rw [hsources, hdestinations, List.length_map, List.length_map]
    refine exists_renumberSample hs.isInteger hsingle hpart hfits haligned hne ?_ ?_
    · intro id hid
      obtain ⟨v, hv, htype⟩ := hsource' id hid
      exact htype ▸ hpart.holds hdescribes (Sample.mem_nodes.mpr (.inl hid)) hv
    · intro id hid
      obtain ⟨v, hv, htype⟩ := hdestination' id hid
      exact htype ▸ hpart.holds hdescribes (Sample.mem_nodes.mpr (.inr hid)) hv

end Drawn

/-! ### Outcomes -/

/-- What a store with one edge type makes of samples, beside what their numerals say. -/
structure SkipsNumerals (s : Store) (g : Graph) (only : String) (entry : EdgeEntry) : Prop where
  /-- The numerals say the same of a sample with a row, and something else of one without. -/
  agrees_iff : ∀ sample batch, sample.isAligned →
    (∀ n ∈ sample.numerals, g.edgeTypeOfNumeral n = .ok only) →
      (s.renumberSample g sample batch = s.renumberByNumeral g sample batch ↔
        sample.sources ≠ [])
  /-- By its numerals, a sample without rows has no entries. -/
  by_numeral : ∀ sample batch, sample.isAligned → sample.sources = [] →
    s.renumberByNumeral g sample batch = .ok {}
  /-- Without numerals, it is refused if the batch lacks vertices of an end, and has an entry for
  the edge type otherwise. -/
  without_rows : ∀ sample batch, sample.sources = [] → sample.destinations = [] →
    ((∃ edges, s.renumberSample g sample batch = .ok edges) ↔
        (∃ group, batch.get? entry.triple.source = some group) ∧
          ∃ group, batch.get? entry.triple.destination = some group) ∧
      ∀ edges, s.renumberSample g sample batch = .ok edges →
        edges.sources.keys = [entry.triple] ∧ edges.destinations.keys = [entry.triple]
  /-- The groups of the vertices of stored edges tell these edges, if there is one. -/
  drawn : g.Closed → (s.config.policy = .keep → s.offsets.Describes g) →
    ∀ sample, sample.DrawnFrom g →
      (s.config.vertexDType = .int64 ∨ sample.nodes.length ≤ 2 ^ 31) →
        ∃ batch, s.groupNodes sample.nodes = .ok batch ∧
          ((∃ edges, s.renumberSample g sample batch = .ok edges) ↔ sample.sources ≠ [])

/-- A store with one edge type tells samples as their numerals do, except for samples without
rows. -/
theorem renumberSample_skips_numerals (hsource : source.OverTables) (hs : Reachable source g s)
    (hsingle : s.edges.single? = some (only, entry)) : s.SkipsNumerals g only entry where
  agrees_iff sample batch haligned hnumerals := by
    obtain ⟨hends, -⟩ := Sample.isAligned_iff.mp haligned
    have hnumeral := renumberByNumeral_of_one
      (by rw [hs.source_eq, hsource.edgeTypesOfNumerals_eq]) haligned hnumerals batch
    constructor
    · -- the store always has an entry for its type, and by numerals there is none
      intro heq hnil
      rw [if_pos hnil] at hnumeral
      have hnil' : sample.destinations = [] := by simpa [hnil, eq_comm] using hends
      obtain ⟨-, hkeys⟩ := renumberSample_of_no_rows hs hsingle hnil hnil' batch
      simpa [SortedMap.keys] using (hkeys {} (heq.trans hnumeral)).1
    · intro hne
      rw [hnumeral, if_neg hne, renumberSample, alignedFor_of_single hsingle hends,
        rowsByType_of_single hsingle]
      rfl
  by_numeral sample batch haligned hnil := by
    have hnone : sample.numerals = [] := by
      simpa [hnil, eq_comm] using (Sample.isAligned_iff.mp haligned).2
    have hnumerals : ∀ n ∈ sample.numerals, g.edgeTypeOfNumeral n = .ok only := by simp [hnone]
    rw [renumberByNumeral_of_one (by rw [hs.source_eq, hsource.edgeTypesOfNumerals_eq]) haligned
      hnumerals, if_pos hnil]
    rfl
  without_rows sample batch hnil hnil' := renumberSample_of_no_rows hs hsingle hnil hnil' batch
  drawn hclosed hdescribes sample hdrawn hfits := by
    refine exists_batch hsource hs hsingle hclosed ?_ hdrawn hfits
    by_cases hpolicy : s.config.policy = .keep
    · exact hdescribes hpolicy
    · exact (hs.onPlain hsource).offsets_describe hpolicy

/-- The link of the site is told by the pages at its ends. -/
theorem renumberSample_skips_numerals_site :
    Source.plain.OverTables ∧ Reachable .plain siteRun.2.graph siteStore ∧
      siteStore.edges.single? = some ("links", ⟨⟨"page", "links", "page"⟩, 1⟩) ∧
      siteStore.SkipsNumerals siteRun.2.graph "links" ⟨⟨"page", "links", "page"⟩, 1⟩ ∧
      ∃ batch, siteStore.groupNodes (Sample.nodes ⟨[0], [1], [0]⟩) = .ok batch ∧
        ∃ edges, siteStore.renumberSample siteRun.2.graph ⟨[0], [1], [0]⟩ batch = .ok edges := by
  have hskips := renumberSample_skips_numerals (.inl rfl) reachable_siteStore single?_siteStore
  have hends : ∀ r ∈ siteRun.2.graph.edges.entries,
      r.2.source ∈ siteRun.2.graph.vertices.keys ∧
        r.2.destination ∈ siteRun.2.graph.vertices.keys := by decide +kernel
  have hclosed : siteRun.2.graph.Closed := fun id e he => hends _ (SortedMap.mem_entries_iff.mpr he)
  have hdrawn : Sample.DrawnFrom ⟨[0], [1], [0]⟩ siteRun.2.graph :=
    ⟨_, fun _ he => he, by decide +kernel, by decide +kernel⟩
  have hpolicy : siteStore.config.policy ≠ .keep := by decide +kernel
  obtain ⟨batch, hbatch, htold⟩ := hskips.drawn hclosed (fun hkeep => absurd hkeep hpolicy) _ hdrawn
    (.inr (by decide))
  exact ⟨.inl rfl, reachable_siteStore, single?_siteStore, hskips, batch, hbatch,
    htold.mpr (by decide)⟩

/-- Over the site, the sample without rows is told in no entries by its numerals, but refused by the
store for the batch of its vertices. -/
theorem renumberSample_refuses_empty :
    Reachable .plain siteRun.2.graph siteStore ∧ siteStore.edges.names = ["links"] ∧
      Sample.isAligned ⟨[], [], []⟩ ∧ siteStore.groupNodes (Sample.nodes ⟨[], [], []⟩) = .ok {} ∧
      siteStore.renumberByNumeral siteRun.2.graph ⟨[], [], []⟩ {} = .ok {} ∧
      siteStore.renumberSample siteRun.2.graph ⟨[], [], []⟩ {}
        = .error (.consistency (.noGroup "page")) := by
  refine ⟨reachable_siteStore, ?_, ?_, ?_, ?_, ?_⟩ <;> decide +kernel

end Store

end TypedGraph
