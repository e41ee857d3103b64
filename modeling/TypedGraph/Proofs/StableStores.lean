import TypedGraph.Proofs.RepeatedBuilds
import TypedGraph.Proofs.SampleOutcome
import TypedGraph.Proofs.StableIds

/-!
# Stores over one graph

Stores that are built one after another over one graph renumber it each, if that is their policy.
Once one of them has, the others leave every row as it is, but for saved ids
(`savesOnly_attemptAllOver`). What a store answers about
types, edges and samples does not read properties, so the answers of the first store stay as they
are, and true (`renumbering_is_stable`).
-/

namespace TypedGraph

open Traversal TypedGraph.Action

/-! ### What is read of tables without properties -/

namespace Graph

variable {g g' : Graph} {edge : String}

lemma typeAt?_bare (g : Graph) (id : Int) : g.bare.typeAt? id = g.typeAt? id := by
  rw [typeAt?, get?_bare, Option.map_map]
  rfl

lemma values_edges_bare (g : Graph) : g.bare.edges.values = g.edges.values.map Edge.bare := by
  rw [bare, SortedMap.values_mapValues, SortedMap.values, List.map_map]
  rfl

lemma size_bare (g : Graph) : g.bare.vertices.size = g.vertices.size :=
  List.length_map _

lemma vertexIdsOf_bare (g : Graph) (type : String) :
    g.bare.vertexIdsOf type = g.vertexIdsOf type := by
  refine (pairwise_vertexIdsOf _ _).eq_of_mem_iff (pairwise_vertexIdsOf _ _) fun id => ?_
  rw [mem_vertexIdsOf, mem_vertexIdsOf, get?_bare]
  simp [Vertex.bare]

lemma vertexTypes_bare (g : Graph) : g.bare.vertexTypes = g.vertexTypes :=
  vertexTypes_congr fun type => by
    simp only [mem_vertexTypes, vertexIdsOf_bare]

lemma edgeTypeOfNumeral_bare (g : Graph) : g.bare.edgeTypeOfNumeral = g.edgeTypeOfNumeral := by
  funext n
  rw [edgeTypeOfNumeral, edgeTypeOfNumeral, namedEdgeTypes_bare]

lemma bare_renumbered (g : Graph) (old : Option String × Option String) :
    (g.renumbered old).bare = g.bare.renumbered (none, none) := by
  have hedges := congrArg Prod.snd (bare_renumberEdges (g.withNewVertexIds old.1) old.2)
  rw [bare_withNewVertexIds] at hedges
  exact hedges.symm

lemma isSettled_renumbered (hg : g.Closed) (old : Option String × Option String) :
    (g.renumbered old).IsSettled := by
  have hsettles : Settles [.renumberVertices none, .renumberEdges none] g.bare
      (g.renumbered old).bare := by
    rw [bare_renumbered]
    exact ((settles_nil (closed_bare.mpr hg)).renumberVertices none).renumberEdges none
  exact hsettles.isSettled ⟨none, by simp⟩ ⟨none, by simp⟩

/-- Chosen edges are chosen without properties, too. -/
lemma edgeRows_bare (g : Graph) (types columns : Option (List String)) :
    g.bare.edgeRows { types, columns } = (g.edgeRows { types, columns }).map
      fun r => (r.1, r.2.bare) := by
  show (g.edges.entries.map fun r => (r.1, r.2.bare)).filter _ = _
  rw [List.filter_map]
  rfl

lemma edgesOf_bare (g : Graph) (edge : String) :
    g.bare.edgesOf edge = (g.edgesOf edge).map fun r => (r.1, r.2.bare) := by
  rw [← edgeRows_some none, ← edgeRows_some none, edgeRows_bare]

/-- The ends of edges are fetched without a look at properties. -/
lemma fetchEdges_bare (g : Graph) (types : Option (List String)) :
    g.bare.fetchEdges { types, columns := some [sourceColumn, destinationColumn] }
      = g.fetchEdges { types, columns := some [sourceColumn, destinationColumn] } := by
  have hframe (g : Graph) :
      g.fetchEdges { types, columns := some [sourceColumn, destinationColumn] }
        = .ok ⟨edgeColumns (g.edgeRows
            { types, columns := some [sourceColumn, destinationColumn] })⟩ := rfl
  rw [hframe, hframe, edgeRows_bare]
  simp only [edgeColumns, List.map_map]
  rfl

end Graph

/-! ### Tables and catalogs that describe a graph -/

lemma Offsets.describes_bare {t : Offsets} {g : Graph} : t.Describes g.bare ↔ t.Describes g := by
  have hfields (g : Graph) : t.Describes g ↔ g.vertices.keys = intRange 0 g.vertices.size ∧
      (∀ id type, g.typeAt? id = some type → t.typeOf id = .ok type) ∧
      (∀ type ∈ g.vertexTypes, t.idsOf type = .ok (g.vertexIdsOf type)) ∧
      t.names.Perm g.vertexTypes ∧ ∃ parts, t.names.mapM t.idsOf = .ok parts ∧
        parts.flatten = intRange 0 g.vertices.size := by
    have htypes : (∀ id v, g.vertices.get? id = some v → t.typeOf id = .ok v.type) ↔
        ∀ id type, g.typeAt? id = some type → t.typeOf id = .ok type := by
      simp [Graph.typeAt?]
    rw [← htypes]
    constructor
    · intro h
      exact ⟨h.keys, h.typeOf, h.idsOf, h.names, h.parts⟩
    · rintro ⟨hkeys, htypeOf, hidsOf, hnames, hparts⟩
      exact ⟨hkeys, htypeOf, hidsOf, hnames, hparts⟩
  simp only [hfields, Graph.keys_bare, Graph.size_bare, Graph.typeAt?_bare, Graph.vertexTypes_bare,
    Graph.vertexIdsOf_bare]

lemma EdgeTriple.describes_bare {t : EdgeTriple} {g : Graph} :
    t.Describes g.bare ↔ t.Describes g := by
  have hfields (g : Graph) : t.Describes g ↔ ∀ e ∈ g.edges.values, e.type = some t.edge →
      (∀ type, g.typeAt? e.source = some type → type = t.source) ∧
        ∀ type, g.typeAt? e.destination = some type → type = t.destination := by
    have htypes (id : Int) (type : String) : (∀ v, g.vertices.get? id = some v → v.type = type) ↔
        ∀ type', g.typeAt? id = some type' → type' = type := by
      simp [Graph.typeAt?]
    simp only [← htypes]
    exact ⟨fun h e he htype => ⟨h.source e he htype, h.destination e he htype⟩,
      fun h => ⟨fun e he htype => (h e he htype).1, fun e he htype => (h e he htype).2⟩⟩
  simp only [hfields, Graph.typeAt?_bare, Graph.values_edges_bare, List.forall_mem_map]
  rfl

lemma EdgeCatalog.describes_bare {c : EdgeCatalog} {g : Graph} :
    c.Describes g.bare ↔ c.Describes g := by
  simp only [Describes, EdgeTriple.describes_bare]

/-! ### Answers that read no properties -/

namespace Store

variable {source : Source} {s : Store} {g g' : Graph} {d : EdgeDescriptor} {host host' : Host}
variable {sample : Sample} {batch : BatchIndex} {parts : Nat}

lemma touchesNoHost_readIndex (s : Store) (d : EdgeDescriptor) (f : Frame) :
    (s.readIndex d f).TouchesNoHost := by
  refine .bind (.ofExcept _) fun _ => .bind (.ofExcept _) fun _ => .bind (.ofExcept _) fun _ =>
    .bind (.ofExcept _) fun _ => .bind (.ofExcept _) fun _ => .bind (.ofExcept _) fun _ => ?_
  split
  · exact .ofExcept (.error _)
  · exact .ofExcept (.ok _)

/-- Fetches of edges give what the tables give, whatever else is on the host. -/
lemma outcome_fetchEdges_congr (hsource : FetchesRows source) {q : Query}
    (h : host'.graph.fetchEdges q = host.graph.fetchEdges q) :
    ((ofFetch source.fetchEdges q).runOn host').1
      = ((ofFetch source.fetchEdges q).runOn host).1 := by
  rcases hsource with rfl | ⟨parts, rfl⟩
  · show ((ofFetch (fun g q => .ready <$> g.fetchEdges q) q).runOn host').1
      = ((ofFetch (fun g q => .ready <$> g.fetchEdges q) q).runOn host).1
    rw [runOn_ofFetch_ready, runOn_ofFetch_ready, h]
  · show ((ofFetch (fun _ q => .ok (Source.delay _ _ (Graph.fetchEdges · q))) q).runOn host').1
      = ((ofFetch (fun _ q => .ok (Source.delay _ _ (Graph.fetchEdges · q))) q).runOn host).1
    rw [runOn_ofFetch_delay, runOn_ofFetch_delay, h]

/-- Which edge index is given does not depend on properties. -/
lemma outcome_edgeIndex_congr (hsource : FetchesRows s.source)
    (h : host'.graph.bare = host.graph.bare) (d : EdgeDescriptor) :
    ((s.edgeIndex d).runOn host').1 = ((s.edgeIndex d).runOn host).1 := by
  -- no column of a property is fetched, so that both fetches give one frame
  have hfetch : ((s.fetchIndex d).runOn host').1 = ((s.fetchIndex d).runOn host).1 := by
    rw [fetchIndex, hsource.columns_eq]
    split
    · rfl
    cases hfilter : s.edgeFilter d.key.edge with
    | error e => rfl
    | ok types =>
      refine outcome_fetchEdges_congr hsource ?_
      exact (Graph.fetchEdges_bare _ types).symm.trans (h ▸ Graph.fetchEdges_bare _ types)
  rw [edgeIndex_eq]
  rcases hx : (s.fetchIndex d).runOn host with ⟨e | f, between⟩ <;>
    rcases hy : (s.fetchIndex d).runOn host' with ⟨e' | f', between'⟩ <;>
    rw [hx, hy] at hfetch
  · rw [runOn_bind_error hx, runOn_bind_error hy]
    exact congrArg Except.error (Except.error.inj hfetch)
  · cases hfetch
  · cases hfetch
  · obtain rfl := Except.ok.inj hfetch
    obtain ⟨r, hr⟩ := s.touchesNoHost_readIndex d f'
    rw [runOn_bind_ok hx, runOn_bind_ok hy, hr, hr]

lemma renumberSample_congr (hsource : FetchesRows s.source) (h : g'.bare = g.bare)
    (sample : Sample) (batch : BatchIndex) :
    s.renumberSample g' sample batch = s.renumberSample g sample batch := by
  have hnumerals (ns : List Int) :
      s.source.edgeTypesOfNumerals g' ns = s.source.edgeTypesOfNumerals g ns := by
    have hplain : s.source.edgeTypesOfNumerals = Graph.edgeTypesOfNumerals := by
      rcases hsource with hs | ⟨parts, hs⟩ <;> rw [hs] <;> rfl
    rw [hplain, Graph.edgeTypesOfNumerals, Graph.edgeTypesOfNumerals,
      ← Graph.edgeTypeOfNumeral_bare g', h, Graph.edgeTypeOfNumeral_bare]
  rw [renumberSample, renumberSample, rowsByType, rowsByType, rowsByNumeral, rowsByNumeral]
  simp only [hnumerals]

lemma exists_runOn_fetchIndex (hs : s.source = .plain) (hlayout : d.layout = .coo)
    (hedge : d.key.edge ∈ s.edges.names) (host : Host) :
    ∃ f, (s.fetchIndex d).runOn host = (.ok f, host) := by
  obtain ⟨types, htypes⟩ := edgeFilter_of_mem hedge
  obtain ⟨f, hf⟩ := host.graph.fetchEdges_ends types
  refine ⟨f, ?_⟩
  rw [fetchIndex, if_neg (not_not.mpr hlayout), htypes, hs]
  refine (runOn_bind_ok (runOn_ofExcept _ host)).trans ?_
  refine (runOn_ofFetch_ready Graph.fetchEdges _ host).trans ?_
  exact congrArg (fun x => (Except.mapError StoreError.graph x, host)) hf

/-- A query for an edge type is answered with its edges, in the order in which the source hands them
out. -/
lemma outcome_edgeIndex (hsource : source.OverTables) (hs : Reachable source g s)
    (hlayout : d.layout = .coo) (hedge : d.key.edge ∈ g.namedEdgeTypes) (hhost : host.graph = g) :
    ∃ rows, rows.Perm (g.edgesOf d.key.edge) ∧
      (source = .plain → rows = g.edgesOf d.key.edge) ∧
      ((s.edgeIndex d).runOn host).1 = s.indexOf d rows := by
  have hplain := hs.onPlain hsource
  have hname : d.key.edge ∈ (s.onSource .plain).edges.names := by rwa [hplain.edges_names.1]
  rcases hsource with rfl | ⟨parts, hparts, rfl⟩
  · obtain ⟨types, htypes⟩ := edgeFilter_of_mem hname
    rw [onSource_self hs.source_eq] at htypes
    refine ⟨_, .refl _, fun _ => rfl, ?_⟩
    rw [runOn_edgeIndex_of_filter hs hlayout htypes, hhost, edgeRows_of_edgeFilter hs htypes]
  · have hperm : (partRows parts (g.edgesOf d.key.edge)).Perm (g.edgesOf d.key.edge) :=
      Sorting.sort_perm _ _
    refine ⟨partRows parts (g.edgesOf d.key.edge), hperm, ?_, ?_⟩
    · intro heq
      cases congrArg (fun source => source.fetchVertices {} {}) heq
    obtain ⟨f, hf⟩ := exists_runOn_fetchIndex rfl hlayout hname host
    have hagree := (fetchIndex_agree hparts hplain d host host ⟨hhost, hhost⟩).1
    rw [onSource_onSource hs.source_eq, hf] at hagree
    rcases hrun : (s.fetchIndex d).runOn host with ⟨e | f', between⟩ <;> rw [hrun] at hagree
    · exact hagree.elim
    · have hcolumns : s.source.columns = {} := by rw [hs.source_eq]; rfl
      rw [edgeIndex_eq, runOn_bind_ok hrun,
        runOn_readIndex hcolumns hs.isInteger d hagree.2 between]

lemma indexOf_bare (d : EdgeDescriptor) (rows : List (Int × Edge)) :
    s.indexOf d (rows.map fun r => (r.1, r.2.bare)) = s.indexOf d rows := by
  simp only [indexOf, ends, EdgeIndex.ofRows, List.map_map]
  rfl

lemma renumberSample_onPlain (hsource : source.OverTables) (hs : s.source = source) :
    (s.onSource .plain).renumberSample g sample batch = s.renumberSample g sample batch := by
  obtain ⟨_, device, config, offsets, edges, tensors, subgraphs, oldVertex, oldEdge⟩ := s
  obtain rfl := hs
  rcases hsource with rfl | ⟨parts, -, rfl⟩ <;> rfl

/-- What a store tells of the types of vertices, of edges and of samples is so. -/
structure TellsTypes (s : Store) (g : Graph) : Prop where
  vertices : s.offsets.Describes g
  /-- The edges of a type are between vertices of the types in its triple. -/
  triples : s.edges.Describes g
  /-- An edge index has the edges of its type, over a plain source in the order of their ids. -/
  edges : ∀ (d : EdgeDescriptor) (host : Host), host.graph = g → d.layout = .coo →
    d.key.edge ∈ g.namedEdgeTypes → ∃ rows, rows.Perm (g.bare.edgesOf d.key.edge) ∧
      (s.source = .plain → rows = g.bare.edgesOf d.key.edge) ∧
      ((s.edgeIndex d).runOn host).1 = s.indexOf d rows
  samples : ∀ sample batch edges, s.renumberSample g sample batch = .ok edges →
    s.Localizes g sample batch edges
  /-- With several edge types, a row has the type of its numeral. -/
  numerals : s.edges.single? = none → ∀ sample batch edges,
    s.renumberSample g sample batch = .ok edges → ∀ row n type, sample.numerals[row]? = some n →
      (s.typeOfRow? g sample row = some type ↔ g.edgeTypeOfNumeral n = .ok type)
  /-- In a batch that the store grouped, ends have the vertex types of their triples. -/
  grouped : ∀ sample ids batch edges, s.groupNodes ids = .ok batch →
    s.renumberSample g sample batch = .ok edges → ∀ triple ∈ edges.sources.keys,
      ∀ row ∈ s.rowsOfType g sample triple.edge,
        (∃ id, sample.sources[row]? = some id ∧ s.offsets.typeOf id = .ok triple.source) ∧
        ∃ id, sample.destinations[row]? = some id ∧ s.offsets.typeOf id = .ok triple.destination
  /-- Samples with edges are refused only for lengths, numerals or absent ends. -/
  accepted : s.config.vertexDType = .int64 → ∀ sample (batch : BatchIndex),
    (∀ type group, batch.get? type = some group → group.Pairwise (· < ·)) → sample.sources ≠ [] →
      ((∃ edges, s.renumberSample g sample batch = .ok edges) ↔ ¬ s.Misaligned sample ∧
        (¬ ∃ n, s.BadNumeral g sample n) ∧ ¬ s.Absent g sample batch)

section TellsTypes

variable {now : Graph} {edges : LocalEdges}

lemma edgeTypesOfNumerals_of_overTables (hsource : source.OverTables) (hs : s.source = source) :
    s.source.edgeTypesOfNumerals = Graph.edgeTypesOfNumerals := by
  rw [hs, hsource.edgeTypesOfNumerals_eq]

/-- The ends of a sample are located in the groups of the types in its triples. -/
lemma localizes_of_renumberSample (hs : Reachable source g s)
    (hok : s.renumberSample now sample batch = .ok edges) : s.Localizes now sample batch edges := by
  obtain ⟨haligned, groups, ls, hgroups, hls, rfl⟩ := renumberSample_eq_ok hok
  exact ofTypes_localizes hs.isInteger hs.isNamed haligned
    (rowsByType_isGrouping haligned hgroups) hls

lemma typed_of_renumberSample (hs : Reachable source g s) {ids : List Int}
    (hbatch : s.groupNodes ids = .ok batch)
    (hok : s.renumberSample now sample batch = .ok edges) {triple : EdgeTriple}
    (htriple : triple ∈ edges.sources.keys) {row : Nat}
    (hrow : row ∈ s.rowsOfType now sample triple.edge) :
    (∃ id, sample.sources[row]? = some id ∧ s.offsets.typeOf id = .ok triple.source) ∧
      ∃ id, sample.destinations[row]? = some id ∧ s.offsets.typeOf id = .ok triple.destination := by
  have hlocal := localizes_of_renumberSample hs hok
  have htyped (type : String) (group : List Int) (hget : batch.get? type = some group) (id : Int)
      (hid : id ∈ group) : s.offsets.typeOf id = .ok type :=
    typeOf_of_groupNodes hbatch hget hid
  have htriple' := hlocal.keys ▸ htriple
  rw [← SortedMap.get?_isSome_iff_mem_keys, Option.isSome_iff_exists] at htriple htriple'
  obtain ⟨sources, hsources⟩ := htriple
  obtain ⟨destinations, hdestinations⟩ := htriple'
  exact ⟨exists_of_locates (hlocal.sources triple sources hsources) (htyped triple.source) hrow,
    exists_of_locates (hlocal.destinations triple destinations hdestinations)
      (htyped triple.destination) hrow⟩

/-- A sample with edges is told by positions unless there is a reason to refuse it. -/
lemma exists_renumberSample_iff (hs : Reachable .plain g s) (hdtype : s.config.vertexDType = .int64)
    (hbatch : ∀ type group, batch.get? type = some group → group.Pairwise (· < ·))
    (hne : sample.sources ≠ []) : (∃ edges, s.renumberSample g sample batch = .ok edges) ↔
      ¬ s.Misaligned sample ∧ (¬ ∃ n, s.BadNumeral g sample n) ∧ ¬ s.Absent g sample batch := by
  by_cases haligned : s.Misaligned sample
  · obtain ⟨cause, hcause⟩ : ∃ cause, s.renumberSample g sample batch
        = .error (.shapeMismatch cause) := renumberSample_of_misaligned haligned
    simp [hcause, haligned]
  rcases renumberSample_cases hs hdtype hbatch hne haligned with
    ⟨n, hn, hbad, -⟩ | ⟨-, habsent, cause, hcause⟩ | ⟨hgood, hpresent, edges, hok⟩
  · exact iff_of_false (by simp [hn]) fun h => h.2.1 ⟨n, hbad⟩
  · exact iff_of_false (by simp [hcause]) fun h => h.2.2 habsent
  · exact iff_of_true ⟨edges, hok⟩ ⟨haligned, hgood, hpresent⟩

/-- A store that renumbered its graph goes on telling the truth as long as only properties change.
-/
lemma Reachable.tellsTypes (hsource : source.OverTables) (hs : Reachable source g s)
    (hpolicy : s.config.policy ≠ .keep) (hnow : now.bare = g.bare) : s.TellsTypes now where
  vertices := Offsets.describes_bare.mp
    (hnow ▸ Offsets.describes_bare.mpr ((hs.onPlain hsource).offsets_describe hpolicy))
  triples := EdgeCatalog.describes_bare.mp
    (hnow ▸ EdgeCatalog.describes_bare.mpr (hs.onPlain hsource).edges_describe)
  edges d host hhost hlayout hedge := by
    rw [← Graph.namedEdgeTypes_bare, hnow, Graph.namedEdgeTypes_bare] at hedge
    let before : Host := { graph := g }
    have hbare : host.graph.bare = before.graph.bare := by rw [hhost, hnow]
    have hsame := outcome_edgeIndex_congr (hs.fetchesRows hsource) hbare d
    obtain ⟨rows, hperm, hplain, hout⟩ :=
      outcome_edgeIndex hsource hs hlayout hedge (show before.graph = g from rfl)
    refine ⟨rows.map fun r => (r.1, r.2.bare), ?_, fun h => ?_, ?_⟩
    · rw [hnow, Graph.edgesOf_bare]
      exact hperm.map _
    · rw [hnow, Graph.edgesOf_bare, hplain (hs.source_eq.symm.trans h)]
    · rw [hsame, hout, indexOf_bare]
  samples _ _ _ hok := localizes_of_renumberSample hs hok
  numerals hsingle sample batch edges hok row n type hn := by
    obtain ⟨haligned, groups, ls, hgroups, -⟩ := renumberSample_eq_ok hok
    obtain ⟨names, hnames⟩ := decoded_of_rowsByType hsingle hgroups
    have hnumerals := edgeTypesOfNumerals_of_overTables hsource hs.source_eq
    rw [hnumerals] at hnames
    exact typeOfRow?_eq_some_iff hnumerals hsingle hnames hn
  grouped _ _ _ _ hbatch hok _ htriple _ hrow := typed_of_renumberSample hs hbatch hok htriple hrow
  accepted hdtype sample batch hbatch hne := by
    have hplain := exists_renumberSample_iff (hs.onPlain hsource) hdtype hbatch hne
    rw [renumberSample_onPlain hsource hs.source_eq,
      ← renumberSample_congr (hs.fetchesRows hsource) hnow] at hplain
    have hbad (n : Int) : s.BadNumeral now sample n ↔ s.BadNumeral g sample n := by
      rw [BadNumeral, BadNumeral, ← Graph.edgeTypes_bare now, hnow, Graph.edgeTypes_bare]
    have habsent : s.Absent now sample batch ↔ s.Absent g sample batch := by
      simp only [Absent, RowHasType, ← Graph.edgeTypeOfNumeral_bare now, hnow,
        Graph.edgeTypeOfNumeral_bare]
    rw [habsent]
    simp only [hbad]
    exact hplain

end TellsTypes

/-! ### Later constructions -/

section Constructions

variable {served : Device} {config : Config} {a : Attempt} {as : List Attempt}

/-- What attempts over a source leave of a host, one after the other. -/
def attemptAllOver (source : Source) (host : Host) (as : List Attempt) : Host :=
  as.foldl (fun host a => ((build source a.served a.config).runOn host).2) host

/-- Attempts leave the tables that they leave over the plain source. -/
lemma graph_attemptAllOver (hsource : source.OverTables) (host : Host) (as : List Attempt) :
    (attemptAllOver source host as).graph = (attemptAll host as).graph := by
  rcases hsource with rfl | ⟨parts, hparts, rfl⟩
  · rfl
  have hsame (host host' : Host) (hosts : host.graph = host'.graph) :
      (attemptAllOver (.partitioned parts) host' as).graph = (attemptAll host as).graph := by
    induction as generalizing host host' with
    | nil => exact hosts.symm
    | cons a as ih => exact ih _ _ (build_agree hparts a.served a.config host host' hosts).2
  exact hsame host host rfl

/-- The property under which edges keep their previous ids. -/
def savedEdgeColumn : String := oldColumn Graph.edgeIdColumn

/-- The columns that hold ids if attempts save them. -/
def savedIn (column : String) (saved : Bool) : Set String := {c | saved = true ∧ c = column}

lemma savedIn_false (column : String) : savedIn column false = ∅ := by
  simp [savedIn]

lemma savedIn_or (column : String) (saved saved' : Bool) :
    savedIn column (saved || saved') = savedIn column saved ∪ savedIn column saved' := by
  ext c
  simp only [savedIn, Set.mem_ofPred_eq, Set.mem_union, Bool.or_eq_true, or_and_right]

/-- What attempts keep of the rows of a graph, and where they save their ids. -/
def SavesOnly (g g' : Graph) (saved : Bool) : Prop :=
  g.KeepsRows (savedIn savedColumn saved) (savedIn savedEdgeColumn saved) g'

lemma savesOnly_leftBy (hg : g.IsSettled) (policy : IdPolicy) :
    SavesOnly g (leftBy policy g) (policy = .auto) := by
  rw [leftBy, SavesOnly]
  cases policy with
  | keep => simpa [savedIn] using g.keepsRows_self
  | renumber => simpa [savedIn, oldColumns] using hg.keepsRows_renumbered (none, none)
  | auto =>
    have hrows := hg.keepsRows_renumbered (oldColumns .plain .auto)
    simpa [savedIn, oldColumns, savedColumn, savedEdgeColumn, Source.plain, eq_comm] using hrows

/-- Attempts over a graph whose ids are settled leave it as it is, but save ids if one of them
does. -/
lemma savesOnly_attempt (hg : host.graph.Reachable) (hsettled : host.graph.IsSettled)
    (a : Attempt) :
    SavesOnly host.graph (attempt host a).graph (saves host.graph a) := by
  rw [attempt, graph_of_build hg]
  cases hcheck : precheck .plain a.served a.config host.graph with
  | error c => simpa [SavesOnly, saves, hcheck, savedIn_false] using host.graph.keepsRows_self
  | ok _ => simpa [saves, hcheck] using savesOnly_leftBy hsettled a.config.policy

lemma savesOnly_attemptAll (hg : host.graph.Reachable) (hsettled : host.graph.IsSettled)
    (as : List Attempt) :
    SavesOnly host.graph (attemptAll host as).graph (as.any (saves host.graph)) := by
  induction as generalizing host with
  | nil => simpa [attemptAll, SavesOnly, savedIn_false] using host.graph.keepsRows_self
  | cons a as ih =>
    have hfirst := savesOnly_attempt hg hsettled a
    have hattempted := attempted_attempt hg a
    have hrest := ih hattempted.reachable (hfirst.isSettled hsettled)
    -- what an attempt saves is decided by kinds of edges, which stay the same
    have hsaves : saves (attempt host a).graph = saves host.graph :=
      funext (saves_congr hattempted.kinds)
    rw [hsaves] at hrest
    have hboth := hfirst.trans hrest
    rwa [← savedIn_or, ← savedIn_or] at hboth

/-- A construction that succeeds over a source does so over the plain one, and leaves the same
tables. -/
lemma exists_plain_build (hsource : source.OverTables)
    (h : (build source served config).runOn host = (.ok s, host')) :
    ∃ t left, (build .plain served config).runOn host = (.ok t, left) ∧
      left.graph = host'.graph := by
  rcases hsource with rfl | ⟨parts, hparts, rfl⟩
  · exact ⟨s, host', h, rfl⟩
  obtain ⟨hout, hleft⟩ := build_agree hparts served config host host rfl
  rw [h] at hout hleft
  rcases hrun : (build .plain served config).runOn host with ⟨e | t, left⟩ <;>
    rw [hrun] at hout hleft
  · exact hout.elim
  · exact ⟨t, left, rfl, hleft⟩

/-- A construction that renumbers settles the ids. -/
lemma isSettled_of_build (hsource : source.OverTables) (hg : host.graph.Reachable)
    (hpolicy : config.policy ≠ .keep)
    (h : (build source served config).runOn host = (.ok s, host')) :
    host'.graph.Reachable ∧ host'.graph.IsSettled := by
  obtain ⟨t, left, hplain, hleft⟩ := exists_plain_build hsource h
  rw [← hleft]
  cases hcheck : precheck .plain served config host.graph with
  | error c =>
    rw [runOn_build_of_precheck hcheck] at hplain
    cases (Prod.mk.inj hplain).1
  | ok _ =>
    have hgraph := graph_of_build_of_precheck hg hcheck
    rw [hplain, leftBy, if_neg hpolicy] at hgraph
    rw [hgraph]
    exact ⟨hg.renumbered _, Graph.isSettled_renumbered hg.isSound.closed _⟩

/-- Whatever is attempted after a construction that renumbered leaves every row as it is, but for
saved ids. -/
lemma savesOnly_attemptAllOver (hsource : source.OverTables) (hg : host.graph.Reachable)
    (hpolicy : config.policy ≠ .keep)
    (h : (build source served config).runOn host = (.ok s, host')) (as : List Attempt) :
    SavesOnly host'.graph (attemptAllOver source host' as).graph (as.any (saves host'.graph)) := by
  obtain ⟨hreachable, hsettled⟩ := isSettled_of_build hsource hg hpolicy h
  rw [graph_attemptAllOver hsource]
  exact savesOnly_attemptAll hreachable hsettled as

end Constructions

/-- Over every graph that comes to be, renumbering vertices changes nothing exactly if they have the
ids from zero on and each type owns one block of them. Renumberings of either kind and under any
columns tell the same blocks again and again, and once both kinds have taken place, further ones
leave every id, every end, every type and every property as it is, except in the columns in which
they save the ids. So a store that renumbered its graph is not harmed by later constructions under
any policies, be they refused or not: what it answers for an edge type or a sample is what it
answered before, and what it tells of types, edges and samples is so. -/
theorem renumbering_is_stable (hg : g.Reachable) :
    ((g.perform (.renumberVertices none)).2 = g ↔ g.IsBlockwise) ∧
      (∃ vertexRanges edgeRanges, ∀ cs : List Call, (∀ c ∈ cs, c.IsRenumbering) →
        (∀ previous, ((g.performAll cs).perform (.renumberVertices previous)).1
          = .ok vertexRanges) ∧
        (∀ previous, ((g.performAll cs).perform (.renumberEdges previous)).1 = .ok edgeRanges) ∧
        ((∃ previous, .renumberVertices previous ∈ cs) →
          (∃ previous, .renumberEdges previous ∈ cs) → ∀ cs' : List Call,
            (∀ c ∈ cs', c.IsRenumbering) →
              (g.performAll cs).KeepsRows {c | .renumberVertices (some c) ∈ cs'}
                {c | .renumberEdges (some c) ∈ cs'} (g.performAll (cs ++ cs')))) ∧
      ∀ source served config forced s host, source.OverTables → config.policy ≠ .keep →
        (build source served config).runOn ⟨g, forced⟩ = (.ok s, host) → ∀ as,
          let later := attemptAllOver source host as
          SavesOnly host.graph later.graph (as.any (saves host.graph)) ∧ s.TellsTypes later.graph ∧
            (∀ d, ((s.edgeIndex d).runOn later).1 = ((s.edgeIndex d).runOn host).1) ∧
            ∀ sample batch, s.renumberSample later.graph sample batch
              = s.renumberSample host.graph sample batch := by
  have hclosed := hg.isSound.closed
  refine ⟨?_, ⟨g.vertexBlocks, g.edgeBlocks, fun cs hcs => ?_⟩, ?_⟩
  · rw [Graph.perform_renumberVertices hclosed]
    exact Graph.withNewVertexIds_eq_self_iff hclosed
  · have hsettles := Graph.settles_performAll hclosed hcs
    refine ⟨fun previous => ?_, fun previous => ?_, fun hvertices hedges cs' hcs' => ?_⟩
    · rw [Graph.perform_renumberVertices (Graph.closed_bare.mp hsettles.closed),
        ← Graph.vertexBlocks_bare, hsettles.vertexBlocks, Graph.vertexBlocks_bare]
    · rw [Graph.perform_renumberEdges, ← Graph.edgeBlocks_bare, hsettles.edgeBlocks,
        Graph.edgeBlocks_bare]
    · have hsplit : g.performAll (cs ++ cs') = (g.performAll cs).performAll cs' := List.foldl_append
      rw [hsplit]
      exact (hsettles.isSettled hvertices hedges).keepsRows_performAll hcs'
  · intro source served config forced s host hsource hpolicy h as later
    have hstart : (⟨g, forced⟩ : Host).graph.Reachable := hg
    have hlater := savesOnly_attemptAllOver hsource hstart hpolicy h as
    have hs : Reachable source host.graph s := .built h
    have hkept : s.config.policy ≠ .keep := by rwa [(build_eq_ok h).2.2.1]
    exact ⟨hlater, hs.tellsTypes hsource hkept hlater.bare,
      outcome_edgeIndex_congr (hs.fetchesRows hsource) hlater.bare,
      renumberSample_congr (hs.fetchesRows hsource) hlater.bare⟩

/-- The authors and papers of the library take turns, so renumbering moves them; after the first
store a second one moves nothing. -/
theorem renumbering_is_stable_library : library.Reachable ∧
    (library.perform (.renumberVertices none)).2 ≠ library ∧ ¬ library.IsBlockwise ∧
      (build .plain .cpu {}).runOn { graph := library } = (.ok libraryStore, libraryRun.2) ∧
      libraryStore.TellsTypes (attemptAllOver .plain libraryRun.2
        [⟨.cpu, { policy := .renumber }⟩, ⟨.cpu, {}⟩]).graph := by
  obtain ⟨hself, -, hstores⟩ := renumbering_is_stable Graph.reachable_library
  have hmoves : (library.perform (.renumberVertices none)).2 ≠ library := by decide +kernel
  have hlater := hstores .plain .cpu {} 0 libraryStore libraryRun.2 (.inl rfl) (by decide)
    runOn_build_library [⟨.cpu, { policy := .renumber }⟩, ⟨.cpu, {}⟩]
  exact ⟨Graph.reachable_library, hmoves, fun h => hmoves (hself.mpr h), runOn_build_library,
    hlater.2.1⟩

end Store

end TypedGraph
