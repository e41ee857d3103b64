import TypedGraph.Proofs.Action
import TypedGraph.Proofs.Renumbering
import TypedGraph.Store.Basic

/-!
# Stores as they are built

What holds of every store from its construction on. An entry of the edge catalog is filed under the
name of its own triple (`Reachable.isNamed`), ids have an integer type (`Reachable.isInteger`),
and over a plain source the catalog has exactly the edge types of the graph
(`Reachable.edges_names`).
-/

namespace TypedGraph

open Traversal

/-! ### Edge catalogs -/

namespace EdgeCatalog

variable {s : Source} {c c' : EdgeCatalog} {edge : String} {e : EdgeEntry}

lemma entry_eq_ok_iff : c.entry edge = .ok e ↔ c.entries.get? edge = some e := by
  rw [entry]
  cases c.entries.get? edge <;> simp

lemma mem_names_iff : edge ∈ c.names ↔ ∃ e, c.entry edge = .ok e := by
  simp only [entry_eq_ok_iff]
  rw [names]
  rw [← SortedMap.get?_isSome_iff_mem_keys, Option.isSome_iff_exists]

lemma entry_of_notMem (h : edge ∉ c.names) :
    c.entry edge = .error (.lookup (.unknownEdgeType edge)) := by
  have hnone : c.entries.get? edge = none :=
    Option.not_isSome_iff_eq_none.mp (mt SortedMap.get?_isSome_iff_mem_keys.mp h)
  rw [entry, hnone]

lemma single?_eq_none_iff : c.single? = none ↔ c.length ≠ 1 := by
  rw [single?, length, SortedMap.size]
  split
  · rename_i e he
    simp [he]
  · rename_i hother
    simp only [ne_eq, true_iff]
    intro hlen
    obtain ⟨e, he⟩ := List.length_eq_one_iff.mp hlen
    exact hother e he

lemma names_of_single {type : String} (h : c.single? = some (type, e)) :
    c.length = 1 ∧ c.names = [type] ∧ c.entry type = .ok e := by
  rw [single?] at h
  split at h
  · rename_i entry hentries
    obtain rfl := Option.some.inj h
    refine ⟨by simp [length, SortedMap.size, hentries],
      by simp [names, SortedMap.keys, hentries], ?_⟩
    rw [entry_eq_ok_iff, ← SortedMap.mem_entries_iff, hentries]
    exact List.mem_singleton_self _
  · simp at h

/-- Every entry is filed under the name in its triple. -/
def IsNamed (c : EdgeCatalog) : Prop := ∀ edge e, c.entry edge = .ok e → e.triple.edge = edge

lemma isNamed_empty : IsNamed {} := by
  intro edge e h
  rw [entry_eq_ok_iff] at h
  simp at h

lemma IsNamed.insert (hc : c.IsNamed) (he : e.triple.edge = edge) :
    IsNamed ⟨c.entries.insert edge e⟩ := by
  intro edge' e' h
  rw [entry_eq_ok_iff, SortedMap.get?_insert] at h
  split_ifs at h with hedge
  · obtain rfl : e = e' := Option.some.inj h
    rw [he, hedge]
  · exact hc edge' e' (entry_eq_ok_iff.mpr h)

lemma inspect_yields (s : Source) (edge : String) :
    (inspect s edge).Yields (·.triple.edge = edge) := by
  rw [inspect]
  refine .last ?_
  intro f
  split
  · exact .throw_bind
  · exact .last fun _ => .last fun _ => .last fun _ => .last fun _ => .pure rfl

/-- Adding types succeeds only if all of them have names, and files an entry for each. -/
lemma addTypes_yields (s : Source) (types : List (Option String)) (hc : c.IsNamed) :
    (addTypes s types c).Yields fun c' => c'.IsNamed ∧ (∀ type ∈ types, type.isSome) ∧
      ∀ edge, edge ∈ c'.names ↔ edge ∈ c.names ∨ some edge ∈ types := by
  -- the catalog grows by one name at a time; a missing name stops the run
  induction types generalizing c with
  | nil => exact .pure ⟨hc, by simp, by simp⟩
  | cons type types ih =>
    cases type with
    | none => exact .throw _
    | some edge =>
      refine .bind (inspect_yields s edge) fun e he => ?_
      intro host host' c' hrun
      obtain ⟨hnamed, hsome, hmem⟩ := ih (hc.insert he) host host' c' hrun
      refine ⟨hnamed, by simpa using hsome, ?_⟩
      intro edge'
      rw [hmem edge']
      rw [names]
      rw [SortedMap.mem_keys_insert, List.mem_cons, Option.some_inj]
      tauto

lemma isNamed_of_build {source : Source} {host host' : Host}
    (h : (build source).runOn host = (.ok c, host')) : c.IsNamed := by
  rw [build, Action.runOn_bind_ok (Action.runOn_get host)] at h
  exact (addTypes_yields source _ isNamed_empty _ _ _ h).1

lemma distinctIds_keepsTables (f : Frame) (column : String) :
    (distinctIds f column).KeepsTables := by
  rw [distinctIds]
  refine .bind (.ofExcept _) ?_
  intro c
  cases c.ints? with
  | some ids => exact .pure _
  | none => exact .throw _

lemma endType_keepsTables (edge : String) (side : EdgeEnd) (ids : List Int) :
    (endType .plain edge side ids).KeepsTables := by
  rw [endType]
  refine .bind (.ofFetch Graph.fetchVertices _) fun f => .bind (.ofExcept _) ?_
  intro c
  cases c.texts? with
  | some types => exact .ofExcept _
  | none => exact .throw _

lemma inspect_keepsTables (edge : String) : (inspect .plain edge).KeepsTables := by
  rw [inspect]
  refine .bind (.ofFetch Graph.fetchEdges _) ?_
  intro f
  split
  · exact .throw_bind
  · exact .bind (distinctIds_keepsTables f _) fun sources =>
      .bind (distinctIds_keepsTables f _) fun destinations =>
        .bind (endType_keepsTables edge .source sources) fun sourceType =>
          .bind (endType_keepsTables edge .destination destinations) fun destinationType =>
            .pure _

lemma addTypes_keepsTables (types : List (Option String)) (c : EdgeCatalog) :
    (addTypes .plain types c).KeepsTables := by
  induction types generalizing c with
  | nil => exact .pure c
  | cons type types ih =>
    cases type with
    | none => exact .throw _
    | some edge => exact .bind (inspect_keepsTables edge) fun e => ih _

/-- The catalog of a plain source has the edge types of the graph, all of which have names. -/
lemma build_plain {host host' : Host} (h : (build .plain).runOn host = (.ok c, host')) :
    host'.graph = host.graph ∧ c.names = host.graph.namedEdgeTypes ∧
      host.graph.edgeTypes = host.graph.namedEdgeTypes.map some := by
  rw [build] at h
  rw [Action.runOn_bind_ok (Action.runOn_get host)] at h
  obtain ⟨-, hsome, hmem⟩ := addTypes_yields .plain _ isNamed_empty _ _ _ h
  have hkept := addTypes_keepsTables (Source.plain.edgeTypes host.graph) {} host
  rw [h] at hkept
  refine ⟨hkept, ?_, host.graph.edgeTypes_eq hsome⟩
  refine List.Pairwise.eq_of_mem_iff c.entries.pairwise_keys (Ascending.pairwise_ofList _)
    fun edge => ?_
  have hplain : Source.plain.edgeTypes host.graph = host.graph.edgeTypes := rfl
  rw [← Graph.some_mem_edgeTypes, ← hplain]
  simpa [names, SortedMap.keys] using hmem edge

end EdgeCatalog

/-! ### Stores -/

namespace Store

variable {source : Source} {g : Graph} {s : Store}

/-- The stores that come to be over a source, by the tables that their construction leaves. The
tables may change under a store, so a subgraph may be extracted from any. -/
inductive Reachable (source : Source) : Graph → Store → Prop where
  | built {served : Device} {config : Config} {host host' : Host} {s : Store}
      (h : (build source served config).runOn host = (.ok s, host')) :
      Reachable source host'.graph s
  | registered {g : Graph} {s : Store} (h : Reachable source g s) (group : String)
      (r : Registration) : Reachable source g (s.registerTensor group r)
  | extracted {g : Graph} {s : Store} (h : Reachable source g s) (now : Graph)
      (types : List String) : Reachable source g (s.subgraph now types).2

/-- A subgraph changes nothing but what is remembered. -/
lemma subgraph_snd (s : Store) (now : Graph) (types : List String) :
    ∃ subgraphs, (s.subgraph now types).2 = { s with subgraphs } := by
  rw [subgraph]
  split
  · exact ⟨s.subgraphs, rfl⟩
  · exact ⟨_, rfl⟩

/-- The parts that a store is built of. -/
lemma build_eq_ok {served : Device} {config : Config} {host host' : Host}
    (h : (build source served config).runOn host = (.ok s, host')) :
    s.source = source ∧ s.device = served ∧ s.config = config ∧ config.vertexDType.isInteger ∧
      ∃ between, (makeOffsets source config.policy).runOn host = (.ok s.offsets, between) ∧
        (EdgeCatalog.build source).runOn between = (.ok s.edges, host') := by
  rw [build] at h
  rw [Action.runOn_bind_ok (Action.runOn_get host)] at h
  obtain ⟨_, _, hcheck, h⟩ := Action.runOn_bind_eq_ok_iff.mp h
  obtain ⟨offsets, between, hoffsets, h⟩ := Action.runOn_bind_eq_ok_iff.mp h
  obtain ⟨edges, last, hedges, h⟩ := Action.runOn_bind_eq_ok_iff.mp h
  obtain ⟨hcheck, rfl⟩ := Action.runOn_ofExcept_eq_ok_iff.mp hcheck
  rw [mapError_eq_ok_iff] at hcheck
  simp only [Action.runOn_pure, Prod.mk.injEq, Except.ok.injEq] at h
  obtain ⟨rfl, rfl⟩ := h
  refine ⟨rfl, rfl, rfl, ?_, between, hoffsets, hedges⟩
  rw [precheck] at hcheck
  split_ifs at hcheck with _ _ hint
  simpa using hint

/-- The tensors that a store is built with, and the properties that it keeps previous ids under. -/
lemma build_settings {served : Device} {config : Config} {host host' : Host}
    (h : (build source served config).runOn host = (.ok s, host')) :
    s.tensors = TensorCatalog.defaults (source.vertexTypes host.graph)
        (source.vertexPropertyNames host.graph) config.featureName config.labelName
        config.propertyDType config.vertexDType ∧
      (s.oldVertexColumn, s.oldEdgeColumn) = oldColumns source config.policy := by
  rw [build, Action.runOn_bind_ok (Action.runOn_get host)] at h
  obtain ⟨_, _, -, h⟩ := Action.runOn_bind_eq_ok_iff.mp h
  obtain ⟨_, _, -, h⟩ := Action.runOn_bind_eq_ok_iff.mp h
  obtain ⟨_, _, -, h⟩ := Action.runOn_bind_eq_ok_iff.mp h
  obtain rfl := Except.ok.inj (Prod.mk.inj h).1
  exact ⟨rfl, rfl⟩

lemma makeOffsets_of_ne_keep {policy : IdPolicy} (h : policy ≠ .keep) :
    makeOffsets source policy = renumber source (oldColumns source policy) := by
  cases policy with
  | auto => rfl
  | renumber => rfl
  | keep => exact absurd rfl h

/-- Counting the vertices of each type changes nothing. -/
lemma makeOffsets_keep_keepsTables (source : Source) : (makeOffsets source .keep).KeepsTables := by
  rw [makeOffsets]
  exact .bind (fun _ => rfl) fun _ => .bind (.ofExcept _) fun _ => .pure _

/-- Renumbering a plain source renumbers the vertices, and then the edges of what that leaves. -/
lemma renumber_plain_eq_ok {old : Option String × Option String} {host host' : Host} {t : Offsets}
    (h : (renumber .plain old).runOn host = (.ok t, host')) :
    ∃ ranges between, host.graph.renumberVertices old.1 = .ok (ranges, between) ∧
      Offsets.ofRanges ranges = .ok t ∧ host'.graph = (between.renumberEdges old.2).2 := by
  rw [renumber] at h
  obtain ⟨ranges, _, hfirst, h⟩ := Action.runOn_bind_eq_ok_iff.mp h
  obtain ⟨_, _, hsecond, h⟩ := Action.runOn_bind_eq_ok_iff.mp h
  obtain ⟨between, hvertices, rfl⟩ := Action.runOn_change_eq_ok_iff.mp hfirst
  obtain ⟨_, hedges, rfl⟩ := Action.runOn_change_eq_ok_iff.mp hsecond
  obtain ⟨htable, rfl⟩ := Action.runOn_ofExcept_eq_ok_iff.mp h
  exact ⟨ranges, between, hvertices, htable, (congrArg Prod.snd (Except.ok.inj hedges)).symm⟩

namespace Reachable

/-- A store is as it was built but for the tensors and the subgraphs that were added. -/
lemma exists_built (h : Reachable source g s) :
    ∃ served config host host' t, (build source served config).runOn host = (.ok t, host') ∧
      host'.graph = g ∧ s = { t with tensors := s.tensors, subgraphs := s.subgraphs } := by
  induction h with
  | @built served config host host' s h => exact ⟨served, config, host, host', s, h, rfl, rfl⟩
  | @registered g s _ group r ih =>
    obtain ⟨served, config, host, host', t, ht, hg, hs⟩ := ih
    refine ⟨served, config, host, host', t, ht, hg, ?_⟩
    rw [hs]
    rfl
  | @extracted g s _ now types ih =>
    obtain ⟨served, config, host, host', t, ht, hg, hs⟩ := ih
    obtain ⟨subgraphs, heq⟩ := s.subgraph_snd now types
    refine ⟨served, config, host, host', t, ht, hg, ?_⟩
    rw [heq, hs]

lemma source_eq (h : Reachable source g s) : s.source = source := by
  obtain ⟨served, config, host, host', t, ht, -, hs⟩ := h.exists_built
  rw [hs]
  exact (build_eq_ok ht).1

lemma isInteger (h : Reachable source g s) : s.config.vertexDType.isInteger := by
  obtain ⟨served, config, host, host', t, ht, -, hs⟩ := h.exists_built
  obtain ⟨-, -, hconfig, hint, -⟩ := build_eq_ok ht
  rw [hs]
  rwa [← hconfig] at hint

/-- Every entry of the catalog is filed under the name in its triple. -/
theorem isNamed (h : Reachable source g s) : s.edges.IsNamed := by
  obtain ⟨served, config, host, host', t, ht, -, hs⟩ := h.exists_built
  obtain ⟨-, -, -, -, between, -, hbuild⟩ := build_eq_ok ht
  rw [hs]
  exact EdgeCatalog.isNamed_of_build hbuild

/-- Over a plain source the catalog has the edge types of the graph, all of which have names. -/
theorem edges_names (h : Reachable .plain g s) :
    s.edges.names = g.namedEdgeTypes ∧ g.edgeTypes = g.namedEdgeTypes.map some := by
  obtain ⟨served, config, host, host', t, ht, rfl, hs⟩ := h.exists_built
  obtain ⟨-, -, -, -, between, -, hbuild⟩ := build_eq_ok ht
  obtain ⟨hkept, hnames, htypes⟩ := EdgeCatalog.build_plain hbuild
  rw [hs, hkept]
  exact ⟨hnames, htypes⟩

end Reachable

/-! ### A small library -/

/-- Two authors who wrote a paper that cites another one. -/
def library : Graph where
  vertices := .ofList [(0, { type := "author" }), (1, { type := "paper" }),
    (2, { type := "author" }), (3, { type := "paper" })]
  edges := .ofList [(0, ⟨0, 1, some "writes", .empty⟩), (1, ⟨2, 1, some "writes", .empty⟩),
    (2, ⟨1, 3, some "cites", .empty⟩)]
  nextEdgeId := 3

/-- The outcome of building a store over the library. -/
def libraryRun : Except StoreError Store × Host :=
  (build .plain .cpu {}).runOn { graph := library }

/-- The store over the library, and the tables that its construction leaves. -/
def libraryStore : Store := libraryRun.1.toOption.get (by decide +kernel)

lemma runOn_build_library : (build .plain .cpu {}).runOn { graph := library }
    = (.ok libraryStore, libraryRun.2) :=
  Prod.ext (eq_ok_get _) rfl

lemma reachable_libraryStore : Reachable .plain libraryRun.2.graph libraryStore :=
  .built runOn_build_library

end Store

end TypedGraph
