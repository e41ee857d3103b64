import TypedGraph.Proofs.GatheredTensors
import TypedGraph.Proofs.Registrations

/-!
# Rows of feature tensors

How many rows a tensor has. The rows are counted in the first column, so a tensor has one for each
vertex of its request if it has any column, and none if no property is asked for (`requestedShape`).
The feature tensor that construction registers is made of all properties but the label, so over a
graph without others it has no rows, however many vertices there are (`build_counts_rows`).
-/

namespace TypedGraph

open Traversal TypedGraph.Action

/-! ### Registered tensors -/

namespace TensorCatalog

variable {c : TensorCatalog} {group other : String} {r : Registration} {rs : List Registration}

/-- Registering several tensors of a group leaves the other groups alone. -/
lemma get?_registerAll_of_ne (c : TensorCatalog) (h : other ≠ group) (rs : List Registration) :
    (rs.foldl (fun c r => c.register group r) c).groups.get? other = c.groups.get? other := by
  induction rs generalizing c with
  | nil => rfl
  | cons r rs ih => rw [List.foldl_cons, ih, get?_register, if_neg h]

/-- The last registration of a group. -/
def EndsWith (c : TensorCatalog) (group : String) (r : Registration) : Prop :=
  ∃ before, c.groups.get? group = some (before ++ [r])

lemma endsWith_register (c : TensorCatalog) (group : String) (r : Registration) :
    (c.register group r).EndsWith group r :=
  ⟨(c.groups.get? group).getD [], by rw [get?_register, if_pos rfl]⟩

lemma endsWith_registerAll (c : TensorCatalog) (group : String) (rs : List Registration)
    (r : Registration) :
    ((rs ++ [r]).foldl (fun c r => c.register group r) c).EndsWith group r := by
  rw [List.foldl_append]
  exact endsWith_register _ group r

/-- Registering the same tensors for some groups, one after the other, they are the last of each. -/
lemma endsWith_foldl {groups : List String}
    (h : group ∈ groups ∨ c.EndsWith group r) :
    (groups.foldl (fun c g => (rs ++ [r]).foldl (fun c r => c.register g r) c) c).EndsWith
      group r := by
  induction groups generalizing c with
  | nil => simpa using h
  | cons g groups ih =>
    rw [List.foldl_cons]
    apply ih
    by_cases hg : group = g
    · subst hg
      exact .inr (endsWith_registerAll c group rs r)
    · rcases h with hmem | ⟨before, hbefore⟩
      · exact .inl ((List.mem_cons.mp hmem).resolve_left hg)
      · exact .inr ⟨before, by rw [get?_registerAll_of_ne c hg, hbefore]⟩

lemma registration?_of_endsWith (h : c.EndsWith group r) :
    c.registration? group r.name = some r := by
  obtain ⟨before, hbefore⟩ := h
  rw [registration?, hbefore, Option.bind_some, List.reverse_append]
  simp

/-- A request that leaves its properties open is completed with those that are registered. -/
lemma infer_of_registration {d : TensorDescriptor} {name : String}
    (h : c.registration? group name = some r) (hgroup : d.group = .value (some group))
    (hname : d.name = .value (some name)) (hproperties : d.properties = .unset) :
    ∃ d', c.infer d = .ok d' ∧ d'.properties.flat = some r.properties ∧ d'.group = d.group ∧
      d'.index = d.index := by
  have hcontains : c.groups.contains group = true := by
    rw [registration?, Option.bind_eq_some_iff] at h
    obtain ⟨rs, hrs, -⟩ := h
    rw [SortedMap.contains, hrs]
    rfl
  have hfind : c.find? group name = some (r.descriptor group) := by
    rw [find?, h, Option.map_some]
  have hmatching : c.matching d = .ok (r.descriptor group) := by
    simp [matching, hgroup, hname, Setting.flat, Setting.value?, hcontains, hfind]
  rw [infer, hmatching, hproperties]
  exact ⟨_, rfl, rfl, rfl, rfl⟩

/-- The feature of a group is made of all properties but the label. -/
lemma registration?_defaults {groups properties : List String} {feature label : String}
    {propertyDType labelDType : DType} (h : group ∈ groups) :
    (defaults groups properties feature label propertyDType labelDType).registration? group feature
      = some ⟨feature, properties.filter (· ≠ label), propertyDType⟩ :=
  registration?_of_endsWith (endsWith_foldl (.inl h))

end TensorCatalog

/-! ### Sizes of groups -/

namespace Offsets

variable {start : Int} {counts : List (String × Nat)} {r : TypeRange}

lemma word64_of_lt {n : Int} (h : 0 ≤ n) (hlt : n < 2 ^ 63) : word64 n = n := by
  rw [word64, Int.bmod_def]
  omega

/-- Blocks are as long as they count if there are fewer than `2 ^ 63` rows. -/
lemma stop_of_mem_blocks (h : r ∈ blocks start counts) (hstart : 0 ≤ start)
    (hsum : start + (counts.map (·.2)).sum < 2 ^ 63) :
    ∃ n, (r.name, n) ∈ counts ∧ r.stop = r.start + n := by
  induction counts generalizing start with
  | nil => simp [blocks] at h
  | cons c counts ih =>
    rw [List.map_cons, List.sum_cons, Nat.cast_add] at hsum
    have hstop : word64 (start + word64 c.2) = start + c.2 := by
      rw [word64_of_lt (n := c.2) (by omega) (by omega), word64_of_lt (by omega) (by omega)]
    rw [blocks, hstop, List.mem_cons] at h
    rcases h with rfl | h
    · exact ⟨c.2, List.mem_cons_self, rfl⟩
    · obtain ⟨n, hn, hr⟩ := ih h (by omega) (by omega)
      exact ⟨n, List.mem_cons_of_mem _ hn, hr⟩

lemma mem_of_rangeOf {t : Offsets} {name : String} (h : t.rangeOf name = .ok r) :
    r ∈ t.ranges ∧ r.name = name := by
  rw [rangeOf] at h
  split at h
  · rename_i found hfind
    obtain rfl := Except.ok.inj h
    exact ⟨List.mem_of_find?_eq_some hfind, by simpa using List.find?_some hfind⟩
  · simp at h

/-- A table of counts lists as many ids for a type as the type counts. -/
lemma length_idsOf_ofCounts {name : String} {ids : List Int}
    (hsum : (counts.map (·.2)).sum < 2 ^ 63) (h : (ofCounts counts).idsOf name = .ok ids) :
    (name, ids.length) ∈ counts := by
  obtain ⟨r, hr, rfl⟩ := map_eq_ok_iff.mp h
  obtain ⟨hmem, rfl⟩ := mem_of_rangeOf hr
  have hperm := (Sorting.sort_perm (fun a b : String × Nat => a.1 ≤ b.1) counts).map (·.2)
  have hsum' : (0 : Int) + ((Sorting.sort (fun a b : String × Nat => a.1 ≤ b.1) counts).map
      (·.2)).sum < 2 ^ 63 := by
    rw [hperm.sum_eq]
    omega
  obtain ⟨n, hn, hstop⟩ := stop_of_mem_blocks hmem (le_refl 0) hsum'
  rw [length_intRange, hstop, add_sub_cancel_left, Int.toNat_natCast]
  exact (Sorting.mem_sort _).mp hn

end Offsets

namespace Graph

variable {g : Graph} {type : String}

lemma length_vertexIdsOf (g : Graph) (type : String) :
    (g.vertexIdsOf type).length = (g.vertices.values.filter (·.type = type)).length := by
  rw [vertexIdsOf, SortedMap.values, List.filter_map, List.length_map, List.length_map]
  rfl

lemma vertexCount_of_mem (h : type ∈ g.vertexTypes) :
    g.vertexCount (some type) = .ok (g.vertexIdsOf type).length := by
  obtain ⟨id, hid⟩ := mem_vertexTypes.mp h
  have hpos : (g.vertexIdsOf type).length ≠ 0 := by
    intro hzero
    rw [List.length_eq_zero_iff.mp hzero] at hid
    exact List.not_mem_nil hid
  rw [length_vertexIdsOf] at hpos ⊢
  rw [vertexCount]
  split
  · contradiction
  · rfl

/-- The vertices of all types are all vertices. -/
lemma sum_length_vertexIdsOf (g : Graph) :
    (g.vertexTypes.map fun type => (g.vertexIdsOf type).length).sum = g.vertices.size := by
  have htypes : g.vertexTypes.Nodup := Ascending.nodup_ofList _
  have hmem : ∀ r ∈ g.vertices.entries, r.2.type ∈ g.vertexTypes := by
    intro r hr
    exact mem_vertexTypes.mpr
      ⟨r.1, mem_vertexIdsOf.mpr ⟨r.2, SortedMap.mem_entries_iff.mp hr, rfl⟩⟩
  have hperm := inBlocks_perm htypes (nodup_entries g.vertices) hmem
  have hlength := hperm.length_eq
  rw [inBlocks, List.length_flatMap] at hlength
  simpa [vertexIdsOf, SortedMap.size] using hlength

end Graph

namespace Store

variable {source : Source} {s : Store} {g : Graph} {group : String} {ids : List Int}

/-- The vertices of every type of a plain source can be counted. -/
lemma countTypes_plain (g : Graph) :
    countTypes .plain g
      = .ok (g.vertexTypes.map fun type => (type, (g.vertexIdsOf type).length)) := by
  refine mapM_eq_ok_map fun type htype => ?_
  show (do pure (type, ← g.vertexCount (some type))) = _
  rw [Graph.vertexCount_of_mem htype]
  rfl

/-- Where ids are kept, the offset table is one of the counted types. -/
lemma Reachable.offsets_of_keep (h : Reachable .plain g s) (hpolicy : s.config.policy = .keep) :
    s.offsets
      = .ofCounts (g.vertexTypes.map fun type => (type, (g.vertexIdsOf type).length)) := by
  obtain ⟨served, config, host, host', t, ht, rfl, hs⟩ := h.exists_built
  obtain ⟨-, -, hconfig, -, between, hoffsets, hedges⟩ := build_eq_ok ht
  have hconfig' : config.policy = .keep := by rw [← hpolicy, hs, ← hconfig]
  rw [hconfig', makeOffsets, runOn_bind_ok (runOn_get host)] at hoffsets
  obtain ⟨counts, _, hcounts, hlast⟩ := runOn_bind_eq_ok_iff.mp hoffsets
  obtain ⟨hcounts, rfl⟩ := runOn_ofExcept_eq_ok_iff.mp hcounts
  obtain ⟨htable, rfl⟩ := Prod.mk.inj hlast
  rw [countTypes_plain] at hcounts
  obtain rfl := Except.ok.inj hcounts
  rw [hs, (EdgeCatalog.build_plain hedges).1]
  exact (Except.ok.inj htable).symm

/-- A store lists as many ids for a group as there are vertices of the group on the tables that its
construction left, if there are fewer than `2 ^ 63` vertices or their ids were made anew. -/
lemma Reachable.length_idsOf (hsource : source.OverTables) (hs : Reachable source g s)
    (hsize : s.config.policy = .keep → g.vertices.size < 2 ^ 63)
    (hids : s.offsets.idsOf group = .ok ids) : ids.length = (g.vertexIdsOf group).length := by
  have hplain := hs.onPlain hsource
  by_cases hpolicy : s.config.policy = .keep
  · -- kept ids are counted, and the counts are those of the vertices if the sum is exact
    have htable : s.offsets = _ := hplain.offsets_of_keep hpolicy
    rw [htable] at hids
    have hsum : ((g.vertexTypes.map fun type => (type, (g.vertexIdsOf type).length)).map
        (·.2)).sum < 2 ^ 63 := by
      rw [List.map_map]
      exact g.sum_length_vertexIdsOf.trans_lt (hsize hpolicy)
    have hcounts := Offsets.length_idsOf_ofCounts hsum hids
    obtain ⟨type, -, heq⟩ := List.mem_map.mp hcounts
    obtain ⟨rfl, hlength⟩ := Prod.mk.inj heq
    exact hlength.symm
  · -- with new ids the table describes the graph itself
    obtain ⟨r, hr, -⟩ := map_eq_ok_iff.mp hids
    obtain ⟨hmem, rfl⟩ := Offsets.mem_of_rangeOf hr
    have hgroup : r.name ∈ g.vertexTypes :=
      hplain.names_perm.mem_iff.mp (List.mem_map_of_mem hmem)
    have hdescribes := hplain.offsets_describe hpolicy
    rw [Except.ok.inj (hids.symm.trans (hdescribes.idsOf r.name hgroup))]

/-! ### Sizes of tensors -/

variable {served : Device} {config : Config} {host host' : Host} {d : TensorDescriptor}
variable {names : List String} {f : Frame} {t : Tensor} {sizes : List Nat}

/-- The shape of the tensor of some vertices and properties. Without a property there are no rows.
-/
def requestedShape (ids : List Int) (names : List String) : List Nat :=
  [if names = [] then 0 else ids.length, names.length]

lemma Gathers.shape (h : s.Gathers g d ids names f t) : t.shape = requestedShape ids names := by
  by_cases hne : names = []
  · subst hne
    obtain ⟨rows, -, hrest⟩ := bind_eq_ok_iff.mp h.gathered
    -- a selection of nothing leaves a frame without columns, and so without rows
    have hempty : ((Tensor.castTo ⟨.float64 [], [0, 0], .cpu⟩ d.dtype.flat).mapError
        StoreError.tensor >>= fun t => pure (t.on s.device)) = .ok t := hrest
    obtain ⟨t₁, hcast, hlast⟩ := bind_eq_ok_iff.mp hempty
    obtain ⟨hshape, -⟩ := Tensor.shape_and_dtype_of_castTo (mapError_eq_ok_iff.mp hcast)
    obtain rfl := Except.ok.inj hlast
    exact hshape
  · rw [(h.answers hne).shape, requestedShape, if_neg hne]

/-- Some sizes are those of the vertices and properties that a request comes to. -/
def ShapedBy (s : Store) (d : TensorDescriptor) (sizes : List Nat) : Prop :=
  ∃ d' ids names, s.tensors.infer d = .ok d' ∧ s.requestedIds d' = .ok ids ∧
    d'.properties.flat = some names ∧ sizes = requestedShape ids names

/-- How the rows of tensors are counted, by a store over tables that its construction left. -/
structure CountsRows (s : Store) (g : Graph) : Prop where
  /-- A tensor has a row for each vertex of its request if it has a column, and else none. -/
  tensor : ∀ d host t, ((s.tensor d).runOn host).1 = .ok t → s.ShapedBy d t.shape
  /-- The size that is told of a tensor is that of the tensor whose rows, if they are left open, are
  those of the group. -/
  size : ∀ d host sizes, ((s.tensorShape d).runOn host).1 = .ok sizes →
    s.ShapedBy { d with index := d.index.orElse (.value none) } sizes
  /-- A group has as many rows as vertices. -/
  group : ∀ group ids, s.offsets.idsOf group = .ok ids →
    (s.config.policy = .keep → g.vertices.size < 2 ^ 63) →
      ids.length = (g.vertexIdsOf group).length

lemma shapedBy_of_tensor (hsource : FetchesRows s.source)
    (h : ((s.tensor d).runOn host).1 = .ok t) : s.ShapedBy d t.shape := by
  obtain ⟨d', hinfer⟩ := infer_of_tensor h
  obtain ⟨ids, names, f, hgathers⟩ := gathers_of_tensor hsource hinfer h
  exact ⟨d', ids, names, hinfer, hgathers.requested, hgathers.named, hgathers.shape⟩

lemma tensor_of_tensorShape (h : ((s.tensorShape d).runOn host).1 = .ok sizes) :
    ∃ t, ((s.tensor { d with index := d.index.orElse (.value none) }).runOn host).1 = .ok t ∧
      t.shape = sizes := by
  rcases hrun : (s.tensorShape d).runOn host with ⟨outcome, left⟩
  rw [hrun] at h
  obtain rfl : outcome = .ok sizes := h
  rw [tensorShape] at hrun
  obtain ⟨t, between, ht, hlast⟩ := runOn_bind_eq_ok_iff.mp hrun
  exact ⟨t, by rw [ht], Except.ok.inj (Prod.mk.inj hlast).1⟩

lemma Reachable.countsRows (hsource : source.OverTables) (hs : Reachable source g s)
    (tensors : TensorCatalog) (subgraphs : SubgraphMemo Subgraph) :
    CountsRows { s with tensors, subgraphs } g where
  tensor _ _ _ := shapedBy_of_tensor (hs.fetchesRows hsource)
  size _ _ _ h := by
    obtain ⟨t, ht, rfl⟩ := tensor_of_tensorShape h
    exact shapedBy_of_tensor (hs.fetchesRows hsource) ht
  group _ _ hids hsize := hs.length_idsOf hsource hsize hids

/-! ### The default feature -/

/-- The tensors that a store gives under the name of the feature of a group, where the properties
are left open, are made of some properties. -/
def FeatureMadeOf (s : Store) (group : String) (names : List String) : Prop :=
  ∀ d host ids t, d.group = .value (some group) → d.name = .value (some s.config.featureName) →
    d.properties = .unset → s.requestedIds d = .ok ids →
      ((s.tensor d).runOn host).1 = .ok t → t.shape = requestedShape ids names

lemma requestedIds_congr {d' : TensorDescriptor} (hindex : d'.index = d.index)
    (hgroup : d'.group = d.group) : s.requestedIds d' = s.requestedIds d := by
  rw [requestedIds, requestedIds, hindex, hgroup]

lemma featureMadeOf_of_build (hsource : source.OverTables)
    (h : (build source served config).runOn host = (.ok s, host')) {group : String}
    (hgroup : group ∈ host.graph.vertexTypes) :
    s.FeatureMadeOf group (host.graph.vertexPropertyNames.filter (· ≠ config.labelName)) := by
  intro d now ids t hd hname hproperties hids ht
  have hplain : source.vertexTypes = Graph.vertexTypes ∧
      source.vertexPropertyNames = Graph.vertexPropertyNames := by
    rcases hsource with rfl | ⟨parts, -, rfl⟩ <;> exact ⟨rfl, rfl⟩
  have hconfig : s.config = config := (build_eq_ok h).2.2.1
  have hregistered : s.tensors.registration? group config.featureName = some
      ⟨config.featureName, host.graph.vertexPropertyNames.filter (· ≠ config.labelName),
        config.propertyDType⟩ := by
    rw [(build_settings h).1, hplain.1, hplain.2]
    exact TensorCatalog.registration?_defaults hgroup
  rw [hconfig] at hname
  obtain ⟨d', hinfer, hnames, hgroup', hindex⟩ :=
    TensorCatalog.infer_of_registration hregistered hd hname hproperties
  obtain ⟨ids', names, f, hgathers⟩ :=
    gathers_of_tensor ((Reachable.built h).fetchesRows hsource) hinfer ht
  obtain rfl := Except.ok.inj
    (hids.symm.trans ((requestedIds_congr hindex hgroup').symm.trans hgathers.requested))
  obtain rfl := Option.some.inj (hnames.symm.trans hgathers.named)
  exact hgathers.shape

/-- A tensor has one row for each vertex of its request, unless no property is asked for: then it
has none. So has the feature tensor that is registered for every group when the store is built. -/
theorem build_counts_rows (hsource : source.OverTables)
    (h : (build source served config).runOn host = (.ok s, host')) :
    (∀ tensors subgraphs, CountsRows { s with tensors, subgraphs } host'.graph) ∧
      ∀ group ∈ host.graph.vertexTypes,
        s.FeatureMadeOf group (host.graph.vertexPropertyNames.filter (· ≠ config.labelName)) :=
  ⟨fun tensors subgraphs => (Reachable.built h).countsRows hsource tensors subgraphs,
    fun _ hgroup => featureMadeOf_of_build hsource h hgroup⟩

theorem build_counts_rows_library :
    Source.plain.OverTables ∧
      (build .plain .cpu {}).runOn { graph := library } = (.ok libraryStore, libraryRun.2) ∧
      CountsRows libraryStore libraryRun.2.graph ∧ libraryStore.FeatureMadeOf "paper" [] := by
  have hsource : Source.plain.OverTables := .inl rfl
  obtain ⟨hcounts, hfeature⟩ := build_counts_rows hsource runOn_build_library
  exact ⟨hsource, runOn_build_library, hcounts libraryStore.tensors libraryStore.subgraphs,
    hfeature "paper" (by decide +kernel)⟩

/-- The feature of all papers. -/
def papersRequest : TensorDescriptor where
  group := .value (some "paper")
  name := .value (some "x")
  index := .value none

/-- There are two papers, but the feature of the papers, which have no properties, has no rows. -/
theorem feature_loses_rows :
    Reachable .plain libraryRun.2.graph libraryStore ∧
      libraryStore.requestedIds papersRequest = .ok [2, 3] ∧
      ((libraryStore.tensor papersRequest).runOn libraryRun.2).1.toOption
        = some ⟨.float32 [], [0, 0], .cpu⟩ ∧
      ((libraryStore.tensorShape papersRequest).runOn libraryRun.2).1.toOption = some [0, 0] := by
  refine ⟨reachable_libraryStore, ?_, ?_, ?_⟩ <;> decide +kernel

end Store

end TypedGraph
