import TypedGraph.Proofs.EdgeEnds
import TypedGraph.Proofs.FeatureRows
import TypedGraph.Proofs.FetchedColumns

/-!
# Shortcuts of feature tensors

A store with one vertex type does not fetch by the group of a request, and the feature tensor is
projected from all columns. On the tables that are left by its construction, a store skips the group
to the same effect for its only type; for any other group it tells the vertices asked for, where a
fetch by the group finds none of them (`tensor_skips_group`). A projection of all columns tells what
a fetch of the named ones does, but fails as soon as any property of the graph makes no column
(`tensor_projects`).
-/

namespace TypedGraph

open Traversal TypedGraph.Action

/-! ### Requests under other names -/

namespace TensorDescriptor

variable {d : TensorDescriptor}

def withGroup (d : TensorDescriptor) (group : String) : TensorDescriptor :=
  { d with group := .value (some group) }

def withName (d : TensorDescriptor) (name : Option String) : TensorDescriptor :=
  { d with name := .value name }

lemma isComplete_withGroup (hd : d.isComplete) (group : String) :
    (d.withGroup group).isComplete := by
  obtain ⟨-, hrest⟩ := isComplete_iff.mp hd
  exact isComplete_iff.mpr ⟨rfl, hrest⟩

lemma isComplete_withName (hd : d.isComplete) (name : Option String) :
    (d.withName name).isComplete := by
  obtain ⟨hgroup, -, hrest⟩ := isComplete_iff.mp hd
  exact isComplete_iff.mpr ⟨hgroup, rfl, hrest⟩

end TensorDescriptor

/-! ### Rows of a group -/

namespace Graph

variable {g : Graph} {ids : List Int} {group : String} {columns : Option (List String)} {id : Int}

lemma mem_vertexRows_of_group :
    id ∈ (g.vertexRows { ids := some ids, types := some [group], columns }).map (·.1) ↔
      id ∈ ids ∧ id ∈ g.vertexIdsOf group := by
  rw [mem_vertexIdsOf]
  simp only [vertexRows, rowsWithIds, admits, List.mem_map, List.mem_filter, List.mem_filterMap,
    Ascending.mem_ofList, Option.map_eq_some_iff]
  constructor
  · rintro ⟨_, ⟨⟨id, hid, v, hv, rfl⟩, htype⟩, rfl⟩
    exact ⟨hid, v, hv, by simpa using htype⟩
  · rintro ⟨hid, v, hv, rfl⟩
    exact ⟨(id, v), ⟨⟨id, hid, v, hv, rfl⟩, by simp⟩, rfl⟩

/-- Vertices that are all of one group may be chosen by it or not. -/
lemma vertexRows_of_group
    (h : ∀ id ∈ ids, ∀ v, g.vertices.get? id = some v → v.type = group) :
    g.vertexRows { ids := some ids, types := some [group], columns }
      = g.vertexRows { ids := some ids, columns } := by
  refine List.filter_congr fun r hr => ?_
  obtain ⟨id, hid, hrow⟩ := List.mem_filterMap.mp hr
  obtain ⟨v, hv, rfl⟩ := Option.map_eq_some_iff.mp hrow
  simp [admits, h id (Ascending.mem_ofList.mp hid) v hv]

/-- A group that no vertex is of chooses no rows. -/
lemma vertexRows_of_unknown (h : group ∉ g.vertexTypes) :
    g.vertexRows { ids := some ids, types := some [group], columns } = [] := by
  refine List.eq_nil_iff_forall_not_mem.mpr fun r hr => h (mem_vertexTypes.mpr ⟨r.1, ?_⟩)
  exact (mem_vertexRows_of_group.mp (List.mem_map_of_mem hr)).2

end Graph

namespace Store

variable {source : Source} {s : Store} {g : Graph} {d d' : TensorDescriptor} {host host' : Host}
variable {types : Option (List String)} {ids stored : List Int} {names : List String}
variable {group : String} {f f' : Frame} {order : List Nat} {t : Tensor}

/-! ### Tensors over tables -/

/-- The tensor of a request whose vertices are fetched by some types. -/
def fetchTensorBy (s : Store) (types : Option (List String)) (d : TensorDescriptor) :
    Action Tensor := do
  let names ← match d.properties.flat with
    | some names => pure names
    | none => throw (.value (.noProperties d))
  let ids ← .ofExcept (s.requestedIds d)
  let f ← .ofFetch s.source.fetchVertices
    { ids := some ids, types, columns := s.requestedColumns d names }
  s.readFeatures d ids names f

/-- The tensor of a request that is gathered from what some tables give. -/
def tensorOver (s : Store) (g : Graph) (types : Option (List String)) (d : TensorDescriptor) :
    Except StoreError Tensor := do
  let names ← match d.properties.flat with
    | some names => pure names
    | none => throw (.value (.noProperties d))
  let ids ← s.requestedIds d
  let q : Query := { ids := some ids, types, columns := s.requestedColumns d names }
  let f ← (g.fetchVertices q).mapError .graph
  s.gather d ((g.vertexRows q).map (·.1)) ids names f

lemma tensorOver_eq (hids : s.requestedIds d = .ok ids) (hnames : d.properties.flat = some names)
    (g : Graph) (types : Option (List String)) :
    let q : Query := { ids := some ids, types, columns := s.requestedColumns d names }
    s.tensorOver g types d = ((g.fetchVertices q).mapError StoreError.graph >>=
      s.gather d ((g.vertexRows { ids := some ids, types }).map (·.1)) ids names) := by
  rw [tensorOver, hnames, hids]
  rfl

/-- A request that comes to no vertices or names no properties fails, whatever the tables. -/
lemma requested_or_fails (s : Store) (d : TensorDescriptor) :
    (∃ ids names, s.requestedIds d = .ok ids ∧ d.properties.flat = some names) ∨
      ∃ e, ∀ g types, s.tensorOver g types d = .error e := by
  cases hnames : d.properties.flat with
  | none => exact .inr ⟨_, fun g types => by rw [tensorOver, hnames]; rfl⟩
  | some names =>
    cases hids : s.requestedIds d with
    | error e => exact .inr ⟨e, fun g types => by rw [tensorOver, hnames, hids]; rfl⟩
    | ok ids => exact .inl ⟨ids, names, rfl, rfl⟩

lemma requested_of_ok (h : s.tensorOver g types d = .ok t) :
    ∃ ids names, s.requestedIds d = .ok ids ∧ d.properties.flat = some names := by
  rcases s.requested_or_fails d with hrequested | ⟨e, he⟩
  · exact hrequested
  · simp [he] at h

/-- What is gathered does not depend on the order of the rows. -/
lemma gather_pick (hf : f.HasVertices stored) (horder : order.Perm (List.range stored.length)) :
    s.gather d (pick stored order) ids names (f.pick order) = s.gather d stored ids names f := by
  have hshuffled : Shuffled Graph.vertexColumn stored order f (f.pick order) :=
    ⟨hf.column, hf.nodup, hf.even, horder, rfl⟩
  refine (OutcomesAgree.eq ?_).symm
  refine .bind (.mapM (rowOf_agree hf.nodup horder d.group.flat) ids) ?_
  intro rows rows' hrows
  refine .bind (select_agree hshuffled names) ?_
  rintro fs _ ⟨heven, rfl⟩
  refine .bind (take_agree hshuffled heven hrows) ?_
  rintro taken _ rfl
  exact .of_eq (fun _ => rfl) _

/-- A source that fetches rows gives the tensors over its tables. -/
lemma outcome_fetchTensorBy (hsource : FetchesRows s.source) (types : Option (List String))
    (d : TensorDescriptor) (host : Host) :
    ((s.fetchTensorBy types d).runOn host).1 = s.tensorOver host.graph types d := by
  obtain ⟨handOut, left, hout⟩ := hsource.exists_handsOut
  rw [fetchTensorBy, tensorOver]
  cases d.properties.flat with
  | none => rfl
  | some names =>
    cases s.requestedIds d with
    | error e => rfl
    | ok ids =>
      let q : Query := { ids := some ids, types, columns := s.requestedColumns d names }
      have hrun := hout.run q host
      show ((ofFetch s.source.fetchVertices q >>= s.readFeatures d ids names).runOn host).1
        = ((host.graph.fetchVertices q).mapError StoreError.graph >>= _)
      cases hf : host.graph.fetchVertices q with
      | error e =>
        rw [hf, hout.error] at hrun
        rw [runOn_bind_error hrun]
        rfl
      | ok f =>
        have hstored := hasVertices_of_fetchVertices hf
        -- the source hands the rows out in some order, which gathering by id does not see
        obtain ⟨order, horder, hrows⟩ := hout.rows ((host.graph.vertexRows q).map (·.1))
        rw [hf, hrows f hstored] at hrun
        rw [runOn_bind_ok hrun, runOn_readFeatures hsource.columns_eq (hstored.pick horder),
          gather_pick hstored horder]
        rfl

lemma outcome_tensor (hsource : FetchesRows s.source) (hd : d.isComplete) (host : Host) :
    ((s.tensor d).runOn host).1 = s.tensorOver host.graph (s.requestedTypes d) d := by
  rw [← outcome_fetchTensorBy hsource, runOn_tensor_of_complete hd]
  rfl

/-! ### Stores with one vertex type -/

lemma Reachable.fetchesRows (hs : Reachable source g s) (hsource : source.OverTables) :
    FetchesRows s.source := by
  rw [hs.source_eq]
  rcases hsource with rfl | ⟨parts, -, rfl⟩
  · exact .inl rfl
  · exact .inr ⟨parts, rfl⟩

/-- As long as a store with one vertex type sees no other, every vertex is of the type. -/
lemma type_of_only (hsource : source.OverTables) (hs : Reachable source g s)
    (honly : s.offsets.names = [group]) {now : Graph} (hnow : now.vertexTypes = g.vertexTypes)
    {id : Int} {v : Vertex} (hv : now.vertices.get? id = some v) : v.type = group := by
  have hperm : s.offsets.names.Perm g.vertexTypes := (hs.onPlain hsource).names_perm
  have hmem : v.type ∈ now.vertexTypes :=
    Graph.mem_vertexTypes.mpr ⟨id, Graph.mem_vertexIdsOf.mpr ⟨v, hv, rfl⟩⟩
  rw [hnow, ← hperm.mem_iff, honly] at hmem
  exact List.mem_singleton.mp hmem

lemma succeedTogether_eq_iff {ε α : Type} {r r' : Except ε α} :
    SucceedTogether Eq r r' ↔ ∀ a, r = .ok a ↔ r' = .ok a := by
  cases r <;> cases r' <;> simp [SucceedTogether]

lemma rowOf_of_group {group other : Option String} {id : Int} {r : Nat}
    (h : rowOf stored group id = .ok r) : rowOf stored other id = .ok r := by
  rw [rowOf] at h ⊢
  split at h
  · exact h
  · simp at h

/-- The group of a request is only told of in errors when its rows are gathered. -/
lemma gather_of_group (hdtype : d'.dtype = d.dtype) (h : s.gather d stored ids names f = .ok t) :
    s.gather d' stored ids names f = .ok t := by
  obtain ⟨rows, hrows, hrest⟩ := bind_eq_ok_iff.mp h
  have hrows' : ids.mapM (rowOf stored d'.group.flat) = .ok rows :=
    mapM_eq_ok_iff.mpr ((mapM_eq_ok_iff.mp hrows).imp fun _ _ hrow => rowOf_of_group hrow)
  rw [gather, hrows', hdtype]
  exact hrest

lemma requestedTypes_of_several (hgroup : d.group = .value (some group))
    (h : s.offsets.length ≠ 1) : s.requestedTypes d = some [group] := by
  rw [requestedTypes, if_neg h, hgroup]
  rfl

/-- Vertices that are of the group may be fetched by it. -/
lemma tensorOver_of_group (hgroup : d.group = .value (some group))
    (hids : ∀ ids, s.requestedIds d = .ok ids → ∀ id ∈ ids, ∀ v,
      g.vertices.get? id = some v → v.type = group) :
    s.tensorOver g (s.requestedTypes d) d = s.tensorOver g (some [group]) d := by
  by_cases hone : s.offsets.length = 1
  · have htypes : s.requestedTypes d = none := if_pos hone
    rcases s.requested_or_fails d with ⟨ids, names, hrequested, hnames⟩ | ⟨e, he⟩
    · have hall := hids ids hrequested
      rw [htypes, tensorOver_eq hrequested hnames, tensorOver_eq hrequested hnames,
        fetchVertices_congr_rows (Graph.vertexRows_of_group hall) rfl,
        Graph.vertexRows_of_group hall]
    · rw [he, he]
  · rw [requestedTypes_of_several hgroup hone]

lemma outcome_of_group (hsource : FetchesRows s.source) (hd : d.isComplete)
    (hgroup : d.group = .value (some group))
    (hids : ∀ ids, s.requestedIds d = .ok ids → ∀ id ∈ ids, ∀ v,
      host.graph.vertices.get? id = some v → v.type = group) :
    ((s.tensor d).runOn host).1 = ((s.fetchTensorBy (some [group]) d).runOn host).1 := by
  rw [outcome_tensor hsource hd, outcome_fetchTensorBy hsource]
  exact tensorOver_of_group hgroup hids

/-- A tensor by a group is of vertices of the group. -/
lemma mem_group_of_tensorOver (hids : s.requestedIds d = .ok ids)
    (h : s.tensorOver g (some [group]) d = .ok t) : ∀ id ∈ ids, id ∈ g.vertexIdsOf group := by
  intro id hid
  by_contra hnot
  obtain ⟨-, names, -, hnames⟩ := requested_of_ok h
  rw [tensorOver_eq hids hnames] at h
  obtain ⟨f, -, hgather⟩ := bind_eq_ok_iff.mp h
  have hmissing : id ∉ (g.vertexRows { ids := some ids, types := some [group] }).map (·.1) :=
    fun hmem => hnot (Graph.mem_vertexRows_of_group.mp hmem).2
  obtain ⟨e, he⟩ := gather_of_missing hid hmissing
  rw [he] at hgather
  simp at hgather

/-- By a group that no vertex is of, no vertex has a row. -/
lemma tensorOver_of_unknown (hids : s.requestedIds d = .ok ids)
    (hnames : d.properties.flat = some names)
    (hf : g.fetchVertices { ids := some [], columns := s.requestedColumns d names } = .ok f)
    (hunknown : group ∉ g.vertexTypes) (hne : ids ≠ []) :
    ∃ e, s.tensorOver g (some [group]) d = .error (.lookup e) := by
  -- the one row that is missing fails the request, so a vertex that is asked for is needed
  obtain ⟨id, hid⟩ := List.exists_mem_of_ne_nil ids hne
  have hnone {columns : Option (List String)} :
      g.vertexRows { ids := some ids, types := some [group], columns } = [] :=
    Graph.vertexRows_of_unknown hunknown
  let q : Query :=
    { ids := some ids
      types := some [group]
      columns := s.requestedColumns d names }
  have hrows : g.vertexRows q = g.vertexRows { ids := some [], columns := q.columns } := hnone
  rw [tensorOver_eq hids hnames, fetchVertices_congr_rows hrows rfl, hf, hnone]
  exact gather_of_missing hid (List.not_mem_nil)

/-- Where the vertices are listed, whether and which tensor there is does not depend on the group
that is named. -/
lemma tensorOver_regardless (hindex : d.index.flat.isSome) (other : String) :
    SucceedTogether Eq (s.tensorOver g types d)
      (s.tensorOver g types (d.withGroup other)) := by
  obtain ⟨ids, hids⟩ := Option.isSome_iff_exists.mp hindex
  have hrequested (d : TensorDescriptor) (hd : d.index.flat = some ids) :
      s.requestedIds d = .ok ids := by
    rw [requestedIds, hd]
  cases hnames : d.properties.flat with
  | none =>
    rw [tensorOver, tensorOver, show (d.withGroup other).properties.flat = none from hnames, hnames]
    trivial
  | some names =>
    rw [tensorOver_eq (hrequested d hids) hnames,
      tensorOver_eq (d := d.withGroup other) (hrequested _ hids) hnames,
      show s.requestedColumns (d.withGroup other) names = s.requestedColumns d names from rfl]
    cases g.fetchVertices { ids := some ids, types, columns := s.requestedColumns d names } with
    | error e => trivial
    -- the group is named in an error only
    | ok f => exact succeedTogether_eq_iff.mpr fun t => ⟨gather_of_group rfl, gather_of_group rfl⟩

/-- What comes of skipping the group of a request, on a store over tables that may have changed
since its construction left `g`. -/
structure SkipsGroup (s : Store) (g : Graph) (d : TensorDescriptor) (group : String) : Prop where
  /-- A store with several vertex types, or none, fetches by the group. -/
  several : s.offsets.length ≠ 1 → ∀ host,
    (s.tensor d).runOn host = (s.fetchTensorBy (some [group]) d).runOn host
  /-- Where no vertex asked for is of another type, the store gives what a fetch by the group gives,
  be it a tensor or an error. -/
  same : ∀ host, (∀ ids, s.requestedIds d = .ok ids → ∀ id ∈ ids, ∀ v,
      host.graph.vertices.get? id = some v → v.type = group) →
    ((s.tensor d).runOn host).1 = ((s.fetchTensorBy (some [group]) d).runOn host).1
  /-- So it does for its only type if it has one, as long as there is no other type. -/
  only : s.offsets.names = [group] → ∀ host, host.graph.vertexTypes = g.vertexTypes →
    ((s.tensor d).runOn host).1 = ((s.fetchTensorBy (some [group]) d).runOn host).1
  /-- There is a tensor by the group exactly if the store gives it and all vertices asked for are of
  the group. -/
  tensor_iff : ∀ host ids t, s.requestedIds d = .ok ids →
    (((s.fetchTensorBy (some [group]) d).runOn host).1 = .ok t ↔
      ((s.tensor d).runOn host).1 = .ok t ∧ ∀ id ∈ ids, id ∈ host.graph.vertexIdsOf group)
  /-- By a group that no vertex is of, no vertex has a row. -/
  unknown : ∀ host ids names f, s.requestedIds d = .ok ids → d.properties.flat = some names →
    host.graph.fetchVertices { ids := some [], columns := s.requestedColumns d names } = .ok f →
    group ∉ host.graph.vertexTypes → ids ≠ [] →
    ∃ e, ((s.fetchTensorBy (some [group]) d).runOn host).1 = .error (.lookup e)
  /-- A store with one vertex type tells the vertices of a list whatever the group. -/
  regardless : s.offsets.length = 1 → d.index.flat.isSome → ∀ other host,
    SucceedTogether Eq ((s.tensor d).runOn host).1
      ((s.tensor (d.withGroup other)).runOn host).1

/-- A store skips the group of a request to the same effect exactly where the vertices asked for are
of the group. -/
theorem tensor_skips_group (hsource : source.OverTables) (hs : Reachable source g s)
    (hd : d.isComplete) (hgroup : d.group = .value (some group)) : s.SkipsGroup g d group where
  several hseveral host := by
    rw [runOn_tensor_of_complete hd, ← requestedTypes_of_several hgroup hseveral]
    rfl
  same host hids := outcome_of_group (hs.fetchesRows hsource) hd hgroup hids
  only honly host hnow := outcome_of_group (hs.fetchesRows hsource) hd hgroup
    fun _ _ _ _ _ hv => type_of_only hsource hs honly hnow hv
  tensor_iff host ids t hids := by
    have hfetches := hs.fetchesRows hsource
    have hsame (hall : ∀ id ∈ ids, id ∈ host.graph.vertexIdsOf group) :
        -- the two requests differ in the type filter, which passes all vertices asked for
        ((s.tensor d).runOn host).1 = ((s.fetchTensorBy (some [group]) d).runOn host).1 := by
      refine outcome_of_group hfetches hd hgroup fun ids' hids' id hid v hv => ?_
      obtain rfl := Except.ok.inj (hids.symm.trans hids')
      obtain ⟨w, hw, rfl⟩ := Graph.mem_vertexIdsOf.mp (hall id hid)
      exact congrArg Vertex.type (Option.some.inj (hv.symm.trans hw))
    constructor
    · intro h
      -- a tensor by the group has a row for every vertex asked for, so all of them are of the group
      have hall := mem_group_of_tensorOver hids
        ((outcome_fetchTensorBy hfetches _ d host).symm.trans h)
      exact ⟨(hsame hall).trans h, hall⟩
    · rintro ⟨h, hall⟩
      exact (hsame hall).symm.trans h
  unknown host ids names f hids hnames hf hunknown hne := by
    rw [outcome_fetchTensorBy (hs.fetchesRows hsource)]
    exact tensorOver_of_unknown hids hnames hf hunknown hne
  regardless hone hindex other host := by
    have hfetches := hs.fetchesRows hsource
    have hd' := TensorDescriptor.isComplete_withGroup hd other
    have htypes (d : TensorDescriptor) : s.requestedTypes d = none := if_pos hone
    rw [outcome_tensor hfetches hd, outcome_tensor hfetches hd', htypes, htypes]
    exact tensorOver_regardless hindex _

/-- A request for the words of the first page, under a group and a name. -/
def wordsRequest (group name : String) : TensorDescriptor where
  group := .value (some group)
  name := .value (some name)
  index := .value (some [0])
  properties := .value (some ["words"])
  dtype := .value (some .float32)

/-- Under the only type, the words of the first page are those of the fetch by the type. -/
theorem tensor_skips_group_site :
    Source.plain.OverTables ∧ Reachable .plain siteRun.2.graph siteStore ∧
      (wordsRequest "page" "f").isComplete ∧
      (wordsRequest "page" "f").group = .value (some "page") ∧
      siteStore.SkipsGroup siteRun.2.graph (wordsRequest "page" "f") "page" ∧
      ((siteStore.tensor (wordsRequest "page" "f")).runOn siteRun.2).1
        = ((siteStore.fetchTensorBy (some ["page"]) (wordsRequest "page" "f")).runOn
            siteRun.2).1 := by
  have hd : (wordsRequest "page" "f").isComplete := by decide
  have hskips := tensor_skips_group (.inl rfl) reachable_siteStore hd rfl
  have honly : siteStore.offsets.names = ["page"] := by decide +kernel
  exact ⟨.inl rfl, reachable_siteStore, hd, rfl, hskips, hskips.only honly _ rfl⟩

/-- Under the name of no group the store tells the words of the first page, of which a fetch by the
group finds no row. -/
theorem tensor_of_unknown_group :
    Reachable .plain siteRun.2.graph siteStore ∧ siteStore.offsets.names = ["page"] ∧
      (wordsRequest "nope" "f").isComplete ∧
      ((siteStore.tensor (wordsRequest "nope" "f")).runOn siteRun.2).1.toOption
        = some ⟨.float32 [.ofInt 3], [1, 1], .cpu⟩ ∧
      ((siteStore.fetchTensorBy (some ["nope"]) (wordsRequest "nope" "f")).runOn siteRun.2).1
        = .error (.lookup (.missingRow 0 (some "nope"))) := by
  refine ⟨reachable_siteStore, ?_, ?_, ?_, ?_⟩ <;> decide +kernel

/-! ### Projected columns -/

/-- A tensor can be gathered from all columns exactly if it can be gathered from the named ones and
every property makes a column. -/
lemma exists_gather_all_iff {q : Query} :
    (∃ f, g.fetchVertices { q with columns := none } = .ok f ∧
        s.gather d stored ids names f = .ok t) ↔
      (∃ f, g.fetchVertices { q with columns := some names } = .ok f ∧
        s.gather d stored ids names f = .ok t) ∧ g.MakesColumns q := by
  have hall := Graph.exists_fetchVertices_all_iff (g := g) (q := { q with columns := none }) rfl
  constructor
  · rintro ⟨f, hf, hgather⟩
    -- the named columns were selected from all of them, so they can be fetched alone
    obtain ⟨_, -, hrest⟩ := bind_eq_ok_iff.mp hgather
    obtain ⟨fs, hselect, -⟩ := bind_eq_ok_iff.mp hrest
    obtain ⟨f', hf'⟩ := Graph.exists_fetchVertices_of_select hf (mapError_eq_ok_iff.mp hselect)
    rw [gather, Graph.select_of_fetchVertices hf hf'] at hgather
    exact ⟨⟨f', hf', hgather⟩, hall.mp ⟨f, hf⟩⟩
  · rintro ⟨⟨f', hf', hgather⟩, hmakes⟩
    obtain ⟨f, hf⟩ := hall.mpr hmakes
    rw [gather, ← Graph.select_of_fetchVertices hf hf'] at hgather
    exact ⟨f, hf, hgather⟩

lemma gather_withName (name : Option String) :
    s.gather (d.withName name) stored ids names f = s.gather d stored ids names f := rfl

lemma tensorOver_eq_ok_iff (hids : s.requestedIds d = .ok ids)
    (hnames : d.properties.flat = some names) : s.tensorOver g types d = .ok t ↔
      ∃ f, g.fetchVertices { ids := some ids, types, columns := s.requestedColumns d names }
          = .ok f ∧
        s.gather d ((g.vertexRows { ids := some ids, types }).map (·.1)) ids names f = .ok t := by
  rw [tensorOver_eq hids hnames, bind_eq_ok_iff]
  simp only [mapError_eq_ok_iff]

lemma tensorOver_feature_of_requested {name : Option String}
    (hname : name ≠ some s.config.featureName) (hids : s.requestedIds d = .ok ids)
    (hnames : d.properties.flat = some names) :
    s.tensorOver g types (d.withName (some s.config.featureName)) = .ok t ↔
      s.tensorOver g types (d.withName name) = .ok t ∧
        g.MakesColumns { ids := some ids, types } := by
  have hids' (name : Option String) : s.requestedIds (d.withName name) = .ok ids := hids
  have hnames' (name : Option String) : (d.withName name).properties.flat = some names := hnames
  have hall : s.requestedColumns (d.withName (some s.config.featureName)) names = none :=
    if_pos rfl
  have hnamed : s.requestedColumns (d.withName name) names = some names := if_neg hname
  rw [tensorOver_eq_ok_iff (hids' _) (hnames' _), tensorOver_eq_ok_iff (hids' _) (hnames' _), hall,
    hnamed]
  simp only [gather_withName]
  exact exists_gather_all_iff (q := { ids := some ids, types })

/-- Under the name of the feature there is a tensor exactly if there is under another name and every
property makes a column. -/
lemma tensorOver_feature_eq_ok_iff {name : Option String}
    (hname : name ≠ some s.config.featureName) :
    s.tensorOver g types (d.withName (some s.config.featureName)) = .ok t ↔
      s.tensorOver g types (d.withName name) = .ok t ∧
        ∀ ids, s.requestedIds d = .ok ids → g.MakesColumns { ids := some ids, types } := by
  constructor
  · intro h
    obtain ⟨ids, names, hids, hnames⟩ := requested_of_ok h
    obtain ⟨hother, hmakes⟩ := (tensorOver_feature_of_requested hname hids hnames).mp h
    refine ⟨hother, fun ids' hids' => ?_⟩
    obtain rfl := Except.ok.inj (hids.symm.trans hids')
    exact hmakes
  · rintro ⟨hother, hmakes⟩
    obtain ⟨ids, names, hids, hnames⟩ := requested_of_ok hother
    exact (tensorOver_feature_of_requested hname hids hnames).mpr ⟨hother, hmakes ids hids⟩

/-- What comes of a request under the name of the feature and under another name. -/
structure ProjectsColumns (s : Store) (d : TensorDescriptor) (name : Option String)
    (host host' : Host) : Prop where
  /-- Under the name of the feature there is a tensor exactly if there is the same under the other
  name and every property of the graph makes a column over the rows. -/
  tensor_iff : ∀ t,
    ((s.tensor (d.withName (some s.config.featureName))).runOn host).1 = .ok t ↔
      ((s.tensor (d.withName name)).runOn host').1 = .ok t ∧
        ∀ ids, s.requestedIds d = .ok ids →
          host.graph.MakesColumns { ids := some ids, types := s.requestedTypes d }
  /-- So both fail or give equal tensors unless a property that no one asked for makes no column. -/
  together_iff : SucceedTogether Eq
      ((s.tensor (d.withName (some s.config.featureName))).runOn host).1
      ((s.tensor (d.withName name)).runOn host').1 ↔
    ∀ t ids, ((s.tensor (d.withName name)).runOn host').1 = .ok t →
      s.requestedIds d = .ok ids →
        host.graph.MakesColumns { ids := some ids, types := s.requestedTypes d }

/-- The tensor that is projected from all columns is that of the named ones, if every column can be
made. -/
theorem tensor_projects (hsource : FetchesRows s.source) (hd : d.isComplete) {name : Option String}
    (hname : name ≠ some s.config.featureName) (hgraph : host'.graph = host.graph) :
    s.ProjectsColumns d name host host' := by
  have hcomplete := TensorDescriptor.isComplete_withName hd
  have htensor (t : Tensor) :
      ((s.tensor (d.withName (some s.config.featureName))).runOn host).1 = .ok t ↔
        ((s.tensor (d.withName name)).runOn host').1 = .ok t ∧
          ∀ ids, s.requestedIds d = .ok ids →
            host.graph.MakesColumns { ids := some ids, types := s.requestedTypes d } := by
    rw [outcome_tensor hsource (hcomplete _), outcome_tensor hsource (hcomplete _), hgraph]
    exact tensorOver_feature_eq_ok_iff hname
  refine ⟨htensor, ?_⟩
  rw [succeedTogether_eq_iff]
  constructor
  · intro h t ids ht hids
    exact ((htensor t).mp ((h t).mpr ht)).2 ids hids
  · intro h t
    exact (htensor t).trans ⟨And.left, fun ht => ⟨ht, fun ids hids => h t ids ht hids⟩⟩

/-- A request for the words of both pages, under a name. -/
def bothWordsRequest (name : Option String) : TensorDescriptor where
  group := .value (some "page")
  name := .value name
  index := .value (some [0, 1])
  properties := .value (some ["words"])
  dtype := .value (some .int64)

theorem tensor_projects_site :
    FetchesRows siteStore.source ∧ (bothWordsRequest none).isComplete ∧
      some "z" ≠ some siteStore.config.featureName ∧
      siteStore.ProjectsColumns (bothWordsRequest none) (some "z") siteRun.2 siteRun.2 := by
  have hsource : FetchesRows siteStore.source := .inl reachable_siteStore.source_eq
  have hd : (bothWordsRequest none).isComplete := by decide
  have hname : some "z" ≠ some siteStore.config.featureName := by decide +kernel
  exact ⟨hsource, hd, hname, tensor_projects hsource hd hname rfl⟩

/-- Under the name of the feature the words of the pages are refused for their tags, which are a
number and a string. -/
theorem tensor_refuses_other_columns :
    Reachable .plain siteRun.2.graph siteStore ∧ siteStore.config.featureName = "x" ∧
      (bothWordsRequest (some "x")).isComplete ∧ (bothWordsRequest (some "z")).isComplete ∧
      ((siteStore.tensor (bothWordsRequest (some "x"))).runOn siteRun.2).1
        = .error (.graph (.mixedColumn "tag" (.string "draft"))) ∧
      ((siteStore.tensor (bothWordsRequest (some "z"))).runOn siteRun.2).1.toOption
        = some ⟨.int64 [3, 5], [2, 1], .cpu⟩ := by
  refine ⟨reachable_siteStore, ?_, ?_, ?_, ?_, ?_⟩ <;> decide +kernel

end Store

end TypedGraph
