import TypedGraph.Proofs.CallSequences
import TypedGraph.Proofs.FailedBuilds
import TypedGraph.Proofs.Refinement

/-!
# The order of loads

Vertices and edges can be loaded type by type or in any other order, in batches of any size. What a
graph then holds is told by the records of each type (`HoldsRecords.loadAll`, `HasFreshId.loadAll`),
but the ids of edges by the order of all loads. Renumbering takes the rest of the order out: from
the same records of each type come the same tables, and stores that answer alike
(`renumber_of_sameRecords`).
-/

namespace TypedGraph

open Traversal TypedGraph.Action Json

/-! ### Records of a type -/

namespace Load

/-- The vertices of a type that are loaded, in their order. -/
def vertexRecords (type : String) : Load → List VertexRecord
  | .vertices t rs => if t = type then rs else []
  | .edges _ _ => []

/-- The edges of a type, or without one, that are loaded, in their order. -/
def edgeRecords (type : Option String) : Load → List EdgeRecord
  | .vertices _ _ => []
  | .edges t rs => if t = type then rs else []

lemma filter_added (type : Option String) (l : Load) : l.added.filter (·.type = type)
    = (l.edgeRecords type).map fun r => ⟨r.source, r.destination, type, r.properties⟩ := by
  cases l with
  | vertices t rs => rfl
  | edges t rs =>
    rw [added, edgeRecords, List.filter_map]
    split_ifs with htype
    · subst htype
      simp [Function.comp_def]
    · simp [Function.comp_def, htype]

end Load

/-- Loads of the same records of each type, in whatever batches and however the types take turns. -/
structure SameRecords (loads loads' : List Load) : Prop where
  vertices : ∀ type, loads.flatMap (·.vertexRecords type) = loads'.flatMap (·.vertexRecords type)
  edges : ∀ type, loads.flatMap (·.edgeRecords type) = loads'.flatMap (·.edgeRecords type)

namespace Graph

variable {g g' : Graph} {loads loads' : List Load} {records : String → List VertexRecord}
variable {type : String} {r r' : VertexRecord} {rs : List VertexRecord}

/-! ### Vertices that are told by records -/

/-- The properties that some records give a vertex; of two values of a property the later stands. -/
def mergedProperties (id : Int) (rs : List VertexRecord) : Properties :=
  (rs.filter (·.id = id)).foldl (fun ps r => ps.insertMany r.properties.entries) .empty

/-- The vertices are those of the records of their types, with the properties that these give. -/
def HoldsRecords (g : Graph) (records : String → List VertexRecord) : Prop :=
  ∀ id v, g.vertices.get? id = some v ↔
    (∃ r ∈ records v.type, r.id = id) ∧ v.properties = mergedProperties id (records v.type)

lemma mergedProperties_append_of_ne {id : Int} (h : r.id ≠ id) (rs : List VertexRecord) :
    mergedProperties id (rs ++ [r]) = mergedProperties id rs := by
  simp [mergedProperties, List.filter_append, h]

lemma mergedProperties_append_self (r : VertexRecord) (rs : List VertexRecord) :
    mergedProperties r.id (rs ++ [r])
      = (mergedProperties r.id rs).insertMany r.properties.entries := by
  simp [mergedProperties, List.filter_append, List.foldl_append]

lemma mergedProperties_of_fresh {id : Int} (h : ∀ r ∈ rs, r.id ≠ id) :
    mergedProperties id rs = .empty := by
  have hnone : rs.filter (·.id = id) = [] := List.filter_eq_nil_iff.mpr (by simpa using h)
  rw [mergedProperties, hnone, List.foldl_nil]

lemma empty_insertMany_entries (properties : Properties) :
    SortedMap.empty.insertMany properties.entries = properties :=
  SortedMap.ofList_of_ascending properties.ascending

/-- A vertex of the records is found, with the type of the record. -/
lemma HoldsRecords.get?_of_mem (h : g.HoldsRecords records) (hr : r ∈ records type) :
    g.vertices.get? r.id = some ⟨type, mergedProperties r.id (records type)⟩ :=
  (h r.id ⟨type, _⟩).mpr ⟨⟨r, hr, rfl⟩, rfl⟩

/-- The same records tell the same vertices. -/
lemma HoldsRecords.vertices_eq (h : g.HoldsRecords records) (h' : g'.HoldsRecords records) :
    g.vertices = g'.vertices :=
  SortedMap.ext_get? fun id => Option.ext fun v => (h id v).trans (h' id v).symm

lemma holdsRecords_empty : ({} : Graph).HoldsRecords fun _ => [] := by
  intro id v
  simp

/-! ### Loading records -/

lemma typeConflict?_eq_none_iff : g.typeConflict? type r = none ↔
    ∀ v, g.vertices.get? r.id = some v → v.type = type := by
  rw [typeConflict?]
  cases g.vertices.get? r.id <;> simp

lemma get?_putVertex (g : Graph) (type : String) (r : VertexRecord) (id : Int) :
    (g.putVertex type r).vertices.get? id = if id = r.id
      then some (match g.vertices.get? r.id with
        | some v => { v with properties := v.properties.insertMany r.properties.entries }
        | none => { type, properties := r.properties })
      else g.vertices.get? id :=
  SortedMap.get?_alter _ _ _ _

/-- Writing a record of a type leaves others of the type free to be written. -/
lemma typeConflict?_putVertex (h : g.typeConflict? type r = none)
    (h' : g.typeConflict? type r' = none) : (g.putVertex type r).typeConflict? type r' = none := by
  rw [typeConflict?_eq_none_iff] at h h' ⊢
  intro v hv
  rw [get?_putVertex] at hv
  split_ifs at hv
  · obtain rfl := Option.some.inj hv
    cases hold : g.vertices.get? r.id with
    | none => rfl
    | some w => exact h w hold
  · exact h' v hv

/-- A record that is written comes after the others of its type. -/
lemma HoldsRecords.putVertex {records' : String → List VertexRecord} (h : g.HoldsRecords records)
    (hfree : g.typeConflict? type r = none) (hself : records' type = records type ++ [r])
    (hother : ∀ t ≠ type, records' t = records t) : (g.putVertex type r).HoldsRecords records' := by
  rw [typeConflict?_eq_none_iff] at hfree
  have hget : (g.putVertex type r).vertices.get? r.id
      = some ⟨type, mergedProperties r.id (records' type)⟩ := by
    rw [get?_putVertex, if_pos rfl, hself, mergedProperties_append_self]
    cases hold : g.vertices.get? r.id with
    | some w =>
      obtain rfl := hfree w hold
      rw [← ((h r.id w).mp hold).2]
    | none =>
      have hfresh : ∀ r' ∈ records type, r'.id ≠ r.id := by
        intro r' hr' heq
        simp [← heq, h.get?_of_mem hr'] at hold
      rw [mergedProperties_of_fresh hfresh, empty_insertMany_entries]
  -- a vertex has one type, so only the records of this type have changed
  intro id v
  by_cases htype : v.type = type
  · obtain ⟨t, properties⟩ := v
    obtain rfl : t = type := htype
    by_cases hid : id = r.id
    · subst hid
      simp [hget, hself, eq_comm]
    · rw [get?_putVertex, if_neg hid, h id ⟨t, properties⟩, hself,
        mergedProperties_append_of_ne (Ne.symm hid)]
      simp [Ne.symm hid]
  · rw [hother v.type htype]
    by_cases hid : id = r.id
    · subst hid
      -- another type has no record of the id, or else the records would be in conflict
      refine iff_of_false (fun hv => htype ?_) ?_
      · rw [← Option.some.inj (hget.symm.trans hv)]
      · rintro ⟨⟨r', hr', hid⟩, -⟩
        have hold := h.get?_of_mem hr'
        rw [hid] at hold
        have hsame := hfree _ hold
        exact htype hsame
    · rw [get?_putVertex, if_neg hid, h id v]

lemma HoldsRecords.addVertices (h : g.HoldsRecords records) (hg : g.addVertices type rs = .ok g') :
    g'.HoldsRecords fun t => records t ++ (Load.vertices type rs).vertexRecords t := by
  rw [Graph.addVertices] at hg
  split at hg
  · cases hg
  · rename_i hfree
    obtain rfl := Except.ok.inj hg
    rw [List.findSome?_eq_none_iff] at hfree
    clear hg
    -- the induction is on the records, each of which may not be in conflict with what is there by
    -- then
    induction rs generalizing g records with
    | nil => simpa [Load.vertexRecords] using h
    | cons r rs ih =>
      obtain ⟨hr, hrs⟩ := List.forall_mem_cons.mp hfree
      have hfirst : (g.putVertex type r).HoldsRecords fun t =>
          records t ++ (Load.vertices type [r]).vertexRecords t := by
        refine h.putVertex hr ?_ fun t ht => ?_
        · simp [Load.vertexRecords]
        · simp [Load.vertexRecords, Ne.symm ht]
      have hrest := ih hfirst fun r' hr' => typeConflict?_putVertex hr (hrs r' hr')
      have happend (t : String) : (Load.vertices type [r]).vertexRecords t ++
          (Load.vertices type rs).vertexRecords t
            = (Load.vertices type (r :: rs)).vertexRecords t := by
        simp only [Load.vertexRecords]
        split_ifs <;> rfl
      simpa only [List.foldl_cons, List.append_assoc, happend] using hrest

lemma HoldsRecords.load (h : g.HoldsRecords records) {l : Load} (hl : g.load l = .ok g') :
    g'.HoldsRecords fun t => records t ++ l.vertexRecords t := by
  cases l with
  | vertices type rs => exact h.addVertices hl
  | edges type rs =>
    obtain ⟨-, rfl⟩ := addEdges_eq_ok hl
    intro id v
    rw [vertices_putEdges]
    simpa [Load.vertexRecords] using h id v

/-- Loads put their records of a type after those that are there, load by load. -/
theorem HoldsRecords.loadAll (h : g.HoldsRecords records) (hloads : g.loadAll loads = .ok g') :
    g'.HoldsRecords fun t => records t ++ loads.flatMap (·.vertexRecords t) := by
  induction loads generalizing g records with
  | nil =>
    obtain rfl : g = g' := by simpa [Graph.loadAll] using hloads
    simpa using h
  | cons l loads ih =>
    rw [Graph.loadAll, List.foldlM_cons] at hloads
    obtain ⟨between, hl, hrest⟩ := bind_eq_ok_iff.mp hloads
    have hall := ih (h.load hl) hrest
    simpa only [List.flatMap_cons, List.append_assoc] using hall

lemma Reachable.loadAll (hg : g.Reachable) (hloads : g.loadAll loads = .ok g') :
    g'.Reachable := by
  induction loads generalizing g with
  | nil =>
    obtain rfl : g = g' := by simpa [Graph.loadAll] using hloads
    exact hg
  | cons l loads ih =>
    rw [Graph.loadAll, List.foldlM_cons] at hloads
    obtain ⟨between, hl, hrest⟩ := bind_eq_ok_iff.mp hloads
    obtain ⟨order, hloaded⟩ := hg
    cases l with
    | vertices type rs => exact ih ⟨_, hloaded.addVertices hl⟩ hrest
    | edges type rs => exact ih ⟨_, hloaded.addEdges hl⟩ hrest

/-! ### Graphs that are the same type by type -/

/-- The vertices are the same, and so are the edges of each type in their order. -/
structure SameByType (g g' : Graph) : Prop where
  vertices : g.vertices = g'.vertices
  edges : ∀ type, g.edges.values.filter (·.type = type) = g'.edges.values.filter (·.type = type)

/-- Graphs into which the same records of each type were loaded are the same type by type. -/
lemma sameByType_of_loadAll (hsame : SameRecords loads loads')
    (h : ({} : Graph).loadAll loads = .ok g) (h' : ({} : Graph).loadAll loads' = .ok g') :
    SameByType g g' where
  vertices := by
    have hrecords := holdsRecords_empty.loadAll h
    have hrecords' := holdsRecords_empty.loadAll h'
    simp only [hsame.vertices] at hrecords
    exact hrecords.vertices_eq hrecords'
  edges type := by
    -- loading gives new edges the ids that come next, so they stay in the order of loading
    have hvalues {loads : List Load} {now : Graph} (h : ({} : Graph).loadAll loads = .ok now) :
        now.edges.values.filter (·.type = type) = (loads.flatMap (·.edgeRecords type)).map
          fun r => ⟨r.source, r.destination, type, r.properties⟩ := by
      have hfresh : HasFreshId {} := isLoaded_empty.fresh
      rw [(hfresh.loadAll h).values]
      show (loads.flatMap (·.added)).filter (·.type = type) = _
      simp only [List.filter_flatMap, List.map_flatMap, Load.filter_added]
    rw [hvalues h, hvalues h', hsame.edges]

namespace SameByType

variable (h : SameByType g g')

include h

lemma verticesByType_eq : g.verticesByType = g'.verticesByType := by
  rw [verticesByType, verticesByType, typesByAppearance, typesByAppearance, h.vertices]

lemma exists_edge_iff (type : Option String) :
    (∃ e ∈ g.edges.values, e.type = type) ↔ ∃ e ∈ g'.edges.values, e.type = type := by
  have hfilter (g : Graph) : (∃ e ∈ g.edges.values, e.type = type) ↔
      g.edges.values.filter (·.type = type) ≠ [] := by
    simp [List.filter_eq_nil_iff]
  rw [hfilter, hfilter, h.edges]

lemma edgeTypes_eq : g.edgeTypes = g'.edgeTypes := by
  have hnamed : g.namedEdgeTypes = g'.namedEdgeTypes :=
    namedEdgeTypes_congr fun type => by
      rw [mem_namedEdgeTypes_iff_values, mem_namedEdgeTypes_iff_values]
      exact h.exists_edge_iff (some type)
  have hnone : g.edges.values.any (·.type.isNone) = g'.edges.values.any (·.type.isNone) := by
    rw [Bool.eq_iff_iff]
    simpa using h.exists_edge_iff none
  rw [edgeTypes, edgeTypes, hnamed, hnone]

/-- New vertex ids leave graphs the same type by type. -/
lemma withNewVertexIds (previous : Option String) :
    SameByType (g.withNewVertexIds previous) (g'.withNewVertexIds previous) where
  vertices := by
    show g.vertexTable previous = g'.vertexTable previous
    rw [vertexTable, vertexTable, h.verticesByType_eq]
  edges type := by
    have hids : g.newVertexId = g'.newVertexId := by
      rw [newVertexId, newVertexId, h.verticesByType_eq]
    have hvalues (g : Graph) : (g.withNewVertexIds previous).edges.values.filter (·.type = type)
        = (g.edges.values.filter (·.type = type)).map (·.move g.newVertexId) := by
      have hmoved : (g.withNewVertexIds previous).edges.values
          = g.edges.values.map (·.move g.newVertexId) := by
        simp [Graph.withNewVertexIds, SortedMap.values, Function.comp_def]
      rw [hmoved, List.filter_map]
      rfl
    rw [hvalues, hvalues, h.edges, hids]

/-- New edge ids make graphs that are the same type by type the same. -/
lemma renumberEdges_eq : g.renumberEdges none = g'.renumberEdges none := by
  have hrows (g : Graph) : g.edgesByType.map (·.2)
      = g.edgeTypes.flatMap fun type => g.edges.values.filter (·.type = type) := by
    rw [edgesByType, List.map_flatMap]
    simp only [SortedMap.values, List.filter_map]
    rfl
  have hnew (g : Graph) : g.renumberEdges none
      = (TypeRange.ofNames 0 ((g.edgesByType.map (·.2)).map (·.type.getD "")),
          ⟨g.vertices, enumerate (g.edgesByType.map (·.2)), (g.edgesByType.map (·.2)).length⟩) := by
    rw [List.map_map, List.length_map]
    rfl
  simp only [hnew, hrows, h.edgeTypes_eq, h.edges, h.vertices]

end SameByType

end Graph

/-! ### Stores over them -/

namespace Store

variable {source : Source} {served : Device} {config : Config} {host host' : Host}
variable {g g' : Graph} {loads loads' : List Load}

/-- What the store over a host answers to some requests, if it can be built. -/
def answersTo (source : Source) (served : Device) (config : Config) (host : Host)
    (rs : List Request) : Except StoreError (List Answer) :=
  let built := (build source served config).runOn host
  built.1.map fun s => s.serveAll built.2 rs

/-- What follows a first step is decided by what the step gives and leaves. -/
lemma runOn_bind_congr {α β : Type} {x : Action α} {f : α → Action β}
    (h : x.runOn host = x.runOn host') : (x >>= f).runOn host = (x >>= f).runOn host' := by
  rw [runOn_bind, runOn_bind, h]

/-- Renumbering over any source gives the graph new vertex ids, and then new edge ids. -/
lemma runOn_renumber (hsource : FetchesRows source) (hg : host.graph.Closed)
    (old : Option String × Option String) : (renumber source old).runOn host
      = (Offsets.ofRanges (TypeRange.ofNames 0 (host.graph.verticesByType.map (·.2.type))),
          { host with graph := host.graph.renumbered old }) := by
  have hvertices : source.renumberVertices host.graph old.1 = .ok
      (TypeRange.ofNames 0 (host.graph.verticesByType.map (·.2.type)),
        host.graph.withNewVertexIds old.1) := by
    rcases hsource with rfl | ⟨parts, rfl⟩ <;> exact Graph.renumberVertices_of_closed hg old.1
  have hedges (g : Graph) : source.renumberEdges g old.2 = .ok (g.renumberEdges old.2) := by
    rcases hsource with rfl | ⟨parts, rfl⟩ <;> rfl
  rw [renumber, runOn_bind_ok (runOn_change_eq_ok_iff.mpr ⟨_, hvertices, rfl⟩),
    runOn_bind_ok (runOn_change_eq_ok_iff.mpr ⟨_, hedges _, rfl⟩)]
  rfl

/-- Renumbering makes one host of two whose graphs are the same type by type. -/
lemma runOn_renumber_of_sameByType (hsource : FetchesRows source) (hg : g.Closed) (hg' : g'.Closed)
    (h : g.SameByType g') (forced : Nat) :
    (renumber source (none, none)).runOn ⟨g, forced⟩
      = (renumber source (none, none)).runOn ⟨g', forced⟩ := by
  have hrenumbered : g.renumbered (none, none) = g'.renumbered (none, none) :=
    congrArg Prod.snd (h.withNewVertexIds none).renumberEdges_eq
  rw [runOn_renumber hsource hg, runOn_renumber hsource hg', h.verticesByType_eq, hrenumbered]

/-- A store that is to renumber its graph is refused for the same reason over graphs that are the
same type by type, or else its construction comes to the same end. -/
lemma runOn_build_of_sameByType (served : Device) (hsource : FetchesRows source) (hg : g.Closed)
    (hg' : g'.Closed) (h : g.SameByType g') (hpolicy : config.policy = .renumber) (forced : Nat) :
    (build source served config).runOn ⟨g, forced⟩
        = (build source served config).runOn ⟨g', forced⟩ ∨
      ∃ e, (build source served config).runOn ⟨g, forced⟩ = (.error e, ⟨g, forced⟩) ∧
        (build source served config).runOn ⟨g', forced⟩ = (.error e, ⟨g', forced⟩) := by
  -- all that a construction looks at before it renumbers is the same type by type
  have hcheck : precheck source served config g' = precheck source served config g := by
    have htypes (g : Graph) : source.edgeTypes g = g.edgeTypes := by
      rcases hsource with rfl | ⟨parts, rfl⟩ <;> rfl
    rw [precheck, precheck, htypes, htypes, h.edgeTypes_eq]
  have hoffsets : (makeOffsets source config.policy).runOn ⟨g, forced⟩
      = (makeOffsets source config.policy).runOn ⟨g', forced⟩ := by
    rw [hpolicy]
    exact runOn_renumber_of_sameByType hsource hg hg' h forced
  have htypes : source.vertexTypes g' = source.vertexTypes g := by
    rcases hsource with rfl | ⟨parts, rfl⟩ <;>
      exact congrArg (fun vertices => Graph.vertexTypes { vertices }) h.vertices.symm
  have hnames : source.vertexPropertyNames g' = source.vertexPropertyNames g := by
    rcases hsource with rfl | ⟨parts, rfl⟩ <;>
      exact congrArg (fun vertices => Graph.vertexPropertyNames { vertices }) h.vertices.symm
  rw [build, runOn_bind_ok (runOn_get _), runOn_bind_ok (runOn_get _)]
  dsimp only
  rw [hcheck, htypes, hnames]
  cases precheck source served config g with
  | error c => exact .inr ⟨.construction c, rfl, rfl⟩
  | ok _ =>
    -- after renumbering the two graphs are one, so whatever comes next is the same
    left
    have haccepted (host : Host) :
        (Action.ofExcept ((.ok () : Except ConstructionError Unit).mapError
          StoreError.construction)).runOn host = (.ok (), host) := rfl
    rw [runOn_bind_ok (haccepted _), runOn_bind_ok (haccepted _)]
    exact runOn_bind_congr hoffsets

/-- From the same records of each type, in whatever batches they were loaded and however the types
took turns, renumbering vertices and then edges makes one and the same graph, with the same blocks
of ids. Stores that are to renumber their graph so are built alike or refused alike, and every
sequence of requests gets the same answers. -/
theorem renumber_of_sameRecords (hsame : SameRecords loads loads')
    (h : ({} : Graph).loadAll loads = .ok g) (h' : ({} : Graph).loadAll loads' = .ok g') :
    (∃ ranges moved moved', g.renumberVertices none = .ok (ranges, moved) ∧
        g'.renumberVertices none = .ok (ranges, moved') ∧
        moved.renumberEdges none = moved'.renumberEdges none) ∧
      ∀ source served config forced, FetchesRows source → config.policy = .renumber → ∀ rs,
        answersTo source served config ⟨g, forced⟩ rs
          = answersTo source served config ⟨g', forced⟩ rs := by
  have hbyType := Graph.sameByType_of_loadAll hsame h h'
  have hclosed := (Graph.Reachable.loadAll ⟨_, .empty⟩ h).isSound.closed
  have hclosed' := (Graph.Reachable.loadAll ⟨_, .empty⟩ h').isSound.closed
  refine ⟨⟨_, g.withNewVertexIds none, g'.withNewVertexIds none,
    Graph.renumberVertices_of_closed hclosed none, ?_,
    (hbyType.withNewVertexIds none).renumberEdges_eq⟩, ?_⟩
  · rw [Graph.renumberVertices_of_closed hclosed', hbyType.verticesByType_eq]
    rfl
  · intro source served config forced hsource hpolicy rs
    rcases runOn_build_of_sameByType served hsource hclosed hclosed' hbyType hpolicy
      forced with heq | ⟨e, hrun, hrun'⟩
    · rw [answersTo, heq, ← answersTo]
    · rw [answersTo, answersTo, hrun, hrun']
      rfl

/-- The library type by type. -/
def libraryLoads : List Load :=
  [.vertices "author" [{ id := 0 }, { id := 2 }], .vertices "paper" [{ id := 1 }, { id := 3 }],
    .edges (some "writes") [{ source := 0, destination := 1 }, { source := 2, destination := 1 }],
    .edges (some "cites") [{ source := 1, destination := 3 }]]

/-- The library paper by paper. -/
def libraryByPaper : List Load :=
  [.vertices "paper" [{ id := 1 }, { id := 3 }],
    .edges (some "cites") [{ source := 1, destination := 3 }], .vertices "author" [{ id := 0 }],
    .edges (some "writes") [{ source := 0, destination := 1 }], .vertices "author" [{ id := 2 }],
    .edges (some "writes") [{ source := 2, destination := 1 }]]

lemma sameRecords_library : SameRecords libraryLoads libraryByPaper where
  vertices type := by
    by_cases hauthor : type = "author"
    · rw [hauthor]
      rfl
    by_cases hpaper : type = "paper"
    · rw [hpaper]
      rfl
    simp [libraryLoads, libraryByPaper, Load.vertexRecords, Ne.symm hauthor, Ne.symm hpaper]
  edges type := by
    by_cases hwrites : type = some "writes"
    · rw [hwrites]
      rfl
    by_cases hcites : type = some "cites"
    · rw [hcites]
      rfl
    simp [libraryLoads, libraryByPaper, Load.edgeRecords, Ne.symm hwrites, Ne.symm hcites]

/-- The two libraries differ in the ids of their edges, which renumbering settles. -/
theorem renumber_of_sameRecords_library : SameRecords libraryLoads libraryByPaper ∧ ∃ g g',
    ({} : Graph).loadAll libraryLoads = .ok g ∧ ({} : Graph).loadAll libraryByPaper = .ok g' ∧
      g ≠ g' ∧ FetchesRows (.partitioned 2) ∧
      (∃ ranges moved moved', g.renumberVertices none = .ok (ranges, moved) ∧
        g'.renumberVertices none = .ok (ranges, moved') ∧
        moved.renumberEdges none = moved'.renumberEdges none) ∧
      ∀ rs, answersTo (.partitioned 2) .cpu { policy := .renumber } { graph := g } rs
        = answersTo (.partitioned 2) .cpu { policy := .renumber } { graph := g' } rs := by
  have hloads : ({} : Graph).loadAll libraryLoads = _ := eq_ok_get (by decide +kernel)
  have hbyPaper : ({} : Graph).loadAll libraryByPaper = _ := eq_ok_get (by decide +kernel)
  obtain ⟨hrenumbered, hanswers⟩ := renumber_of_sameRecords sameRecords_library hloads hbyPaper
  have hparts : FetchesRows (.partitioned 2) := .inr ⟨2, rfl⟩
  exact ⟨sameRecords_library, _, _, hloads, hbyPaper, by decide +kernel, hparts, hrenumbered,
    hanswers _ _ _ _ hparts rfl⟩

end Store

end TypedGraph
