import TypedGraph.Proofs.Blocks
import TypedGraph.Proofs.ColumnTyping

/-!
# Tables that are fetched

Vertices and edges are rows under ascending ids, each with properties and perhaps a type. What a
fetch answers is stated apart from its passes over the rows: which rows it shows (`Chosen`), which
properties beside the fixed columns (`Named`), and what their columns hold (`Column.Holds`). A fetch
answers exactly the frames that show this (`fetches_show_rows`).
-/

namespace TypedGraph.Graph

open Json Traversal

/-! ### Pushing in one go -/

section Push

variable {rows : List Properties} {names taken : List String} {f : Frame}
  {cs : List (String × Column)}

lemma added_eq_ok_iff {name : String} {c : String × Column} : added taken rows name = .ok c ↔
    name = c.1 ∧ c.1 ∉ taken ∧ c.2.Holds (rows.map (·.get? c.1)) := by
  rw [added, bind_eq_ok_iff]
  simp only [Column.ofValues_eq_ok_iff]
  constructor
  · rintro ⟨d, hd, h⟩
    split_ifs at h with hmem
    obtain rfl := Except.ok.inj h
    exact ⟨rfl, hmem, hd⟩
  · rintro ⟨rfl, hfree, hholds⟩
    exact ⟨c.2, hholds, if_neg hfree⟩

lemma mapM_added_eq_ok_iff : names.mapM (added taken rows) = .ok cs ↔
    names = cs.map (·.1) ∧ ∀ c ∈ cs, c.1 ∉ taken ∧ c.2.Holds (rows.map (·.get? c.1)) := by
  constructor
  · intro h
    have hnames : names = cs.map (·.1) := by
      rw [← List.forall₂_eq_eq_eq, List.forall₂_map_right_iff]
      exact (mapM_eq_ok_iff.mp h).imp fun _ _ h => (added_eq_ok_iff.mp h).1
    refine ⟨hnames, fun c hc => ?_⟩
    obtain ⟨name, -, hadded⟩ := (mem_iff_of_mapM_eq_ok h).mp hc
    exact (added_eq_ok_iff.mp hadded).2
  · rintro ⟨rfl, h⟩
    rw [mapM_eq_ok_iff, List.forall₂_map_left_iff, List.forall₂_same]
    exact fun c hc => added_eq_ok_iff.mpr ⟨rfl, h c hc⟩

end Push

/-! ### Tables -/

/-- Rows under ids, and the columns that every fetch of them has. -/
structure Table (α : Type) where
  entries : SortedMap Int α
  type : α → Option String
  properties : α → Properties
  fixed : List (String × (List (Int × α) → Column))
  fixed_ne_nil : fixed ≠ []
  length_fixed : ∀ c ∈ fixed, ∀ rows, (c.2 rows).length = rows.length

/-- The vertices of a graph. -/
def Table.ofVertices (g : Graph) : Table Vertex where
  entries := g.vertices
  type v := some v.type
  properties := Vertex.properties
  fixed := [(vertexColumn, fun rows => .int64 (rows.map (·.1))),
    (typeColumn, fun rows => .utf8 (rows.map (·.2.type)))]
  fixed_ne_nil := by simp
  length_fixed := by simp

/-- The edges of a graph; a missing type is written as the empty string. -/
def Table.ofEdges (g : Graph) : Table Edge where
  entries := g.edges
  type := Edge.type
  properties := Edge.properties
  fixed := [(edgeIdColumn, fun rows => .int64 (rows.map (·.1))),
    (sourceColumn, fun rows => .int64 (rows.map (·.2.source))),
    (destinationColumn, fun rows => .int64 (rows.map (·.2.destination))),
    (typeColumn, fun rows => .utf8 (rows.map fun r => r.2.type.getD ""))]
  fixed_ne_nil := by simp
  length_fixed := by simp

namespace Table

variable {α : Type} (t : Table α)

def fixedNames : List String := t.fixed.map (·.1)

def fixedColumns (rows : List (Int × α)) : List (String × Column) :=
  t.fixed.map fun c => (c.1, c.2 rows)

/-- Some row has a property of this name. -/
def HasProperty (name : String) : Prop :=
  ∃ id a, t.entries.get? id = some a ∧ name ∈ (t.properties a).keys

/-- The names of the properties that some row has, ascending. -/
def propertyNames : List String :=
  Ascending.ofList (t.entries.values.flatMap fun a => (t.properties a).keys)

/-- The values of a property over some rows. -/
def valuesOver (rows : List (Int × α)) (name : String) : List (Option Value) :=
  rows.map fun r => (t.properties r.2).get? name

/-- The rows that a query chooses. -/
def rows (q : Query) : List (Int × α) :=
  (rowsWithIds t.entries q.ids).filter fun r => admits q.types (t.type r.2)

/-- The frame of the rows that a query chooses. -/
def fetch (q : Query) : Except GraphError Frame := do
  let names ← propertyColumns t.fixedNames t.propertyNames q.columns
  pushProperties ((t.rows q).map fun r => t.properties r.2) names ⟨t.fixedColumns (t.rows q)⟩

lemma fetchVertices_eq (g : Graph) (q : Query) :
    g.fetchVertices q = (Table.ofVertices g).fetch q := rfl

lemma fetchEdges_eq (g : Graph) (q : Query) : g.fetchEdges q = (Table.ofEdges g).fetch q := rfl

/-! ### What a query asks for -/

/-- The rows with one of the ids of a query, if it lists ids, and of one of its types, if it lists
types, in ascending order of their ids. -/
structure Chosen (q : Query) (rows : List (Int × α)) : Prop where
  ascending : rows.Pairwise (·.1 < ·.1)
  mem_iff : ∀ id a, (id, a) ∈ rows ↔ t.entries.get? id = some a ∧
    (∀ ids, q.ids = some ids → id ∈ ids) ∧
      ∀ types, q.types = some types → ∃ type ∈ types, t.type a = some type

/-- The names of further columns: of all properties, ascending, or else the names that are listed,
each where it comes first, without those of fixed columns. -/
def Named (names : List String) : Option (List String) → Prop
  | none => names.Pairwise (· < ·) ∧ ∀ name, name ∈ names ↔ t.HasProperty name
  | some listed => names.Pairwise (AppearsBefore listed) ∧
      ∀ name, name ∈ names ↔ name ∈ listed ∧ name ∉ t.fixedNames

/-- A fetch shows some rows, and the columns of some of their properties beside the fixed ones. -/
structure Shows (q : Query) (rows : List (Int × α)) (columns : List (String × Column)) : Prop where
  chosen : t.Chosen q rows
  named : t.Named (columns.map (·.1)) q.columns
  properties : ∀ c ∈ columns, t.HasProperty c.1 ∧ c.1 ∉ t.fixedNames
  cells : ∀ c ∈ columns, c.2.Holds (t.valuesOver rows c.1)

variable {t} {q : Query} {rows : List (Int × α)} {name : String} {names listed : List String}

lemma mem_propertyNames : name ∈ t.propertyNames ↔ t.HasProperty name := by
  simp only [propertyNames, Ascending.mem_ofList, List.mem_flatMap, SortedMap.values,
    List.mem_map, Prod.exists, SortedMap.mem_entries_iff, HasProperty]
  constructor
  · rintro ⟨a, ⟨id, _, ha, rfl⟩, hname⟩
    exact ⟨id, _, ha, hname⟩
  · rintro ⟨id, a, ha, hname⟩
    exact ⟨a, ⟨id, a, ha, rfl⟩, hname⟩

lemma valuesOver_eq :
    t.valuesOver rows name = (rows.map fun r => t.properties r.2).map (·.get? name) := by
  rw [valuesOver, List.map_map]
  rfl

lemma mem_rowsWithIds {entries : SortedMap Int α} {ids : Option (List Int)} {id : Int} {a : α} :
    (id, a) ∈ rowsWithIds entries ids ↔
      entries.get? id = some a ∧ ∀ listed, ids = some listed → id ∈ listed := by
  cases ids with
  | none => simp [rowsWithIds, SortedMap.mem_entries_iff]
  | some listed =>
    simp only [rowsWithIds, List.mem_filterMap, Ascending.mem_ofList, Option.map_eq_some_iff,
      Prod.mk.injEq]
    constructor
    · rintro ⟨_, hid, _, ha, rfl, rfl⟩
      exact ⟨ha, fun _ h => Option.some.inj h ▸ hid⟩
    · rintro ⟨ha, hid⟩
      exact ⟨id, hid listed rfl, a, ha, rfl, rfl⟩

lemma admits_iff {types : Option (List String)} {type : Option String} :
    admits types type ↔ ∀ listed, types = some listed → ∃ name ∈ listed, type = some name := by
  cases types <;> cases type <;> simp [admits]

lemma chosen_rows (t : Table α) (q : Query) : t.Chosen q (t.rows q) where
  ascending := (pairwise_rowsWithIds _ _).filter _
  mem_iff id a := by
    rw [Table.rows, List.mem_filter, mem_rowsWithIds, admits_iff, and_assoc]

lemma Chosen.eq_rows (h : t.Chosen q rows) : rows = t.rows q := by
  have hrows := t.chosen_rows q
  refine Ascending.eq_of_pairwise_key_lt h.ascending hrows.ascending ?_
  rintro ⟨id, a⟩
  rw [h.mem_iff, hrows.mem_iff]

lemma propertyColumns_eq_ok_iff {columns : Option (List String)} :
    propertyColumns t.fixedNames t.propertyNames columns = .ok names ↔
      t.Named names columns ∧ ∀ name ∈ names, t.HasProperty name := by
  cases columns with
  | none =>
    simp only [propertyColumns, Except.ok.injEq, Named]
    constructor
    · rintro rfl
      exact ⟨⟨Ascending.pairwise_ofList _, fun _ => mem_propertyNames⟩,
        fun _ => mem_propertyNames.mp⟩
    · rintro ⟨⟨hasc, hmem⟩, -⟩
      refine (Ascending.pairwise_ofList _).eq_of_mem_iff hasc fun name => ?_
      rw [hmem]
      exact mem_propertyNames
  | some listed =>
    let free : String → Bool := fun name => !t.fixedNames.contains name
    have hmem : ∀ name, name ∈ (listed.filter free).eraseDups ↔
        name ∈ listed ∧ name ∉ t.fixedNames := by
      simp [List.mem_eraseDups, free]
    -- duplicates go, and what is left stands in the order of first appearance
    have hordered : (listed.filter free).eraseDups.Pairwise (AppearsBefore listed) :=
      (pairwise_eraseDups _).imp_of_mem fun _ hb h =>
        h.of_filter (List.mem_filter.mp (List.mem_eraseDups.mp hb)).2
    rw [propertyColumns_some_eq_ok_iff, Named]
    simp only [mem_propertyNames]
    constructor
    · rintro ⟨havailable, rfl⟩
      refine ⟨⟨hordered, hmem⟩, fun name hname => ?_⟩
      obtain ⟨hlisted, hfree⟩ := (hmem name).mp hname
      exact havailable name hlisted hfree
    · rintro ⟨⟨hnames, hsame⟩, havailable⟩
      refine ⟨fun name hlisted hfree => havailable name ((hsame name).mpr ⟨hlisted, hfree⟩), ?_⟩
      have hlt {names : List String} (h : names.Pairwise (AppearsBefore listed)) :
          names.Pairwise fun a b => listed.idxOf a < listed.idxOf b :=
        h.imp AppearsBefore.idxOf_lt
      refine Ascending.eq_of_pairwise_key_lt (hlt hnames) (hlt hordered) fun name => ?_
      rw [hsame, hmem]

/-- A fetch makes the columns of its properties one by one. -/
lemma fetch_eq (t : Table α) (q : Query) : t.fetch q = (do
    let names ← propertyColumns t.fixedNames t.propertyNames q.columns
    let columns ← names.mapM (added t.fixedNames ((t.rows q).map fun r => t.properties r.2))
    .ok ⟨t.fixedColumns (t.rows q) ++ columns⟩) := by
  -- the fixed columns are as long as the rows, so that pushing further ones cannot tear the frame
  have heven : Frame.Even ⟨t.fixedColumns (t.rows q)⟩
      ((t.rows q).map fun r => t.properties r.2).length := by
    intro c hc
    obtain ⟨d, hd, rfl⟩ := List.mem_map.mp hc
    rw [t.length_fixed d hd, List.length_map]
  have hne : (⟨t.fixedColumns (t.rows q)⟩ : Frame).columns ≠ [] := by
    simp [fixedColumns, t.fixed_ne_nil]
  have hnames : (⟨t.fixedColumns (t.rows q)⟩ : Frame).names = t.fixedNames := by
    simp [Frame.names, fixedColumns, fixedNames]
  rw [fetch]
  cases hcolumns : propertyColumns t.fixedNames t.propertyNames q.columns with
  | error e => rfl
  | ok names =>
    have hnodup := nodup_of_propertyColumns (Ascending.nodup_ofList _) hcolumns
    rw [ok_bind, ok_bind, pushProperties_eq hnodup heven hne, hnames]
    rfl

/-- A fetch answers exactly what shows the rows that are asked for. -/
lemma fetch_eq_ok_iff {f : Frame} : t.fetch q = .ok f ↔
    ∃ rows columns, t.Shows q rows columns ∧ f = ⟨t.fixedColumns rows ++ columns⟩ := by
  simp only [fetch_eq, bind_eq_ok_iff, propertyColumns_eq_ok_iff, mapM_added_eq_ok_iff]
  constructor
  · rintro ⟨_, ⟨hnamed, hproperties⟩, columns, ⟨rfl, hcells⟩, hf⟩
    refine ⟨t.rows q, columns, ⟨t.chosen_rows q, hnamed, fun c hc => ?_, fun c hc => ?_⟩,
      (Except.ok.inj hf).symm⟩
    · exact ⟨hproperties c.1 (List.mem_map_of_mem hc), (hcells c hc).1⟩
    · rw [valuesOver_eq]
      exact (hcells c hc).2
  · rintro ⟨rows, columns, h, rfl⟩
    obtain rfl := h.chosen.eq_rows
    refine ⟨_, ⟨h.named, ?_⟩, columns, ⟨rfl, fun c hc => ⟨(h.properties c hc).2, ?_⟩⟩, rfl⟩
    · exact List.forall_mem_map.mpr fun c hc => (h.properties c hc).1
    · exact valuesOver_eq ▸ h.cells c hc

/-- The order and the repeats of the ids that are listed do not matter. -/
lemma fetch_congr {ids ids' : List Int} (h : ∀ id, id ∈ ids ↔ id ∈ ids') :
    t.fetch { q with ids := some ids } = t.fetch { q with ids := some ids' } := by
  simp only [fetch, Table.rows, rowsWithIds, Ascending.ofList_congr h]

end Table

/-- A fetch answers exactly the rows that are asked for, each beside the cells of its properties. -/
theorem fetches_show_rows (g : Graph) (q : Query) :
    (∀ f, g.fetchVertices q = .ok f ↔ ∃ rows columns, (Table.ofVertices g).Shows q rows columns ∧
      f = ⟨(vertexColumn, .int64 (rows.map (·.1))) :: (typeColumn, .utf8 (rows.map (·.2.type))) ::
        columns⟩) ∧
    (∀ f, g.fetchEdges q = .ok f ↔ ∃ rows columns, (Table.ofEdges g).Shows q rows columns ∧
      f = ⟨(edgeIdColumn, .int64 (rows.map (·.1))) ::
        (sourceColumn, .int64 (rows.map (·.2.source))) ::
        (destinationColumn, .int64 (rows.map (·.2.destination))) ::
        (typeColumn, .utf8 (rows.map fun r => r.2.type.getD "")) :: columns⟩) ∧
    ∀ ids ids', (∀ id, id ∈ ids ↔ id ∈ ids') →
      g.fetchVertices { q with ids := some ids } = g.fetchVertices { q with ids := some ids' } ∧
      g.fetchEdges { q with ids := some ids } = g.fetchEdges { q with ids := some ids' } := by
  refine ⟨fun f => ?_, fun f => ?_, fun ids ids' h => ⟨?_, ?_⟩⟩
  · rw [Table.fetchVertices_eq]
    exact Table.fetch_eq_ok_iff
  · rw [Table.fetchEdges_eq]
    exact Table.fetch_eq_ok_iff
  · rw [Table.fetchVertices_eq, Table.fetchVertices_eq]
    exact Table.fetch_congr h
  · rw [Table.fetchEdges_eq, Table.fetchEdges_eq]
    exact Table.fetch_congr h

/-- Two ports, a ferry between them, and a connection of no type. -/
def harbour : Graph where
  vertices := .ofList [(0, { type := "port", properties := .ofList [("depth", .int 7)] }),
    (3, { type := "port" })]
  edges := .ofList [(0, ⟨0, 3, some "ferry", .ofList [("fare", .int 4)]⟩),
    (1, ⟨3, 0, none, .empty⟩)]
  nextEdgeId := 2

theorem fetches_show_rows_harbour :
    let q : Query := { ids := some [1, 0, 9, 0], types := some ["", "ferry"] }
    (∀ id : Int, id ∈ [1, 0, 9, 0] ↔ id ∈ [0, 1, 9]) ∧
    harbour.fetchEdges q = harbour.fetchEdges { q with ids := some [0, 1, 9] } ∧
    ∃ rows columns, (Table.ofEdges harbour).Shows q rows columns ∧ rows.map (·.1) = [0] := by
  intro q
  have hids : ∀ id : Int, id ∈ [1, 0, 9, 0] ↔ id ∈ [0, 1, 9] := by
    intro id
    simp only [List.mem_cons, List.not_mem_nil, or_false]
    tauto
  have hf : harbour.fetchEdges q = .ok ⟨[("_EDGE_ID_", .int64 [0]), ("_SRC_", .int64 [0]),
      ("_DST_", .int64 [3]), ("_TYPE_", .utf8 ["ferry"]), ("fare", .int64 [4])]⟩ := by
    decide +kernel
  obtain ⟨rows, columns, hshows, hframe⟩ := ((fetches_show_rows harbour q).2.1 _).mp hf
  have hrows : [0] = rows.map (·.1) := by
    simpa [edgeIdColumn] using congrArg (·.columns.head?) hframe
  exact ⟨hids, ((fetches_show_rows harbour q).2.2 _ _ hids).2, rows, columns, hshows, hrows.symm⟩

end TypedGraph.Graph
