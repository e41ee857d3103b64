import TypedGraph.Proofs.FetchedTables

/-!
# Fetching all columns

A fetch that lists no columns makes one of every property, and a fetch that lists them all passes
over the names of fixed columns. So a property of such a name is left out by the second and refused
by the first, and the two agree exactly if an earlier property makes no column at all
(`allColumns_compare`).
-/

namespace TypedGraph.Graph

open Json Traversal

/-! ### Columns that are not made -/

section Added

variable {rows : List Properties} {taken : List String} {name name' : String} {e : GraphError}

/-- No column is made under a name that is taken. -/
lemma added_of_mem (h : name ∈ taken) : ∃ e, added taken rows name = .error e := by
  cases hadded : added taken rows name with
  | error e => exact ⟨e, rfl⟩
  | ok c =>
    obtain ⟨rfl, hfree, -⟩ := added_eq_ok_iff.mp hadded
    exact absurd h hfree

lemma exists_added_iff (h : name ∉ taken) : (∃ c, added taken rows name = .ok c) ↔
    ∀ w, ¬ Column.Mixes (rows.map (·.get? name)) w := by
  rw [added]
  cases hvalues : Column.ofValues name (rows.map (·.get? name)) with
  | ok c =>
    refine iff_of_true ⟨(name, c), by rw [ok_bind, if_neg h]⟩ fun w hw => ?_
    simp [Column.ofValues_of_mixes name hw] at hvalues
  | error e =>
    obtain ⟨w, hw, -⟩ := Column.ofValues_eq_error_iff.mp hvalues
    exact iff_of_false (by simp) fun hnone => hnone w hw

/-- The column that an error is about. -/
lemma name_eq_of_added (h : added taken rows name = .error e)
    (h' : added taken rows name' = .error e) : name = name' := by
  have hcause {name : String} (h : added taken rows name = .error e) :
      e = .duplicateColumn name ∨ ∃ w, e = .mixedColumn name w := by
    rw [added, bind_eq_error_iff] at h
    rcases h with hvalues | ⟨c, -, hpush⟩
    · obtain ⟨w, -, rfl⟩ := Column.ofValues_eq_error_iff.mp hvalues
      exact .inr ⟨w, rfl⟩
    · split_ifs at hpush
      exact .inl (Except.error.inj hpush).symm
  rcases hcause h with rfl | ⟨w, rfl⟩ <;> rcases hcause h' with heq | ⟨w', heq⟩ <;>
    cases heq <;> rfl

end Added

namespace Table

variable {α : Type} {t : Table α} {q : Query} {rows : List (Int × α)} {name : String}

/-- No column holds the values of a property over the rows. -/
def Mixed (t : Table α) (rows : List (Int × α)) (name : String) : Prop :=
  ∃ w, Column.Mixes (t.valuesOver rows name) w

/-- The properties whose names no fixed column has. -/
def freeNames (t : Table α) : List String :=
  t.propertyNames.filter fun name => !t.fixedNames.contains name

/-- The column of a property over the rows of a query. -/
def columnFor (t : Table α) (q : Query) (name : String) : Except GraphError (String × Column) :=
  added t.fixedNames ((t.rows q).map fun r => t.properties r.2) name

/-- The fixed columns, and those of some properties. -/
def frameOf (t : Table α) (q : Query) (names : List String) : Except GraphError Frame :=
  (fun columns => ⟨t.fixedColumns (t.rows q) ++ columns⟩) <$> names.mapM (t.columnFor q)

lemma fetch_all (t : Table α) (q : Query) :
    t.fetch { q with columns := none } = t.frameOf q t.propertyNames := by
  rw [fetch_eq]
  rfl

lemma fetch_named (t : Table α) (q : Query) :
    t.fetch { q with columns := some t.propertyNames } = t.frameOf q t.freeNames := by
  have hcolumns : propertyColumns t.fixedNames t.propertyNames (some t.propertyNames)
      = .ok t.freeNames := by
    refine propertyColumns_some_eq_ok_iff.mpr ⟨fun _ h _ => h, ?_⟩
    exact (eraseDups_eq_self ((Ascending.nodup_ofList _).filter _)).symm
  rw [fetch_eq, hcolumns]
  rfl

lemma columnFor_of_mem (h : name ∈ t.fixedNames) : ∃ e, t.columnFor q name = .error e :=
  added_of_mem h

lemma exists_columnFor_iff (h : name ∉ t.fixedNames) :
    (∃ c, t.columnFor q name = .ok c) ↔ ¬ t.Mixed (t.rows q) name := by
  rw [columnFor, exists_added_iff h, Mixed, valuesOver_eq, not_exists]

lemma mem_freeNames : name ∈ t.freeNames ↔ t.HasProperty name ∧ name ∉ t.fixedNames := by
  simp [freeNames, mem_propertyNames]

/-- Some property that no column holds comes before each property with the name of a fixed
column. -/
def MixedFirst (t : Table α) (q : Query) : Prop :=
  ∀ taken, t.HasProperty taken → taken ∈ t.fixedNames →
    ∃ name < taken, t.HasProperty name ∧ name ∉ t.fixedNames ∧ t.Mixed (t.rows q) name

lemma frameOf_eq_error_iff {names : List String} {e : GraphError} :
    t.frameOf q names = .error e ↔ ∃ before name after, names = before ++ name :: after ∧
      (∀ b ∈ before, ∃ c, t.columnFor q b = .ok c) ∧ t.columnFor q name = .error e := by
  rw [frameOf, map_eq_error_iff, mapM_eq_error_iff]

lemma exists_frameOf_iff {names : List String} :
    (∃ f, t.frameOf q names = .ok f) ↔ ∀ name ∈ names, ∃ c, t.columnFor q name = .ok c := by
  constructor
  · rintro ⟨f, hf⟩ name hname
    obtain ⟨columns, hcolumns, -⟩ := map_eq_ok_iff.mp hf
    exact ok_of_mapM_eq_ok hcolumns hname
  · intro h
    obtain ⟨columns, hcolumns⟩ := mapM_ok_of_forall h
    exact ⟨_, by rw [frameOf, hcolumns, map_ok]⟩

/-- A property with the name of a fixed column is refused at the latest. -/
lemma exists_frameOf_error {taken : String} (hproperty : t.HasProperty taken)
    (hfixed : taken ∈ t.fixedNames) : ∃ e, t.frameOf q t.propertyNames = .error e := by
  obtain ⟨e, he⟩ := t.columnFor_of_mem (q := q) hfixed
  cases hframe : t.frameOf q t.propertyNames with
  | error e => exact ⟨e, rfl⟩
  | ok f =>
    obtain ⟨c, hc⟩ := exists_frameOf_iff.mp ⟨f, hframe⟩ taken (mem_propertyNames.mpr hproperty)
    simp [he] at hc

/-- The names around one of some ascending names. -/
lemma before_after {before after : List String} {other : String}
    (h : t.propertyNames = before ++ name :: after) (hother : other ∈ t.propertyNames) :
    (other < name → other ∈ before) ∧ (other ∉ before → other ≠ name → name < other) := by
  have hasc : (before ++ name :: after).Pairwise (· < ·) := h ▸ Ascending.pairwise_ofList _
  have hafter := (List.pairwise_cons.mp (List.pairwise_append.mp hasc).2.1).1
  rw [h, List.mem_append, List.mem_cons] at hother
  constructor
  · intro hlt
    rcases hother with hbefore | rfl | hmem
    · exact hbefore
    · exact absurd hlt (lt_irrefl _)
    · exact absurd hlt (hafter other hmem).asymm
  · intro hbefore hne
    rcases hother with hmem | rfl | hmem
    · exact absurd hmem hbefore
    · exact absurd rfl hne
    · exact hafter other hmem

lemma mixedFirst_of_frameOf_eq (h : t.frameOf q t.propertyNames = t.frameOf q t.freeNames) :
    t.MixedFirst q := by
  intro taken hproperty hfixed
  obtain ⟨e, he⟩ := t.exists_frameOf_error (q := q) hproperty hfixed
  obtain ⟨before, name, after, hsplit, hbefore, hname⟩ := frameOf_eq_error_iff.mp he
  obtain ⟨before', name', after', hsplit', -, hname'⟩ := frameOf_eq_error_iff.mp (h ▸ he)
  -- both fetches fail at one property, and the second one makes no column of a taken name
  obtain rfl := name_eq_of_added hname hname'
  have hfree : name ∈ t.freeNames := by simp [hsplit']
  obtain ⟨hname, hnot⟩ := mem_freeNames.mp hfree
  have hmixed : t.Mixed (t.rows q) name := by
    rw [← not_not (a := t.Mixed _ _), ← exists_columnFor_iff hnot]
    rintro ⟨c, hc⟩
    simp [hc] at hname'
  refine ⟨name, ?_, hname, hnot, hmixed⟩
  refine (before_after hsplit (mem_propertyNames.mpr hproperty)).2 ?_ ?_
  · intro hmem
    obtain ⟨c, hc⟩ := hbefore taken hmem
    obtain ⟨e', he'⟩ := t.columnFor_of_mem (q := q) hfixed
    simp [he'] at hc
  · rintro rfl
    exact hnot hfixed

lemma frameOf_eq_of_mixedFirst (h : t.MixedFirst q) :
    t.frameOf q t.propertyNames = t.frameOf q t.freeNames := by
  by_cases htaken : ∃ taken, t.HasProperty taken ∧ taken ∈ t.fixedNames
  · obtain ⟨taken, hproperty, hfixed⟩ := htaken
    obtain ⟨e, he⟩ := t.exists_frameOf_error (q := q) hproperty hfixed
    obtain ⟨before, name, after, hsplit, hbefore, hname⟩ := frameOf_eq_error_iff.mp he
    -- what fails first is no taken name, as a mixed property comes before all of these
    have hfree : name ∉ t.fixedNames := by
      intro hfixed
      have hproperty : t.HasProperty name := mem_propertyNames.mp (by simp [hsplit])
      obtain ⟨other, hlt, hother, hnot, hmixed⟩ := h name hproperty hfixed
      have hmem := (before_after hsplit (mem_propertyNames.mpr hother)).1 hlt
      exact (exists_columnFor_iff hnot).mp (hbefore other hmem) hmixed
    rw [he, eq_comm, frameOf_eq_error_iff]
    refine ⟨before.filter fun name => !t.fixedNames.contains name, name,
      after.filter fun name => !t.fixedNames.contains name, ?_, ?_, hname⟩
    · rw [freeNames, hsplit, List.filter_append, List.filter_cons_of_pos (by simpa using hfree)]
    · exact fun b hb => hbefore b (List.mem_filter.mp hb).1
  · -- without a taken name the two lists of names are one
    have hfree : t.freeNames = t.propertyNames := by
      refine List.filter_eq_self.mpr fun name hname => ?_
      have hnot := not_and.mp (not_exists.mp htaken name) (mem_propertyNames.mp hname)
      simpa using hnot
    rw [hfree]

/-- How a fetch of all columns compares with one that lists their names. -/
structure ComparesAll (t : Table α) (fetch : Query → Except GraphError Frame)
    (names : List String) (q : Query) : Prop where
  same_iff : fetch { q with columns := none } = fetch { q with columns := some names } ↔
    t.MixedFirst q
  /-- A property with the name of a fixed column keeps everything from being fetched. -/
  refused : ∀ taken, t.HasProperty taken → taken ∈ t.fixedNames →
    ∃ e, fetch { q with columns := none } = .error e
  listed_iff : (∃ f, fetch { q with columns := some names } = .ok f) ↔
    ∀ name, t.HasProperty name → name ∉ t.fixedNames → ¬ t.Mixed (t.rows q) name

lemma comparesAll (t : Table α) (q : Query) : t.ComparesAll t.fetch t.propertyNames q where
  same_iff := by
    rw [fetch_all, fetch_named]
    exact ⟨mixedFirst_of_frameOf_eq, frameOf_eq_of_mixedFirst⟩
  refused taken hproperty hfixed := by
    rw [fetch_all]
    exact exists_frameOf_error hproperty hfixed
  listed_iff := by
    rw [fetch_named, exists_frameOf_iff]
    simp only [mem_freeNames, and_imp]
    exact forall₃_congr fun name _ hfree => exists_columnFor_iff hfree

end Table

/-- Fetching all columns is fetching those that are listed, unless a property has the name of a
fixed column and no earlier one makes the fetch fail. -/
theorem allColumns_compare (g : Graph) (q : Query) :
    (Table.ofVertices g).ComparesAll g.fetchVertices g.vertexPropertyNames q ∧
      (Table.ofEdges g).ComparesAll g.fetchEdges g.edgePropertyNames q :=
  ⟨(Table.ofVertices g).comparesAll q, (Table.ofEdges g).comparesAll q⟩

/-- A vertex and an edge with properties that are named like fixed columns. -/
def shadowed : Graph where
  vertices := .ofList
    [(0, { type := "node", properties := .ofList [("_TYPE_", .int 1), ("w", .int 2)] })]
  edges := .ofList [(0, ⟨0, 0, some "link", .ofList [("_SRC_", .int 1)]⟩)]
  nextEdgeId := 1

/-- The names of all properties fetch what there is, and leaving them out fetches nothing. -/
theorem allColumns_refused :
    shadowed.fetchVertices {} = .error (.duplicateColumn "_TYPE_") ∧
    shadowed.fetchVertices { columns := some shadowed.vertexPropertyNames }
      = .ok ⟨[("_VERTEX_", .int64 [0]), ("_TYPE_", .utf8 ["node"]), ("w", .int64 [2])]⟩ ∧
    shadowed.fetchEdges {} = .error (.duplicateColumn "_SRC_") ∧
    shadowed.fetchEdges { columns := some shadowed.edgePropertyNames }
      = .ok ⟨[("_EDGE_ID_", .int64 [0]), ("_SRC_", .int64 [0]), ("_DST_", .int64 [0]),
        ("_TYPE_", .utf8 ["link"])]⟩ := by
  decide +kernel

end TypedGraph.Graph
