import TypedGraph.Proofs.Blocks
import TypedGraph.Proofs.Partition

/-!
# Columns of fetched vertices

What a column of fetched vertices holds depends on the rows and on its name (`columnOver`), not on
the other columns that are fetched (`column_of_fetchVertices`). The other columns decide only
whether the fetch succeeds: a fetch of named columns needs these (`exists_fetchVertices_some_iff`),
and a fetch of all columns needs every property of the graph to make a column, under a name that no
fixed column has (`exists_fetchVertices_all_iff`).
-/

namespace TypedGraph

open Traversal

/-! ### Typed columns -/

lemma Column.length_ofValues {name : String} {values : List (Option Json.Value)} {c : Column}
    (h : Column.ofValues name values = .ok c) : c.length = values.length := by
  simp only [Column.ofValues] at h
  split at h
  · obtain rfl := Except.ok.inj h
    simp
  · split at h
    · simp at h
    · split at h
      · rename_i hints
        obtain rfl := Except.ok.inj h
        simp only [Bool.and_eq_true, beq_iff_eq] at hints
        exact hints.2
      · obtain rfl := Except.ok.inj h
        simp

lemma Json.Value.cellBinary?_of_cellInt? {v : Json.Value} {n : Int} (h : v.cellInt? = some n) :
    v.cellBinary? = some (.ofInt n) := by
  cases v with
  | bool b =>
    obtain rfl := Option.some.inj h
    rfl
  | number x =>
    cases x with
    | int m =>
      simp only [cellInt?, Number.toInt?, Option.ite_none_right_eq_some] at h
      rw [← Option.some.inj h.2]
      rfl
    | float x => simp [cellInt?, Number.toInt?] at h
  | _ => simp [cellInt?] at h

lemma Json.Value.string?_of_cellInt? {v : Json.Value} {n : Int} (h : v.cellInt? = some n) :
    v.string? = none := by
  cases v with
  | string s => simp [cellInt?] at h
  | _ => rfl

namespace Column

open Json

variable {name : String} {values : List (Option Value)} {c : Column}

lemma present_bind_cellInt? (v : Option Value) :
    (present v).bind Value.cellInt? = v.bind Value.cellInt? := by
  rcases v with _ | (_ | _) <;> rfl

lemma present_bind_cellBinary? (v : Option Value) :
    (present v).bind Value.cellBinary? = v.bind Value.cellBinary? := by
  rcases v with _ | (_ | _) <;> rfl

/-- There are rows, and every row has an integer or a truth value. -/
def IsIntegral (values : List (Option Value)) : Prop :=
  values ≠ [] ∧ ∀ v ∈ values, (v.bind Value.cellInt?).isSome

instance (values : List (Option Value)) : Decidable (IsIntegral values) :=
  inferInstanceAs (Decidable (_ ∧ _))

lemma filterMap_given : ((values.map present).filterMap id).filterMap Value.cellInt?
    = values.filterMap (·.bind Value.cellInt?) := by
  simp [List.filterMap_map, List.filterMap_filterMap, present_bind_cellInt?]

lemma isIntegral_iff : IsIntegral values ↔ (!values.isEmpty &&
    (values.filterMap (·.bind Value.cellInt?)).length == values.length) = true := by
  simp [IsIntegral, List.filterMap_length_eq_length]

/-- A column of numbers holds integers if every row has one, and binary values otherwise. -/
lemma ofValues_of_numeric (h : ofValues name values = .ok c) (hnumeric : c.dtype? ≠ none) :
    c = if IsIntegral values then .int64 (values.filterMap (·.bind Value.cellInt?))
      else .float64 (values.map fun v => (v.bind Value.cellBinary?).getD .nan) := by
  have hcells : (values.map present).map (fun v => (v.bind Value.cellBinary?).getD Binary.Value.nan)
      = values.map fun v => (v.bind Value.cellBinary?).getD .nan := by
    simp [Function.comp_def, present_bind_cellBinary?]
  simp only [ofValues, filterMap_given, hcells, ← isIntegral_iff] at h
  split at h
  · obtain rfl := Except.ok.inj h
    exact absurd rfl hnumeric
  · split at h
    · simp at h
    · split at h <;> rename_i hcase <;> obtain rfl := Except.ok.inj h
      · rw [if_pos hcase]
      · rw [if_neg hcase]

/-- Rows that all have integers make a column of these. -/
lemma ofValues_of_isIntegral (name : String) (h : IsIntegral values) :
    ofValues name values = .ok (.int64 (values.filterMap (·.bind Value.cellInt?))) := by
  obtain ⟨hne, hall⟩ := h
  have hgiven : ∀ v ∈ (values.map present).filterMap id, ∃ n, v.cellInt? = some n := by
    intro v hv
    obtain ⟨_, hmem, rfl⟩ := List.mem_filterMap.mp hv
    obtain ⟨w, hw, hpresent⟩ := List.mem_map.mp hmem
    refine Option.isSome_iff_exists.mp ?_
    have hsome := hall w hw
    rwa [← present_bind_cellInt?, hpresent] at hsome
  have htexts : ¬ (!((values.map present).filterMap id).isEmpty &&
      ((values.map present).filterMap id).all fun v => v.string?.isSome) = true := by
    cases hlist : (values.map present).filterMap id with
    | nil => simp
    | cons v rest =>
      obtain ⟨n, hn⟩ := hgiven v (hlist ▸ List.mem_cons_self)
      simp [Json.Value.string?_of_cellInt? hn]
  have hfind :
      (((values.map present).filterMap id).find? fun v => v.cellBinary?.isNone) = none := by
    refine List.find?_eq_none.mpr fun v hv => ?_
    obtain ⟨n, hn⟩ := hgiven v hv
    simp [Json.Value.cellBinary?_of_cellInt? hn]
  simp only [ofValues, if_neg htexts, hfind, filterMap_given, ← isIntegral_iff]
  rw [if_pos ⟨hne, hall⟩]

end Column

/-! ### Pushing properties -/

namespace Frame

variable {f : Frame} {name : String}

lemma mem_names_iff : name ∈ f.names ↔ (f.columns.find? (·.1 = name)).isSome := by
  simp [names]

lemma column_append_of_mem {more : List (String × Column)} (h : name ∈ f.names) :
    Frame.column ⟨f.columns ++ more⟩ name = f.column name := by
  obtain ⟨e, he⟩ := Option.isSome_iff_exists.mp (mem_names_iff.mp h)
  rw [column, column, List.find?_append, he]
  rfl

lemma column_append_of_notMem {more : List (String × Column)} (h : name ∉ f.names) :
    Frame.column ⟨f.columns ++ more⟩ name = Frame.column ⟨more⟩ name := by
  have hnone : f.columns.find? (·.1 = name) = none :=
    Option.not_isSome_iff_eq_none.mp (mt mem_names_iff.mpr h)
  rw [column, column, List.find?_append, hnone]
  rfl

/-- Columns that are made name by name are found under their names. -/
lemma column_of_mapM {make : String → Except GraphError Column} {names : List String}
    {cs : List (String × Column)}
    (h : (names.mapM fun name => (fun c => (name, c)) <$> make name) = .ok cs) (name : String) :
    Frame.column ⟨cs⟩ name
      = if name ∈ names then make name else .error (.unknownColumn name) := by
  have hmem {e : String × Column} : e ∈ cs ↔ e.1 ∈ names ∧ make e.1 = .ok e.2 := by
    rw [mem_iff_of_mapM_eq_ok h]
    constructor
    · rintro ⟨n, hn, he⟩
      obtain ⟨c, hc, rfl⟩ := map_eq_ok_iff.mp he
      exact ⟨hn, hc⟩
    · rintro ⟨hn, hc⟩
      exact ⟨e.1, hn, by rw [hc, map_ok]⟩
  rw [column]
  cases hfind : cs.find? (·.1 = name) with
  | some e =>
    obtain rfl : e.1 = name := by simpa using List.find?_some hfind
    obtain ⟨hn, hc⟩ := hmem.mp (List.mem_of_find?_eq_some hfind)
    rw [if_pos hn, hc]
  | none =>
    rw [List.find?_eq_none] at hfind
    have hnot : name ∉ names := by
      intro hn
      obtain ⟨e, he⟩ := ok_of_mapM_eq_ok h hn
      obtain ⟨c, hc, -⟩ := map_eq_ok_iff.mp he
      exact hfind (name, c) (hmem.mpr ⟨hn, hc⟩) (by simp)
    rw [if_neg hnot]

/-- A selection is told by the columns of its names. -/
lemma select_congr {f' : Frame} {names : List String}
    (h : ∀ name ∈ names, f.column name = f'.column name) : f.select names = f'.select names := by
  have hmap : (names.mapM fun name => (fun c => (name, c)) <$> f.column name)
      = names.mapM fun name => (fun c => (name, c)) <$> f'.column name := by
    induction names with
    | nil => rfl
    | cons name names ih =>
      obtain ⟨hname, hrest⟩ := List.forall_mem_cons.mp h
      rw [List.mapM_cons, List.mapM_cons, hname, ih hrest]
  rw [select, select, hmap]

end Frame

namespace Graph

section Push

variable {rows : List Json.Properties} {names taken : List String} {f f' : Frame}

/-- The column of a property over some rows, unless its name is taken. -/
def added (taken : List String) (rows : List Json.Properties) (name : String) :
    Except GraphError (String × Column) := do
  let c ← Column.ofValues name (rows.map (·.get? name))
  if name ∈ taken then .error (.duplicateColumn name) else .ok (name, c)

lemma added_congr {taken' : List String} {name : String} (h : name ∈ taken ↔ name ∈ taken') :
    added taken rows name = added taken' rows name := by
  simp only [added, h]

lemma mapM_added_congr {taken' : List String} (h : ∀ name ∈ names, name ∈ taken ↔ name ∈ taken') :
    names.mapM (added taken rows) = names.mapM (added taken' rows) := by
  induction names with
  | nil => rfl
  | cons name names ih =>
    obtain ⟨hname, hnames⟩ := List.forall_mem_cons.mp h
    rw [List.mapM_cons, List.mapM_cons, added_congr hname, ih hnames]

/-- Properties pushed one after the other are the columns made one by one: a column is never refused
for its length, and distinct properties do not take each other's names. -/
lemma pushProperties_eq (hnames : names.Nodup) (heven : f.Even rows.length) (hne : f.columns ≠ []) :
    pushProperties rows names f
      = (fun cs => ⟨f.columns ++ cs⟩) <$> names.mapM (added f.names rows) := by
  induction names generalizing f with
  | nil => simp [pushProperties]
  | cons name names ih =>
    obtain ⟨hname, hnames⟩ := List.nodup_cons.mp hnames
    have hcons : pushProperties rows (name :: names) f = (do
        let c ← Column.ofValues name (rows.map (·.get? name))
        let f ← f.push name c
        pushProperties rows names f) := by
      rw [pushProperties, List.foldlM_cons, bind_assoc]
      rfl
    rw [hcons, List.mapM_cons, added]
    cases hc : Column.ofValues name (rows.map (·.get? name)) with
    | error e => rfl
    | ok c =>
      have hlength : c.length = rows.length := by
        rw [Column.length_ofValues hc, List.length_map]
      have hrows : f.rows = rows.length := Frame.rows_of_even heven hne
      -- a name that is taken fails here, as it does when columns are made one by one
      by_cases hfree : name ∈ f.names
      · simp [Frame.push, hlength, hrows, hfree]
      · let f' : Frame := ⟨f.columns ++ [(name, c)]⟩
        have hpush : f.push name c = .ok f' :=
          Frame.push_eq_ok_iff.mpr ⟨fun _ => hlength.trans hrows.symm, hfree, rfl⟩
        have heven' : f'.Even rows.length := by
          intro d hd
          rcases List.mem_append.mp hd with hd | hd
          · exact heven d hd
          · rw [List.mem_singleton.mp hd, hlength]
        -- the name just pushed is not among the others, so they are free as before
        have htaken : ∀ n ∈ names, n ∈ f'.names ↔ n ∈ f.names := by
          intro n hn
          have hother : n ≠ name := fun h => hname (h ▸ hn)
          simp [f', Frame.names, hother]
        rw [ok_bind, hpush, ok_bind, ih hnames heven' (by simp [f']), mapM_added_congr htaken]
        cases names.mapM (added f.names rows) <;> simp [f', hfree]

/-- Properties are pushed if they make columns, under names that are new. -/
lemma pushProperties_eq_ok_iff (hnames : names.Nodup) (heven : f.Even rows.length)
    (hne : f.columns ≠ []) : pushProperties rows names f = .ok f' ↔
      (∀ name ∈ names, name ∉ f.names) ∧
        ∃ cs, (names.mapM fun name => (fun c => (name, c)) <$>
            Column.ofValues name (rows.map (·.get? name))) = .ok cs ∧
          f' = ⟨f.columns ++ cs⟩ := by
  have hadded {name : String} {c : String × Column} : added f.names rows name = .ok c ↔
      name ∉ f.names ∧
        (fun c => (name, c)) <$> Column.ofValues name (rows.map (·.get? name)) = .ok c := by
    rw [added]
    cases Column.ofValues name (rows.map (·.get? name)) with
    | error e => simp
    | ok d => by_cases hmem : name ∈ f.names <;> simp [hmem]
  rw [pushProperties_eq hnames heven hne, map_eq_ok_iff]
  simp only [mapM_eq_ok_iff, hadded, List.forall₂_and_left, and_assoc, exists_and_left,
    @eq_comm _ f']

end Push

/-! ### Columns by name -/

variable {g : Graph} {q : Query} {f f' : Frame} {names pushed : List String} {name : String}

/-- The names of the fixed columns of vertices. -/
def fixedNames : List String := [vertexColumn, typeColumn]

/-- The column of a name over some vertices. -/
def columnOver (g : Graph) (rows : List (Int × Vertex)) (name : String) :
    Except GraphError Column :=
  if name ∈ fixedNames then Frame.column ⟨vertexColumns rows⟩ name
  else if name ∈ g.vertexPropertyNames then
    Column.ofValues name (rows.map (·.2.properties.get? name))
  else .error (.unknownColumn name)

/-- Every property that some vertex of the graph has makes a column over the rows that a query
chooses, under a name that no fixed column has. -/
def MakesColumns (g : Graph) (q : Query) : Prop :=
  ∀ name ∈ g.vertexPropertyNames, name ∉ fixedNames ∧
    ∃ c, Column.ofValues name ((g.vertexRows q).map (·.2.properties.get? name)) = .ok c

lemma propertyColumns_some_eq_ok_iff {fixed available : List String} :
    propertyColumns fixed available (some names) = .ok pushed ↔
      (∀ name ∈ names, name ∉ fixed → name ∈ available) ∧
        pushed = (names.filter fun name => !fixed.contains name).eraseDups := by
  have hwanted : (∀ name ∈ names, name ∉ fixed → name ∈ available) ↔
      ∀ name ∈ names.filter fun name => !fixed.contains name, ¬ !available.contains name := by
    simp
  rw [propertyColumns, hwanted, ← List.find?_eq_none]
  cases (names.filter fun name => !fixed.contains name).find? fun n => !available.contains n with
  | some n => simp
  | none => simp [eq_comm]

lemma nodup_of_propertyColumns {fixed available : List String} {columns : Option (List String)}
    (havailable : available.Nodup) (h : propertyColumns fixed available columns = .ok pushed) :
    pushed.Nodup := by
  cases columns with
  | none =>
    obtain rfl := Except.ok.inj h
    exact havailable
  | some names =>
    obtain ⟨-, rfl⟩ := propertyColumns_some_eq_ok_iff.mp h
    exact nodup_eraseDups _

/-- A fetch pushes the columns of its properties after the fixed ones. -/
lemma fetchVertices_eq_ok_iff : g.fetchVertices q = .ok f ↔ ∃ pushed,
    propertyColumns fixedNames g.vertexPropertyNames q.columns = .ok pushed ∧
      (∀ name ∈ pushed, name ∉ fixedNames) ∧
        ∃ cs, (pushed.mapM fun name => (fun c => (name, c)) <$>
            Column.ofValues name ((g.vertexRows q).map (·.2.properties.get? name))) = .ok cs ∧
          f = ⟨vertexColumns (g.vertexRows q) ++ cs⟩ := by
  have heven : Frame.Even ⟨vertexColumns (g.vertexRows q)⟩
      ((g.vertexRows q).map (·.2.properties)).length := by
    simp [Frame.Even, vertexColumns]
  rw [fetchVertices, bind_eq_ok_iff]
  refine exists_congr fun pushed => and_congr_right fun hpushed => ?_
  have hnodup := nodup_of_propertyColumns (Ascending.nodup_ofList _) hpushed
  rw [pushProperties_eq_ok_iff hnodup heven (by simp [vertexColumns])]
  simp only [List.map_map, Function.comp_def]
  rfl

/-- A column that was fetched is that of its name over the rows. -/
lemma column_of_fetchVertices (h : g.fetchVertices q = .ok f)
    (hname : ∀ names, q.columns = some names → name ∈ names) :
    f.column name = g.columnOver (g.vertexRows q) name := by
  obtain ⟨pushed, hpushed, hfree, cs, hcs, rfl⟩ := fetchVertices_eq_ok_iff.mp h
  rw [columnOver]
  split_ifs with hfixed hproperty
  · exact Frame.column_append_of_mem (f := ⟨vertexColumns _⟩) hfixed
  all_goals
    -- the fixed columns come first, and no property has one of their names
    rw [Frame.column_append_of_notMem (f := ⟨vertexColumns _⟩) hfixed, Frame.column_of_mapM hcs]
  · rw [if_pos]
    cases hcolumns : q.columns with
    | none =>
      rw [hcolumns] at hpushed
      obtain rfl := Except.ok.inj hpushed
      exact hproperty
    | some names =>
      rw [hcolumns, propertyColumns_some_eq_ok_iff] at hpushed
      rw [hpushed.2, List.mem_eraseDups]
      exact List.mem_filter.mpr ⟨hname names hcolumns, by simpa using hfixed⟩
  · rw [if_neg]
    intro hmem
    cases hcolumns : q.columns with
    | none =>
      rw [hcolumns] at hpushed
      obtain rfl := Except.ok.inj hpushed
      exact hproperty hmem
    | some names =>
      rw [hcolumns, propertyColumns_some_eq_ok_iff] at hpushed
      exact hproperty (hpushed.1 name (hname names hcolumns) hfixed)

/-- A fetch succeeds if each of its properties makes a column, under a name that no fixed column
has. -/
lemma exists_fetchVertices_iff : (∃ f, g.fetchVertices q = .ok f) ↔ ∃ pushed,
    propertyColumns fixedNames g.vertexPropertyNames q.columns = .ok pushed ∧
      ∀ name ∈ pushed, name ∉ fixedNames ∧
        ∃ c, Column.ofValues name ((g.vertexRows q).map (·.2.properties.get? name)) = .ok c := by
  simp only [fetchVertices_eq_ok_iff]
  constructor
  · rintro ⟨_, pushed, hpushed, hfree, cs, hcs, -⟩
    refine ⟨pushed, hpushed, fun name hname => ⟨hfree name hname, ?_⟩⟩
    obtain ⟨e, he⟩ := ok_of_mapM_eq_ok hcs hname
    obtain ⟨c, hc, -⟩ := map_eq_ok_iff.mp he
    exact ⟨c, hc⟩
  · rintro ⟨pushed, hpushed, hmade⟩
    have hcells : ∀ name ∈ pushed, ∃ e, ((fun c => (name, c)) <$>
        Column.ofValues name ((g.vertexRows q).map (·.2.properties.get? name))) = .ok e := by
      intro name hname
      obtain ⟨-, c, hc⟩ := hmade name hname
      exact ⟨(name, c), by rw [hc, map_ok]⟩
    obtain ⟨cs, hcs⟩ := mapM_ok_of_forall hcells
    exact ⟨_, pushed, hpushed, fun name hname => (hmade name hname).1, cs, hcs, rfl⟩

/-- A fetch of all columns needs every property of the graph to make one. -/
lemma exists_fetchVertices_all_iff (hcolumns : q.columns = none) :
    (∃ f, g.fetchVertices q = .ok f) ↔ g.MakesColumns q := by
  rw [exists_fetchVertices_iff, hcolumns]
  simp [propertyColumns, MakesColumns]

lemma exists_columnOver_iff {rows : List (Int × Vertex)} :
    (∃ c, g.columnOver rows name = .ok c) ↔ (name ∉ fixedNames → name ∈ g.vertexPropertyNames ∧
      ∃ c, Column.ofValues name (rows.map (·.2.properties.get? name)) = .ok c) := by
  rw [columnOver]
  split_ifs with hfixed hproperty
  · have hfound : ∃ c, Frame.column ⟨vertexColumns rows⟩ name = .ok c := by
      rcases List.mem_pair.mp hfixed with rfl | rfl
      · exact ⟨_, rfl⟩
      · exact ⟨_, rfl⟩
    exact iff_of_true hfound fun hnot => absurd hfixed hnot
  · simp [hfixed, hproperty]
  · simp [hfixed, hproperty]

/-- A fetch of some columns needs those alone. -/
lemma exists_fetchVertices_some_iff (hcolumns : q.columns = some names) :
    (∃ f, g.fetchVertices q = .ok f) ↔
      ∀ name ∈ names, ∃ c, g.columnOver (g.vertexRows q) name = .ok c := by
  have hpushed : ∀ name, name ∈ (names.filter fun name => !fixedNames.contains name).eraseDups ↔
      name ∈ names ∧ name ∉ fixedNames := by
    simp [List.mem_eraseDups]
  rw [exists_fetchVertices_iff, hcolumns]
  simp only [exists_columnOver_iff, propertyColumns_some_eq_ok_iff]
  constructor
  · rintro ⟨_, ⟨havailable, rfl⟩, hmade⟩ name hname hfixed
    exact ⟨havailable name hname hfixed, (hmade name ((hpushed name).mpr ⟨hname, hfixed⟩)).2⟩
  · intro h
    refine ⟨_, ⟨fun name hname hfixed => (h name hname hfixed).1, rfl⟩, fun name hname => ?_⟩
    obtain ⟨hmem, hfixed⟩ := (hpushed name).mp hname
    exact ⟨hfixed, (h name hmem hfixed).2⟩

/-- Where all columns and some can be fetched, these are the same in both frames. -/
lemma select_of_fetchVertices (hf : g.fetchVertices { q with columns := none } = .ok f)
    (hf' : g.fetchVertices { q with columns := some names } = .ok f') :
    f.select names = f'.select names := by
  refine Frame.select_congr fun name hname => ?_
  rw [column_of_fetchVertices hf (by simp),
    column_of_fetchVertices hf' fun _ h => Option.some.inj h ▸ hname]
  rfl

/-- Columns that can be selected from all can be fetched by themselves. -/
lemma exists_fetchVertices_of_select (hf : g.fetchVertices { q with columns := none } = .ok f)
    {fs : Frame} (hselect : f.select names = .ok fs) :
    ∃ f', g.fetchVertices { q with columns := some names } = .ok f' := by
  refine (exists_fetchVertices_some_iff rfl).mpr fun name hname => ?_
  obtain ⟨cs, hcs, -⟩ := map_eq_ok_iff.mp hselect
  obtain ⟨e, he⟩ := ok_of_mapM_eq_ok hcs hname
  obtain ⟨c, hc, -⟩ := map_eq_ok_iff.mp he
  rw [column_of_fetchVertices hf (by simp)] at hc
  exact ⟨c, hc⟩

end Graph

end TypedGraph
