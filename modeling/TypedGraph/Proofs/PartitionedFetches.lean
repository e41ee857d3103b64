import TypedGraph.Proofs.Agreement
import TypedGraph.Proofs.Elements
import TypedGraph.Proofs.FrameAppends

/-!
# Partitioned fetches

A partitioned source hands out a handle, and the fetch runs when the handle is forced, on the tables
of that moment. It gives what a fetch at once gives there, its rows permuted: they come part by part
and in ascending order of their ids within a part (`fetches_delayed`). The rows are gathered part
after part and the pieces appended (`gatherParts_eq_arrange`).
-/

namespace TypedGraph

open Traversal TypedGraph.Action

/-! ### Rows of a frame -/

lemma Column.append_pick (c : Column) (rows more : List Nat) :
    (c.pick rows).append (c.pick more) = .ok (c.pick (rows ++ more)) := by
  cases c <;> simp [Column.pick, Column.append, TypedGraph.pick]

namespace Frame

variable {f : Frame} {n : Nat} {rows order : List Nat}

/-- The names and the element types of the columns. -/
def schema (f : Frame) : List (String × Option DType) := f.columns.map fun c => (c.1, c.2.dtype?)

/-- A row of a frame: its cells under the names of the columns. -/
def record (f : Frame) (row : Nat) : List (String × Option Cell) :=
  f.columns.map fun c => (c.1, c.2.cells[row]?)

def records (f : Frame) : List (List (String × Option Cell)) := (List.range f.rows).map f.record

lemma schema_pick (f : Frame) (rows : List Nat) : (f.pick rows).schema = f.schema := by
  simp [schema, pick, Column.dtype?_pick]

lemma record_pick (heven : f.Even n) (h : ∀ row ∈ order, row < n) {i row : Nat}
    (hrow : order[i]? = some row) : (f.pick order).record i = f.record row := by
  rw [record, record, pick, List.map_map]
  apply List.map_congr_left
  intro c hc
  have hlt : ∀ row ∈ order, row < c.2.cells.length := by
    rwa [Column.length_cells, heven c hc]
  simp [Column.cells_pick, getElem?_pick hlt, hrow]

/-- Picking all rows in some order permutes the rows. -/
lemma records_pick_perm (heven : f.Even n) (hne : f.columns ≠ [])
    (hperm : order.Perm (List.range n)) : (f.pick order).records.Perm f.records := by
  have hlt : ∀ row ∈ order, row < n := fun row hrow => List.mem_range.mp (hperm.mem_iff.mp hrow)
  have hne' : (f.pick order).columns ≠ [] := by simpa [pick] using hne
  have hrecords : (f.pick order).records = order.map f.record := by
    rw [records, rows_of_even (even_pick heven hlt) hne']
    apply List.ext_getElem
    · simp
    · intro i hi hi'
      have hlength : i < order.length := by simpa using hi'
      have hrow : order[i]? = some order[i] := List.getElem?_eq_getElem hlength
      simpa using record_pick heven hlt hrow
  rw [hrecords, records, rows_of_even heven hne]
  exact hperm.map f.record

lemma appendColumns_pick (cs : List (String × Column)) (rows more : List Nat) :
    appendColumns (cs.map fun c => (c.1, c.2.pick rows)) (cs.map fun c => (c.1, c.2.pick more))
      = (.ok (), cs.map fun c => (c.1, c.2.pick (rows ++ more))) := by
  induction cs with
  | nil => rfl
  | cons c cs ih => simp [appendColumns, Column.append_pick, ih]

/-- Rows of one frame go after other rows of it. -/
lemma append_pick (hne : f.columns ≠ []) (rows more : List Nat) :
    (f.pick rows).append (f.pick more) = (.ok (), f.pick (rows ++ more)) := by
  simp [append, pick, hne, names, appendColumns_pick, Function.comp_def]

end Frame

/-! ### Part by part -/

namespace Source

variable {parts : Nat} {ids : List Int} {idColumn : String} {f : Frame} {n : Nat}

/-- The positions of the ids of a part. -/
def partRows (parts : Nat) (ids : List Int) (part : Nat) : List Nat :=
  (ids.zipIdx.filter fun p => p.1 % (parts : Int) = part).map (·.2)

/-- The rows of a part, gathered and appended to those of the parts before. -/
def gatherPart (parts : Nat) (ids : List Int) (f out : Frame) (part : Nat) :
    Except GraphError Frame :=
  if partRows parts ids part = [] then .ok out
  else do
    let (outcome, next) := out.append (← f.take (partRows parts ids part))
    outcome
    pure next

/-- The rows of a frame, gathered part after part. A frame of which nothing is gathered is handed
back as it is. -/
def gatherParts (idColumn : String) (parts : Nat) (f : Frame) : Except GraphError Frame := do
  match (← f.column idColumn).ints? with
  | some ids =>
    let out ← (List.range parts).foldlM (gatherPart parts ids f) {}
    pure (if out.columns.isEmpty then f else out)
  | none => throw (.notIntegers idColumn)

lemma flatMap_filter_of_nil {α β : Type} {p : α → Bool} {g : α → List β} {as : List α}
    (h : ∀ a ∈ as, ¬ p a → g a = []) : (as.filter p).flatMap g = as.flatMap g := by
  induction as with
  | nil => rfl
  | cons a as ih =>
    have hrest := ih fun b hb => h b (List.mem_cons_of_mem a hb)
    by_cases hp : p a
    · simp [hp, hrest]
    · simp [hp, hrest, h a List.mem_cons_self hp]

/-- Going through the parts that occur is going through all parts. -/
lemma partOrder_eq_flatMap (hparts : 1 ≤ parts) (ids : List Int) :
    partOrder parts ids = (List.range parts).flatMap (partRows parts ids) := by
  let residues := ids.map (· % (parts : Int))
  let all : List Int := (List.range parts).map (↑)
  have hresidues : (ids.zipIdx.map fun p => (p.1 % (parts : Int), p.2)).map (·.1) = residues := by
    have hfst : (fun p : Int × Nat => p.1 % (parts : Int)) = (· % (parts : Int)) ∘ Prod.fst := rfl
    rw [List.map_map, Function.comp_def, hfst, ← List.map_map, List.zipIdx_map_fst]
  have hall : ∀ r, r ∈ residues → r ∈ all := by
    intro r hr
    obtain ⟨id, -, rfl⟩ := List.mem_map.mp hr
    have hnonneg : 0 ≤ id % (parts : Int) := Int.emod_nonneg _ (by omega)
    have hlt : id % (parts : Int) < parts := Int.emod_lt_of_pos _ (by omega)
    exact List.mem_map.mpr
      ⟨(id % (parts : Int)).toNat, List.mem_range.mpr (by omega), by simp [hnonneg]⟩
  have hkeys : Ascending.ofList residues = all.filter (· ∈ residues) := by
    apply (Ascending.pairwise_ofList _).eq_of_mem_iff
    · apply List.Pairwise.filter
      rw [List.pairwise_map]
      exact List.pairwise_lt_range.imp fun h => by exact_mod_cast h
    · intro r
      rw [Ascending.mem_ofList, List.mem_filter, decide_eq_true_eq]
      exact ⟨fun hr => ⟨hall r hr, hr⟩, And.right⟩
  -- the other parts have no rows, so it does no harm to go through them as well
  rw [partOrder, hresidues, hkeys, flatMap_filter_of_nil]
  · rw [List.flatMap_map]
    apply List.flatMap_congr
    intro part _
    rw [List.filter_map, List.map_map]
    rfl
  · intro r _ hr
    simp only [decide_eq_true_eq] at hr
    rw [← hresidues] at hr
    simp only [List.map_eq_nil_iff, List.filter_eq_nil_iff, decide_eq_true_eq]
    intro p hp heq
    exact hr (List.mem_map.mpr ⟨p, hp, heq⟩)

/-- After some parts, their rows are gathered. -/
lemma foldlM_gatherPart (hne : f.columns ≠ []) (heven : f.Even ids.length) (gone : List Nat) :
    gone.foldlM (gatherPart parts ids f) {}
      = .ok (if gone.flatMap (partRows parts ids) = [] then {}
        else f.pick (gone.flatMap (partRows parts ids))) := by
  have hlt : ∀ part, ∀ row ∈ partRows parts ids part, row < ids.length := by
    intro part row hrow
    obtain ⟨p, hp, rfl⟩ := List.mem_map.mp hrow
    have hat := List.mem_zipIdx_iff_getElem?.mp (List.mem_filter.mp hp).1
    exact (List.getElem?_eq_some_iff.mp hat).1
  induction gone using List.reverseRecOn with
  | nil => rfl
  | append_singleton gone part ih =>
    rw [List.foldlM_append, ih, ok_bind, List.foldlM_cons]
    simp only [List.foldlM_nil, bind_pure, List.flatMap_append, List.flatMap_singleton]
    rw [gatherPart]
    -- a part without rows is passed over, and the first part with rows replaces the empty frame
    by_cases hpart : partRows parts ids part = []
    · simp [hpart]
    · have htake := Frame.take_eq_pick heven (hlt part)
      by_cases hgone : gone.flatMap (partRows parts ids) = []
      · simp only [hpart, hgone, htake, ↓reduceIte, ok_bind, List.nil_append]
        rfl
      · simp only [hpart, hgone, htake, ↓reduceIte, ok_bind, List.append_eq_nil_iff, and_self,
          Frame.append_pick hne]
        rfl

/-- Gathering part after part gives the rows in the order of their parts. -/
lemma gatherParts_eq_arrange (hpos : 1 ≤ parts) (hparts : parts < 2 ^ 63)
    (hcolumn : f.column idColumn = .ok (.int64 ids)) (heven : f.Even ids.length) :
    gatherParts idColumn parts f = arrange idColumn parts f := by
  obtain ⟨other, hmem⟩ := Frame.mem_of_column hcolumn
  have hne : f.columns ≠ [] := List.ne_nil_of_mem hmem
  have hlt : ∀ row ∈ partOrder parts ids, row < ids.length := fun row hrow =>
    List.mem_range.mp ((partOrder_perm parts ids).mem_iff.mp hrow)
  rw [gatherParts, arrange, hcolumn, ok_bind, ok_bind]
  simp only [Column.ints?]
  rw [if_pos (show parts < 0x8000000000000000 from hparts), Frame.take_eq_pick heven hlt,
    foldlM_gatherPart hne heven, ok_bind, ← partOrder_eq_flatMap hpos]
  by_cases hnil : partOrder parts ids = []
  · -- without rows nothing is gathered, and the frame is already all that arranging makes of it
    have hids : ids.length = 0 := by simpa [hnil] using (partOrder_perm parts ids).length_eq.symm
    have hall : f.pick [] = f := by simpa [hids] using Frame.pick_range heven
    simp [hnil, hall]
  · simp [hnil, Frame.pick, hne]

/-- One id comes before another part by part. -/
def Precedes (parts : Nat) (a b : Int) : Prop :=
  a % (parts : Int) < b % (parts : Int) ∨ a % (parts : Int) = b % (parts : Int) ∧ a < b

/-- Ascending ids in the order of their parts. -/
lemma pairwise_precedes (parts : Nat) (h : ids.Pairwise (· < ·)) :
    (pick ids (partOrder parts ids)).Pairwise (Precedes parts) := by
  have hgroups : pick ids (partOrder parts ids) = Sorting.groups (· % (parts : Int))
      (Ascending.ofList (ids.map (· % (parts : Int)))) ids := by
    have hsort := pick_partOrder parts id ids
    rw [List.map_id] at hsort
    rw [← Sorting.sort_by_key]
    exact hsort
  rw [hgroups, Sorting.groups, List.pairwise_flatMap]
  constructor
  · intro part _
    apply (h.filter _).imp_of_mem
    intro a b ha hb hab
    have hpart : a % (parts : Int) = part := by simpa using (List.mem_filter.mp ha).2
    have hpart' : b % (parts : Int) = part := by simpa using (List.mem_filter.mp hb).2
    exact .inr ⟨hpart.trans hpart'.symm, hab⟩
  · apply (Ascending.pairwise_ofList _).imp
    intro part part' hlt a ha b hb
    have hpart : a % (parts : Int) = part := by simpa using (List.mem_filter.mp ha).2
    have hpart' : b % (parts : Int) = part' := by simpa using (List.mem_filter.mp hb).2
    exact .inl (by rwa [hpart, hpart'])

example : pick [-4, -1, 0, 2, 3] (partOrder 3 [-4, -1, 0, 2, 3]) = [0, 3, -4, -1, 2] := by decide

/-- A frame has the rows of another part by part, each once and whole, under the same columns. -/
structure Arranged (idColumn : String) (parts : Nat) (f f' : Frame) : Prop where
  schema : f'.schema = f.schema
  level : f'.Level
  records : f'.records.Perm f.records
  ordered : ∃ ids, f'.column idColumn = .ok (.int64 ids) ∧ ids.Pairwise (Precedes parts)
  gathered : gatherParts idColumn parts f = .ok f'

lemma arranged_of_arrange (hpos : 1 ≤ parts) (hparts : parts < 2 ^ 63)
    (hcolumn : f.column idColumn = .ok (.int64 ids)) (hasc : ids.Pairwise (· < ·))
    (heven : f.Even ids.length) :
    ∃ f', arrange idColumn parts f = .ok f' ∧ Arranged idColumn parts f f' := by
  obtain ⟨harrange, hshuffled⟩ :=
    shuffled_of_arrange hparts hcolumn (hasc.imp ne_of_lt) heven
  refine ⟨_, harrange, Frame.schema_pick _ _, ?_, ?_, ?_, ?_⟩
  · exact (Frame.even_pick heven hshuffled.order_lt).level
  · exact Frame.records_pick_perm heven hshuffled.columns_ne_nil hshuffled.perm
  · exact ⟨_, by rw [Frame.column_pick, hcolumn]; rfl, pairwise_precedes parts hasc⟩
  · rw [gatherParts_eq_arrange hpos hparts hcolumn heven, harrange]

end Source

/-! ### Handles -/

namespace Source

variable {idColumn : String} {parts : Nat} {q : Query}
variable {fetch : Graph → Query → Except GraphError Frame}

/-- A handle that waits for its fetch. Forcing it is counted, whatever comes of it, and gives the
rows of the fetch on the tables of that moment part by part, or the error of the fetch there. -/
structure Awaits (idColumn : String) (parts : Nat) (fetch : Graph → Query → Except GraphError Frame)
    (q : Query) (d : DelayedFrame) : Prop where
  pending : d.isReady = false
  counts : ∀ host, (d.force.run.run host).2 = { host with forced := host.forced + 1 }
  yields : ∀ host,
    OutcomesAgree (Arranged idColumn parts) (fetch host.graph q) (d.force.run.run host).1

/-- Asking for rows leaves the host alone and gives the same handle on every host. -/
def Delays (idColumn : String) (parts : Nat) (fetch : Graph → Query → Except GraphError Frame)
    (delayed : Graph → Query → Except GraphError DelayedFrame) (q : Query) : Prop :=
  ∃ d, (∀ host, (startFetch delayed q).runOn host = (.ok d, host)) ∧
    Awaits idColumn parts fetch q d

/-- A fetch of rows with ascending ids is delayed as the rows part by part. -/
lemma delays_of_ascending {delayed : Graph → Query → Except GraphError DelayedFrame}
    (hpos : 1 ≤ parts) (hparts : parts < 2 ^ 63)
    (hdelayed : ∀ g, delayed g q = .ok (delay idColumn parts (fetch · q)))
    (hfetch : ∀ g f, fetch g q = .ok f → ∃ ids, f.column idColumn = .ok (.int64 ids) ∧
      ids.Pairwise (· < ·) ∧ f.Even ids.length) :
    Delays idColumn parts fetch delayed q := by
  refine ⟨delay idColumn parts (fetch · q), ?_, rfl, fun _ => rfl, ?_⟩
  · intro host
    rw [runOn_startFetch, hdelayed host.graph]
    rfl
  · intro host
    change OutcomesAgree _ _ ((fetch host.graph q).bind (arrange idColumn parts))
    cases hf : fetch host.graph q with
    | error e => rfl
    | ok f =>
      obtain ⟨ids, hcolumn, hasc, heven⟩ := hfetch host.graph f hf
      obtain ⟨f', harrange, harranged⟩ := arranged_of_arrange hpos hparts hcolumn hasc heven
      simp only [Except.bind, harrange]
      exact harranged

/-- The fetches of a source over parts are delayed permutations of those at once. -/
theorem fetches_delayed (hpos : 1 ≤ parts) (hparts : parts < 2 ^ 63) (q : Query) :
    Delays Graph.vertexColumn parts Graph.fetchVertices (partitioned parts).fetchVertices q ∧
      Delays Graph.edgeIdColumn parts Graph.fetchEdges (partitioned parts).fetchEdges q := by
  have hmax : max parts 1 = parts := max_eq_left hpos
  constructor
  · apply delays_of_ascending hpos hparts
    · intro g
      simp only [partitioned, hmax]
    · intro g f hf
      obtain ⟨hcolumn, -, heven⟩ := Graph.fetchVertices_eq_ok hf
      have hasc : (g.vertexRows q).Pairwise (·.1 < ·.1) := (Graph.pairwise_rowsWithIds _ _).filter _
      exact ⟨_, hcolumn, List.pairwise_map.mpr hasc, by simpa using heven⟩
  · apply delays_of_ascending hpos hparts
    · intro g
      simp only [partitioned, hmax]
    · intro g f hf
      obtain ⟨hcolumn, -, -, heven⟩ := Graph.fetchEdges_eq_ok hf
      have hasc : (g.edgeRows q).Pairwise (·.1 < ·.1) := (Graph.pairwise_rowsWithIds _ _).filter _
      exact ⟨_, hcolumn, List.pairwise_map.mpr hasc, by simpa using heven⟩

/-- Fetching everything over three parts. -/
theorem fetches_delayed_three : 1 ≤ 3 ∧ 3 < 2 ^ 63 ∧
    Delays Graph.vertexColumn 3 Graph.fetchVertices (partitioned 3).fetchVertices {} ∧
    Delays Graph.edgeIdColumn 3 Graph.fetchEdges (partitioned 3).fetchEdges {} :=
  ⟨by decide, by decide, fetches_delayed (by decide) (by decide) {}⟩

end Source

end TypedGraph
