import TypedGraph.Proofs.Building
import TypedGraph.Proofs.Partition

/-!
# Building over parts

A plain source and a partitioned one answer a fetch with the same rows in two orders (`Shuffled`).
Nothing that a construction reads off a frame depends on the order, so stores over the two sources
are built alike, or fail alike (`build_agree`).
-/

namespace TypedGraph

open Traversal TypedGraph.Action

/-! ### Shuffled frames -/

/-- A frame of rows under distinct ids, and the frame with its rows in another order. -/
structure Shuffled (idColumn : String) (ids : List Int) (order : List Nat) (f f' : Frame) :
    Prop where
  column : f.column idColumn = .ok (.int64 ids)
  nodup : ids.Nodup
  even : f.Even ids.length
  perm : order.Perm (List.range ids.length)
  eq : f' = f.pick order

namespace Shuffled

variable {idColumn name : String} {ids : List Int} {order : List Nat} {f f' : Frame}

lemma order_lt (h : Shuffled idColumn ids order f f') : ∀ row ∈ order, row < ids.length := by
  intro row hrow
  exact List.mem_range.mp (h.perm.mem_iff.mp hrow)

lemma columns_ne_nil (h : Shuffled idColumn ids order f f') : f.columns ≠ [] := by
  obtain ⟨other, hmem⟩ := Frame.mem_of_column h.column
  exact List.ne_nil_of_mem hmem

lemma length_column (h : Shuffled idColumn ids order f f') {c : Column}
    (hc : f.column name = .ok c) : c.length = ids.length := by
  obtain ⟨other, hmem⟩ := Frame.mem_of_column hc
  exact h.even (other, c) hmem

/-- Both frames have the same number of rows. -/
lemma rows_eq (h : Shuffled idColumn ids order f f') : f'.rows = f.rows := by
  have heven : (f.pick order).Even order.length := Frame.even_pick h.even h.order_lt
  have hne : (f.pick order).columns ≠ [] := by simpa [Frame.pick] using h.columns_ne_nil
  rw [h.eq, Frame.rows_of_even heven hne, Frame.rows_of_even h.even h.columns_ne_nil,
    h.perm.length_eq, List.length_range]

lemma column_eq (h : Shuffled idColumn ids order f f') (name : String) :
    f'.column name = (·.pick order) <$> f.column name := by
  rw [h.eq, Frame.column_pick]

/-- The cells of a column are the same up to their order. -/
lemma pick_perm (h : Shuffled idColumn ids order f f') {α : Type} {xs : List α}
    (hlen : xs.length = ids.length) : (pick xs order).Perm xs :=
  TypedGraph.pick_perm (by rw [hlen]; exact h.perm)

end Shuffled

/-! ### Fetching -/

/-- Frames of the same rows, in some two orders. -/
def SameRows (idColumn : String) (f f' : Frame) : Prop :=
  ∃ ids order, Shuffled idColumn ids order f f'

lemma shuffled_of_arrange {idColumn : String} {parts : Nat} (hparts : parts < 2 ^ 63) {f : Frame}
    {ids : List Int} (hcolumn : f.column idColumn = .ok (.int64 ids)) (hnodup : ids.Nodup)
    (heven : f.Even ids.length) :
    Source.arrange idColumn parts f = .ok (f.pick (Source.partOrder parts ids)) ∧
      Shuffled idColumn ids (Source.partOrder parts ids) f
        (f.pick (Source.partOrder parts ids)) := by
  have hshuffled : Shuffled idColumn ids (Source.partOrder parts ids) f
      (f.pick (Source.partOrder parts ids)) :=
    ⟨hcolumn, hnodup, heven, Source.partOrder_perm parts ids, rfl⟩
  refine ⟨?_, hshuffled⟩
  rw [Source.arrange, hcolumn, ok_bind]
  simp only [Column.ints?]
  rw [if_pos (show parts < 0x8000000000000000 from hparts)]
  exact Frame.take_eq_pick heven hshuffled.order_lt

section Fetch

variable {g : Graph} {parts : Nat}

lemma max_one_lt (hparts : parts < 2 ^ 63) : max parts 1 < 2 ^ 63 :=
  max_lt hparts (by norm_num)

/-- A fetch that is delayed and spread over parts gives the rows of the fetch at once. -/
lemma ofFetch_agree {idColumn : String} {fetch : Graph → Query → Except GraphError Frame}
    {q : Query} {P : Frame → Frame → Prop} {parts : Nat}
    (hfetch : ∀ f, fetch g q = .ok f → ∃ f', Source.arrange idColumn parts f = .ok f' ∧ P f f') :
    Agree (BothOn g) P (ofFetch (fun g q => .ready <$> fetch g q) q)
      (ofFetch (fun _ q => .ok (Source.delay idColumn parts (fetch · q))) q) := by
  rintro host host' ⟨rfl, hhost'⟩
  rw [runOn_ofFetch_ready, runOn_ofFetch_delay, hhost']
  refine ⟨?_, rfl, rfl⟩
  cases hf : fetch host.graph q with
  | error e => rfl
  | ok f =>
    obtain ⟨f', harrange, hP⟩ := hfetch f hf
    simp only [Except.bind, harrange]
    exact hP

lemma fetchVertices_agree (hparts : parts < 2 ^ 63) (q : Query) :
    Agree (BothOn g) (SameRows Graph.vertexColumn) (ofFetch Source.plain.fetchVertices q)
      (ofFetch (Source.partitioned parts).fetchVertices q) := by
  apply ofFetch_agree
  intro f hf
  obtain ⟨hcolumn, -, heven⟩ := Graph.fetchVertices_eq_ok hf
  obtain ⟨harrange, hshuffled⟩ := shuffled_of_arrange (max_one_lt hparts) hcolumn
    (Graph.nodup_vertexRows g q) (by rwa [List.length_map])
  exact ⟨_, harrange, _, _, hshuffled⟩

/-- Edges are handed out by both sources, and the order of a partitioned one is known. -/
lemma fetchEdges_agree (hparts : parts < 2 ^ 63) (q : Query) :
    Agree (BothOn g)
      (fun f f' => g.fetchEdges q = .ok f ∧ Shuffled Graph.edgeIdColumn ((g.edgeRows q).map (·.1))
        (Source.partOrder (max parts 1) ((g.edgeRows q).map (·.1))) f f')
      (ofFetch Source.plain.fetchEdges q) (ofFetch (Source.partitioned parts).fetchEdges q) := by
  apply ofFetch_agree
  intro f hf
  obtain ⟨hcolumn, -, -, heven⟩ := Graph.fetchEdges_eq_ok hf
  obtain ⟨harrange, hshuffled⟩ := shuffled_of_arrange (max_one_lt hparts) hcolumn
    (Graph.nodup_edgeRows g q) (by rwa [List.length_map])
  exact ⟨_, harrange, hf, hshuffled⟩

end Fetch

/-! ### Edge catalogs -/

namespace EdgeCatalog

variable {g : Graph} {parts : Nat} {idColumn : String} {f f' : Frame}

/-- The distinct integers of a column do not depend on the order of the rows. -/
lemma distinctIds_eq (h : SameRows idColumn f f') (column : String) :
    distinctIds f' column = distinctIds f column := by
  obtain ⟨ids, order, h⟩ := h
  rw [distinctIds, distinctIds, h.column_eq]
  cases hc : f.column column with
  | error e => rfl
  | ok c =>
    cases c with
    | int64 xs =>
      have hperm : (pick xs order).Perm xs := h.pick_perm (h.length_column hc)
      have hsame : Ascending.ofList (pick xs order) = Ascending.ofList xs :=
        Ascending.ofList_congr fun x => hperm.mem_iff
      show (pure (Ascending.ofList (pick xs order)) : Action (List Int))
        = pure (Ascending.ofList xs)
      rw [hsame]
    | float64 xs => rfl
    | utf8 xs => rfl

lemma endType_agree (hparts : parts < 2 ^ 63) (edge : String) (side : EdgeEnd) (ids : List Int) :
    Agree (BothOn g) Eq (endType .plain edge side ids)
      (endType (.partitioned parts) edge side ids) := by
  refine .bind (fetchVertices_agree hparts _) ?_
  rintro f f' ⟨ids', order, h⟩
  have hcolumn : f'.column Graph.typeColumn = (·.pick order) <$> f.column Graph.typeColumn :=
    h.column_eq _
  show Agree _ _ (ofGraph (f.column Graph.typeColumn) >>= _)
    (ofGraph (f'.column Graph.typeColumn) >>= _)
  rw [hcolumn]
  cases hc : f.column Graph.typeColumn with
  | error e => exact .throw (.graph e)
  | ok c =>
    cases c with
    | utf8 ts =>
      -- the rows come in another order, which the set of the types does not show
      have hperm : (pick ts order).Perm ts := h.pick_perm (h.length_column hc)
      have hsame : Ascending.ofList (pick ts order) = Ascending.ofList ts :=
        Ascending.ofList_congr fun t => hperm.mem_iff
      show Agree (BothOn g) Eq
        (.ofExcept ((oneType edge side (Ascending.ofList ts)).mapError .construction))
        (.ofExcept ((oneType edge side (Ascending.ofList (pick ts order))).mapError .construction))
      rw [hsame]
      exact .ofExcept (.of_eq (fun _ => rfl) _)
    | int64 xs => exact .throw _
    | float64 xs => exact .throw _

lemma distinctIds_agree (f : Frame) (column : String) :
    Agree (BothOn g) Eq (distinctIds f column) (distinctIds f column) := by
  rw [distinctIds]
  refine .bind (.ofExcept (.of_eq (fun _ => rfl) _)) ?_
  rintro c _ rfl
  cases c.ints? with
  | some ids => exact .pure rfl
  | none => exact .throw _

lemma inspect_agree (hparts : parts < 2 ^ 63) (edge : String) :
    Agree (BothOn g) Eq (inspect .plain edge) (inspect (.partitioned parts) edge) := by
  refine .bind (fetchEdges_agree hparts _) ?_
  rintro f f' ⟨-, h⟩
  have hsame : SameRows Graph.edgeIdColumn f f' := ⟨_, _, h⟩
  rw [h.rows_eq]
  split
  · exact .throw _
  rw [distinctIds_eq hsame, distinctIds_eq hsame]
  refine .bind (distinctIds_agree f _) ?_
  rintro sources _ rfl
  refine .bind (distinctIds_agree f _) ?_
  rintro destinations _ rfl
  refine .bind (endType_agree hparts edge .source sources) ?_
  rintro sourceType _ rfl
  refine .bind (endType_agree hparts edge .destination destinations) ?_
  rintro destinationType _ rfl
  exact .pure rfl

lemma addTypes_agree (hparts : parts < 2 ^ 63) (types : List (Option String))
    (c : EdgeCatalog) :
    Agree (BothOn g) Eq (addTypes .plain types c) (addTypes (.partitioned parts) types c) := by
  induction types generalizing c with
  | nil => exact .pure rfl
  | cons type types ih =>
    cases type with
    | none => exact .throw _
    | some edge =>
      refine .bind (inspect_agree hparts edge) ?_
      rintro e _ rfl
      exact ih _

/-- Both sources give the same catalog of edge types, or fail alike. -/
lemma build_agree (hparts : parts < 2 ^ 63) :
    Agree SameTables Eq (build .plain) (build (.partitioned parts)) := by
  refine .of_bothOn ?_
  intro g
  refine .bind .get ?_
  rintro host host' ⟨hhost, hhost'⟩
  show Agree _ _ (addTypes .plain (Graph.edgeTypes host.graph) {})
    (addTypes (.partitioned parts) (Graph.edgeTypes host'.graph) {})
  rw [hhost, hhost']
  exact addTypes_agree hparts _ _

end EdgeCatalog

/-! ### Stores -/

namespace Store

variable {parts : Nat}

/-- A store over another source. -/
def onSource (s : Store) (source : Source) : Store := { s with source }

lemma makeOffsets_agree (policy : IdPolicy) :
    Agree SameTables Eq (makeOffsets .plain policy) (makeOffsets (.partitioned parts) policy) := by
  have hrenumber (old : Option String × Option String) :
      Agree SameTables Eq (renumber .plain old) (renumber (.partitioned parts) old) := by
    refine .bind (.change _) ?_
    rintro ranges _ rfl
    refine .bind (.change _) ?_
    rintro edgeRanges _ rfl
    exact .ofExcept (.of_eq (fun _ => rfl) _)
  cases policy with
  | auto => exact hrenumber _
  | renumber => exact hrenumber _
  | keep =>
    refine .bind .get ?_
    rintro ⟨g, forced⟩ ⟨_, forced'⟩ hhost
    obtain rfl : g = _ := hhost
    refine .bind (.ofExcept (.of_eq (fun _ => rfl) _)) ?_
    rintro counts _ rfl
    exact .pure rfl

/-- Over a partitioned source a store is built as over a plain one, or fails alike. -/
theorem build_agree (hparts : parts < 2 ^ 63) (served : Device) (config : Config) :
    Agree SameTables (fun s s' => s' = s.onSource (.partitioned parts)) (build .plain served config)
      (build (.partitioned parts) served config) := by
  refine .bind .get ?_
  rintro ⟨g, forced⟩ ⟨_, forced'⟩ hhost
  obtain rfl : g = _ := hhost
  refine .bind (.ofExcept (.of_eq (fun _ => rfl) _)) ?_
  rintro - - -
  refine .bind (makeOffsets_agree config.policy) ?_
  rintro offsets _ rfl
  refine .bind (EdgeCatalog.build_agree hparts) ?_
  rintro edges _ rfl
  exact .pure rfl

end Store

end TypedGraph
