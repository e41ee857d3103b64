import TypedGraph.Proofs.EdgeRefinement
import TypedGraph.Proofs.Narrowing

/-!
# Widths of ids

Stores that differ only in how wide their ids are. The one with 32 bits gives what the one with 64
bits gives, integer by integer, where every id fits. Where one does not fit it fails, naming such an
id, and never tells another one instead (`ids_narrow`).
-/

namespace TypedGraph

open Traversal TypedGraph.Action

/-- The error of a store that names an id that 32 bits do not hold. -/
def StoreError.Blames (id : Int) (e : StoreError) : Prop :=
  ∃ cause : TensorError, cause.Blames id ∧ e = .tensor cause

lemma blames_tensor {id : Int} {cause : TensorError} (h : cause.Blames id) :
    StoreError.Blames id (.tensor cause) :=
  ⟨cause, h, rfl⟩

namespace EdgeIndex

/-- The ids of both ends of the edges. -/
def ids (e : EdgeIndex) : List Int := e.source.ids ++ e.destination.ids

structure Narrowed (a b : EdgeIndex) : Prop where
  source : a.source.Narrowed b.source
  destination : a.destination.Narrowed b.destination
  layout : b.layout = a.layout
  sorted : b.sorted = a.sorted

end EdgeIndex

/-- Maps with the same keys that have wide and narrow tensors under them. -/
structure NarrowedMaps (m n : SortedMap EdgeTriple Tensor) : Prop where
  keys : n.keys = m.keys
  values : ∀ triple t, m.get? triple = some t → ∃ u, n.get? triple = some u ∧ t.Narrowed u

namespace Store.LocalEdges

/-- The ids under all triples. -/
def ids (e : LocalEdges) : List Int :=
  (e.sources.values ++ e.destinations.values).flatMap Tensor.ids

structure Narrowed (a b : LocalEdges) : Prop where
  sources : NarrowedMaps a.sources b.sources
  destinations : NarrowedMaps a.destinations b.destinations

lemma mem_ids_ofTypes {ls : List LocalType} (hdistinct : ls.Pairwise (·.1 ≠ ·.1)) {id : Int} :
    id ∈ (LocalEdges.ofTypes ls).ids ↔ id ∈ ls.flatMap fun l => l.2.1.ids ++ l.2.2.ids := by
  have hvalues (f : LocalType → Tensor) (t : Tensor) :
      t ∈ (SortedMap.ofList (ls.map fun l => (l.1, f l))).values ↔ ∃ l ∈ ls, f l = t := by
    have hperm := SortedMap.entries_ofList_perm (List.pairwise_map.mpr hdistinct :
      (ls.map fun l => (l.1, f l)).Pairwise (·.1 ≠ ·.1))
    rw [SortedMap.values, (hperm.map (·.2)).mem_iff, List.map_map, List.mem_map]
    rfl
  simp only [ids, ofTypes, List.mem_flatMap, List.mem_append, hvalues]
  constructor
  · rintro ⟨_, ⟨l, hl, rfl⟩ | ⟨l, hl, rfl⟩, hid⟩
    · exact ⟨l, hl, .inl hid⟩
    · exact ⟨l, hl, .inr hid⟩
  · rintro ⟨l, hl, hid | hid⟩
    · exact ⟨_, .inl ⟨l, hl, rfl⟩, hid⟩
    · exact ⟨_, .inr ⟨l, hl, rfl⟩, hid⟩

end Store.LocalEdges

namespace Store

/-- Stores that have the same of everything that ids are told from, and tell them in 64 bits and in
32 bits. -/
structure Twins (wide narrow : Store) : Prop where
  source : narrow.source = wide.source
  device : narrow.device = wide.device
  offsets : narrow.offsets = wide.offsets
  edges : narrow.edges = wide.edges
  int64 : wide.config.vertexDType = .int64
  int32 : narrow.config.vertexDType = .int32
  named : wide.edges.IsNamed

variable {wide narrow : Store} {d : EdgeDescriptor} {t : Tensor}

/-! ### Building -/

/-- Building with either width fails alike, or gives stores that differ only in it, and leaves the
same behind. -/
lemma build_twins (source : Source) (served : Device) (config : Config) :
    Agree Eq Twins (build source served { config with vertexDType := .int64 })
      (build source served { config with vertexDType := .int32 }) := by
  have hself {α : Type} (x : Action α) : Agree Eq Eq x x := by
    rintro host _ rfl
    exact ⟨.of_eq (fun _ => rfl) _, rfl⟩
  have hedges : Agree Eq (fun c c' => c' = c ∧ c.IsNamed) (EdgeCatalog.build source)
      (EdgeCatalog.build source) := by
    rintro host _ rfl
    refine ⟨?_, rfl⟩
    cases hbuild : ((EdgeCatalog.build source).runOn host).1 with
    | error e => rfl
    | ok c => exact ⟨rfl, EdgeCatalog.isNamed_of_build (Prod.ext hbuild rfl)⟩
  rw [build, build]
  refine (hself get).bind ?_
  rintro host _ rfl
  refine (hself _).bind ?_
  rintro _ _ -
  refine (hself _).bind ?_
  rintro offsets _ rfl
  refine hedges.bind ?_
  rintro edges _ ⟨rfl, hnamed⟩
  exact .pure ⟨rfl, rfl, rfl, rfl, rfl, rfl, hnamed⟩

/-! ### Accessors in steps -/

section Steps

variable (s : Store)

/-- The ids from one number up to another, in the width of the store. -/
def rangePart (start stop : Int) : Except StoreError Tensor :=
  (Tensor.arange start stop s.config.vertexDType).mapError .tensor

/-- The ids of the vertices of a type. -/
def vertexPart (type : String) : Except StoreError Tensor := do
  let r ← s.offsets.rangeOf type
  s.rangePart r.start r.stop

/-- Parts to join, of which there has to be one. -/
def someParts (parts : List Tensor) : Except StoreError (List Tensor) :=
  if parts.isEmpty then List.singleton <$> s.rangePart 0 0 else .ok parts

def joinParts (parts : List Tensor) : Except StoreError Tensor :=
  (·.on s.device) <$> (Tensor.join parts).mapError .tensor

lemma ids_joinParts {parts : List Tensor} (h : s.joinParts parts = .ok t) :
    t.ids = parts.flatMap Tensor.ids := by
  obtain ⟨joined, hjoined, rfl⟩ := map_eq_ok_iff.mp h
  rw [mapError_eq_ok_iff] at hjoined
  change joined.ids = _
  exact Tensor.ids_join hjoined

lemma vertexIndex_eq (types : List String) :
    s.vertexIndex types
      = types.mapM s.vertexPart >>= fun parts => s.someParts parts >>= s.joinParts := by
  rw [vertexIndex]
  congr 1
  funext parts
  rw [someParts]
  split <;> rfl

/-- The ends of edges side by side. -/
def pairEnds (d : EdgeDescriptor) (source destination : Tensor) : Except StoreError EdgeIndex :=
  if source.rows = destination.rows then .ok ⟨source, destination, d.layout, d.sorted⟩
  else .error (.shapeMismatch (.edges d.key source.rows destination.rows))

lemma pairEnds_eq_ok_iff {source destination : Tensor} {e : EdgeIndex} :
    pairEnds d source destination = .ok e ↔
      source.rows = destination.rows ∧ ⟨source, destination, d.layout, d.sorted⟩ = e := by
  rw [pairEnds]
  split_ifs with hrows <;> simp [hrows]

/-- An edge index as it is read off a frame. -/
def indexFrom (d : EdgeDescriptor) (f : Frame) : Except StoreError EdgeIndex := do
  let (c, f) ← (f.takeColumn s.source.columns.source).mapError .graph
  let source ← (Tensor.ofColumn c).mapError .tensor
  let (c, _) ← (f.takeColumn s.source.columns.destination).mapError .graph
  let destination ← (Tensor.ofColumn c).mapError .tensor
  let source ← (s.placeIds source).mapError .tensor
  pairEnds d source (← (s.placeIds destination).mapError .tensor)

lemma runOn_readIndex_eq (d : EdgeDescriptor) (f : Frame) (host : Host) :
    (s.readIndex d f).runOn host = (s.indexFrom d f, host) := by
  refine runOn_ofExcept_bind fun _ => runOn_ofExcept_bind fun _ => runOn_ofExcept_bind fun _ =>
    runOn_ofExcept_bind fun _ => runOn_ofExcept_bind fun source =>
    runOn_ofExcept_bind fun destination => ?_
  by_cases hrows : source.rows = destination.rows <;> simp [pairEnds, hrows]

end Steps

namespace Twins

/-! ### Vertices -/

lemma rangePart (h : Twins wide narrow) (start stop : Int) :
    Narrows StoreError.Blames Tensor.ids Tensor.Narrowed (wide.rangePart start stop)
      (narrow.rangePart start stop) := by
  rw [Store.rangePart, Store.rangePart, h.int64, h.int32]
  exact (Tensor.arange_narrows start stop).mapError fun id e => blames_tensor

lemma vertexPart (h : Twins wide narrow) (type : String) :
    Narrows StoreError.Blames Tensor.ids Tensor.Narrowed (wide.vertexPart type)
      (narrow.vertexPart type) := by
  rw [Store.vertexPart, Store.vertexPart, h.offsets]
  apply Narrows.bind_same
  intro r _
  exact h.rangePart r.start r.stop

lemma someParts (h : Twins wide narrow) {parts parts' : List Tensor}
    (hparts : List.Forall₂ Tensor.Narrowed parts parts')
    (hfits : ∀ id ∈ parts.flatMap Tensor.ids, FitsInt32 id) :
    Narrows StoreError.Blames (·.flatMap Tensor.ids) (List.Forall₂ Tensor.Narrowed)
      (wide.someParts parts) (narrow.someParts parts') := by
  cases hparts with
  | nil =>
    refine (h.rangePart 0 0).map ?_ ?_
    · intro t _ id
      simp [List.singleton]
    · intro t u _ htu
      exact .cons htu .nil
  | cons htu hrest => exact .told hfits (.cons htu hrest)

lemma joinParts (h : Twins wide narrow) {parts parts' : List Tensor}
    (hparts : List.Forall₂ Tensor.Narrowed parts parts')
    (hfits : ∀ id ∈ parts.flatMap Tensor.ids, FitsInt32 id) :
    Narrows StoreError.Blames Tensor.ids Tensor.Narrowed (wide.joinParts parts)
      (narrow.joinParts parts') := by
  rw [Store.joinParts, Store.joinParts, h.device]
  refine ((Tensor.join_narrows hparts hfits).mapError fun id e => blames_tensor).map ?_ ?_
  · intro t _ id
    rfl
  · intro t u _ htu
    exact htu.on wide.device

lemma vertexIndex (h : Twins wide narrow) (types : List String) :
    Narrows StoreError.Blames Tensor.ids Tensor.Narrowed (wide.vertexIndex types)
      (narrow.vertexIndex types) := by
  rw [vertexIndex_eq, vertexIndex_eq]
  refine (Narrows.mapM h.vertexPart types).bind ?_ ?_
  · intro parts index hindex id hid
    obtain ⟨all, hall, hjoin⟩ := bind_eq_ok_iff.mp hindex
    -- only without parts is anything put in their place, and then they tell no ids
    have hne : ¬ parts.isEmpty := by
      intro hnil
      simp [List.isEmpty_iff.mp hnil] at hid
    rw [Store.someParts, if_neg hne] at hall
    obtain rfl := Except.ok.inj hall
    rwa [ids_joinParts _ hjoin]
  · intro parts parts' hfits hparts
    refine (h.someParts hparts hfits).bind ?_ ?_
    · intro all index hindex id hid
      rwa [ids_joinParts _ hindex]
    · intro all all' hfits' hall
      exact h.joinParts hall hfits'

/-! ### Edges -/

/-- Ids are put on the device in either width. -/
lemma placeIds (h : Twins wide narrow) (ht : t.dtype = .int64 ∨ t.dtype = .float64) :
    Narrows StoreError.Blames Tensor.ids Tensor.Narrowed
      ((wide.placeIds t).mapError .tensor) ((narrow.placeIds t).mapError .tensor) := by
  rw [Store.placeIds, Store.placeIds, h.int64, h.int32, h.device]
  refine Narrows.mapError ((Tensor.cast_narrows ht).map ?_ ?_) fun id e => blames_tensor
  · intro a _ id
    rfl
  · intro a b _ hab
    exact hab.on wide.device

lemma indexFrom (h : Twins wide narrow) (d : EdgeDescriptor) (f : Frame) :
    Narrows StoreError.Blames EdgeIndex.ids EdgeIndex.Narrowed (wide.indexFrom d f)
      (narrow.indexFrom d f) := by
  rw [Store.indexFrom, Store.indexFrom, h.source]
  refine .bind_same fun c _ => .bind_same fun source hsource => .bind_same fun c' _ =>
    .bind_same fun destination hdestination => ?_
  rw [mapError_eq_ok_iff] at hsource hdestination
  refine (h.placeIds (Tensor.dtype_of_ofColumn hsource)).bind₂
    (h.placeIds (Tensor.dtype_of_ofColumn hdestination)) ?_ ?_
  · intro a a' e he id
    obtain ⟨-, rfl⟩ := pairEnds_eq_ok_iff.mp he
    exact List.mem_append
  · intro a b a' b' hfits hab hab'
    rw [pairEnds, pairEnds, hab.rows, hab'.rows]
    split_ifs
    · refine .told ?_ ⟨hab, hab', rfl, rfl⟩
      intro id hid
      exact hfits id (List.mem_append.mp hid)
    · exact .refused

lemma fetchIndex (h : Twins wide narrow) (d : EdgeDescriptor) :
    narrow.fetchIndex d = wide.fetchIndex d := by
  rw [Store.fetchIndex, Store.fetchIndex, edgeFilter, edgeFilter, h.source, h.edges]

lemma edgeIndex (h : Twins wide narrow) (d : EdgeDescriptor) (host : Host) :
    Narrows StoreError.Blames EdgeIndex.ids EdgeIndex.Narrowed ((wide.edgeIndex d).runOn host).1
        ((narrow.edgeIndex d).runOn host).1 ∧
      ((narrow.edgeIndex d).runOn host).2 = ((wide.edgeIndex d).runOn host).2 := by
  rw [edgeIndex_eq, edgeIndex_eq, h.fetchIndex]
  rcases hfetch : (wide.fetchIndex d).runOn host with ⟨e | f, between⟩
  · rw [runOn_bind_error hfetch, runOn_bind_error hfetch]
    exact ⟨.refused, rfl⟩
  · rw [runOn_bind_ok hfetch, runOn_bind_ok hfetch, runOn_readIndex_eq, runOn_readIndex_eq]
    exact ⟨h.indexFrom d f, rfl⟩

/-! ### Samples -/

lemma localize (h : Twins wide narrow) (batch : BatchIndex) (type : String) (ids : List Int) :
    Narrows StoreError.Blames Tensor.ids Tensor.Narrowed (wide.localize batch type ids)
      (narrow.localize batch type ids) := by
  rw [Store.localize, Store.localize]
  cases batch.get? type with
  | none => exact .refused
  | some group =>
    refine .bind_same fun group _ => .bind_same fun positions _ => ?_
    exact h.placeIds (t := Tensor.ofInts positions) (.inl rfl)

/-- Ends of one type in either width. -/
def NarrowedTypes (l l' : LocalType) : Prop :=
  l'.1 = l.1 ∧ l.2.1.Narrowed l'.2.1 ∧ l.2.2.Narrowed l'.2.2

lemma localizeGroup (h : Twins wide narrow) (sample : Sample) (batch : BatchIndex)
    (group : String × List Nat) :
    Narrows StoreError.Blames (fun l : LocalType => l.2.1.ids ++ l.2.2.ids) NarrowedTypes
      (wide.localizeGroup sample batch group) (narrow.localizeGroup sample batch group) := by
  rw [Store.localizeGroup, Store.localizeGroup, h.edges]
  apply Narrows.bind_same
  intro entry _
  refine (h.localize batch entry.triple.source _).bind₂
    (h.localize batch entry.triple.destination _) ?_ ?_
  · intro a a' l hl id
    obtain rfl := Except.ok.inj hl
    exact List.mem_append
  · intro a b a' b' hfits hab hab'
    refine .told ?_ ⟨rfl, hab, hab'⟩
    intro id hid
    exact hfits id (List.mem_append.mp hid)

lemma narrowedMaps_ofList {ls ls' : List LocalType} {f : LocalType → Tensor}
    (hdistinct : ls.Pairwise (·.1 ≠ ·.1)) (h : List.Forall₂ NarrowedTypes ls ls')
    (hf : ∀ l l', NarrowedTypes l l' → (f l).Narrowed (f l')) :
    NarrowedMaps (.ofList (ls.map fun l => (l.1, f l)))
      (.ofList (ls'.map fun l => (l.1, f l))) := by
  -- the triples are the same on both sides, so distinct on both
  have htriples : ls'.map (·.1) = ls.map (·.1) := by
    induction h with
    | nil => rfl
    | cons hl _ ih =>
      rw [List.map_cons, List.map_cons, hl.1, ih (List.pairwise_cons.mp hdistinct).2]
  have hps : (ls.map fun l => (l.1, f l)).Pairwise (·.1 ≠ ·.1) := List.pairwise_map.mpr hdistinct
  have hps' : (ls'.map fun l => (l.1, f l)).Pairwise (·.1 ≠ ·.1) := by
    have hdistinct' : (ls'.map (·.1)).Pairwise (· ≠ ·) := htriples ▸ List.pairwise_map.mpr hdistinct
    exact List.pairwise_map.mpr (List.pairwise_map.mp hdistinct')
  constructor
  · apply SortedMap.keys_ext
    intro triple
    rw [SortedMap.mem_keys_ofList hps, SortedMap.mem_keys_ofList hps', List.map_map, List.map_map]
    exact Iff.of_eq (congrArg (triple ∈ ·) htriples)
  · intro triple t ht
    obtain ⟨l, hl, hpair⟩ := List.mem_map.mp ((SortedMap.get?_ofList hps triple t).mp ht)
    obtain ⟨rfl, rfl⟩ := Prod.mk.inj hpair
    obtain ⟨k, hk⟩ := List.mem_iff_getElem?.mp hl
    obtain ⟨l', hl', hnarrowed⟩ := exists_of_forall₂ h hk
    refine ⟨f l', (SortedMap.get?_ofList hps' _ _).mpr ?_, hf l l' hnarrowed⟩
    exact List.mem_map.mpr ⟨l', List.mem_of_getElem? hl', by rw [hnarrowed.1]⟩

lemma renumberSample (h : Twins wide narrow) (g : Graph) (sample : Sample) (batch : BatchIndex) :
    Narrows StoreError.Blames LocalEdges.ids LocalEdges.Narrowed
      (wide.renumberSample g sample batch) (narrow.renumberSample g sample batch) := by
  have hsame : narrow.alignedFor sample = wide.alignedFor sample := by
    rw [alignedFor, alignedFor, h.edges]
  have hrows : narrow.rowsByType g sample = wide.rowsByType g sample := by
    rw [rowsByType, rowsByType, rowsByNumeral, rowsByNumeral, h.edges, h.source]
  by_cases haligned : wide.alignedFor sample
  · -- which rows go together is decided before any width is chosen
    rw [renumberSample_eq haligned, renumberSample_eq (hsame ▸ haligned), hrows]
    apply Narrows.bind_same
    intro groups hgroups
    have hgrouping := rowsByType_isGrouping haligned hgroups
    refine (Narrows.mapM (h.localizeGroup sample batch) groups).map ?_ ?_
    · intro ls hls id
      exact LocalEdges.mem_ids_ofTypes (pairwise_triples h.named hgrouping.distinct hls)
    · intro ls ls' hls hnarrowed
      have hdistinct := pairwise_triples h.named hgrouping.distinct hls
      exact ⟨narrowedMaps_ofList hdistinct hnarrowed fun l l' hl => hl.2.1,
        narrowedMaps_ofList hdistinct hnarrowed fun l l' hl => hl.2.2⟩
  · have haligned' : ¬ narrow.alignedFor sample := hsame ▸ haligned
    simp only [Store.renumberSample, haligned, haligned']
    exact .refused

end Twins

/-- A store of narrow ids follows one of wide ids in everything that tells ids. -/
structure Follows (wide narrow : Store) : Prop where
  vertexIndex : ∀ types, Narrows StoreError.Blames Tensor.ids Tensor.Narrowed
    (wide.vertexIndex types) (narrow.vertexIndex types)
  edgeIndex : ∀ d host, Narrows StoreError.Blames EdgeIndex.ids EdgeIndex.Narrowed
      ((wide.edgeIndex d).runOn host).1 ((narrow.edgeIndex d).runOn host).1 ∧
    ((narrow.edgeIndex d).runOn host).2 = ((wide.edgeIndex d).runOn host).2
  renumberSample : ∀ g sample batch, Narrows StoreError.Blames LocalEdges.ids LocalEdges.Narrowed
    (wide.renumberSample g sample batch) (narrow.renumberSample g sample batch)

/-- Stores that are built alike but for the width of their ids are twins, and of twins the narrow
one tells the ids of the wide one or fails. -/
theorem ids_narrow (source : Source) (served : Device) (config : Config) :
    Agree Eq Twins (build source served { config with vertexDType := .int64 })
        (build source served { config with vertexDType := .int32 }) ∧
      ∀ wide narrow, Twins wide narrow → Follows wide narrow := by
  constructor
  · exact build_twins source served config
  · intro wide narrow h
    exact ⟨h.vertexIndex, h.edgeIndex, h.renumberSample⟩

/-- The store over the library has a twin with narrow ids, which follows it. -/
theorem ids_narrow_library : ∃ narrow,
    (build .plain .cpu { vertexDType := .int32 }).runOn { graph := library }
      = (.ok narrow, libraryRun.2) ∧ Twins libraryStore narrow ∧ Follows libraryStore narrow := by
  have hagree := (ids_narrow .plain .cpu {}).1 { graph := library } _ rfl
  rw [show ({ vertexDType := .int64 } : Config) = {} from rfl, runOn_build_library] at hagree
  obtain ⟨hout, hleft⟩ := hagree
  cases hnarrow : ((build .plain .cpu { vertexDType := .int32 }).runOn { graph := library }).1 with
  | error e =>
    rw [hnarrow] at hout
    exact hout.elim
  | ok narrow =>
    rw [hnarrow] at hout
    exact ⟨narrow, Prod.ext hnarrow hleft.symm, hout,
      (ids_narrow .plain .cpu {}).2 libraryStore narrow hout⟩

end Store

end TypedGraph
