import TypedGraph.Proofs.BinaryIntegers
import TypedGraph.Proofs.Loading
import TypedGraph.Proofs.SampleOutcome
import TypedGraph.Proofs.Selections

/-!
# Numerals of edge types

An edge type is told by its place among the named types, to a sampler that asks for the numeral of a
type, from a sampler that gives numerals back, and as a weight of an edge. The three agree, and
renumbering leaves them as they are (`encodesEdgeTypes`). What carries this is that edges go to
edges of their types, one to one (`MovesEdges`).
-/

namespace TypedGraph

open Traversal

/-- A number of at most 53 binary digits comes back from a binary value as it is. -/
lemma Binary.truncate?_ofInt_of_lt {n : Int} (h : n.natAbs < 2 ^ 53) :
    (Value.ofInt n : Binary64).truncate? = some n := by
  have hshort : IsShort n := ⟨n.natAbs, 0, h, by simp⟩
  rw [truncate?_ofInt (h.trans (by decide)), nearby_eq_iff.mpr hshort]

namespace Graph

variable {g g' : Graph} {f : Int → Int} {previous : Option String} {type : String} {n : Int}
  {ids : List Int} {e : Edge} {o : ExtractOptions} {sub : Subgraph}

/-! ### Numerals and names -/

lemma edgeTypeNumeral_eq_ok_iff {n : Nat} :
    g.edgeTypeNumeral type = .ok n ↔ g.namedEdgeTypes[n]? = some type := by
  rw [edgeTypeNumeral, ← idxOf?_eq_some_iff_getElem? g.nodup_namedEdgeTypes]
  cases List.idxOf? type g.namedEdgeTypes <;> simp

lemma edgeTypeNumeral_of_notMem (h : type ∉ g.namedEdgeTypes) :
    g.edgeTypeNumeral type = .error (.unknownEdgeType type) := by
  rw [edgeTypeNumeral, List.idxOf?_eq_none_iff.mpr h]

lemma edgeTypesOfNumerals_singleton :
    g.edgeTypesOfNumerals [n] = .ok [type] ↔ g.edgeTypeOfNumeral n = .ok type := by
  rw [edgeTypesOfNumerals, mapM_eq_ok_iff]
  simp

/-- A name is decoded from its numeral. -/
lemma edgeTypesOfNumerals_natCast_iff {n : Nat} :
    g.edgeTypesOfNumerals [(n : Int)] = .ok [type] ↔ g.edgeTypeNumeral type = .ok n := by
  rw [edgeTypesOfNumerals_singleton, edgeTypeOfNumeral_eq_ok_iff, edgeTypeNumeral_eq_ok_iff,
    Int.toNat_natCast]
  exact and_iff_right (Int.natCast_nonneg n)

/-- A list is decoded one by one. -/
lemma edgeTypesOfNumerals_eq_ok_iff {ns : List Int} {types : List String} :
    g.edgeTypesOfNumerals ns = .ok types ↔
      List.Forall₂ (fun n type => g.edgeTypesOfNumerals [n] = .ok [type]) ns types := by
  simp only [edgeTypesOfNumerals_singleton]
  exact mapM_eq_ok_iff

/-- Numbers that are no numeral of an edge type. -/
def isOutside (g : Graph) (n : Int) : Bool := n < 0 ∨ g.namedEdgeTypes.length ≤ n

lemma isOutside_eq_false_iff :
    g.isOutside n = false ↔ ∃ type, g.edgeTypeOfNumeral n = .ok type := by
  rw [exists_edgeTypeOfNumeral_iff, isOutside, decide_eq_false_iff_not, not_or, not_lt, not_le]

lemma edgeTypeOfNumeral_eq_error_iff {e : GraphError} :
    g.edgeTypeOfNumeral n = .error e ↔ g.isOutside n ∧ e = .unknownEdgeTypeNumeral n := by
  cases hn : g.edgeTypeOfNumeral n with
  | ok type =>
    have hinside := isOutside_eq_false_iff.mpr ⟨type, hn⟩
    simp [hinside]
  | error cause =>
    have houtside : g.isOutside n := by
      rw [← Bool.not_eq_false, isOutside_eq_false_iff, hn]
      simp
    rw [edgeTypeOfNumeral_eq_error hn, Except.error.injEq, eq_comm]
    exact (and_iff_right houtside).symm

/-- A list is refused for its first number outside. -/
lemma edgeTypesOfNumerals_eq_error_iff {ns : List Int} {e : GraphError} :
    g.edgeTypesOfNumerals ns = .error e ↔
      ∃ n, ns.find? g.isOutside = some n ∧ e = .unknownEdgeTypeNumeral n := by
  rw [edgeTypesOfNumerals, mapM_eq_error_iff]
  simp only [List.find?_eq_some_iff_append, edgeTypeOfNumeral_eq_error_iff, Bool.not_eq_true',
    isOutside_eq_false_iff]
  constructor
  · rintro ⟨before, n, after, hsplit, hbefore, hn, rfl⟩
    exact ⟨n, ⟨hn, before, after, hsplit, hbefore⟩, rfl⟩
  · rintro ⟨n, ⟨hn, before, after, hsplit, hbefore⟩, rfl⟩
    exact ⟨before, n, after, hsplit, hbefore, hn, rfl⟩

/-! ### Weights -/

lemma edgeWeight?_typeColumn (g : Graph) (e : Edge) : g.edgeWeight? typeColumn e
    = (e.type.bind g.namedEdgeTypes.idxOf?).map fun n : Nat => .ofInt n := by
  rw [edgeWeight?, if_pos rfl]
  cases e.type.bind g.namedEdgeTypes.idxOf? <;> rfl

/-- The weight of the edge of an id. -/
def weightAt (g : Graph) (o : ExtractOptions) (id : Int) : Binary64 :=
  ((g.edges.get? id).bind fun e => o.weightProperty.bind (g.edgeWeight? · e)).getD o.defaultWeight

lemma weights_of_extract (h : g.extract ids o = .ok sub) :
    sub.weights = ids.map (g.weightAt o) := by
  obtain ⟨edges, hchosen, -, -, -, hweights, -⟩ := extract_eq_ok h
  have hread := map_read_eq (chosenEdges_eq_ok_iff.mp hchosen).1 fun edge =>
    (edge.bind fun e => o.weightProperty.bind (g.edgeWeight? · e)).getD o.defaultWeight
  exact hweights.trans hread.symm

/-- A weight that tells the type of an edge. -/
def TellsType (g : Graph) (o : ExtractOptions) (e : Edge) (w : Binary64) : Prop :=
  match e.type with
  | some type => ∃ n : Int, w = .ofInt n ∧ w.truncate? = some n ∧
      g.edgeTypesOfNumerals [n] = .ok [type]
  | none => w = o.defaultWeight

lemma tellsType_weightAt (hk : g.namedEdgeTypes.length < 2 ^ 31)
    (ho : o.weightProperty = typeColumn) {id : Int} (he : g.edges.get? id = some e) :
    g.TellsType o e (g.weightAt o id) := by
  rw [weightAt, he, ho, Option.bind_some, Option.bind_some, edgeWeight?_typeColumn, TellsType]
  cases htype : e.type with
  | none => rfl
  | some type =>
    obtain ⟨n, hn⟩ := List.mem_iff_getElem?.mp (mem_namedEdgeTypes.mpr ⟨id, e, he, htype⟩)
    have hidx := (idxOf?_eq_some_iff_getElem? g.nodup_namedEdgeTypes).mpr hn
    have hlt : n < g.namedEdgeTypes.length := (List.getElem?_eq_some_iff.mp hn).1
    have hsmall : (n : Int).natAbs < 2 ^ 53 := by omega
    rw [Option.bind_some, hidx]
    exact ⟨n, rfl, Binary.truncate?_ofInt_of_lt hsmall,
      edgeTypesOfNumerals_natCast_iff.mpr (edgeTypeNumeral_eq_ok_iff.mpr hn)⟩

/-! ### Edges that move -/

/-- Edges go to edges of their types one to one, and no two pairs of ends become one. -/
structure MovesEdges (f : Int → Int) (g g' : Graph) : Prop where
  types : KeepsEdgeTypes f g g'
  bijOn : Set.BijOn f {id | id ∈ g.edges.keys} {id | id ∈ g'.edges.keys}
  pairs : ∀ a b, a ∈ g.edges.keys → b ∈ g.edges.keys → g'.pair? (f a) = g'.pair? (f b) →
    g.pair? a = g.pair? b

namespace MovesEdges

lemma namedEdgeTypes_eq (h : MovesEdges f g g') : g'.namedEdgeTypes = g.namedEdgeTypes := by
  refine namedEdgeTypes_congr fun type => ?_
  rw [mem_namedEdgeTypes, mem_namedEdgeTypes]
  constructor
  · rintro ⟨id', e', he', htype⟩
    -- every edge was there before, so that no type is new
    obtain ⟨id, hid, rfl⟩ := h.bijOn.surjOn (SortedMap.mem_keys_iff.mpr ⟨e', he'⟩)
    obtain ⟨e, he⟩ := SortedMap.mem_keys_iff.mp hid
    obtain ⟨d, hd, hsame⟩ := h.types id e he
    obtain rfl := Option.some.inj (he'.symm.trans hd)
    exact ⟨id, e, he, hsame.symm.trans htype⟩
  · rintro ⟨id, e, he, htype⟩
    obtain ⟨e', he', hsame⟩ := h.types id e he
    exact ⟨f id, e', he', hsame.trans htype⟩

/-- Moved edges can be selected as before. -/
lemma exists_extract (h : MovesEdges f g g') (hsub : g.extract ids o = .ok sub) :
    ∃ sub', g'.extract (ids.map f) o = .ok sub' := by
  obtain ⟨hids, hpairs⟩ := exists_chosenEdges_iff.mp (exists_extract_iff.mp ⟨sub, hsub⟩)
  refine exists_extract_iff.mpr (exists_chosenEdges_iff.mpr ⟨?_, fun hdistinct => ?_⟩)
  · exact List.forall_mem_map.mpr fun id hid => h.bijOn.mapsTo (hids id hid)
  · -- two places with one pair of ends would have had one before
    have hnodup := List.pairwise_map.mp (hpairs hdistinct)
    rw [List.map_map]
    refine List.pairwise_map.mpr (hnodup.imp_of_mem fun ha hb hne heq => ?_)
    exact hne (h.pairs _ _ (hids _ ha) (hids _ hb) heq)

lemma weightAt_eq (h : MovesEdges f g g') (ho : o.weightProperty = typeColumn) {id : Int}
    (hid : id ∈ g.edges.keys) : g'.weightAt o (f id) = g.weightAt o id := by
  obtain ⟨e, he⟩ := SortedMap.mem_keys_iff.mp hid
  obtain ⟨e', he', htype⟩ := h.types id e he
  rw [weightAt, weightAt, he, he', ho]
  simp only [Option.bind_some, edgeWeight?_typeColumn, htype, h.namedEdgeTypes_eq]

end MovesEdges

lemma movesEdges_renumberEdges (g : Graph) (previous : Option String) :
    MovesEdges g.newEdgeId g (g.renumberEdges previous).2 where
  types id e he := ⟨_, get?_renumberEdges previous he, rfl⟩
  bijOn := by
    have hkeys : {id | id ∈ (g.renumberEdges previous).2.edges.keys}
        = Set.Ico 0 (g.edges.size : Int) := by
      ext id
      rw [keys_renumberEdges]
      exact mem_intRange
    rw [hkeys]
    exact g.newEdgeId_bijOn
  pairs a b ha hb hpairs := by
    obtain ⟨d, hd⟩ := SortedMap.mem_keys_iff.mp ha
    obtain ⟨e, he⟩ := SortedMap.mem_keys_iff.mp hb
    simp only [pair?, get?_renumberEdges previous hd, get?_renumberEdges previous he] at hpairs
    rwa [pair?, pair?, hd, he]

/-- New vertex ids leave edges where they are, and different pairs of ends different. -/
lemma IsRelabeling.movesEdges (h : IsRelabeling f previous g g') :
    MovesEdges (fun id => id) g g' where
  types id e he := ⟨e.move f, by rw [h.edges, SortedMap.get?_mapValues, he]; rfl, rfl⟩
  bijOn := by
    rw [h.edges, SortedMap.keys_mapValues]
    exact Set.bijOn_id _
  pairs a b ha hb hpairs := by
    have hmoved {id : Int} {e : Edge} (he : g.edges.get? id = some e) :
        g'.pair? id = some (f e.source, f e.destination) := by
      rw [pair?, h.edges, SortedMap.get?_mapValues, he]
      rfl
    obtain ⟨d, hd⟩ := SortedMap.mem_keys_iff.mp ha
    obtain ⟨e, he⟩ := SortedMap.mem_keys_iff.mp hb
    rw [hmoved hd, hmoved he] at hpairs
    obtain ⟨hsources, hdestinations⟩ := Prod.mk.inj (Option.some.inj hpairs)
    rw [pair?, pair?, hd, he, Option.map_some, Option.map_some,
      h.bijOn.injOn (h.closed a d hd).1 (h.closed b e he).1 hsources,
      h.bijOn.injOn (h.closed a d hd).2 (h.closed b e he).2 hdestinations]

/-! ### Graphs whose vertices are renumbered -/

lemma mem_keys_of_newId_eq_ok {id other : Int}
    (h : newId (g.verticesByType.map (·.1)) id = .ok other) : id ∈ g.vertices.keys := by
  rw [newId] at h
  split at h
  · rename_i i hi
    have hmem := List.isSome_idxOf?.mp (Option.isSome_of_eq_some hi)
    exact (g.verticesByType_perm.map _).mem_iff.mp hmem
  · cases h

/-- Vertices are renumbered only where every edge ends at vertices. -/
lemma closed_of_renumberVertices {ranges : List TypeRange}
    (h : g.renumberVertices previous = .ok (ranges, g')) : g.Closed := by
  obtain ⟨moved, hmoved, -⟩ := bind_eq_ok_iff.mp h
  intro id e he
  obtain ⟨_, hrow⟩ := ok_of_mapM_eq_ok hmoved (SortedMap.mem_entries_iff.mpr he)
  obtain ⟨_, hedge, -⟩ := bind_eq_ok_iff.mp hrow
  obtain ⟨_, hsource, hrest⟩ := bind_eq_ok_iff.mp hedge
  obtain ⟨_, hdestination, -⟩ := bind_eq_ok_iff.mp hrest
  exact ⟨mem_keys_of_newId_eq_ok hsource, mem_keys_of_newId_eq_ok hdestination⟩

/-! ### All encodings -/

/-- Another graph has the edges under new ids, and tells their types by the same numbers. -/
structure KeepsEncodings (f : Int → Int) (g g' : Graph) : Prop where
  bijOn : Set.BijOn f {id | id ∈ g.edges.keys} {id | id ∈ g'.edges.keys}
  types : KeepsEdgeTypes f g g'
  numeral : ∀ type, g'.edgeTypeNumeral type = g.edgeTypeNumeral type
  names : ∀ ns, g'.edgeTypesOfNumerals ns = g.edgeTypesOfNumerals ns
  /-- Selections have the same weights. -/
  weights : ∀ ids o sub, o.weightProperty = some typeColumn → g.extract ids o = .ok sub →
    ∃ sub', g'.extract (ids.map f) o = .ok sub' ∧ sub'.weights = sub.weights

lemma MovesEdges.keepsEncodings (h : MovesEdges f g g') : KeepsEncodings f g g' where
  bijOn := h.bijOn
  types := h.types
  -- names and numerals are read off the list of edge types, which is the same
  numeral type := by rw [edgeTypeNumeral, edgeTypeNumeral, h.namedEdgeTypes_eq]
  names ns := by
    have hone : g'.edgeTypeOfNumeral = g.edgeTypeOfNumeral := by
      funext n
      rw [edgeTypeOfNumeral, edgeTypeOfNumeral, h.namedEdgeTypes_eq]
    rw [edgeTypesOfNumerals, edgeTypesOfNumerals, hone]
  weights ids o sub ho hsub := by
    obtain ⟨sub', hsub'⟩ := h.exists_extract hsub
    refine ⟨sub', hsub', ?_⟩
    obtain ⟨hids, -⟩ := exists_chosenEdges_iff.mp (exists_extract_iff.mp ⟨sub, hsub⟩)
    rw [weights_of_extract hsub, weights_of_extract hsub', List.map_map]
    exact List.map_congr_left fun id hid => h.weightAt_eq ho (hids id hid)

/-- How a graph tells the types of its edges by numbers. -/
structure EncodesEdgeTypes (g : Graph) : Prop where
  mem_namedEdgeTypes : ∀ type,
    type ∈ g.namedEdgeTypes ↔ ∃ id e, g.edges.get? id = some e ∧ e.type = some type
  /-- A named type has a numeral, which fits a signed word and is decoded to the type. -/
  numeral : ∀ type ∈ g.namedEdgeTypes, ∃ n : Nat, g.edgeTypeNumeral type = .ok n ∧
    n < g.namedEdgeTypes.length ∧ n < 2 ^ 31 ∧ g.edgeTypesOfNumerals [(n : Int)] = .ok [type]
  /-- Numbers from zero on, as many as there are named types, are their numerals. -/
  name : ∀ n : Nat, n < g.namedEdgeTypes.length → ∃ type ∈ g.namedEdgeTypes,
    g.edgeTypesOfNumerals [(n : Int)] = .ok [type] ∧ g.edgeTypeNumeral type = .ok n
  unnamed : ∀ type ∉ g.namedEdgeTypes, g.edgeTypeNumeral type = .error (.unknownEdgeType type)
  /-- A list is decoded one by one, or else refused for its first number outside. -/
  names : ∀ ns types, g.edgeTypesOfNumerals ns = .ok types ↔
    List.Forall₂ (fun n type => g.edgeTypesOfNumerals [n] = .ok [type]) ns types
  outside : ∀ ns e, g.edgeTypesOfNumerals ns = .error e ↔
    ∃ n, ns.find? (fun n => n < 0 ∨ (g.namedEdgeTypes.length : Int) ≤ n) = some n ∧
      e = .unknownEdgeTypeNumeral n
  /-- Under the type column, the weights of a selection tell the types of its edges. -/
  weights : ∀ ids o sub, o.weightProperty = some typeColumn → g.extract ids o = .ok sub →
    List.Forall₂ (fun id w => ∃ e, g.edges.get? id = some e ∧ g.TellsType o e w) ids sub.weights
  renumberEdges : ∀ previous, KeepsEncodings g.newEdgeId g (g.renumberEdges previous).2
  renumberVertices : ∀ previous ranges g', g.renumberVertices previous = .ok (ranges, g') →
    KeepsEncodings (fun id => id) g g'
  /-- Vertices can be renumbered in every graph that comes to be. -/
  renumbers : g.Reachable → ∀ previous, ∃ ranges g', g.renumberVertices previous = .ok (ranges, g')

/-- The numerals of edge types, the names that numerals stand for and the weights of edges under the
type column agree, and renumbering vertices or edges leaves them as they are. -/
theorem encodesEdgeTypes (hk : g.namedEdgeTypes.length < 2 ^ 31) : g.EncodesEdgeTypes where
  mem_namedEdgeTypes _ := mem_namedEdgeTypes
  numeral type htype := by
    obtain ⟨n, hn⟩ := List.mem_iff_getElem?.mp htype
    have hlt : n < g.namedEdgeTypes.length := (List.getElem?_eq_some_iff.mp hn).1
    -- places are below the bound of numerals, so a numeral of 32 bits holds each of them
    have hnumeral := edgeTypeNumeral_eq_ok_iff.mpr hn
    exact ⟨n, hnumeral, hlt, hlt.trans hk, edgeTypesOfNumerals_natCast_iff.mpr hnumeral⟩
  name n hn := by
    have hnumeral := edgeTypeNumeral_eq_ok_iff.mpr (List.getElem?_eq_getElem hn)
    exact ⟨_, List.getElem_mem hn, edgeTypesOfNumerals_natCast_iff.mpr hnumeral, hnumeral⟩
  unnamed _ := edgeTypeNumeral_of_notMem
  names _ _ := edgeTypesOfNumerals_eq_ok_iff
  outside _ _ := edgeTypesOfNumerals_eq_error_iff
  weights ids o sub ho hsub := by
    obtain ⟨hids, -⟩ := exists_chosenEdges_iff.mp (exists_extract_iff.mp ⟨sub, hsub⟩)
    rw [weights_of_extract hsub, List.forall₂_map_right_iff, List.forall₂_same]
    intro id hid
    obtain ⟨e, he⟩ := SortedMap.mem_keys_iff.mp (hids id hid)
    exact ⟨e, he, tellsType_weightAt hk ho he⟩
  renumberEdges previous := (g.movesEdges_renumberEdges previous).keepsEncodings
  renumberVertices previous ranges g' h :=
    (isRelabeling_of_eq_ok (closed_of_renumberVertices h) h).movesEdges.keepsEncodings
  renumbers := by
    rintro ⟨order, hloaded⟩ previous
    exact ⟨_, _, renumberVertices_of_closed hloaded.isLoaded.closed previous⟩

/-- The library has two edge types, so that two is the first number outside. -/
theorem encodesEdgeTypes_library :
    Store.library.namedEdgeTypes.length < 2 ^ 31 ∧ Store.library.EncodesEdgeTypes ∧
      Store.library.edgeTypesOfNumerals [1, 0, 2, -1] = .error (.unknownEdgeTypeNumeral 2) := by
  have hk : Store.library.namedEdgeTypes.length < 2 ^ 31 := by decide +kernel
  have hencodes := encodesEdgeTypes hk
  exact ⟨hk, hencodes, (hencodes.outside _ _).mpr ⟨2, by decide +kernel, rfl⟩⟩

end Graph

end TypedGraph
