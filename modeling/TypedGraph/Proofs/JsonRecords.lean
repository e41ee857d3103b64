import TypedGraph.Json.Codec
import TypedGraph.Proofs.JsonTexts

/-!
# Reading records in any order

A record is read by the names of its fields, so the order in which an object has its members does
not matter (`exists_fieldsOf`). `Reads d v a` says that `d` reads `a` from `v` and from every value
that differs from `v` only in such orders. Each reader has a lemma that concludes this from the same
about its parts, and a type whose reader and writer fit together round trips through its texts
(`roundTrips_of_reads`).
-/

namespace TypedGraph.Json

/-! ### Values up to the order of members -/

mutual

/-- The second value is the first with the members of its objects in some order. -/
inductive Value.Reordered : Value → Value → Prop
  | null : Reordered .null .null
  | bool (b : Bool) : Reordered (.bool b) (.bool b)
  | number (n : Number) : Reordered (.number n) (.number n)
  | string (s : String) : Reordered (.string s) (.string s)
  | array {vs ws : List Value} (h : ElementsReordered vs ws) : Reordered (.array vs) (.array ws)
  | object {ms ns : List (String × Value)} (h : MembersReordered ms ns) :
    Reordered (.object ms) (.object ns)

inductive Value.ElementsReordered : List Value → List Value → Prop
  | nil : ElementsReordered [] []
  | cons {v w : Value} {vs ws : List Value} (hv : Reordered v w) (hvs : ElementsReordered vs ws) :
    ElementsReordered (v :: vs) (w :: ws)

inductive Value.MembersReordered : List (String × Value) → List (String × Value) → Prop
  | nil : MembersReordered [] []
  | insert {k : String} {v w : Value} {ms before after : List (String × Value)}
    (hv : Reordered v w) (hms : MembersReordered ms (before ++ after)) :
    MembersReordered ((k, v) :: ms) (before ++ (k, w) :: after)

end

namespace Value

lemma MembersReordered.cons {k : String} {v w : Value} {ms ns : List (String × Value)}
    (hv : v.Reordered w) (hms : MembersReordered ms ns) :
    MembersReordered ((k, v) :: ms) ((k, w) :: ns) :=
  show MembersReordered _ ([] ++ (k, w) :: ns) from .insert hv hms

mutual

theorem Reordered.refl : (v : Value) → v.Reordered v
  | .null => .null
  | .bool b => .bool b
  | .number n => .number n
  | .string s => .string s
  | .array vs => .array (.refl vs)
  | .object ms => .object (.refl ms)

theorem ElementsReordered.refl : (vs : List Value) → ElementsReordered vs vs
  | [] => .nil
  | v :: vs => .cons (.refl v) (.refl vs)

theorem MembersReordered.refl : (ms : List (String × Value)) → MembersReordered ms ms
  | [] => .nil
  | (_, v) :: ms => .cons (.refl v) (.refl ms)

end

lemma membersAreWhole_iff {ms : List (String × Value)} :
    MembersAreWhole ms ↔ ∀ m ∈ ms, m.2.IsWhole := by
  induction ms with
  | nil => simp [MembersAreWhole]
  | cons m ms ih => simp [MembersAreWhole, ih]

mutual

theorem Reordered.isWhole : {v w : Value} → v.Reordered w → v.IsWhole → w.IsWhole
  | _, _, .null, h | _, _, .bool _, h | _, _, .number _, h | _, _, .string _, h => h
  | _, _, .array hs, h => hs.areWhole h
  | _, _, .object hs, h => hs.areWhole h

theorem ElementsReordered.areWhole :
    {vs ws : List Value} → ElementsReordered vs ws → AreWhole vs → AreWhole ws
  | _, _, .nil, h => h
  | _, _, .cons hv hvs, h => ⟨hv.isWhole h.1, hvs.areWhole h.2⟩

theorem MembersReordered.areWhole :
    {ms ns : List (String × Value)} → MembersReordered ms ns → MembersAreWhole ms →
      MembersAreWhole ns
  | _, _, .nil, h => h
  | _, _, .insert hv hms, h => by
    have hms := hms.areWhole h.2
    have hv := hv.isWhole h.1
    rw [membersAreWhole_iff] at hms ⊢
    simp only [List.mem_append, List.mem_cons, or_imp, forall_and, forall_eq] at hms ⊢
    exact ⟨hms.1, hv, hms.2⟩

end

/-! ### Inversion -/

theorem reordered_array_iff {vs : List Value} {w : Value} :
    (Value.array vs).Reordered w ↔ ∃ ws, w = .array ws ∧ ElementsReordered vs ws := by
  constructor
  · intro h
    cases h with
    | array h => exact ⟨_, rfl, h⟩
  · rintro ⟨ws, rfl, h⟩
    exact .array h

theorem reordered_object_iff {ms : List (String × Value)} {w : Value} :
    (Value.object ms).Reordered w ↔ ∃ ns, w = .object ns ∧ MembersReordered ms ns := by
  constructor
  · intro h
    cases h with
    | object h => exact ⟨_, rfl, h⟩
  · rintro ⟨ns, rfl, h⟩
    exact .object h

theorem membersReordered_singleton_iff {k : String} {v : Value} {ns : List (String × Value)} :
    MembersReordered [(k, v)] ns ↔ ∃ w, v.Reordered w ∧ ns = [(k, w)] := by
  constructor
  · intro h
    cases h with
    | @insert _ _ w _ before after hv hms =>
      generalize hrest : before ++ after = rest at hms
      cases hms
      obtain ⟨rfl, rfl⟩ := List.append_eq_nil_iff.mp hrest
      exact ⟨w, hv, rfl⟩
  · rintro ⟨w, hv, rfl⟩
    exact .cons hv .nil

namespace MembersReordered

/-- Members keep their names. -/
lemma names_perm {ms ns : List (String × Value)} :
    MembersReordered ms ns → (ms.map Prod.fst).Perm (ns.map Prod.fst)
  | .nil => .nil
  | .insert _ hms => by
    have := hms.names_perm
    simp only [List.map_append, List.map_cons] at this ⊢
    exact (this.cons _).trans List.perm_middle.symm

lemma exists_of_mem {ms ns : List (String × Value)} {k : String} {v : Value} :
    MembersReordered ms ns → (k, v) ∈ ms → ∃ w, v.Reordered w ∧ (k, w) ∈ ns
  | .insert hv hms, h => by
    rcases List.mem_cons.mp h with h | h
    · obtain ⟨rfl, rfl⟩ := Prod.mk.inj h
      exact ⟨_, hv, by simp⟩
    · obtain ⟨w, hw, hmem⟩ := hms.exists_of_mem h
      exact ⟨w, hw, by simp_all [or_left_comm]⟩

lemma exists_mem_of_mem {ms ns : List (String × Value)} {k : String} {w : Value} :
    MembersReordered ms ns → (k, w) ∈ ns → ∃ v, v.Reordered w ∧ (k, v) ∈ ms
  | .nil, h => by simp at h
  | .insert hv hms, h => by
    rw [List.mem_append, List.mem_cons, or_left_comm] at h
    rcases h with h | h
    · obtain ⟨rfl, rfl⟩ := Prod.mk.inj h
      exact ⟨_, hv, by simp⟩
    · obtain ⟨v, hv, hmem⟩ := hms.exists_mem_of_mem (List.mem_append.mpr h)
      exact ⟨v, hv, List.mem_cons_of_mem _ hmem⟩

end MembersReordered

end Value

/-! ### Single values -/

/-- The reader reads this from the value, and from the value with its members in any order. -/
structure Reads {α : Type} (decode? : Node → Option α) (v : Value) (a : α) : Prop where
  whole : v.IsWhole
  read : ∀ {w}, v.Reordered w → decode? w.node = some a

namespace Reads

variable {α β : Type}

lemma string (s : String) : Reads Node.string? (.string s) s := by
  refine ⟨trivial, ?_⟩
  rintro _ ⟨⟩
  rfl

lemma bool (b : Bool) : Reads Node.bool? (.bool b) b := by
  refine ⟨trivial, ?_⟩
  rintro _ ⟨⟩
  rfl

lemma int {lowest highest n : Int} (hlo : -0x8000000000000000 ≤ lowest)
    (hhi : highest < 0x10000000000000000) (h : lowest ≤ n ∧ n ≤ highest) :
    Reads (Node.int? lowest highest) (.int n) n := by
  refine ⟨⟨hlo.trans h.1, h.2.trans_lt hhi⟩, ?_⟩
  rintro _ ⟨⟩
  simp [Value.node, Node.int?, h]

lemma map {d : Node → Option α} {v : Value} {a : α} (h : Reads d v a) (f : α → β) :
    Reads (fun n => (d n).map f) v (f a) :=
  ⟨h.whole, fun hw => by simp [h.read hw]⟩

/-- A reader that does not read `null` makes one of optional values. -/
lemma optional {d : Node → Option α} {encode : α → Value} {a : Option α} (hnull : d .null = none)
    (h : ∀ b ∈ a, Reads d (encode b) b) : Reads (Node.optional? d) (.ofOption encode a) a := by
  cases a with
  | none =>
    refine ⟨trivial, ?_⟩
    rintro _ ⟨⟩
    rfl
  | some a =>
    refine ⟨(h a rfl).whole, fun {w} hw => ?_⟩
    have ha := (h a rfl).read hw
    have hne : w.node ≠ .null := by
      intro hn
      simp [hn, hnull] at ha
    simp [Node.optional?, ha]

lemma list {d : Nat → Node → Option α} {encode : α → Value} {levels : Nat} {as : List α}
    (h : ∀ a ∈ as, Reads (d levels) (encode a) a) :
    Reads (Node.list? d (levels + 1)) (.ofList encode as) as := by
  constructor
  · -- the elements are whole, and what a reordered array reads as is told along them
    change Value.AreWhole (as.map encode)
    induction as with
    | nil => trivial
    | cons a as ih =>
      obtain ⟨ha, has⟩ := List.forall_mem_cons.mp h
      exact ⟨ha.whole, ih has⟩
  · intro w hw
    obtain ⟨ws, rfl, hws⟩ := Value.reordered_array_iff.mp hw
    simp only [Value.node, Node.list?, Value.elementNodes_eq_map]
    clear hw
    induction as generalizing ws with
    | nil =>
      cases hws
      rfl
    | cons a as ih =>
      obtain _ | ⟨hv, hvs⟩ := hws
      obtain ⟨ha, has⟩ := List.forall_mem_cons.mp h
      simp [ha.read hv, ih has _ hvs]

/-! ### Enumerations -/

lemma bareCase {table : List (String × α)} {s : String} {a : α} (h : table.lookup s = some a)
    (levels : Nat) : Reads (Node.bareCase? table levels) (.string s) a := by
  refine ⟨trivial, ?_⟩
  rintro _ ⟨⟩
  simp [Value.node, Node.bareCase?, Node.case?, Node.isBare, h]

end Reads

lemma case?_of_reordered {k : String} {v w : Value} (levels : Nat)
    (h : (Value.object [(k, v)]).Reordered w) :
    ∃ w', v.Reordered w' ∧ w.node.case? (levels + 1) = some (k, some w'.node) := by
  obtain ⟨ns, rfl, hns⟩ := Value.reordered_object_iff.mp h
  obtain ⟨w, hw, rfl⟩ := Value.membersReordered_singleton_iff.mp hns
  exact ⟨w, hw, rfl⟩

/-! ### Records -/

namespace Node

open Value

variable {ns : List (String × Value)} {k : String} {w : Value}

lemma filter_memberNodes (h : k ∉ ns.map Prod.fst) :
    (memberNodes ns).filter (·.1 = some k) = [] := by
  rw [memberNodes_eq_map, List.filter_eq_nil_iff]
  rintro _ hmap
  obtain ⟨m, hm, rfl⟩ := List.mem_map.mp hmap
  have : m.1 ≠ k := fun hk => h (List.mem_map.mpr ⟨m, hm, hk⟩)
  simpa using this

lemma field?_of_notMem (h : k ∉ ns.map Prod.fst) : field? (memberNodes ns) k = some none := by
  rw [field?, filter_memberNodes h]

lemma field?_of_mem (hns : (ns.map Prod.fst).Nodup) (h : (k, w) ∈ ns) :
    field? (memberNodes ns) k = some (some w.node) := by
  obtain ⟨before, after, rfl⟩ := List.append_of_mem h
  rw [List.map_append, List.map_cons, List.nodup_middle, List.nodup_cons, List.mem_append,
    not_or] at hns
  have hfilter : (memberNodes (before ++ (k, w) :: after)).filter (·.1 = some k) =
      [(some k, w.node)] := by
    have hb := filter_memberNodes hns.1.1
    have ha := filter_memberNodes hns.1.2
    rw [memberNodes_eq_map] at ha hb ⊢
    simp [ha, hb]
  rw [field?, hfilter]

end Node

/-- What a record reader finds under each name in the members, or in another order of them. -/
structure FieldsOf (ms : List (String × Value)) (field : String → Option Node) : Prop where
  absent : ∀ {k}, k ∉ ms.map Prod.fst → field k = none
  present : ∀ {k v}, (k, v) ∈ ms → ∃ w, v.Reordered w ∧ field k = some w.node

/-- An object that has each of its names once has the same fields in whatever order. -/
theorem exists_fieldsOf {ms : List (String × Value)} {w : Value}
    (hms : (ms.map Prod.fst).Nodup) (hw : (Value.object ms).Reordered w) :
    ∃ field, FieldsOf ms field ∧ ∀ (names : List String) (levels : Nat),
      w.node.fields? names (levels + 1) = some (names.map field) := by
  obtain ⟨ns, rfl, h⟩ := Value.reordered_object_iff.mp hw
  -- the members in the other order have the same names, so each of them once
  have hns : (ns.map Prod.fst).Nodup := h.names_perm.nodup_iff.mp hms
  refine ⟨fun k => (Node.field? (Value.memberNodes ns) k).join, ⟨?_, ?_⟩, ?_⟩
  · intro k hk
    rw [Node.field?_of_notMem fun hmem => hk (h.names_perm.mem_iff.mpr hmem)]
    rfl
  · intro k v hv
    obtain ⟨w, hw, hmem⟩ := h.exists_of_mem hv
    refine ⟨w, hw, ?_⟩
    rw [Node.field?_of_mem hns hmem]
    rfl
  · intro names levels
    have hfield : Node.field? (Value.memberNodes ns) =
        fun k => some (Node.field? (Value.memberNodes ns) k).join := by
      funext k
      by_cases hk : k ∈ ns.map Prod.fst
      · obtain ⟨m, hm, rfl⟩ := List.mem_map.mp hk
        rw [Node.field?_of_mem hns hm]
        rfl
      · rw [Node.field?_of_notMem hk]
        rfl
    have hall : (Value.memberNodes ns).all (·.1.isSome) := by simp [Value.memberNodes_eq_map]
    have hmap : names.mapM (Node.field? (Value.memberNodes ns)) =
        some (names.map fun k => (Node.field? (Value.memberNodes ns) k).join) := by
      rw [hfield]
      exact List.mapM_pure
    simp [Value.node, Node.fields?, hall, hmap]

namespace FieldsOf

variable {α : Type} {ms : List (String × Value)} {field : String → Option Node} {k : String}
  {v : Value} {d : Node → Option α} {a : α}

lemma required (h : FieldsOf ms field) (hk : (k, v) ∈ ms) (hd : Reads d v a) :
    Node.required d (field k) = some a := by
  obtain ⟨w, hw, hfield⟩ := h.present hk
  rw [hfield]
  exact hd.read hw

lemma defaulting (h : FieldsOf ms field) (hk : (k, v) ∈ ms) (hd : Reads d v a) (b : α) :
    Node.defaulting b d (field k) = some a := by
  obtain ⟨w, hw, hfield⟩ := h.present hk
  rw [hfield]
  exact hd.read hw

lemma defaulting_absent (h : FieldsOf ms field) (hk : k ∉ ms.map Prod.fst) (b : α) :
    Node.defaulting b d (field k) = some b := by
  rw [h.absent hk]
  rfl

end FieldsOf

/-! ### Texts -/

/-- The text of a value is read as that value, as is every text that has its members in another
order, and no two values have one text. -/
structure RoundTrips (α : Type) [Codec α] (p : α → Prop) : Prop where
  ofText?_text : ∀ a, p a → Codec.ofText? (Codec.text a) = some a
  ofText?_reordered : ∀ a, p a → ∀ w, (Codec.encode a).Reordered w → Codec.ofText? w.text = some a
  text_injective : ∀ a b, p a → p b → Codec.text a = Codec.text b → a = b

theorem roundTrips_of_reads {α : Type} [Codec α] {p : α → Prop}
    (h : ∀ a, p a → Reads (Codec.decode? maxLevels) (Codec.encode a) a) : RoundTrips α p := by
  have reordered (a : α) (ha : p a) (w : Value) (hw : (Codec.encode a).Reordered w) :
      Codec.ofText? w.text = some a := by
    rw [Codec.ofText?, Value.read_text (hw.isWhole (h a ha).whole)]
    exact (h a ha).read hw
  have text (a : α) (ha : p a) : Codec.ofText? (Codec.text a) = some a :=
    reordered a ha _ (.refl _)
  refine ⟨text, reordered, fun a b ha hb hab => ?_⟩
  have := text a ha
  rw [hab, text b hb] at this
  exact (Option.some.inj this).symm

end TypedGraph.Json
