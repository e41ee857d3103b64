import TypedGraph.Config
import TypedGraph.Descriptor.Edge
import TypedGraph.Descriptor.Tensor
import TypedGraph.Proofs.JsonRecords

/-!
# Descriptors and configurations as texts

Every edge type, key, descriptor and configuration with numbers in range is read from its text as it
was written (`descriptors_roundTrip`), whatever order its members are in. So no two of them share a
text: a name is never taken for a triple, a size that is known is not lost, and a setting that is
open differs from one that says "none" and from one that says an empty list.
-/

namespace TypedGraph

open Json

/-! ### Enumerations -/

lemma DType.reads (levels : Nat) (t : DType) : Reads (Codec.decode? levels) (Codec.encode t) t :=
  .bareCase (by cases t <;> decide) levels

lemma Layout.reads (levels : Nat) (l : Layout) : Reads (Codec.decode? levels) (Codec.encode l) l :=
  .bareCase (by cases l <;> decide) levels

lemma IdPolicy.reads (levels : Nat) (p : IdPolicy) :
    Reads (Codec.decode? levels) (Codec.encode p) p :=
  .bareCase (by cases p <;> decide) levels

namespace Device

/-- Whether the index of a graphics device has 32 bits. -/
def InRange : Device → Prop
  | cpu => True
  | gpu n => n ≤ 0xFFFFFFFF

lemma reads (levels : Nat) {d : Device} (hd : d.InRange) :
    Reads (decode? (levels + 1)) (Codec.encode d) d := by
  cases d with
  | cpu =>
    refine ⟨trivial, ?_⟩
    rintro _ ⟨⟩
    rfl
  | gpu n =>
    have hn : (n : Int) ≤ 0xFFFFFFFF := Int.ofNat_le.mpr hd
    have hint := Reads.int (by decide) (by decide) ⟨Int.natCast_nonneg n, hn⟩
    refine ⟨⟨hint.whole, trivial⟩, fun hw => ?_⟩
    obtain ⟨i, hi, hcase⟩ := case?_of_reordered levels hw
    simp [decode?, hcase, hint.read hi]

end Device

lemma Setting.reads {α : Type} {d : Nat → Node → Option α} {encode : α → Value} {levels : Nat}
    {s : Setting α} (h : ∀ a, s = .value a → Reads (d levels) (encode a) a) :
    Reads (Setting.decode? d (levels + 1)) (s.encode encode) s := by
  cases s with
  | unset =>
    refine ⟨trivial, ?_⟩
    rintro _ ⟨⟩
    rfl
  | value a =>
    refine ⟨⟨(h a rfl).whole, trivial⟩, fun hw => ?_⟩
    obtain ⟨v, hv, hcase⟩ := case?_of_reordered levels hw
    simp [Setting.decode?, hcase, (h a rfl).read hv]

/-! ### Edge types -/

lemma EdgeTriple.reads (levels : Nat) (t : EdgeTriple) :
    Reads (decode? (levels + 1)) (Codec.encode t) t := by
  refine ⟨⟨trivial, trivial, trivial, trivial⟩, fun hw => ?_⟩
  obtain ⟨field, hfield, hread⟩ := exists_fieldsOf (by simp) hw
  have hs := hfield.required (k := "src_type") (by simp) (.string t.source)
  have he := hfield.required (k := "edge_type") (by simp) (.string t.edge)
  have hd := hfield.required (k := "dst_type") (by simp) (.string t.destination)
  simp [decode?, hread, hs, he, hd]

namespace EdgeKey

/-- Members that are strings have values. -/
lemma isSome_members?_of_strings (levels : Nat) {ns : List (String × Value)}
    (h : ∀ n ∈ ns, ∃ s, n.2 = .string s) :
    (Node.members? levels (Value.memberNodes ns)).isSome := by
  induction ns with
  | nil => rfl
  | cons n ns ih =>
    obtain ⟨k, v⟩ := n
    obtain ⟨⟨s, hs⟩, hns⟩ := List.forall_mem_cons.mp h
    obtain ⟨ms, hms⟩ := Option.isSome_iff_exists.mp (ih hns)
    obtain rfl : v = .string s := hs
    simp [Value.memberNodes, Value.node, Node.members?, Node.value?, hms]

/-- A triple has a value, as a key is asked to have before it is read. -/
lemma exists_value?_triple (levels : Nat) {t : EdgeTriple} {w : Value}
    (hw : (Codec.encode t).Reordered w) : ∃ v, w.node.value? (levels + 1) = some v := by
  obtain ⟨ns, rfl, hns⟩ := Value.reordered_object_iff.mp hw
  have hstrings : ∀ n ∈ ns, ∃ s, n.2 = .string s := by
    rintro ⟨k, w⟩ hmem
    obtain ⟨v, hv, hmem⟩ := hns.exists_mem_of_mem hmem
    have hstring : ∃ s, v = .string s := by
      simp only [List.mem_cons, List.not_mem_nil, or_false, Prod.mk.injEq] at hmem
      rcases hmem with ⟨-, rfl⟩ | ⟨-, rfl⟩ | ⟨-, rfl⟩ <;> exact ⟨_, rfl⟩
    obtain ⟨s, rfl⟩ := hstring
    cases hv
    exact ⟨s, rfl⟩
  obtain ⟨vs, hvs⟩ := Option.isSome_iff_exists.mp (isSome_members?_of_strings levels hstrings)
  exact ⟨.ofMap (.ofList vs), by simp [Value.node, Node.value?, hvs]⟩

lemma reads (levels : Nat) (k : EdgeKey) : Reads (decode? (levels + 1)) (Codec.encode k) k := by
  cases k with
  | name e =>
    refine ⟨trivial, ?_⟩
    rintro _ ⟨⟩
    rfl
  | triple t =>
    refine ⟨(t.reads levels).whole, fun {w} hw => ?_⟩
    obtain ⟨v, hv⟩ := exists_value?_triple levels hw
    have hstring : w.node.string? = none := by
      obtain ⟨ns, rfl, -⟩ := Value.reordered_object_iff.mp hw
      rfl
    simp [decode?, hv, hstring, (t.reads levels).read hw]

end EdgeKey

/-! ### Descriptors -/

namespace EdgeDescriptor

/-- Whether the size has counts of 64 bits. -/
def InRange (d : EdgeDescriptor) : Prop :=
  ∀ z ∈ d.size, z.1 ≤ 0xFFFFFFFFFFFFFFFF ∧ z.2 ≤ 0xFFFFFFFFFFFFFFFF

lemma reads_count {n : Nat} (h : n ≤ 0xFFFFFFFFFFFFFFFF) : Reads count? (.int n) n :=
  (Reads.int (by decide) (by decide) ⟨Int.natCast_nonneg n, Int.ofNat_le.mpr h⟩).map Int.toNat

lemma reads_size (levels : Nat) {z : Nat × Nat}
    (hz : z.1 ≤ 0xFFFFFFFFFFFFFFFF ∧ z.2 ≤ 0xFFFFFFFFFFFFFFFF) :
    Reads (size? (levels + 1)) (sizeValue z) z := by
  have hlist : Reads (Node.list? (fun _ => count?) (levels + 1))
      (.ofList (fun n : Nat => .int n) [z.1, z.2]) [z.1, z.2] :=
    .list (by simpa using And.intro (reads_count hz.1) (reads_count hz.2))
  exact ⟨hlist.whole, fun hw => by simp [size?, hlist.read hw]⟩

lemma reads (levels : Nat) {d : EdgeDescriptor} (hd : d.InRange) :
    Reads (decode? (levels + 2)) (Codec.encode d) d := by
  obtain ⟨key, layout, sorted, size⟩ := d
  have hsize : Reads (Node.optional? (size? (levels + 1))) (.ofOption sizeValue size) size :=
    .optional rfl fun z hz => reads_size levels (hd z hz)
  constructor
  · refine ⟨(key.reads levels).whole, trivial, trivial, ?_⟩
    cases size with
    | none => trivial
    | some z => exact ⟨hsize.whole, trivial⟩
  · intro w hw
    obtain ⟨field, hfield, hread⟩ := exists_fieldsOf (by cases size <;> simp) hw
    have hk := hfield.required (k := "edge_type") (by simp) (key.reads levels)
    have hl := hfield.defaulting (k := "layout") (by simp) (layout.reads (levels + 1)) .coo
    have hs := hfield.defaulting (k := "is_sorted") (by simp) (.bool sorted) false
    have hz : Node.defaulting none (Node.optional? (size? (levels + 1))) (field "size") =
        some size := by
      cases size with
      | none => exact hfield.defaulting_absent (by simp) none
      | some z => exact hfield.defaulting (by simp [Value.ofOption]) hsize none
    simp only [decode?, hread]
    simp [hk, hl, hs, hz]

end EdgeDescriptor

namespace TensorDescriptor

/-- Whether the ids of the rows are signed 64-bit integers. -/
def InRange (d : TensorDescriptor) : Prop :=
  ∀ ids, d.index = .value (some ids) → ∀ i ∈ ids, isSigned64 i

lemma reads_id {i : Int} (h : isSigned64 i) : Reads id? (.int i) i := by
  have h : -0x8000000000000000 ≤ i ∧ i < 0x8000000000000000 := by simpa [isSigned64] using h
  exact .int (by decide) (by decide) ⟨h.1, by omega⟩

lemma reads_optionalString (levels : Nat) (s : Option String) :
    Reads (optionalString? levels) (.ofOption .string s) s :=
  .optional rfl fun s _ => .string s

lemma reads_optionalList {α : Type} {d : Nat → Node → Option α} {encode : α → Value}
    {levels : Nat} {as : Option (List α)}
    (h : ∀ bs ∈ as, ∀ b ∈ bs, Reads (d levels) (encode b) b) :
    Reads (Node.optional? (Node.list? d (levels + 1))) (.ofOption (.ofList encode) as) as :=
  .optional rfl fun bs hbs => .list (h bs hbs)

lemma setting?_eq_some {α : Type} {d : Nat → Node → Option α} {v : Value} {levels : Nat}
    {ms : List (String × Value)} {field : String → Option Node} {k : String} {s : Setting α}
    (hfield : FieldsOf ms field) (hk : (k, v) ∈ ms) (h : Reads (Setting.decode? d levels) v s) :
    setting? d levels (field k) = some s :=
  hfield.defaulting hk h .unset

lemma reads (levels : Nat) {d : TensorDescriptor} (hd : d.InRange) :
    Reads (decode? (levels + 3)) (Codec.encode d) d := by
  obtain ⟨group, name, index, properties, dtype⟩ := d
  have hg : Reads (Setting.decode? optionalString? (levels + 2)) _ group :=
    Setting.reads fun s _ => reads_optionalString _ s
  have hn : Reads (Setting.decode? optionalString? (levels + 2)) _ name :=
    Setting.reads fun s _ => reads_optionalString _ s
  have hi : Reads (Setting.decode? (fun l => Node.optional? (Node.list? (fun _ => id?) l))
      (levels + 2)) _ index :=
    Setting.reads fun _ h => reads_optionalList fun ids hids i hi => reads_id <|
      hd ids (h.trans (congrArg _ hids)) i hi
  have hp : Reads (Setting.decode? (fun l => Node.optional? (Node.list? (fun _ => Node.string?) l))
      (levels + 2)) _ properties :=
    Setting.reads fun _ _ => reads_optionalList fun _ _ s _ => .string s
  have ht : Reads (Setting.decode? (fun l => Node.optional? (Codec.decode? l)) (levels + 2)) _
      dtype :=
    Setting.reads fun _ _ => .optional rfl fun t _ => t.reads _
  refine ⟨⟨hn.whole, ht.whole, hg.whole, hi.whole, hp.whole, trivial⟩, fun hw => ?_⟩
  obtain ⟨field, hfield, hread⟩ := exists_fieldsOf (by simp) hw
  have hg := setting?_eq_some (k := "group_name") hfield (by simp) hg
  have hn := setting?_eq_some (k := "attr_name") hfield (by simp) hn
  have hi := setting?_eq_some (k := "index") hfield (by simp) hi
  have hp := setting?_eq_some (k := "properties") hfield (by simp) hp
  have ht := setting?_eq_some (k := "dtype") hfield (by simp) ht
  simp only [decode?, hread]
  simp [hg, hn, hi, hp, ht]

end TensorDescriptor

namespace Config

/-- Whether the index of a graphics device has 32 bits. -/
def InRange (c : Config) : Prop := c.device.InRange

lemma reads (levels : Nat) {c : Config} (hc : c.InRange) :
    Reads (decode? (levels + 2)) (Codec.encode c) c := by
  have hd : Reads (Codec.decode? (levels + 1)) (Codec.encode c.device) c.device :=
    Device.reads levels hc
  refine ⟨⟨hd.whole, trivial, trivial, trivial, trivial, trivial, trivial⟩, fun hw => ?_⟩
  obtain ⟨field, hfield, hread⟩ := exists_fieldsOf (by simp) hw
  have hr := hfield.defaulting (k := "renumber") (by simp) (c.policy.reads (levels + 1))
  have hv := hfield.defaulting (k := "vertex_dtype") (by simp) (c.vertexDType.reads (levels + 1))
  have hp := hfield.defaulting (k := "property_dtype") (by simp)
    (c.propertyDType.reads (levels + 1))
  have hf := hfield.defaulting (k := "feature_attr") (by simp) (.string c.featureName)
  have hl := hfield.defaulting (k := "label_attr") (by simp) (.string c.labelName)
  have hd := hfield.defaulting (k := "device") (by simp) hd
  simp only [decode?, hread]
  simp [hr, hv, hp, hf, hl, hd]

end Config

/-! ### Round trips -/

/-- Edge types and keys round trip through their texts, and so do descriptors of edge indices with
counts of 64 bits, descriptors of tensors with signed 64-bit ids, and configurations with a device
index of 32 bits. -/
theorem descriptors_roundTrip :
    RoundTrips EdgeTriple (fun _ => True) ∧ RoundTrips EdgeKey (fun _ => True) ∧
      RoundTrips EdgeDescriptor EdgeDescriptor.InRange ∧
      RoundTrips TensorDescriptor TensorDescriptor.InRange ∧
      RoundTrips Config Config.InRange := by
  refine ⟨?_, ?_, ?_, ?_, ?_⟩
  · exact roundTrips_of_reads fun t _ => t.reads 126
  · exact roundTrips_of_reads fun k _ => k.reads 126
  · exact roundTrips_of_reads fun _ hd => EdgeDescriptor.reads 125 hd
  · exact roundTrips_of_reads fun _ hd => TensorDescriptor.reads 124 hd
  · exact roundTrips_of_reads fun _ hc => Config.reads 125 hc

/-- A descriptor with an open setting, one that says "none" and one that says an empty list. -/
theorem descriptors_roundTrip_settings :
    let d : TensorDescriptor :=
      { group := .value none, name := .value (some "\"x\"\n"), index := .value (some []) }
    d.InRange ∧ Codec.ofText? (Codec.text d) = some d := by
  intro d
  have hd : d.InRange := by
    rintro ids h i hi
    obtain rfl : [] = ids := Option.some.inj (Setting.value.inj h)
    simp at hi
  exact ⟨hd, descriptors_roundTrip.2.2.2.1.ofText?_text d hd⟩

example : Codec.ofText?
    "\x7b\"src_type\":\"user\",\"edge_type\":\"buys\",\"dst_type\":\"item\"\x7d" =
      some (EdgeTriple.mk "user" "buys" "item") := by
  decide +kernel

end TypedGraph
