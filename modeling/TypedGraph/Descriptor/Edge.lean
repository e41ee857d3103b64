import TypedGraph.Json.Codec

/-!
# Edge descriptors

An edge type with the types of its two ends, the key by which a caller names an edge type, and the
descriptor of an edge index: its key, layout, order and size.
-/

namespace TypedGraph

open Json

/-! ### Layouts -/

/-- The physical layout of an edge index. -/
inductive Layout where
  | coo
  | csc
  | csr
  deriving DecidableEq

namespace Layout

def name : Layout → String
  | coo => "coo"
  | csc => "csc"
  | csr => "csr"

def table : List (String × Layout) := [coo, csc, csr].map fun l => (l.name, l)

instance : Codec Layout where
  encode l := .string l.name
  decode? := Node.bareCase? table

end Layout

/-! ### Triples -/

/-- An edge type between the vertex types of its ends. -/
structure EdgeTriple where
  source : String
  edge : String
  destination : String
  deriving DecidableEq

namespace EdgeTriple

/-- The parts of a triple in order. -/
def parts (t : EdgeTriple) : List String := [t.source, t.edge, t.destination]

def text (t : EdgeTriple) : String := "(" ++ ", ".intercalate t.parts ++ ")"

theorem parts_inj {s t : EdgeTriple} : s.parts = t.parts ↔ s = t := by
  cases s
  cases t
  simp [parts]

/-- Triples are ordered part by part. -/
instance : LT EdgeTriple := ⟨fun s t => s.parts < t.parts⟩

instance : LE EdgeTriple := ⟨fun s t => List.le s.parts t.parts⟩

instance : DecidableLT EdgeTriple := fun s t => inferInstanceAs (Decidable (s.parts < t.parts))

instance : Std.IsLinearOrder EdgeTriple where
  le_refl s := List.le_refl s.parts
  le_trans _ _ _ h h' := List.le_trans h h'
  le_antisymm _ _ h h' := parts_inj.mp (List.le_antisymm h h')
  le_total s t := List.le_total s.parts t.parts

instance : Std.LawfulOrderLT EdgeTriple where
  lt_iff _ _ := ⟨fun h => ⟨List.lt_asymm h, not_not_intro h⟩, fun h => Classical.not_not.mp h.2⟩

/-- Reads a triple. -/
def decode? (levels : Nat) (n : Node) : Option EdgeTriple := do
  match ← n.fields? ["src_type", "edge_type", "dst_type"] levels with
  | [s, e, d] =>
    pure ⟨← Node.required Node.string? s, ← Node.required Node.string? e,
      ← Node.required Node.string? d⟩
  | _ => none

instance : Codec EdgeTriple where
  encode t :=
    .object [("dst_type", .string t.destination), ("edge_type", .string t.edge),
      ("src_type", .string t.source)]
  decode? := decode?

end EdgeTriple

/-! ### Keys -/

/-- How a caller names an edge type. -/
inductive EdgeKey where
  | name (edge : String)
  | triple (t : EdgeTriple)
  deriving DecidableEq

namespace EdgeKey

/-- The edge type that a key names. -/
def edge : EdgeKey → String
  | name e => e
  | triple t => t.edge

def text : EdgeKey → String
  | name e => e
  | triple t => t.text

/-- Reads a key: a string or a triple. The whole of it has to have a value. -/
def decode? (levels : Nat) (n : Node) : Option EdgeKey := do
  let _ ← n.value? levels
  match n.string? with
  | some e => pure (name e)
  | none => triple <$> EdgeTriple.decode? levels n

instance : Codec EdgeKey where
  encode
    | name e => .string e
    | triple t => Codec.encode t
  decode? := decode?

end EdgeKey

/-! ### Descriptors -/

/-- The descriptor of an edge index. -/
structure EdgeDescriptor where
  key : EdgeKey
  layout : Layout := .coo
  sorted : Bool := false
  size : Option (Nat × Nat) := none
  deriving DecidableEq

namespace EdgeDescriptor

def triple? (d : EdgeDescriptor) : Option EdgeTriple :=
  match d.key with
  | .triple t => some t
  | .name _ => none

def sizeValue (size : Nat × Nat) : Value := .array [.int size.1, .int size.2]

/-- Reads a count of 64 bits. -/
def count? (n : Node) : Option Nat := (n.int? 0 0xFFFFFFFFFFFFFFFF).map Int.toNat

/-- Reads a size: two counts. -/
def size? (levels : Nat) (n : Node) : Option (Nat × Nat) := do
  match ← n.list? (fun _ => count?) levels with
  | [r, c] => pure (r, c)
  | _ => none

/-- Reads a descriptor; all but the key may be left out. -/
def decode? : Nat → Node → Option EdgeDescriptor
  | 0, _ => none
  | levels + 1, n => do
    match ← n.fields? ["edge_type", "layout", "is_sorted", "size"] (levels + 1) with
    | [k, l, s, z] =>
      pure
        { key := ← Node.required (EdgeKey.decode? levels) k
          layout := ← Node.defaulting .coo (Codec.decode? levels) l
          sorted := ← Node.defaulting false Node.bool? s
          size := ← Node.defaulting none (Node.optional? (size? levels)) z }
    | _ => none

instance : Codec EdgeDescriptor where
  encode d :=
    .object ([("edge_type", Codec.encode d.key), ("is_sorted", .bool d.sorted),
      ("layout", Codec.encode d.layout)] ++ d.size.toList.map fun z => ("size", sizeValue z))
  decode? := decode?

end EdgeDescriptor

end TypedGraph
