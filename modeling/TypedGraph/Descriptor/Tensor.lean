import TypedGraph.DType

/-!
# Tensor descriptors

What identifies a feature tensor: a vertex group, a name, the rows, the properties it is made of and
an element type. Each of the five may be left open, to be inferred; a setting that is open differs
from one that says "none". Main statements: `complete_isComplete` and `complete_of_isComplete`.
-/

namespace TypedGraph

open Json

/-! ### Settings -/

/-- A setting that may be left open. -/
inductive Setting (α : Type) where
  | unset
  | value (a : α)
  deriving DecidableEq

namespace Setting

variable {α : Type}

def isSet : Setting α → Bool
  | unset => false
  | value _ => true

def value? : Setting α → Option α
  | unset => none
  | value a => some a

/-- The setting, or another one where it is open. -/
def orElse : Setting α → Setting α → Setting α
  | unset, s => s
  | value a, _ => value a

/-- What an optional setting settles on: nothing if it is open or says "none". -/
def flat (s : Setting (Option α)) : Option α := s.value?.join

@[simp] theorem isSet_orElse_value (s : Setting α) (a : α) : (s.orElse (value a)).isSet := by
  cases s <;> rfl

theorem orElse_of_isSet {s : Setting α} (h : s.isSet) (t : Setting α) : s.orElse t = s := by
  cases s
  · simp [isSet] at h
  · rfl

/-- Reads a setting. -/
def decode? (decodeValue? : Nat → Node → Option α) (levels : Nat) (n : Node) :
    Option (Setting α) := do
  let (s, payload) ← n.case? levels
  if s = "unset" then
    guard (Node.isBare payload)
    pure unset
  else if s = "value" then value <$> payload.bind (decodeValue? (levels - 1))
  else none

def encode (encodeValue : α → Value) : Setting α → Value
  | unset => .string "unset"
  | value a => .object [("value", encodeValue a)]

end Setting

/-! ### Descriptors -/

/-- The descriptor of a feature tensor. -/
structure TensorDescriptor where
  group : Setting (Option String) := .unset
  name : Setting (Option String) := .unset
  index : Setting (Option (List Int)) := .unset
  properties : Setting (Option (List String)) := .unset
  dtype : Setting (Option DType) := .unset
  deriving DecidableEq

namespace TensorDescriptor

/-- The descriptor of a named tensor of a group. -/
def named (group : Option String) (name : String) : TensorDescriptor :=
  { group := .value group, name := .value (some name) }

def withIndex (d : TensorDescriptor) (ids : List Int) : TensorDescriptor :=
  { d with index := .value (some ids) }

def withProperties (d : TensorDescriptor) (names : List String) : TensorDescriptor :=
  { d with properties := .value (some names) }

def withDType (d : TensorDescriptor) (dtype : DType) : TensorDescriptor :=
  { d with dtype := .value (some dtype) }

/-! ### Open settings -/

/-- The settings that are open, by the names of their fields. -/
def unsetFields (d : TensorDescriptor) : List String :=
  [("group_name", d.group.isSet), ("attr_name", d.name.isSet), ("index", d.index.isSet),
    ("properties", d.properties.isSet), ("dtype", d.dtype.isSet)].filterMap
    fun f => if f.2 then none else some f.1

/-- Whether no setting is open. -/
def isComplete (d : TensorDescriptor) : Bool := d.unsetFields.isEmpty

/-- The descriptor in which every open setting says "none". -/
def complete (d : TensorDescriptor) : TensorDescriptor :=
  { group := d.group.orElse (.value none)
    name := d.name.orElse (.value none)
    index := d.index.orElse (.value none)
    properties := d.properties.orElse (.value none)
    dtype := d.dtype.orElse (.value none) }

/-- The descriptor overridden by every setting that another one has. -/
def update (d other : TensorDescriptor) : TensorDescriptor :=
  { group := other.group.orElse d.group
    name := other.name.orElse d.name
    index := other.index.orElse d.index
    properties := other.properties.orElse d.properties
    dtype := other.dtype.orElse d.dtype }

theorem isComplete_iff {d : TensorDescriptor} :
    d.isComplete ↔ d.group.isSet ∧ d.name.isSet ∧ d.index.isSet ∧ d.properties.isSet ∧
      d.dtype.isSet := by
  unfold isComplete unsetFields
  cases d.group.isSet <;> cases d.name.isSet <;> cases d.index.isSet <;>
    cases d.properties.isSet <;> cases d.dtype.isSet <;> simp

theorem complete_isComplete (d : TensorDescriptor) : d.complete.isComplete := by
  simp [isComplete_iff, complete]

theorem complete_of_isComplete {d : TensorDescriptor} (h : d.isComplete) : d.complete = d := by
  obtain ⟨hg, hn, hi, hp, ht⟩ := isComplete_iff.mp h
  simp [complete, Setting.orElse_of_isSet, hg, hn, hi, hp, ht]

/-! ### Text -/

/-- The text of a name that may be open or absent. -/
def nameText : Setting (Option String) → String
  | .unset => "<unset>"
  | .value none => "<none>"
  | .value (some s) => s

def text (d : TensorDescriptor) : String :=
  "TensorAttr(" ++ nameText d.group ++ ", " ++ nameText d.name ++ ")"

/-! ### JSON form -/

def id? (n : Node) : Option Int := n.int? (-0x8000000000000000) 0x7FFFFFFFFFFFFFFF

def optionalString? (_ : Nat) : Node → Option (Option String) := Node.optional? Node.string?

def setting? {α : Type} (decode? : Nat → Node → Option α) (levels : Nat)
    (field : Option Node) : Option (Setting α) :=
  Node.defaulting .unset (Setting.decode? decode? levels) field

/-- Reads a descriptor; every setting may be left out. -/
def decode? : Nat → Node → Option TensorDescriptor
  | 0, _ => none
  | levels + 1, n => do
    match ← n.fields? ["group_name", "attr_name", "index", "properties", "dtype"] (levels + 1) with
    | [g, a, i, p, t] =>
      pure
        { group := ← setting? optionalString? levels g
          name := ← setting? optionalString? levels a
          index := ← setting? (fun l => Node.optional? (Node.list? (fun _ => id?) l)) levels i
          properties :=
            ← setting? (fun l => Node.optional? (Node.list? (fun _ => Node.string?) l)) levels p
          dtype := ← setting? (fun l => Node.optional? (Codec.decode? l)) levels t }
    | _ => none

instance : Codec TensorDescriptor where
  encode d :=
    .object [("attr_name", d.name.encode (Value.ofOption .string)),
      ("dtype", d.dtype.encode (Value.ofOption Codec.encode)),
      ("group_name", d.group.encode (Value.ofOption .string)),
      ("index", d.index.encode (Value.ofOption (Value.ofList .int))),
      ("properties", d.properties.encode (Value.ofOption (Value.ofList .string)))]
  decode? := decode?

end TensorDescriptor

end TypedGraph
