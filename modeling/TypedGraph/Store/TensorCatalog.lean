import TypedGraph.Store.Error

/-!
# Tensor catalogs

The tensors that are registered for each vertex group, in the order of registration. Of two
registrations of one name the later counts. A request is completed from the catalog in its
properties and its element type, and only where it leaves them open.
-/

namespace TypedGraph

/-- A registered tensor of a group. -/
structure Registration where
  name : String
  properties : List String
  dtype : DType
  deriving DecidableEq

def Registration.descriptor (group : String) (r : Registration) : TensorDescriptor :=
  ((TensorDescriptor.named (some group) r.name).withProperties r.properties).withDType r.dtype

/-- The registered tensors by group. -/
structure TensorCatalog where
  groups : SortedMap String (List Registration) := .empty
  deriving DecidableEq

namespace TensorCatalog

instance : Inhabited TensorCatalog := ⟨{}⟩

variable (c : TensorCatalog)

/-! ### Registering -/

/-- The catalog with one more tensor. -/
def register (group : String) (r : Registration) : TensorCatalog :=
  ⟨c.groups.alter group fun rs => rs.getD [] ++ [r]⟩

/-- The catalog of the default tensors: for every group the label, if there is a property of its
name, and then the feature, made of all other properties. -/
def defaults (groups properties : List String) (feature label : String)
    (propertyDType labelDType : DType) : TensorCatalog :=
  let labels := if properties.contains label then [⟨label, [label], labelDType⟩] else []
  let features := ⟨feature, properties.filter (· ≠ label), propertyDType⟩
  groups.foldl (fun c g => (labels ++ [features]).foldl (fun c r => c.register g r) c) {}

/-! ### Looking up -/

/-- The last registration of a name for a group. -/
def registration? (group name : String) : Option Registration :=
  (c.groups.get? group).bind fun rs => rs.reverse.find? (·.name = name)

/-- The descriptor of a name for a group. -/
def find? (group name : String) : Option TensorDescriptor :=
  (c.registration? group name).map (·.descriptor group)

/-- Every descriptor, by group and in the order of registration. -/
def all : List TensorDescriptor :=
  c.groups.entries.flatMap fun e => e.2.map (·.descriptor e.1)

def length : Nat := c.groups.values.flatten.length

/-! ### Inferring -/

/-- The registered descriptor that a request goes by. -/
def matching (d : TensorDescriptor) : Except LookupError TensorDescriptor :=
  match d.group.flat with
  | none => .error (.unnamedGroup d)
  | some group =>
    if !c.groups.contains group then .error (.unknownGroup group)
    else match d.name.flat with
      | none => .error (.unnamedTensor d)
      | some name =>
        match c.find? group name with
        | none => .error (.unregistered name group)
        | some r => .ok r

/-- The request with its properties and element type settled. -/
def infer (d : TensorDescriptor) : Except StoreError TensorDescriptor :=
  if d.properties.isSet && d.dtype.isSet then .ok d
  else match c.matching d with
    | .error e => .error (.lookup e)
    | .ok r =>
      .ok { d with properties := d.properties.orElse r.properties, dtype := d.dtype.orElse r.dtype }

end TensorCatalog

end TypedGraph
