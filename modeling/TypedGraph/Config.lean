import TypedGraph.DType

/-!
# Configuration

How a store treats the ids of its graph, what it names its tensors and which element types it uses,
with the words of settings and the JSON form.
-/

namespace TypedGraph

open Json

/-! ### Policies for ids -/

/-- How vertex ids come to be one block per type. -/
inductive IdPolicy where
  /-- Renumber, and keep the previous ids as a property. -/
  | auto
  /-- Renumber over the previous ids. -/
  | renumber
  /-- Take the ids to be in blocks already. -/
  | keep
  deriving DecidableEq

namespace IdPolicy

def name : IdPolicy → String
  | auto => "auto"
  | renumber => "renumber"
  | keep => "keep"

def table : List (String × IdPolicy) := [auto, renumber, keep].map fun p => (p.name, p)

/-- The words that a setting may use, with their policies. -/
def words : List (String × IdPolicy) :=
  [("auto", auto), ("", auto), ("renumber", renumber), ("true", renumber), ("1", renumber),
    ("keep", keep), ("false", keep), ("0", keep)]

def ofSetting (s : String) : Except Text.WordError IdPolicy :=
  match words.lookup (Text.word s) with
  | some p => .ok p
  | none => .error (.policy (Text.word s))

instance : Codec IdPolicy where
  encode p := .string p.name
  decode? := Node.bareCase? table

end IdPolicy

/-! ### Configurations -/

/-- The configuration of a store. -/
structure Config where
  policy : IdPolicy := .auto
  vertexDType : DType := .int64
  propertyDType : DType := .float32
  featureName : String := "x"
  labelName : String := "y"
  device : Device := .cpu
  deriving DecidableEq

namespace Config

/-- A setting's value, if the setting is there and can be read. -/
def setting? {α : Type} (read : String → Except Text.WordError α) (s : Option String) : Option α :=
  s.bind fun s => (read s).toOption

/-- The configuration that settings describe. A setting that is missing or cannot be read leaves its
default. -/
def ofSettings (get : String → Option String) : Config :=
  let c : Config := {}
  { policy := (setting? IdPolicy.ofSetting (get "RENUMBER")).getD c.policy
    vertexDType := (setting? DType.ofSetting (get "VERTEX_DTYPE")).getD c.vertexDType
    propertyDType := (setting? DType.ofSetting (get "PROPERTY_DTYPE")).getD c.propertyDType
    featureName := (get "FEATURE_ATTR").getD c.featureName
    labelName := (get "LABEL_ATTR").getD c.labelName
    device := c.device }

/-- Reads a configuration; every field may be left out. -/
def decode? : Nat → Node → Option Config
  | 0, _ => none
  | levels + 1, n => do
    let names :=
      ["renumber", "vertex_dtype", "property_dtype", "feature_attr", "label_attr", "device"]
    let c : Config := {}
    match ← n.fields? names (levels + 1) with
    | [r, v, p, f, l, d] =>
      pure
        { policy := ← Node.defaulting c.policy (Codec.decode? levels) r
          vertexDType := ← Node.defaulting c.vertexDType (Codec.decode? levels) v
          propertyDType := ← Node.defaulting c.propertyDType (Codec.decode? levels) p
          featureName := ← Node.defaulting c.featureName Node.string? f
          labelName := ← Node.defaulting c.labelName Node.string? l
          device := ← Node.defaulting c.device (Codec.decode? levels) d }
    | _ => none

instance : Codec Config where
  encode c :=
    .object [("device", Codec.encode c.device), ("feature_attr", .string c.featureName),
      ("label_attr", .string c.labelName), ("property_dtype", Codec.encode c.propertyDType),
      ("renumber", Codec.encode c.policy), ("vertex_dtype", Codec.encode c.vertexDType)]
  decode? := decode?

end Config

end TypedGraph
