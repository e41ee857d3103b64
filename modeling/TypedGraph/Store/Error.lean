import TypedGraph.Descriptor.Edge
import TypedGraph.Descriptor.Tensor
import TypedGraph.Graph.Error
import TypedGraph.Graph.Record
import TypedGraph.Tensor.Error

/-!
# Errors of a store

Errors by their kind, and within a kind by their cause. The errors of the graph and of tensors keep
their own kinds. `StoreError.message` words every one.
-/

namespace TypedGraph

open Decimal

/-- An end of an edge. -/
inductive EdgeEnd where
  | source
  | destination
  deriving DecidableEq

def EdgeEnd.name : EdgeEnd → String
  | source => "source"
  | destination => "destination"

/-- Why no store can be built. -/
inductive ConstructionError where
  | untypedEdges
  | unservedDevice (configured served : Device)
  | floatIds (dtype : DType)
  | invertedRange (range : TypeRange)
  | misplacedRange (range : TypeRange) (expected : Int)
  | repeatedRange (name : String)
  | noEdges (edge : String)
  | noIds (column : String)
  | noTexts (column : String)
  | untypedEnds (edge : String) (side : EdgeEnd)
  | mixedEnds (edge : String) (side : EdgeEnd) (first second : String)
  deriving DecidableEq

/-- Why something is not found. -/
inductive LookupError where
  | idOutside (id : Int) (total : Option Int)
  | unknownVertexType (name : String)
  | unknownEdgeType (name : String)
  | absentEdgeType (name : String)
  | missingRow (id : Int) (group : Option String)
  | unnamedGroup (descriptor : TensorDescriptor)
  | unnamedTensor (descriptor : TensorDescriptor)
  | unknownGroup (name : String)
  | unregistered (name group : String)
  | other (detail : String)
  deriving DecidableEq

/-- Why a request does not say enough. -/
inductive ValueError where
  | noEdgeTypes
  | noProperties (descriptor : TensorDescriptor)
  | incomplete (descriptor : TensorDescriptor)
  | someIncomplete (descriptors : List TensorDescriptor)
  deriving DecidableEq

/-- What a store does not offer. -/
inductive MissingFeature where
  | addEdges (key : EdgeKey)
  | addTensor (descriptor : TensorDescriptor)
  | removeTensor (descriptor : TensorDescriptor)
  deriving DecidableEq

/-- What a batch index lacks. -/
inductive ConsistencyError where
  | noGroup (type : String)
  | noVertex (id : Int) (type : String)
  deriving DecidableEq

/-- Which lists differ in length. -/
inductive LengthError where
  | sample (sources destinations numerals : Nat)
  | edges (key : EdgeKey) (sources destinations : Nat)
  deriving DecidableEq

/-- What a graph broke its promise about. -/
inductive InternalError where
  | noIds (column : String)
  | undecoded (numeral : Int)
  deriving DecidableEq

/-- Why an operation on a store fails. -/
inductive StoreError where
  | construction (cause : ConstructionError)
  | lookup (cause : LookupError)
  | unsupportedLayout (layout : Layout)
  | notImplemented (feature : MissingFeature)
  | value (cause : ValueError)
  | consistency (cause : ConsistencyError)
  | shapeMismatch (cause : LengthError)
  | internal (cause : InternalError)
  | graph (cause : GraphError)
  | tensor (cause : TensorError)
  deriving DecidableEq

/-! ### Messages -/

def ConstructionError.message : ConstructionError → String
  | untypedEdges => "unspecified edge types are not allowed"
  | unservedDevice configured served =>
    "configured device " ++ configured.text ++ " is not served by backend cpu (device "
      ++ served.text ++ ")"
  | floatIds dtype => "vertex ids need an integer dtype, got " ++ dtype.name
  | invertedRange r =>
    "vertex type " ++ r.name ++ " has inverted range [" ++ intText r.start ++ ", "
      ++ intText r.stop ++ ")"
  | misplacedRange r expected =>
    "vertex type " ++ r.name ++ " starts at " ++ intText r.start ++ ", expected "
      ++ intText expected
  | repeatedRange name => "vertex type " ++ name ++ " has more than one range"
  | noEdges edge => "edge type " ++ edge ++ " has no edges"
  | noIds column => "column " ++ column ++ " does not hold vertex ids"
  | noTexts column => "column " ++ column ++ " is not textual"
  | untypedEnds edge side =>
    "edge type " ++ edge ++ " has " ++ side.name ++ " vertices with no type"
  | mixedEnds edge side first second =>
    "edge type " ++ edge ++ " is associated with multiple " ++ side.name ++ " types (" ++ first
      ++ ", " ++ second ++ ", ...)"

def LookupError.message : LookupError → String
  | idOutside id total =>
    "vertex id " ++ intText id ++ " is outside every type range"
      ++ match total with
        | some n => " (total " ++ intText n ++ ")"
        | none => ""
  | unknownVertexType name => "unknown vertex type: " ++ name
  | unknownEdgeType name => "unknown edge type: " ++ name
  | absentEdgeType name => "edge type " ++ name ++ " is not present in the graph"
  | missingRow id group =>
    "vertex " ++ intText id ++ " has no row in group " ++ group.getD "<none>"
  | unnamedGroup d => "cannot infer " ++ d.text ++ " without a group name"
  | unnamedTensor d => "cannot infer " ++ d.text ++ " without an attribute name"
  | unknownGroup name => "invalid group name " ++ name
  | unregistered name group => "no tensor " ++ name ++ " registered for group " ++ group
  | other detail => detail

def ValueError.message : ValueError → String
  | noEdgeTypes => "a subgraph needs at least one edge type"
  | noProperties d => d.text ++ " names no properties"
  | incomplete d =>
    d.text ++ " is not fully specified; unset fields: " ++ ", ".intercalate d.unsetFields
  | someIncomplete ds =>
    "tensor attributes [" ++ ", ".intercalate (ds.map (·.text)) ++ "] are not fully specified"

def MissingFeature.message : MissingFeature → String
  | addEdges key => "adding edge indices is not supported (" ++ key.text ++ ")"
  | addTensor d => "adding properties is not supported (" ++ d.text ++ ")"
  | removeTensor d => "removing features is not supported (" ++ d.text ++ ")"

def ConsistencyError.message : ConsistencyError → String
  | noGroup type => "no nodes of interest of type " ++ type
  | noVertex id type =>
    "vertex " ++ intText id ++ " is missing from the " ++ type ++ " nodes of interest"

def LengthError.message : LengthError → String
  | sample s d n =>
    "sample has " ++ natText s ++ " sources, " ++ natText d ++ " destinations, " ++ natText n
      ++ " edge types"
  | edges key s d =>
    "edge type " ++ key.text ++ ": " ++ natText s ++ " sources but " ++ natText d ++ " destinations"

def InternalError.message : InternalError → String
  | noIds column => "column " ++ column ++ " does not hold vertex ids"
  | undecoded n => "edge type numeral " ++ intText n ++ " was not decoded"

def StoreError.message : StoreError → String
  | construction c => "construction error: " ++ c.message
  | lookup c => "lookup error: " ++ c.message
  | unsupportedLayout l =>
    "unsupported layout " ++ l.name ++ ": only COO direct access is supported"
  | notImplemented f => "not implemented: " ++ f.message
  | value c => "value error: " ++ c.message
  | consistency c => "consistency error: " ++ c.message
  | shapeMismatch c => "shape mismatch: " ++ c.message
  | internal c => "internal error: " ++ c.message
  | graph e => "graph: " ++ e.message
  | tensor e => "backend: " ++ e.message

end TypedGraph
