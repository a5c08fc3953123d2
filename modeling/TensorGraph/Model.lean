import TensorGraph.Attribute
import TensorGraph.Text.Utf8

namespace TensorGraph.Model

-- Element types by number. Some name nothing that a tensor can hold.
def elementTypes : List (Int × String × Option DType) := [
  (0,"UNDEFINED",none),(1,"FLOAT",some .f32),(2,"UINT8",some .u8),(3,"INT8",some .i8),
  (4,"UINT16",some .u16),(5,"INT16",some .i16),(6,"INT32",some .i32),
  (7,"INT64",some .i64),(8,"STRING",some .string),(9,"BOOL",some .bool),
  (10,"FLOAT16",some .f16),(11,"DOUBLE",some .f64),(12,"UINT32",some .u32),
  (13,"UINT64",some .u64),(14,"COMPLEX64",none),(15,"COMPLEX128",none),
  (16,"BFLOAT16",none),(17,"FLOAT8E4M3FN",none),(18,"FLOAT8E4M3FNUZ",none),
  (19,"FLOAT8E5M2",none),(20,"FLOAT8E5M2FNUZ",none),(21,"UINT4",none),(22,"INT4",none)]

def elementNumber? (name : String) : Option Int :=
  (elementTypes.find? (·.2.1 = name)).map (·.1)

def elementType (number : Int) : Outcome DType :=
  match elementTypes.lookup number with
  | some (_,some t) => .ok t
  | some (name,none) => fail (.unsupportedModelType name)
  | none => fail (.unworded .value)

structure Array where
  elementType : Int
  dims : Shape
  elements : List Datum
  deriving Repr

-- The elements as a tensor; text stays untyped.
def Array.tensor (a : Array) : Outcome Tensor := do
  match elementTypes.lookup a.elementType with
  | some (_,some .string) => Tensor.ofElements .object a.dims a.elements
  | some (_,some t) => Tensor.ofElements t a.dims a.elements
  | _ => fail (.unworded .type)

structure Constant where
  name : String
  array : Array
  deriving Repr

structure Declaration where
  name : String
  elementType : Int
  -- Extents, as far as they are numbers.
  dims : Option (List (Option Int))
  deriving Repr

-- Value of an attribute as it is stored. Text is stored in bytes.
inductive Value where
  | int (i : Int)
  | float (x : Binary)
  | text (bytes : List Nat)
  | ints (is : List Int)
  | floats (xs : List Binary)
  | texts
  | array (a : Array)
  deriving Repr

namespace Value

-- Floats are stored in single precision.
def stored (x : Binary) : Datum := .float (Binary.convert .single x)

-- The value as an attribute of an operator. Lists of texts have no counterpart.
def attribute? : Value → Outcome (Option Attribute)
  | int i => .ok (some (.datum (.int i)))
  | float x => .ok (some (.datum (stored x)))
  | text bs => .ok (some (.datum (.text (Text.decodeUtf8 bs))))
  | ints is => .ok (some (.datum (.list (is.map .int))))
  | floats xs => .ok (some (.datum (.list (xs.map stored))))
  | texts => .ok none
  | array a => do return some (.array (← a.tensor))

end Value

-- One operation. A blank name means that there is no such input or output.
structure Step where
  op : String
  inputs : List String
  outputs : List String
  name : String
  attributes : List (String × Value)
  deriving Repr

end TensorGraph.Model

namespace TensorGraph

structure Model where
  name : String
  constants : List Model.Constant
  inputs : List Model.Declaration
  outputs : List Model.Declaration
  steps : List Model.Step
  deriving Repr

end TensorGraph
