import TensorGraph.Attribute

namespace TensorGraph

namespace Op

def plain (o : Op) (as : Attributes) : Outcome Op := do
  as.expect [] []
  return o

def ofConst (as : Attributes) : Outcome Op := do
  as.expect ["value"] ["datatype"]
  let dtype ← as.optional "datatype" (·.toDType)
  return const (← (as.getD "value" .null).toTensor dtype)

def ofPlaceholder (as : Attributes) : Outcome Op := do
  as.expect [] ["datatype","shape","fact"]
  let dtype ← as.optional "datatype" (·.toDType)
  let shape ← as.optional "shape" fun a => do (← a.items).mapM (·.toDim)
  match as.given? "fact" with
  | none => return placeholder (.outline dtype shape)
  | some (.fact f) => return placeholder (← f.unify (.outline dtype shape))
  | some _ => fail (.unworded .noAttribute)

def ofAxis (make : Int → Op) (standard : Int) (as : Attributes) : Outcome Op := do
  as.expect [] ["axis"]
  return make (← (as.getD "axis" (.int standard)).toInt)

def ofReshape (as : Attributes) : Outcome Op := do
  as.expect [] ["shape"]
  return reshape (← as.optional "shape" (·.toInts))

def ofTranspose (as : Attributes) : Outcome Op := do
  as.expect [] ["perm"]
  return transpose (← as.optional "perm" (·.toInts))

def ofSlice (as : Attributes) : Outcome Op := do
  as.expect ["begin","size"] []
  let starts ← (as.getD "begin" .null).toInts
  let sizes ← (as.getD "size" .null).toInts
  if starts.length ≠ sizes.length then fail .sliceLengths
  if starts.any (· < 0) || sizes.any (· < -1) then fail .sliceBounds
  return slice (List.zipWith
    (fun b s => ⟨b.toNat,if s < 0 then none else some s.toNat⟩) starts sizes)

def ofSqueeze (as : Attributes) : Outcome Op := do
  as.expect [] ["axes"]
  return squeeze (← as.optional "axes" (·.toInts))

def ofExpandDims (as : Attributes) : Outcome Op := do
  as.expect ["axes"] []
  return expandDims (← (as.getD "axes" .null).toInts)

def ofCast (as : Attributes) : Outcome Op := do
  as.expect ["to"] []
  return cast (← (as.getD "to" .null).toDType)

-- The reduction an attribute names in any case; an attribute that does not count stands for the
-- standard one.
def reductionOf (standard : Reduction) (kind : Attribute) : Outcome Reduction := do
  if !(← kind.truthy) then return standard
  let word ← kind.toWord Text.lower
  match Reduction.ofName? word,kind with
  | some r,_ => return r
  | none,.datum d => fail (.unknownReduction d.written)
  | none,_ => fail (.unworded .value)

def ofReduce (named : Option Reduction) (as : Attributes) : Outcome Op := do
  as.expect [] ["kind","axes","keepdims"]
  let r ← reductionOf (named.getD .sum) (as.getD "kind" .null)
  let axes ← as.optional "axes" (·.toInts)
  return reduce named r axes (← (as.getD "keepdims" (.bool true)).truthy)

def standardEpsilon : Binary := .ofDecimal .double false 1 (-5)

def ofBatchNorm (as : Attributes) : Outcome Op := do
  as.expect [] ["epsilon","momentum"]
  return batchNorm (← (as.getD "epsilon" (.float standardEpsilon)).toDouble)

def ofConv (as : Attributes) : Outcome Op := do
  as.expect [] ["strides","dilations","pads","auto_pad","padding","group","groups",
    "kernel_shape","data_format","kernel_format"]
  let strides ← as.pair "strides" 1
  let dilations ← as.pair "dilations" 1
  let padding ← as.padding
  let groups ← ((as.given? "groups").getD (as.getD "group" (.int 1))).toInt
  if groups ≤ 0 then fail .groupsNotPositive
  let kernelShape ← as.optional "kernel_shape" (·.toPair)
  let channelsLast ← as.layoutIs "data_format" "NCHW" "NHWC"
  let spatialFirst ← as.layoutIs "kernel_format" "OIHW" "HWIO"
  return conv ⟨strides,dilations,padding,groups.toNat,kernelShape,channelsLast,spatialFirst⟩

def ofPool (kind : PoolKind) (as : Attributes) : Outcome Op := do
  as.expect ["kernel_shape"] ["strides","pads","auto_pad","padding","data_format"]
  let kernel ← as.pair "kernel_shape" 1
  let strides ← as.pair "strides" 1
  let padding ← as.padding
  let channelsLast ← as.layoutIs "data_format" "NCHW" "NHWC"
  return pool kind ⟨kernel,strides,(1,1),padding,channelsLast⟩

def builders : List (String × (Attributes → Outcome Op)) :=
  let named (names : List String) (f : Attributes → Outcome Op) := names.map (·,f)
  let binaries : List BinaryKind := [.add,.sub,.mul,.div,.pow,.equal,.notEqual,.less,
    .lessEqual,.greater,.greaterEqual,.and,.or]
  let unaries : List UnaryKind := [.abs,.neg,.sqrt,.rsqrt,.exp,.log,.tanh,.floor,.ceil,
    .sigmoid,.relu,.not]
  let reductions : List Reduction := [.sum,.mean,.max,.min,.prod]
  List.flatten [
    named ["Const"] ofConst,
    named ["Placeholder","Source"] ofPlaceholder,
    named ["Identity"] (plain identity),
    binaries.map fun k => (k.opType,plain (binary k)),
    named ["Rem","FloorMod","Mod"] (plain (binary .rem)),
    named ["Maximum","Max"] (plain (binary .maximum)),
    named ["Minimum","Min"] (plain (binary .minimum)),
    named ["AddN"] (plain addN),
    unaries.map fun k => (k.opType,plain (unary k)),
    named ["Reshape"] ofReshape,
    named ["Transpose"] ofTranspose,
    named ["Concat"] (ofAxis concat 0),
    named ["Pack","Stack"] (ofAxis pack 0),
    named ["Slice"] ofSlice,
    named ["Squeeze"] ofSqueeze,
    named ["ExpandDims","Unsqueeze"] ofExpandDims,
    named ["Flatten"] (ofAxis flatten 1),
    named ["Cast"] ofCast,
    named ["Shape"] (plain shape),
    named ["Reduce"] (ofReduce none),
    reductions.map fun r => (reduceType (some r),ofReduce (some r)),
    named ["MatMul","BatchMatMul"] (plain matMul),
    named ["Softmax"] (ofAxis softmax (-1)),
    named ["BatchNorm","BatchNormalization"] ofBatchNorm,
    named ["Conv","Conv2D"] ofConv,
    named ["MaxPool"] (ofPool .max),
    named ["AvgPool","AveragePool"] (ofPool .average)]

end Op

abbrev Factory := Attributes → Outcome Operator

structure Registry where
  factories : List (String × Factory)

namespace Registry

def empty : Registry := ⟨[]⟩

def builtin : Registry :=
  ⟨Op.builders.map fun (name,build) => (name,fun as => (build as).map Op.operator)⟩

def get? (r : Registry) (name : String) : Option Factory := r.factories.lookup name

def register (r : Registry) (name : String) (f : Factory) : Registry :=
  ⟨(name,f) :: r.factories.filter (·.1 != name)⟩

def names (r : Registry) : List String := (r.factories.map (·.1)).mergeSort (· ≤ ·)

-- Names that the call itself uses and an attribute cannot have.
def reserved : List String := ["op_type","self"]

-- Make an operator. Attributes that a factory cannot read are reported under the name.
def create (r : Registry) (name : String) (as : Attributes) : Outcome Operator :=
  if as.any fun (k,_) => reserved.contains k then fail (.unworded .type)
  else match r.get? name with
  | none => fail (.unknownOperator name)
  | some make =>
    match make as with
    | .ok o => .ok o
    | .error f => if f.isBadValue then fail (.badAttributes name f.text) else .error f

end Registry

end TensorGraph
