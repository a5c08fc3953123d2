import TensorGraph.Op.Axes
import TensorGraph.Op.Cast
import TensorGraph.Op.Convolution
import TensorGraph.Op.Elementwise
import TensorGraph.Op.Join
import TensorGraph.Op.Pooling
import TensorGraph.Op.Reduction
import TensorGraph.Op.Reshape
import TensorGraph.Op.Slice
import TensorGraph.Operator

namespace TensorGraph

inductive Op where
  | const (value : Tensor)
  | placeholder (fact : Fact)
  | identity
  | binary (kind : BinaryKind)
  | addN
  | unary (kind : UnaryKind)
  | reshape (target : Option (List Int))
  | transpose (perm : Option (List Int))
  | concat (axis : Int)
  | pack (axis : Int)
  | slice (spans : List Span)
  | squeeze (axes : Option (List Int))
  | expandDims (axes : List Int)
  | flatten (axis : Int)
  | cast (target : DType)
  | shape
  -- The operator of any reduction, or the one named for a reduction.
  | reduce (named : Option Reduction) (reduction : Reduction) (axes : Option (List Int))
      (keepDims : Bool)
  | matMul
  | softmax (axis : Int)
  | batchNorm (epsilon : Binary)
  | conv (convolution : Convolution)
  | pool (kind : PoolKind) (patch : Patch)
  deriving Repr

namespace Op

def reduceType : Option Reduction → String
  | none => "Reduce"
  | some .sum => "ReduceSum"
  | some .mean => "ReduceMean"
  | some .max => "ReduceMax"
  | some .min => "ReduceMin"
  | some .prod => "ReduceProd"

def opType : Op → String
  | const _ => "Const"
  | placeholder _ => "Placeholder"
  | identity => "Identity"
  | binary k => k.opType
  | addN => "AddN"
  | unary k => k.opType
  | reshape _ => "Reshape"
  | transpose _ => "Transpose"
  | concat _ => "Concat"
  | pack _ => "Pack"
  | slice _ => "Slice"
  | squeeze _ => "Squeeze"
  | expandDims _ => "ExpandDims"
  | flatten _ => "Flatten"
  | cast _ => "Cast"
  | shape => "Shape"
  | reduce named .. => reduceType named
  | matMul => "MatMul"
  | softmax _ => "Softmax"
  | batchNorm _ => "BatchNorm"
  | conv _ => "Conv"
  | pool k _ => k.opType

def arity : Op → Arity
  | const _ | placeholder _ => .exactly 0
  | binary _ | matMul => .exactly 2
  | addN | concat _ | pack _ => .variadic
  | reshape _ => .between 1 2
  | conv _ => .between 2 3
  | batchNorm _ => .exactly 5
  | _ => .exactly 1

def isConst : Op → Bool
  | const _ => true
  | _ => false

def isFoldable : Op → Bool
  | placeholder _ => false
  | _ => true

def declared : Op → Option Fact
  | placeholder f => some f
  | _ => none

def listText : Option (List Int) → String
  | none => "None"
  | some xs => Text.integers xs

def pairText (p : Int × Int) : String := Text.integers [p.1,p.2]

def attributes : Op → List (String × String)
  | const t => [("datatype",Text.quote t.dtype.name),("shape",Text.extents t.shape)]
  | placeholder f => [("fact",Text.quote f.text)]
  | reshape none => []
  | reshape target => [("shape",listText target)]
  | transpose perm => [("perm",listText perm)]
  | concat axis | pack axis | flatten axis | softmax axis => [("axis",toString axis)]
  | slice spans =>
    [("begin",Text.bracketed (spans.map fun s => toString s.start)),
      ("size",Text.bracketed (spans.map Span.sizeText))]
  | squeeze axes => [("axes",listText axes)]
  | expandDims axes => [("axes",Text.integers axes)]
  | cast t => [("to",Text.quote t.name)]
  | reduce _ r axes keepDims =>
    [("kind",Text.quote r.name),("axes",listText axes),("keepdims",Datum.boolText keepDims)]
  | batchNorm epsilon => [("epsilon",epsilon.text .double)]
  | conv c =>
    [("strides",pairText c.strides),("dilations",pairText c.dilations),
      ("padding",c.padding.text),("groups",toString c.groups)]
  | pool _ p =>
    [("kernel_shape",pairText p.kernel),("strides",pairText p.strides),
      ("padding",p.padding.text)]
  | _ => []

def describe (o : Op) : String := Operator.describeWith o.opType o.attributes

-- The outputs for some inputs. A number of inputs that matches no case is a fault.
def eval (o : Op) (inputs : List Tensor) : Outcome (List Tensor) :=
  let one (t : Outcome Tensor) : Outcome (List Tensor) := t.map ([·])
  match o,inputs with
  | placeholder _,_ => fail .placeholderUnfed
  | const t,[] => .ok [t]
  | identity,[x] => .ok [x]
  | binary k,[a,b] => one (k.eval a b)
  | addN,x :: rest => one (AddN.eval x rest)
  | unary k,[x] => one (k.eval x)
  | reshape target,[x] => one (Reshape.eval target x none)
  | reshape target,[x,s] => one (Reshape.eval target x (some s))
  | transpose perm,[x] => one (Transpose.eval perm x)
  | concat axis,x :: rest => one (Concat.eval axis x rest)
  | pack axis,x :: rest => one (Pack.eval axis x rest)
  | slice spans,[x] => one (Slice.eval spans x)
  | squeeze axes,[x] => one (Squeeze.eval axes x)
  | expandDims axes,[x] => one (ExpandDims.eval axes x)
  | flatten axis,[x] => one (Flatten.eval axis x)
  | cast t,[x] => one (Cast.eval t x)
  | shape,[x] => .ok [ShapeOf.eval x]
  | reduce named r axes keepDims,[x] => one (r.eval (reduceType named) axes keepDims x)
  | matMul,[a,b] => one (MatMul.eval a b)
  | softmax axis,[x] => one (Softmax.eval axis x)
  | batchNorm epsilon,[x,s,b,m,v] => one (BatchNorm.eval epsilon x s b m v)
  | conv c,[x,w] => one (c.eval x w none)
  | conv c,[x,w,b] => one (c.eval x w (some b))
  | pool k p,[x] => one (Pooling.eval k p x)
  | o,inputs => fail (.arity o.opType o.arity inputs.length)

def inferSource (known : Fact) (inputs outputs : Facts) : Outcome (Facts × Facts) := do
  return (inputs,[← (Facts.first outputs).unify known])

def inferIdentity (inputs outputs : Facts) : Outcome (Facts × Facts) := do
  let shared ← Facts.shareDType [Facts.first inputs,Facts.first outputs]
  let (x,out) ← Facts.pair (← shared.shareShape)
  match x,out with
  | .constant _,_ => return ([x],[← out.unify x])
  | _,.constant _ => return ([← x.unify out],[out])
  | _,_ => return ([x],[out])

def infer (o : Op) (inputs outputs : Facts) : Outcome (Facts × Facts) :=
  match o with
  | const t => inferSource (.constant t) inputs outputs
  | placeholder f => inferSource f inputs outputs
  | identity => inferIdentity inputs outputs
  | binary k => k.infer inputs outputs
  | addN => AddN.infer inputs outputs
  | unary k => k.infer inputs outputs
  | reshape target => Reshape.infer target inputs outputs
  | transpose perm => Transpose.infer perm inputs outputs
  | concat axis => Concat.infer axis inputs outputs
  | pack axis => Pack.infer axis inputs outputs
  | slice spans => Slice.infer spans inputs outputs
  | squeeze axes => Squeeze.infer axes inputs outputs
  | expandDims axes => ExpandDims.infer axes inputs outputs
  | flatten axis => Flatten.infer axis inputs outputs
  | cast t => Cast.infer t inputs outputs
  | shape => ShapeOf.infer inputs outputs
  | reduce named _ axes keepDims => Reduction.infer (reduceType named) axes keepDims inputs outputs
  | matMul => MatMul.infer inputs outputs
  | softmax _ => Softmax.infer inputs outputs
  | batchNorm _ => BatchNorm.infer inputs outputs
  | conv c => c.infer inputs outputs
  | pool k p => Pooling.infer k p inputs outputs

theorem eval_isConst {o : Op} (h : o.isConst = true) {inputs outputs alone : List Tensor}
    (he : o.eval inputs = .ok outputs) (ha : o.eval [] = .ok alone) : outputs = alone := by
  cases o <;> simp only [isConst,Bool.false_eq_true] at h
  cases inputs with
  | nil => exact Except.ok.inj (he.symm.trans ha)
  | cons x rest => simp [eval,fail] at he

def operator (o : Op) : Operator where
  opType := o.opType
  arity := o.arity
  outputCount := 1
  isConst := o.isConst
  isFoldable := o.isFoldable
  declared := o.declared
  describe := o.describe
  eval := o.eval
  infer := o.infer
  eval_const := fun h _ _ _ => eval_isConst h

end Op

end TensorGraph
