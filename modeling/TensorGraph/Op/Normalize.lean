import TensorGraph.Op.MatMul
import TensorGraph.Op.Elementwise

namespace TensorGraph

def requireFloat (opType : String) (t : DType) : Outcome Unit :=
  if t.isFloat then .ok () else fail (.floatExpected opType t)

def requireFloatFact (opType : String) (f : Fact) : Outcome Unit :=
  match f.dtype with
  | some t => requireFloat opType t
  | none => .ok ()

namespace Softmax

-- Exponentials over their sum along the axis; the greatest element is subtracted first, so there
-- must be one.
def eval (axis : Int) (x : Tensor) : Outcome Tensor := do
  requireFloat "Softmax" x.dtype
  let a ← normalizeAxis axis x.rank
  if x.shape.getD a 0 = 0 && Shape.size (Reduction.keptShape [a] x.shape) ≠ 0 then
    fail (.unworded .value)
  let binary (k : BinaryKind) (y z : Tensor) : Tensor :=
    .combine x.dtype (k.onScalars x.dtype) y z x.shape
  let shifted := binary .sub x (Reduction.max.reduce [a] x)
  let powers := shifted.map x.dtype (UnaryKind.exp.onScalar x.dtype)
  return binary .div powers (Reduction.sum.reduce [a] powers)

def infer (inputs outputs : Facts) : Outcome (Facts × Facts) := do
  let shared ← (inputs.pad 1 ++ outputs.pad 1).shareDType
  let (x,out) ← Facts.pair (← shared.shareShape)
  requireFloatFact "Softmax" x
  return ([x],[out])

end Softmax

namespace BatchNorm

-- `(x - mean) / sqrt (variance + epsilon) * scale + bias`, each step rounded.
def onFloats (f : Binary.Format) (epsilon x scale bias mean variance : Binary) : Binary :=
  let deviation := Binary.sqrt f (Binary.add f variance epsilon)
  Binary.add f (Binary.mul f (Binary.div f (Binary.sub f x mean) deviation) scale) bias

def onScalars (t : DType) (epsilon : Binary) (x scale bias mean variance : Scalar) : Scalar :=
  match t.layout,x,scale,bias,mean,variance with
  | .float f,.float x,.float s,.float b,.float m,.float v =>
    .float (onFloats f (epsilon.convert f) x s b m v)
  | _,x,_,_,_,_ => x

def eval (epsilon : Binary) (x scale bias mean variance : Tensor) : Outcome Tensor := do
  let parameters := [scale,bias,mean,variance]
  requireFloat "BatchNorm" x.dtype
  MatMul.requireSameDType "BatchNorm" (x :: parameters)
  if x.rank < 2 then fail .batchNormRank
  let channels := x.shape.getD 1 0
  unless parameters.all (·.shape == [channels]) do
    fail (.batchNormParameters channels (parameters.map Tensor.shape))
  return .tabulate x.dtype x.shape fun index =>
    let c := [index.getD 1 0]
    onScalars x.dtype epsilon (x.get index) (scale.get c) (bias.get c) (mean.get c) (variance.get c)

def infer (inputs outputs : Facts) : Outcome (Facts × Facts) := do
  let facts ← (inputs.pad 5 ++ outputs.pad 1).shareDType
  let x := Facts.first facts
  requireFloatFact "BatchNorm" x
  let both ← Facts.shareShape [x,facts.getD 5 .unknown]
  let x := Facts.first both
  let out := both.getD 1 .unknown
  let parameters ← Facts.shareShape (← ((facts.drop 1).take 4).mapM (·.withDims [.unknown]))
  match x.shape with
  | none => return (x :: parameters,[out])
  | some s =>
    match s with
    | batch :: c :: rest =>
      let parameters ← parameters.mapM (·.withDims [c])
      let channel := (((Facts.first parameters).shape.getD []).headD .unknown)
      let x ← x.withDims (batch :: channel :: rest)
      return (x :: parameters,[← out.withShape x.shape])
    | _ => fail .batchNormRank

end BatchNorm

end TensorGraph
