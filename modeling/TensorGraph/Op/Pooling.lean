import TensorGraph.Op.Normalize
import TensorGraph.Op.Window

namespace TensorGraph

inductive PoolKind where
  | max | average
  deriving DecidableEq, Repr

namespace PoolKind

def opType : PoolKind → String
  | max => "MaxPool"
  | average => "AvgPool"

def checkDType (k : PoolKind) (t : DType) : Outcome Unit :=
  match k with
  | max => if t.isNumeric then .ok () else fail (.unsupportedDType k.opType t)
  | average => if t.isFloat then .ok () else fail (.floatExpected k.opType t)

end PoolKind

namespace Pooling

-- Padding adds nothing to either pool: it is below every element, and it is not counted.
def lowest (t : DType) : Scalar :=
  match t.layout with
  | .float _ => .float (.infinite true)
  | .integer signed bits => .int (DType.lowest signed bits)
  | _ => .zero t

def greatest (p : Patch) (x : Tensor) : Outcome Tensor := do
  let height := x.shape.getD 2 0
  let width := x.shape.getD 3 0
  let (rows,columns) ← p.outputPair height width
  let padded ← Image.pad x (lowest x.dtype) rows columns
  if rows.count < 0 || columns.count < 0 then fail (.unworded .value)
  (p.views padded height width rows columns).foldlM
    (fun most (_,_,view) =>
      match Tensor.zipWith? x.dtype (BinaryKind.maximum.onScalars x.dtype) most view with
      | some most => .ok most
      | none => fail (.unworded .value))
    (.fill x.dtype [x.shape.getD 0 0,x.shape.getD 1 0,rows.count.toNat,columns.count.toNat]
      (lowest x.dtype))

def mean (p : Patch) (x : Tensor) : Outcome Tensor := do
  let height := x.shape.getD 2 0
  let width := x.shape.getD 3 0
  let (rows,columns) ← p.outputPair height width
  let zero := Scalar.zero x.dtype
  let padded ← Image.pad x zero rows columns
  let mask ← Image.pad (.fill x.dtype [1,1,height,width] (.float .one)) zero rows columns
  if rows.count < 0 || columns.count < 0 then fail (.unworded .value)
  let views := p.views padded height width rows columns
  let masks := p.views mask height width rows columns
  let (total,count) ← (views.zip masks).foldlM
    (fun (total,count) ((_,_,view),(_,_,ones)) => do
      return (← Image.addTo total view,← Image.addTo count ones))
    (Tensor.zeros x.dtype
        [x.shape.getD 0 0,x.shape.getD 1 0,rows.count.toNat,columns.count.toNat],
      Tensor.zeros x.dtype [1,1,rows.count.toNat,columns.count.toNat])
  return .combine x.dtype (BinaryKind.div.onScalars x.dtype) total count total.shape

def eval (k : PoolKind) (p : Patch) (x : Tensor) : Outcome Tensor := do
  k.checkDType x.dtype
  if x.rank ≠ 4 then fail (.poolRank k.opType x.rank)
  let data ← Image.toChannelsSecond p.channelsLast x
  let result ← match k with
    | .max => greatest p data
    | .average => mean p data
  Image.ofChannelsSecond p.channelsLast result

def infer (k : PoolKind) (p : Patch) (inputs outputs : Facts) : Outcome (Facts × Facts) := do
  let (x,out) ← Facts.sharedPair inputs outputs
  match x.dtype with
  | some t => k.checkDType t
  | none => pure ()
  let x ← x.withDims (List.replicate 4 .unknown)
  let s := x.shape.getD []
  return ([x],[← out.withDims (← p.outputDims s (s.getD p.channelAxis .unknown))])

end Pooling

end TensorGraph
