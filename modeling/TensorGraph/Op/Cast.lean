import TensorGraph.Op.Transpose

namespace TensorGraph

namespace Cast

-- The elements converted. Text that cannot be read is a fault of the evaluation.
def eval (target : DType) (x : Tensor) : Outcome Tensor :=
  match x.cast target with
  | .ok t => .ok t
  | .error f =>
    if f.kind == .value then fail (.cannotCast x.dtype target f.text) else .error f

def infer (target : DType) (inputs outputs : Facts) : Outcome (Facts × Facts) := do
  let (x,out) ← Facts.pair (← (inputs.pad 1 ++ outputs.pad 1).shareShape)
  return ([x],[← out.withDType (some target)])

end Cast

namespace ShapeOf

def eval (x : Tensor) : Tensor := .row x.shape

def infer (inputs outputs : Facts) : Outcome (Facts × Facts) := do
  let x := Facts.first inputs
  let out ← (Facts.first outputs).withDType (some .i64)
  let out ← match x.rank with
    | some r => out.withDims [.known r]
    | none => pure out
  match x.extents? with
  | none => return ([x],[out])
  | some s =>
    if s.any (fun n => DType.highest true 64 < Int.ofNat n) then fail (.unworded .overflow)
    return ([x],[← out.unify (.constant (.row s))])

end ShapeOf

end TensorGraph
