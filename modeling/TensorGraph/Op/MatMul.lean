import TensorGraph.Op.Reduction

namespace TensorGraph.MatMul

def requireSameDType (opType : String) (inputs : List Tensor) : Outcome Unit :=
  let types := inputs.map Tensor.dtype
  if types.all fun t => types.head? == some t then .ok () else fail (.inputsDiffer opType types)

def dot (t : DType) (pairs : List (Scalar × Scalar)) : Scalar :=
  match t.layout with
  | .float f =>
    let w := f.working
    .float ((pairs.foldl (fun acc (a,b) =>
      match a,b with
      | .float x,.float y => Binary.add w acc (Binary.mul w x y)
      | _,_ => acc) Binary.zero).convert f)
  | .integer signed bits =>
    .int (DType.wrap signed bits (pairs.foldl (fun acc (a,b) =>
      match a,b with
      | .int i,.int j => acc + i * j
      | _,_ => acc) 0))
  | _ => .zero t

-- The last two axes are rows and columns, the axes in front stretch against each other. A tensor
-- with one axis is a row on the left and a column on the right.
def asMatrixLeft (s : Shape) : Shape := if s.length = 1 then 1 :: s else s
def asMatrixRight (s : Shape) : Shape := if s.length = 1 then s ++ [1] else s

def productShape? (s t : Shape) : Option Shape := do
  let m := s.length - 2
  let k := t.length - 2
  let batch ← Shape.broadcast? (s.take m) (t.take k)
  if s.getD (m + 1) 0 = t.getD k 0 then some (batch ++ [s.getD m 0,t.getD (k + 1) 0]) else none

def product (a b : Tensor) (shape : Shape) : Tensor :=
  let m := a.rank - 2
  let k := b.rank - 2
  let batch := shape.length - 2
  let inner := a.shape.getD (m + 1) 0
  .tabulate a.dtype shape fun index =>
    let left := Shape.source (a.shape.take m) (index.take batch) ++ [index.getD batch 0]
    let right := Shape.source (b.shape.take k) (index.take batch)
    let column := index.getD (batch + 1) 0
    dot a.dtype ((List.range inner).map fun i =>
      (a.get (left ++ [i]),b.get (right ++ [i,column])))

def dropAdded (leftRank rightRank : Nat) (s : Shape) : Shape :=
  let n := s.length
  let s := if rightRank = 1 then s.eraseIdx (n - 1) else s
  if leftRank = 1 then s.eraseIdx (n - 2) else s

def eval (a b : Tensor) : Outcome Tensor := do
  requireSameDType "MatMul" [a,b]
  unless a.dtype.isNumeric do fail (.unsupportedDType "MatMul" a.dtype)
  if a.rank = 0 || b.rank = 0 then fail .matMulRank
  let left := a.reshape (asMatrixLeft a.shape)
  let right := b.reshape (asMatrixRight b.shape)
  match productShape? left.shape right.shape with
  | none => fail (.matMulShapes a.shape b.shape)
  | some shape => return (product left right shape).reshape (dropAdded a.rank b.rank shape)

def infer (inputs outputs : Facts) : Outcome (Facts × Facts) := do
  match ← (inputs.pad 2 ++ outputs.pad 1).shareDType with
  | [a,b,out] =>
    match a.shape,b.shape with
    | some s,some t =>
      match s.reverse,t.reverse with
      | ka :: _,last :: before =>
        let k ← ka.unify (before.headD last)
        let a ← a.withDims (s.dropLast ++ [k])
        let b ← b.withDims (match before with
          | [] => [k]
          | _ :: lead => lead.reverse ++ [k,last])
        let batch ← ShapeFact.broadcast [s.take (s.length - 2),t.take (t.length - 2)]
        let row := if 2 ≤ s.length then [s.getD (s.length - 2) .unknown] else []
        let column := if before.isEmpty then [] else [last]
        return ([a,b],[← out.withDims (batch ++ row ++ column)])
      | _,_ => fail .matMulRank
    | _,_ => return ([a,b],[out])
  | _ => fail (.unworded .value)

end TensorGraph.MatMul
