import TensorGraph.Tensor.Basic

namespace TensorGraph

namespace Datum

mutual
-- Axes of nested lists as far as they are regular.
def outline : Datum → Shape
  | list [] => [0]
  | list (d :: ds) => (ds.length + 1) :: outlineItems (outline d) ds
  | _ => []
def outlineItems : Shape → List Datum → Shape
  | s,[] => s
  | s,d :: ds => outlineItems (common s (outline d)) ds
where
  common : Shape → Shape → Shape
    | m :: s,n :: t => if m = n then m :: common s t else []
    | _,_ => []
end

mutual
def regular : Nat → Datum → Bool
  | 0,list _ => false
  | n + 1,list ds => regularItems n ds
  | 0,_ => true
  | _ + 1,_ => false
def regularItems : Nat → List Datum → Bool
  | _,[] => true
  | n,d :: ds => regular n d && regularItems n ds
end

def leaves : Nat → Datum → List Datum
  | 0,d => [d]
  | n + 1,list ds => ds.flatMap (leaves n)
  | _ + 1,_ => []

end Datum

namespace DType

-- A null or an integer beyond 64 bits leaves the values untyped; otherwise text prevails, then
-- floats, then integers. Integers from 2 ^ 63 on need the unsigned type, and promote to a float
-- beside any that are smaller.
def infer (ds : List Datum) : DType :=
  let ints := ds.filterMap fun d => match d with | .int i => some i | _ => none
  let beyond (i : Int) : Bool := i < lowest true 64 || highest false 64 < i
  if ds.any fun d => (match d with | .null | .list _ => true | _ => false) then .object
  else if ints.any beyond then .object
  else if ds.any fun d => (match d with | .text _ | .bytes _ => true | _ => false) then .string
  else if ds.any fun d => (match d with | .float _ | .nan _ => true | _ => false) then .f64
  else if ds.isEmpty then .f64
  else if ints.isEmpty then .bool
  else if ints.any (highest true 64 < ·) then (if ints.any (· ≤ highest true 64) then .f64 else .u64)
  else .i64

end DType

namespace Tensor

def cast (t : Tensor) (target : DType) : Outcome Tensor := do
  return ⟨target,t.shape,← t.data.mapM (Scalar.cast t.dtype target)⟩

-- A tensor from nested lists. Only untyped elements may be lists themselves.
def ofDatum (d : Datum) (dtype : Option DType) : Outcome Tensor := do
  let shape := d.outline
  let values := d.leaves shape.length
  unless dtype == some .object || d.regular shape.length do fail (.unworded .value)
  let t := dtype.getD (.infer values)
  return ⟨t,shape,← values.mapM (Scalar.ofDatum t)⟩

def ofElements (dtype : DType) (shape : Shape) (ds : List Datum) : Outcome Tensor := do
  unless ds.length = Shape.size shape do fail (.unworded .value)
  return ⟨dtype,shape,← ds.mapM (Scalar.ofDatum dtype)⟩

def ofTensor (t : Tensor) (dtype : Option DType) : Outcome Tensor :=
  match dtype with
  | none => .ok t
  | some u => if t.dtype = u then .ok t else t.cast u

def scalar (d : Datum) (dtype : Option DType) : Outcome Tensor := do
  (← ofDatum d none).ofTensor dtype

end Tensor

end TensorGraph
