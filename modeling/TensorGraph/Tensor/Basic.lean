import TensorGraph.Scalar
import TensorGraph.Shape

namespace TensorGraph

structure Tensor where
  dtype : DType
  shape : Shape
  data : List Scalar
  deriving Repr, Inhabited

def Scalar.Fits (t : DType) : Scalar → Prop
  | .float _ => t.isFloat = true
  | .int i => ∃ signed bits, t.layout = .integer signed bits ∧
      DType.lowest signed bits ≤ i ∧ i ≤ DType.highest signed bits
  | .bool _ => t = .bool
  | .text _ => t = .string
  | .object _ => t = .object

namespace Tensor

structure WellFormed (t : Tensor) : Prop where
  size : t.data.length = t.shape.size
  fits : ∀ x ∈ t.data, x.Fits t.dtype

def rank (t : Tensor) : Nat := t.shape.length

def get (t : Tensor) (index : List Nat) : Scalar :=
  t.data.getD (Shape.offset t.shape index) (.zero t.dtype)

def tabulate (dtype : DType) (shape : Shape) (f : List Nat → Scalar) : Tensor :=
  ⟨dtype,shape,shape.indices.map f⟩

theorem get_tabulate (t : DType) {s : Shape} (f : List Nat → Scalar) {index : List Nat}
    (h : index ∈ s.indices) : (tabulate t s f).get index = f index := by
  simp [get,tabulate,List.getD_eq_getElem?_getD,Shape.getElem?_indices_offset h]

theorem length_data_tabulate (t : DType) (s : Shape) (f : List Nat → Scalar) :
    (tabulate t s f).data.length = s.size := by simp [tabulate,Shape.length_indices]

def fill (dtype : DType) (shape : Shape) (x : Scalar) : Tensor :=
  ⟨dtype,shape,List.replicate shape.size x⟩

def zeros (dtype : DType) (shape : Shape) : Tensor := fill dtype shape (.zero dtype)

-- A row of integers, all of which must be below 2 ^ 63.
def row (extents : List Nat) : Tensor :=
  ⟨.i64,[extents.length],extents.map fun n => .int (Int.ofNat n)⟩

def map (dtype : DType) (f : Scalar → Scalar) (t : Tensor) : Tensor :=
  ⟨dtype,t.shape,t.data.map f⟩

def reshape (t : Tensor) (shape : Shape) : Tensor := { t with shape }

def same (a b : Tensor) : Bool :=
  a.dtype == b.dtype && a.shape == b.shape && a.data.length == b.data.length &&
    (a.data.zip b.data).all fun (x,y) => x.same y

def nest : Shape → List Datum → Datum
  | [],ds => ds.headD .null
  | n :: s,ds =>
    .list ((List.range n).map fun i => nest s ((ds.drop (i * Shape.size s)).take (Shape.size s)))

def toDatum (t : Tensor) : Datum := nest t.shape (t.data.map Scalar.datum)

def item (t : Tensor) : Outcome Datum :=
  if t.shape.size = 1 then .ok ((t.data.map Scalar.datum).headD .null)
  else fail (.unworded .value)

def length (t : Tensor) : Outcome Nat :=
  match t.shape with
  | [] => fail (.unworded .type)
  | n :: _ => .ok n

-- `|x - y| ≤ atol + rtol * |y|`, computed in the format; equal values are close, and so are two
-- values that are no numbers.
def closeFloats (f : Binary.Format) (rtol atol x y : Binary) : Bool :=
  let bound := Binary.add f (atol.convert f) (Binary.mul f (rtol.convert f) y.abs)
  (Binary.le (Binary.sub f x y).abs bound && y.isFinite) || Binary.eq x y || (x.isNan && y.isNan)

def closeScalars (dtype : DType) (rtol atol : Binary) (x y : Scalar) : Bool :=
  match dtype.layout,x,y with
  | .float f,.float x,.float y => closeFloats f rtol atol x y
  | _,.int i,.int j => closeFloats .double rtol atol (.ofInt .double i) (.ofInt .double j)
  | _,x,y => x.same y

def standardRtol : Binary := .ofDecimal .double false 1 (-5)
def standardAtol : Binary := .ofDecimal .double false 1 (-6)

def closeEnough (a b : Tensor) (rtol atol : Binary) : Bool :=
  a.shape == b.shape && a.dtype == b.dtype &&
    if a.dtype.isNumeric then
      (a.data.zip b.data).all fun (x,y) => closeScalars a.dtype rtol atol x y
    else a.same b

end Tensor

end TensorGraph
