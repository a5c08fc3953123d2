import TensorGraph.Op.Axes

namespace TensorGraph

inductive Reduction where
  | sum | mean | max | min | prod
  deriving DecidableEq, Repr

namespace Reduction

def all : List Reduction := [max,mean,min,prod,sum]

def name : Reduction → String
  | sum => "sum" | mean => "mean" | max => "max" | min => "min" | prod => "prod"

def ofName? (s : String) : Option Reduction := all.find? (·.name == s)

theorem ofName?_name (r : Reduction) : ofName? r.name = some r := by cases r <;> decide

def needsElement : Reduction → Bool
  | max | min => true
  | _ => false

def floatsOf (xs : List Scalar) : List Binary :=
  xs.filterMap fun x => match x with | .float x => some x | _ => none

def intsOf (xs : List Scalar) : List Int :=
  xs.filterMap fun x => match x with | .int i => some i | _ => none

-- Mean in the format; there is none of nothing.
def floatMean (f : Binary.Format) (xs : List Binary) : Binary :=
  .div f (xs.foldl (Binary.add f) .zero) (.ofInt f xs.length)

def onFloats (r : Reduction) (f : Binary.Format) (xs : List Binary) : Binary :=
  let w := f.working
  match r with
  | sum => (xs.foldl (Binary.add w) .zero).convert f
  | prod => (xs.foldl (Binary.mul w) .one).convert f
  | mean => (floatMean w xs).convert f
  | max => xs.tail.foldl (Binary.maximum f) (xs.headD .zero)
  | min => xs.tail.foldl (Binary.minimum f) (xs.headD .zero)

def onInts (r : Reduction) (signed : Bool) (bits : Nat) (xs : List Int) : Int :=
  match r with
  | sum => DType.wrap signed bits (xs.foldr (· + ·) 0)
  | prod => DType.wrap signed bits (xs.foldl (· * ·) 1)
  | mean =>
    DType.wrap signed bits (((floatMean .double (xs.map (Binary.ofInt .double))).truncate?).getD 0)
  | max => xs.tail.foldl Max.max (xs.headD 0)
  | min => xs.tail.foldl Min.min (xs.headD 0)

-- Integer sums and products wrap, float sums are formed in the working format and rounded once, and
-- integer means are cut off toward zero.
def onScalars (r : Reduction) (t : DType) (xs : List Scalar) : Scalar :=
  match t.layout with
  | .float f => .float (r.onFloats f (floatsOf xs))
  | .integer signed bits => .int (r.onInts signed bits (intsOf xs))
  | _ => .zero t

def axes (given : Option (List Int)) (rank : Nat) : Outcome (List Nat) :=
  match given with
  | none => .ok (List.range rank)
  | some as => normalizeAxes as rank

def keptShape (axes : List Nat) (s : Shape) : Shape :=
  s.zipIdx.map fun (n,i) => if axes.contains i then 1 else n

def reducedShape (axes : List Nat) (s : Shape) : Shape :=
  s.zipIdx.map fun (n,i) => if axes.contains i then n else 1

def group (axes : List Nat) (x : Tensor) (index : List Nat) : List Scalar :=
  (Shape.indices (reducedShape axes x.shape)).map fun step =>
    x.get (List.zipWith (· + ·) index step)

def reduce (r : Reduction) (axes : List Nat) (x : Tensor) : Tensor :=
  .tabulate x.dtype (keptShape axes x.shape) fun index => r.onScalars x.dtype (group axes x index)

def eval (r : Reduction) (opType : String) (given : Option (List Int)) (keepDims : Bool)
    (x : Tensor) : Outcome Tensor := do
  unless x.dtype.isNumeric do fail (.unsupportedDType opType x.dtype)
  let axes ← axes given x.rank
  if r.needsElement && axes.any fun a => x.shape.getD a 0 = 0 then fail (.emptyAxis r.name)
  let y := r.reduce axes x
  return if keepDims then y else y.reshape (dropAxes axes x.shape)

def infer (opType : String) (given : Option (List Int)) (keepDims : Bool)
    (inputs outputs : Facts) : Outcome (Facts × Facts) := do
  let (x,out) ← Facts.sharedPair inputs outputs
  match x.dtype with
  | some t => unless t.isNumeric do fail (.unsupportedDType opType t)
  | none => pure ()
  match x.shape with
  | none => return ([x],[out])
  | some s =>
    let axes ← axes given s.length
    let dims :=
      if keepDims then s.zipIdx.map fun (d,i) => if axes.contains i then Dim.one else d
      else dropAxes axes s
    return ([x],[← out.withDims dims])

end Reduction

end TensorGraph
