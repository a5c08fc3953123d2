import TensorGraph.Binary.Elementary
import TensorGraph.Fact.Rule
import TensorGraph.Tensor.Broadcast

namespace TensorGraph

-- Both operands have one element type and stretch against each other. Integers wrap at their width,
-- floats are rounded once per operation.
inductive BinaryKind where
  | add | sub | mul | div | rem | pow | maximum | minimum
  | equal | notEqual | less | lessEqual | greater | greaterEqual
  | and | or
  deriving DecidableEq, Repr

inductive UnaryKind where
  | abs | neg | sqrt | rsqrt | exp | log | tanh | floor | ceil | sigmoid | relu | not
  deriving DecidableEq, Repr

namespace BinaryKind

def opType : BinaryKind → String
  | add => "Add" | sub => "Sub" | mul => "Mul" | div => "Div" | rem => "Rem" | pow => "Pow"
  | maximum => "Maximum" | minimum => "Minimum"
  | equal => "Equal" | notEqual => "NotEqual" | less => "Less" | lessEqual => "LessEqual"
  | greater => "Greater" | greaterEqual => "GreaterEqual" | and => "And" | or => "Or"

def isComparison : BinaryKind → Bool
  | equal | notEqual | less | lessEqual | greater | greaterEqual => true
  | _ => false

def supports (k : BinaryKind) (t : DType) : Bool :=
  if k.isComparison then t != .object
  else match k with
  | and | or => t == .bool
  | _ => t.isNumeric

def resultDType (k : BinaryKind) (t : DType) : DType := if k.isComparison then .bool else t

-- `base ^ e` modulo `m`, by squaring; `steps` covers the bits of `e`.
def powMod (m : Nat) : Nat → Nat → Nat → Nat
  | 0,_,_ => 1 % m
  | steps + 1,base,e =>
    let r := powMod m steps (base * base % m) (e / 2)
    if e % 2 = 1 then base * r % m else r

-- Quotient cut off toward zero: the floored one in words, and one more where operands of opposite
-- signs leave a remainder. A division by zero leaves none.
def quotient (signed : Bool) (bits : Nat) (a b : Int) : Int :=
  let q := DType.wrap signed bits (a.fdiv b)
  let r := if b = 0 then 0 else DType.wrap signed bits (a.fmod b)
  let fix := r != 0 && (decide (a < 0) != decide (b < 0))
  DType.wrap signed bits (q + Int.ofNat fix.toNat)

-- Exact integer result modulo the width; the divisor is not zero, the exponent not negative.
def onInts (k : BinaryKind) (signed : Bool) (bits : Nat) (a b : Int) : Int :=
  match k with
  | add => DType.wrap signed bits (a + b)
  | sub => DType.wrap signed bits (a - b)
  | mul => DType.wrap signed bits (a * b)
  | div => quotient signed bits a b
  | rem => DType.wrap signed bits (a.fmod b)
  | pow =>
    let m := Nat.pow 2 bits
    let e := b.toNat
    DType.wrap signed bits (powMod m (e.log2 + 1) (a % (m : Int)).toNat e)
  | maximum => max a b
  | minimum => min a b
  | _ => a

def onFloats (k : BinaryKind) (f : Binary.Format) (x y : Binary) : Binary :=
  match k with
  | add => .add f x y
  | sub => .sub f x y
  | mul => .mul f x y
  | div => .div f x y
  | rem => .flooredRem f x y
  | pow => .pow f x y
  | maximum => .maximum f x y
  | minimum => .minimum f x y
  | _ => x

-- Order of two elements of one type; text goes by code points.
def order? : Scalar → Scalar → Option Ordering
  | .float x,.float y => Binary.order? x y
  | .int i,.int j => some (compare i j)
  | .bool a,.bool b => some (compare a.toNat b.toNat)
  | .text s,.text t => some (if s = t then .eq else if s < t then .lt else .gt)
  | _,_ => none

-- Outcome of a comparison; elements without an order only differ.
def holds (k : BinaryKind) (o : Option Ordering) : Bool :=
  match k with
  | equal => o == some .eq
  | notEqual => o != some .eq
  | less => o == some .lt
  | lessEqual => o == some .lt || o == some .eq
  | greater => o == some .gt
  | greaterEqual => o == some .gt || o == some .eq
  | _ => false

def onScalars (k : BinaryKind) (t : DType) (a b : Scalar) : Scalar :=
  if k.isComparison then .bool (k.holds (order? a b))
  else match k,t.layout,a,b with
  | and,_,.bool x,.bool y => .bool (x && y)
  | or,_,.bool x,.bool y => .bool (x || y)
  | k,.integer signed bits,.int i,.int j => .int (k.onInts signed bits i j)
  | k,.float f,.float x,.float y => .float (k.onFloats f x y)
  | _,_,a,_ => a

def isZeroInt : Scalar → Bool
  | .int i => i == 0
  | _ => false

def isNegativeInt : Scalar → Bool
  | .int i => i < 0
  | _ => false

-- Integer division by zero and negative exponents of signed integers are faults, wherever in the
-- second operand they stand.
def checkOperand (k : BinaryKind) (t : DType) (b : Tensor) : Outcome Unit :=
  match k with
  | div | rem =>
    if t.isInteger && b.data.any isZeroInt then fail (.divisionByZero k.opType) else .ok ()
  | pow =>
    if t.isInteger && t.isSigned && b.data.any isNegativeInt then fail .negativeExponent else .ok ()
  | _ => .ok ()

def eval (k : BinaryKind) (a b : Tensor) : Outcome Tensor := do
  unless a.dtype = b.dtype do fail (.operandsDiffer k.opType a.dtype b.dtype)
  unless k.supports a.dtype do fail (.unsupportedDType k.opType a.dtype)
  match Shape.broadcast? a.shape b.shape with
  | none => fail (.cannotBroadcast k.opType [a.shape,b.shape])
  | some shape =>
    k.checkOperand a.dtype b
    return .combine (k.resultDType a.dtype) (k.onScalars a.dtype) a b shape

def infer (k : BinaryKind) (inputs outputs : Facts) : Outcome (Facts × Facts) := do
  let inputs ← (inputs.pad 2).shareDType
  let out := Facts.first outputs
  let dtype := (Facts.first inputs).dtype
  match dtype with
  | some t => unless k.supports t do fail (.unsupportedDType k.opType t)
  | none => pure ()
  let (inputs,out) ←
    if k.isComparison then pure (inputs,← out.withDType (some .bool))
    else match dtype,out.dtype with
    | some t,_ => pure (inputs,← out.withDType (some t))
    | none,some t => do
      let head ← (Facts.first inputs).withDType (some t)
      pure (← Facts.shareDType [head,inputs.getD 1 .unknown],out)
    | none,none => pure (inputs,out)
  let (inputs,out) ← Facts.broadcast inputs out
  return (inputs,[out])

end BinaryKind

namespace UnaryKind

def opType : UnaryKind → String
  | abs => "Abs" | neg => "Neg" | sqrt => "Sqrt" | rsqrt => "Rsqrt" | exp => "Exp" | log => "Log"
  | tanh => "Tanh" | floor => "Floor" | ceil => "Ceil" | sigmoid => "Sigmoid" | relu => "Relu"
  | not => "Not"

def supports (k : UnaryKind) (t : DType) : Bool :=
  match k with
  | abs | neg | relu => t.isNumeric
  | not => t == .bool
  | _ => t.isFloat

def onInts (k : UnaryKind) (signed : Bool) (bits : Nat) (i : Int) : Int :=
  match k with
  | abs => DType.wrap signed bits i.natAbs
  | neg => DType.wrap signed bits (-i)
  | relu => max i 0
  | _ => i

def onFloats (k : UnaryKind) (f : Binary.Format) (x : Binary) : Binary :=
  match k with
  | abs => x.abs
  | neg => x.neg
  | sqrt => .sqrt f x
  | rsqrt => .reciprocal f (.sqrt f x)
  | exp => .exp f x
  | log => .log f x
  | tanh => .tanh f x
  | floor => x.floor
  | ceil => x.ceil
  | sigmoid => .reciprocal f (.add f .one (.exp f x.neg))
  | relu => .maximum f x .zero
  | not => x

def onScalar (k : UnaryKind) (t : DType) (a : Scalar) : Scalar :=
  match k,t.layout,a with
  | not,_,.bool b => .bool !b
  | k,.integer signed bits,.int i => .int (k.onInts signed bits i)
  | k,.float f,.float x => .float (k.onFloats f x)
  | _,_,a => a

def eval (k : UnaryKind) (x : Tensor) : Outcome Tensor := do
  unless k.supports x.dtype do fail (.unsupportedDType k.opType x.dtype)
  return x.map x.dtype (k.onScalar x.dtype)

def infer (k : UnaryKind) (inputs outputs : Facts) : Outcome (Facts × Facts) := do
  let both ← (← (inputs.pad 1 ++ outputs.pad 1).shareDType).shareShape
  match (Facts.first both).dtype with
  | some t => unless k.supports t do fail (.unsupportedDType k.opType t)
  | none => pure ()
  return ([Facts.first both],[both.getD 1 .unknown])

end UnaryKind

namespace AddN

-- Sum of two tensors that stretch against each other; the first one where they do not.
def sum (a b : Tensor) : Tensor :=
  (Tensor.zipWith? a.dtype (BinaryKind.add.onScalars a.dtype) a b).getD a

def eval (first : Tensor) (rest : List Tensor) : Outcome Tensor := do
  let inputs := first :: rest
  unless inputs.all (·.dtype == first.dtype) do fail (.dtypesNotShared "AddN")
  unless first.dtype.isNumeric do fail (.unsupportedDType "AddN" first.dtype)
  match Shape.broadcastAll? (inputs.map Tensor.shape) with
  | none => fail (.cannotBroadcast "AddN" (inputs.map Tensor.shape))
  | some _ => return rest.foldl sum first

def infer (inputs outputs : Facts) : Outcome (Facts × Facts) := do
  let facts ← (inputs ++ outputs.pad 1).shareDType
  let (ins,out) ← Facts.broadcast facts.dropLast (facts.getLastD .unknown)
  return (ins,[out])

end AddN

end TensorGraph
