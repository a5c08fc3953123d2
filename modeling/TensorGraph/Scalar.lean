import TensorGraph.Binary.Arithmetic
import TensorGraph.Datum

namespace TensorGraph

inductive Scalar where
  | float (x : Binary)
  | int (i : Int)
  | bool (b : Bool)
  | text (s : String)
  | object (d : Datum)
  deriving Repr, Inhabited

namespace DType

def lowest (signed : Bool) (bits : Nat) : Int := if signed then -Int.ofNat (Nat.pow 2 (bits - 1)) else 0
def highest (signed : Bool) (bits : Nat) : Int :=
  Int.ofNat (Nat.pow 2 (if signed then bits - 1 else bits)) - 1

def wrap (signed : Bool) (bits : Nat) (i : Int) : Int :=
  if signed then Int.bmod i (Nat.pow 2 bits) else i % Int.ofNat (Nat.pow 2 bits)

end DType

namespace Scalar

-- Equality of elements. Floats must agree in sign and digits; untyped elements are compared as
-- values.
def same : Scalar → Scalar → Bool
  | float x,float y => x == y
  | int i,int j => i == j
  | bool a,bool b => a == b
  | text s,text t => s == t
  | object d,object e => d.same e
  | _,_ => false

def datum : Scalar → Datum
  | float x => .float x
  | int i => .int i
  | bool b => .bool b
  | text s => .text s
  | object d => d

def zero (t : DType) : Scalar :=
  match t.layout with
  | .float _ => float .zero
  | .integer .. => int 0
  | .bool => bool false
  | .text => text ""
  | .object => object (.int 0)

def ofInt (signed : Bool) (bits : Nat) (i : Int) : Outcome Scalar :=
  if DType.lowest signed bits ≤ i && i ≤ DType.highest signed bits then .ok (int i)
  else fail (.unworded .overflow)

-- Element that a plain value makes. What becomes an integer is converted first, and the integer
-- must be within the range of the type.
def ofDatum (t : DType) (d : Datum) : Outcome Scalar :=
  match t.layout with
  | .float f =>
    match d with
    | .null => .ok (float .nan)
    | .list _ => fail (.unworded .value)
    | d => d.toDouble.map fun x => float (x.convert f)
  | .integer signed bits =>
    match d with
    | .list _ => fail (.unworded .value)
    | d => do ofInt signed bits (← d.toInt)
  | .bool => .ok (bool d.truthy)
  | .text =>
    match d with
    | .bytes bs =>
      match Text.decodeAscii? bs with
      | some s => .ok (text s)
      | none => fail (.unworded .value)
    | d => .ok (text d.shown)
  | .object => .ok (object d)

-- Element of type `source` as an element of type `target`. Integers wrap, fractions are cut off,
-- and text is read.
def cast (source target : DType) (s : Scalar) : Outcome Scalar :=
  match s,target.layout with
  | object d,_ => ofDatum target d
  | s,.object => .ok (object s.datum)
  | float x,.float f => .ok (float (x.convert f))
  | float x,.integer sg n => .ok (int (DType.wrap sg n (x.truncate?.getD 0)))
  | float x,.bool => .ok (bool !x.isZero)
  | float x,.text =>
    match source.layout with
    | .float f => .ok (text (x.text f))
    | _ => .ok (text (x.text .double))
  | int i,.float f => .ok (float (Binary.ofInt f i))
  | int i,.integer sg n => .ok (int (DType.wrap sg n i))
  | int i,.bool => .ok (bool (i != 0))
  | int i,.text => .ok (text (toString i))
  | bool b,.float _ => .ok (float (if b then .one else .zero))
  | bool b,.integer .. => .ok (int b.toNat)
  | bool b,.bool => .ok (bool b)
  | bool b,.text => .ok (text (Datum.boolText b))
  | text s,.float f => (Datum.text s).toDouble.map fun x => float (x.convert f)
  | text s,.integer sg n => do ofInt sg n (← (Datum.text s).toInt)
  | text s,.bool => .ok (bool !s.isEmpty)
  | text s,.text => .ok (text s)

end Scalar

end TensorGraph
