import TensorGraph.DType.Read
import TensorGraph.Op

namespace TensorGraph

inductive Attribute where
  | datum (d : Datum)
  | tensor (t : Tensor)
  -- A bare array: it can be listed, and its element type may be read off.
  | array (t : Tensor)
  | fact (f : Fact)
  | dtype (t : DType)
  | padding (p : Padding)
  deriving Repr

namespace Attribute

def only? (t : Tensor) : Option Datum :=
  match t.data with
  | [x] => some x.datum
  | _ => none

def alone (t : Tensor) : Outcome Datum :=
  match t.shape,only? t with
  | [],some d => .ok d
  | _,_ => fail (.unworded .type)

def toInt : Attribute → Outcome Int
  | datum d => d.toInt
  | array t => do (← alone t).toInt
  | _ => fail (.unworded .type)

def toDouble : Attribute → Outcome Binary
  | datum d => d.toDouble
  | array t => do (← alone t).toDouble
  | _ => fail (.unworded .type)

def rows (t : Tensor) : Outcome (List Attribute) :=
  match t.shape with
  | [] => fail (.unworded .type)
  | [_] => .ok (t.data.map fun x => datum x.datum)
  | n :: s =>
    .ok ((List.range n).map fun i =>
      array ⟨t.dtype,s,(t.data.drop (i * Shape.size s)).take (Shape.size s)⟩)

def items : Attribute → Outcome (List Attribute)
  | datum d => do return (← d.items).map datum
  | array t => rows t
  | _ => fail (.unworded .type)

def toInts (a : Attribute) : Outcome (List Int) := do (← a.items).mapM toInt

-- Whether an attribute counts as true. A tensor does when its first axis is not empty; an array
-- must have one element, or none at all.
def truthy : Attribute → Outcome Bool
  | datum d => .ok d.truthy
  | tensor t => do return (← t.length) != 0
  | array t =>
    match t.data with
    | [x] => .ok x.datum.truthy
    | _ => fail (.unworded .value)
  | _ => .ok true

def toDType : Attribute → Outcome DType
  | dtype t => .ok t
  | datum (.text s) => DType.read s
  | datum (.bytes bs) => DType.ofTypeString (Datum.ofBytes bs)
  | datum .null => .ok .f64
  | array t => .ok t.dtype
  | _ => fail (.unworded .type)

-- A word in lower case; bytes have one too, which is the word of no keyword.
def toWord (change : String → String) : Attribute → Outcome String
  | datum (.text s) => .ok (change s)
  | datum (.bytes _) => .ok ""
  | _ => fail (.unworded .noAttribute)

def toDim : Attribute → Outcome Dim
  | datum d => Dim.ofDatum d
  | a => do Dim.ofInt (← a.toInt)

def toPadding : Attribute → Outcome Padding
  | padding p => .ok p
  | datum .null => .ok .valid
  | datum (.text s) => Padding.ofName s
  | a => do Padding.ofPads (← a.toInts)

-- A tensor; what is neither a tensor nor a value can only be one untyped element.
def toTensor (dtype : Option DType) : Attribute → Outcome Tensor
  | tensor t | array t => t.ofTensor dtype
  | datum d => Tensor.ofDatum d dtype
  | _ =>
    if dtype.getD .object = .object then Tensor.ofDatum .null (some .object)
    else fail (.unworded .type)

def toPair : Attribute → Outcome (Int × Int)
  | datum (.int i) => .ok (i,i)
  | datum (.bool b) => .ok (b.toNat,b.toNat)
  | a => do
    match ← a.toInts with
    | [i] => return (i,i)
    | [i,j] => return (i,j)
    | vs => fail (.spatialCount vs)

end Attribute

abbrev Attributes := List (String × Attribute)

namespace Attributes

def given? (as : Attributes) (name : String) : Option Attribute :=
  match as.lookup name with
  | some (.datum .null) => none
  | a => a

-- An attribute with a default for when it was not given at all.
def getD (as : Attributes) (name : String) (d : Datum) : Attribute :=
  (as.lookup name).getD (.datum d)

def optional {α : Type} (as : Attributes) (name : String) (read : Attribute → Outcome α) :
    Outcome (Option α) :=
  match as.given? name with
  | none => .ok none
  | some a => (read a).map some

def expect (as : Attributes) (required optional : List String) : Outcome Unit :=
  if as.all (fun (k,_) => k ∈ required ++ optional) && required.all fun k => (as.lookup k).isSome then
    .ok ()
  else fail (.unworded .type)

def pair (as : Attributes) (name : String) (d : Int) : Outcome (Int × Int) := do
  return (← as.optional name (·.toPair)).getD (d,d)

-- Padding by its own attribute, or by explicit pads unless a mode is named, or by the mode.
def padding (as : Attributes) : Outcome Padding :=
  let mode := as.given? "auto_pad"
  let unset := match mode with
    | none => true
    | some (.datum (.text s)) => s == "NOTSET"
    | _ => false
  match as.given? "padding",as.given? "pads" with
  | some p,_ => p.toPadding
  | none,some ps => if unset then ps.toPadding else (mode.map Attribute.toPadding).getD (.ok .valid)
  | none,none => (mode.map Attribute.toPadding).getD (.ok .valid)

def layoutIs (as : Attributes) (name standard word : String) : Outcome Bool := do
  return (← (as.getD name (.text standard)).toWord Text.upper) == word

end Attributes

end TensorGraph
