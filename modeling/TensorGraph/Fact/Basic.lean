import TensorGraph.Dim.Lattice
import TensorGraph.Tensor.Build

namespace TensorGraph

-- A constant is known with its elements, hence with their type and shape.
inductive Fact where
  | constant (t : Tensor)
  | outline (dtype : Option DType) (shape : Option ShapeFact)
  deriving Repr, Inhabited

namespace Fact

def unknown : Fact := .outline none none

def dtype : Fact → Option DType
  | constant t => some t.dtype
  | outline t _ => t

def shape : Fact → Option ShapeFact
  | constant t => some (.ofShape t.shape)
  | outline _ s => s

def value : Fact → Option Tensor
  | constant t => some t
  | outline .. => none

def rank (f : Fact) : Option Nat := f.shape.map List.length

def isUnknown (f : Fact) : Bool := f.dtype.isNone && f.shape.isNone && f.value.isNone

def extents? (f : Fact) : Option Shape := f.shape.bind ShapeFact.extents?

def isConcrete (f : Fact) : Bool := f.dtype.isSome && f.extents?.isSome

-- Knowledge of three parts, of which the value determines the others.
def make (dtype : Option DType) (shape : Option ShapeFact) (value : Option Tensor) : Outcome Fact :=
  match value with
  | none => .ok (.outline dtype shape)
  | some t => do
    match dtype with
    | some d => unless d = t.dtype do fail (.valueContradictsDType t.dtype d)
    | none => pure ()
    let _ ← ShapeFact.unify shape (some (.ofShape t.shape))
    return .constant t

-- Text of a fact; the text of a constant's elements is cut short.
def text (f : Fact) : String :=
  let head := (f.dtype.map DType.name).getD "?" ++ ShapeFact.text? f.shape
  match f.value with
  | none => head
  | some t => head ++ String.ofList (("=" ++ t.toDatum.written).toList.take 64)

def same : Fact → Fact → Bool
  | constant s,constant t => s.same t
  | outline t s,outline u r => t == u && s == r
  | _,_ => false

def unifyDType : Option DType → Option DType → Outcome (Option DType)
  | none,b => .ok b
  | a,none => .ok a
  | some a,some b => if a = b then .ok (some a) else fail (.dtypeConflict a b)

-- Facts only grow: a combination keeps what both sides know and fails where they disagree.
def unify (a b : Fact) : Outcome Fact :=
  if b.isUnknown then .ok a
  else if a.isUnknown then .ok b
  else do
    let dtype ← unifyDType a.dtype b.dtype
    let shape ← ShapeFact.unify a.shape b.shape
    match a.value,b.value with
    | some s,some t => if s.same t then return .constant s else fail (.valueConflict a.text b.text)
    | some s,none => return .constant s
    | none,some t => return .constant t
    | none,none => return .outline dtype shape

def unifyAll (fs : List Fact) : Outcome Fact := fs.foldlM unify unknown

def withDType (f : Fact) (t : Option DType) : Outcome Fact := f.unify (.outline t none)
def withShape (f : Fact) (s : Option ShapeFact) : Outcome Fact := f.unify (.outline none s)
def withDims (f : Fact) (s : ShapeFact) : Outcome Fact := f.withShape (some s)

def check (f : Fact) (t : Tensor) : Outcome Unit := do
  match f.dtype with
  | some d => unless t.dtype = d do fail (.unexpectedDType d t.dtype)
  | none => pure ()
  match f.shape with
  | some s => unless s.accepts t.shape do fail (.unexpectedShape s t.shape)
  | none => pure ()
  match f.value with
  | some v => unless v.same t do fail .differsFromConstant
  | none => pure ()

def accepts (f : Fact) (t : Tensor) : Bool := (f.check t).isOk

end Fact

end TensorGraph
