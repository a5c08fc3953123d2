import TensorGraph.Op.Transpose

namespace TensorGraph

def dropAxes {α : Type} (axes : List Nat) (xs : List α) : List α :=
  (xs.zipIdx.filter fun (_,i) => !axes.contains i).map (·.1)

def addAxes {α : Type} (axes : List Nat) (entry : α) : Nat → Nat → List α → List α
  | _,0,_ => []
  | i,count + 1,xs =>
    if axes.contains i then entry :: addAxes axes entry (i + 1) count xs
    else match xs with
    | x :: xs => x :: addAxes axes entry (i + 1) count xs
    | [] => []

namespace Squeeze

-- Axes to drop: the given ones, which must not be longer than 1, or all that are known to be 1 once
-- every extent is known.
def axes (given : Option (List Int)) (dims : ShapeFact) : Outcome (Option (List Nat)) :=
  match given with
  | none =>
    if dims.all Dim.isKnown then
      .ok (some ((dims.zipIdx.filter fun (d,_) => d == .one).map (·.2)))
    else .ok none
  | some as => do
    let found ← normalizeAxes as dims.length
    for a in found do
      match dims.getD a .unknown with
      | .known n => if n ≠ 1 then fail (.cannotSqueeze a n)
      | _ => pure ()
    return some found

def eval (given : Option (List Int)) (x : Tensor) : Outcome Tensor := do
  let found ← axes given (.ofShape x.shape)
  return x.reshape (dropAxes (found.getD []) x.shape)

def infer (given : Option (List Int)) (inputs outputs : Facts) : Outcome (Facts × Facts) := do
  let (x,out) ← Facts.sharedPair inputs outputs
  match x.shape with
  | none => return ([x],[out])
  | some s =>
    match ← axes given s with
    | none => return ([x],[out])
    | some found =>
      let x ← x.withDims (s.zipIdx.map fun (d,i) => if found.contains i then .one else d)
      let out ← out.withDims (dropAxes found (x.shape.getD []))
      return ([x],[out])

end Squeeze

namespace ExpandDims

def expand {α : Type} (axes : List Int) (one : α) (dims : List α) : Outcome (List α) := do
  let rank := dims.length + axes.length
  let found ← normalizeAxes axes rank
  unless found.length = axes.length do fail (.repeatedAxes axes)
  return addAxes found one 0 rank dims

def eval (axes : List Int) (x : Tensor) : Outcome Tensor := do
  return x.reshape (← expand axes 1 x.shape)

def infer (axes : List Int) (inputs outputs : Facts) : Outcome (Facts × Facts) := do
  let (x,out) ← Facts.sharedPair inputs outputs
  match x.shape,out.shape with
  | some s,_ => return ([x],[← out.withDims (← expand axes .one s)])
  | none,some s =>
    let found ← normalizeAxes axes s.length
    return ([← x.withDims (dropAxes found s)],[out])
  | none,none => return ([x],[out])

end ExpandDims

namespace Flatten

def split (axis : Int) (rank : Nat) : Outcome Nat :=
  let a := if axis < 0 then axis + rank else axis
  if 0 ≤ a && a ≤ rank then .ok a.toNat else fail (.flattenAxis axis rank)

def eval (axis : Int) (x : Tensor) : Outcome Tensor := do
  let a ← split axis x.rank
  return x.reshape [Shape.size (x.shape.take a),Shape.size (x.shape.drop a)]

-- Extent of several axes made one. A stream among extents of 1 stays a stream.
def collapse (dims : ShapeFact) : Dim :=
  match dims with
  | [d] => d
  | _ =>
    match ShapeFact.product? dims with
    | some n => .known n
    | none =>
      if dims.countP Dim.isStreaming = 1 && dims.all fun d => d.isStreaming || d == .one then
        .streaming
      else .unknown

def infer (axis : Int) (inputs outputs : Facts) : Outcome (Facts × Facts) := do
  let (x,out) ← Facts.sharedPair inputs outputs
  let out ← out.withDims [.unknown,.unknown]
  match x.shape with
  | none => return ([x],[out])
  | some s =>
    let a ← split axis s.length
    return ([x],[← out.withDims [collapse (s.take a),collapse (s.drop a)]])

end Flatten

end TensorGraph
