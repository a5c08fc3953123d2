import TensorGraph.Fact.Rule

namespace TensorGraph.Reshape

-- Numbers of elements are counted in signed 64-bit words. A factor beyond 64 bits does not enter a
-- word at all. A list that mixes factors from 2 ^ 63 on with smaller ones goes through floats, and
-- what a float beyond the word becomes there is left open; the word itself is taken here.
def wordProduct (ns : List Int) : Outcome Int :=
  if ns.any (DType.highest false 64 < ·) then fail (.unworded .overflow)
  else .ok (DType.wrap true 64 (ns.foldl (· * ·) 1))

-- In a target, -1 stands for whatever is left over and 0 for the extent at the same position of the
-- input.
def copyExtents (shape : Shape) : Nat → List Int → Outcome (List Int)
  | _,[] => .ok []
  | axis,d :: ds => do
    let d ←
      if d = 0 then
        match shape[axis]? with
        | some n => pure (n : Int)
        | none => fail (.reshapeCopiesMissing axis)
      else if d < -1 then fail (.reshapeInvalidExtent d)
      else pure d
    return d :: (← copyExtents shape (axis + 1) ds)

def resolve (shape : Shape) (target : List Int) : Outcome (List Int) := do
  if 1 < target.count (-1) then fail .reshapeManyOpen
  let dims ← copyExtents shape 0 target
  let total ← wordProduct (shape.map fun n => Int.ofNat n)
  let known ← wordProduct (dims.filter (· != -1))
  if dims.contains (-1) then
    if known = 0 || total.fmod known != 0 then fail (.cannotReshape shape target)
    return dims.map fun d => if d = -1 then total.fdiv known else d
  else
    if known != total then fail (.cannotReshape shape target)
    return dims

def targetOf (t : Tensor) : Outcome (List Int) :=
  if t.dtype.isInteger && t.rank == 1 then
    .ok (t.data.filterMap fun x => match x with | .int i => some i | _ => none)
  else fail .reshapeTargetNotIntegers

-- The target in force: a shape input comes before the own target of the operator.
def target (own : Option (List Int)) (shapeInput : Option Tensor) : Outcome (List Int) :=
  match shapeInput,own with
  | some t,_ => targetOf t
  | none,some ds => .ok ds
  | none,none => fail .reshapeTargetMissing

-- The tensor under a shape that must have exactly its number of elements.
def apply (x : Tensor) (dims : List Int) : Outcome Tensor :=
  let shape := dims.map Int.toNat
  if dims.any (DType.highest true 64 < ·) then fail (.unworded .overflow)
  else if dims.any (· < 0) || shape.foldr (· * ·) 1 != x.shape.size then fail (.unworded .value)
  else .ok (x.reshape shape)

def eval (own : Option (List Int)) (x : Tensor) (shapeInput : Option Tensor) :
    Outcome Tensor := do
  apply x (← resolve x.shape (← target own shapeInput))

def outline (input : Option ShapeFact) (target : List Int) : Outcome ShapeFact :=
  target.zipIdx.mapM fun (d,i) =>
    if d = 0 then .ok (((input.getD [])[i]?).getD .unknown)
    else if d = -1 then .ok .unknown
    else Dim.ofInt d

-- Output shape under a target. Streams are carried through: as many as the input has must come out,
-- and one that is left over takes the place of -1.
def inferDims (input : Option ShapeFact) (target : List Int) : Outcome ShapeFact := do
  let dims ← outline input target
  match input with
  | none => return dims
  | some shape =>
    if shape.any Dim.isUnknown then return dims
    if !target.contains (-1) then
      match ShapeFact.product? shape,ShapeFact.product? dims with
      | some m,some n =>
        if m ≠ n then fail (.cannotReshapeFact shape target)
        return dims
      | _,_ => return dims
    let slot := target.idxOf (-1)
    let others := dims.eraseIdx slot
    if others.any Dim.isUnknown then return dims
    let inKnown := Shape.size (shape.filterMap Dim.extent?)
    let outKnown := Shape.size (others.filterMap Dim.extent?)
    let inStreams := shape.countP Dim.isStreaming
    let outStreams := others.countP Dim.isStreaming
    if inStreams = outStreams then
      if outKnown = 0 || inKnown % outKnown != 0 then fail (.cannotReshapeFact shape target)
      return dims.set slot (.known (inKnown / outKnown))
    else if inStreams = outStreams + 1 && inKnown = outKnown then
      return dims.set slot .streaming
    else return dims

def infer (own : Option (List Int)) (inputs outputs : Facts) : Outcome (Facts × Facts) := do
  let out := Facts.first outputs
  let x := Facts.first inputs
  let (inputs,out) ← match x.dtype,out.dtype with
    | some t,_ => pure (inputs,← out.withDType (some t))
    | none,some t =>
      if inputs.isEmpty then fail (.unworded .index)
      pure (inputs.set 0 (← x.withDType (some t)),out)
    | none,none => pure (inputs,out)
  let (inputs,target) ← match inputs with
    | [a,b] => do
      let b ← b.withDims [.unknown]
      match b.value with
      | some t => pure ([a,b],some (← targetOf t))
      | none => pure ([a,b],own)
    | _ => pure (inputs,own)
  match target with
  | none => return (inputs,[out])
  | some ds => return (inputs,[← out.withDims (← inferDims x.shape ds)])

end TensorGraph.Reshape
