import TensorGraph.Fact.Rule

namespace TensorGraph

namespace Concat

-- Element at coordinate `i` of the joined axis, counted through the tensors in turn.
def pick (axis : Nat) (dtype : DType) (index : List Nat) : List Tensor → Nat → Scalar
  | [],_ => .zero dtype
  | t :: ts,i =>
    let n := t.shape.getD axis 0
    if i < n then t.get (index.set axis i) else pick axis dtype index ts (i - n)

def join (axis : Nat) (dtype : DType) (shape : Shape) (ts : List Tensor) : Tensor :=
  let total := (ts.map fun t => t.shape.getD axis 0).foldr (· + ·) 0
  .tabulate dtype (shape.set axis total) fun index => pick axis dtype index ts (index.getD axis 0)

def eval (axis : Int) (first : Tensor) (rest : List Tensor) : Outcome Tensor := do
  let inputs := first :: rest
  unless inputs.all (·.dtype == first.dtype) do fail (.dtypesNotShared "Concat")
  unless inputs.all (·.rank == first.rank) do fail (.ranksDiffer "Concat")
  let axis ← normalizeAxis axis first.rank
  unless inputs.all fun t => t.shape.eraseIdx axis == first.shape.eraseIdx axis do
    fail (.concatExtents (inputs.map Tensor.shape) axis)
  return join axis first.dtype first.shape inputs

def refineAxis (shape : Option ShapeFact) (rank axis : Nat) (d : Dim) : Outcome ShapeFact := do
  let dims := shape.getD (List.replicate rank .unknown)
  match dims[axis]? with
  | some e => return dims.set axis (← e.unify d)
  | none => fail (.unworded .index)

def sharedExtent (rank axis : Nat) (facts : Facts) : Outcome Dim :=
  facts.foldlM (fun (shared : Dim) f =>
    match f.shape with
    | none => .ok shared
    | some s =>
      if s.length ≠ rank then fail (.ranksDiffer "Concat")
      else shared.unify (s.getD axis .unknown)) .unknown

def shareAxis (rank : Nat) (facts : Facts) (axis : Nat) : Outcome Facts := do
  let shared ← sharedExtent rank axis facts
  facts.mapM fun f => do f.withDims (← refineAxis f.shape rank axis shared)

-- Off the joined axis all shapes agree; on it the extents of the inputs add up.
def infer (axis : Int) (inputs outputs : Facts) : Outcome (Facts × Facts) := do
  let facts ← (inputs ++ outputs.pad 1).shareDType
  match facts.findSome? Fact.rank with
  | none => return (facts.dropLast,[facts.getLastD .unknown])
  | some rank =>
    let axis ← normalizeAxis axis rank
    let facts ← ((List.range rank).filter (· != axis)).foldlM (shareAxis rank) facts
    let ins := facts.dropLast
    let out := facts.getLastD .unknown
    match ins.mapM Fact.shape with
    | none => return (ins,[out])
    | some shapes =>
      let extents ← shapes.mapM fun s =>
        match s[axis]? with
        | some d => Except.ok d
        | none => fail (.unworded .index)
      match extents.mapM Dim.extent? with
      | none => return (ins,[out])
      | some ns => return (ins,[← out.withDims (← refineAxis out.shape rank axis (.known (ns.foldr (· + ·) 0)))])

end Concat

namespace Pack

def commonDType (types : List DType) : Outcome DType :=
  match DType.superType? types with
  | some t => .ok t
  | none => fail (.noCommonDType "Pack")

def stack (axis : Nat) (dtype : DType) (shape : Shape) (ts : List Tensor) : Tensor :=
  .tabulate dtype (shape.insertIdx axis ts.length) fun index =>
    match ts[index.getD axis 0]? with
    | some t => t.get (index.eraseIdx axis)
    | none => .zero dtype

def eval (axis : Int) (first : Tensor) (rest : List Tensor) : Outcome Tensor := do
  let inputs := first :: rest
  let dtype ← commonDType (inputs.map Tensor.dtype)
  unless inputs.all (·.shape == first.shape) do fail (.packShapes (inputs.map Tensor.shape))
  let axis ← normalizeAxis axis (first.rank + 1)
  return stack axis dtype first.shape (← inputs.mapM (·.ofTensor (some dtype)))

def infer (axis : Int) (inputs outputs : Facts) : Outcome (Facts × Facts) := do
  let ins ← inputs.shareShape
  let out := Facts.first outputs
  let out ← match ins.mapM Fact.dtype with
    | some types => do out.withDType (some (← commonDType types))
    | none => pure out
  match (Facts.first ins).shape,out.shape with
  | some s,_ =>
    let axis ← normalizeAxis axis (s.length + 1)
    return (ins,[← out.withDims (s.insertIdx axis (.known ins.length))])
  | none,some s =>
    let axis ← normalizeAxis axis s.length
    return (← Facts.shareShape (← ins.mapM (·.withDims (s.eraseIdx axis))),[out])
  | none,none => return (ins,[out])

end Pack

end TensorGraph
