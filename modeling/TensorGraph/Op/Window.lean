import TensorGraph.Op.Elementwise
import TensorGraph.Op.Transpose
import TensorGraph.Text.Case

namespace TensorGraph

-- How borders are padded. Explicit pads list the beginnings of all axes, then their ends.
inductive Padding where
  | valid
  | sameUpper
  | sameLower
  | explicit (pads : List Int)
  deriving DecidableEq, Repr

namespace Padding

def mode : Padding → String
  | valid => "valid"
  | sameUpper => "same_upper"
  | sameLower => "same_lower"
  | explicit _ => "explicit"

def pads : Padding → List Int
  | explicit ps => ps
  | _ => []

def text (p : Padding) : String :=
  "PaddingSpec(mode=" ++ Text.quote p.mode ++ ", pads="
    ++ Text.parenthesised (p.pads.map toString) ++ ")"

def ofName (s : String) : Outcome Padding :=
  let m := Text.lower s
  if m ∈ ["valid","notset"] then .ok valid
  else if m ∈ ["same","same_upper"] then .ok sameUpper
  else if m = "same_lower" then .ok sameLower
  else fail (.unknownPadding (Text.quote s))

def ofPads (ps : List Int) : Outcome Padding :=
  if ps.any (· < 0) then fail .negativePads else .ok (explicit ps)

def entry (ps : List Int) (i : Int) : Outcome Int :=
  let k := if i < 0 then i + ps.length else i
  match if k < 0 then none else ps[k.toNat]? with
  | some p => .ok p
  | none => fail (.unworded .index)

def floorDiv (a b : Int) : Outcome Int :=
  if b = 0 then fail (.unworded .zeroDivision) else .ok (a.fdiv b)

def field (kernel dilation : Int) : Int := dilation * (kernel - 1) + 1

def borders (p : Padding) (extent kernel stride dilation axis axes : Int) : Outcome (Int × Int) :=
  match p with
  | explicit ps =>
    if (ps.length : Int) ≠ 2 * axes then fail (.padCount (2 * axes) ps)
    else do return (← entry ps axis,← entry ps (axis + axes))
  | valid => .ok (0,0)
  | sameUpper => do
    let total ← evenTotal
    return (total.fdiv 2,total - total.fdiv 2)
  | sameLower => do
    let total ← evenTotal
    return (total - total.fdiv 2,total.fdiv 2)
where
  -- Least padding for as many windows as the extent has strides.
  evenTotal : Outcome Int := do
    let out := -(← floorDiv (-extent) stride)
    return max 0 ((out - 1) * stride + field kernel dilation - extent)

def compute (p : Padding) (extent kernel stride dilation axis axes : Int) :
    Outcome (Int × Int × Int) := do
  let (first,last) ← p.borders extent kernel stride dilation axis axes
  let width := field kernel dilation
  let span := extent + first + last - width
  if span < 0 then fail (.windowTooLarge width extent first last)
  return ((← floorDiv span stride) + 1,first,last)

end Padding

-- Positions `start, start + step, …` up to `stop` of an axis of extent `n`. Bounds count from the
-- end when negative and are cut to the axis.
def stepPositions (n start stop step : Int) : List Nat :=
  let low := if step < 0 then -1 else 0
  let high := if step < 0 then n - 1 else n
  let bound (i : Int) : Int := if i < 0 then max low (i + n) else min i high
  let a := bound start
  let b := bound stop
  let count :=
    if 0 < step then (if a < b then (b - a - 1) / step + 1 else 0)
    else if step < 0 then (if b < a then (a - b - 1) / (-step) + 1 else 0)
    else 0
  (List.range count.toNat).map fun k => (a + step * Int.ofNat k).toNat

structure Patch where
  kernel : Int × Int
  strides : Int × Int := (1,1)
  dilations : Int × Int := (1,1)
  padding : Padding := .valid
  channelsLast : Bool := false
  deriving Repr

structure Windows where
  count : Int
  first : Int
  last : Int
  deriving DecidableEq, Repr

namespace Patch

def spatialAxes (p : Patch) : Nat × Nat := if p.channelsLast then (1,2) else (2,3)
def channelAxis (p : Patch) : Nat := if p.channelsLast then 3 else 1

def along (p : Patch) (axis : Nat) : Option (Int × Int × Int) :=
  match axis with
  | 0 => some (p.kernel.1,p.strides.1,p.dilations.1)
  | 1 => some (p.kernel.2,p.strides.2,p.dilations.2)
  | _ => none

def outputSpatial (p : Patch) (spatial : List Int) : Outcome (List Windows) :=
  spatial.zipIdx.mapM fun (n,axis) =>
    match p.along axis with
    | none => fail (.unworded .index)
    | some (kernel,stride,dilation) => do
      let (count,first,last) ← p.padding.compute n kernel stride dilation axis 2
      return ⟨count,first,last⟩

def outputPair (p : Patch) (rows columns : Nat) : Outcome (Windows × Windows) := do
  match ← p.outputSpatial [rows,columns] with
  | [a,b] => return (a,b)
  | _ => fail (.unworded .value)

-- What is known of the result; spatial extents stay open until the input's are known.
def outputDims (p : Patch) (input : ShapeFact) (channels : Dim) : Outcome ShapeFact := do
  let dim (a : Nat) : Outcome Dim :=
    match input[a]? with
    | some d => .ok d
    | none => fail (.unworded .index)
  let rows ← dim p.spatialAxes.1
  let columns ← dim p.spatialAxes.2
  let spatial ← match rows,columns with
    | .known h,.known w => (← p.outputSpatial [h,w]).mapM fun o => Dim.ofInt o.count
    | _,_ => .ok [.unknown,.unknown]
  let batch ← dim 0
  return if p.channelsLast then batch :: spatial ++ [channels] else batch :: channels :: spatial

def cells (p : Patch) : List (Nat × Nat) :=
  (List.range p.kernel.1.toNat).flatMap fun i =>
    (List.range p.kernel.2.toNat).map fun j => (i,j)

-- Positions on a padded axis of extent `n` that cell `k` visits, one for each window.
def visits (n : Int) (windows : Windows) (stride dilation : Int) (k : Nat) : List Nat :=
  let start := (k : Int) * dilation
  stepPositions (n + windows.first + windows.last) start (start + stride * (windows.count - 1) + 1)
    stride

end Patch

namespace Image

def toChannelsSecond (channelsLast : Bool) (x : Tensor) : Outcome Tensor :=
  if channelsLast then Transpose.eval (some [0,3,1,2]) x else .ok x

def ofChannelsSecond (channelsLast : Bool) (x : Tensor) : Outcome Tensor :=
  if channelsLast then Transpose.eval (some [0,2,3,1]) x else .ok x

def padded (x : Tensor) (filler : Scalar) (rows columns : Windows) (n c i j : Nat) : Scalar :=
  let row := (i : Int) - rows.first
  let column := (j : Int) - columns.first
  if 0 ≤ row && row < x.shape.getD 2 0 && 0 ≤ column && column < x.shape.getD 3 0 then
    x.get [n,c,row.toNat,column.toNat]
  else filler

def cuts (rows columns : Windows) : Bool :=
  [rows.first,rows.last,columns.first,columns.last].any (· < 0)

def pad (x : Tensor) (filler : Scalar) (rows columns : Windows) : Outcome Tensor :=
  if cuts rows columns then fail (.unworded .value)
  else
    let height := (x.shape.getD 2 0 : Int) + rows.first + rows.last
    let width := (x.shape.getD 3 0 : Int) + columns.first + columns.last
    .ok (.tabulate x.dtype [x.shape.getD 0 0,x.shape.getD 1 0,height.toNat,width.toNat] fun index =>
      padded x filler rows columns (index.getD 0 0) (index.getD 1 0) (index.getD 2 0) (index.getD 3 0))

def view (y : Tensor) (rows columns : List Nat) : Tensor :=
  .tabulate y.dtype [y.shape.getD 0 0,y.shape.getD 1 0,rows.length,columns.length] fun index =>
    y.get [index.getD 0 0,index.getD 1 0,rows.getD (index.getD 2 0) 0,columns.getD (index.getD 3 0) 0]

def addTo (total t : Tensor) : Outcome Tensor := do
  let t ← t.stretchTo total.shape
  return .combine total.dtype (BinaryKind.add.onScalars total.dtype) total t total.shape

end Image

def Patch.views (p : Patch) (y : Tensor) (height width : Nat) (rows columns : Windows) :
    List (Nat × Nat × Tensor) :=
  p.cells.map fun (i,j) =>
    (i,j,Image.view y (visits height rows p.strides.1 p.dilations.1 i)
      (visits width columns p.strides.2 p.dilations.2 j))

end TensorGraph
