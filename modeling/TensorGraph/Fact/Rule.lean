import TensorGraph.Fact.Basic

namespace TensorGraph

abbrev Facts := List Fact

namespace Dim

def one : Dim := .known 1

def ascending (ns : List Nat) : List Nat := (ns.mergeSort (· ≤ ·)).eraseDups

-- Extent of one axis after broadcasting. Extents of 1 stretch; a stream beside a number is that
-- long, or is 1 and stretches.
def broadcast (dims : List Dim) : Outcome Dim :=
  let rest := dims.filter (· != one)
  match ascending (rest.filterMap extent?) with
  | [] =>
    if rest.any isUnknown then .ok .unknown
    else if rest.isEmpty then .ok one else .ok .streaming
  | [n] => .ok (.known n)
  | ns => fail (.extentsConflict ns)

end Dim

namespace ShapeFact

def leading (rank : Nat) (s : ShapeFact) : ShapeFact := List.replicate (rank - s.length) .one ++ s

def broadcast (ss : List ShapeFact) : Outcome ShapeFact :=
  let rank := (ss.map List.length).foldl max 0
  let padded := ss.map (leading rank)
  match (List.range rank).mapM fun i => Dim.broadcast (padded.map fun s => s.getD i .one) with
  | .ok dims => .ok dims
  | .error _ => fail (.broadcastConflict ss)

def allOnes (s : Option ShapeFact) : Bool :=
  match s with
  | none => false
  | some s => s.all (· == .one)

def product? (s : ShapeFact) : Option Nat := (extents? s).map Shape.size

end ShapeFact

namespace Facts

-- Unknown facts after the given ones, up to `n`; never fewer than given.
def pad (fs : Facts) (n : Nat) : Facts := fs ++ List.replicate (n - fs.length) .unknown

def first (fs : Facts) : Fact := fs.headD .unknown

def shareDType (fs : Facts) : Outcome Facts :=
  match fs.filterMap Fact.dtype with
  | [] => .ok fs
  | known => do
    let shared ← Fact.unifyAll (known.map fun t => .outline (some t) none)
    fs.mapM (·.unify shared)

def shareShape (fs : Facts) : Outcome Facts :=
  match fs.filterMap Fact.shape with
  | [] => .ok fs
  | known => do
    let shared ← Fact.unifyAll (known.map fun s => .outline none (some s))
    fs.mapM (·.withShape shared.shape)

def positions (p : Option ShapeFact → Bool) (shapes : List (Option ShapeFact)) : List Nat :=
  (shapes.zipIdx.filter fun (s,_) => p s).map (·.2)

-- Shapes of an operator that broadcasts its inputs. Forward, known inputs give the output.
-- Backward, when every other input stretches without adding anything, the one input of unknown
-- shape has the output's.
def broadcast (inputs : Facts) (output : Fact) : Outcome (Facts × Fact) := do
  let shapes := inputs.map Fact.shape
  let output ← match shapes.mapM id with
    | some known => output.withDims (← ShapeFact.broadcast known)
    | none => .ok output
  match output.shape with
  | none => return (inputs,output)
  | some out =>
    let fullRank := match out with
      | d :: _ => d.isKnown && d != .one
      | [] => false
    let neutral := Facts.positions
      (fun s => ShapeFact.allOnes s && ((s.getD []).length < out.length || fullRank)) shapes
    let inputs ← match Facts.positions Option.isNone shapes with
      | [i] =>
        if neutral.length + 1 = inputs.length then
          inputs.zipIdx.mapM fun (f,k) => if k = i then f.withDims out else .ok f
        else .ok inputs
      | _ => .ok inputs
    for (s,i) in shapes.zipIdx do
      match s with
      | some s => if out.length < s.length then fail (.rankExceeds i s.length out.length)
      | none => pure ()
    return (inputs,output)

end Facts

end TensorGraph
