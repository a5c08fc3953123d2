import TensorGraph.Op.Transpose

namespace TensorGraph

-- Where a slice starts on an axis, and how many elements it takes; none means all that follow.
structure Span where
  start : Nat
  length : Option Nat
  deriving DecidableEq, Repr

namespace Span

def sizeText (s : Span) : String :=
  match s.length with
  | some n => toString n
  | none => "-1"

def stop (s : Span) (n : Nat) : Nat :=
  match s.length with
  | some k => s.start + k
  | none => n

def within (s : Span) (n : Nat) : Bool := s.start ≤ n && s.stop n ≤ n

end Span

namespace Slice

def eval (spans : List Span) (x : Tensor) : Outcome Tensor := do
  unless x.rank = spans.length do fail (.sliceRank spans.length x.rank)
  match (spans.zip x.shape).zipIdx.find? fun ((s,n),_) => !s.within n with
  | some ((s,n),axis) => fail (.sliceOutside s.start (s.stop n) axis n)
  | none =>
    return .tabulate x.dtype (List.zipWith (fun s n => s.stop n - s.start) spans x.shape)
      fun index => x.get (List.zipWith (fun (s : Span) i => s.start + i) spans index)

-- Extent of a slice of an axis. A stream sliced from its start to its end is a stream.
def dim (s : Span) (d : Dim) : Outcome Dim := do
  match d with
  | .known n =>
    unless s.within n do fail (.sliceOutsideFact s.start ((s.length.map Int.ofNat).getD (-1)) n)
  | _ => pure ()
  match s.length,d with
  | some k,_ => return .known k
  | none,.known n => return .known (n - s.start)
  | none,.streaming => return if s.start = 0 then .streaming else .unknown
  | none,.unknown => return .unknown

def infer (spans : List Span) (inputs outputs : Facts) : Outcome (Facts × Facts) := do
  let (x,out) ← Facts.sharedPair inputs outputs
  let x ← x.withDims (List.replicate spans.length .unknown)
  let dims ← (spans.zip (x.shape.getD [])).mapM fun (s,d) => dim s d
  return ([x],[← out.withDims dims])

end Slice

end TensorGraph
