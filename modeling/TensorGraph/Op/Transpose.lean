import TensorGraph.Fact.Rule

namespace TensorGraph

namespace Facts

def pair (fs : Facts) : Outcome (Fact × Fact) :=
  match fs with
  | [x,out] => .ok (x,out)
  | _ => fail (.unworded .value)

def sharedPair (inputs outputs : Facts) : Outcome (Fact × Fact) := do
  pair (← (inputs.pad 1 ++ outputs.pad 1).shareDType)

end Facts

namespace Transpose

def isPermutation (perm : List Int) (rank : Nat) : Bool :=
  perm.length == rank && (List.range rank).all fun a => perm.contains (a : Int)

-- Axis i of the result is axis perm[i] of the input. Without a permutation the axes are reversed.
def permutation (perm : Option (List Int)) (rank : Nat) : Outcome (List Nat) :=
  match perm with
  | none => .ok (List.range rank).reverse
  | some p =>
    if isPermutation p rank then .ok (p.map Int.toNat) else fail (.invalidPermutation p rank)

-- Entry `perm[i]` of the result is entry `i` of the list.
def scatter {α : Type} (perm : List Nat) (xs : List α) (fallback : α) : List α :=
  (List.range perm.length).map fun a => xs.getD (perm.idxOf a) fallback

def eval (perm : Option (List Int)) (x : Tensor) : Outcome Tensor := do
  let p ← permutation perm x.rank
  return .tabulate x.dtype (p.map fun a => x.shape.getD a 0) fun index => x.get (scatter p index 0)

def infer (perm : Option (List Int)) (inputs outputs : Facts) : Outcome (Facts × Facts) := do
  let (x,out) ← Facts.sharedPair inputs outputs
  let out ← match x.shape with
    | none => pure out
    | some s => do
      let p ← permutation perm s.length
      out.withDims (p.map fun a => s.getD a .unknown)
  let x ← match out.shape with
    | none => pure x
    | some s => do
      let p ← permutation perm s.length
      x.withDims (scatter p s .unknown)
  return ([x],[out])

end Transpose

end TensorGraph
