import TensorGraph.Fact.Rule

namespace TensorGraph

-- Any value of this type may stand in a graph, the built-in operators and others alike.
structure Operator where
  opType : String
  arity : Arity
  outputCount : Nat
  -- Has the same outputs in every run, without inputs.
  isConst : Bool := false
  -- May be evaluated ahead of a run once all its inputs are known.
  isFoldable : Bool := true
  -- What the operator promises of a fed input.
  declared : Option Fact := none
  describe : String
  eval : List Tensor → Outcome (List Tensor)
  infer : Facts → Facts → Outcome (Facts × Facts)
  -- What has the same outputs in every run has those that it has without inputs.
  eval_const : isConst = true → ∀ inputs outputs alone,
    eval inputs = .ok outputs → eval [] = .ok alone → outputs = alone := by simp

namespace Operator

def describeWith (opType : String) (attributes : List (String × String)) : String :=
  if attributes.isEmpty then opType
  else opType ++ "[" ++ ", ".intercalate (attributes.map fun (k,v) => k ++ "=" ++ v) ++ "]"

def acceptsArity (o : Operator) (n : Nat) : Bool := o.arity.accepts n

end Operator

end TensorGraph
