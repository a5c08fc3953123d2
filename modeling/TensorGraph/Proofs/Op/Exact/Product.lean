import TensorGraph.Proofs.Fact.Exact
import TensorGraph.Proofs.Op.Sound.Product

namespace TensorGraph
open Outcome Facts

namespace MatMul

variable {a b u : Tensor} {d : Option DType} {front row back column batch : Shape} {k : Nat}

theorem own_ofShape (own : Own front row) : Own (ShapeFact.ofShape front) (ShapeFact.ofShape row) :=
  own.forall₂ (ShapeFact.exactly_ofShape front) (ShapeFact.exactly_ofShape row)

end MatMul

end TensorGraph
