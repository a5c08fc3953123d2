import TensorGraph.Tensor.Basic

namespace TensorGraph.Tensor

def getStretched (t : Tensor) (index : List Nat) : Scalar := t.get (Shape.source t.shape index)

def combine (dtype : DType) (g : Scalar → Scalar → Scalar) (a b : Tensor) (shape : Shape) : Tensor :=
  tabulate dtype shape fun i => g (a.getStretched i) (b.getStretched i)

def stretchTo (t : Tensor) (shape : Shape) : Outcome Tensor :=
  if Shape.broadcast? shape t.shape = some shape then .ok (tabulate t.dtype shape t.getStretched)
  else fail (.unworded .value)

def zipWith? (dtype : DType) (g : Scalar → Scalar → Scalar) (a b : Tensor) : Option Tensor :=
  (Shape.broadcast? a.shape b.shape).map (combine dtype g a b)

end TensorGraph.Tensor
