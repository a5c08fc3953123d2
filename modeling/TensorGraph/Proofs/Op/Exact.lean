import TensorGraph.Proofs.Op.Exact.Axes
import TensorGraph.Proofs.Op.Exact.Elementwise
import TensorGraph.Proofs.Op.Exact.Join
import TensorGraph.Proofs.Op.Exact.Product
import TensorGraph.Proofs.Op.Exact.Reshape
import TensorGraph.Proofs.Op.Exact.Window
import TensorGraph.Proofs.Op.Sound

namespace TensorGraph
open Outcome Facts

namespace Op

variable {o : Op} {ts os : List Tensor}

-- Where rule and evaluation see one geometry: a kernel has the extents that it is declared to have, and the
-- windows of a maximum do not move backward.
def Agrees (o : Op) (inputs : List Tensor) : Prop :=
  match o, inputs with
  | conv c, _ :: w :: _ => c.Declares w.shape
  | pool .max p, _ => Pooling.Forward p
  | _, _ => True

-- For maxima by name that leaves out negative strides only.
theorem agrees_ofPool {as : Attributes} (built : ofPool .max as = .ok o) : ∃ p, o = pool .max p ∧
    (o.Agrees ts ↔ 0 ≤ p.strides.1 ∧ 0 ≤ p.strides.2) := by
  have consistent : ∃ p, o = pool .max p ∧ (o.Consistent ts ↔ 0 ≤ p.strides.1 ∧ 0 ≤ p.strides.2) :=
    consistent_ofPool built
  obtain ⟨p,rfl,forward⟩ := consistent
  exact ⟨p,rfl,forward⟩

end Op

end TensorGraph
