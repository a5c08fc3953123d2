import TensorGraph.Proofs.Analysis.Soundness
import TensorGraph.Proofs.Op.Sound.Join
import TensorGraph.Proofs.Op.Sound.Product
import TensorGraph.Proofs.Op.Sound.Reshape
import TensorGraph.Proofs.Op.Sound.Window
import TensorGraph.Registry

namespace TensorGraph
open Outcome Facts

namespace Op

variable {o : Op} {ts os : List Tensor} {ins outs : Facts} {r : Facts × Facts}

-- Where a rule and the evaluation read the same attributes. A target of its own speaks for a reshape only
-- while no tensor does, a kernel's declared extents are not those of the tensor, and windows of a maximum
-- that move backward stretch to another number than they are counted by.
def Consistent (o : Op) (inputs : List Tensor) : Prop :=
  match o with
  | reshape own => own = none ∨ inputs.length = 1
  | conv c => c.kernelShape = none
  | pool .max p => Pooling.Forward p
  | _ => True

theorem single {x : Outcome Tensor} (evaluated : x.map ([·]) = .ok os) (output : Accept outs os)
    (sound : ∀ u, x = .ok u → Accept outs [u] → Hold r ts [u]) : Hold r ts os := by
  obtain ⟨u,ran,rfl⟩ := map_ok.mp evaluated
  exact sound u ran output

theorem infer_holds (consistent : o.Consistent ts) (constant : ∀ t, o = const t → t.same t = true)
    (evaluated : o.eval ts = .ok os) (input : Accept ins ts) (output : Accept outs os)
    (found : o.infer ins outs = .ok r) : Hold r ts os := by
  unfold eval at evaluated
  dsimp only at evaluated
  split at evaluated
  · cases evaluated
  · cases evaluated
    exact inferSource_sound input output (Fact.accepts_constant.mpr (constant _ rfl)) found
  · cases evaluated
    exact inferIdentity_sound input output found
  · exact single evaluated output fun _ ran out => BinaryKind.infer_sound ran input out found
  · exact single evaluated output fun _ ran out => AddN.infer_sound ran input out found
  · exact single evaluated output fun _ ran out => UnaryKind.infer_sound ran input out found
  · exact single evaluated output fun _ ran out => Reshape.infer_sound (.inr rfl) ran input out found
  · exact single evaluated output fun _ ran out =>
      Reshape.infer_sound (.inl (consistent.resolve_right (by simp))) ran input out found
  · exact single evaluated output fun _ ran out => Transpose.infer_sound ran input out found
  · exact single evaluated output fun _ ran out => Concat.infer_sound ran input out found
  · exact single evaluated output fun _ ran out => Pack.infer_sound ran input out found
  · exact single evaluated output fun _ ran out => Slice.infer_sound ran input out found
  · exact single evaluated output fun _ ran out => Squeeze.infer_sound ran input out found
  · exact single evaluated output fun _ ran out => ExpandDims.infer_sound ran input out found
  · exact single evaluated output fun _ ran out => Flatten.infer_sound ran input out found
  · exact single evaluated output fun _ ran out => Cast.infer_sound ran input out found
  · cases evaluated
    exact ShapeOf.infer_sound input output found
  · exact single evaluated output fun _ ran out => Reduction.infer_sound ran input out found
  · exact single evaluated output fun _ ran out => MatMul.infer_sound ran input out found
  · exact single evaluated output fun _ ran out => Softmax.infer_sound ran input out found
  · exact single evaluated output fun _ ran out => BatchNorm.infer_sound ran input out found
  · exact single evaluated output fun _ ran out =>
      Convolution.infer_sound none consistent ran input out found
  · exact single evaluated output fun _ ran out =>
      Convolution.infer_sound (some _) consistent ran input out found
  · refine single evaluated output fun _ ran out =>
      Pooling.infer_sound (fun greatest => ?_) ran input out found
    subst greatest
    exact consistent
  · cases evaluated

-- An analysis may rely on the rules of such operators.
theorem operator_sound (consistent : ∀ ts, o.Consistent ts) (constant : ∀ t, o = const t → t.same t = true) :
    o.operator.Sound :=
  fun _ _ _ _ ts _ evaluated input output found _ _ =>
    infer_holds (consistent ts) constant evaluated input output found

def wide : Tensor := ⟨.i64,[2,3],[.int 1,.int 2,.int 3,.int 4,.int 5,.int 6]⟩

def streamed : Fact := .outline (some .i64) (some [.streaming,.known 3])

-- Pools by name have no dilation, so those of a maximum are consistent unless a stride is negative.
theorem consistent_ofPool {as : Attributes} (built : ofPool .max as = .ok o) : ∃ p, o = pool .max p ∧
    (o.Consistent ts ↔ 0 ≤ p.strides.1 ∧ 0 ≤ p.strides.2) := by
  obtain ⟨_,-,built⟩ := bind_ok.mp built
  obtain ⟨kernel,-,built⟩ := bind_ok.mp built
  obtain ⟨strides,-,built⟩ := bind_ok.mp built
  obtain ⟨padding,-,built⟩ := bind_ok.mp built
  obtain ⟨last,-,equal⟩ := bind_ok.mp built
  cases equal
  exact ⟨_,rfl,by simp [Consistent,Pooling.Forward]⟩

def backward : Op := pool .max ⟨(1,1),(-1,-1),(1,1),.valid,false⟩

end Op

end TensorGraph
