import TensorGraph.Proofs.Op.Proper.Axes
import TensorGraph.Proofs.Op.Sound.Window

namespace TensorGraph
open Outcome

variable {t u w : Tensor} {d : DType} {x y : Scalar}

namespace Image

theorem toChannelsSecond_proper {last : Bool} (input : t.Proper) (found : toChannelsSecond last t = .ok u) :
    u.Proper ∧ u.dtype = t.dtype := by
  unfold toChannelsSecond at found
  split at found
  · obtain ⟨_,-,dtype,-⟩ := Transpose.eval_parts found
    exact ⟨Transpose.eval_proper input found,dtype⟩
  · cases found
    exact ⟨input,rfl⟩

theorem ofChannelsSecond_proper {last : Bool} (input : t.Proper) (found : ofChannelsSecond last t = .ok u) :
    u.Proper := by
  unfold ofChannelsSecond at found
  split at found
  · exact Transpose.eval_proper input found
  · cases found
    exact input

theorem padded_holds {filler : Scalar} {rows columns : Windows} {n c i j : Nat} (input : t.Proper)
    (filled : t.dtype.layout.Holds filler) : t.dtype.layout.Holds (padded t filler rows columns n c i j) := by
  unfold padded
  dsimp only
  split
  · exact input.get _
  · exact filled

end Image

theorem BinaryKind.add_holds (left : d.layout.Holds x) (right : d.layout.Holds y) :
    d.layout.Holds (BinaryKind.add.onScalars d x y) := onScalars_holds (k := .add) left right

namespace Convolution

variable {c : Convolution} {bias : Option Tensor}

-- Every step of a sum over cells gives an element of the type, and so does a bias on top.
theorem apply_proper (biased : ∀ b, bias = some b → b.Proper ∧ b.dtype = t.dtype)
    (evaluated : c.apply t w bias = .ok u) : u.Proper := by
  obtain ⟨rows,columns,fits,rfl⟩ := apply_ok.mp evaluated
  refine Tensor.tabulate_proper fun index _ => ?_
  have summed : t.dtype.layout.Holds (c.total t w rows columns (index.getD 0 0) (index.getD 1 0) (index.getD 2 0)
      (index.getD 3 0)) :=
    List.foldlRecOn (motive := t.dtype.layout.Holds) _ _ (Scalar.holds_zero t.dtype) fun acc holds cell _ =>
      BinaryKind.add_holds holds (MatMul.dot_holds t.dtype _)
  cases bias with
  | none => exact summed
  | some b =>
    obtain ⟨proper,dtype⟩ := biased b rfl
    exact BinaryKind.add_holds summed (dtype ▸ proper.get _)

theorem eval_proper (input : t.Proper) (biased : ∀ b, bias = some b → b.Proper)
    (evaluated : c.eval t w bias = .ok u) : u.Proper := by
  obtain ⟨_,-,evaluated⟩ := bind_ok.mp evaluated
  obtain ⟨_,same,evaluated⟩ := bind_ok.mp evaluated
  split at evaluated
  · cases evaluated
  · obtain ⟨data,turned,evaluated⟩ := bind_ok.mp evaluated
    obtain ⟨kernel,-,evaluated⟩ := bind_ok.mp evaluated
    obtain ⟨result,applied,returned⟩ := bind_ok.mp evaluated
    obtain ⟨-,dtype⟩ := Image.toChannelsSecond_proper input turned
    refine Image.ofChannelsSecond_proper (apply_proper ?_ applied) returned
    rintro b rfl
    exact ⟨biased b rfl,(MatMul.requireSameDType_ok same b (by simp)).trans dtype.symm⟩

end Convolution

namespace Pooling

variable {p : Patch} {kind : PoolKind}

theorem lowest_holds (d : DType) : d.layout.Holds (lowest d) := by
  cases d <;> first | exact .infinite true | exact ⟨by decide,by decide⟩ | exact trivial

theorem greatest_proper (input : t.Proper) (evaluated : greatest p t = .ok u) : u.Proper := by
  obtain ⟨rows,columns,h,w,-,-,-,rfl⟩ := greatest_made evaluated
  refine Tensor.tabulate_proper fun index _ => ?_
  exact List.foldlRecOn (motive := t.dtype.layout.Holds) _ _ (lowest_holds t.dtype) fun acc holds cell _ =>
    BinaryKind.onScalars_holds (k := .maximum) holds (Image.padded_holds input (lowest_holds t.dtype))

theorem one_holds (float : d.isFloat = true) : d.layout.Holds (.float .one) := by
  obtain ⟨f,layout⟩ := DType.isFloat_iff.mp float
  rw [layout]
  exact Binary.holds_one (DType.layout_units layout)

-- The number of elements in a window is itself a sum in the type.
theorem mean_proper (float : t.dtype.isFloat = true) (input : t.Proper) (evaluated : mean p t = .ok u) :
    u.Proper := by
  obtain ⟨rows,columns,-,rfl⟩ := mean_made evaluated
  have counted : (ones t).Proper := Tensor.fill_proper (one_holds float)
  refine Tensor.tabulate_proper fun index _ => BinaryKind.onScalars_holds (k := .div) ?_ ?_
  · exact List.foldlRecOn (motive := t.dtype.layout.Holds) _ _ (Scalar.holds_zero t.dtype)
      fun acc holds cell _ => BinaryKind.add_holds holds (Image.padded_holds input (Scalar.holds_zero t.dtype))
  · exact List.foldlRecOn (motive := t.dtype.layout.Holds) _ _ (Scalar.holds_zero t.dtype)
      fun acc holds cell _ => BinaryKind.add_holds holds (Image.padded_holds counted (Scalar.holds_zero t.dtype))

theorem eval_proper (input : t.Proper) (evaluated : eval kind p t = .ok u) : u.Proper := by
  rw [eval_eq] at evaluated
  obtain ⟨_,checked,evaluated⟩ := bind_ok.mp evaluated
  split at evaluated
  · cases evaluated
  · obtain ⟨data,turned,evaluated⟩ := bind_ok.mp evaluated
    obtain ⟨result,evaluated,returned⟩ := bind_ok.mp evaluated
    obtain ⟨proper,dtype⟩ := Image.toChannelsSecond_proper input turned
    refine Image.ofChannelsSecond_proper ?_ returned
    cases kind with
    | max => exact greatest_proper proper evaluated
    | average =>
      refine mean_proper ?_ proper evaluated
      rw [dtype]
      change (if t.dtype.isFloat then _ else _) = _ at checked
      split at checked
      · assumption
      · cases checked

end Pooling

end TensorGraph
