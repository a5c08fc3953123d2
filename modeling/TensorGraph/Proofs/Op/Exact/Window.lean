import TensorGraph.Proofs.Op.Exact.Elementwise
import TensorGraph.Proofs.Op.Sound.Window

namespace TensorGraph
open Outcome Facts

variable {t u w : Tensor} {shape : Shape}

namespace Patch

variable {p : Patch} {n : Nat} {rows columns : Windows}

-- The windows of an image are counted, and their numbers are extents.
def Counted (p : Patch) (shape : Shape) : Prop :=
  ∃ rows columns,
    p.outputPair (shape.getD p.spatialAxes.1 0) (shape.getD p.spatialAxes.2 0) = .ok (rows,columns) ∧
      0 ≤ rows.count ∧ 0 ≤ columns.count

theorem spatial_exact {h v : Nat} (windows : p.outputPair h v = .ok (rows,columns)) (high : 0 ≤ rows.count)
    (wide : 0 ≤ columns.count) :
    spatial p (.known h) (.known v) = .ok [.known rows.count.toNat,.known columns.count.toNat] := by
  obtain ⟨ws,each,paired⟩ := bind_ok.mp windows
  split at paired
  · cases paired
    refine bind_ok.mpr ⟨_,each,mapM_ok.mpr (.cons ?_ (.cons ?_ .nil))⟩
    · exact if_pos high
    · exact if_pos wide
  · cases paired

theorem outputDims_exact {c : Nat} {result : Shape} (covers : p.Covers shape c result)
    (counted : p.Counted shape) (rank : shape.length = 4) :
    p.outputDims (.ofShape shape) (.known c) = .ok (.ofShape result) := by
  obtain ⟨rows,columns,windows,rfl⟩ := covers
  obtain ⟨_,_,again,high,wide⟩ := counted
  cases windows.symm.trans again
  have known {a : Nat} (inside : a < 4) : entry (.ofShape shape) a = .ok (.known (shape.getD a 0)) := by
    unfold entry
    rw [ShapeFact.place_ofShape (Shape.entry_within (rank.symm ▸ inside))]
  have axes : p.spatialAxes.1 < 4 ∧ p.spatialAxes.2 < 4 := by
    unfold spatialAxes
    split <;> decide
  rw [outputDims_eq,known axes.1,ok_bind,known axes.2,ok_bind,spatial_exact windows high wide,ok_bind,
    known (by decide),ok_bind,arrange,Image.arranged]
  split <;> rfl

end Patch

namespace Pooling

variable {p : Patch} {kind : PoolKind}

theorem windowed_counted (evaluated : windowed kind p t = .ok u) : ∃ rows columns,
    p.outputPair (t.shape.getD 2 0) (t.shape.getD 3 0) = .ok (rows,columns) ∧
      0 ≤ rows.count ∧ 0 ≤ columns.count := by
  cases kind with
  | max =>
    obtain ⟨rows,columns,_,_,frames,-⟩ := greatest_made evaluated
    exact ⟨rows,columns,frames.windows,frames.counted⟩
  | average =>
    obtain ⟨rows,columns,frames,-⟩ := mean_made evaluated
    exact ⟨rows,columns,frames.windows,frames.counted⟩

theorem eval_checked (evaluated : eval kind p t = .ok u) :
    kind.checkDType t.dtype = .ok () ∧ p.Counted t.shape := by
  rw [eval_eq] at evaluated
  obtain ⟨_,checked,evaluated⟩ := bind_ok.mp evaluated
  split at evaluated
  · cases evaluated
  · rename_i rank
    obtain ⟨data,turned,evaluated⟩ := bind_ok.mp evaluated
    obtain ⟨result,evaluated,-⟩ := bind_ok.mp evaluated
    obtain ⟨-,shape⟩ := Image.toChannelsSecond_parts (Decidable.not_not.mp rank) turned
    have counted := windowed_counted evaluated
    rw [shape] at counted
    exact ⟨checked,counted⟩

end Pooling

namespace Convolution

variable {c : Convolution} {bias : Option Tensor}

theorem apply_counted (evaluated : c.apply t w bias = .ok u) :
    w.shape.getD 1 0 * c.groups = t.shape.getD 1 0 ∧ ∃ rows columns,
      (c.patch (w.shape.getD 2 0,w.shape.getD 3 0)).outputPair (t.shape.getD 2 0) (t.shape.getD 3 0) =
        .ok (rows,columns) ∧ 0 ≤ rows.count ∧ 0 ≤ columns.count := by
  obtain ⟨rows,columns,fits,rfl⟩ := apply_ok.mp evaluated
  exact ⟨fits.channels,rows,columns,fits.windows,fits.counted⟩

theorem eval_checked (evaluated : c.eval t w bias = .ok u) : t.dtype.isFloat = true ∧
    w.shape.getD c.kernelAxes.2.1 0 * c.groups = t.shape.getD (if c.channelsLast then 3 else 1) 0 ∧
      (c.patch (w.shape.getD c.kernelAxes.2.2.1 0,w.shape.getD c.kernelAxes.2.2.2 0)).Counted t.shape := by
  obtain ⟨_,float,evaluated⟩ := bind_ok.mp evaluated
  obtain ⟨_,-,evaluated⟩ := bind_ok.mp evaluated
  split at evaluated
  · cases evaluated
  · rename_i ranks
    simp only [Bool.or_eq_true,decide_eq_true_eq,not_or,ne_eq,Decidable.not_not] at ranks
    obtain ⟨data,turned,evaluated⟩ := bind_ok.mp evaluated
    obtain ⟨kernel,ordered,evaluated⟩ := bind_ok.mp evaluated
    obtain ⟨result,applied,-⟩ := bind_ok.mp evaluated
    obtain ⟨-,shape⟩ := Image.toChannelsSecond_parts (p := c.patch (0,0)) ranks.1 turned
    obtain ⟨-,kernelShape⟩ := kernelOutputFirst_parts ranks.2 ordered
    obtain ⟨fit,counted⟩ := apply_counted applied
    rw [shape,kernelShape] at fit counted
    exact ⟨requireFloat_ok float,fit,counted⟩

-- Extents that the kernel is declared to have are those it has.
def Declares (c : Convolution) (shape : Shape) : Prop := ∀ h v, c.kernelShape = some (h,v) →
  h = shape.getD c.kernelAxes.2.2.1 0 ∧ v = shape.getD c.kernelAxes.2.2.2 0

theorem kernelAxes_lt (c : Convolution) : c.kernelAxes.1 < 4 ∧ c.kernelAxes.2.1 < 4 ∧ c.kernelAxes.2.2.1 < 4 ∧
    c.kernelAxes.2.2.2 < 4 := by
  unfold kernelAxes
  split <;> decide

theorem outputDims_exact {o : Nat} {result : Shape} (rankT : t.shape.length = 4) (rankW : w.shape.length = 4)
    (covers : (c.patch (w.shape.getD c.kernelAxes.2.2.1 0,w.shape.getD c.kernelAxes.2.2.2 0)).Covers t.shape o result)
    (counted : (c.patch (w.shape.getD c.kernelAxes.2.2.1 0,w.shape.getD c.kernelAxes.2.2.2 0)).Counted t.shape) :
    c.outputDims (.ofShape t.shape) (.ofShape w.shape) (.known o) = .ok (.ofShape result) := by
  obtain ⟨-,-,row,column⟩ := kernelAxes_lt c
  rw [outputDims_eq,ShapeFact.extent_ofShape (Shape.entry_within (rankW.symm ▸ row)),
    ShapeFact.extent_ofShape (Shape.entry_within (rankW.symm ▸ column))]
  exact Patch.outputDims_exact covers counted rankT

end Convolution

end TensorGraph
