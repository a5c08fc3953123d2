import Mathlib.Data.List.Perm.Subperm
import TensorGraph.Proofs.Fact.Exact
import TensorGraph.Proofs.Op.Sound.Axes

namespace TensorGraph
open Outcome Facts

variable {t u : Tensor}

namespace Transpose

variable {perm : Option (List Int)} {p : List Nat}

theorem permutation_lt {rank : Nat} (found : permutation perm rank = .ok p) : ∀ a ∈ p, a < rank := by
  obtain ⟨length,all⟩ := permutation_ok found
  have subset : List.range rank ⊆ p := fun a member => all a (List.mem_range.mp member)
  have same : (List.range rank).Perm p :=
    (List.nodup_range.subperm subset).perm_of_length_le (by rw [length,List.length_range])
  exact fun a member => List.mem_range.mp (same.mem_iff.mpr member)

theorem dims_exact {shape : Shape} (found : permutation perm shape.length = .ok p) :
    (p.map fun a => (ShapeFact.ofShape shape).getD a .unknown) =
      ShapeFact.ofShape (p.map fun a => shape.getD a 0) := by
  rw [ShapeFact.ofShape.eq_1 (p.map _),List.map_map]
  exact List.map_congr_left fun a member =>
    ShapeFact.extent_ofShape (Shape.entry_within (permutation_lt found a member))

end Transpose

namespace Slice

variable {spans : List Span}

theorem dim_exact {s : Span} {n : Nat} (within : s.within n = true) :
    dim s (.known n) = .ok (.known (s.stop n - s.start)) := by
  unfold dim
  dsimp only
  rw [if_pos within]
  cases length : s.length <;> simp [Span.stop,length]

theorem dims_exact (evaluated : eval spans t = .ok u) :
    (spans.zip (ShapeFact.ofShape t.shape)).mapM (fun (s,d) => dim s d) =
      .ok (ShapeFact.ofShape u.shape) := by
  obtain ⟨-,-,shape⟩ := eval_parts evaluated
  rw [shape,ShapeFact.ofShape,ShapeFact.ofShape,List.map_map,List.zip_map_right,mapM_ok,
    List.forall₂_map_left_iff,List.forall₂_map_right_iff,List.forall₂_same]
  exact fun p member => dim_exact ((eval_ok evaluated).2.1 p member)

end Slice

namespace Squeeze

variable {chosen : Option (List Int)}

theorem axes_ofShape {shape : Shape} {o : Option (List Nat)} (found : axes chosen (.ofShape shape) = .ok o) :
    ∃ axes, o = some axes := by
  unfold axes at found
  cases chosen with
  | none =>
    dsimp only at found
    split at found
    · cases found
      exact ⟨_,rfl⟩
    · rename_i open_
      exact absurd (by simp [ShapeFact.ofShape,Dim.isKnown]) open_
  | some as =>
    obtain ⟨axes,-,found⟩ := bind_ok.mp found
    obtain ⟨_,-,equal⟩ := bind_ok.mp found
    cases equal
    exact ⟨axes,rfl⟩

end Squeeze

namespace ExpandDims

end ExpandDims

namespace Flatten

theorem collapse_exact (s : Shape) : collapse (.ofShape s) = .known s.size := by
  match s with
  | [n] => simp [collapse,ShapeFact.ofShape,Shape.size]
  | [] => rfl
  | n :: m :: rest =>
    unfold collapse
    rw [ShapeFact.product_ofShape]
    rfl

end Flatten

namespace Reduction

variable {k : Reduction} {name : String} {chosen : Option (List Int)} {keepDims : Bool}

theorem dims_exact (keepDims : Bool) (axes : List Nat) (shape : Shape) :
    (if keepDims then
        (ShapeFact.ofShape shape).zipIdx.map fun (d,i) => if axes.contains i then Dim.one else d
      else dropAxes axes (ShapeFact.ofShape shape)) =
      ShapeFact.ofShape (if keepDims then keptShape axes shape else dropAxes axes shape) := by
  cases keepDims with
  | true => exact ShapeFact.eq_of_exactly (forall₂_mark (ShapeFact.exactly_ofShape shape) axes rfl)
  | false => exact ShapeFact.eq_of_exactly (forall₂_dropAxes (ShapeFact.exactly_ofShape shape) axes)

end Reduction

end TensorGraph
