import TensorGraph.Op
import TensorGraph.Proofs.Fact.Alike
import TensorGraph.Proofs.Op.Exact.Axes
import TensorGraph.Proofs.Op.Turn

namespace TensorGraph
open Outcome Facts

namespace Transpose

variable {perm : Option (List Int)} {p q : List Nat} {x out : Fact} {s : ShapeFact} {n a : Nat}

-- Where each axis stands in the order.
def inverse (p : List Nat) : List Nat := (List.range p.length).map p.idxOf

section Order
variable (order : p.Perm (List.range n))
include order

theorem permutation_order : permutation (some (p.map Int.ofNat)) n = .ok p := by
  have valid : isPermutation (p.map Int.ofNat) n = true := by
    refine Bool.and_eq_true_iff.mpr ⟨beq_iff_eq.mpr ((List.length_map _).trans (order_length order)),?_⟩
    exact List.all_eq_true.mpr fun a member => List.contains_iff_mem.mpr (List.mem_map_of_mem (order.mem_iff.mpr member))
  unfold permutation
  dsimp only
  rw [if_pos valid,List.map_map]
  exact congrArg Except.ok (List.map_id p)

theorem inverse_after : ((inverse p).map fun b => p.getD b 0) = List.range n := by
  rw [inverse,order_length order,List.map_map]
  refine (List.map_congr_left fun a member => ?_).trans (List.map_id _)
  have axis := List.mem_range.mp member
  exact ((idxOf_eq_iff order axis (order_idxOf_lt order axis)).mp rfl).symm

theorem inverse_order : (inverse p).Perm (List.range n) := by
  have inside : inverse p ⊆ List.range n := by
    rw [inverse,order_length order]
    refine fun b member => ?_
    obtain ⟨a,axis,rfl⟩ := List.mem_map.mp member
    exact List.mem_range.mpr (order_idxOf_lt order (List.mem_range.mp axis))
  -- Two axes at one place would be one axis.
  have distinct : (inverse p).Nodup := by
    have named : ((inverse p).map fun b => p.getD b 0).Nodup := by
      rw [inverse_after order]
      exact List.nodup_range
    exact List.Pairwise.of_map _ (fun a b apart same => apart (same ▸ rfl)) named
  refine (distinct.subperm inside).perm_of_length_le ?_
  rw [List.length_range,inverse,List.length_map,List.length_range,order_length order]

end Order

theorem turn_inverse {t : Tensor} (order : p.Perm (List.range t.shape.length)) : turn (inverse p) (turn p t) = t.table := by
  rw [turn_turn order (inverse_order order),inverse_after order,turn_range]

theorem infer_forward (known : x.shape = some s) (found : permutation perm s.length = .ok p) :
    infer perm [x] [.unknown] = .ok ([x],[.outline x.dtype (some (p.map fun a => s.getD a .unknown))]) := by
  obtain ⟨length,all⟩ := permutation_ok found
  have back : scatter p (p.map fun a => s.getD a .unknown) .unknown = s := scatter_map Dim.unknown length all
  have forwards : forward perm x (.outline x.dtype none) = .ok (.outline x.dtype (some (p.map fun a => s.getD a .unknown))) := by
    rw [forward,known]
    exact bind_ok.mpr ⟨p,found,Fact.open_withDims _ _⟩
  have backwards : backward perm x (.outline x.dtype (some (p.map fun a => s.getD a .unknown))) = .ok x := by
    refine bind_ok.mpr ⟨p,by rw [List.length_map,length,found],?_⟩
    rw [back,Fact.withDims_own known]
  rw [infer_eq]
  exact bind_ok.mpr ⟨_,sharedPair_input x,bind_ok.mpr ⟨_,forwards,bind_ok.mpr ⟨_,backwards,rfl⟩⟩⟩

theorem infer_backward (known : out.shape = some s) (found : permutation perm s.length = .ok p) :
    infer perm [.unknown] [out] = .ok ([.outline out.dtype (some (scatter p s .unknown))],[out]) := by
  have backwards : backward perm (.outline out.dtype none) out = .ok (.outline out.dtype (some (scatter p s .unknown))) := by
    rw [backward,known]
    exact bind_ok.mpr ⟨p,found,Fact.open_withDims _ _⟩
  rw [infer_eq]
  exact bind_ok.mpr ⟨_,sharedPair_output out,bind_ok.mpr ⟨out,rfl,bind_ok.mpr ⟨_,backwards,rfl⟩⟩⟩

end Transpose

namespace Op

variable {p q : List Nat} {n : Nat}

-- The transposition by an order of the axes.
def turned (p : List Nat) : Op := .transpose (some (p.map Int.ofNat))

theorem eval_turned {t : Tensor} (order : p.Perm (List.range t.shape.length)) :
    (turned p).eval [t] = .ok [Transpose.turn p t] :=
  map_ok.mpr ⟨_,Transpose.eval_eq_turn (Transpose.permutation_order order),rfl⟩

-- One transposition after another takes the orders one after the other, the inverse order takes a tensor back, and the
-- rule takes the shape it has told the output back to the input.
theorem transpositions_compose (first : p.Perm (List.range n)) (second : q.Perm (List.range n)) :
    (∀ t : Tensor, t.shape.length = n → ∃ u v, (turned p).eval [t] = .ok [u] ∧ (turned q).eval [u] = .ok [v] ∧
      (turned (q.map fun i => p.getD i 0)).eval [t] = .ok [v]) ∧
    (∀ t : Tensor, t.shape.length = n → t.data.length = t.shape.size →
      ∃ u, (turned p).eval [t] = .ok [u] ∧ (turned (Transpose.inverse p)).eval [u] = .ok [t]) ∧
    ∀ (x : Fact) (s : ShapeFact), x.shape = some s → s.length = n →
      ∃ out, (turned p).infer [x] [.unknown] = .ok ([x],[out]) ∧
        (turned p).infer [.unknown] [out] = .ok ([.outline x.dtype (some s)],[out]) := by
  refine ⟨?_,?_,?_⟩
  · rintro t rfl
    have rank : (Transpose.turn p t).shape.length = t.shape.length := (List.length_map _).trans (Transpose.order_length first)
    refine ⟨_,_,eval_turned first,eval_turned (rank ▸ second),?_⟩
    rw [Transpose.turn_turn first second]
    exact eval_turned (Transpose.order_comp first second)
  · rintro t rfl sized
    have rank : (Transpose.turn p t).shape.length = t.shape.length := (List.length_map _).trans (Transpose.order_length first)
    refine ⟨_,eval_turned first,?_⟩
    rw [eval_turned (rank ▸ Transpose.inverse_order first),Transpose.turn_inverse first,Tensor.table_eq sized]
  · rintro x s known rfl
    have found := Transpose.permutation_order first
    obtain ⟨length,all⟩ := Transpose.permutation_ok found
    refine ⟨_,Transpose.infer_forward known found,?_⟩
    have rank : (p.map fun a => s.getD a .unknown).length = s.length := (List.length_map _).trans length
    have again := @Transpose.infer_backward _ p (.outline x.dtype (some (p.map fun a => s.getD a .unknown))) _ rfl (rank ▸ found)
    rwa [Transpose.scatter_map Dim.unknown length all] at again

def ladder : Tensor := ⟨.i8,[1,2,3],[.int 0,.int 1,.int 2,.int 3,.int 4,.int 5]⟩

-- The first order goes round three axes, so it is not its own inverse.
theorem transpositions_compose_ladder : [1,2,0].Perm (List.range 3) ∧ [1,0,2].Perm (List.range 3) ∧
    (∃ u, (turned [1,2,0]).eval [ladder] = .ok [u] ∧
      (turned [1,0,2]).eval [u] = .ok [⟨.i8,[3,2,1],[.int 0,.int 3,.int 1,.int 4,.int 2,.int 5]⟩]) ∧
    (∃ u, (turned [1,2,0]).eval [ladder] = .ok [u] ∧ (turned [2,0,1]).eval [u] = .ok [ladder]) ∧
    ∃ out, (turned [1,2,0]).infer [.outline none (some [.streaming,.unknown,.known 3])] [.unknown] =
        .ok ([.outline none (some [.streaming,.unknown,.known 3])],[out]) ∧
      (turned [1,2,0]).infer [.unknown] [out] = .ok ([.outline none (some [.streaming,.unknown,.known 3])],[out]) := by
  have first : [1,2,0].Perm (List.range 3) := by decide
  have second : [1,0,2].Perm (List.range 3) := by decide
  obtain ⟨composes,restores,relearns⟩ := transpositions_compose first second
  obtain ⟨u,v,once,twice,whole⟩ := composes ladder rfl
  cases Except.ok.inj whole
  exact ⟨first,second,⟨u,once,twice⟩,restores ladder rfl rfl,relearns _ _ rfl rfl⟩

end Op

end TensorGraph
