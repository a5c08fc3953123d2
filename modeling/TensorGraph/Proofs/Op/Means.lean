import TensorGraph.Proofs.Binary.Whole
import TensorGraph.Proofs.Op.Regrouped

namespace TensorGraph
open Outcome

namespace DType

variable {signed : Bool} {bits : Nat} {is : List Int}

theorem within_zero (signed : Bool) (bits : Nat) : Within signed bits 0 := by
  have unit (k : Nat) : 0 < Nat.pow 2 k := Nat.two_pow_pos k
  have low := unit (bits - 1)
  cases signed with
  | false => exact ⟨le_rfl,Int.le_sub_one_of_lt (Int.natCast_pos.mpr (unit bits))⟩
  | true => exact ⟨Int.neg_nonpos_of_nonneg (Int.natCast_nonneg _),Int.le_sub_one_of_lt (Int.natCast_pos.mpr low)⟩

-- A quotient lies between the bounds of what is divided, if zero does.
theorem tdiv_between {low high i : Int} {n : Nat} (positive : 0 < n) (below : low ≤ 0) (above : 0 ≤ high)
    (least : n * low ≤ i) (most : i ≤ n * high) : low ≤ i.tdiv n ∧ i.tdiv n ≤ high := by
  have divisor : (0 : Int) < n := Int.natCast_pos.mpr positive
  rcases le_total 0 i with forward | backward
  · rw [Int.tdiv_eq_ediv_of_nonneg forward]
    exact ⟨below.trans (Int.ediv_nonneg forward divisor.le),Int.ediv_le_of_le_mul divisor (by rwa [Int.mul_comm])⟩
  · obtain ⟨j,rfl⟩ : ∃ j, i = -j := ⟨-i,by omega⟩
    have forward : 0 ≤ j := by omega
    have quotient := Int.ediv_nonneg forward divisor.le
    have bounded : j / n ≤ -low := Int.ediv_le_of_le_mul divisor (by rw [Int.neg_mul,Int.mul_comm low]; omega)
    rw [Int.neg_tdiv,Int.tdiv_eq_ediv_of_nonneg forward]
    omega

theorem Within.mean (each : ∀ i ∈ is, Within signed bits i) (filled : is ≠ []) :
    Within signed bits (is.sum.tdiv is.length) := by
  obtain ⟨below,above⟩ := within_zero signed bits
  have least := List.card_nsmul_le_sum is (lowest signed bits) fun i member => (each i member).1
  have most := List.sum_le_card_nsmul is (highest signed bits) fun i member => (each i member).2
  rw [nsmul_eq_mul] at least most
  exact tdiv_between (List.length_pos_of_ne_nil filled) below above least most

theorem Within.natAbs_le {i : Int} (positive : 0 < bits) (within : Within signed bits i) : i.natAbs ≤ 2 ^ bits := by
  cases signed with
  | false =>
    obtain ⟨low,high⟩ := within_unsigned.mp within
    omega
  | true =>
    obtain ⟨low,high⟩ := (within_signed positive).mp within
    omega

end DType

namespace Reduction

variable {t : Tensor} {signed : Bool} {bits : Nat} {name : String} {given : Option (List Int)} {keepDims : Bool}
  {chosen : List Nat} {is : List Int}

-- The digits of a double count to all that is added up, with whatever signs, and to how many they are.
structure Counted (is : List Int) : Prop where
  magnitudes : (is.map Int.natAbs).sum ≤ 2 ^ 53
  length : is.length ≤ 2 ^ 53

-- Integers of few bits are counted unless they are very many.
theorem counted_of_within (positive : 0 < bits) (each : ∀ i ∈ is, DType.Within signed bits i)
    (few : is.length * 2 ^ bits ≤ 2 ^ 53) : Counted is := by
  have magnitudes := List.sum_le_card_nsmul (is.map Int.natAbs) (2 ^ bits) (List.forall_mem_map.mpr fun i member =>
    (each i member).natAbs_le positive)
  rw [List.length_map,nsmul_eq_mul,Nat.cast_id] at magnitudes
  exact ⟨magnitudes.trans few,(Nat.le_mul_of_pos_right _ (Nat.two_pow_pos bits)).trans few⟩

theorem floatMean_truncate (counted : Counted is) (filled : is ≠ []) :
    (floatMean .double (is.map (Binary.ofInt .double))).truncate? = some (is.sum.tdiv is.length) := by
  have wide := Binary.Format.double_wide
  have zero : Binary.zero.Denotes (0 : Int) := by simp [Binary.zero,Binary.Denotes,Binary.turned]
  have magnitudes : (0 : Int).natAbs + (is.map Int.natAbs).sum ≤ 2 ^ 53 := by
    rw [Int.natAbs_zero,Nat.zero_add]
    exact counted.magnitudes
  have total := Binary.sum_denotes wide zero magnitudes
  rw [Int.zero_add] at total
  have length : (Binary.ofInt .double is.length).Denotes ((is.length : Int) : ℚ) := Binary.ofInt_denotes wide counted.length
  rw [Int.cast_natCast] at length
  have small : is.sum.natAbs ≤ 2 ^ 53 :=
    (List.le_sum_of_subadditive Int.natAbs le_rfl Int.natAbs_add_le is).trans counted.magnitudes
  unfold floatMean
  rw [List.length_map]
  exact Binary.div_truncate wide total length (List.length_pos_of_ne_nil filled) small counted.length

theorem onInts_mean (positive : 0 < bits) (each : ∀ i ∈ is, DType.Within signed bits i) (filled : is ≠ [])
    (counted : Counted is ∨ is.length * 2 ^ bits ≤ 2 ^ 53) :
    mean.onInts signed bits is = is.sum.tdiv is.length := by
  have counted := counted.elim id (counted_of_within positive each)
  unfold onInts
  dsimp only
  rw [floatMean_truncate counted filled]
  exact DType.wrap_of_within positive (.mean each filled)

theorem length_members (chosen : List Nat) (t : Tensor) (index : List Nat) :
    (members chosen t index).length = (reducedShape chosen t.shape).size := by
  rw [members_eq,List.length_map,Shape.length_indices]

-- A mean of integers over axes that hold some is there, and each element is the sum of what was gathered for it, divided by
-- their number and cut off toward zero: wherever a double counts them, as it does in a datatype of few bits.
theorem eval_mean (formed : t.WellFormed) (integer : t.dtype.layout = .integer signed bits)
    (found : axes given t.rank = .ok chosen) (filled : 0 < (reducedShape chosen t.shape).size) :
    ∃ y, mean.eval name given keepDims t = .ok (if keepDims then y else y.reshape (dropAxes chosen t.shape)) ∧
      y.dtype = t.dtype ∧ y.shape = keptShape chosen t.shape ∧ ∀ index ∈ y.shape.indices,
        (members chosen t index).length = (reducedShape chosen t.shape).size ∧
        (Counted (members chosen t index) ∨ (reducedShape chosen t.shape).size * 2 ^ bits ≤ 2 ^ 53 →
          y.get index = .int ((members chosen t index).sum.tdiv (reducedShape chosen t.shape).size)) := by
  have numeric := DType.isNumeric_of_layout integer
  have proper := formed.proper integer
  refine ⟨mean.reduce chosen t,?_,rfl,rfl,fun index inside => ⟨length_members chosen t index,fun counted => ?_⟩⟩
  · rw [eval_eq numeric]
    exact bind_ok.mpr ⟨chosen,found,rfl⟩
  · rw [← length_members chosen t index] at counted ⊢
    rw [get_reduce proper integer inside,onInts_mean (DType.layout_bits integer) ?_ (members_ne_nil filled index) counted]
    refine List.forall_mem_map.mpr fun x member => Scalar.whole_within (integer ▸ ?_)
    exact group_holds proper chosen index x member

def ledger : Tensor := ⟨.i64,[2,2],[.int 4503599627370496,.int 4503599627370495,.int (-5),.int 2]⟩

-- The first mean ends in a half, and the second is cut off upward.
theorem eval_mean_half : ledger.WellFormed ∧ axes (some [-1]) ledger.rank = .ok [1] ∧
    0 < (reducedShape [1] ledger.shape).size ∧
    ∃ y : Tensor, mean.eval "ReduceMean" (some [-1]) false ledger = .ok (y.reshape [2]) ∧ y.dtype = .i64 ∧ y.shape = [2,1] ∧
      y.get [0,0] = .int 4503599627370495 ∧ y.get [1,0] = .int (-1) := by
  have formed : ledger.WellFormed := ⟨rfl,by
    simp [ledger,Scalar.Fits,DType.layout,DType.lowest,DType.highest]⟩
  obtain ⟨y,evaluated,dtype,shape,each⟩ := @eval_mean ledger true 64 "ReduceMean" (some [-1]) false [1]
    formed rfl rfl (by decide)
  refine ⟨formed,rfl,by decide,y,evaluated,dtype,shape,?_,?_⟩
  · exact (each [0,0] (by rw [shape]; decide)).2 (.inl ⟨by decide,by decide⟩)
  · exact (each [1,0] (by rw [shape]; decide)).2 (.inl ⟨by decide,by decide⟩)

def odd : Tensor := ⟨.i64,[1],[.int 9007199254740993]⟩

-- An integer is its own mean, but this one is not among those that a double can count to.
theorem eval_mean_uncounted : odd.WellFormed ∧ axes none odd.rank = .ok [0] ∧ members [0] odd [0] = [9007199254740993] ∧
    mean.eval "ReduceMean" none true odd = .ok ⟨.i64,[1],[.int 9007199254740992]⟩ ∧
    (members [0] odd [0]).sum.tdiv (members [0] odd [0]).length = 9007199254740993 := by
  have formed : odd.WellFormed := ⟨rfl,by
    simp [odd,Scalar.Fits,DType.layout,DType.lowest,DType.highest]⟩
  have value : mean.onInts true 64 [9007199254740993] = 9007199254740992 := by decide +kernel
  have evaluated : mean.eval "ReduceMean" none true odd = .ok ⟨.i64,[1],[.int (mean.onInts true 64 [9007199254740993])]⟩ := rfl
  rw [value] at evaluated
  exact ⟨formed,rfl,rfl,evaluated,by decide⟩

end Reduction

end TensorGraph
