import TensorGraph.Proofs.Op.Proper.Elementwise
import TensorGraph.Proofs.Op.Sound.Axes
import TensorGraph.Proofs.Op.Sound.Join
import TensorGraph.Proofs.Op.Sound.Product
import TensorGraph.Proofs.Op.Sound.Reshape

namespace TensorGraph
open Outcome

variable {t u : Tensor} {d : DType} {f : Binary.Format} {signed : Bool} {bits : Nat}

namespace Shape

theorem size_append (s r : Shape) : size (s ++ r) = s.size * r.size := by
  induction s with
  | nil => exact (Nat.one_mul _).symm
  | cons n s ih => rw [List.cons_append,size,size,ih,Nat.mul_assoc]

-- Axes of extent 1 do not count, whether they are there or not.
theorem size_dropAxes (axes : List Nat) (s : Shape) : size (dropAxes axes s) = size (Reduction.keptShape axes s) := by
  suffices counted : ∀ i, size (((s.zipIdx i).filter fun p => !axes.contains p.2).map (·.1)) =
      size ((s.zipIdx i).map fun p => if axes.contains p.2 then 1 else p.1) from counted 0
  induction s with
  | nil => exact fun _ => rfl
  | cons n s ih =>
    intro i
    rw [List.zipIdx_cons,List.filter_cons,List.map_cons,size]
    cases axes.contains i with
    | true => simpa using ih (i + 1)
    | false => simpa [size] using congrArg (n * ·) (ih (i + 1))

theorem keptShape_of_ones {axes : List Nat} {s : Shape} (ones : ∀ (a : Nat) n, a ∈ axes → s[a]? = some n → n = 1) :
    Reduction.keptShape axes s = s := by
  have same : ∀ p ∈ s.zipIdx, (if axes.contains p.2 then 1 else p.1) = p.1 := by
    intro p member
    split
    · rename_i inside
      exact (ones p.2 p.1 (List.contains_iff_mem.mp inside) (List.mem_zipIdx_iff_getElem?.mp member)).symm
    · rfl
  exact (List.map_congr_left same).trans (List.zipIdx_map_fst 0 s)

theorem size_addAxes {axes : List Nat} {i count : Nat} {s : Shape}
    (others : (List.range' i count).countP (fun a => !axes.contains a) = s.length) :
    size (addAxes axes 1 i count s) = s.size := by
  induction count generalizing i s with
  | zero =>
    rw [List.range'_zero,List.countP_nil] at others
    rw [List.length_eq_zero_iff.mp others.symm]
    rfl
  | succ count ih =>
    rw [List.range'_succ,List.countP_cons] at others
    unfold addAxes
    cases here : axes.contains i with
    | true =>
      rw [here] at others
      rw [if_pos rfl,size,Nat.one_mul]
      exact ih others
    | false =>
      rw [here] at others
      rw [if_neg Bool.false_ne_true]
      cases s with
      | nil => cases others
      | cons n s =>
        rw [size,size]
        exact congrArg (n * ·) (ih (Nat.add_right_cancel others))

end Shape

namespace Transpose

theorem eval_proper {perm : Option (List Int)} (input : t.Proper) (evaluated : eval perm t = .ok u) : u.Proper := by
  obtain ⟨p,-,equal⟩ := bind_ok.mp evaluated
  cases equal
  exact Tensor.tabulate_proper fun index _ => input.get _

end Transpose

theorem Slice.eval_proper {spans : List Span} (input : t.Proper) (evaluated : eval spans t = .ok u) : u.Proper := by
  obtain ⟨-,-,rfl⟩ := eval_ok evaluated
  exact Tensor.tabulate_proper fun index _ => input.get _

namespace Concat

theorem pick_holds {axis i : Nat} {index : List Nat} {ts : List Tensor}
    (inputs : ∀ t ∈ ts, t.Proper ∧ t.dtype = d) : d.layout.Holds (pick axis d index ts i) := by
  induction ts generalizing i with
  | nil => exact Scalar.holds_zero d
  | cons t ts ih =>
    obtain ⟨⟨proper,dtype⟩,later⟩ := List.forall_mem_cons.mp inputs
    unfold pick
    dsimp only
    split
    · exact dtype ▸ proper.get _
    · exact ih later

theorem eval_proper {axis : Int} {rest : List Tensor} (inputs : ∀ s ∈ t :: rest, s.Proper)
    (evaluated : eval axis t rest = .ok u) : u.Proper := by
  obtain ⟨_,-,alike,rfl⟩ := eval_ok evaluated
  exact Tensor.tabulate_proper fun _ _ => pick_holds fun s member => ⟨inputs s member,(alike s member).1⟩

end Concat

namespace Pack

theorem ofTensor_dtype (made : t.ofTensor (some d) = .ok u) : u.dtype = d := by
  unfold Tensor.ofTensor at made
  dsimp only at made
  split at made
  · cases made
    assumption
  · obtain ⟨_,-,equal⟩ := bind_ok.mp made
    cases equal
    rfl

theorem stack_proper {axis : Nat} {shape : Shape} {ts : List Tensor} (each : ∀ t ∈ ts, t.Proper ∧ t.dtype = d) :
    (stack axis d shape ts).Proper := by
  refine Tensor.tabulate_proper fun index _ => ?_
  split
  · rename_i t found
    obtain ⟨proper,dtype⟩ := each t (List.mem_of_getElem? found)
    exact dtype ▸ proper.get _
  · exact Scalar.holds_zero d

-- The tensors that are stacked have been converted to one type.
theorem eval_proper {axis : Int} {rest : List Tensor} (inputs : ∀ s ∈ t :: rest, s.Proper)
    (evaluated : eval axis t rest = .ok u) : u.Proper := by
  obtain ⟨d,_,ts,-,-,-,casts,rfl⟩ := eval_ok evaluated
  refine stack_proper fun s member => ?_
  obtain ⟨source,present,made⟩ := forall₂_right casts s member
  exact ⟨Tensor.ofTensor_proper (inputs source present) made,ofTensor_dtype made⟩

end Pack

theorem Squeeze.eval_proper {given : Option (List Int)} (input : t.Proper) (evaluated : eval given t = .ok u) :
    u.Proper := by
  obtain ⟨found,chosen,equal⟩ := bind_ok.mp evaluated
  cases equal
  refine input.reshape ((Shape.size_dropAxes _ _).trans (congrArg Shape.size (Shape.keptShape_of_ones ?_)))
  cases found with
  | none => exact nofun
  | some found => exact axes_ones chosen

theorem ExpandDims.eval_proper {axes : List Int} (input : t.Proper) (evaluated : eval axes t = .ok u) : u.Proper := by
  obtain ⟨shape,expanded,equal⟩ := bind_ok.mp evaluated
  cases equal
  obtain ⟨found,chosen,distinct,rfl⟩ := expand_ok expanded
  exact input.reshape (Shape.size_addAxes (expand_others chosen distinct))

theorem Flatten.eval_proper {axis : Int} (input : t.Proper) (evaluated : eval axis t = .ok u) : u.Proper := by
  obtain ⟨a,-,equal⟩ := bind_ok.mp evaluated
  cases equal
  refine input.reshape ?_
  rw [Shape.size,Shape.size,Shape.size,Nat.mul_one,← Shape.size_append,List.take_append_drop]

theorem Reshape.eval_proper {own : Option (List Int)} {given : Option Tensor} (input : t.Proper)
    (evaluated : eval own t given = .ok u) : u.Proper := by
  obtain ⟨ds,-,evaluated⟩ := bind_ok.mp evaluated
  obtain ⟨dims,-,applied⟩ := bind_ok.mp evaluated
  unfold apply at applied
  dsimp only at applied
  split at applied
  · cases applied
  · split at applied
    · cases applied
    · rename_i fits
      cases applied
      simp only [Bool.or_eq_true,bne_iff_ne,not_or,Decidable.not_not] at fits
      exact input.reshape ((Shape.size_eq_foldr _).symm.trans fits.2)

namespace Reduction

variable {k : Reduction} {xs : List Scalar}

theorem mem_floatsOf {b : Binary} : b ∈ floatsOf xs ↔ .float b ∈ xs := by
  unfold floatsOf
  rw [List.mem_filterMap]
  constructor
  · rintro ⟨x,member,found⟩
    cases x <;> cases found
    exact member
  · exact fun member => ⟨.float b,member,rfl⟩

theorem mem_intsOf {i : Int} : i ∈ intsOf xs ↔ .int i ∈ xs := by
  unfold intsOf
  rw [List.mem_filterMap]
  constructor
  · rintro ⟨x,member,found⟩
    cases x <;> cases found
    exact member
  · exact fun member => ⟨.int i,member,rfl⟩

-- The extreme element is one of the list, and of an empty one what stands for none.
theorem extreme_holds {α : Type} {P : α → Prop} {pick : α → α → α} {e : α} {xs : List α} (none : P e)
    (each : ∀ x ∈ xs, P x) (picked : ∀ x y, P x → P y → P (pick x y)) : P (xs.tail.foldl pick (xs.headD e)) := by
  cases xs with
  | nil => exact none
  | cons x xs =>
    obtain ⟨first,rest⟩ := List.forall_mem_cons.mp each
    exact List.foldlRecOn (motive := P) xs pick first fun acc holds y member => picked acc y holds (rest y member)

theorem onFloats_holds (units : f.Units) {bs : List Binary} (each : ∀ b ∈ bs, f.Holds b) :
    f.Holds (k.onFloats f bs) := by
  cases k with
  | sum | prod | mean => exact Binary.convert_holds units _
  | max => exact extreme_holds (Binary.holds_zero units false) each fun _ _ => Binary.maximum_holds
  | min => exact extreme_holds (Binary.holds_zero units false) each fun _ _ => Binary.minimum_holds

theorem onInts_within (integer : d.layout = .integer signed bits) {is : List Int}
    (each : ∀ i ∈ is, DType.Within signed bits i) : DType.Within signed bits (k.onInts signed bits is) := by
  have zero : DType.Within signed bits 0 := Scalar.holds_bit integer false
  cases k with
  | sum | prod | mean => exact DType.wrap_in integer _
  | max => exact extreme_holds zero each fun _ _ => max_rec' (DType.Within signed bits)
  | min => exact extreme_holds zero each fun _ _ => min_rec' (DType.Within signed bits)

theorem onScalars_holds (each : ∀ x ∈ xs, d.layout.Holds x) : d.layout.Holds (k.onScalars d xs) := by
  unfold onScalars
  cases layout : d.layout <;> rw [layout] at each
  case float f => exact onFloats_holds (DType.layout_units layout) fun b member => each _ (mem_floatsOf.mp member)
  case integer signed bits => exact onInts_within layout fun i member => each _ (mem_intsOf.mp member)
  all_goals
    have zero := Scalar.holds_zero d
    rw [layout] at zero
    exact zero

theorem reduce_proper (axes : List Nat) (input : t.Proper) : (k.reduce axes t).Proper :=
  Tensor.tabulate_proper fun _ _ => onScalars_holds (List.forall_mem_map.mpr fun _ _ => input.get _)

theorem eval_proper {name : String} {given : Option (List Int)} {keepDims : Bool} (input : t.Proper)
    (evaluated : k.eval name given keepDims t = .ok u) : u.Proper := by
  obtain ⟨-,chosen,-,rfl⟩ := eval_ok evaluated
  have reduced : (k.reduce chosen t).Proper := reduce_proper chosen input
  cases keepDims with
  | true => exact reduced
  | false => exact reduced.reshape (Shape.size_dropAxes chosen t.shape)

end Reduction

namespace Softmax

theorem eval_proper {axis : Int} (input : t.Proper) (evaluated : eval axis t = .ok u) : u.Proper := by
  obtain ⟨_,-,evaluated⟩ := bind_ok.mp evaluated
  obtain ⟨a,-,evaluated⟩ := bind_ok.mp evaluated
  split at evaluated
  · cases evaluated
  · cases evaluated
    have greatest : (Reduction.max.reduce [a] t).Proper := Reduction.reduce_proper [a] input
    have shifted := BinaryKind.combine_proper (k := .sub) input greatest rfl t.shape
    have powers := Tensor.map_proper shifted fun x member =>
      UnaryKind.onScalar_holds (k := .exp) (shifted.holds x member)
    have totals := Reduction.reduce_proper (k := .sum) [a] powers
    exact BinaryKind.combine_proper (k := .div) powers totals rfl t.shape

end Softmax

namespace MatMul

variable {a b : Tensor}

theorem dot_holds (d : DType) (pairs : List (Scalar × Scalar)) : d.layout.Holds (dot d pairs) := by
  unfold dot
  cases layout : d.layout
  case float f => exact Binary.convert_holds (DType.layout_units layout) _
  case integer signed bits => exact Scalar.holds_wrap layout _
  all_goals
    have zero := Scalar.holds_zero d
    rw [layout] at zero
    exact zero

theorem asMatrixLeft_one {s front : Shape} {m k : Nat} (one : s.length = 1)
    (matrix : asMatrixLeft s = front ++ [m,k]) : m = 1 := by
  obtain ⟨x,rfl⟩ := List.length_eq_one_iff.mp one
  cases front with
  | nil =>
    cases matrix
    rfl
  | cons n front =>
    have length := congrArg List.length matrix
    simp [asMatrixLeft] at length

theorem asMatrixRight_one {s front : Shape} {k n : Nat} (one : s.length = 1)
    (matrix : asMatrixRight s = front ++ [k,n]) : n = 1 := by
  obtain ⟨x,rfl⟩ := List.length_eq_one_iff.mp one
  cases front with
  | nil =>
    cases matrix
    rfl
  | cons m front =>
    have length := congrArg List.length matrix
    simp [asMatrixRight] at length

-- The axes that made operands matrices have an extent of 1 in the product.
theorem size_dropAdded {s r shape : Shape} (left : s ≠ []) (right : r ≠ [])
    (met : productShape? (asMatrixLeft s) (asMatrixRight r) = some shape) :
    (dropAdded s.length r.length shape).size = shape.size := by
  obtain ⟨front,_,m,k,-,-,matrixS,-⟩ := asMatrixLeft_split left
  obtain ⟨back,_,l,n,-,-,matrixR,-⟩ := asMatrixRight_split right
  have row : s.length = 1 → m = 1 := fun one => asMatrixLeft_one one matrixS
  have column : r.length = 1 → n = 1 := fun one => asMatrixRight_one one matrixR
  rw [matrixS,matrixR] at met
  obtain ⟨batch,-,-,rfl⟩ := productShape?_append met
  rw [dropAdded_append,Shape.size_append,Shape.size_append,Shape.size_append,Nat.mul_assoc]
  have own : Shape.size (if s.length = 1 then [] else [m]) = m := by
    split
    · exact (row ‹_›).symm
    · exact Nat.mul_one m
  have other : Shape.size (if r.length = 1 then [] else [n]) = n := by
    split
    · exact (column ‹_›).symm
    · exact Nat.mul_one n
  rw [own,other,Shape.size,Shape.size,Shape.size,Nat.mul_one]

theorem eval_proper (evaluated : eval a b = .ok u) : u.Proper := by
  obtain ⟨-,left,right,shape,met,rfl⟩ := eval_ok evaluated
  refine Tensor.Proper.reshape (Tensor.tabulate_proper fun _ _ => dot_holds a.dtype _) ?_
  exact size_dropAdded left right met

end MatMul

end TensorGraph
