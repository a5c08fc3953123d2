import TensorGraph.Proofs.Op.Exact.Elementwise
import TensorGraph.Proofs.Tensor.Proper

namespace TensorGraph
open Outcome

variable {t u : Tensor} {d : DType} {x y : Scalar} {f : Binary.Format} {signed : Bool} {bits : Nat}

theorem Layout.holds_float (holds : (Layout.float f).Holds x) : ∃ b, x = .float b ∧ f.Holds b := by
  cases x with
  | float b => exact ⟨b,rfl,holds⟩
  | int | bool | text | object => exact holds.elim

theorem Layout.holds_integer (holds : (Layout.integer signed bits).Holds x) :
    ∃ i, x = .int i ∧ DType.Within signed bits i := by
  cases x with
  | int i => exact ⟨i,rfl,holds⟩
  | float | bool | text | object => exact holds.elim

theorem DType.wrap_in (integer : d.layout = .integer signed bits) (i : Int) :
    Within signed bits (wrap signed bits i) := Scalar.holds_wrap integer i

namespace BinaryKind

variable {k : BinaryKind} {a b : Tensor}

theorem onFloats_holds (units : f.Units) {v w : Binary} (left : f.Holds v) (right : f.Holds w) :
    f.Holds (k.onFloats f v w) := by
  cases k with
  | add => exact Binary.add_holds units v w
  | sub => exact Binary.add_holds units v w.neg
  | mul => exact Binary.mul_holds units v w
  | div => exact Binary.div_holds units v w
  | rem => exact Binary.flooredRem_holds units left right
  | pow => exact Binary.elementary_holds units (fun a => Float.pow a w.toMachine) v
  | maximum => exact Binary.maximum_holds left right
  | minimum => exact Binary.minimum_holds left right
  | equal | notEqual | less | lessEqual | greater | greaterEqual | and | or => exact left

theorem onInts_within (integer : d.layout = .integer signed bits) {i j : Int} (left : DType.Within signed bits i)
    (right : DType.Within signed bits j) : DType.Within signed bits (k.onInts signed bits i j) := by
  cases k with
  | add | sub | mul | div | rem | pow => exact DType.wrap_in integer _
  | maximum => exact max_rec' (DType.Within signed bits) left right
  | minimum => exact min_rec' (DType.Within signed bits) left right
  | equal | notEqual | less | lessEqual | greater | greaterEqual | and | or => exact left

-- Two elements of a type are combined to one of the result's type; what has no meaning leaves the first.
theorem onScalars_holds (left : d.layout.Holds x) (right : d.layout.Holds y) :
    (k.resultDType d).layout.Holds (k.onScalars d x y) := by
  unfold onScalars resultDType
  split
  · exact trivial
  · cases layout : d.layout <;> rw [layout] at left right
    case float f =>
      obtain ⟨v,rfl,left⟩ := Layout.holds_float left
      obtain ⟨w,rfl,right⟩ := Layout.holds_float right
      have made : f.Holds (k.onFloats f v w) := onFloats_holds (DType.layout_units layout) left right
      cases k <;> exact made
    case integer signed bits =>
      obtain ⟨i,rfl,left⟩ := Layout.holds_integer left
      obtain ⟨j,rfl,right⟩ := Layout.holds_integer right
      have made : DType.Within signed bits (k.onInts signed bits i j) := onInts_within layout left right
      cases k <;> exact made
    all_goals
      cases x <;> first | exact left.elim | skip
      cases y <;> first | exact right.elim | skip
      cases k <;> exact trivial

theorem combine_proper (left : a.Proper) (right : b.Proper) (same : b.dtype = a.dtype) (shape : Shape) :
    (Tensor.combine (k.resultDType a.dtype) (k.onScalars a.dtype) a b shape).Proper := by
  refine Tensor.tabulate_proper fun index _ => onScalars_holds (left.get _) ?_
  rw [← same]
  exact right.get _

theorem eval_proper (left : a.Proper) (right : b.Proper) (evaluated : k.eval a b = .ok u) : u.Proper := by
  obtain ⟨same,-,shape,-,rfl⟩ := eval_ok evaluated
  exact combine_proper left right same shape

end BinaryKind

namespace UnaryKind

variable {k : UnaryKind}

theorem onFloats_holds (units : f.Units) {v : Binary} (holds : f.Holds v) : f.Holds (k.onFloats f v) := by
  cases k with
  | abs => exact holds.abs
  | neg => exact holds.neg
  | sqrt => exact Binary.sqrt_holds units v
  | rsqrt | sigmoid => exact Binary.div_holds units _ _
  | exp | log | tanh => exact Binary.elementary_holds units _ v
  | floor => exact Binary.floor_holds units holds
  | ceil => exact Binary.ceil_holds units holds
  | relu => exact Binary.maximum_holds holds (Binary.holds_zero units false)
  | not => exact holds

theorem onInts_within (integer : d.layout = .integer signed bits) {i : Int} (within : DType.Within signed bits i) :
    DType.Within signed bits (k.onInts signed bits i) := by
  cases k with
  | abs | neg => exact DType.wrap_in integer _
  | relu => exact max_rec' (DType.Within signed bits) within (Scalar.holds_bit integer false)
  | sqrt | rsqrt | exp | log | tanh | floor | ceil | sigmoid | not => exact within

theorem onScalar_holds (holds : d.layout.Holds x) : d.layout.Holds (k.onScalar d x) := by
  unfold onScalar
  cases layout : d.layout <;> rw [layout] at holds
  case float f =>
    obtain ⟨v,rfl,holds⟩ := Layout.holds_float holds
    have made : f.Holds (k.onFloats f v) := onFloats_holds (DType.layout_units layout) holds
    cases k <;> exact made
  case integer signed bits =>
    obtain ⟨i,rfl,holds⟩ := Layout.holds_integer holds
    have made : DType.Within signed bits (k.onInts signed bits i) := onInts_within layout holds
    cases k <;> exact made
  all_goals
    cases x <;> first | exact holds.elim | skip
    cases k <;> exact trivial

theorem eval_proper (input : t.Proper) (evaluated : k.eval t = .ok u) : u.Proper := by
  obtain ⟨-,rfl⟩ := eval_ok evaluated
  exact Tensor.map_proper input fun x member => onScalar_holds (input.holds x member)

end UnaryKind

namespace AddN

theorem sum_proper {a b : Tensor} (left : a.Proper) (right : b.Proper) (same : b.dtype = a.dtype) :
    (sum a b).Proper ∧ (sum a b).dtype = a.dtype := by
  unfold sum Tensor.zipWith?
  cases Shape.broadcast? a.shape b.shape with
  | none => exact ⟨left,rfl⟩
  | some shape => exact ⟨BinaryKind.combine_proper (k := .add) left right same shape,rfl⟩

-- Each step adds one more tensor of the first one's type to a proper sum of that type.
theorem eval_proper {rest : List Tensor} (inputs : ∀ s ∈ t :: rest, s.Proper)
    (evaluated : eval t rest = .ok u) : u.Proper := by
  obtain ⟨same,_,-,-,rfl⟩ := eval_ok evaluated
  have summed : (rest.foldl sum t).Proper ∧ (rest.foldl sum t).dtype = t.dtype := by
    refine List.foldlRecOn (motive := fun acc => acc.Proper ∧ acc.dtype = t.dtype) rest sum
      ⟨inputs t List.mem_cons_self,rfl⟩ ?_
    rintro acc ⟨proper,dtype⟩ s member
    have step := sum_proper proper (inputs s (List.mem_cons_of_mem t member))
      ((same s (List.mem_cons_of_mem t member)).trans dtype.symm)
    exact ⟨step.1,step.2.trans dtype⟩
  exact summed.1

end AddN

theorem Cast.eval_proper {target : DType} (input : t.Proper) (evaluated : eval target t = .ok u) : u.Proper := by
  unfold eval at evaluated
  split at evaluated
  · rename_i made
    cases evaluated
    exact Tensor.cast_proper input.size made
  · split at evaluated <;> cases evaluated

-- Extents that can be counted in a word become its integers.
theorem ShapeOf.eval_proper (counted : ∀ n ∈ t.shape, n < 2 ^ 63) : (eval t).Proper := by
  refine Tensor.proper_iff.mpr ⟨?_,List.forall_mem_map.mpr fun n member => ?_⟩
  · exact (List.length_map _).trans (Nat.mul_one _).symm
  · have small := counted n member
    exact (DType.within_signed (by decide)).mpr (by rw [Int.ofNat_eq_natCast]; constructor <;> omega)

namespace BatchNorm

theorem onScalars_holds {epsilon : Binary} {scale bias mean variance : Scalar} (holds : d.layout.Holds x) :
    d.layout.Holds (onScalars d epsilon x scale bias mean variance) := by
  unfold onScalars
  split
  · rename_i layout
    rw [layout]
    exact Binary.add_holds (DType.layout_units layout) _ _
  · exact holds

theorem eval_proper {epsilon : Binary} {scale bias mean variance : Tensor} (input : t.Proper)
    (evaluated : eval epsilon t scale bias mean variance = .ok u) : u.Proper := by
  obtain ⟨_,-,evaluated⟩ := bind_ok.mp evaluated
  obtain ⟨_,-,evaluated⟩ := bind_ok.mp evaluated
  dsimp only at evaluated
  split at evaluated
  · cases evaluated
  · split at evaluated
    · cases evaluated
      exact Tensor.tabulate_proper fun index _ => onScalars_holds (input.get index)
    · cases evaluated

end BatchNorm

end TensorGraph
