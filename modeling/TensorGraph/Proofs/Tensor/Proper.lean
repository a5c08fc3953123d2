import TensorGraph.Proofs.Binary.Format
import TensorGraph.Proofs.Outcome
import TensorGraph.Tensor.Broadcast
import TensorGraph.Tensor.Build

namespace TensorGraph
open Outcome

namespace DType

variable {t : DType} {signed : Bool} {bits : Nat} {i : Int}

theorem layout_units {f : Binary.Format} (float : t.layout = .float f) : f.Units := by
  cases t <;> cases float <;> exact ⟨by decide,by decide,by decide⟩

theorem layout_bits (integer : t.layout = .integer signed bits) : 0 < bits := by
  cases t <;> cases integer <;> decide

theorem isInteger_of_layout (integer : t.layout = .integer signed bits) : t.isInteger = true := by
  rw [isInteger,integer]

theorem isInteger_iff : t.isInteger = true ↔ ∃ signed bits, t.layout = .integer signed bits := by
  constructor
  · intro integer
    unfold isInteger at integer
    split at integer
    · exact ⟨_,_,‹_›⟩
    · cases integer
  · rintro ⟨signed,bits,integer⟩
    exact isInteger_of_layout integer

theorem isNumeric_of_layout (integer : t.layout = .integer signed bits) : t.isNumeric = true := by
  rw [isNumeric,isInteger_of_layout integer,Bool.or_true]

def Within (signed : Bool) (bits : Nat) (i : Int) : Prop := lowest signed bits ≤ i ∧ i ≤ highest signed bits

theorem within_signed (positive : 0 < bits) :
    Within true bits i ↔ -(2 ^ bits : Nat) ≤ 2 * i ∧ 2 * i < (2 ^ bits : Nat) := by
  obtain ⟨k,rfl⟩ : ∃ k, bits = k + 1 := ⟨bits - 1,by omega⟩
  unfold Within lowest highest
  simp only [if_true,Nat.pow_eq,Nat.add_sub_cancel,Int.ofNat_eq_natCast]
  rw [pow_succ]
  omega

theorem within_unsigned : Within false bits i ↔ 0 ≤ i ∧ i < (2 ^ bits : Nat) := by
  unfold Within lowest highest
  simp only [Bool.false_eq_true,if_false,Nat.pow_eq,Int.ofNat_eq_natCast]
  omega

theorem wrap_within (positive : 0 < bits) : Within signed bits (wrap signed bits i) := by
  have unit : 0 < 2 ^ bits := Nat.two_pow_pos bits
  unfold wrap
  cases signed
  · exact within_unsigned.mpr ⟨Int.emod_nonneg _ (by simp),Int.emod_lt_of_pos _ (by simp)⟩
  · refine (within_signed positive).mpr ?_
    have low := Int.le_bmod (x := i) unit
    have high := Int.bmod_lt (x := i) unit
    simp only [if_true,Nat.pow_eq]
    have even : 2 ^ bits % 2 = 0 := by
      obtain ⟨k,rfl⟩ : ∃ k, bits = k + 1 := ⟨bits - 1,by omega⟩
      rw [pow_succ,Nat.mul_mod_left]
    omega

-- What is within the range stays as it is.
theorem wrap_of_within (positive : 0 < bits) (within : Within signed bits i) : wrap signed bits i = i := by
  unfold wrap
  cases signed
  · obtain ⟨low,high⟩ := within_unsigned.mp within
    exact Int.emod_eq_of_lt low high
  · obtain ⟨low,high⟩ := (within_signed positive).mp within
    simp only [if_true,Nat.pow_eq]
    exact Int.bmod_eq_of_le (by omega) (by omega)

end DType

-- The elements of a layout: floats are numbers of the format, integers are within the range.
def Layout.Holds : Layout → Scalar → Prop
  | .float f,.float x => f.Holds x
  | .integer signed bits,.int i => DType.Within signed bits i
  | .bool,.bool _ => True
  | .text,.text _ => True
  | .object,.object _ => True
  | _,_ => False

namespace Scalar

variable {t source : DType} {x y : Scalar} {signed : Bool} {bits : Nat} {i : Int}

theorem holds_wrap (integer : t.layout = .integer signed bits) (i : Int) :
    (Layout.integer signed bits).Holds (.int (DType.wrap signed bits i)) :=
  DType.wrap_within (DType.layout_bits integer)

theorem holds_bit (integer : t.layout = .integer signed bits) (b : Bool) :
    (Layout.integer signed bits).Holds (.int b.toNat) := by
  cases t <;> cases integer <;> cases b <;> exact ⟨by decide,by decide⟩

theorem holds_zero (t : DType) : t.layout.Holds (zero t) := by
  unfold zero
  cases layout : t.layout with
  | float f => exact Binary.holds_zero (DType.layout_units layout) false
  | integer signed bits => exact holds_bit layout false
  | bool => exact trivial
  | text => exact trivial
  | object => exact trivial

theorem ofInt_holds (made : ofInt signed bits i = .ok x) : (Layout.integer signed bits).Holds x := by
  unfold ofInt at made
  split at made
  · rename_i range
    cases made
    rw [Bool.and_eq_true,decide_eq_true_eq,decide_eq_true_eq] at range
    exact range
  · cases made

theorem ofDatum_holds {d : Datum} (made : ofDatum t d = .ok x) : t.layout.Holds x := by
  cases layout : t.layout <;> simp only [ofDatum,layout] at made
  case float f =>
    split at made
    · cases made
      exact .nan
    · cases made
    · obtain ⟨b,-,rfl⟩ := map_ok.mp made
      exact Binary.convert_holds (DType.layout_units layout) b
  case integer signed bits =>
    split at made
    · cases made
    · obtain ⟨i,-,made⟩ := bind_ok.mp made
      exact ofInt_holds made
  case text =>
    split at made
    · split at made <;> cases made
      exact trivial
    · cases made
      exact trivial
  all_goals
    cases made
    exact trivial

-- A conversion gives an element of the target, whatever it is given.
theorem cast_holds (made : cast source t x = .ok y) : t.layout.Holds y := by
  cases x with
  | float x =>
    cases layout : t.layout <;> simp only [cast,layout] at made
    case float f =>
      cases made
      exact Binary.convert_holds (DType.layout_units layout) x
    case integer signed bits =>
      cases made
      exact holds_wrap layout _
    case text => split at made <;> cases made <;> exact trivial
    all_goals
      cases made
      exact trivial
  | int i =>
    cases layout : t.layout <;> simp only [cast,layout] at made
    case float f =>
      cases made
      exact Binary.ofInt_holds (DType.layout_units layout) i
    case integer signed bits =>
      cases made
      exact holds_wrap layout i
    all_goals
      cases made
      exact trivial
  | bool b =>
    cases layout : t.layout <;> simp only [cast,layout] at made
    case float f =>
      cases made
      cases b
      · exact Binary.holds_zero (DType.layout_units layout) false
      · exact Binary.holds_one (DType.layout_units layout)
    case integer signed bits =>
      cases made
      exact holds_bit layout b
    all_goals
      cases made
      exact trivial
  | text s =>
    cases layout : t.layout <;> simp only [cast,layout] at made
    case float f =>
      obtain ⟨b,-,rfl⟩ := map_ok.mp made
      exact Binary.convert_holds (DType.layout_units layout) b
    case integer signed bits =>
      obtain ⟨i,-,made⟩ := bind_ok.mp made
      exact ofInt_holds made
    all_goals
      cases made
      exact trivial
  | object d => exact ofDatum_holds made

-- As the elements of well-formed tensors, with floats that are numbers of the format.
theorem holds_iff : t.layout.Holds x ↔ x.Fits t ∧ ∀ f b, t.layout = .float f → x = .float b → f.Holds b := by
  cases t <;> cases x <;> simp [DType.layout,Layout.Holds,Fits,DType.isFloat,DType.Within]

end Scalar

namespace Tensor

variable {t u : Tensor} {dtype : DType} {shape : Shape} {x : Scalar}

-- A well-formed tensor whose floats are numbers of its type's format.
structure Proper (t : Tensor) : Prop extends t.WellFormed where
  rounded : ∀ f b, t.dtype.layout = .float f → .float b ∈ t.data → f.Holds b

theorem proper_iff : t.Proper ↔ t.data.length = t.shape.size ∧ ∀ x ∈ t.data, t.dtype.layout.Holds x := by
  constructor
  · intro proper
    refine ⟨proper.size,fun x member => Scalar.holds_iff.mpr ⟨proper.fits x member,?_⟩⟩
    rintro f b layout rfl
    exact proper.rounded f b layout member
  · rintro ⟨size,holds⟩
    exact ⟨⟨size,fun x member => (Scalar.holds_iff.mp (holds x member)).1⟩,
      fun f b layout member => (Scalar.holds_iff.mp (holds _ member)).2 f b layout rfl⟩

theorem WellFormed.proper {signed : Bool} {bits : Nat} (formed : t.WellFormed)
    (integer : t.dtype.layout = .integer signed bits) : t.Proper :=
  ⟨formed,fun f b float => by rw [integer] at float; cases float⟩

theorem Proper.holds (proper : t.Proper) : ∀ x ∈ t.data, t.dtype.layout.Holds x := (proper_iff.mp proper).2

-- Beyond the data a tensor reads as zero.
theorem Proper.get (proper : t.Proper) (index : List Nat) : t.dtype.layout.Holds (t.get index) := by
  unfold Tensor.get
  rw [List.getD_eq_getElem?_getD]
  cases found : t.data[Shape.offset t.shape index]? with
  | none => exact Scalar.holds_zero t.dtype
  | some x => exact proper.holds x (List.mem_of_getElem? found)

theorem tabulate_proper {g : List Nat → Scalar} (each : ∀ index ∈ shape.indices, dtype.layout.Holds (g index)) :
    (tabulate dtype shape g).Proper :=
  proper_iff.mpr ⟨length_data_tabulate dtype shape g,List.forall_mem_map.mpr each⟩

theorem map_proper {g : Scalar → Scalar} (proper : t.Proper) (each : ∀ x ∈ t.data, dtype.layout.Holds (g x)) :
    (t.map dtype g).Proper :=
  proper_iff.mpr ⟨by rw [map,List.length_map,proper.size],List.forall_mem_map.mpr each⟩

theorem Proper.reshape (proper : t.Proper) (size : shape.size = t.shape.size) : (t.reshape shape).Proper :=
  proper_iff.mpr ⟨proper.size.trans size.symm,proper.holds⟩

theorem fill_proper (holds : dtype.layout.Holds x) : (fill dtype shape x).Proper :=
  proper_iff.mpr ⟨List.length_replicate,fun _ member => List.eq_of_mem_replicate member ▸ holds⟩

theorem cast_proper {target : DType} (size : t.data.length = t.shape.size) (made : t.cast target = .ok u) :
    u.Proper := by
  obtain ⟨xs,converted,equal⟩ := bind_ok.mp made
  cases equal
  have related := mapM_ok.mp converted
  refine proper_iff.mpr ⟨related.length_eq.symm.trans size,?_⟩
  intro y member
  obtain ⟨x,-,single⟩ := forall₂_right related y member
  exact Scalar.cast_holds single

theorem ofTensor_proper {target : Option DType} (proper : t.Proper) (made : ofTensor t target = .ok u) :
    u.Proper := by
  unfold ofTensor at made
  split at made
  · cases made
    exact proper
  · split at made
    · cases made
      exact proper
    · exact cast_proper proper.size made

end Tensor

end TensorGraph
