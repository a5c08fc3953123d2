import TensorGraph.Proofs.Op.Wrapped

namespace TensorGraph
open Outcome

variable {t a b : Tensor} {shape : Shape} {index : List Nat} {signed : Bool} {bits : Nat} {i j : Int}

namespace Tensor

theorem get_mem (size : t.data.length = t.shape.size) (inside : index ∈ t.shape.indices) : t.get index ∈ t.data := by
  have below := Shape.offset_lt inside
  rw [← size] at below
  rw [get,List.getD_eq_getElem?_getD,List.getElem?_eq_getElem below]
  exact List.getElem_mem below

-- The integer that stands at an index of a shape the tensor stretches to is one of its elements.
theorem WellFormed.stretched (formed : t.WellFormed) (integer : t.dtype.layout = .integer signed bits)
    (spans : t.shape.Spans shape) (inside : index ∈ shape.indices) :
    ∃ i, t.getStretched index = .int i ∧ .int i ∈ t.data ∧ DType.Within signed bits i := by
  have member := get_mem formed.size (spans.source_mem inside)
  have holds := (formed.proper integer).holds _ member
  rw [integer] at holds
  obtain ⟨i,equal,within⟩ := Layout.holds_integer holds
  exact ⟨i,equal,equal ▸ member,within⟩

end Tensor

namespace BinaryKind

variable {k : BinaryKind} {refused : Prop} {value : Int → Int → Int → Prop}

theorem any_isZeroInt {xs : List Scalar} : xs.any isZeroInt = true ↔ .int 0 ∈ xs := by
  rw [List.any_eq_true]
  constructor
  · rintro ⟨x,member,zero⟩
    cases x <;> simp only [isZeroInt,Bool.false_eq_true,beq_iff_eq] at zero
    exact zero ▸ member
  · exact fun member => ⟨_,member,rfl⟩

theorem any_isNegativeInt {xs : List Scalar} : xs.any isNegativeInt = true ↔ ∃ e < 0, .int e ∈ xs := by
  rw [List.any_eq_true]
  constructor
  · rintro ⟨x,member,negative⟩
    cases x <;> simp only [isNegativeInt,Bool.false_eq_true,decide_eq_true_eq] at negative
    exact ⟨_,negative,member⟩
  · rintro ⟨e,negative,member⟩
    exact ⟨_,member,decide_eq_true negative⟩

-- On integers of a type the operation fails, and fails as evaluations do, exactly if it is refused. Otherwise each
-- element of the result is of the value that two elements which meet have.
structure Computes (k : BinaryKind) (a b : Tensor) (shape : Shape) (refused : Prop) (value : Int → Int → Int → Prop) :
    Prop where
  refuses : refused → ∃ f, k.eval a b = .error f ∧ f.kind = .evaluation
  returns : ¬ refused → ∃ u, k.eval a b = .ok u ∧ u.dtype = a.dtype ∧ u.shape = shape ∧ ∀ index ∈ shape.indices,
    ∃ i j r, a.getStretched index = .int i ∧ b.getStretched index = .int j ∧ u.get index = .int r ∧ value i j r

theorem eval_eq (same : b.dtype = a.dtype) (supported : k.supports a.dtype = true)
    (met : Shape.broadcast? a.shape b.shape = some shape) : k.eval a b = k.checkOperand a.dtype b >>= fun _ =>
      .ok (.combine (k.resultDType a.dtype) (k.onScalars a.dtype) a b shape) := by
  unfold eval
  dsimp only
  rw [if_pos same.symm,if_pos supported,met]
  rfl

-- What two elements that meet come to is enough to know of an operation, once it is known what is refused.
theorem computes_of {g : Int → Int → Int} {cause : Cause} (left : a.WellFormed) (right : b.WellFormed)
    (same : b.dtype = a.dtype) (integer : a.dtype.layout = .integer signed bits)
    (met : Shape.broadcast? a.shape b.shape = some shape) (meant : k.onWhole? = some g) (kind : cause.kind = .evaluation)
    (checked : (refused → k.checkOperand a.dtype b = fail cause) ∧ (¬ refused → k.checkOperand a.dtype b = .ok ()))
    (each : ¬ refused → ∀ i j, .int j ∈ b.data → DType.Within signed bits j → value i j (DType.wrap signed bits (g i j))) :
    Computes k a b shape refused value := by
  have numeric : k.supports a.dtype = true := by
    have isNumeric := DType.isNumeric_of_layout integer
    cases k <;> cases meant <;> exact isNumeric
  constructor
  case refuses =>
    intro refusing
    rw [eval_eq same numeric met,checked.1 refusing]
    exact ⟨_,rfl,kind⟩
  case returns =>
    intro accepted
    obtain ⟨spansLeft,spansRight⟩ := Shape.spans_of_broadcast? met
    rw [eval_eq same numeric met,checked.2 accepted]
    refine ⟨_,rfl,resultDType_whole meant a.dtype,rfl,fun index inside => ?_⟩
    obtain ⟨i,first,-,-⟩ := left.stretched integer spansLeft inside
    obtain ⟨j,second,member,within⟩ := right.stretched (same ▸ integer) spansRight inside
    refine ⟨i,j,_,first,second,?_,each accepted i j member within⟩
    have stored := onScalars_wraps integer ((left.proper integer).get _) (same ▸ (right.proper (same ▸ integer)).get _)
      meant (x := a.getStretched index) (y := b.getStretched index)
    rw [first,second] at stored
    refine (Tensor.get_tabulate _ _ inside).trans ?_
    rw [first,second]
    exact stored

theorem checkOperand_zero (divides : k = .div ∨ k = .rem) (integer : a.dtype.layout = .integer signed bits) :
    (.int 0 ∈ b.data → k.checkOperand a.dtype b = fail (.divisionByZero k.opType)) ∧
      (.int 0 ∉ b.data → k.checkOperand a.dtype b = .ok ()) := by
  have isInteger := DType.isInteger_of_layout integer
  rw [← any_isZeroInt]
  rcases divides with rfl | rfl
  all_goals
    unfold checkOperand
    dsimp only
    rw [isInteger,Bool.true_and]
    exact ⟨fun zero => if_pos zero,fun none => if_neg none⟩

theorem checkOperand_negative (integer : a.dtype.layout = .integer signed bits) :
    ((signed = true ∧ ∃ e < 0, .int e ∈ b.data) → pow.checkOperand a.dtype b = fail .negativeExponent) ∧
      (¬ (signed = true ∧ ∃ e < 0, .int e ∈ b.data) → pow.checkOperand a.dtype b = .ok ()) := by
  have isInteger := DType.isInteger_of_layout integer
  have isSigned : a.dtype.isSigned = signed := by rw [DType.isSigned,integer]
  rw [← any_isNegativeInt,← Bool.and_eq_true]
  unfold checkOperand
  dsimp only
  rw [isInteger,isSigned,Bool.true_and]
  exact ⟨fun negative => if_pos negative,fun none => if_neg none⟩

-- What is left over by the division with a floored quotient.
structure Remains (i j r : Int) : Prop where
  floored : r = i - j * i.fdiv j
  side : r = 0 ∨ r.sign = j.sign
  below : r.natAbs < j.natAbs

theorem remains_fmod (i : Int) (other : j ≠ 0) : Remains i j (i.fmod j) := by
  have between := DType.fmod_between i other
  refine ⟨Int.fmod_def i j,?_,by omega⟩
  rcases between with ⟨positive,low,-⟩ | ⟨negative,-,high⟩
  · rcases Int.le_iff_lt_or_eq.mp low with above | zero
    · exact .inr (by rw [Int.sign_eq_one_of_pos above,Int.sign_eq_one_of_pos positive])
    · exact .inl zero.symm
  · rcases Int.le_iff_lt_or_eq.mp high with below | zero
    · exact .inr (by rw [Int.sign_eq_neg_one_of_neg below,Int.sign_eq_neg_one_of_neg negative])
    · exact .inl zero

-- Division cuts the exact quotient off toward zero and wraps it, the remainder is the floored one, and a power is the exact
-- one wrapped. Nothing but a zero among the divisors, or a negative exponent of a signed type, is refused.
theorem eval_divides (left : a.WellFormed) (right : b.WellFormed) (same : b.dtype = a.dtype)
    (integer : a.dtype.layout = .integer signed bits) (met : Shape.broadcast? a.shape b.shape = some shape) :
    Computes .div a b shape (.int 0 ∈ b.data) (fun i j r => r = DType.wrap signed bits (i.tdiv j)) ∧
    Computes .rem a b shape (.int 0 ∈ b.data) Remains ∧
    Computes .pow a b shape (signed = true ∧ ∃ e < 0, .int e ∈ b.data)
      (fun i j r => 0 ≤ j ∧ r = DType.wrap signed bits (i ^ j.toNat)) := by
  have positive := DType.layout_bits integer
  refine ⟨?_,?_,?_⟩
  · exact computes_of left right same integer met rfl rfl (checkOperand_zero (.inl rfl) integer) fun _ i j _ _ => rfl
  · refine computes_of left right same integer met rfl rfl (checkOperand_zero (.inr rfl) integer) ?_
    intro none i j member within
    have other : j ≠ 0 := fun zero => none (zero ▸ member)
    rw [DType.wrap_of_within positive (within.fmod positive i other)]
    exact remains_fmod i other
  · refine computes_of left right same integer met rfl rfl (checkOperand_negative integer) ?_
    intro accepted i j member within
    refine ⟨?_,rfl⟩
    cases signed with
    | true => exact not_lt.mp fun negative => accepted ⟨rfl,j,negative,member⟩
    | false => exact (DType.within_unsigned.mp within).1

def dividends : Tensor := ⟨.i8,[2,1],[.int (-128),.int 7]⟩

def divisors : Tensor := ⟨.i8,[2],[.int (-1),.int (-2)]⟩

def exponents : Tensor := ⟨.i8,[],[.int 3]⟩

-- The least byte has no opposite, and an odd number is cut off on the other side of zero than it is floored.
theorem eval_divides_least : dividends.WellFormed ∧ divisors.WellFormed ∧ exponents.WellFormed ∧
    Shape.broadcast? dividends.shape divisors.shape = some [2,2] ∧
    Computes .div dividends divisors [2,2] (.int 0 ∈ divisors.data) (fun i j r => r = DType.wrap true 8 (i.tdiv j)) ∧
    div.eval dividends divisors = .ok ⟨.i8,[2,2],[.int (-128),.int 64,.int (-7),.int (-3)]⟩ ∧
    Computes .rem dividends divisors [2,2] (.int 0 ∈ divisors.data) Remains ∧
    rem.eval dividends divisors = .ok ⟨.i8,[2,2],[.int 0,.int 0,.int 0,.int (-1)]⟩ ∧
    Computes .pow dividends exponents [2,1] (true = true ∧ ∃ e < 0, .int e ∈ exponents.data)
      (fun i j r => 0 ≤ j ∧ r = DType.wrap true 8 (i ^ j.toNat)) ∧
    pow.eval dividends exponents = .ok ⟨.i8,[2,1],[.int 0,.int 87]⟩ := by
  have first : dividends.WellFormed := ⟨rfl,by
    simp [dividends,Scalar.Fits,DType.layout,DType.lowest,DType.highest]⟩
  have second : divisors.WellFormed := ⟨rfl,by
    simp [divisors,Scalar.Fits,DType.layout,DType.lowest,DType.highest]⟩
  have third : exponents.WellFormed := ⟨rfl,by
    simp [exponents,Scalar.Fits,DType.layout,DType.lowest,DType.highest]⟩
  have divided := eval_divides first second rfl rfl (rfl : Shape.broadcast? dividends.shape divisors.shape = some [2,2])
  have raised := eval_divides first third rfl rfl (rfl : Shape.broadcast? dividends.shape exponents.shape = some [2,1])
  exact ⟨first,second,third,rfl,divided.1,rfl,divided.2.1,rfl,raised.2.2,rfl⟩

end BinaryKind

end TensorGraph
