import Mathlib.Algebra.Order.Field.Power
import Mathlib.Algebra.Order.Field.Rat
import Mathlib.Tactic.GCongr
import Mathlib.Tactic.NormNum
import Mathlib.Tactic.Positivity
import Mathlib.Tactic.Ring
import TensorGraph.Binary.Elementary

namespace TensorGraph.Binary

-- The data of a format: what is no number, the infinities, and numbers in lowest terms with as many digits as
-- the format has.
inductive Format.Holds (f : Format) : Binary → Prop where
  | nan : f.Holds nan
  | infinite (s : Bool) : f.Holds (infinite s)
  | number (s : Bool) (digits : m < 2 ^ f.precision) (low : f.minExponent ≤ q) (high : q ≤ f.maxExponent) :
      f.Holds (ofScaled s m q)

-- A format without digits, or without a place for units, would not hold zero and one.
structure Format.Units (f : Format) : Prop where
  precise : 0 < f.precision
  low : f.minExponent ≤ 0
  high : 0 ≤ f.maxExponent

variable {f : Format} {x y : Binary} {s : Bool} {m : Nat} {q : Int}

theorem halveEven_shift (steps m : Nat) (q : Int) :
    ∃ j : Nat, (halveEven steps m q).2 = q + j ∧ m = (halveEven steps m q).1 * 2 ^ j := by
  induction steps generalizing m q with
  | zero => exact ⟨0,by simp [halveEven],by simp [halveEven]⟩
  | succ steps ih =>
    unfold halveEven
    split
    · rename_i even
      obtain ⟨j,exponent,significand⟩ := ih (m / 2) (q + 1)
      refine ⟨j + 1,?_,?_⟩
      · rw [exponent]
        push_cast
        omega
      · rw [pow_succ,←mul_assoc,←significand]
        omega
    · exact ⟨0,by simp,by simp⟩

theorem ofScaled_double (s : Bool) (m : Nat) (q : Int) : ofScaled s (2 * m) q = ofScaled s m (q + 1) := by
  unfold ofScaled
  by_cases zero : m = 0
  · simp [zero]
  · have even : 2 * m % 2 = 0 := Nat.mul_mod_right 2 m
    have half : 2 * m / 2 = m := Nat.mul_div_cancel_left m (by omega)
    rw [if_neg (by omega),if_neg zero,Nat.log2_two_mul zero,halveEven,if_pos even,half]

-- Numbers are the same data wherever the point of their digits stands.
theorem ofScaled_shift (s : Bool) (m j : Nat) (q : Int) : ofScaled s (m * 2 ^ j) q = ofScaled s m (q + j) := by
  induction j generalizing q with
  | zero => simp
  | succ j ih =>
    rw [pow_succ',Nat.mul_left_comm,ofScaled_double,ih]
    congr 1
    push_cast
    omega

theorem neg_ofScaled : (ofScaled s m q).neg = ofScaled (!s) m q := by
  unfold ofScaled
  split <;> rfl

theorem abs_ofScaled : (ofScaled s m q).abs = ofScaled false m q := by
  unfold ofScaled
  split <;> rfl

-- Digits beyond the last place of the format may stand for a number of it.
theorem holds_ofScaled (units : f.Units) (low : f.minExponent ≤ q)
    (small : m * 2 ^ (q - f.maxExponent).toNat < 2 ^ f.precision) : f.Holds (ofScaled s m q) := by
  by_cases high : q ≤ f.maxExponent
  · have none : (q - f.maxExponent).toNat = 0 := by omega
    rw [none,pow_zero,mul_one] at small
    exact .number s small low high
  · have place : q = f.maxExponent + ((q - f.maxExponent).toNat : Int) := by omega
    rw [place,←ofScaled_shift]
    exact .number s small (units.low.trans units.high) le_rfl

-- What a number of a format in lowest terms is like.
theorem Format.Holds.small (units : f.Units) (holds : f.Holds (.finite s m q)) :
    f.minExponent ≤ q ∧ m * 2 ^ (q - f.maxExponent).toNat < 2 ^ f.precision := by
  generalize form : Binary.finite s m q = x at holds
  cases holds with
  | nan => cases form
  | infinite => cases form
  | @number k r _ digits low high =>
    unfold ofScaled at form
    split at form
    · cases form
      rw [Nat.zero_mul]
      exact ⟨units.low,Nat.two_pow_pos _⟩
    · obtain ⟨j,exponent,significand⟩ := halveEven_shift k.log2 k r
      cases form
      rw [exponent]
      refine ⟨by omega,lt_of_le_of_lt ?_ digits⟩
      calc (halveEven k.log2 k r).1 * 2 ^ (r + j - f.maxExponent).toNat
        _ ≤ (halveEven k.log2 k r).1 * 2 ^ j := Nat.mul_le_mul_left _ (Nat.pow_le_pow_right (by omega) (by omega))
        _ = k := significand.symm

theorem holds_zero (units : f.Units) (s : Bool) : f.Holds (.finite s 0 0) :=
  .number (m := 0) (q := 0) s (Nat.two_pow_pos _) units.low units.high

theorem holds_one (units : f.Units) : f.Holds one :=
  .number (m := 1) (q := 0) false (Nat.one_lt_two_pow (Nat.ne_of_gt units.precise)) units.low units.high

theorem Format.Holds.neg (holds : f.Holds x) : f.Holds x.neg := by
  cases holds with
  | nan => exact .nan
  | infinite s => exact .infinite !s
  | number s digits low high => exact neg_ofScaled ▸ .number (!s) digits low high

theorem Format.Holds.abs (holds : f.Holds x) : f.Holds x.abs := by
  cases holds with
  | nan => exact .nan
  | infinite s => exact .infinite false
  | number s digits low high => exact abs_ofScaled ▸ .number false digits low high

section Rounding

variable {num den : Nat}

-- Comparison with a power of two, which is put where it is a whole number.
theorem lt_scaled_iff (a : Int) : num * 2 ^ (-a).toNat < den * 2 ^ a.toNat ↔ (num : ℚ) < den * 2 ^ a := by
  rcases le_total 0 a with positive | negative
  · obtain ⟨k,rfl⟩ := Int.eq_ofNat_of_zero_le positive
    simp only [Int.toNat_neg_natCast,Int.toNat_natCast,pow_zero,mul_one,zpow_natCast]
    exact_mod_cast Iff.rfl
  · obtain ⟨k,rfl⟩ : ∃ k : Nat, a = -(k : Int) := ⟨(-a).toNat,by omega⟩
    have unit : (0 : ℚ) < 2 ^ k := by positivity
    rw [Int.neg_neg]
    simp only [Int.toNat_neg_natCast,Int.toNat_natCast,pow_zero,mul_one,zpow_neg,zpow_natCast]
    rw [←div_eq_mul_inv,lt_div_iff₀ unit]
    exact_mod_cast Iff.rfl

-- The power of two above a quotient.
theorem lt_log2Quotient (positive : 0 < den) : (num : ℚ) < den * 2 ^ (log2Quotient num den + 1) := by
  unfold log2Quotient
  dsimp only
  split
  · rename_i below
    rw [sub_add_cancel]
    exact (lt_scaled_iff _).mp below
  · -- the logarithms of the parts tell as much
    have above : num < 2 ^ (num.log2 + 1) := Nat.lt_log2_self
    have under : 2 ^ den.log2 ≤ den := Nat.log2_self_le (Nat.ne_of_gt positive)
    calc (num : ℚ)
      _ < 2 ^ (num.log2 + 1) := by exact_mod_cast above
      _ = 2 ^ den.log2 * 2 ^ ((num.log2 : Int) - den.log2 + 1) := by
        rw [←zpow_natCast,←zpow_natCast,←zpow_add₀ two_ne_zero]
        congr 1
        push_cast
        ring
      _ ≤ den * 2 ^ ((num.log2 : Int) - den.log2 + 1) := by
        gcongr
        exact_mod_cast under

theorem roundQuotient_le {k : Nat} (below : num < den * k) : roundQuotient num den ≤ k := by
  have quotient : num / den < k := Nat.div_lt_of_lt_mul below
  unfold roundQuotient
  dsimp only
  split
  · omega
  · split <;> omega

-- What is rounded to a format is a number of it, or an infinity.
theorem round_holds (units : f.Units) (s : Bool) (num : Nat) (positive : 0 < den) (scale : Int) :
    f.Holds (round f s num den scale) := by
  unfold round
  split
  · exact holds_zero units s
  simp only [Nat.pow_eq]
  generalize place : max f.minExponent (log2Quotient num den + scale - f.precision + 1) = q
  have fits : (num : ℚ) < (den * 2 ^ f.precision : Nat) * 2 ^ (q - scale) := by
    calc (num : ℚ)
      _ < den * 2 ^ (log2Quotient num den + 1) := lt_log2Quotient positive
      _ ≤ den * 2 ^ ((f.precision : Int) + (q - scale)) := by
        have place : log2Quotient num den + 1 ≤ f.precision + (q - scale) := by omega
        exact mul_le_mul_of_nonneg_left (zpow_le_zpow_right₀ one_le_two place) den.cast_nonneg
      _ = (den * 2 ^ f.precision : Nat) * 2 ^ (q - scale) := by
        rw [zpow_add₀ two_ne_zero]
        push_cast
        rw [zpow_natCast,mul_assoc]
  have digits : roundQuotient (num * 2 ^ (scale - q).toNat) (den * 2 ^ (q - scale).toNat) ≤ 2 ^ f.precision := by
    refine roundQuotient_le ?_
    have whole := (lt_scaled_iff _).mpr fits
    rwa [neg_sub,mul_right_comm] at whole
  generalize roundQuotient (num * 2 ^ (scale - q).toNat) (den * 2 ^ (q - scale).toNat) = m at digits ⊢
  split
  · exact .infinite s
  · rename_i range
    simp only [Bool.or_eq_true,Bool.and_eq_true,decide_eq_true_eq,beq_iff_eq,not_or,not_and] at range
    obtain ⟨high,carried⟩ := range
    have low : f.minExponent ≤ q := by omega
    rcases Nat.lt_or_eq_of_le digits with small | rfl
    · exact .number s small low (by omega)
    · -- a carry out of the digits leaves one digit less
      have half : 2 ^ f.precision = 2 ^ (f.precision - 1) * 2 ^ 1 := by
        rw [←pow_add,Nat.sub_add_cancel units.precise]
      rw [half,ofScaled_shift]
      have next : q ≠ f.maxExponent := fun last => carried last rfl
      exact .number s (Nat.pow_lt_pow_right (by decide) (Nat.sub_lt units.precise one_pos)) (by omega) (by omega)

end Rounding

theorem ofInt_holds (units : f.Units) (i : Int) : f.Holds (ofInt f i) := round_holds units _ _ one_pos _

theorem convert_holds (units : f.Units) (x : Binary) : f.Holds (x.convert f) := by
  cases x with
  | nan => exact .nan
  | infinite s => exact .infinite s
  | finite s m q => exact round_holds units s m one_pos q

theorem roundScaled_holds (units : f.Units) (i q : Int) : f.Holds (roundScaled f i q) := by
  unfold roundScaled
  split
  · exact holds_zero units false
  · exact round_holds units _ _ one_pos q

-- Operations that round need not know that their operands are of the format.
theorem add_holds (units : f.Units) (x y : Binary) : f.Holds (add f x y) := by
  unfold add
  repeat' split
  all_goals first
    | exact .nan
    | exact .infinite _
    | exact holds_zero units _
    | exact roundScaled_holds units _ _

theorem mul_holds (units : f.Units) (x y : Binary) : f.Holds (mul f x y) := by
  unfold mul
  repeat' split
  all_goals first
    | exact .nan
    | exact .infinite _
    | exact round_holds units _ _ one_pos _

theorem div_holds (units : f.Units) (x y : Binary) : f.Holds (div f x y) := by
  unfold div
  repeat' split
  all_goals first
    | exact .nan
    | exact .infinite _
    | exact holds_zero units _
    | exact round_holds units _ _ (by omega) _

theorem sqrt_holds (units : f.Units) (x : Binary) : f.Holds (sqrt f x) := by
  unfold sqrt
  repeat' split
  all_goals first
    | exact .nan
    | exact .infinite _
    | exact holds_zero units _
    | exact round_holds units _ _ one_pos _

theorem elementary_holds (units : f.Units) (g : Float → Float) (x : Binary) : f.Holds (elementary f g x) :=
  convert_holds units _

theorem maximum_holds (left : f.Holds x) (right : f.Holds y) : f.Holds (maximum f x y) := by
  unfold maximum maxWith selectEqual
  repeat' split
  all_goals assumption

theorem minimum_holds (left : f.Holds x) (right : f.Holds y) : f.Holds (minimum f x y) := by
  unfold minimum minWith selectEqual
  repeat' split
  all_goals assumption

-- A whole part has no more digits than the number, and they end at the units.
theorem floor_holds (units : f.Units) (holds : f.Holds x) : f.Holds x.floor := by
  unfold floor
  split
  · rename_i s m q
    split
    · exact holds
    · have digits := Nat.lt_of_le_of_lt (Nat.le_mul_of_pos_right m (Nat.two_pow_pos _)) (holds.small units).2
      have unit : 0 < Nat.pow 2 (-q).toNat := Nat.two_pow_pos _
      generalize Nat.pow 2 (-q).toNat = d at unit ⊢
      have place : (0 - f.maxExponent).toNat = 0 := Int.toNat_of_nonpos (by have := units.high; omega)
      refine holds_ofScaled units units.low ?_
      rw [place,pow_zero,mul_one]
      refine lt_of_le_of_lt ?_ digits
      split
      · refine Nat.le_of_lt_succ (Nat.div_lt_of_lt_mul ?_)
        have grown : m ≤ d * m := Nat.le_mul_of_pos_left m unit
        rw [Nat.mul_succ]
        omega
      · exact Nat.div_le_self _ _
  · exact holds

theorem ceil_holds (units : f.Units) (holds : f.Holds x) : f.Holds x.ceil := (floor_holds units holds.neg).neg

-- A remainder is less than either operand, and its digits end where those of one of them do.
theorem truncatedRem_holds (units : f.Units) (left : f.Holds x) (right : f.Holds y) : f.Holds (truncatedRem x y) := by
  unfold truncatedRem
  repeat' split
  all_goals first
    | exact .nan
    | exact left
    | skip
  rename_i s m q t n r positive
  obtain ⟨lowLeft,smallLeft⟩ := left.small units
  obtain ⟨lowRight,smallRight⟩ := right.small units
  refine holds_ofScaled units (le_min lowLeft lowRight) ?_
  rcases le_total q r with before | after
  · simp only [min_eq_left before,sub_self,Int.toNat_zero,Nat.pow_eq,pow_zero,mul_one]
    exact lt_of_le_of_lt (Nat.mul_le_mul_right _ (Nat.mod_le _ _)) smallLeft
  · simp only [min_eq_right after,sub_self,Int.toNat_zero,Nat.pow_eq,pow_zero,mul_one]
    exact lt_of_le_of_lt (Nat.mul_le_mul_right _ (Nat.mod_lt _ (Nat.pos_of_ne_zero positive)).le) smallRight

theorem flooredRem_holds (units : f.Units) (left : f.Holds x) (right : f.Holds y) : f.Holds (flooredRem f x y) := by
  have rem := truncatedRem_holds units left right
  unfold flooredRem
  repeat' split
  all_goals first
    | exact .nan
    | exact holds_zero units _
    | exact add_holds units _ _
    | exact rem

end TensorGraph.Binary
