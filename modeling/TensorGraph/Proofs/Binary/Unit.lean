import TensorGraph.Proofs.Binary.Format

namespace TensorGraph.Binary

variable {f : Format} {x y : Binary} {s : Bool} {m n num den : Nat} {q r scale : Int}

theorem le_of_order {a b : Int} (ordered : order? x y = some (compare a b)) : le x y = true ↔ a ≤ b := by
  rw [le,lt,eq,ordered,le_iff_lt_or_eq]
  simp [compare_lt_iff_lt]

-- A number is compared with one in its last places, where both are whole.
theorem one_le_finite : le one (finite s m q) = true ↔ s = false ∧ (1 : ℚ) ≤ m * 2 ^ q := by
  have unit : (0 : ℚ) < 2 ^ q := by positivity
  have whole : m * 2 ^ (- -q).toNat < 1 * 2 ^ (-q).toNat ↔ (m : ℚ) < (1 : Nat) * 2 ^ (-q) := lt_scaled_iff (-q)
  rw [Int.neg_neg,Nat.one_mul,Nat.cast_one,one_mul,zpow_neg] at whole
  have places : (0 - min 0 q).toNat = (-q).toNat ∧ (q - min 0 q).toNat = q.toNat := by omega
  rw [le_of_order rfl,← inv_le_iff_one_le_mul₀ unit,← not_lt,← not_lt,← whole]
  unfold scaledInt
  rw [places.1,places.2,Nat.one_mul]
  have positive := Nat.two_pow_pos (-q).toNat
  cases s with
  | false =>
    simp only [if_false,Bool.false_eq_true,Nat.pow_eq,Int.ofNat_eq_natCast,true_and,not_lt]
    exact_mod_cast Iff.rfl
  | true =>
    simp only [if_true,if_false,Bool.false_eq_true,Nat.pow_eq,Bool.true_eq_false,false_and,iff_false,Int.ofNat_eq_natCast,not_not]
    omega

-- Halving keeps the number.
theorem halveEven_value (steps m : Nat) (q : Int) :
    (m : ℚ) * 2 ^ q = (halveEven steps m q).1 * 2 ^ (halveEven steps m q).2 := by
  obtain ⟨j,exponent,significand⟩ := halveEven_shift steps m q
  calc (m : ℚ) * 2 ^ q
    _ = (halveEven steps m q).1 * 2 ^ j * 2 ^ q := by
      conv_lhs => rw [significand]
      push_cast
      rfl
    _ = (halveEven steps m q).1 * 2 ^ (halveEven steps m q).2 := by
      rw [exponent,zpow_add₀ two_ne_zero,zpow_natCast,mul_assoc,mul_comm (2 ^ j)]

theorem one_le_ofScaled (above : (1 : ℚ) ≤ m * 2 ^ q) : le one (ofScaled false m q) = true := by
  unfold ofScaled
  split
  · rename_i none
    rw [none,Nat.cast_zero,zero_mul] at above
    exact absurd above (by norm_num)
  · exact one_le_finite.mpr ⟨rfl,above.trans_eq (halveEven_value ..)⟩

-- The power of two that a number is not below.
theorem log2Quotient_one (some : num ≠ 0) : log2Quotient num 1 = num.log2 := by
  have one : ((1 : Nat).log2 : Int) = 0 := rfl
  unfold log2Quotient
  dsimp only
  rw [one,Int.sub_zero,Int.toNat_natCast,Int.toNat_neg_natCast,Nat.pow_eq,Nat.pow_eq,Nat.pow_zero,Nat.mul_one,Nat.one_mul,
    if_neg (not_lt.mpr (Nat.log2_self_le some))]

theorem le_roundQuotient {k : Nat} (positive : 0 < den) (below : den * k ≤ num) : k ≤ roundQuotient num den := by
  have quotient : k ≤ num / den := (Nat.le_div_iff_mul_le positive).mpr (by rwa [Nat.mul_comm])
  unfold roundQuotient
  dsimp only
  split
  · exact quotient
  · split <;> omega

-- A number that is not below one is not rounded below it.
theorem one_le_round (units : f.Units) (above : (1 : ℚ) ≤ num * 2 ^ scale) : le one (round f false num 1 scale) = true := by
  unfold round
  split
  · rename_i none
    rw [none,Nat.cast_zero,zero_mul] at above
    exact absurd above (by norm_num)
  rename_i some
  simp only [Nat.pow_eq]
  generalize place : max f.minExponent (log2Quotient num 1 + scale - f.precision + 1) = q
  rw [log2Quotient_one some] at place
  have least {k : Nat} (below : (k : ℚ) * 2 ^ q ≤ num * 2 ^ scale) :
      k ≤ roundQuotient (num * 2 ^ (scale - q).toNat) (1 * 2 ^ (q - scale).toNat) := by
    refine le_roundQuotient (by positivity) (not_lt.mp fun less => ?_)
    rw [Nat.one_mul,Nat.mul_comm _ k,← neg_sub q] at less
    have less := (lt_scaled_iff (q - scale)).mp less
    refine absurd below (not_le.mpr ?_)
    calc (num : ℚ) * 2 ^ scale
      _ < k * 2 ^ (q - scale) * 2 ^ scale := by gcongr
      _ = k * 2 ^ q := by rw [mul_assoc,← zpow_add₀ two_ne_zero,sub_add_cancel]
  generalize roundQuotient (num * 2 ^ (scale - q).toNat) (1 * 2 ^ (q - scale).toNat) = m at least ⊢
  split
  · rfl
  · refine one_le_ofScaled ?_
    rcases le_or_gt q 0 with small | large
    · have units : ((2 ^ (-q).toNat : Nat) : ℚ) * 2 ^ q = 1 := by
        rw [Nat.cast_pow,← zpow_natCast,Int.toNat_of_nonneg (by omega),Nat.cast_ofNat,← zpow_add₀ two_ne_zero,neg_add_cancel,
          zpow_zero]
      calc (1 : ℚ)
        _ = (2 ^ (-q).toNat : Nat) * 2 ^ q := units.symm
        _ ≤ m * 2 ^ q := by
          gcongr
          exact least (units.trans_le above)
    · -- the last place is no finer than a unit, so it is the format's precision that decides
      have last : q ≤ num.log2 + scale := by
        have := units.precise
        have := units.low
        omega
      have under : ((2 ^ num.log2 : Nat) : ℚ) ≤ num := Nat.cast_le.mpr (Nat.log2_self_le some)
      have first : 1 ≤ m := by
        refine least ?_
        calc ((1 : Nat) : ℚ) * 2 ^ q
          _ ≤ 2 ^ ((num.log2 : Int) + scale) := by
            rw [Nat.cast_one,one_mul]
            exact zpow_le_zpow_right₀ one_le_two last
          _ = (2 ^ num.log2 : Nat) * 2 ^ scale := by
            rw [zpow_add₀ two_ne_zero,zpow_natCast,Nat.cast_pow,Nat.cast_ofNat]
          _ ≤ num * 2 ^ scale := by gcongr
      exact one_le_mul_of_one_le_of_one_le (Nat.one_le_cast.mpr first) (one_le_zpow₀ one_le_two large.le)

theorem scaledInt_value {base : Int} (within : base ≤ q) : (scaledInt false m q base : ℚ) * 2 ^ base = m * 2 ^ q := by
  unfold scaledInt
  rw [if_neg Bool.false_ne_true,Nat.pow_eq,Int.ofNat_eq_natCast,Int.cast_natCast]
  push_cast
  rw [← zpow_natCast,Int.toNat_of_nonneg (by omega),mul_assoc,← zpow_add₀ two_ne_zero,sub_add_cancel]

-- Nor is a sum that is not below one.
theorem one_le_add (units : f.Units) (above : (1 : ℚ) ≤ m * 2 ^ q + n * 2 ^ r) :
    le one (add f (.finite false m q) (.finite false n r)) = true := by
  have whole : ((scaledInt false m q (min q r) + scaledInt false n r (min q r) : Int) : ℚ) * 2 ^ min q r =
      m * 2 ^ q + n * 2 ^ r := by
    rw [Int.cast_add,add_mul,scaledInt_value (min_le_left q r),scaledInt_value (min_le_right q r)]
  unfold add
  dsimp only
  split
  · rename_i none
    simp only [Bool.and_eq_true,decide_eq_true_eq] at none
    rw [none.1,none.2,Nat.cast_zero,zero_mul,zero_mul] at above
    exact absurd above (by norm_num)
  generalize scaledInt false m q (min q r) + scaledInt false n r (min q r) = i at whole ⊢
  have positive : 0 < i := by
    by_contra none
    refine absurd (whole.symm ▸ above) (not_le.mpr ?_)
    have unit : (0 : ℚ) < 2 ^ min q r := by positivity
    exact (mul_nonpos_of_nonpos_of_nonneg (Int.cast_nonpos.mpr (not_lt.mp none)) unit.le).trans_lt one_pos
  obtain ⟨k,rfl⟩ := Int.eq_ofNat_of_zero_le positive.le
  unfold roundScaled
  rw [if_neg positive.ne',decide_eq_false (by omega)]
  exact one_le_round units (above.trans_eq (by rw [← whole,Int.natAbs_natCast,Int.cast_natCast]))

theorem one_le_grow (units : f.Units) (above : le one x = true) : le one (add f x (.finite false n r)) = true := by
  cases x with
  | nan => cases above
  | infinite s =>
    cases s with
    | false => rfl
    | true => cases above
  | finite s m q =>
    obtain ⟨rfl,least⟩ := one_le_finite.mp above
    exact one_le_add units (le_add_of_le_of_nonneg least (by positivity))

-- Counting begins at zero, and stays there or is not below one.
theorem one_le_count (units : f.Units) (counted : x = zero ∨ le one x = true) : le one (add f x one) = true := by
  rcases counted with rfl | above
  · exact one_le_add units (by norm_num)
  · exact one_le_grow units above

end TensorGraph.Binary
