import Mathlib.Algebra.Order.Floor.Semifield
import Mathlib.Data.Nat.Cast.Field
import Mathlib.Data.Rat.Floor
import TensorGraph.Proofs.Binary.Unit

namespace TensorGraph.Binary

variable {f : Format} {x y : Binary} {s : Bool} {m n num den : Nat} {q scale : Int} {v w : ℚ} {i j : Int}

-- A format that counts by ones up to where its digits end, and has as many places below the point.
structure Format.Wide (f : Format) : Prop where
  precise : 0 < f.precision
  low : f.minExponent ≤ -f.precision
  high : f.precision ≤ f.maxExponent

theorem Format.double_wide : double.Wide := ⟨by decide,by decide,by decide⟩

-- A magnitude and its sign.
def turned (s : Bool) (v : ℚ) : ℚ := if s then -v else v

-- Which number a datum is. The sign of a zero does not count.
def Denotes (v : ℚ) : Binary → Prop
  | finite s m q => turned s (m * 2 ^ q) = v
  | _ => False

theorem Denotes.finite (denotes : x.Denotes v) : ∃ s m q, x = .finite s m q ∧ turned s (m * 2 ^ q) = v := by
  cases x with
  | nan => cases denotes
  | infinite => cases denotes
  | finite s m q => exact ⟨s,m,q,rfl,denotes⟩

section Quotient

theorem zpow_toNat (a : Int) : (2 : ℚ) ^ a.toNat / 2 ^ (-a).toNat = 2 ^ a := by
  rw [← zpow_natCast,← zpow_natCast,← zpow_sub₀ two_ne_zero]
  congr 1
  omega

theorem scaled_quotient (num den : Nat) (a : Int) :
    ((num * 2 ^ a.toNat : Nat) : ℚ) / (den * 2 ^ (-a).toNat : Nat) = num / den * 2 ^ a := by
  push_cast
  rw [mul_div_mul_comm,zpow_toNat]

-- The power of two that a quotient is not below.
theorem log2Quotient_le (some : num ≠ 0) : (den : ℚ) * 2 ^ log2Quotient num den ≤ num := by
  unfold log2Quotient
  dsimp only
  split
  · have under : 2 ^ num.log2 ≤ num := Nat.log2_self_le some
    have above : den < 2 ^ (den.log2 + 1) := Nat.lt_log2_self
    calc (den : ℚ) * 2 ^ ((num.log2 : Int) - den.log2 - 1)
      _ ≤ (2 : ℚ) ^ (den.log2 + 1) * 2 ^ ((num.log2 : Int) - den.log2 - 1) := by
        gcongr
        exact_mod_cast above.le
      _ = (2 : ℚ) ^ num.log2 := by
        rw [← zpow_natCast,← zpow_natCast,← zpow_add₀ two_ne_zero]
        congr 1
        push_cast
        ring
      _ ≤ num := by exact_mod_cast under
  · rename_i above
    exact not_lt.mp fun less => above ((lt_scaled_iff _).mpr less)

theorem log2Quotient_between (some : num ≠ 0) (positive : 0 < den) (scale : Int) :
    (2 : ℚ) ^ (log2Quotient num den + scale) ≤ num / den * 2 ^ scale ∧
      (num : ℚ) / den * 2 ^ scale < 2 ^ (log2Quotient num den + scale + 1) := by
  have parts : (0 : ℚ) < den := Nat.cast_pos.mpr positive
  constructor
  · rw [zpow_add₀ two_ne_zero]
    gcongr
    rw [le_div_iff₀ parts,mul_comm]
    exact log2Quotient_le some
  · rw [add_right_comm,zpow_add₀ two_ne_zero]
    gcongr
    rw [div_lt_iff₀ parts,mul_comm]
    exact lt_log2Quotient positive

-- The place of the first digit is that of the number, however it is told.
theorem log2Quotient_congr {a b : Nat} {g : Int} (some : num ≠ 0) (other : a ≠ 0) (first : 0 < den) (second : 0 < b)
    (same : (num : ℚ) / den * 2 ^ scale = a / b * 2 ^ g) : log2Quotient num den + scale = log2Quotient a b + g := by
  have one := log2Quotient_between some first scale
  have again := log2Quotient_between other second g
  rw [same] at one
  have two : (1 : ℚ) < 2 := one_lt_two
  have less := (zpow_lt_zpow_iff_right₀ two).mp (one.1.trans_lt again.2)
  have more := (zpow_lt_zpow_iff_right₀ two).mp (again.1.trans_lt one.2)
  omega

theorem roundQuotient_mul {k : Nat} (positive : 0 < k) : roundQuotient (num * k) (den * k) = roundQuotient num den := by
  have below (a b : Nat) : 2 * (a * k) < b * k ↔ 2 * a < b := by
    rw [← Nat.mul_assoc,Nat.mul_lt_mul_right positive]
  have above (a b : Nat) : b * k < 2 * (a * k) ↔ b < 2 * a := by
    rw [← Nat.mul_assoc,Nat.mul_lt_mul_right positive]
  unfold roundQuotient
  dsimp only
  simp only [Nat.mul_div_mul_right num den positive,Nat.mul_mod_mul_right,below,above]

theorem roundQuotient_congr {a b : Nat} (first : 0 < den) (second : 0 < b) (same : (num : ℚ) / den = a / b) :
    roundQuotient num den = roundQuotient a b := by
  have cross : num * b = a * den := by
    rw [div_eq_div_iff (Nat.cast_ne_zero.mpr first.ne') (Nat.cast_ne_zero.mpr second.ne')] at same
    exact_mod_cast same
  calc roundQuotient num den
    _ = roundQuotient (num * b) (den * b) := (roundQuotient_mul second).symm
    _ = roundQuotient (a * den) (b * den) := by rw [cross,Nat.mul_comm den]
    _ = roundQuotient a b := roundQuotient_mul first

theorem roundQuotient_half (num : Nat) (positive : 0 < den) : 2 * (den * roundQuotient num den) ≤ 2 * num + den := by
  have parts := Nat.div_add_mod num den
  have rest := Nat.mod_lt num positive
  have next : den * (num / den + 1) = den * (num / den) + den := Nat.mul_succ ..
  unfold roundQuotient
  dsimp only
  split
  · omega
  · split
    · omega
    · rename_i below above
      have half : 2 * (num % den) = den := by omega
      rcases Nat.mod_two_eq_zero_or_one (num / den) with even | odd
      · rw [even,Nat.add_zero]
        omega
      · rw [odd,next]
        omega

theorem roundQuotient_one (num : Nat) : roundQuotient num 1 = num := by
  simp [roundQuotient,Nat.mod_one]

end Quotient

-- What a number is rounded to does not depend on how it is told.
theorem round_congr {a b : Nat} {g : Int} (first : 0 < den) (second : 0 < b)
    (same : (num : ℚ) / den * 2 ^ scale = a / b * 2 ^ g) : round f s num den scale = round f s a b g := by
  have unit (k : Int) : (2 : ℚ) ^ k ≠ 0 := zpow_ne_zero k two_ne_zero
  have none : num = 0 ↔ a = 0 := by
    have zero {c d : Nat} {k : Int} (positive : 0 < d) : (c : ℚ) / d * 2 ^ k = 0 ↔ c = 0 := by
      rw [mul_eq_zero,or_iff_left (unit k),div_eq_zero_iff,or_iff_left (Nat.cast_ne_zero.mpr positive.ne'),Nat.cast_eq_zero]
    rw [← zero first,same,zero second]
  unfold round
  by_cases zero : num = 0
  · rw [if_pos zero,if_pos (none.mp zero)]
  have some : a ≠ 0 := fun equal => zero (none.mpr equal)
  rw [if_neg zero,if_neg some,log2Quotient_congr zero some first second same]
  generalize max f.minExponent (log2Quotient a b + g - f.precision + 1) = q
  have digits : roundQuotient (num * Nat.pow 2 (scale - q).toNat) (den * Nat.pow 2 (q - scale).toNat) =
      roundQuotient (a * Nat.pow 2 (g - q).toNat) (b * Nat.pow 2 (q - g).toNat) := by
    simp only [Nat.pow_eq]
    refine roundQuotient_congr (by positivity) (by positivity) ?_
    rw [← neg_sub scale,← neg_sub g,scaled_quotient,scaled_quotient,zpow_sub₀ two_ne_zero,zpow_sub₀ two_ne_zero,
      mul_div_assoc',mul_div_assoc',same]
  dsimp only
  rw [digits]

-- A number of the format is rounded to itself.
theorem round_exact (digits : m < 2 ^ f.precision) (some : m ≠ 0) (low : f.minExponent ≤ q) (high : q ≤ f.maxExponent) :
    round f s m 1 q = ofScaled s m q := by
  unfold round
  rw [if_neg some,log2Quotient_one some]
  have small : m.log2 < f.precision := (Nat.log2_lt some).mpr digits
  generalize place : max f.minExponent (m.log2 + q - f.precision + 1) = g
  have below : g ≤ q := by omega
  have none : (g - q).toNat = 0 := by omega
  simp only [Nat.pow_eq,none,pow_zero,mul_one,roundQuotient_one]
  rw [if_neg]
  · rw [ofScaled_shift]
    congr 1
    omega
  · simp only [Bool.or_eq_true,Bool.and_eq_true,decide_eq_true_eq,beq_iff_eq,not_or,not_and]
    refine ⟨by omega,fun last => ?_⟩
    have here : (q - g).toNat = 0 := by omega
    rw [here,pow_zero,mul_one]
    exact digits.ne

theorem ofScaled_denotes (s : Bool) (m : Nat) (q : Int) : (ofScaled s m q).Denotes (turned s (m * 2 ^ q)) := by
  unfold ofScaled
  split
  · rename_i none
    rw [none]
    simp [Denotes]
  · exact congrArg (turned s) (halveEven_value _ _ _).symm

-- A whole number that the digits of a format can count to is a number of it.
theorem round_whole (wide : f.Wide) (positive : 0 < den) (small : n ≤ 2 ^ f.precision) (whole : (num : ℚ) / den * 2 ^ scale = n) :
    ∃ m q, round f s num den scale = ofScaled s m q ∧ (m : ℚ) * 2 ^ q = n := by
  have told (m : Nat) (q : Int) (equal : (m : ℚ) * 2 ^ q = n) : round f s num den scale = round f s m 1 q :=
    round_congr positive one_pos (by rw [whole,← equal,Nat.cast_one,div_one])
  have low := wide.low
  have high := wide.high
  rcases Nat.lt_or_eq_of_le small with less | rfl
  · have units : (n : ℚ) * 2 ^ (0 : Int) = n := by rw [zpow_zero,mul_one]
    refine ⟨n,0,(told n 0 units).trans ?_,units⟩
    by_cases none : n = 0
    · rw [none]
      rfl
    · exact round_exact less none (by omega) (by omega)
  · have power : ((1 : Nat) : ℚ) * 2 ^ (f.precision : Int) = (2 ^ f.precision : Nat) := by
      push_cast
      rw [one_mul,zpow_natCast]
    exact ⟨1,f.precision,(told 1 _ power).trans
      (round_exact (Nat.one_lt_two_pow wide.precise.ne') one_ne_zero (by omega) high),power⟩

theorem turned_abs (i : Int) : turned (decide (i < 0)) i.natAbs = i := by
  unfold turned
  rw [Nat.cast_natAbs]
  split
  · rename_i negative
    rw [abs_of_neg (of_decide_eq_true negative),Int.cast_neg,Rat.neg_neg]
  · rename_i positive
    rw [abs_of_nonneg (not_lt.mp fun negative => positive (decide_eq_true negative))]

theorem round_int (wide : f.Wide) (small : i.natAbs ≤ 2 ^ f.precision) (whole : (num : ℚ) * 2 ^ scale = i.natAbs) :
    (round f (decide (i < 0)) num 1 scale).Denotes i := by
  rw [← div_one (num : ℚ),← Nat.cast_one] at whole
  obtain ⟨m,q,rounded,equal⟩ := round_whole (s := decide (i < 0)) wide one_pos small whole
  have denotes := ofScaled_denotes (decide (i < 0)) m q
  rw [rounded]
  rwa [equal,turned_abs] at denotes

theorem ofInt_denotes (wide : f.Wide) (small : i.natAbs ≤ 2 ^ f.precision) : (ofInt f i).Denotes i :=
  round_int wide small (by rw [zpow_zero,mul_one])

theorem turned_scaled {base : Int} (s : Bool) (within : base ≤ q) :
    (scaledInt s m q base : ℚ) * 2 ^ base = turned s (m * 2 ^ q) := by
  rw [← scaledInt_value within]
  cases s with
  | false => rfl
  | true =>
    unfold scaledInt turned
    simp

-- Nothing is lost by an addition whose sum the digits of the format can count to.
theorem add_denotes (wide : f.Wide) (left : x.Denotes v) (right : y.Denotes w) (whole : v + w = i)
    (small : i.natAbs ≤ 2 ^ f.precision) : (add f x y).Denotes i := by
  obtain ⟨s,m,q,rfl,rfl⟩ := left.finite
  obtain ⟨t,n,r,rfl,rfl⟩ := right.finite
  have total : ((scaledInt s m q (min q r) + scaledInt t n r (min q r) : Int) : ℚ) * 2 ^ min q r = i := by
    rw [Int.cast_add,add_mul,turned_scaled s (min_le_left q r),turned_scaled t (min_le_right q r),whole]
  unfold add
  dsimp only
  split
  · rename_i none
    simp only [Bool.and_eq_true,decide_eq_true_eq] at none
    rw [← whole,none.1,none.2]
    simp [Denotes,turned]
  · generalize scaledInt s m q (min q r) + scaledInt t n r (min q r) = k at total ⊢
    have unit : (0 : ℚ) < 2 ^ min q r := by positivity
    unfold roundScaled
    split
    · rename_i none
      rw [← total,none]
      simp [zero,Denotes,turned]
    · have side : k < 0 ↔ i < 0 := by
        rw [← not_le,← not_le,← Int.cast_nonneg_iff (R := ℚ),← Int.cast_nonneg_iff (R := ℚ),← total,
          mul_nonneg_iff_of_pos_right unit]
      rw [decide_eq_decide.mpr side]
      refine round_int wide small ?_
      rw [Nat.cast_natAbs,Nat.cast_natAbs,Int.cast_abs,Int.cast_abs,← total,abs_mul,abs_of_pos unit]

-- Nor by adding one number after the other, as long as all of them together are not too many for the digits.
theorem sum_denotes (wide : f.Wide) (denotes : x.Denotes i) {is : List Int}
    (small : i.natAbs + (is.map Int.natAbs).sum ≤ 2 ^ f.precision) :
    ((is.map (ofInt f)).foldl (add f) x).Denotes (i + is.sum : Int) := by
  induction is generalizing x i with
  | nil =>
    rw [List.sum_nil,Int.add_zero]
    exact denotes
  | cons j is ih =>
    rw [List.map_cons,List.sum_cons] at small
    have triangle := Int.natAbs_add_le i j
    have next : (add f x (ofInt f j)).Denotes (i + j : Int) :=
      add_denotes wide denotes (ofInt_denotes wide (by omega)) (Int.cast_add i j).symm (by omega)
    rw [List.sum_cons,← Int.add_assoc]
    exact ih next (by omega)

-- Cutting off the digits below the point leaves the floor of the magnitude.
theorem whole_part (m : Nat) (q : Int) : m * 2 ^ q.toNat / 2 ^ (-q).toNat = ⌊(m : ℚ) * 2 ^ q⌋₊ := by
  have scaled := scaled_quotient m 1 q
  rw [Nat.one_mul,Nat.cast_one,div_one] at scaled
  rw [← scaled,Nat.floor_div_eq_div]

def cut (s : Bool) (n : Nat) : Int := if s then -n else n

theorem truncate_ofScaled (s : Bool) (m : Nat) (q : Int) :
    (ofScaled s m q).truncate? = some (cut s ⌊(m : ℚ) * 2 ^ q⌋₊) := by
  unfold ofScaled
  split
  · rename_i none
    rw [none]
    simp [truncate?,cut]
  · rw [halveEven_value m.log2 m q,← whole_part]
    rfl

-- A quotient is not rounded up to the next whole number: it is further below it than half of the last place.
theorem roundQuotient_div {d : Nat} (positive : 0 < n) (fine : n < 2 ^ (d + 1)) :
    roundQuotient (num * 2 ^ d) n / 2 ^ d = num / n := by
  have unit : 0 < 2 ^ d := Nat.two_pow_pos d
  have least : 2 ^ d * (num / n) ≤ roundQuotient (num * 2 ^ d) n := by
    refine le_roundQuotient positive ?_
    calc n * (2 ^ d * (num / n))
      _ = n * (num / n) * 2 ^ d := by ring
      _ ≤ num * 2 ^ d := Nat.mul_le_mul_right _ (Nat.mul_div_le num n)
  have most : roundQuotient (num * 2 ^ d) n < 2 ^ d * (num / n + 1) := by
    by_contra reached
    have next : num + 1 ≤ n * (num / n + 1) := Nat.lt_mul_div_succ num positive
    have half := roundQuotient_half (num * 2 ^ d) positive
    have grown : 2 * ((num + 1) * 2 ^ d) ≤ 2 * (num * 2 ^ d) + n := by
      calc 2 * ((num + 1) * 2 ^ d)
        _ ≤ 2 * (n * (num / n + 1) * 2 ^ d) := by gcongr
        _ = 2 * (n * (2 ^ d * (num / n + 1))) := by ring
        _ ≤ 2 * (n * roundQuotient (num * 2 ^ d) n) := by
          gcongr
          exact not_lt.mp reached
        _ ≤ 2 * (num * 2 ^ d) + n := half
    rw [Nat.add_one_mul num] at grown
    rw [pow_succ] at fine
    omega
  exact Nat.div_eq_of_lt_le (by rwa [Nat.mul_comm (num / n)]) (by rwa [Nat.mul_comm (num / n + 1)])

-- The last place of a quotient that does not come out even is fine enough for that.
theorem place_fine (wide : f.Wide) (positive : 0 < n) (left : num ≤ 2 ^ f.precision) (right : n ≤ 2 ^ f.precision)
    (uneven : ¬n ∣ num) : ∃ d : Nat, max f.minExponent (log2Quotient num n + 0 - f.precision + 1) = -d ∧ n < 2 ^ (d + 1) := by
  have low := wide.low
  have two : (1 : ℚ) < 2 := one_lt_two
  have top : (num : ℚ) ≤ 2 ^ (f.precision : Int) := by
    rw [zpow_natCast]
    exact_mod_cast left
  have under : (n : ℚ) * 2 ^ log2Quotient num n ≤ num := log2Quotient_le fun none => uneven (none ▸ Nat.dvd_zero n)
  generalize log2Quotient num n = e at under ⊢
  have more : 2 ≤ n := by
    have other : n ≠ 1 := fun one => uneven (one ▸ Nat.one_dvd num)
    omega
  have place : e + 1 ≤ f.precision := by
    refine (zpow_le_zpow_iff_right₀ two).mp ?_
    calc (2 : ℚ) ^ (e + 1)
      _ = 2 * 2 ^ e := by rw [zpow_add_one₀ two_ne_zero,mul_comm]
      _ ≤ n * 2 ^ e := by
        gcongr
        exact_mod_cast more
      _ ≤ 2 ^ (f.precision : Int) := under.trans top
  rcases le_total (e + 0 - f.precision + 1) f.minExponent with coarse | fine
  · refine ⟨(-f.minExponent).toNat,by omega,right.trans_lt (Nat.pow_lt_pow_right one_lt_two (by omega))⟩
  · obtain ⟨d,digits⟩ : ∃ d : Nat, (f.precision : Int) = d + 1 + e := ⟨(f.precision - 1 - e).toNat,by omega⟩
    have split : (2 : ℚ) ^ (f.precision : Int) = (2 ^ (d + 1) : Nat) * 2 ^ e := by
      rw [digits,zpow_add₀ two_ne_zero]
      push_cast
      rw [← zpow_natCast]
      push_cast
      rfl
    have most : n ≤ 2 ^ (d + 1) := by
      have scaled := under.trans top
      rw [split] at scaled
      exact_mod_cast le_of_mul_le_mul_right scaled (by positivity)
    refine ⟨d,by omega,lt_of_le_of_ne most fun equal => uneven ?_⟩
    have whole : num = 2 ^ f.precision := by
      rw [equal,← split,zpow_natCast] at under
      exact left.antisymm (by exact_mod_cast under)
    rw [equal] at right ⊢
    rw [whole]
    exact pow_dvd_pow 2 ((Nat.pow_le_pow_iff_right one_lt_two).mp right)

-- A quotient of numbers that the digits of a format can count to is cut off to the quotient of whole numbers.
theorem truncate_round (wide : f.Wide) (positive : 0 < n) (left : num ≤ 2 ^ f.precision) (right : n ≤ 2 ^ f.precision)
    (s : Bool) : (round f s num n 0).truncate? = some (cut s (num / n)) := by
  by_cases even : n ∣ num
  · have quotient : (num : ℚ) / n * 2 ^ (0 : Int) = (num / n : Nat) := by
      rw [zpow_zero,mul_one,Nat.cast_div even (Nat.cast_ne_zero.mpr positive.ne')]
    obtain ⟨m,q,rounded,equal⟩ := round_whole (s := s) wide positive ((Nat.div_le_self num n).trans left) quotient
    rw [rounded,truncate_ofScaled,equal,Nat.floor_natCast]
  · obtain ⟨d,place,fine⟩ := place_fine wide positive left right even
    have high := wide.high
    have precise := wide.precise
    have rounded : round f s num n 0 = ofScaled s (roundQuotient (num * 2 ^ d) n) (-d) := by
      unfold round
      rw [if_neg fun none : num = 0 => even (none ▸ Nat.dvd_zero n),place]
      dsimp only
      have finer : (0 - -(d : Int)).toNat = d := by omega
      have coarser : (-(d : Int) - 0).toNat = 0 := by omega
      rw [finer,coarser,Nat.pow_eq,Nat.pow_eq,pow_zero,mul_one,if_neg]
      simp only [Bool.or_eq_true,Bool.and_eq_true,decide_eq_true_eq,beq_iff_eq,not_or,not_and]
      exact ⟨by omega,fun last => by omega⟩
    rw [rounded,truncate_ofScaled,← whole_part,Int.toNat_neg_natCast,Int.neg_neg,Int.toNat_natCast,pow_zero,mul_one,
      roundQuotient_div positive fine]

theorem turned_cut {m : ℚ} (positive : 0 ≤ m) (same : turned s m = i) (n : Nat) :
    m = i.natAbs ∧ cut s (i.natAbs / n) = i.tdiv n := by
  unfold turned at same
  unfold cut
  rw [Nat.cast_natAbs,Int.cast_abs,← same]
  cases s with
  | false =>
    have sign : 0 ≤ i := by exact_mod_cast positive.trans_eq same
    obtain ⟨k,rfl⟩ := Int.eq_ofNat_of_zero_le sign
    exact ⟨(abs_of_nonneg positive).symm,rfl⟩
  | true =>
    have sign : 0 ≤ -i := by
      have opposite : m = (-i : Int) := by rw [Int.cast_neg,← same,if_pos rfl,Rat.neg_neg]
      exact_mod_cast positive.trans_eq opposite
    obtain ⟨k,opposite⟩ := Int.eq_ofNat_of_zero_le sign
    obtain rfl : i = -k := by omega
    refine ⟨by rw [if_pos rfl,abs_neg,abs_of_nonneg positive],?_⟩
    rw [Int.natAbs_neg,Int.natAbs_natCast,Int.neg_tdiv]
    rfl

theorem div_truncate (wide : f.Wide) (left : x.Denotes i) (right : y.Denotes (n : ℚ)) (positive : 0 < n)
    (small : i.natAbs ≤ 2 ^ f.precision) (few : n ≤ 2 ^ f.precision) : (div f x y).truncate? = some (i.tdiv n) := by
  obtain ⟨s,m,q,rfl,left⟩ := left.finite
  obtain ⟨t,k,r,rfl,right⟩ := right.finite
  obtain ⟨dividend,quotient⟩ := turned_cut (by positivity) left n
  obtain ⟨rfl,divisor⟩ : t = false ∧ (k : ℚ) * 2 ^ r = n := by
    cases t with
    | false => exact ⟨rfl,right⟩
    | true =>
      have below : (n : ℚ) ≤ 0 := right.symm.trans_le (neg_nonpos.mpr (by positivity))
      exact absurd (Nat.cast_le.mp (below.trans_eq Nat.cast_zero.symm)) (by omega)
  have some : k ≠ 0 := by
    rintro rfl
    rw [Nat.cast_zero,zero_mul] at divisor
    exact positive.ne (Nat.cast_injective divisor)
  have same : (m : ℚ) / k * 2 ^ (q - r) = (i.natAbs : Nat) / n * 2 ^ (0 : Int) := by
    rw [zpow_zero,mul_one,← dividend,← divisor,mul_div_mul_comm,zpow_sub₀ two_ne_zero]
  unfold div
  dsimp only
  rw [if_neg some,Bool.bne_false,round_congr (Nat.pos_of_ne_zero some) positive same,truncate_round wide positive small few,
    quotient]

end TensorGraph.Binary
