import Mathlib.Algebra.Order.Field.Rat
import Mathlib.Algebra.Order.Field.Power
import Mathlib.Tactic.Ring
import TensorGraph.Proofs.Fact.Acceptance

namespace TensorGraph

namespace Binary

-- What a significand and an exponent stand for.
def scaled (negative : Bool) (m : Nat) (q : Int) : ℚ := (if negative then -1 else 1) * m * 2 ^ q

-- What a number stands for, a rational or an infinity. A value that is no number stands for nothing.
def reading : Binary → Option (ℚ ⊕ Bool)
  | nan => none
  | infinite s => some (.inr s)
  | finite s m q => some (.inl (scaled s m q))

theorem scaledInt_scaled {s : Bool} {m : Nat} {q base : Int} (low : base ≤ q) :
    (scaledInt s m q base : ℚ) * 2 ^ base = scaled s m q := by
  have whole : ((q - base).toNat : Int) = q - base := Int.toNat_of_nonneg (by omega)
  have power : (2 : ℚ) ^ (q - base).toNat * 2 ^ base = 2 ^ q := by
    rw [←zpow_natCast,whole,←zpow_add₀ two_ne_zero,sub_add_cancel]
  unfold scaledInt scaled
  cases s
  · simp [mul_assoc,power]
  · simp [mul_assoc,power]

-- Two numbers are compared at the smaller exponent, so as what they stand for.
theorem eq_iff {x y : Binary} : eq x y = true ↔ ∃ v, x.reading = some v ∧ y.reading = some v := by
  cases x with
  | nan => simp [eq,order?,reading]
  | infinite s =>
    cases y with
    | nan => simp [eq,order?,reading]
    | infinite t => cases s <;> cases t <;> simp [eq,order?,reading]
    | finite t n r => cases s <;> simp [eq,order?,reading]
  | finite s m q =>
    cases y with
    | nan => simp [eq,order?,reading]
    | infinite t => cases t <;> simp [eq,order?,reading]
    | finite t n r =>
      have left := scaledInt_scaled (s := s) (m := m) (min_le_left q r)
      have right := scaledInt_scaled (s := t) (m := n) (min_le_right q r)
      have positive : (2 : ℚ) ^ min q r ≠ 0 := zpow_ne_zero _ two_ne_zero
      simp only [eq,order?,reading,beq_iff_eq,Option.some.injEq,exists_eq_left',Sum.inl.injEq]
      rw [compare_eq_iff_eq,←left,←right,mul_left_inj' positive,Int.cast_inj,eq_comm]

theorem scaled_halveEven (s : Bool) (steps m : Nat) (q : Int) :
    scaled s (halveEven steps m q).1 (halveEven steps m q).2 = scaled s m q := by
  induction steps generalizing m q with
  | zero => rfl
  | succ steps ih =>
    unfold halveEven
    split
    · rename_i even
      obtain ⟨k,rfl⟩ : 2 ∣ m := Nat.dvd_of_mod_eq_zero even
      rw [ih,Nat.mul_div_cancel_left k (by omega)]
      unfold scaled
      rw [zpow_add₀ two_ne_zero,zpow_one]
      push_cast
      ring
    · rfl

theorem reading_ofScaled (s : Bool) (m : Nat) (q : Int) :
    (ofScaled s m q).reading = some (.inl (scaled s m q)) := by
  unfold ofScaled
  split
  · rename_i zero
    subst zero
    simp [reading,scaled]
  · exact congrArg (some ∘ Sum.inl) (scaled_halveEven s _ m q)

end Binary

namespace Datum

def Number.reading : Number → Option (ℚ ⊕ Bool)
  | .int i => some (.inl i)
  | .float x => x.reading

theorem reading_integer (i : Int) :
    (Binary.ofScaled (decide (i < 0)) i.natAbs 0).reading = some (.inl (i : ℚ)) := by
  rw [Binary.reading_ofScaled]
  unfold Binary.scaled
  rcases lt_or_ge i 0 with negative | positive
  · have size : (i.natAbs : Int) = -i := by omega
    rw [if_pos (by simpa using negative),zpow_zero,mul_one,←Int.cast_natCast,size]
    simp
  · have size : (i.natAbs : Int) = i := by omega
    rw [if_neg (by simpa using positive),zpow_zero,mul_one,←Int.cast_natCast,size]
    simp

theorem Number.same_iff {a b : Number} : a.same b = true ↔ ∃ v, a.reading = some v ∧ b.reading = some v := by
  cases a with
  | int i =>
    cases b with
    | int j =>
      unfold Number.same
      simp only [Number.reading,beq_iff_eq,Option.some.injEq,exists_eq_left',Sum.inl.injEq,Int.cast_inj]
      exact eq_comm
    | float y =>
      unfold Number.same
      rw [Binary.eq_iff,reading_integer]
      rfl
  | float x =>
    cases b with
    | int j =>
      unfold Number.same
      rw [Binary.eq_iff,reading_integer]
      rfl
    | float y => exact Binary.eq_iff

-- Numbers are compared with numbers, whatever they are made of.
theorem same_number {d e : Datum} {n : Number} (number : d.number? = some n) :
    d.same e = true ↔ ∃ m, e.number? = some m ∧ n.same m = true := by
  cases d with
  | bool | int | float =>
    cases number
    unfold same
    cases e.number? <;> simp
  | nan =>
    cases number
    refine ⟨fun equal => by simp [same] at equal,?_⟩
    rintro ⟨m,-,agree⟩
    obtain ⟨v,left,-⟩ := Number.same_iff.mp agree
    cases left
  | null | text | bytes | list => cases number

theorem number_symm {d e : Datum} {n : Number} (number : d.number? = some n) (equal : d.same e = true) :
    e.same d = true := by
  obtain ⟨m,other,agree⟩ := (same_number number).mp equal
  obtain ⟨v,left,right⟩ := Number.same_iff.mp agree
  exact (same_number other).mpr ⟨n,number,Number.same_iff.mpr ⟨v,right,left⟩⟩

theorem number_trans {d e f : Datum} {n : Number} (number : d.number? = some n) (first : d.same e = true)
    (second : e.same f = true) : d.same f = true := by
  obtain ⟨m,other,agree⟩ := (same_number number).mp first
  obtain ⟨k,last,agree'⟩ := (same_number other).mp second
  obtain ⟨v,left,middle⟩ := Number.same_iff.mp agree
  obtain ⟨v',middle',right⟩ := Number.same_iff.mp agree'
  cases middle.symm.trans middle'
  exact (same_number number).mpr ⟨k,last,Number.same_iff.mpr ⟨v,left,right⟩⟩

def isNan : Datum → Bool
  | nan _ => true
  | float x => x.isNan
  | _ => false

theorem number_of_isNan {d : Datum} (none : d.isNan = true) : d.number? = some (.float .nan) := by
  cases d with
  | nan => rfl
  | float x =>
    cases x with
    | nan => rfl
    | infinite | finite => cases none
  | null | bool | int | text | bytes | list => cases none

-- What is no number is equal to nothing, itself included.
theorem same_isNan {d e : Datum} (none : d.isNan = true) : d.same e = false := by
  refine Bool.eq_false_iff.mpr fun equal => ?_
  obtain ⟨m,-,agree⟩ := (same_number (number_of_isNan none)).mp equal
  obtain ⟨v,left,-⟩ := Number.same_iff.mp agree
  cases left

theorem isNan_same {d e : Datum} (none : e.isNan = true) : d.same e = false := by
  refine Bool.eq_false_iff.mpr fun equal => ?_
  cases number : d.number? with
  | some n =>
    have turned := number_symm number equal
    rw [same_isNan none] at turned
    cases turned
  | none => cases d <;> cases e <;> simp_all [same,isNan,number?]

theorem isNan_identical {d : Datum} (none : d.isNan = true) : d.identical d = true := by
  cases d <;> simp_all [identical,isNan]

theorem identical_isNan {d e : Datum} (one : d.identical e = true) : d.isNan = true ∧ e.isNan = true := by
  cases d <;> cases e <;> simp_all [identical,isNan]

theorem identical_symm {d e : Datum} (one : d.identical e = true) : e.identical d = true := by
  cases d <;> cases e <;> simp_all [identical]

theorem identical_trans {d e f : Datum} (first : d.identical e = true) (second : e.identical f = true) :
    d.identical f = true := by
  cases d <;> cases e <;> cases f <;> simp_all [identical]

-- Items of lists are compared so: one and the same item may differ from itself.
def Agrees (d e : Datum) : Prop := d.identical e = true ∨ d.same e = true

theorem sameItems_cons {x y : Datum} {xs ys : List Datum} :
    sameItems (x :: xs) (y :: ys) = true ↔ Agrees x y ∧ sameItems xs ys = true := by
  simp [sameItems,Agrees]

-- What agrees by being one and the same is equal to nothing, so the two ways never meet.
theorem Agrees.trans {x y z : Datum} (steps : x.same y = true → y.same z = true → x.same z = true)
    (first : Agrees x y) (second : Agrees y z) : Agrees x z := by
  rcases first with one | equal
  · rcases second with other | equal
    · exact .inl (identical_trans one other)
    · rw [same_isNan (identical_isNan one).2] at equal
      cases equal
  · rcases second with one | other
    · rw [isNan_same (identical_isNan one).1] at equal
      cases equal
    · exact .inr (steps equal other)

-- Equality of values is symmetric and transitive. It is not reflexive, since a value that is no number
-- differs from itself. Both are shown with those of the items of lists.
mutual
theorem same_symm : ∀ {d e : Datum}, d.same e = true → e.same d = true
  | .null, e, equal | .text _, e, equal | .bytes _, e, equal => by cases e <;> simp_all [same]
  | .bool _, _, equal | .int _, _, equal | .float _, _, equal | .nan _, _, equal => number_symm rfl equal
  | .list xs, e, equal => by
    cases e with
    | list ys => exact sameItems_symm equal
    | null | bool | int | float | nan | text | bytes => simp [same] at equal
theorem sameItems_symm : ∀ {xs ys : List Datum}, sameItems xs ys = true → sameItems ys xs = true
  | [], ys, equal => by cases ys <;> simp_all [sameItems]
  | x :: xs, ys, equal => by
    cases ys with
    | nil => simp [sameItems] at equal
    | cons y ys =>
      obtain ⟨head,tail⟩ := sameItems_cons.mp equal
      exact sameItems_cons.mpr ⟨head.imp identical_symm same_symm,sameItems_symm tail⟩
end

mutual
theorem same_trans : ∀ {d e f : Datum}, d.same e = true → e.same f = true → d.same f = true
  | .null, e, _, first, second | .text _, e, _, first, second | .bytes _, e, _, first, second => by
    cases e <;> simp_all [same]
  | .bool _, _, _, first, second | .int _, _, _, first, second | .float _, _, _, first, second
  | .nan _, _, _, first, second => number_trans rfl first second
  | .list xs, e, f, first, second => by
    cases e with
    | list ys =>
      cases f with
      | list zs => exact sameItems_trans first second
      | null | bool | int | float | nan | text | bytes => simp [same] at second
    | null | bool | int | float | nan | text | bytes => simp [same] at first
theorem sameItems_trans : ∀ {xs ys zs : List Datum}, sameItems xs ys = true → sameItems ys zs = true →
    sameItems xs zs = true
  | [], ys, _, first, second => by
    cases ys with
    | nil => exact second
    | cons => simp [sameItems] at first
  | x :: xs, ys, zs, first, second => by
    cases ys with
    | nil => simp [sameItems] at first
    | cons y ys =>
      cases zs with
      | nil => simp [sameItems] at second
      | cons z zs =>
        obtain ⟨head,tail⟩ := sameItems_cons.mp first
        obtain ⟨head',tail'⟩ := sameItems_cons.mp second
        exact sameItems_cons.mpr ⟨head.trans same_trans head',sameItems_trans tail tail'⟩
end

-- A number is equal to itself.
theorem number_self {d : Datum} {n : Number} (number : d.number? = some n) (proper : d.isNan = false) :
    d.same d = true := by
  obtain ⟨v,reading⟩ : ∃ v, n.reading = some v := by
    cases d with
    | bool | int => cases number; exact ⟨_,rfl⟩
    | float x =>
      cases number
      cases x with
      | nan => cases proper
      | infinite | finite => exact ⟨_,rfl⟩
    | nan => cases proper
    | null | text | bytes | list => cases number
  exact (same_number number).mpr ⟨n,number,Number.same_iff.mpr ⟨v,reading,reading⟩⟩

-- In a list every item agrees with itself, one way or the other.
mutual
theorem same_self : ∀ {d : Datum}, d.isNan = false → d.same d = true
  | .null, _ => rfl
  | .text _, _ | .bytes _, _ => by simp [same]
  | .bool _, proper | .int _, proper | .float _, proper => number_self rfl proper
  | .nan _, proper => nomatch proper
  | .list xs, _ => sameItems_self xs
theorem sameItems_self : ∀ xs : List Datum, sameItems xs xs = true
  | [] => rfl
  | x :: xs => by
    refine sameItems_cons.mpr ⟨?_,sameItems_self xs⟩
    cases proper : x.isNan with
    | true => exact .inl (isNan_identical proper)
    | false => exact .inr (same_self proper)
end

theorem same_self_iff {d : Datum} : d.same d = true ↔ d.isNan = false := by
  refine ⟨fun equal => Bool.eq_false_iff.mpr fun none => ?_,same_self⟩
  rw [same_isNan none] at equal
  cases equal

end Datum

namespace Scalar

theorem same_symm {x y : Scalar} (equal : x.same y = true) : y.same x = true := by
  cases x <;> cases y <;> simp_all [same]
  exact Datum.same_symm equal

theorem same_trans {x y z : Scalar} (first : x.same y = true) (second : y.same z = true) :
    x.same z = true := by
  cases x <;> cases y <;> simp_all [same]
  cases z <;> simp_all
  exact Datum.same_trans first second

theorem same_self_iff {x : Scalar} : x.same x = true ↔ ∀ d, x = .object d → d.isNan = false := by
  cases x with
  | object d =>
    refine Datum.same_self_iff.trans ⟨?_,fun all => all d rfl⟩
    rintro proper _ ⟨⟩
    exact proper
  | float | int | bool | text => exact ⟨fun _ => nofun,fun _ => same_self nofun⟩

end Scalar

namespace Tensor

theorem same_forall₂ {s t : Tensor} : s.same t = true ↔ s.dtype = t.dtype ∧ s.shape = t.shape ∧
    List.Forall₂ (fun x y => x.same y = true) s.data t.data := by
  rw [same_parts,List.forall₂_iff_zip]
  simp only [Prod.forall]

theorem same_symm {s t : Tensor} (equal : s.same t = true) : t.same s = true := by
  obtain ⟨dtype,shape,elements⟩ := same_forall₂.mp equal
  exact same_forall₂.mpr ⟨dtype.symm,shape.symm,elements.flip.imp fun _ _ => Scalar.same_symm⟩

theorem same_trans {s t u : Tensor} (first : s.same t = true) (second : t.same u = true) :
    s.same u = true := by
  obtain ⟨dtype,shape,elements⟩ := same_forall₂.mp first
  obtain ⟨dtype',shape',elements'⟩ := same_forall₂.mp second
  exact same_forall₂.mpr ⟨dtype.trans dtype',shape.trans shape',
    Outcome.forall₂_trans elements elements' fun _ _ _ => Scalar.same_trans⟩

-- A tensor differs from itself just where an untyped element does.
theorem same_self_iff {t : Tensor} : t.same t = true ↔ ∀ d, .object d ∈ t.data → d.isNan = false := by
  rw [same_forall₂]
  simp only [true_and,List.forall₂_same,Scalar.same_self_iff]
  exact ⟨fun each d member => each _ member d rfl,fun each x member d equal => each d (equal ▸ member)⟩

end Tensor

end TensorGraph
