import Mathlib.Algebra.GroupWithZero.Nat
import TensorGraph.Proofs.Fact.Order

namespace TensorGraph

-- How much is known, counted piece by piece: the element type, the rank, each extent, the value.
-- Every gain adds a piece, and no fact of a rank has more pieces than a constant of that rank.
def Dim.height : Dim → Nat
  | unknown => 0
  | _ => 1

def ShapeFact.height (s : ShapeFact) : Nat := (s.map Dim.height).sum

def ShapeFact.height? : Option ShapeFact → Nat
  | none => 0
  | some s => 1 + s.height

def Fact.height : Fact → Nat
  | constant t => 3 + t.shape.length
  | outline d s => (if d.isSome then 1 else 0) + ShapeFact.height? s

namespace Dim

variable {d e : Dim}

theorem height_le_one (d : Dim) : d.height ≤ 1 := by cases d <;> simp [height]

theorem Below.height_le (below : d.Below e) : d.height ≤ e.height := by
  rcases below with rfl | rfl
  · exact Nat.zero_le _
  · exact Nat.le_refl _

theorem Below.eq_of_height (below : d.Below e) (height : e.height ≤ d.height) : d = e := by
  rcases below with rfl | rfl
  · cases e with
    | unknown => rfl
    | known | streaming => simp [Dim.height] at height
  · rfl

end Dim

namespace ShapeFact

variable {s r : ShapeFact} {a b : Option ShapeFact}

theorem height_cons (d : Dim) (s : ShapeFact) : height (d :: s) = d.height + height s := by
  simp [height]

theorem height_le_length (s : ShapeFact) : height s ≤ s.length := by
  induction s with
  | nil => exact Nat.le_refl _
  | cons d s ih =>
    have first := d.height_le_one
    rw [height_cons,List.length_cons]
    omega

theorem Below.height_le (below : s.Below r) : s.height ≤ r.height := by
  induction below with
  | nil => exact Nat.le_refl _
  | cons head _ ih =>
    have first := head.height_le
    rw [height_cons,height_cons]
    omega

theorem Below.eq_of_height (below : s.Below r) (height : r.height ≤ s.height) : s = r := by
  induction below with
  | nil => rfl
  | cons head rest ih =>
    have first := head.height_le
    have others := Below.height_le rest
    rw [height_cons,height_cons] at height
    rw [head.eq_of_height (by omega),ih (by omega)]

theorem Below?.height_le (below : Below? a b) : height? a ≤ height? b := by
  cases a with
  | none => exact Nat.zero_le _
  | some s =>
    obtain ⟨r,rfl,low⟩ := below s rfl
    exact Nat.add_le_add_left low.height_le 1

theorem Below?.eq_of_height (below : Below? a b) (height : height? b ≤ height? a) : a = b := by
  cases a with
  | none =>
    cases b with
    | none => rfl
    | some r => simp only [height?] at height; omega
  | some s =>
    obtain ⟨r,rfl,low⟩ := below s rfl
    rw [low.eq_of_height (by simpa [height?] using height)]

end ShapeFact

namespace Fact

variable {a b : Fact}

theorem outline_height_le (d : Option DType) (s : Option ShapeFact) :
    (outline d s).height ≤ 2 + (s.getD []).length := by
  have type : (if d.isSome then 1 else 0) ≤ 1 := by split <;> omega
  cases s with
  | none =>
    simp only [height,ShapeFact.height?]
    omega
  | some r =>
    have extents := ShapeFact.height_le_length r
    simp only [height,ShapeFact.height?,Option.getD_some]
    omega

-- Below a constant, an outline has its rank at most.
theorem outline_lt {d : Option DType} {s : Option ShapeFact} {t : Tensor}
    (below : (outline d s).Below (.constant t)) : (outline d s).height < (constant t).height := by
  have bound := outline_height_le d s
  have ranks : (s.getD []).length ≤ t.shape.length := by
    cases s with
    | none => exact Nat.zero_le _
    | some r =>
      obtain ⟨q,equal,low⟩ := below.shape r rfl
      cases equal
      rw [Option.getD_some,low.length_eq]
      simp [ShapeFact.ofShape]
  simp only [height] at bound ⊢
  omega

theorem dtype_height {d e : Option DType} (kept : ∀ x, d = some x → e = some x) :
    (if d.isSome then 1 else 0) ≤ (if e.isSome then 1 else 0) := by
  cases d with
  | none => exact Nat.zero_le _
  | some x => exact Nat.le_of_eq (by rw [kept x rfl])

theorem Below.height_le (below : a.Below b) : a.height ≤ b.height := by
  cases a with
  | constant t => exact Nat.le_of_eq (by rw [below.value t rfl])
  | outline d s =>
    cases b with
    | constant t => exact Nat.le_of_lt (outline_lt below)
    | outline e r => exact Nat.add_le_add (dtype_height below.dtype) below.shape.height_le

-- Of two comparable facts of one height neither says more.
theorem Below.eq_of_height (below : a.Below b) (height : b.height ≤ a.height) : a = b := by
  cases a with
  | constant t => exact (below.value t rfl).symm
  | outline d s =>
    cases b with
    | constant t => exact absurd (outline_lt below) (Nat.not_lt.mpr height)
    | outline e r =>
      have types : (if d.isSome then 1 else 0) ≤ (if e.isSome then 1 else 0) := dtype_height below.dtype
      have low : ShapeFact.Below? s r := below.shape
      have shapes := low.height_le
      simp only [Fact.height] at height
      have shape : s = r := low.eq_of_height (by omega)
      have type : d = e := by
        cases d with
        | some x => exact (below.dtype x rfl).symm
        | none =>
          cases e with
          | none => rfl
          | some x =>
            simp only [Option.isSome_none,Option.isSome_some,if_true,Bool.false_eq_true,if_false] at height
            omega
      rw [shape,type]

theorem Below.height_lt (below : a.Below b) (other : a ≠ b) : a.height < b.height := by
  refine Nat.lt_of_not_le fun height => other (below.eq_of_height height)

theorem height_le (f : Fact) : f.height ≤ 3 + f.rank.getD 0 := by
  cases f with
  | constant t => simp [height,rank,shape,ShapeFact.ofShape]
  | outline d s =>
    have bound := outline_height_le d s
    cases s with
    | none => simp only [Option.getD_none,List.length_nil] at bound; omega
    | some r =>
      simp only [Option.getD_some] at bound
      simp only [rank,shape,Option.map_some,Option.getD_some]
      omega

-- Whatever is told apart from what was known is a gain. A constant gains nothing, even one that does
-- not equal itself: it would have to be met by itself, and that fails.
theorem height_lt_of_unify {c : Fact} (below : a.Below b) (unified : a.unify b = .ok c)
    (other : c.same a = false) : a.height < c.height := by
  refine (unify_left unified).height_lt fun equal => ?_
  subst equal
  cases a with
  | outline d s => simp [same] at other
  | constant t =>
    obtain ⟨-,-,-,agree⟩ := unify_parts unified
    have itself : t.same t = true := agree t t rfl (by rw [below.value t rfl]; rfl)
    rw [same,itself] at other
    cases other

-- A rank can be learned once. While it does not change there is only so much room for more.
def open? (f : Fact) : Nat := if f.rank.isNone then 1 else 0
def room (f : Fact) : Nat := 3 + f.rank.getD 0 - f.height

theorem Below.rank {r : Nat} (below : a.Below b) (known : a.rank = some r) : b.rank = some r := by
  obtain ⟨s,shape,rfl⟩ := Option.map_eq_some_iff.mp known
  obtain ⟨s',shape',low⟩ := below.shape s shape
  simp [Fact.rank,shape',low.length_eq]

theorem Below.open_le (below : a.Below b) : b.open? ≤ a.open? := by
  unfold open?
  cases known : a.rank with
  | none => split <;> simp
  | some r => simp [below.rank known]

theorem Below.rank_eq (below : a.Below b) (same : b.open? = a.open?) : a.rank = b.rank := by
  cases known : a.rank with
  | some r => rw [below.rank known]
  | none =>
    cases later : b.rank with
    | none => rfl
    | some r => simp [open?,known,later] at same

theorem Below.room_le (below : a.Below b) (same : b.open? = a.open?) : b.room ≤ a.room := by
  have height := below.height_le
  unfold room
  rw [below.rank_eq same]
  omega

theorem Below.room_lt (below : a.Below b) (same : b.open? = a.open?) (gain : a.height < b.height) :
    b.room < a.room := by
  have bound := b.height_le
  unfold room
  rw [below.rank_eq same]
  omega

end Fact

end TensorGraph
