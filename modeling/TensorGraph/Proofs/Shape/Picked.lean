import Mathlib.Data.Multiset.Bind
import TensorGraph.Shape

namespace TensorGraph

namespace Shape

variable {p q : Nat → Bool} {i : Nat} {s : Shape}

-- The extents of the axes that are picked, and 1 for the others; `i` counts the axes.
def pick (p : Nat → Bool) : Nat → Shape → Shape
  | _,[] => []
  | i,n :: s => (if p i then n else 1) :: pick p (i + 1) s

theorem pick_eq_map (p : Nat → Bool) (i : Nat) (s : Shape) :
    pick p i s = (s.zipIdx i).map fun r => if p r.2 then r.1 else 1 := by
  induction s generalizing i with
  | nil => rfl
  | cons n s ih => rw [pick,List.zipIdx_cons,List.map_cons,ih]

theorem pick_pick (p q : Nat → Bool) (i : Nat) (s : Shape) : pick q i (pick p i s) = pick (fun j => q j && p j) i s := by
  induction s generalizing i with
  | nil => rfl
  | cons n s ih =>
    rw [pick,pick,pick,ih]
    cases q i <;> rfl

theorem length_pick (p : Nat → Bool) (i : Nat) (s : Shape) : (pick p i s).length = s.length := by
  induction s generalizing i with
  | nil => rfl
  | cons n s ih => rw [pick,List.length_cons,List.length_cons,ih]

theorem pick_getElem? (p : Nat → Bool) (i : Nat) (s : Shape) (j : Nat) :
    (pick p i s)[j]? = s[j]?.map fun n => if p (i + j) then n else 1 := by
  induction s generalizing i j with
  | nil => rfl
  | cons n s ih =>
    cases j with
    | zero => rfl
    | succ j =>
      rw [pick,List.getElem?_cons_succ,List.getElem?_cons_succ,ih,Nat.add_right_comm]
      rfl

-- An index and a step from it.
def shift (index step : List Nat) : List Nat := List.zipWith (· + ·) index step

theorem shift_shift (index step next : List Nat) : shift (shift index step) next = shift index (shift step next) := by
  induction index generalizing step next with
  | nil => rfl
  | cons a index ih =>
    cases step with
    | nil => rfl
    | cons b step =>
      cases next with
      | nil => rfl
      | cons c next => exact congrArg₂ List.cons (Nat.add_assoc a b c) (ih step next)

theorem shift_zero (index : List Nat) : shift index (List.replicate index.length 0) = index := by
  induction index with
  | nil => rfl
  | cons a index ih => exact congrArg (a :: ·) ih

theorem indices_ones (none : ∀ j, p j = false) : indices (pick p i s) = [List.replicate s.length 0] := by
  induction s generalizing i with
  | nil => rfl
  | cons n s ih => simp [pick,none,indices,ih,List.replicate_succ]

theorem flatMap_comm {α β γ : Type} (xs : List α) (ys : List β) (f : α → β → List γ) :
    (xs.flatMap fun x => ys.flatMap fun y => f x y).Perm (ys.flatMap fun y => xs.flatMap fun x => f x y) := by
  rw [← Multiset.coe_eq_coe,← Multiset.coe_bind,← Multiset.coe_bind]
  simp only [← Multiset.coe_bind]
  exact Multiset.bind_bind _ _

-- Of two first coordinates each is taken with each, before all that follow them.
theorem shift_heads {left right both : Shape} (m k : Nat)
    (rest : (left.indices.flatMap fun x => right.indices.map (shift x)).Perm both.indices) :
    ((indices (m :: left)).flatMap fun x => (indices (k :: right)).map (shift x)).Perm
      ((List.range m).flatMap fun a => (List.range k).flatMap fun b => both.indices.map ((a + b) :: ·)) := by
  simp only [indices,List.flatMap_assoc,List.flatMap_map,List.map_flatMap,List.map_map]
  refine List.Perm.flatMap_left _ fun a _ => (flatMap_comm _ _ _).trans (List.Perm.flatMap_left _ fun b _ => ?_)
  have headed := rest.map ((a + b) :: ·)
  simp only [List.map_flatMap,List.map_map] at headed
  exact headed

-- Steps along some axes, each followed by steps along others, are the steps along all of them.
theorem shift_indices (apart : ∀ j, p j = true → q j = false) (i : Nat) (s : Shape) :
    ((indices (pick p i s)).flatMap fun x => (indices (pick q i s)).map (shift x)).Perm
      (indices (pick (fun j => p j || q j) i s)) := by
  induction s generalizing i with
  | nil => exact .refl _
  | cons n s ih =>
    refine (shift_heads _ _ (ih (i + 1))).trans (.of_eq ?_)
    by_cases first : p i = true
    · simp [pick,first,apart i first,indices]
    · by_cases second : q i = true <;> simp [pick,first,second,indices]

theorem shift_mem {index step : List Nat} (apart : ∀ j, p j = true → q j = false)
    (start : index ∈ indices (pick p i s)) (along : step ∈ indices (pick q i s)) :
    shift index step ∈ indices (pick (fun j => p j || q j) i s) :=
  (shift_indices apart i s).subset (List.mem_flatMap.mpr ⟨index,start,List.mem_map_of_mem along⟩)

end Shape

end TensorGraph
