import Mathlib.Data.List.Perm.Subperm
import TensorGraph.Proofs.Op.Block

namespace TensorGraph
open Outcome

namespace Transpose

variable {perm : Option (List Int)} {p q : List Nat} {x y : Tensor} {n a b : Nat} {s : Shape} {index : List Nat}

-- The permutation in force is an order of the axes.
theorem permutation_perm (found : permutation perm n = .ok p) : p.Perm (List.range n) := by
  obtain ⟨length,all⟩ := permutation_ok found
  have within : List.Subperm (List.range n) p :=
    List.nodup_range.subperm fun a member => all a (List.mem_range.mp member)
  exact (within.perm_of_length_le (by rw [List.length_range,length])).symm

theorem permutation_unique {perm : List Int} {m : Nat} (first : permutation (some perm) m = .ok q)
    (second : permutation (some perm) n = .ok p) : q = p ∧ m = n := by
  have same : q = p := by
    unfold permutation at first second
    dsimp only at first second
    split at first
    · split at second
      · exact Except.ok.inj (first.symm.trans second)
      · cases second
    · cases first
  exact ⟨same,(permutation_ok first).1.symm.trans ((congrArg List.length same).trans (permutation_ok second).1)⟩

-- The tensor with its axes in another order.
def turn (p : List Nat) (x : Tensor) : Tensor :=
  .tabulate x.dtype (p.map fun a => x.shape.getD a 0) fun index => x.get (scatter p index 0)

theorem eval_eq_turn (found : permutation perm x.shape.length = .ok p) : eval perm x = .ok (turn p x) :=
  bind_ok.mpr ⟨p,found,rfl⟩

theorem eval_turn (evaluated : eval perm x = .ok y) :
    ∃ p, permutation perm x.shape.length = .ok p ∧ y = turn p x := by
  obtain ⟨p,found,equal⟩ := bind_ok.mp evaluated
  exact ⟨p,found,(Except.ok.inj equal).symm⟩

theorem eval_known {perm : List Int} (valid : permutation (some perm) n = .ok p) (evaluated : eval (some perm) x = .ok y) :
    x.shape.length = n ∧ y = turn p x := by
  obtain ⟨q,found,rfl⟩ := eval_turn evaluated
  obtain ⟨rfl,rank⟩ := permutation_unique found valid
  exact ⟨rank,rfl⟩

theorem map_getD_range {α : Type} (xs : List α) (d : α) : ((List.range xs.length).map fun a => xs.getD a d) = xs := by
  refine List.ext_getElem (by simp) fun a _ inside => ?_
  rw [List.getElem_map,List.getElem_range,List.getD_eq_getElem?_getD,List.getElem?_eq_getElem inside]
  rfl

section Order
variable (order : p.Perm (List.range n))
include order

theorem order_length : p.length = n := order.length_eq.trans List.length_range

theorem order_mem : a ∈ p ↔ a < n := order.mem_iff.trans List.mem_range

theorem order_idxOf_lt (axis : a < n) : p.idxOf a < n :=
  order_length order ▸ List.idxOf_lt_length_of_mem ((order_mem order).mpr axis)

theorem order_getD_lt (axis : b < n) : p.getD b 0 < n := by
  have inside : b < p.length := (order_length order).symm ▸ axis
  rw [List.getD_eq_getElem?_getD,List.getElem?_eq_getElem inside]
  exact (order_mem order).mp (List.getElem_mem inside)

-- An axis and its place in the order determine each other.
theorem idxOf_eq_iff (first : a < n) (second : b < n) : p.idxOf a = b ↔ a = p.getD b 0 := by
  have inside : b < p.length := (order_length order).symm ▸ second
  have distinct : p.Nodup := order.nodup_iff.mpr List.nodup_range
  rw [List.getD_eq_getElem?_getD,List.getElem?_eq_getElem inside,Option.getD_some]
  constructor
  · rintro rfl
    exact (List.getElem_idxOf inside).symm
  · rintro rfl
    exact distinct.idxOf_getElem b inside

theorem getD_map (f : Nat → Nat) (axis : b < n) : (p.map f).getD b 0 = f (p.getD b 0) := by
  have inside : b < p.length := (order_length order).symm ▸ axis
  rw [List.getD_eq_getElem?_getD,List.getElem?_map,List.getD_eq_getElem?_getD,List.getElem?_eq_getElem inside]
  rfl

theorem length_scatter (xs : List Nat) : (scatter p xs 0).length = n := by
  rw [scatter,List.length_map,List.length_range,order_length order]

theorem getD_scatter (xs : List Nat) (axis : a < n) : (scatter p xs 0).getD a 0 = xs.getD (p.idxOf a) 0 := by
  have inside : a < p.length := (order_length order).symm ▸ axis
  rw [scatter,List.getD_eq_getElem?_getD,List.getElem?_map,List.getElem?_range inside]
  rfl

theorem scatter_mem (length : s.length = n) (inside : index ∈ Shape.indices (p.map fun a => s.getD a 0)) :
    scatter p index 0 ∈ s.indices := by
  refine Shape.mem_of_getD_lt ((length_scatter order index).trans length.symm) fun a axis => ?_
  have axis : a < n := length ▸ axis
  have place := order_idxOf_lt order axis
  have below := Shape.getD_lt inside (a := p.idxOf a) (by rwa [List.length_map,order_length order])
  rwa [getD_map order _ place,← (idxOf_eq_iff order axis place).mp rfl,← getD_scatter order index axis] at below

theorem scatter_set {xs : List Nat} {i : Nat} (length : xs.length = n) (axis : b < n) :
    scatter p (xs.set b i) 0 = (scatter p xs 0).set (p.getD b 0) i := by
  have source := order_getD_lt order axis
  refine Shape.ext_getD (by rw [List.length_set,length_scatter order,length_scatter order]) fun a within => ?_
  rw [List.length_set,length_scatter order] at within
  have apart : b = p.idxOf a ↔ p.getD b 0 = a := by
    rw [eq_comm,idxOf_eq_iff order within axis,eq_comm]
  rw [getD_scatter order _ within,Shape.getD_set (length ▸ axis),
    Shape.getD_set ((length_scatter order xs).symm ▸ source),getD_scatter order _ within]
  simp only [apart]

-- The extent of an axis, wherever the axis comes to stand.
theorem map_set (length : s.length = n) (axis : b < n) (size : Nat) :
    (p.map fun a => s.getD a 0).set b size = p.map fun a => (s.set (p.getD b 0) size).getD a 0 := by
  have source := order_getD_lt order axis
  have sized : (p.map fun a => s.getD a 0).length = n := (List.length_map _).trans (order_length order)
  refine Shape.ext_getD (by rw [List.length_set,List.length_map,List.length_map]) fun c within => ?_
  rw [List.length_map,order_length order] at within
  have apart : b = c ↔ p.getD b 0 = p.getD c 0 := by
    rw [← idxOf_eq_iff order source within,(idxOf_eq_iff order source axis).mpr rfl]
  rw [Shape.getD_set (sized ▸ axis),getD_map order _ within,getD_map order _ within,
    Shape.getD_set (length ▸ source)]
  simp only [apart]

-- One order of the axes after another.
theorem order_comp (next : q.Perm (List.range n)) : (q.map fun b => p.getD b 0).Perm (List.range n) := by
  have whole := map_getD_range p 0
  rw [order_length order] at whole
  exact (next.map _).trans (by rwa [whole])

theorem scatter_scatter (next : q.Perm (List.range n)) (xs : List Nat) :
    scatter p (scatter q xs 0) 0 = scatter (q.map fun b => p.getD b 0) xs 0 := by
  have both := order_comp order next
  refine Shape.ext_getD ((length_scatter order _).trans (length_scatter both xs).symm) fun a axis => ?_
  rw [length_scatter both] at axis
  have place := order_idxOf_lt order axis
  have behind := order_idxOf_lt next place
  rw [getD_scatter order _ axis,getD_scatter next _ place,getD_scatter both _ axis,
    (idxOf_eq_iff both axis behind).mpr]
  rw [getD_map next _ behind,← (idxOf_eq_iff next place behind).mp rfl]
  exact (idxOf_eq_iff order axis place).mp rfl

end Order

theorem get_turn (inside : index ∈ (turn p x).shape.indices) : (turn p x).get index = x.get (scatter p index 0) :=
  Tensor.get_tabulate x.dtype _ inside

theorem get_eval {perm : List Int} (valid : permutation (some perm) n = .ok p) (evaluated : eval (some perm) x = .ok y)
    (inside : index ∈ y.shape.indices) : y.get index = x.get (scatter p index 0) := by
  obtain ⟨-,rfl⟩ := eval_known valid evaluated
  exact get_turn inside

theorem turn_range : turn (List.range x.shape.length) x = x.table := by
  rw [turn,map_getD_range]
  refine Tensor.tabulate_congr fun index inside => congrArg x.get ?_
  have length := Shape.length_of_mem inside
  have same : scatter (List.range index.length) ((List.range index.length).map fun a => index.getD a 0) 0 = index :=
    scatter_map 0 List.length_range fun a below => List.mem_range.mpr below
  rwa [map_getD_range,length] at same

theorem turn_turn (first : p.Perm (List.range x.shape.length)) (second : q.Perm (List.range x.shape.length)) :
    turn q (turn p x) = turn (q.map fun b => p.getD b 0) x := by
  have shape : q.map (fun b => (turn p x).shape.getD b 0) =
      (q.map fun b => p.getD b 0).map fun a => x.shape.getD a 0 := by
    rw [List.map_map]
    exact List.map_congr_left fun b member => getD_map first _ ((order_mem second).mp member)
  have length : (turn p x).shape.length = x.shape.length := (List.length_map _).trans (order_length first)
  rw [turn,shape]
  refine Tensor.tabulate_congr fun index inside => ?_
  rw [get_turn (scatter_mem second length (shape ▸ inside)),scatter_scatter first second]

-- A block of an axis, wherever the axis comes to stand.
theorem block_turn {start size : Nat} (order : p.Perm (List.range x.shape.length)) (axis : b < x.shape.length)
    (room : start + size ≤ x.shape.getD (p.getD b 0) 0) :
    (turn p x).block b start size = turn p (x.block (p.getD b 0) start size) := by
  have source := order_getD_lt order axis
  have place := (idxOf_eq_iff order source axis).mpr rfl
  have length : (p.map fun a => x.shape.getD a 0).length = x.shape.length :=
    (List.length_map _).trans (order_length order)
  have shape := map_set order rfl axis size
  change Tensor.tabulate x.dtype ((p.map fun a => x.shape.getD a 0).set b size) _ = _
  rw [shape]
  refine Tensor.tabulate_congr fun index inside => ?_
  have member := scatter_mem order List.length_set inside
  rw [← shape] at inside
  have here := Shape.getD_lt inside (a := b) (by rwa [List.length_set,length])
  rw [Shape.getD_set (length ▸ axis),if_pos rfl] at here
  have wider := Shape.set_mem (a := b) inside (i := start + index.getD b 0) (n := x.shape.getD (p.getD b 0) 0) (by omega)
  rw [List.set_set,← getD_map order (fun a => x.shape.getD a 0) axis,Shape.set_extent] at wider
  have indexed : index.length = x.shape.length := by rw [Shape.length_of_mem inside,List.length_set,length]
  rw [get_turn wider,Tensor.get_block member,getD_scatter order _ source,place,scatter_set order indexed axis]

end Transpose

end TensorGraph
