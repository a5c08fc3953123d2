import TensorGraph.Proofs.Op.Block
import TensorGraph.Proofs.Op.Wrapped
import TensorGraph.Proofs.Shape.Axes
import TensorGraph.Proofs.Shape.Picked

namespace TensorGraph
open Outcome

namespace Shape

theorem keptShape_eq (axes : List Nat) (s : Shape) : Reduction.keptShape axes s = pick (fun j => !axes.contains j) 0 s := by
  rw [pick_eq_map]
  refine List.map_congr_left fun (n,i) _ => ?_
  dsimp only
  cases axes.contains i <;> rfl

theorem reducedShape_eq (axes : List Nat) (s : Shape) : Reduction.reducedShape axes s = pick axes.contains 0 s :=
  (pick_eq_map ..).symm

end Shape

namespace DType

variable {signed : Bool} {bits : Nat}

-- Wrapping the parts first changes neither what a sum nor what a product wraps to.
theorem wrap_sum (signed : Bool) (bits : Nat) (is : List Int) :
    wrap signed bits (is.map (wrap signed bits)).sum = wrap signed bits is.sum := by
  refine wrap_congr ?_
  induction is with
  | nil => rfl
  | cons i is ih => exact Int.ModEq.add (wrap_emod signed bits i) ih

theorem wrap_prod (signed : Bool) (bits : Nat) (is : List Int) :
    wrap signed bits (is.map (wrap signed bits)).prod = wrap signed bits is.prod := by
  refine wrap_congr ?_
  induction is with
  | nil => rfl
  | cons i is ih => exact Int.ModEq.mul (wrap_emod signed bits i) ih

end DType

namespace Reduction

variable {k : Reduction} {t u : Tensor} {signed : Bool} {bits : Nat} {axes : List Nat} {a : Nat}

section Extreme

variable {op : Int → Int → Int}

-- What an operation makes of the elements of a list from its first one on.
def extreme (op : Int → Int → Int) (is : List Int) : Int := is.tail.foldl op (is.headD 0)

theorem extreme_cons (i : Int) (is : List Int) : extreme op (i :: is) = is.foldl op i := rfl

theorem op_extreme [Std.Associative op] (z : Int) {is : List Int} (some : is ≠ []) :
    op z (extreme op is) = is.foldl op z := by
  obtain ⟨i,is,rfl⟩ := List.exists_cons_of_ne_nil some
  exact List.foldl_assoc.symm

theorem foldl_extremes [Std.Associative op] (z : Int) {parts : List (List Int)} (some : ∀ is ∈ parts, is ≠ []) :
    (parts.map (extreme op)).foldl op z = parts.flatten.foldl op z := by
  rw [List.foldl_map,List.foldl_flatten]
  exact List.foldl_ext _ _ _ fun acc is member => op_extreme acc (some is member)

theorem extreme_flatten [Std.Associative op] {parts : List (List Int)} (some : ∀ is ∈ parts, is ≠ []) :
    extreme op (parts.map (extreme op)) = extreme op parts.flatten := by
  cases parts with
  | nil => rfl
  | cons first rest =>
    obtain ⟨some,others⟩ := List.forall_mem_cons.mp some
    obtain ⟨i,is,rfl⟩ := List.exists_cons_of_ne_nil some
    rw [List.map_cons,extreme_cons,foldl_extremes _ others,List.flatten_cons,List.cons_append,extreme_cons,extreme_cons,
      List.foldl_append]

theorem extreme_perm [Std.Associative op] [Std.Commutative op] {is js : List Int} (same : is.Perm js) :
    extreme op is = extreme op js := by
  induction same with
  | nil => rfl
  | cons i same _ => exact same.foldl_op_eq
  | swap i j is =>
    rw [extreme_cons,extreme_cons,List.foldl_cons,List.foldl_cons]
    exact congrArg (is.foldl op) (Std.Commutative.comm j i)
  | trans _ _ first second => exact first.trans second

end Extreme

theorem onInts_sum : sum.onInts signed bits = DType.wrap signed bits ∘ List.sum := rfl

theorem onInts_prod : prod.onInts signed bits = DType.wrap signed bits ∘ List.prod := by
  funext is
  rw [onInts,← List.prod_eq_foldl]
  rfl

theorem onInts_perm (exact : k ≠ mean) {is js : List Int} (same : is.Perm js) :
    k.onInts signed bits is = k.onInts signed bits js := by
  cases k with
  | mean => exact absurd rfl exact
  | sum => exact congrArg (DType.wrap signed bits) same.sum_eq
  | prod =>
    rw [onInts_prod]
    exact congrArg (DType.wrap signed bits) same.prod_eq
  | max => exact extreme_perm same
  | min => exact extreme_perm same

-- What the parts of a list are reduced to is reduced to the same as the whole list.
theorem onInts_flatten (exact : k ≠ mean) {parts : List (List Int)}
    (some : k.needsElement = true → ∀ is ∈ parts, is ≠ []) :
    k.onInts signed bits (parts.map (k.onInts signed bits)) = k.onInts signed bits parts.flatten := by
  cases k with
  | mean => exact absurd rfl exact
  | sum =>
    rw [onInts_sum,← List.map_map]
    exact (DType.wrap_sum signed bits _).trans (congrArg (DType.wrap signed bits) List.sum_flatten.symm)
  | prod =>
    rw [onInts_prod,← List.map_map]
    exact (DType.wrap_prod signed bits _).trans (congrArg (DType.wrap signed bits) List.prod_flatten.symm)
  | max => exact extreme_flatten (some rfl)
  | min => exact extreme_flatten (some rfl)

theorem onScalars_integer {d : DType} {xs : List Scalar} (integer : d.layout = .integer signed bits)
    (each : ∀ x ∈ xs, d.layout.Holds x) : k.onScalars d xs = .int (k.onInts signed bits (xs.map Scalar.whole)) := by
  rw [integer] at each
  unfold onScalars
  rw [integer]
  dsimp only
  rw [intsOf_eq each]

-- The integers that are reduced to the one at an index.
def members (axes : List Nat) (t : Tensor) (index : List Nat) : List Int := (group axes t index).map Scalar.whole

theorem group_holds (proper : t.Proper) (axes : List Nat) (index : List Nat) :
    ∀ x ∈ group axes t index, t.dtype.layout.Holds x := List.forall_mem_map.mpr fun _ _ => proper.get _

theorem members_eq (axes : List Nat) (t : Tensor) (index : List Nat) : members axes t index =
    (Shape.indices (reducedShape axes t.shape)).map fun step => (t.get (Shape.shift index step)).whole := List.map_map

theorem members_ne_nil (some : 0 < (reducedShape axes t.shape).size) (index : List Nat) : members axes t index ≠ [] := by
  rw [← Shape.length_indices] at some
  rw [members_eq,Ne,List.map_eq_nil_iff]
  exact List.ne_nil_of_length_pos some

-- What is gathered along one more axis, and from there along the others, is what is gathered along all of them.
theorem members_perm (fresh : a ∉ axes) (index : List Nat) :
    ((Shape.indices (reducedShape [a] (keptShape axes t.shape))).map fun step =>
      members axes t (Shape.shift index step)).flatten.Perm (members (a :: axes) t index) := by
  have apart : ∀ j, ([a].contains j && !axes.contains j) = true → axes.contains j = false := by simp
  have steps := Shape.shift_indices apart 0 t.shape
  have all : (fun j => [a].contains j && !axes.contains j || axes.contains j) = (a :: axes).contains := by
    funext j
    by_cases here : j = a <;> by_cases there : j ∈ axes <;> simp_all
  rw [all,← Shape.pick_pick,← Shape.keptShape_eq,← Shape.reducedShape_eq,← Shape.reducedShape_eq,← Shape.reducedShape_eq]
    at steps
  have gathered := steps.map fun step => (t.get (Shape.shift index step)).whole
  simp only [List.map_flatMap,List.map_map,Function.comp_def,← Shape.shift_shift] at gathered
  rw [← List.flatMap_def,members_eq]
  simpa only [members_eq] using gathered

theorem keptShape_cons (a : Nat) (axes : List Nat) (s : Shape) : keptShape [a] (keptShape axes s) = keptShape (a :: axes) s := by
  rw [Shape.keptShape_eq,Shape.keptShape_eq,Shape.keptShape_eq,Shape.pick_pick]
  congr 1
  funext j
  by_cases here : j = a <;> simp [here]

theorem get_reduce (proper : t.Proper) (integer : t.dtype.layout = .integer signed bits) {index : List Nat}
    (inside : index ∈ (keptShape axes t.shape).indices) :
    (k.reduce axes t).get index = .int (k.onInts signed bits (members axes t index)) :=
  (Tensor.get_tabulate _ _ inside).trans (onScalars_integer integer (group_holds proper axes index))

-- Reductions are told apart by their shapes and by what becomes of the integers they gather.
theorem reduce_ext {others : List Nat} (proper : t.Proper) (also_ : u.Proper) (integer : t.dtype.layout = .integer signed bits)
    (dtype : u.dtype = t.dtype) (shape : keptShape others u.shape = keptShape axes t.shape)
    (each : ∀ index ∈ (keptShape axes t.shape).indices,
      k.onInts signed bits (members others u index) = k.onInts signed bits (members axes t index)) :
    k.reduce others u = k.reduce axes t := by
  unfold reduce
  rw [dtype,shape]
  refine Tensor.tabulate_congr fun index inside => ?_
  rw [onScalars_integer integer (dtype ▸ group_holds also_ others index),
    onScalars_integer integer (group_holds proper axes index)]
  exact congrArg Scalar.int (each index inside)

theorem shift_kept {s : Shape} {index step : List Nat} (inside : index ∈ (keptShape (a :: axes) s).indices)
    (along : step ∈ (reducedShape [a] (keptShape axes s)).indices) :
    Shape.shift index step ∈ (keptShape axes s).indices := by
  rw [Shape.keptShape_eq] at inside
  rw [Shape.reducedShape_eq,Shape.keptShape_eq,Shape.pick_pick] at along
  have shifted := Shape.shift_mem (fun j kept => by by_cases here : j = a <;> simp_all) inside along
  rw [Shape.keptShape_eq]
  convert shifted using 3
  funext j
  by_cases here : j = a <;> simp [here]

-- A tensor that is reduced already is reduced along one more axis.
theorem reduce_reduce (exact : k ≠ mean) (proper : t.Proper) (integer : t.dtype.layout = .integer signed bits)
    (fresh : a ∉ axes) (some : k.needsElement = true → 0 < (reducedShape axes t.shape).size) :
    k.reduce [a] (k.reduce axes t) = k.reduce (a :: axes) t := by
  refine reduce_ext proper (reduce_proper axes proper) integer rfl (keptShape_cons a axes t.shape) fun index inside => ?_
  have gathered : members [a] (k.reduce axes t) index =
      ((Shape.indices (reducedShape [a] (keptShape axes t.shape))).map fun step =>
        members axes t (Shape.shift index step)).map (k.onInts signed bits) := by
    rw [members_eq,List.map_map]
    refine List.map_congr_left fun step along => ?_
    rw [get_reduce proper integer (shift_kept inside along)]
    rfl
  rw [gathered,onInts_flatten exact]
  · exact onInts_perm exact (members_perm fresh index)
  · exact fun needed => List.forall_mem_map.mpr fun step _ => members_ne_nil (some needed) _

theorem members_nil {index : List Nat} (inside : index ∈ t.shape.indices) : members [] t index = [(t.get index).whole] := by
  have alone : Shape.indices (reducedShape [] t.shape) = [List.replicate t.shape.length 0] := by
    rw [Shape.reducedShape_eq]
    exact Shape.indices_ones fun _ => rfl
  rw [members_eq,alone,List.map_singleton,← Shape.length_of_mem inside,Shape.shift_zero]

theorem onInts_singleton {i : Int} (exact : k ≠ mean) (positive : 0 < bits) (within : DType.Within signed bits i) :
    k.onInts signed bits [i] = i := by
  cases k with
  | mean => exact absurd rfl exact
  | sum => exact (congrArg (DType.wrap signed bits) (Int.add_zero i)).trans (DType.wrap_of_within positive within)
  | prod => exact (congrArg (DType.wrap signed bits) (Int.one_mul i)).trans (DType.wrap_of_within positive within)
  | max | min => rfl

-- Along no axis at all each element is gathered alone.
theorem reduce_nil (exact : k ≠ mean) (proper : t.Proper) (integer : t.dtype.layout = .integer signed bits) :
    k.reduce [] t = t := by
  have shape : keptShape [] t.shape = t.shape := Shape.keptShape_of_ones nofun
  calc k.reduce [] t
    _ = t.table := by
      rw [reduce,shape]
      refine Tensor.tabulate_congr fun index inside => ?_
      have holds := proper.get index
      rw [integer] at holds
      rw [onScalars_integer integer (group_holds proper [] index)]
      change Scalar.int (k.onInts signed bits (members [] t index)) = t.get index
      rw [members_nil inside,onInts_singleton exact (DType.layout_bits integer) (Scalar.whole_within holds)]
      exact (Scalar.whole_eq holds).symm
    _ = t := by rw [Tensor.table,Tensor.tabulate,← Tensor.data_eq proper.size]

-- It does not matter in which order axes are told, or how often.
theorem reduce_congr {others : List Nat} (same : ∀ j, j ∈ others ↔ j ∈ axes) (t : Tensor) :
    k.reduce others t = k.reduce axes t := by
  have contains : others.contains = axes.contains := funext fun j => Bool.eq_iff_iff.mpr (by simpa using same j)
  unfold reduce group
  rw [Shape.keptShape_eq,Shape.keptShape_eq,Shape.reducedShape_eq,Shape.reducedShape_eq,contains]

theorem keptShape_extent {s : Shape} (fresh : a ∉ axes) : (keptShape axes s).getD a 0 = s.getD a 0 := by
  have kept : (!axes.contains (0 + a)) = true := by simp [fresh]
  rw [List.getD_eq_getElem?_getD,List.getD_eq_getElem?_getD,Shape.keptShape_eq,Shape.pick_getElem?,kept]
  exact congrArg (Option.getD · 0) (Option.map_id' ..)

-- Where no axis is empty there is something to reduce.
theorem reducedShape_pos {s : Shape} (filled : ∀ a ∈ axes, s.getD a 0 ≠ 0) : 0 < (reducedShape axes s).size := by
  refine Shape.size_pos fun n member => ?_
  obtain ⟨j,there⟩ := List.mem_iff_getElem?.mp member
  rw [Shape.reducedShape_eq,Shape.pick_getElem?,Option.map_eq_some_iff] at there
  obtain ⟨m,entry,rfl⟩ := there
  split
  · rename_i picked
    have extent := filled j (by simpa using picked)
    rwa [List.getD_eq_getElem?_getD,entry] at extent
  · exact one_ne_zero

end Reduction

namespace Reduction

variable {k : Reduction} {t u : Tensor} {signed : Bool} {bits : Nat} {name : String} {given order : List Int} {done : List Nat}

-- The axes are there, and where an element is needed none of them is empty.
structure Covers (k : Reduction) (s : Shape) (given : List Int) : Prop where
  ranked : ∀ axis ∈ given, Ranked s.length axis
  filled : k.needsElement = true → ∀ a ∈ axisPlaces s.length given, s.getD a 0 ≠ 0

theorem covers_one {s : Shape} {axis : Int} : Covers k s [axis] ↔
    Ranked s.length axis ∧ (k.needsElement = true → s.getD (axisPlace s.length axis).toNat 0 ≠ 0) := by
  constructor
  · exact fun covers => ⟨covers.ranked axis (List.mem_singleton_self _),fun needed =>
      covers.filled needed _ (List.mem_singleton_self _)⟩
  · rintro ⟨ranked,filled⟩
    refine ⟨List.forall_mem_singleton.mpr ranked,fun needed a member => ?_⟩
    cases List.mem_singleton.mp member
    exact filled needed

theorem covers_cons {s : Shape} {axis : Int} : Covers k s (axis :: given) ↔ Covers k s [axis] ∧ Covers k s given := by
  rw [covers_one]
  constructor
  · rintro ⟨ranked,filled⟩
    obtain ⟨first,rest⟩ := List.forall_mem_cons.mp ranked
    exact ⟨⟨first,fun needed => filled needed _ List.mem_cons_self⟩,rest,fun needed a member =>
      filled needed a (List.mem_cons_of_mem _ member)⟩
  · rintro ⟨⟨first,here⟩,rest⟩
    exact ⟨List.forall_mem_cons.mpr ⟨first,rest.ranked⟩,fun needed =>
      List.forall_mem_cons.mpr ⟨here needed,rest.filled needed⟩⟩

theorem eval_eq (numeric : t.dtype.isNumeric = true) (chosen : Option (List Int)) (keepDims : Bool) :
    k.eval name chosen keepDims t = Reduction.axes chosen t.shape.length >>= fun found =>
      if k.needsElement && found.any fun a => t.shape.getD a 0 = 0 then fail (.emptyAxis k.name)
      else .ok (if keepDims then k.reduce found t else (k.reduce found t).reshape (dropAxes found t.shape)) := by
  unfold eval
  dsimp only
  rw [if_pos numeric]
  refine congrArg (Reduction.axes chosen t.shape.length >>= ·) (funext fun found => ?_)
  split <;> rfl

theorem eval_iff (numeric : t.dtype.isNumeric = true) : k.eval name (some given) true t = .ok u ↔
    Covers k t.shape given ∧ u = k.reduce (axisPlaces t.shape.length given) t := by
  rw [eval_eq numeric,bind_ok]
  constructor
  · rintro ⟨found,chosen,reduced⟩
    obtain ⟨ranked,rfl⟩ := normalizeAxes_ok.mp chosen
    split at reduced
    · cases reduced
    · rename_i filled
      cases reduced
      refine ⟨⟨ranked,fun needed a member zero => filled ?_⟩,reduce_congr (fun _ => mem_chosen ranked) t⟩
      rw [needed,Bool.true_and,List.any_eq_true]
      exact ⟨a,(mem_chosen ranked).mpr member,decide_eq_true zero⟩
  · rintro ⟨covers,rfl⟩
    refine ⟨_,normalizeAxes_ok.mpr ⟨covers.ranked,rfl⟩,?_⟩
    rw [if_neg,if_pos rfl,reduce_congr fun _ => mem_chosen covers.ranked]
    rw [Bool.and_eq_true,List.any_eq_true]
    rintro ⟨needed,a,member,zero⟩
    exact covers.filled needed a ((mem_chosen covers.ranked).mp member) (of_decide_eq_true zero)

theorem length_keptShape (axes : List Nat) (s : Shape) : (keptShape axes s).length = s.length := by
  rw [Shape.keptShape_eq,Shape.length_pick]

theorem covers_kept {axis : Int} {s : Shape} (fresh : (axisPlace s.length axis).toNat ∉ done) :
    Covers k (keptShape done s) [axis] ↔ Covers k s [axis] := by
  rw [covers_one,covers_one,length_keptShape,keptShape_extent fresh]

-- One more axis of a tensor that is reduced along some.
theorem eval_next (exact : k ≠ mean) (proper : t.Proper) (integer : t.dtype.layout = .integer signed bits)
    (numeric : t.dtype.isNumeric = true) (filled : k.needsElement = true → ∀ a ∈ done, t.shape.getD a 0 ≠ 0) {axis : Int}
    (fresh : (axisPlace t.shape.length axis).toNat ∉ done) : k.eval name (some [axis]) true (k.reduce done t) = .ok u ↔
      Covers k t.shape [axis] ∧ u = k.reduce ((axisPlace t.shape.length axis).toNat :: done) t := by
  have length : (k.reduce done t).shape.length = t.shape.length := length_keptShape done t.shape
  rw [eval_iff (t := k.reduce done t) numeric,length,← reduce_reduce exact proper integer fresh fun needed =>
    reducedShape_pos (filled needed)]
  exact and_congr_left' (covers_kept fresh)

-- One axis after the other: from what is reduced along some axes on, a run along others returns if it covers them, and then
-- with what is reduced along all of them.
theorem run_iff (exact : k ≠ mean) (proper : t.Proper) (integer : t.dtype.layout = .integer signed bits)
    (numeric : t.dtype.isNumeric = true) (filled : k.needsElement = true → ∀ a ∈ done, t.shape.getD a 0 ≠ 0)
    (apart : (axisPlaces t.shape.length order).Nodup) (fresh : ∀ a ∈ axisPlaces t.shape.length order, a ∉ done) :
    order.foldlM (fun y axis => k.eval name (some [axis]) true y) (k.reduce done t) = .ok u ↔
      Covers k t.shape order ∧ u = k.reduce ((axisPlaces t.shape.length order).reverse ++ done) t := by
  induction order generalizing done with
  | nil =>
    refine ⟨fun same => ⟨⟨nofun,fun _ => nofun⟩,?_⟩,?_⟩
    · cases same
      rfl
    · rintro ⟨-,rfl⟩
      rfl
  | cons axis order ih =>
    obtain ⟨here,later⟩ := List.nodup_cons.mp apart
    obtain ⟨new,others⟩ := List.forall_mem_cons.mp fresh
    have rest (covers : Covers k t.shape [axis]) := @ih ((axisPlace t.shape.length axis).toNat :: done)
      (fun needed => List.forall_mem_cons.mpr ⟨(covers_one.mp covers).2 needed,filled needed⟩) later
      fun a member => List.not_mem_cons_of_ne_of_not_mem (ne_of_mem_of_not_mem member here) (others a member)
    have places : (axisPlaces t.shape.length (axis :: order)).reverse ++ done =
        (axisPlaces t.shape.length order).reverse ++ (axisPlace t.shape.length axis).toNat :: done := by
      rw [axisPlaces,List.map_cons,List.reverse_cons,List.append_assoc]
      rfl
    rw [List.foldlM_cons,bind_ok,covers_cons,places]
    constructor
    · rintro ⟨y,reduced,ran⟩
      obtain ⟨covers,rfl⟩ := (eval_next exact proper integer numeric filled new).mp reduced
      obtain ⟨all,equal⟩ := (rest covers).mp ran
      exact ⟨⟨covers,all⟩,equal⟩
    · rintro ⟨⟨covers,all⟩,equal⟩
      exact ⟨_,(eval_next exact proper integer numeric filled new).mpr ⟨covers,rfl⟩,(rest covers).mpr ⟨all,equal⟩⟩

-- Nothing is reduced along an axis that is not there.
theorem run_ranked (numeric : t.dtype.isNumeric = true)
    (ran : order.foldlM (fun y axis => k.eval name (some [axis]) true y) t = .ok u) :
    ∀ axis ∈ order, Ranked t.shape.length axis := by
  induction order generalizing t with
  | nil => exact nofun
  | cons axis order ih =>
    obtain ⟨y,reduced,rest⟩ := bind_ok.mp ran
    obtain ⟨covers,rfl⟩ := (eval_iff numeric).mp reduced
    have later : ∀ axis ∈ order, Ranked (keptShape _ t.shape).length axis := ih (t := k.reduce _ t) numeric rest
    rw [length_keptShape] at later
    exact List.forall_mem_cons.mpr ⟨(covers_one.mp covers).1,later⟩

-- The axes of a list, each of them named once and from either end.
structure Lists (rank : Nat) (given order : List Int) : Prop where
  once : (order.map (axisPlace rank)).Nodup
  same : ∀ place, place ∈ order.map (axisPlace rank) ↔ place ∈ given.map (axisPlace rank)

theorem Lists.ranked {rank : Nat} (lists : Lists rank given order) :
    (∀ axis ∈ given, Ranked rank axis) ↔ ∀ axis ∈ order, Ranked rank axis := by
  have placed (axes : List Int) : (∀ axis ∈ axes, Ranked rank axis) ↔
      ∀ place ∈ axes.map (axisPlace rank), 0 ≤ place ∧ place < rank := by
    rw [List.forall_mem_map]
    rfl
  rw [placed,placed]
  simp only [lists.same]

theorem Lists.places {rank : Nat} (lists : Lists rank given order) (a : Nat) :
    a ∈ axisPlaces rank order ↔ a ∈ axisPlaces rank given := by
  rw [axisPlaces_eq,axisPlaces_eq,List.mem_map,List.mem_map]
  simp only [lists.same]

theorem Lists.covers {s : Shape} (lists : Lists s.length given order) : Covers k s given ↔ Covers k s order := by
  constructor
  · exact fun covers => ⟨lists.ranked.mp covers.ranked,fun needed a member => covers.filled needed a ((lists.places a).mp member)⟩
  · exact fun covers => ⟨lists.ranked.mpr covers.ranked,fun needed a member => covers.filled needed a ((lists.places a).mpr member)⟩

theorem Lists.apart {rank : Nat} (lists : Lists rank given order) (ranked : ∀ axis ∈ order, Ranked rank axis) :
    (axisPlaces rank order).Nodup := by
  rw [axisPlaces_eq]
  refine lists.once.map_on fun i first j second same => ?_
  obtain ⟨_,member,rfl⟩ := List.mem_map.mp first
  obtain ⟨_,other,rfl⟩ := List.mem_map.mp second
  have low := (ranked _ member).1
  have high := (ranked _ other).1
  omega

-- Sums, products and extremes of integers over a list of axes are those over its axes one after the other, in whatever
-- order and named from either end: both fail, or both return the same. They return if the axes are there, and if for an
-- extreme none of them is empty. A sum and a product of whatever was gathered wrap once.
theorem eval_regrouped (exact : k ≠ mean) (formed : t.WellFormed) (integer : t.dtype.layout = .integer signed bits)
    (lists : Lists t.rank given order) :
    (∀ u, k.eval name (some given) true t = .ok u ↔
      order.foldlM (fun y axis => k.eval name (some [axis]) true y) t = .ok u) ∧
    ((∃ u, k.eval name (some given) true t = .ok u) ↔ Covers k t.shape given) ∧
    ∀ u, k.eval name (some given) true t = .ok u → ∀ index ∈ u.shape.indices,
      (k = sum → u.get index = .int (DType.wrap signed bits (members (axisPlaces t.rank given) t index).sum)) ∧
      (k = prod → u.get index = .int (DType.wrap signed bits (members (axisPlaces t.rank given) t index).prod)) := by
  have numeric := DType.isNumeric_of_layout integer
  have proper := formed.proper integer
  have run (ranked : ∀ axis ∈ order, Ranked t.shape.length axis) (u : Tensor) :=
    @run_iff k t u signed bits name order [] exact proper integer numeric (fun _ => nofun) (lists.apart ranked) fun _ _ => nofun
  simp only [reduce_nil exact proper integer,List.append_nil] at run
  have whole : k.reduce (axisPlaces t.shape.length order).reverse t = k.reduce (axisPlaces t.shape.length given) t :=
    reduce_congr (fun a => List.mem_reverse.trans (lists.places a)) t
  refine ⟨fun u => ?_,⟨?_,fun covers => ⟨_,(eval_iff numeric).mpr ⟨covers,rfl⟩⟩⟩,fun u evaluated index inside => ?_⟩
  · rw [eval_iff numeric,← whole,lists.covers]
    constructor
    · rintro ⟨covers,equal⟩
      exact (run covers.ranked u).mpr ⟨covers,equal⟩
    · exact fun ran => (run (run_ranked numeric ran) u).mp ran
  · rintro ⟨u,evaluated⟩
    exact ((eval_iff numeric).mp evaluated).1
  · obtain ⟨-,rfl⟩ := (eval_iff numeric).mp evaluated
    have value := get_reduce (k := k) proper integer inside
    constructor
    · rintro rfl
      rw [value,onInts_sum]
      rfl
    · rintro rfl
      rw [value,onInts_prod]
      rfl

def grid : Tensor := ⟨.i8,[2,3,2],[.int 100,.int 7,.int 50,.int (-3),.int 9,.int 9,.int 100,.int 1,.int 1,.int 1,.int 1,.int (-128)]⟩

-- The axes are told from either end, and one of them twice.
theorem eval_regrouped_grid : grid.WellFormed ∧ Lists grid.rank [-1,0,2] [0,-1] ∧
    sum.eval "ReduceSum" (some [-1,0,2]) true grid = .ok ⟨.i8,[1,3,1],[.int (-48),.int 49,.int (-109)]⟩ ∧
    [0,-1].foldlM (fun y axis => sum.eval "ReduceSum" (some [axis]) true y) grid =
      .ok ⟨.i8,[1,3,1],[.int (-48),.int 49,.int (-109)]⟩ ∧
    -109 = DType.wrap true 8 (members (axisPlaces grid.rank [-1,0,2]) grid [0,2,0]).sum := by
  have formed : grid.WellFormed := ⟨rfl,by
    simp [grid,Scalar.Fits,DType.layout,DType.lowest,DType.highest]⟩
  have lists : Lists grid.rank [-1,0,2] [0,-1] := ⟨by decide,by simp [axisPlace,grid,Tensor.rank,or_comm]⟩
  have law := @eval_regrouped sum grid true 8 "ReduceSum" _ _ (by decide) formed rfl lists
  refine ⟨formed,lists,rfl,(law.1 _).mp rfl,?_⟩
  have last := (law.2.2 _ rfl [0,2,0] (by decide)).1 rfl
  exact Scalar.int.inj last

end Reduction

end TensorGraph
