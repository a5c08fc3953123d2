import TensorGraph.Proofs.Shape.Stretch
import TensorGraph.Tensor.Broadcast

namespace TensorGraph
open Outcome

namespace Shape

variable {s m r : Shape} {index : List Nat}

-- Aligned at their last axes, an extent is 1 or that of the other shape.
def Spans (s r : Shape) : Prop := ∃ front back, r = front ++ back ∧ List.Forall₂ (fun n k => n = 1 ∨ n = k) s back

theorem mem_indices : index ∈ indices s ↔ List.Forall₂ (· < ·) index s := by
  induction s generalizing index with
  | nil => simp [indices]
  | cons n s ih =>
    simp only [indices,List.mem_flatMap,List.mem_range,List.mem_map,ih]
    constructor
    · rintro ⟨i,below,rest,inside,rfl⟩
      exact .cons below inside
    · intro related
      cases related with
      | cons below inside => exact ⟨_,below,_,inside,rfl⟩

-- The indices stand in the order of their offsets.
theorem offset_of_getElem? {k : Nat} (found : (indices s)[k]? = some index) : offset s index = k := by
  induction s generalizing index k with
  | nil =>
    obtain ⟨inside,rfl⟩ := List.getElem?_eq_some_iff.mp found
    exact (Nat.lt_one_iff.mp inside).symm
  | cons n s ih =>
    have inside : k < n * size s := by
      have below := (List.getElem?_eq_some_iff.mp found).1
      rwa [length_indices] at below
    have some : 0 < size s := Nat.pos_of_mul_pos_left (Nat.lt_of_le_of_lt (Nat.zero_le k) inside)
    rw [← Nat.div_add_mod' k (size s),indices,getElem?_flatMap_of_length _ _ _ _ _
      (fun x _ => by rw [List.length_map,length_indices]) (Nat.mod_lt k some)] at found
    obtain ⟨i,row,found⟩ := Option.bind_eq_some_iff.mp found
    rw [List.getElem?_map,Option.map_eq_some_iff] at found
    obtain ⟨rest,column,rfl⟩ := found
    obtain ⟨_,rfl⟩ := List.getElem?_eq_some_iff.mp row
    rw [offset,ih column,List.getElem_range,Nat.div_add_mod']

theorem Spans.refl (s : Shape) : s.Spans s := ⟨[],s,rfl,List.forall₂_same.mpr fun _ _ => .inr rfl⟩

theorem Spans.trans (first : s.Spans m) (second : m.Spans r) : s.Spans r := by
  obtain ⟨front,back,rfl,near⟩ := first
  obtain ⟨outer,_,rfl,far⟩ := second
  obtain ⟨xs,ys,rfl,-,far⟩ := forall₂_append_left far
  refine ⟨outer ++ xs,ys,(List.append_assoc ..).symm,forall₂_trans near far ?_⟩
  rintro n k l (one | rfl) next
  · exact .inl one
  · exact next

theorem spans_of_lead {j : Nat} (near : List.Forall₂ (fun n k => n = 1 ∨ n = k) (lead j s) r) : s.Spans r := by
  obtain ⟨front,back,rfl,-,near⟩ := forall₂_append_left near
  exact ⟨front,back,rfl,near⟩

theorem spans_of_broadcast? (met : broadcast? s m = some r) : s.Spans r ∧ m.Spans r := by
  have related := mapM_some.mp met
  have lengths : (lead (max s.length m.length) s).length = (lead (max s.length m.length) m).length := by
    rw [length_lead (Nat.le_max_left ..),length_lead (Nat.le_max_right ..)]
  constructor
  · refine spans_of_lead (j := max s.length m.length) ?_
    rw [← List.map_fst_zip (Nat.le_of_eq lengths)]
    exact List.forall₂_map_left_iff.mpr (related.imp fun p k met => (stretch?_some met).1)
  · refine spans_of_lead (j := max s.length m.length) ?_
    rw [← List.map_snd_zip (Nat.le_of_eq lengths.symm)]
    exact List.forall₂_map_left_iff.mpr (related.imp fun p k met => (stretch?_some met).2.1)

-- The coordinate along an axis that may have been stretched.
def coordinate (n i : Nat) : Nat := if n = 1 then 0 else i

theorem source_append {front back : List Nat} (length : back.length = s.length) :
    source s (front ++ back) = List.zipWith coordinate s back := by
  have cut : (front ++ back).length - s.length = front.length := by
    rw [List.length_append]
    omega
  rw [source,cut,List.drop_left]
  rfl

theorem coordinate_lt {n k i : Nat} (meets : n = 1 ∨ n = k) (below : i < k) : coordinate n i < n := by
  unfold coordinate
  split
  · omega
  · rename_i other
    exact meets.resolve_left other ▸ below

theorem coordinate_twice {n k : Nat} (meets : n = 1 ∨ n = k) (i : Nat) :
    coordinate n (coordinate k i) = coordinate n i := by
  unfold coordinate
  rcases meets with rfl | rfl
  · rfl
  · split <;> rfl

theorem coordinates_within {back js : List Nat} (near : List.Forall₂ (fun n k => n = 1 ∨ n = k) s back)
    (inside : List.Forall₂ (· < ·) js back) : List.Forall₂ (· < ·) (List.zipWith coordinate s js) s := by
  induction near generalizing js with
  | nil => exact .nil
  | cons meets _ ih =>
    cases inside with
    | cons below inside => exact .cons (coordinate_lt meets below) (ih inside)

theorem coordinates_twice {back : List Nat} (near : List.Forall₂ (fun n k => n = 1 ∨ n = k) s back) (js : List Nat) :
    List.zipWith coordinate s (List.zipWith coordinate back js) = List.zipWith coordinate s js := by
  induction near generalizing js with
  | nil => rfl
  | cons meets _ ih =>
    cases js with
    | nil => rfl
    | cons i js => rw [List.zipWith_cons_cons,List.zipWith_cons_cons,List.zipWith_cons_cons,ih,coordinate_twice meets]

-- An index of the larger shape has its element in the smaller one.
theorem Spans.source_mem (spans : s.Spans r) (inside : index ∈ indices r) : source s index ∈ indices s := by
  obtain ⟨front,back,rfl,near⟩ := spans
  obtain ⟨is,js,rfl,-,inside⟩ := forall₂_append_right (mem_indices.mp inside)
  rw [source_append (inside.length_eq.trans near.length_eq.symm)]
  exact mem_indices.mpr (coordinates_within near inside)

theorem source_self (inside : index ∈ indices s) : source s index = index := by
  have related := mem_indices.mp inside
  rw [← List.nil_append index,source_append related.length_eq,List.nil_append]
  clear inside
  induction related with
  | nil => rfl
  | @cons i n index s below _ ih =>
    have same : coordinate n i = i := by
      unfold coordinate
      split <;> omega
    rw [List.zipWith_cons_cons,ih,same]

-- It does not matter in how many steps a shape stretches.
theorem Spans.source_source (first : s.Spans m) (second : m.Spans r) (inside : index ∈ indices r) :
    source s (source m index) = source s index := by
  obtain ⟨front,back,rfl,near⟩ := first
  obtain ⟨outer,_,rfl,far⟩ := second
  obtain ⟨xs,ys,rfl,before,after⟩ := forall₂_append_left far
  obtain ⟨is,_,rfl,-,inside⟩ := forall₂_append_right (mem_indices.mp inside)
  obtain ⟨js,ks,rfl,middle,last⟩ := forall₂_append_right inside
  have backs : ks.length = back.length := last.length_eq.trans after.length_eq.symm
  have fronts : front.length = js.length := before.length_eq.trans middle.length_eq.symm
  rw [source_append (by rw [List.length_append,List.length_append,fronts,backs]),List.zipWith_append fronts,
    source_append (by rw [List.length_zipWith,backs,Nat.min_self,near.length_eq]),← List.append_assoc,
    source_append (backs.trans near.length_eq.symm)]
  exact coordinates_twice near ks

end Shape

-- Of a function only the values at the indices of the shape matter.
theorem Tensor.tabulate_congr {dtype : DType} {shape : Shape} {f g : List Nat → Scalar}
    (agree : ∀ index ∈ shape.indices, f index = g index) : tabulate dtype shape f = tabulate dtype shape g :=
  congrArg (Tensor.mk dtype shape) (List.map_congr_left agree)

-- A tensor with an element for each index is the table of its elements.
theorem Tensor.data_eq {t : Tensor} (size : t.data.length = t.shape.size) : t.data = t.shape.indices.map t.get := by
  refine List.ext_getElem? fun k => ?_
  rw [List.getElem?_map]
  cases found : t.shape.indices[k]? with
  | none =>
    rw [List.getElem?_eq_none_iff,Shape.length_indices,← size] at found
    exact List.getElem?_eq_none found
  | some index =>
    have inside := (List.getElem?_eq_some_iff.mp found).1
    rw [Shape.length_indices,← size] at inside
    rw [Option.map_some,get,Shape.offset_of_getElem? found,List.getD_eq_getElem?_getD,List.getElem?_eq_getElem inside]
    rfl

end TensorGraph
