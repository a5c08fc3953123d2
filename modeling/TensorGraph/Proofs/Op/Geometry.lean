import Mathlib.Data.Rat.Floor
import TensorGraph.Proofs.Op.Sound.Window

namespace TensorGraph
open Outcome

namespace Padding

variable {p : Padding} {n kernel stride dilation axis axes first last count : Int}

-- Whole strides that a span holds, and one more, are the number of windows whose beginnings it holds.
theorem fdiv_add_one_eq_iff (span count : Int) (positive : 0 < stride) :
    span.fdiv stride + 1 = count ↔ (count - 1) * stride ≤ span ∧ span < count * stride := by
  have low := Int.mul_ediv_self_le (x := span) (Int.ne_of_gt positive)
  have high := Int.lt_mul_ediv_self_add (x := span) positive
  rw [Int.fdiv_eq_ediv_of_nonneg _ (Int.le_of_lt positive)]
  constructor
  · rintro rfl
    rw [Int.add_sub_cancel,Int.add_mul,Int.one_mul,Int.mul_comm]
    exact ⟨low,high⟩
  · rintro ⟨within,most⟩
    have above := (Int.le_ediv_iff_mul_le positive).mpr within
    have below := (Int.ediv_lt_iff_lt_mul positive).mpr most
    omega

-- With its borders an axis has as many windows as fit, and they are counted just when one fits.
theorem compute_iff (count before after : Int) (positive : 0 < stride)
    (bordered : p.borders n kernel stride dilation axis axes = .ok (first,last)) :
    p.compute n kernel stride dilation axis axes = .ok (count,before,after) ↔
      (before = first ∧ after = last) ∧ field kernel dilation ≤ n + first + last ∧
        (count - 1) * stride + field kernel dilation ≤ n + first + last ∧
          n + first + last < count * stride + field kernel dilation := by
  have counted := fdiv_add_one_eq_iff (n + first + last - field kernel dilation) count positive
  unfold compute
  rw [bordered,ok_bind]
  dsimp only
  split
  · rename_i narrow
    exact ⟨nofun,fun ⟨_,room,_⟩ => absurd narrow (by omega)⟩
  · rename_i room
    rw [floorDiv,if_neg (Int.ne_of_gt positive),ok_bind,pure_eq_ok]
    constructor
    · intro equal
      cases equal
      have fit := counted.mp rfl
      exact ⟨⟨rfl,rfl⟩,by omega⟩
    · rintro ⟨⟨rfl,rfl⟩,-,within,most⟩
      rw [counted.mpr ⟨by omega,by omega⟩]

-- Explicit pads are given for every axis.
def Lists (p : Padding) (axes : Int) : Prop := ∀ ps, p = .explicit ps → (ps.length : Int) = 2 * axes

def Even (p : Padding) : Prop := p = .sameUpper ∨ p = .sameLower

-- As much as has to be added for a number of windows to fit, and no more.
def Needs (n width stride count total : Int) : Prop :=
  IsLeast {t : Int | 0 ≤ t ∧ (count - 1) * stride + width ≤ n + t} total

-- What a padding puts in front of an axis and behind it: nothing, the entries that are listed for the axis, or
-- what as many windows need as the extent has strides, in two halves of which the second or the first is the
-- larger.
def Adds (p : Padding) (n width stride axis axes first last : Int) : Prop :=
  match p with
  | valid => first = 0 ∧ last = 0
  | explicit ps => ps[axis.toNat]? = some first ∧ ps[(axis + axes).toNat]? = some last
  | sameUpper => Needs n width stride ⌈(n / stride : ℚ)⌉ (first + last) ∧ first ≤ last ∧ last ≤ first + 1
  | sameLower => Needs n width stride ⌈(n / stride : ℚ)⌉ (first + last) ∧ last ≤ first ∧ first ≤ last + 1

theorem ceil_eq_neg_fdiv (positive : 0 < stride) : -((-n).fdiv stride) = ⌈(n / stride : ℚ)⌉ := by
  obtain ⟨s,rfl⟩ := Int.eq_ofNat_of_zero_le (Int.le_of_lt positive)
  rw [Int.fdiv_eq_ediv_of_nonneg _ (Int.le_of_lt positive),← Rat.floor_intCast_div_natCast,Int.cast_neg,neg_div,
    Int.floor_neg,neg_neg,Int.cast_natCast]

-- The windows of which the last begins within the extent.
theorem ceil_bounds (positive : 0 < stride) :
    (⌈(n / stride : ℚ)⌉ - 1) * stride < n ∧ n ≤ ⌈(n / stride : ℚ)⌉ * stride := by
  have low := Int.mul_ediv_self_le (x := -n) (Int.ne_of_gt positive)
  have high := Int.lt_mul_ediv_self_add (x := -n) positive
  rw [← ceil_eq_neg_fdiv positive,Int.fdiv_eq_ediv_of_nonneg _ (Int.le_of_lt positive),Int.sub_mul,Int.neg_mul,
    Int.one_mul,Int.mul_comm]
  omega

theorem evenTotal_needs (n kernel dilation : Int) (positive : 0 < stride) : ∃ total,
    borders.evenTotal n kernel stride dilation = .ok total ∧
      Needs n (field kernel dilation) stride ⌈(n / stride : ℚ)⌉ total := by
  refine ⟨_,bind_ok.mpr ⟨_,if_neg (Int.ne_of_gt positive),rfl⟩,?_⟩
  rw [ceil_eq_neg_fdiv positive]
  constructor
  · exact ⟨by omega,by omega⟩
  · rintro t ⟨some,enough⟩
    omega

theorem entry_listed (ps : List Int) (axis : Int) (low : 0 ≤ axis) (high : axis < ps.length) :
    ∃ pad, entry ps axis = .ok pad ∧ ps[axis.toNat]? = some pad := by
  have inside : axis.toNat < ps.length := by omega
  refine ⟨ps[axis.toNat],?_,List.getElem?_eq_getElem inside⟩
  unfold entry
  rw [if_neg (by omega)]
  dsimp only
  rw [if_neg (by omega),List.getElem?_eq_getElem inside]

-- Unless pads are missing, it is known what is added to an axis.
theorem borders_adds (n kernel dilation : Int) (listed : p.Lists axes) (low : 0 ≤ axis) (high : axis < axes)
    (positive : 0 < stride) : ∃ first last,
    p.borders n kernel stride dilation axis axes = .ok (first,last) ∧
      p.Adds n (field kernel dilation) stride axis axes first last := by
  cases p with
  | valid => exact ⟨0,0,rfl,rfl,rfl⟩
  | explicit ps =>
    have length := listed ps rfl
    obtain ⟨first,found,entry⟩ := entry_listed ps axis low (by omega)
    obtain ⟨last,found',entry'⟩ := entry_listed ps (axis + axes) (by omega) (by omega)
    refine ⟨first,last,?_,entry,entry'⟩
    unfold borders
    dsimp only
    rw [if_neg (not_not.mpr length),found,found']
    rfl
  | sameUpper =>
    obtain ⟨total,found,needs⟩ := evenTotal_needs n kernel dilation positive
    refine ⟨_,_,bind_ok.mpr ⟨total,found,rfl⟩,?_⟩
    rw [Int.fdiv_eq_ediv_of_nonneg _ (by decide)]
    refine ⟨?_,by omega,by omega⟩
    rwa [show total / 2 + (total - total / 2) = total by omega]
  | sameLower =>
    obtain ⟨total,found,needs⟩ := evenTotal_needs n kernel dilation positive
    refine ⟨_,_,bind_ok.mpr ⟨total,found,rfl⟩,?_⟩
    rw [Int.fdiv_eq_ediv_of_nonneg _ (by decide)]
    refine ⟨?_,by omega,by omega⟩
    rwa [show total - total / 2 + total / 2 = total by omega]

-- What as many windows as the extent has strides need makes room for just as many.
theorem needs_fit {width total : Int} (some : 1 ≤ n) (positive : 1 ≤ stride) (wide : 1 ≤ width)
    (needs : Needs n width stride ⌈(n / stride : ℚ)⌉ total) : width ≤ n + total ∧
      (⌈(n / stride : ℚ)⌉ - 1) * stride + width ≤ n + total ∧ n + total < ⌈(n / stride : ℚ)⌉ * stride + width := by
  obtain ⟨⟨-,within⟩,least⟩ := needs
  obtain ⟨low,high⟩ := ceil_bounds (n := n) positive
  generalize ⌈(n / stride : ℚ)⌉ = count at *
  have counted : 1 ≤ count := by
    by_contra none
    have empty := Int.mul_nonpos_of_nonpos_of_nonneg (show count ≤ 0 by omega) (show 0 ≤ stride by omega)
    omega
  have reach := Int.mul_nonneg (show 0 ≤ count - 1 by omega) (show 0 ≤ stride by omega)
  have most : total ≤ max 0 ((count - 1) * stride + width - n) := least ⟨by omega,by omega⟩
  have next : (count - 1) * stride + stride = count * stride := by
    rw [Int.sub_mul,Int.one_mul,Int.sub_add_cancel]
  omega

theorem Adds.needs (even : p.Even) {width : Int} (adds : p.Adds n width stride axis axes first last) :
    Needs n width stride ⌈(n / stride : ℚ)⌉ (first + last) := by
  rcases even with rfl | rfl
  · exact adds.1
  · exact adds.1

theorem field_pos (cells : 1 ≤ kernel) (spread : 1 ≤ dilation) : 1 ≤ field kernel dilation := by
  have reach := Int.mul_nonneg (show 0 ≤ dilation by omega) (show 0 ≤ kernel - 1 by omega)
  unfold field
  omega

end Padding

namespace Patch

-- What a cell finds on a padded axis: a position inside it for each window, a stride apart.
def Taps (n : Int) (ws : Windows) (stride dilation : Int) (k : Nat) : Prop :=
  (visits n ws stride dilation k = (List.range ws.count.toNat).map fun y : Nat => (k * dilation + stride * y).toNat) ∧
    ((visits n ws stride dilation k).length : Int) = ws.count ∧
      ∀ a ∈ visits n ws stride dilation k, (a : Int) < n + ws.first + ws.last

theorem taps_of_compute {padding : Padding} {n kernel stride dilation axis axes : Int} {ws : Windows} {k : Nat}
    (found : padding.compute n kernel stride dilation axis axes = .ok (ws.count,ws.first,ws.last))
    (step : 1 ≤ stride) (spread : 1 ≤ dilation) (cell : (k : Int) < kernel) : Taps n ws stride dilation k := by
  obtain ⟨positions,inside,some⟩ := visits_eq found (by omega) (by omega) cell
  refine ⟨positions,?_,?_⟩
  · rw [positions,List.length_map,List.length_range,Int.toNat_of_nonneg (by omega)]
  · rw [positions,List.forall_mem_map]
    intro y member
    have late := List.mem_range.mp member
    have before : stride * y ≤ stride * (ws.count - 1) := Int.mul_le_mul_of_nonneg_left (by omega) (by omega)
    have front := Int.mul_nonneg (Int.natCast_nonneg k) (show 0 ≤ dilation by omega)
    have reach := Int.mul_nonneg (show 0 ≤ stride by omega) (Int.natCast_nonneg y)
    omega

end Patch

namespace Padding

variable {p : Padding} {n kernel stride dilation axis axes : Int}

-- The windows of an axis with these borders are as many as fit, and each cell finds a position for each of them.
structure MaximalFit (p : Padding) (n kernel stride dilation axis axes first last : Int) : Prop where
  adds : p.Adds n (field kernel dilation) stride axis axes first last
  counted : (∃ count, p.compute n kernel stride dilation axis axes = .ok (count,first,last)) ↔
    field kernel dilation ≤ n + first + last
  borders : ∀ count before after, p.compute n kernel stride dilation axis axes = .ok (count,before,after) →
    before = first ∧ after = last
  fit : ∀ count, p.compute n kernel stride dilation axis axes = .ok (count,first,last) →
    1 ≤ count ∧ (count - 1) * stride + field kernel dilation ≤ n + first + last ∧
      n + first + last < count * stride + field kernel dilation
  taps : ∀ count, p.compute n kernel stride dilation axis axes = .ok (count,first,last) →
    ∀ k : Nat, (k : Int) < kernel → Patch.Taps n ⟨count,first,last⟩ stride dilation k
  strided : p.Even → 1 ≤ n → p.compute n kernel stride dilation axis axes = .ok (⌈(n / stride : ℚ)⌉,first,last)

theorem compute_maximalFit (listed : p.Lists axes) (low : 0 ≤ axis) (high : axis < axes) (cells : 1 ≤ kernel)
    (step : 1 ≤ stride) (spread : 1 ≤ dilation) :
    ∃ first last, p.MaximalFit n kernel stride dilation axis axes first last := by
  have positive : 0 < stride := by omega
  obtain ⟨first,last,bordered,adds⟩ := borders_adds n kernel dilation listed low high positive
  have computed := fun count before after => compute_iff count before after positive bordered
  refine ⟨first,last,?_⟩
  constructor
  case adds => exact adds
  case counted =>
    constructor
    · rintro ⟨count,found⟩
      exact ((computed _ _ _).mp found).2.1
    · intro room
      have fit := (fdiv_add_one_eq_iff (n + first + last - field kernel dilation) _ positive).mp rfl
      exact ⟨(n + first + last - field kernel dilation).fdiv stride + 1,
        (computed _ _ _).mpr ⟨⟨rfl,rfl⟩,room,by omega,by omega⟩⟩
  case borders => exact fun count before after found => ((computed _ _ _).mp found).1
  case fit =>
    intro count found
    obtain ⟨-,room,within,most⟩ := (computed _ _ _).mp found
    have beyond : 0 < count * stride := by omega
    exact ⟨pos_of_mul_pos_left beyond positive.le,within,most⟩
  case taps => exact fun count found k cell => Patch.taps_of_compute found step spread cell
  case strided =>
    intro even some
    have fit := needs_fit some step (field_pos cells spread) (adds.needs even)
    rw [← Int.add_assoc] at fit
    exact (computed _ _ _).mpr ⟨⟨rfl,rfl⟩,fit⟩

-- The windows counted on an axis are all that fit into it with its borders, and where they are those of an image,
-- every cell finds a position for each of them in either direction.
theorem windows_maximal :
    (∀ (p : Padding) (n kernel stride dilation axis axes : Int), p.Lists axes → 0 ≤ axis → axis < axes →
      1 ≤ kernel → 1 ≤ stride → 1 ≤ dilation →
        ∃ first last, p.MaximalFit n kernel stride dilation axis axes first last) ∧
    ∀ (p : Patch) (rows columns : Nat) (down along : Windows), 1 ≤ p.strides.1 → 1 ≤ p.strides.2 →
      1 ≤ p.dilations.1 → 1 ≤ p.dilations.2 → p.outputPair rows columns = .ok (down,along) →
      ∀ i j, (i,j) ∈ p.cells → Patch.Taps rows down p.strides.1 p.dilations.1 i ∧
        Patch.Taps columns along p.strides.2 p.dilations.2 j := by
  refine ⟨fun p n kernel stride dilation axis axes => compute_maximalFit,?_⟩
  intro p rows columns down along stepRows stepColumns spreadRows spreadColumns found i j cell
  obtain ⟨rowWindows,columnWindows⟩ := Patch.outputPair_parts found
  obtain ⟨row,column⟩ := Patch.mem_cells cell
  exact ⟨Patch.taps_of_compute rowWindows stepRows spreadRows row,
    Patch.taps_of_compute columnWindows stepColumns spreadColumns column⟩

-- Two windows of three cells, four apart, need one element behind an extent of six.
theorem windows_maximal_upper : compute .sameUpper 6 3 4 1 0 2 = .ok (2,0,1) ∧
    MaximalFit .sameUpper 6 3 4 1 0 2 0 1 ∧ Patch.Taps 6 ⟨2,0,1⟩ 4 1 2 := by
  have computed : compute .sameUpper 6 3 4 1 0 2 = .ok (2,0,1) := rfl
  obtain ⟨first,last,most⟩ := windows_maximal.1 .sameUpper 6 3 4 1 0 2 nofun (by decide) (by decide)
    (by decide) (by decide) (by decide)
  obtain ⟨rfl,rfl⟩ := most.borders 2 0 1 computed
  exact ⟨computed,most,most.taps 2 computed 2 (by decide)⟩

example : compute .sameLower 6 3 4 1 0 2 = .ok (2,1,0) := rfl

end Padding
end TensorGraph
