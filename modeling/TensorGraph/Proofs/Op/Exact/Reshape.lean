import TensorGraph.Proofs.Fact.Exact
import TensorGraph.Proofs.Op.Sound.Reshape

namespace TensorGraph
open Outcome Facts

theorem ShapeFact.extents_ofShape (s : Shape) : (ofShape s).filterMap Dim.extent? = s := by
  rw [ofShape,List.filterMap_map]
  exact List.filterMap_some

theorem ShapeFact.closed_ofShape (s : Shape) : (ofShape s).any Dim.isUnknown = false := by
  simp [ofShape,Dim.isUnknown]

theorem ShapeFact.known_ofShape (s : Shape) : ¬ (ofShape s).any Dim.isUnknown = true := by
  rw [closed_ofShape]
  exact Bool.false_ne_true

theorem ShapeFact.streams_ofShape (s : Shape) : (ofShape s).countP Dim.isStreaming = 0 := by
  simp [ofShape,Dim.isStreaming]

namespace Reshape

variable {t u : Tensor} {own : Option (List Int)} {target copied : List Int} {shape : Shape} {w : Int}

theorem copyExtents_bounded {k : Nat} (found : copyExtents shape k target = .ok copied) :
    ∀ d ∈ target, -1 ≤ d := by
  induction target generalizing k copied with
  | nil => exact nofun
  | cons d ds ih =>
    rw [copyExtents_cons] at found
    obtain ⟨c,first,found⟩ := bind_ok.mp found
    obtain ⟨cs,others,-⟩ := bind_ok.mp found
    refine List.forall_mem_cons.mpr ⟨?_,ih others⟩
    unfold copyExtent at first
    split at first
    · omega
    · split at first
      · cases first
      · omega

theorem eval_checked {form : Option Tensor} (evaluated : eval own t form = .ok u)
    (chosen : Reshape.target own form = .ok target) :
    target.count (-1) ≤ 1 ∧ ∀ d ∈ target, -1 ≤ d := by
  obtain ⟨ds,again,evaluated⟩ := bind_ok.mp evaluated
  cases chosen.symm.trans again
  obtain ⟨dims,resolved,-⟩ := bind_ok.mp evaluated
  unfold resolve at resolved
  split at resolved
  · cases resolved
  · obtain ⟨_,copies,-⟩ := bind_ok.mp resolved
    exact ⟨by omega,copyExtents_bounded copies⟩

theorem copied_entry (copies : List.Forall₂ (Copied shape) target.zipIdx copied) {i : Nat} {c : Int}
    (entry : copied[i]? = some c) : ∃ d, target[i]? = some d ∧ Copied shape (d,i) c := by
  obtain ⟨⟨d,j⟩,place,copy⟩ := forall₂_getElem? copies entry
  rw [List.getElem?_zipIdx,Option.map_eq_some_iff] at place
  obtain ⟨_,there,pair⟩ := place
  cases pair
  rw [Nat.zero_add] at copy
  exact ⟨d,there,copy⟩

theorem Copied.bounded {p : Int × Nat} {c : Int} (copy : Copied shape p c) (bounded : -1 ≤ p.1) : -1 ≤ c := by
  unfold Copied at copy
  split at copy
  · obtain ⟨n,-,rfl⟩ := copy
    omega
  · rwa [copy]

theorem Copied.minus {p : Int × Nat} (copy : Copied shape p (-1)) : p.1 = -1 := by
  unfold Copied at copy
  split at copy
  · obtain ⟨n,-,equal⟩ := copy
    omega
  · exact copy.symm

theorem open_of_copied (copies : List.Forall₂ (Copied shape) target.zipIdx copied) (member : -1 ∈ copied) :
    target.contains (-1) = true := by
  obtain ⟨i,entry⟩ := List.mem_iff_getElem?.mp member
  obtain ⟨d,there,copy⟩ := copied_entry copies entry
  cases copy.minus
  exact List.contains_iff_mem.mpr (List.mem_of_getElem? there)

theorem copied_bounded (copies : List.Forall₂ (Copied shape) target.zipIdx copied)
    (bounded : ∀ d ∈ target, -1 ≤ d) : ∀ c ∈ copied, -1 ≤ c := by
  intro c member
  obtain ⟨i,entry⟩ := List.mem_iff_getElem?.mp member
  obtain ⟨d,there,copy⟩ := copied_entry copies entry
  exact copy.bounded (bounded d (List.mem_of_getElem? there))

-- Only the place of -1 in the target is left open.
theorem copied_split (copies : List.Forall₂ (Copied shape) target.zipIdx copied) (once : target.count (-1) ≤ 1)
    (open_ : target.contains (-1) = true) : ∃ front back, copied = front ++ -1 :: back ∧ -1 ∉ front ∧
      -1 ∉ back ∧ front.length = target.idxOf (-1) := by
  obtain ⟨inside,slot⟩ := List.getElem?_eq_some_iff.mp (copied_slot copies open_)
  have only : ∀ i : Nat, copied[i]? = some (-1) → i = target.idxOf (-1) := by
    intro i entry
    obtain ⟨d,there,copy⟩ := copied_entry copies entry
    cases copy.minus
    by_contra apart
    have twice : -1 ∈ target.eraseIdx (target.idxOf (-1)) := List.mem_eraseIdx_iff_getElem?.mpr ⟨i,apart,there⟩
    rw [List.eraseIdx_idxOf_eq_erase] at twice
    have more := List.count_pos_iff.mpr twice
    rw [List.count_erase_self] at more
    omega
  refine ⟨copied.take (target.idxOf (-1)),copied.drop (target.idxOf (-1) + 1),?_,?_,?_,?_⟩
  · have parts := List.drop_eq_getElem_cons inside
    rw [slot] at parts
    rw [← parts,List.take_append_drop]
  · intro member
    obtain ⟨i,before,entry⟩ := List.mem_take_iff_getElem.mp member
    have place := only i (List.getElem?_eq_some_iff.mpr ⟨_,entry⟩)
    omega
  · intro member
    obtain ⟨i,after,entry⟩ := List.mem_drop_iff_getElem.mp member
    have place := only _ (List.getElem?_eq_some_iff.mpr ⟨_,entry⟩)
    omega
  · rw [List.length_take]
    omega

-- The extents that a target gives before the open one is counted.
def sketch (copied : List Int) : ShapeFact := copied.map fun c => if c = -1 then .unknown else .known c.toNat

theorem outline_exact (copies : List.Forall₂ (Copied shape) target.zipIdx copied)
    (bounded : ∀ d ∈ target, -1 ≤ d) : outline (some (.ofShape shape)) target = .ok (sketch copied) := by
  rw [outline,sketch,mapM_ok,List.forall₂_map_right_iff]
  refine (forall₂_mem copies).imp ?_
  rintro ⟨d,i⟩ c ⟨member,copy⟩
  have low := bounded d (List.mem_of_getElem? (List.mem_zipIdx_iff_getElem?.mp member))
  unfold Copied at copy
  dsimp only at copy ⊢
  split at copy
  · rename_i zero
    obtain ⟨n,entry,rfl⟩ := copy
    rw [if_pos zero,if_neg (by omega)]
    simp [ShapeFact.ofShape,entry]
  · rename_i other
    subst copy
    rw [if_neg other]
    split
    · rfl
    · exact if_pos (by omega)

theorem sketch_closed (w : Int) (closed : -1 ∉ copied) : sketch copied = ShapeFact.ofShape (fill w copied) := by
  rw [sketch,fill,ShapeFact.ofShape,List.map_map]
  refine List.map_congr_left fun c member => ?_
  have apart := ne_of_mem_of_not_mem member closed
  simp [apart]

theorem sketch_open {front back : List Int} (w : Int) (before : -1 ∉ front) (after : -1 ∉ back) :
    sketch (front ++ -1 :: back) =
      ShapeFact.ofShape (fill w front) ++ .unknown :: ShapeFact.ofShape (fill w back) := by
  rw [← sketch_closed w before,← sketch_closed w after]
  simp [sketch]

theorem sketch_others {front back : List Int} (w : Int) (before : -1 ∉ front) (after : -1 ∉ back) :
    (sketch (front ++ -1 :: back)).eraseIdx front.length = ShapeFact.ofShape (fill w (front ++ back)) := by
  have length : front.length = (ShapeFact.ofShape (fill w front)).length := by simp [ShapeFact.ofShape,fill]
  rw [sketch_open w before after,length,List.eraseIdx_append_of_length_le (Nat.le_refl _)]
  simp [ShapeFact.ofShape,fill]

theorem sketch_filled {front back : List Int} (w : Int) (before : -1 ∉ front) (after : -1 ∉ back) :
    (sketch (front ++ -1 :: back)).set front.length (.known w.toNat) =
      ShapeFact.ofShape (fill w (front ++ -1 :: back)) := by
  have length : front.length = (ShapeFact.ofShape (fill w front)).length := by simp [ShapeFact.ofShape,fill]
  rw [sketch_open w before after,length,List.set_append_right _ _ (Nat.le_refl _)]
  simp [ShapeFact.ofShape,fill]

theorem fill_size {front back : List Int} (w : Int) :
    (fill w (front ++ -1 :: back)).size = w.toNat * (fill w (front ++ back)).size := by
  have entry : (fill w (front ++ -1 :: back))[front.length]? = some w.toNat := by simp [fill]
  rw [Shape.size_eraseIdx entry]
  simp [fill,List.eraseIdx_append_of_length_le]

-- All other extents are positive where one is left open.
theorem others_positive {front back : List Int} (nonzero : ∀ c ∈ front ++ -1 :: back, c ≠ -1 → c ≠ 0)
    (bounded : ∀ c ∈ front ++ -1 :: back, -1 ≤ c) (before : -1 ∉ front) (after : -1 ∉ back) (w : Int) :
    ∀ n ∈ fill w (front ++ back), n ≠ 0 := by
  refine List.forall_mem_map.mpr fun c member => ?_
  have apart : c ≠ -1 := ne_of_mem_of_not_mem member (by simp [before,after])
  have inside : c ∈ front ++ -1 :: back := by
    simp only [List.mem_append,List.mem_cons] at member ⊢
    exact member.imp_right .inr
  have other := nonzero c inside apart
  have low := bounded c inside
  rw [if_neg apart]
  omega

-- The extent in the open place is what the others leave of the input's size.
theorem inferDims_exact (copies : List.Forall₂ (Copied shape) target.zipIdx copied)
    (nonzero : -1 ∈ copied → ∀ c ∈ copied, c ≠ -1 → c ≠ 0) (size : (fill w copied).size = shape.size)
    (once : target.count (-1) ≤ 1) (bounded : ∀ d ∈ target, -1 ≤ d) :
    inferDims (some (.ofShape shape)) target = .ok (.ofShape (fill w copied)) := by
  refine bind_ok.mpr ⟨_,outline_exact copies bounded,?_⟩
  dsimp only
  rw [if_neg (ShapeFact.known_ofShape shape)]
  by_cases open_ : target.contains (-1) = true
  · obtain ⟨front,back,rfl,before,after,slot⟩ := copied_split copies once open_
    have positive : 0 < (fill w (front ++ back)).size :=
      Shape.size_pos (others_positive (nonzero (by simp)) (copied_bounded copies bounded) before after w)
    rw [if_neg (by simpa using open_),← slot,sketch_others w before after,if_neg (ShapeFact.known_ofShape _),
      ShapeFact.extents_ofShape,ShapeFact.extents_ofShape,ShapeFact.streams_ofShape,ShapeFact.streams_ofShape,
      if_pos rfl,← size,fill_size,Nat.mul_mod_left,Nat.mul_div_cancel _ positive,if_neg,
      sketch_filled w before after]
    · rfl
    · simpa using positive.ne'
  · have closed : -1 ∉ copied := fun member => open_ (open_of_copied copies member)
    rw [if_pos (by simpa using open_),sketch_closed w closed,ShapeFact.product_ofShape,
      ShapeFact.product_ofShape]
    exact if_neg (not_not.mpr size.symm)

theorem dims_exact {form : Option Tensor} (evaluated : eval own t form = .ok u)
    (chosen : Reshape.target own form = .ok target) :
    inferDims (some (.ofShape t.shape)) target = .ok (.ofShape u.shape) := by
  obtain ⟨ds,copied,w,again,copies,nonzero,-,shape,size⟩ := eval_parts evaluated
  cases chosen.symm.trans again
  obtain ⟨once,bounded⟩ := eval_checked evaluated chosen
  rw [shape]
  exact inferDims_exact copies nonzero (shape ▸ size) once bounded

theorem target_own (chosen : Reshape.target own none = .ok target) : own = some target := by
  cases own with
  | none => cases chosen
  | some _ =>
    cases chosen
    rfl

end Reshape

end TensorGraph
