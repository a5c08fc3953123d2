import TensorGraph.Proofs.Op.Exact.Reshape
import TensorGraph.Proofs.Op.Meets.Elementwise

namespace TensorGraph
open Outcome Facts

theorem DType.wrap_word {n : Nat} (small : n < 2 ^ 63) : DType.wrap true 64 n = n := by
  unfold wrap
  rw [if_pos rfl]
  exact Int.bmod_eq_of_le (by simp) (by simp; omega)

namespace Reshape

variable {ins : Facts} {out : Fact} {r : Facts × Facts} {t u : Tensor} {own : Option (List Int)}
  {target copied : List Int} {shape : Shape} {dims : ShapeFact}

-- The extent that a place of a target states, or copies from an input of the shape; none at -1.
def stating (shape : Shape) (p : Int × Nat) : Option Nat :=
  if p.1 = -1 then none else some (if p.1 = 0 then shape.getD p.2 0 else p.1.toNat)

def stated (shape : Shape) (target : List Int) : Shape := target.zipIdx.filterMap (stating shape)

-- A target leaves at most one place open, copies extents that are there, and leaves over what can be counted.
structure Suits (shape : Shape) (target : List Int) : Prop where
  once : target.count (-1) ≤ 1
  copies : ∀ i, target[i]? = some 0 → i < shape.length
  counted : -1 ∈ target → shape.size < 2 ^ 63 ∧ (stated shape target).size < 2 ^ 63

theorem foldl_product (s : Shape) (k : Int) : (s.map Int.ofNat).foldl (· * ·) k = k * s.size := by
  induction s generalizing k with
  | nil => simp [Shape.size]
  | cons n s ih =>
    rw [List.map_cons,List.foldl_cons,ih,Shape.size]
    rw [Int.ofNat_eq_natCast]
    push_cast
    ring

theorem wordProduct_matched (ns : List Int) : Matched (wordProduct ns) := by
  unfold wordProduct
  split
  · exact matched_fail rfl
  · exact matched_ok _

theorem wordProduct_size {s : Shape} {k : Int} (found : wordProduct (s.map Int.ofNat) = .ok k) :
    k = DType.wrap true 64 s.size := by
  unfold wordProduct at found
  split at found
  · cases found
  · cases found
    rw [foldl_product,Int.one_mul]

theorem copyExtents_total {k : Nat} (bounded : ∀ d ∈ target, -1 ≤ d)
    (copies : ∀ i, target[i]? = some 0 → k + i < shape.length) : ∃ copied, copyExtents shape k target = .ok copied := by
  induction target generalizing k with
  | nil => exact ⟨[],rfl⟩
  | cons d ds ih =>
    obtain ⟨low,later⟩ := List.forall_mem_cons.mp bounded
    obtain ⟨cs,rest⟩ := ih (k := k + 1) later fun i zero => by
      have inside := copies (i + 1) (by simpa using zero)
      omega
    have first : ∃ c, copyExtent shape k d = .ok c := by
      unfold copyExtent
      split
      · rename_i zero
        have inside := copies 0 (by simp [zero])
        rw [Shape.entry_within (by omega)]
        exact ⟨_,rfl⟩
      · rw [if_neg (by omega)]
        exact ⟨d,rfl⟩
    obtain ⟨c,first⟩ := first
    exact ⟨c :: cs,by rw [copyExtents_cons,first,ok_bind,rest,ok_bind]⟩

theorem copied_stating {ps : List (Int × Nat)} (copies : List.Forall₂ (Copied shape) ps copied)
    (bounded : ∀ p ∈ ps, -1 ≤ p.1) : copied.filter (· != -1) = (ps.filterMap (stating shape)).map Int.ofNat := by
  induction copies with
  | nil => rfl
  | @cons p c ps cs copy _ ih =>
    obtain ⟨low,later⟩ := List.forall_mem_cons.mp bounded
    specialize ih later
    by_cases open_ : c = -1
    · subst open_
      have none : stating shape p = none := if_pos copy.minus
      rw [List.filter_cons,if_neg (by simp),ih,List.filterMap_cons,none]
    · have here : stating shape p = some c.toNat := by
        unfold Copied at copy
        unfold stating
        split at copy
        · rename_i zero
          obtain ⟨n,entry,rfl⟩ := copy
          rw [if_neg (by omega),if_pos zero,List.getD_eq_getElem?_getD,entry]
          rfl
        · rename_i other
          subst copy
          rw [if_neg open_,if_neg other]
      have extent : Int.ofNat c.toNat = c := Int.toNat_of_nonneg (by have := copy.bounded low; omega)
      rw [List.filter_cons,if_pos (by simpa using open_),ih,List.filterMap_cons,here,List.map_cons,extent]

-- What the rule makes sure of for the target of a known shape.
theorem outline_bounded {o : ShapeFact} {input : Option ShapeFact} (found : outline input target = .ok o) :
    ∀ d ∈ target, -1 ≤ d := by
  intro d member
  obtain ⟨i,entry⟩ := List.mem_iff_getElem?.mp member
  obtain ⟨e,-,read⟩ := forall₂_left (mapM_ok.mp found) (d,i) (List.mem_zipIdx_iff_getElem?.mpr entry)
  dsimp only at read
  split at read
  · omega
  · split at read
    · omega
    · unfold Dim.ofInt at read
      split at read
      · omega
      · cases read

theorem fill_stated {w : Int} {cs : List Int} {s : Shape} (equal : cs = s.map Int.ofNat) : fill w cs = s := by
  rw [equal,fill,List.map_map]
  exact (List.map_congr_left fun n _ => toNat_copied (n := n) (w := w)).trans (List.map_id s)

theorem filter_open {front back : List Int} (before : -1 ∉ front) (after : -1 ∉ back) :
    (front ++ -1 :: back).filter (· != -1) = front ++ back := by
  rw [List.filter_append,List.filter_cons,if_neg (by simp),List.filter_eq_self.mpr,List.filter_eq_self.mpr]
  · exact fun c member => bne_iff_ne.mpr (ne_of_mem_of_not_mem member after)
  · exact fun c member => bne_iff_ne.mpr (ne_of_mem_of_not_mem member before)

-- A closed target has as many elements as the input.
theorem inferDims_closed (copies : List.Forall₂ (Copied shape) target.zipIdx copied)
    (closed : ¬ target.contains (-1) = true) (bounded : ∀ d ∈ target, -1 ≤ d)
    (found : inferDims (some (.ofShape shape)) target = .ok dims) : shape.size = (fill 0 copied).size := by
  obtain ⟨o,outlined,found⟩ := bind_ok.mp found
  cases (outline_exact copies bounded).symm.trans outlined
  dsimp only at found
  rw [if_neg (ShapeFact.known_ofShape shape),if_pos (by simpa using closed),
    sketch_closed 0 fun member => closed (open_of_copied copies member),ShapeFact.product_ofShape,
    ShapeFact.product_ofShape] at found
  dsimp only at found
  split at found
  · cases found
  · rename_i same
    exact not_not.mp same

-- An open one divides them.
theorem inferDims_divides (copies : List.Forall₂ (Copied shape) target.zipIdx copied)
    (once : target.count (-1) ≤ 1) (open_ : target.contains (-1) = true) (bounded : ∀ d ∈ target, -1 ≤ d)
    (found : inferDims (some (.ofShape shape)) target = .ok dims) :
    (fill 0 (copied.filter (· != -1))).size ≠ 0 ∧ shape.size % (fill 0 (copied.filter (· != -1))).size = 0 := by
  obtain ⟨front,back,rfl,before,after,slot⟩ := copied_split copies once open_
  obtain ⟨o,outlined,found⟩ := bind_ok.mp found
  cases (outline_exact copies bounded).symm.trans outlined
  dsimp only at found
  rw [if_neg (ShapeFact.known_ofShape shape),if_neg (by simpa using open_),← slot,sketch_others 0 before after,
    if_neg (ShapeFact.known_ofShape _),ShapeFact.extents_ofShape,ShapeFact.extents_ofShape,
    ShapeFact.streams_ofShape,ShapeFact.streams_ofShape,if_pos rfl] at found
  rw [filter_open before after]
  split at found
  · cases found
  · rename_i divides
    simpa using divides

theorem resolve_matched (suits : Suits shape target) (found : inferDims (some (.ofShape shape)) target = .ok dims) :
    Matched (resolve shape target) := by
  obtain ⟨o,outlined,-⟩ := bind_ok.mp found
  have bounded := outline_bounded outlined
  obtain ⟨copied,copying⟩ := copyExtents_total (k := 0) bounded fun i zero => by
    rw [Nat.zero_add]
    exact suits.copies i zero
  have copies := copyExtents_ok copying
  have others : copied.filter (· != -1) = (stated shape target).map Int.ofNat :=
    copied_stating copies fun p member => bounded p.1 (List.mem_of_getElem? (List.mem_zipIdx_iff_getElem?.mp member))
  unfold resolve
  rw [if_neg (Nat.not_lt.mpr suits.once)]
  refine matched_bind copying ((wordProduct_matched _).bind fun total sized => (wordProduct_matched _).bind
    fun known product => ?_)
  rw [wordProduct_size sized]
  rw [others] at product
  rw [wordProduct_size product]
  by_cases open_ : target.contains (-1) = true
  · obtain ⟨few,small⟩ := suits.counted (List.contains_iff_mem.mp open_)
    obtain ⟨some,divides⟩ := inferDims_divides copies suits.once open_ bounded found
    rw [fill_stated others] at some divides
    have slot : copied.contains (-1) = true := List.contains_iff_mem.mpr (List.mem_of_getElem? (copied_slot copies open_))
    have fits : ¬ (((stated shape target).size : Int) = 0 ||
        (shape.size : Int).fmod (stated shape target).size != 0) = true := by
      have whole : (shape.size : Int).fmod (stated shape target).size = 0 := by
        rw [Int.fmod_eq_emod_of_nonneg _ (Int.natCast_nonneg _),← Int.natCast_emod,divides]
        rfl
      simpa [whole] using some
    rw [if_pos slot,DType.wrap_word few,DType.wrap_word small,if_neg fits]
    exact matched_ok _
  · have closed : copied.filter (· != -1) = copied := List.filter_eq_self.mpr fun c member =>
      bne_iff_ne.mpr fun minus => open_ (open_of_copied copies (minus ▸ member))
    have size := inferDims_closed copies open_ bounded found
    rw [fill_stated (closed.symm.trans others)] at size
    have slot : ¬ copied.contains (-1) = true := fun member =>
      open_ (open_of_copied copies (List.contains_iff_mem.mp member))
    rw [if_neg slot,size,if_neg (by simp)]
    exact matched_ok _

theorem apply_matched (t : Tensor) (dims : List Int) : Matched (apply t dims) := by
  unfold apply
  dsimp only
  repeat' split
  all_goals first
    | exact matched_ok _
    | exact matched_fail rfl

theorem conclude_meets {form : Option Tensor} {fs : Facts} (chosen : Reshape.target own form = .ok target)
    (suits : Suits t.shape target) (typed : out.dtype = some t.dtype)
    (found : conclude (some (.ofShape t.shape)) fs out (some target) = .ok r) : Meets (eval own t form) r.2 := by
  obtain ⟨dims,inferred,found⟩ := bind_ok.mp found
  obtain ⟨p,shaped,equal⟩ := bind_ok.mp found
  cases equal
  refine meets_one ?_ fun u ran => ?_
  · exact matched_bind chosen ((resolve_matched suits inferred).bind fun _ _ => apply_matched _ _)
  · obtain ⟨_,_,_,-,-,-,dtype,-,-⟩ := eval_parts ran
    cases inferred.symm.trans (dims_exact ran chosen)
    exact Fact.withDims_tells shaped (dtype ▸ typed) rfl

-- The output has the element type of the data, whatever else comes in.
theorem passType_typed {x : Fact} {fs : Facts} {p : Facts × Fact} (input : x.Tells t)
    (found : passType (x :: fs) out = .ok p) : p.1 = x :: fs ∧ p.2.dtype = some t.dtype := by
  unfold passType at found
  dsimp only [Facts.first,List.headD_cons] at found
  rw [input.dtype] at found
  obtain ⟨o,typed,equal⟩ := bind_ok.mp found
  cases equal
  exact ⟨rfl,Fact.withDType_exact typed⟩

-- The target is the operator's own.
theorem infer_meets (suits : Suits t.shape target) (tell : Tell ins [t])
    (found : infer (some target) ins [out] = .ok r) : Meets (eval (some target) t none) r.2 := by
  obtain ⟨x,rfl,input⟩ := tell.one
  rw [infer_eq] at found
  obtain ⟨⟨fs,o⟩,passed,found⟩ := bind_ok.mp found
  obtain ⟨rfl,typed⟩ := passType_typed input passed
  obtain ⟨q,read,found⟩ := bind_ok.mp found
  cases read
  dsimp only [Facts.first,List.headD_cons] at found
  rw [input.shape] at found
  exact conclude_meets rfl suits typed found

-- The target is known before it arrives, and it arrives as it is known.
theorem infer_meets_row {x y : Fact} {row known : Tensor} (input : x.Tells t) (value : y.value = some known)
    (arrives : targetOf row = targetOf known) (suits : ∀ ds, targetOf known = .ok ds → Suits t.shape ds)
    (found : infer own [x,y] [out] = .ok r) : Meets (eval own t (some row)) r.2 := by
  rw [infer_eq] at found
  obtain ⟨⟨fs,o⟩,passed,found⟩ := bind_ok.mp found
  obtain ⟨rfl,typed⟩ := passType_typed input passed
  obtain ⟨q,read,found⟩ := bind_ok.mp found
  rw [readTarget_two] at read
  obtain ⟨z,ranked,read⟩ := bind_ok.mp read
  rw [Fact.withDims_value ranked,value] at read
  obtain ⟨ds,chosen,equal⟩ := bind_ok.mp read
  cases equal
  dsimp only [Facts.first,List.headD_cons] at found
  rw [input.shape] at found
  exact conclude_meets (arrives.trans chosen) (suits ds chosen) typed found

end Reshape

end TensorGraph
