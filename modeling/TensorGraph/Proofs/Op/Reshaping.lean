import TensorGraph.Proofs.Op.Meets.Reshape
import TensorGraph.Proofs.Op.Sound.Axes

namespace TensorGraph
open Outcome

theorem DType.wrap_word_lt (i : Int) : wrap true 64 i < 2 ^ 63 := by
  unfold wrap
  rw [if_pos rfl]
  exact Int.bmod_lt (by simp)

namespace Reshape

variable {target copied dims : List Int} {shape : Shape} {input : Option ShapeFact} {s o : ShapeFact} {w : Int}

-- The rule, told a shape, comes to extents that allow for these, and to no others if all it is told are known.
def Foretells (input : Option ShapeFact) (target dims : List Int) : Prop :=
  ∃ o, inferDims input target = .ok o ∧ o.length = target.length ∧
    List.Forall₂ (fun d n => 0 ≤ n ∧ d.accepts n.toNat = true) o dims ∧
    ∀ s, input = some s → (∀ d ∈ s, d.isKnown = true) → o = dims.map fun n => .known n.toNat

theorem outline_total (bounded : ∀ d ∈ target, -1 ≤ d) : ∃ o, outline input target = .ok o := by
  refine Exists.imp (fun o each => mapM_ok.mpr each) (exists_forall₂ fun (d,i) place => ?_)
  have low := bounded d (List.mem_of_getElem? (List.mem_zipIdx_iff_getElem?.mp place))
  dsimp only
  split
  · exact ⟨_,rfl⟩
  · split
    · exact ⟨_,rfl⟩
    · exact ⟨_,if_pos (by omega)⟩

-- What stands beside an open place is what the target states.
theorem fill_others {front back : List Int}
    (copies : List.Forall₂ (Copied shape) target.zipIdx (front ++ -1 :: back))
    (bounded : ∀ d ∈ target, -1 ≤ d) (before : -1 ∉ front) (after : -1 ∉ back) (w : Int) :
    fill w (front ++ back) = stated shape target := by
  refine fill_stated ((filter_open before after).symm.trans (copied_stating copies fun p member => bounded p.1 ?_))
  exact List.mem_of_getElem? (List.mem_zipIdx_iff_getElem?.mp member)

-- The numbers of the outline divide those of the input where a place is open and the streams agree.
theorem outline_divides {slot : Nat} (fits : s.Fits shape) (filled : o.Fits (fill w copied))
    (copies : List.Forall₂ (Copied shape) target.zipIdx copied) (outlined : outline (some s) target = .ok o)
    (nonzero : -1 ∈ copied → ∀ c ∈ copied, c ≠ -1 → c ≠ 0) (size : (fill w copied).size = shape.size)
    (once : target.count (-1) ≤ 1) (bounded : ∀ d ∈ target, -1 ≤ d) (open_ : target.contains (-1) = true)
    (place : slot = target.idxOf (-1)) (closed : s.any Dim.isUnknown = false)
    (others : (o.eraseIdx slot).any Dim.isUnknown = false)
    (streams : s.countP Dim.isStreaming = (o.eraseIdx slot).countP Dim.isStreaming) :
    Shape.size ((o.eraseIdx slot).filterMap Dim.extent?) ≠ 0 ∧
      Shape.size (s.filterMap Dim.extent?) % Shape.size ((o.eraseIdx slot).filterMap Dim.extent?) = 0 := by
  have minus := List.mem_of_getElem? (copied_slot copies open_)
  have entry : (fill w copied)[slot]? = some w.toNat := by
    rw [fill,List.getElem?_map,place,copied_slot copies open_]
    rfl
  constructor
  · obtain ⟨front,back,rfl,before,after,position⟩ := copied_split copies once open_
    have rest := forall₂_eraseIdx filled slot
    have erased : (fill w (front ++ -1 :: back)).eraseIdx slot = fill w (front ++ back) := by
      rw [place,← position]
      simp [fill,List.eraseIdx_append_of_length_le]
    have positive := Shape.size_pos
      (others_positive (nonzero minus) (copied_bounded copies bounded) before after w)
    rw [← erased,ShapeFact.size_split rest others] at positive
    exact (Nat.pos_of_mul_pos_right positive).ne'
  · rw [ShapeFact.left_factor fits filled closed others entry size ?_ streams]
    · exact Nat.mul_mod_left _ _
    · intro i n stream there
      obtain ⟨origin,member⟩ := outline_streams copies outlined stream there
      have other := nonzero minus n member (by omega)
      exact ⟨origin,by omega⟩

-- A target that can be filled to the size of the input is never refused.
theorem inferDims_total (fits : ∀ s, input = some s → s.Fits shape)
    (copies : List.Forall₂ (Copied shape) target.zipIdx copied)
    (nonzero : -1 ∈ copied → ∀ c ∈ copied, c ≠ -1 → c ≠ 0) (size : (fill w copied).size = shape.size)
    (once : target.count (-1) ≤ 1) (bounded : ∀ d ∈ target, -1 ≤ d) : ∃ o, inferDims input target = .ok o := by
  obtain ⟨o,outlined⟩ : ∃ o, outline input target = .ok o := outline_total bounded
  have filled := outline_fits (w := w) fits copies outlined
  unfold inferDims
  rw [outlined,ok_bind]
  cases input with
  | none => exact ⟨o,rfl⟩
  | some s =>
    dsimp only
    split
    · exact ⟨o,rfl⟩
    · rename_i closed
      split
      · split
        · rename_i inner outer
          have same := (Flatten.product_fits (fits s rfl) inner).trans (size.symm.trans (Flatten.product_fits filled outer).symm)
          rw [if_neg (not_not.mpr same)]
          exact ⟨o,rfl⟩
        · exact ⟨o,rfl⟩
      · rename_i open_
        split
        · exact ⟨o,rfl⟩
        · rename_i others
          split
          · rename_i streams
            obtain ⟨some,divides⟩ := outline_divides (fits s rfl) filled copies outlined nonzero size once bounded
              (by simpa using open_) rfl (Bool.eq_false_iff.mpr closed) (Bool.eq_false_iff.mpr others) streams
            rw [if_neg (by simpa [divides] using some)]
            exact ⟨_,rfl⟩
          · split <;> exact ⟨_,rfl⟩

-- Extents with something put into the open place.
def put (w : Int) (copied : List Int) : List Int := copied.map fun c => if c = -1 then w else c

theorem put_closed (closed : -1 ∉ copied) (w : Int) : put w copied = copied := by
  refine (List.map_congr_left fun c member => ?_).trans (List.map_id' copied)
  rw [if_neg (ne_of_mem_of_not_mem member closed)]

-- A number of elements as it is counted.
def word (n : Nat) : Int := DType.wrap true 64 n

theorem wordProduct_iff {k : Int} : wordProduct (shape.map Int.ofNat) = .ok k ↔
    (∀ n ∈ shape, n < 2 ^ 64) ∧ k = word shape.size := by
  have factors : (shape.map Int.ofNat).any (DType.highest false 64 < ·) = true ↔ ¬∀ n ∈ shape, n < 2 ^ 64 := by
    have highest : DType.highest false 64 = 2 ^ 64 - 1 := rfl
    simp only [List.any_map,List.any_eq_true,Function.comp_apply,highest,not_forall,exists_prop,decide_eq_true_eq,
      Int.ofNat_eq_natCast]
    refine exists_congr fun n => and_congr_right fun _ => ?_
    omega
  unfold wordProduct
  split
  · rename_i beyond
    exact ⟨nofun,fun within => absurd within.1 (factors.mp beyond)⟩
  · rename_i within
    rw [foldl_product,Int.one_mul,and_iff_right (not_not.mp (factors.not.mp within))]
    exact ⟨fun counted => (Except.ok.inj counted).symm,fun counted => congrArg Except.ok counted.symm⟩

theorem copied_unique : Relator.RightUnique (Copied shape) := by
  intro p c d first second
  unfold Copied at first second
  split at first
  · rename_i zero
    rw [if_pos zero] at second
    obtain ⟨n,entry,rfl⟩ := first
    obtain ⟨m,again,rfl⟩ := second
    cases entry.symm.trans again
    rfl
  · rename_i other
    rw [if_neg other] at second
    exact first.trans second.symm

theorem copyExtents_iff : copyExtents shape 0 target = .ok copied ↔
    (∀ d ∈ target, -1 ≤ d) ∧ List.Forall₂ (Copied shape) target.zipIdx copied := by
  refine ⟨fun found => ⟨copyExtents_bounded found,copyExtents_ok found⟩,?_⟩
  rintro ⟨bounded,copies⟩
  obtain ⟨others,found⟩ : ∃ others, copyExtents shape 0 target = .ok others := by
    refine copyExtents_total bounded fun i zero => ?_
    have paired : target.zipIdx[i]? = some (0,i) := by
      rw [List.getElem?_zipIdx,zero,Nat.zero_add]
      rfl
    obtain ⟨c,-,n,entry,-⟩ := forall₂_getElem? copies.flip paired
    rw [Nat.zero_add]
    exact (List.getElem?_eq_some_iff.mp entry).1
  rw [found,List.right_unique_forall₂' copied_unique (copyExtents_ok found) copies]

theorem copied_others (copies : List.Forall₂ (Copied shape) target.zipIdx copied) (bounded : ∀ d ∈ target, -1 ≤ d) :
    copied.filter (· != -1) = (stated shape target).map Int.ofNat :=
  copied_stating copies fun p member => bounded p.1 (List.mem_of_getElem? (List.mem_zipIdx_iff_getElem?.mp member))

-- How a target is resolved where numbers of elements are words: its copies are made, and what is put into the open place
-- makes up the word of the input.
structure Worded (shape : Shape) (target dims copied : List Int) (w : Int) : Prop where
  once : target.count (-1) ≤ 1
  bounded : ∀ d ∈ target, -1 ≤ d
  copies : List.Forall₂ (Copied shape) target.zipIdx copied
  factors : (∀ n ∈ shape, n < 2 ^ 64) ∧ ∀ n ∈ stated shape target, n < 2 ^ 64
  dims : dims = put w copied
  counted : word shape.size = w * word (stated shape target).size
  some : -1 ∈ copied → word (stated shape target).size ≠ 0
  closed : -1 ∉ copied → w = 1

theorem resolve_iff : resolve shape target = .ok dims ↔ ∃ copied w, Worded shape target dims copied w := by
  unfold resolve
  split
  · rename_i many
    refine ⟨nofun,?_⟩
    rintro ⟨copied,w,r⟩
    exact absurd r.once (by omega)
  rename_i once
  constructor
  · intro resolved
    obtain ⟨copied,copying,resolved⟩ := bind_ok.mp resolved
    obtain ⟨total,sized,resolved⟩ := bind_ok.mp resolved
    obtain ⟨known,product,resolved⟩ := bind_ok.mp resolved
    obtain ⟨bounded,copies⟩ := copyExtents_iff.mp copying
    rw [copied_others copies bounded] at product
    obtain ⟨first,sized⟩ := wordProduct_iff.mp sized
    obtain ⟨second,product⟩ := wordProduct_iff.mp product
    rw [sized,product] at resolved
    split at resolved
    · rename_i open_
      split at resolved
      · cases resolved
      · rename_i divides
        cases resolved
        simp only [Bool.or_eq_true,decide_eq_true_eq,bne_iff_ne,not_or,not_not] at divides
        exact ⟨copied,_,by omega,bounded,copies,⟨first,second⟩,rfl,(Int.fdiv_mul_cancel_of_fmod_eq_zero divides.2).symm,
          fun _ => divides.1,fun closed => absurd (List.contains_iff_mem.mp open_) closed⟩
    · rename_i closed
      rw [List.contains_iff_mem] at closed
      split at resolved
      · cases resolved
      · rename_i same
        cases resolved
        refine ⟨dims,1,by omega,bounded,copies,⟨first,second⟩,(put_closed closed 1).symm,?_,fun open_ => absurd open_ closed,
          fun _ => rfl⟩
        rw [Int.one_mul]
        exact (not_not.mp (bne_iff_ne.not.mp same)).symm
  · rintro ⟨copied,w,r⟩
    refine bind_ok.mpr ⟨copied,copyExtents_iff.mpr ⟨r.bounded,r.copies⟩,bind_ok.mpr ⟨_,wordProduct_iff.mpr ⟨r.factors.1,rfl⟩,?_⟩⟩
    rw [copied_others r.copies r.bounded]
    refine bind_ok.mpr ⟨_,wordProduct_iff.mpr ⟨r.factors.2,rfl⟩,?_⟩
    rw [r.counted,r.dims]
    split
    · rename_i open_
      have some := r.some (List.contains_iff_mem.mp open_)
      rw [if_neg]
      · rw [Int.mul_fdiv_cancel _ some]
        rfl
      · simp [some,Int.mul_fmod_left]
    · rename_i closed
      rw [List.contains_iff_mem] at closed
      rw [r.closed closed,put_closed closed,Int.one_mul,if_neg (by simp)]
      rfl

-- What a resolved target is made of: its extents with the copies made, and what is put into the open place.
structure Resolved (shape : Shape) (target dims copied : List Int) (w : Int) : Prop where
  once : target.count (-1) ≤ 1
  bounded : ∀ d ∈ target, -1 ≤ d
  copies : List.Forall₂ (Copied shape) target.zipIdx copied
  dims : dims = copied.map fun c => if c = -1 then w else c
  counted : DType.wrap true 64 shape.size = w * (stated shape target).size
  nonzero : -1 ∈ copied → ∀ c ∈ copied, c ≠ -1 → c ≠ 0
  closed : -1 ∉ copied → w = 1

theorem resolve_counts (resolved : resolve shape target = .ok dims) (small : (stated shape target).size < 2 ^ 63) :
    ∃ copied w, Resolved shape target dims copied w := by
  obtain ⟨copied,w,r⟩ := resolve_iff.mp resolved
  have count : word (stated shape target).size = (stated shape target).size := DType.wrap_word small
  refine ⟨copied,w,r.once,r.bounded,r.copies,r.dims,count ▸ r.counted,fun open_ c member apart zero => ?_,r.closed⟩
  have stands : 0 ∈ (stated shape target).map Int.ofNat := by
    rw [← copied_others r.copies r.bounded,← zero]
    exact List.mem_filter.mpr ⟨member,bne_iff_ne.mpr apart⟩
  have nothing := foldl_product (stated shape target) 1
  rw [foldl_mul_zero (.inr stands),Int.one_mul,← count] at nothing
  exact r.some open_ nothing.symm

theorem Resolved.others (r : Resolved shape target dims copied w) :
    copied.filter (· != -1) = (stated shape target).map Int.ofNat := copied_others r.copies r.bounded

-- An open target has the stated size times what is put into the open place, a closed one the stated size.
theorem Resolved.size_open (r : Resolved shape target dims copied w) (open_ : -1 ∈ copied) (v : Int) :
    (fill v copied).size = v.toNat * (stated shape target).size := by
  obtain ⟨front,back,rfl,before,after,-⟩ := copied_split r.copies r.once (open_of_copied r.copies open_)
  rw [fill_size,fill_others r.copies r.bounded before after]

theorem Resolved.size_closed (r : Resolved shape target dims copied w) (closed : -1 ∉ copied) (v : Int) :
    (fill v copied).size = (stated shape target).size := by
  have whole : copied.filter (· != -1) = copied := List.filter_eq_self.mpr fun c member =>
    bne_iff_ne.mpr (ne_of_mem_of_not_mem member closed)
  rw [fill_stated (whole.symm.trans r.others)]

theorem Resolved.size (r : Resolved shape target dims copied w) :
    (fill w copied).size = w.toNat * (stated shape target).size := by
  by_cases open_ : -1 ∈ copied
  · exact r.size_open open_ w
  · rw [r.size_closed open_,r.closed open_]
    exact (Nat.one_mul _).symm

theorem Resolved.positive (r : Resolved shape target dims copied w) (open_ : -1 ∈ copied) :
    0 < (stated shape target).size := by
  obtain ⟨front,back,rfl,before,after,-⟩ := copied_split r.copies r.once (open_of_copied r.copies open_)
  rw [← fill_others r.copies r.bounded before after w]
  exact Shape.size_pos (others_positive (r.nonzero open_) (copied_bounded r.copies r.bounded) before after w)

theorem Resolved.filling (r : Resolved shape target dims copied w) (few : shape.size < 2 ^ 63) : 0 ≤ w := by
  by_cases open_ : -1 ∈ copied
  · have counted := r.counted
    rw [DType.wrap_word few] at counted
    have positive := r.positive open_
    by_contra negative
    have below := Int.mul_neg_of_neg_of_pos (Int.not_le.mp negative) (Int.natCast_pos.mpr positive)
    omega
  · rw [r.closed open_]
    exact Int.one_nonneg

-- Where the size of the input is counted without overflow, the target is filled to that size.
theorem Resolved.exact (r : Resolved shape target dims copied w) (few : shape.size < 2 ^ 63) :
    (fill w copied).size = shape.size := by
  have counted := r.counted
  rw [DType.wrap_word few,← Int.toNat_of_nonneg (r.filling few)] at counted
  rw [r.size]
  exact_mod_cast counted.symm

theorem Resolved.foretold (r : Resolved shape target dims copied w) (few : shape.size < 2 ^ 63)
    (accept : ∀ s, input = some s → s.accepts shape = true) : Foretells input target dims := by
  have fits : ∀ s, input = some s → s.Fits shape := fun s told => ShapeFact.accepts_forall₂.mp (accept s told)
  have size := r.exact few
  obtain ⟨o,inferred⟩ := inferDims_total fits r.copies r.nonzero size r.once r.bounded
  have filled := inferDims_fits fits r.copies r.nonzero size inferred
  have read : dims.map Int.toNat = fill w copied := by
    rw [r.dims,List.map_map]
    rfl
  refine ⟨o,inferred,?_,?_,?_⟩
  · rw [filled.length_eq,fill,List.length_map,← r.copies.length_eq,List.length_zipIdx]
  · rw [← read,ShapeFact.Fits,List.forall₂_map_right_iff] at filled
    refine (forall₂_mem filled.flip).flip.imp fun d n parts => ⟨?_,parts.2⟩
    obtain ⟨c,from_,rfl⟩ := List.mem_map.mp (r.dims ▸ parts.1)
    have low := copied_bounded r.copies r.bounded c from_
    split
    · exact r.filling few
    · omega
  · rintro s rfl known
    cases ShapeFact.known_eq (fits s rfl) known
    cases (inferDims_exact r.copies r.nonzero size r.once r.bounded).symm.trans inferred
    rw [← read,ShapeFact.ofShape,List.map_map]
    rfl

-- Numbers of elements are counted in words when a target is resolved, and exactly by the rule. So the rule
-- foretells what is resolved, whatever it is told of the input, exactly if the input has no more elements
-- than a word can count.
theorem resolve_foretold (resolved : resolve shape target = .ok dims) (small : (stated shape target).size < 2 ^ 63) :
    shape.size < 2 ^ 63 ↔
      ∀ input, (∀ s, input = some s → s.accepts shape = true) → Foretells input target dims := by
  obtain ⟨copied,w,r⟩ := resolve_counts resolved small
  refine ⟨fun few input accept => r.foretold few accept,fun foretold => ?_⟩
  obtain ⟨o,inferred,-,-,exact_⟩ := foretold (some (.ofShape shape)) fun s told => by
    cases told
    exact ShapeFact.accepts_ofShape.mpr rfl
  by_cases open_ : -1 ∈ copied
  · obtain ⟨-,divides⟩ := inferDims_divides r.copies r.once (open_of_copied r.copies open_) r.bounded inferred
    rw [fill_stated r.others] at divides
    have fair : (fill (shape.size / (stated shape target).size : Nat) copied).size = shape.size := by
      rw [r.size_open open_,Int.toNat_natCast,Nat.div_mul_cancel (Nat.dvd_of_mod_eq_zero divides)]
    cases (inferDims_exact r.copies r.nonzero fair r.once r.bounded).symm.trans inferred
    -- The rule fills the place so that the sizes agree, and a word that fills it likewise holds the size.
    have same : fill (shape.size / (stated shape target).size : Nat) copied = fill w copied := by
      refine Fact.ofShape_inj ((exact_ _ rfl (by simp [ShapeFact.ofShape,Dim.isKnown])).trans ?_)
      rw [r.dims,List.map_map,fill,ShapeFact.ofShape,List.map_map]
      rfl
    rw [same,r.size] at fair
    by_contra many
    have positive : 0 < w := by
      by_contra low
      rw [Int.toNat_of_nonpos (Int.not_lt.mp low),Nat.zero_mul] at fair
      omega
    have held := r.counted
    rw [← Int.toNat_of_nonneg positive.le,← Int.natCast_mul,fair] at held
    have word := DType.wrap_word_lt shape.size
    omega
  · have closed := fun minus => open_ (List.mem_of_getElem? (copied_slot r.copies minus))
    rw [inferDims_closed r.copies closed r.bounded inferred,r.size_closed open_]
    exact small

-- A stream that is copied to its place, beside what the numbers leave over.
theorem resolve_foretold_stream : resolve [7,2,3] [0,-1] = .ok [7,6] ∧ (stated [7,2,3] [0,-1]).size < 2 ^ 63 ∧
    Shape.size [7,2,3] < 2 ^ 63 ∧ ShapeFact.accepts [.streaming,.known 2,.known 3] [7,2,3] = true ∧
    Foretells (some [.streaming,.known 2,.known 3]) [0,-1] [7,6] := by
  have resolved : resolve [7,2,3] [0,-1] = .ok [7,6] := by rfl
  have small : (stated [7,2,3] [0,-1]).size < 2 ^ 63 := by decide
  have few : Shape.size [7,2,3] < 2 ^ 63 := by decide
  have accept : ShapeFact.accepts [.streaming,.known 2,.known 3] [7,2,3] = true := by rfl
  exact ⟨resolved,small,few,accept,(resolve_foretold resolved small).mp few _ fun _ told => by cases told; exact accept⟩

-- The elements of this shape overflow the word they are counted in: the open place is filled with nothing.
theorem resolve_unforetold : resolve [2 ^ 32,2 ^ 32] [-1,1] = .ok [0,1] ∧
    (stated [2 ^ 32,2 ^ 32] [-1,1]).size < 2 ^ 63 ∧
    ShapeFact.accepts [.known (2 ^ 32),.known (2 ^ 32)] [2 ^ 32,2 ^ 32] = true ∧
    inferDims (some [.known (2 ^ 32),.known (2 ^ 32)]) [-1,1] = .ok [.known (2 ^ 64),.known 1] ∧
    ¬ Foretells (some [.known (2 ^ 32),.known (2 ^ 32)]) [-1,1] [0,1] := by
  have inferred : inferDims (some [.known (2 ^ 32),.known (2 ^ 32)]) [-1,1] = .ok [.known (2 ^ 64),.known 1] := by rfl
  refine ⟨by rfl,by decide,by decide,inferred,?_⟩
  rintro ⟨o,again,-,fits,-⟩
  cases inferred.symm.trans again
  exact absurd (List.forall₂_cons.mp fits).1.2 (by decide)

end Reshape

end TensorGraph
