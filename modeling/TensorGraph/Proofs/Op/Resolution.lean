import Mathlib.Data.Int.ModEq
import TensorGraph.Proofs.Op.Reshaping
import TensorGraph.Proofs.Op.Wrapped

namespace TensorGraph
open Outcome

namespace Reshape

variable {target copied dims : List Int} {shape : Shape} {w : Int}

-- What a target asks of an input whose elements are to be kept, counted without bound: what it states is as many, or
-- exactly one extent in the open place makes it so.
structure Meant (shape : Shape) (target : List Int) : Prop where
  once : target.count (-1) ≤ 1
  bounded : ∀ d ∈ target, -1 ≤ d
  copies : ∀ i : Nat, target[i]? = some 0 → i < shape.length
  closed : -1 ∉ target → (stated shape target).size = shape.size
  opened : -1 ∈ target → ∃! n : Nat, n * (stated shape target).size = shape.size

-- Extents where a target wants them.
structure Follows (shape : Shape) (target dims : List Int) : Prop where
  length : dims.length = target.length
  stays : ∀ (i : Nat) d, target[i]? = some d → 0 < d → dims[i]? = some d
  copies : ∀ i : Nat, target[i]? = some 0 → ∃ n : Nat, shape[i]? = some n ∧ dims[i]? = some (n : Int)

-- And as many elements as there were.
structure Preserves (shape : Shape) (target dims : List Int) : Prop where
  follows : Follows shape target dims
  extents : ∀ d ∈ dims, 0 ≤ d
  count : dims.prod = shape.size

-- Numbers of elements that are their own words.
structure Counts (shape : Shape) (target : List Int) : Prop where
  factors : (∀ n ∈ shape, n < 2 ^ 64) ∧ ∀ n ∈ stated shape target, n < 2 ^ 64
  input : shape.size < 2 ^ 63
  output : (stated shape target).size < 2 ^ 63

theorem follows_put (copies : List.Forall₂ (Copied shape) target.zipIdx copied) (w : Int) :
    Follows shape target (put w copied) := by
  have entry {i : Nat} {d : Int} (there : target[i]? = some d) : ∃ c, copied[i]? = some c ∧ Copied shape (d,i) c := by
    have paired : target.zipIdx[i]? = some (d,i) := by
      rw [List.getElem?_zipIdx,there,Nat.zero_add]
      rfl
    exact forall₂_getElem? copies.flip paired
  have filled {i : Nat} {c : Int} (there : copied[i]? = some c) (other : c ≠ -1) : (put w copied)[i]? = some c := by
    rw [put,List.getElem?_map,there,Option.map_some,if_neg other]
  refine ⟨?_,fun i d there positive => ?_,fun i there => ?_⟩
  · rw [put,List.length_map,← copies.length_eq,List.length_zipIdx]
  · obtain ⟨c,found,copy⟩ := entry there
    rw [Copied,if_neg positive.ne'] at copy
    cases copy
    exact filled found (by omega)
  · obtain ⟨c,found,n,extent,rfl⟩ := entry there
    exact ⟨n,extent,filled found (by omega)⟩

theorem prod_extents (s : Shape) : (s.map Int.ofNat).prod = s.size := by
  rw [List.prod_eq_foldl,foldl_product,Int.one_mul]

theorem prod_put (copies : List.Forall₂ (Copied shape) target.zipIdx copied) (once : target.count (-1) ≤ 1)
    (bounded : ∀ d ∈ target, -1 ≤ d) (closed : -1 ∉ copied → w = 1) :
    (put w copied).prod = w * (stated shape target).size := by
  have others := copied_others copies bounded
  rw [← prod_extents,← others]
  by_cases open_ : -1 ∈ copied
  · obtain ⟨front,back,rfl,before,after,-⟩ := copied_split copies once (open_of_copied copies open_)
    have split : put w (front ++ -1 :: back) = front ++ w :: back := by
      rw [put,List.map_append,List.map_cons,if_pos rfl]
      exact congrArg₂ (· ++ w :: ·) (put_closed before w) (put_closed after w)
    rw [filter_open before after,split]
    simp only [List.prod_append,List.prod_cons]
    ring
  · have whole : copied.filter (· != -1) = copied := List.filter_eq_self.mpr fun c member =>
      bne_iff_ne.mpr (ne_of_mem_of_not_mem member open_)
    rw [put_closed open_,whole,closed open_,Int.one_mul]

theorem open_copied (copies : List.Forall₂ (Copied shape) target.zipIdx copied) : -1 ∈ copied ↔ -1 ∈ target := by
  refine ⟨fun member => List.contains_iff_mem.mp (open_of_copied copies member),fun member => ?_⟩
  exact List.mem_of_getElem? (copied_slot copies (List.contains_iff_mem.mpr member))

theorem word_modEq (n : Nat) : word n ≡ n [ZMOD 2 ^ 64] := DType.wrap_emod true 64 n

namespace Worded

-- The elements of what a target is resolved to are as many as those of the input up to the size of a word.
theorem agrees (r : Worded shape target dims copied w) : dims.prod ≡ shape.size [ZMOD 2 ^ 64] := by
  rw [r.dims,prod_put r.copies r.once r.bounded r.closed]
  calc w * (stated shape target).size
    _ ≡ w * word (stated shape target).size [ZMOD 2 ^ 64] := (word_modEq _).symm.mul_left w
    _ = word shape.size := r.counted.symm
    _ ≡ shape.size [ZMOD 2 ^ 64] := word_modEq _

variable (counts : Counts shape target)
include counts

theorem exactly (r : Worded shape target dims copied w) : w * (stated shape target).size = shape.size := by
  have counted := r.counted
  rw [word,word,DType.wrap_word counts.input,DType.wrap_word counts.output] at counted
  exact counted.symm

theorem stated_pos (r : Worded shape target dims copied w) (open_ : -1 ∈ copied) : 0 < (stated shape target).size := by
  have some := r.some open_
  rw [word,DType.wrap_word counts.output] at some
  omega

theorem nonneg (r : Worded shape target dims copied w) : 0 ≤ w := by
  by_cases open_ : -1 ∈ copied
  · have positive := r.stated_pos counts open_
    refine nonneg_of_mul_nonneg_left ((Int.natCast_nonneg shape.size).trans_eq (r.exactly counts).symm) ?_
    exact Int.natCast_pos.mpr positive
  · rw [r.closed open_]
    exact Int.one_nonneg

theorem meant (r : Worded shape target dims copied w) : Meant shape target := by
  have total := r.exactly counts
  refine ⟨r.once,r.bounded,fun i zero => ?_,fun closed => ?_,fun open_ => ?_⟩
  · obtain ⟨n,entry,-⟩ := (follows_put r.copies w).copies i zero
    exact (List.getElem?_eq_some_iff.mp entry).1
  · rw [r.closed ((open_copied r.copies).not.mpr closed),Int.one_mul] at total
    exact Int.ofNat.inj total
  · have positive := r.stated_pos counts ((open_copied r.copies).mpr open_)
    obtain ⟨n,rfl⟩ := Int.eq_ofNat_of_zero_le (r.nonneg counts)
    have total : n * (stated shape target).size = shape.size := by exact_mod_cast total
    exact ⟨n,total,fun m same => Nat.eq_of_mul_eq_mul_right positive (same.trans total.symm)⟩

theorem preserves (r : Worded shape target dims copied w) : Preserves shape target dims := by
  refine ⟨r.dims ▸ follows_put r.copies w,?_,?_⟩
  · rw [r.dims]
    refine List.forall_mem_map.mpr fun c member => ?_
    have low := copied_bounded r.copies r.bounded c member
    have filling := r.nonneg counts
    split <;> omega
  · rw [r.dims,prod_put r.copies r.once r.bounded r.closed]
    exact r.exactly counts

end Worded

theorem resolve_meant (counts : Counts shape target) (meant : Meant shape target) :
    ∃ dims, resolve shape target = .ok dims := by
  obtain ⟨copied,copying⟩ := copyExtents_total (k := 0) meant.bounded fun i zero => by
    rw [Nat.zero_add]
    exact meant.copies i zero
  have copies := copyExtents_ok copying
  have input : word shape.size = shape.size := DType.wrap_word counts.input
  have output : word (stated shape target).size = (stated shape target).size := DType.wrap_word counts.output
  by_cases open_ : -1 ∈ copied
  · obtain ⟨n,total,only⟩ := meant.opened ((open_copied copies).mp open_)
    refine ⟨put n copied,resolve_iff.mpr ⟨copied,n,meant.once,meant.bounded,copies,counts.factors,rfl,?_,fun _ none => ?_,
      fun closed => absurd open_ closed⟩⟩
    · rw [input,output]
      exact_mod_cast total.symm
    · -- with nothing stated any extent would do
      rw [output,Int.natCast_eq_zero] at none
      rw [none,Nat.mul_zero] at total
      have next := only (n + 1) (by dsimp only; rw [none,Nat.mul_zero,total])
      omega
  · have same := meant.closed ((open_copied copies).not.mp open_)
    refine ⟨put 1 copied,resolve_iff.mpr ⟨copied,1,meant.once,meant.bounded,copies,counts.factors,rfl,?_,
      fun opened => absurd opened open_,fun _ => rfl⟩⟩
    rw [same,Int.one_mul]

-- A target is resolved to extents that follow it and that keep the number of elements up to the size of a word. Where the
-- numbers are their own words, it is resolved exactly if elements that are counted without bound can be kept, and they are.
theorem resolve_preserves (shape : Shape) (target : List Int) :
    (∀ dims, resolve shape target = .ok dims → target.count (-1) ≤ 1 ∧ (∀ d ∈ target, -1 ≤ d) ∧
      Follows shape target dims ∧ dims.prod ≡ shape.size [ZMOD 2 ^ 64]) ∧
    (Counts shape target → ((∃ dims, resolve shape target = .ok dims) ↔ Meant shape target) ∧
      ∀ dims, resolve shape target = .ok dims → Preserves shape target dims) := by
  refine ⟨fun dims resolved => ?_,fun counts => ⟨⟨?_,resolve_meant counts⟩,fun dims resolved => ?_⟩⟩
  · obtain ⟨copied,w,r⟩ := resolve_iff.mp resolved
    exact ⟨r.once,r.bounded,r.dims ▸ follows_put r.copies w,r.agrees⟩
  · rintro ⟨dims,resolved⟩
    obtain ⟨copied,w,r⟩ := resolve_iff.mp resolved
    exact r.meant counts
  · obtain ⟨copied,w,r⟩ := resolve_iff.mp resolved
    exact r.preserves counts

-- An extent that is copied, one that is left over, and one that is kept.
theorem resolve_preserves_copy : Counts [4,6,5] [0,-1,3] ∧ Meant [4,6,5] [0,-1,3] ∧
    resolve [4,6,5] [0,-1,3] = .ok [4,10,3] ∧ Preserves [4,6,5] [0,-1,3] [4,10,3] := by
  have counts : Counts [4,6,5] [0,-1,3] := ⟨by decide,by decide,by decide⟩
  have resolved : resolve [4,6,5] [0,-1,3] = .ok [4,10,3] := by rfl
  have law := (resolve_preserves [4,6,5] [0,-1,3]).2 counts
  exact ⟨counts,law.1.mp ⟨_,resolved⟩,resolved,law.2 _ resolved⟩

-- The word of these elements is zero, so they are lost, and nothing at all is taken for so many.
theorem resolve_overflows : Meant [2 ^ 32,2 ^ 32] [-1,1] ∧ resolve [2 ^ 32,2 ^ 32] [-1,1] = .ok [0,1] ∧
    ¬ Preserves [2 ^ 32,2 ^ 32] [-1,1] [0,1] ∧
    ¬ Meant [0] [2 ^ 32,2 ^ 32] ∧ resolve [0] [2 ^ 32,2 ^ 32] = .ok [2 ^ 32,2 ^ 32] := by
  refine ⟨⟨by decide,by decide,?_,by decide,fun _ => ⟨2 ^ 64,by decide,fun n same => ?_⟩⟩,by rfl,?_,?_,by rfl⟩
  · intro i zero
    match i with
    | 0 | 1 => cases zero
    | _ + 2 => cases zero
  · exact (Nat.mul_one n).symm.trans same
  · exact fun preserves => absurd preserves.count (by decide)
  · exact fun meant => absurd (meant.closed (by decide)) (by decide)

end Reshape

end TensorGraph
