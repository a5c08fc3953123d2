import TensorGraph.Proofs.Fact.Sound
import TensorGraph.Proofs.Op.Settled

namespace TensorGraph
open Outcome Facts

variable {ins outs : Facts} {r : Facts × Facts} {x out : Fact} {t u : Tensor}

namespace Transpose

variable {perm : Option (List Int)} {p : List Nat}

theorem permutation_ok {rank : Nat} (found : permutation perm rank = .ok p) :
    p.length = rank ∧ ∀ a < rank, a ∈ p := by
  unfold permutation at found
  split at found
  · cases found
    simp
  · rename_i q
    split at found
    · rename_i valid
      cases found
      simp only [isPermutation,Bool.and_eq_true,beq_iff_eq,List.all_eq_true,List.mem_range,
        List.contains_iff_mem] at valid
      refine ⟨by rw [List.length_map]; exact valid.1,fun a below => ?_⟩
      exact List.mem_map.mpr ⟨a,valid.2 a below,Int.toNat_natCast a⟩
    · cases found

-- Reordering by a permutation is undone by scattering.
theorem scatter_map {α : Type} {xs : List α} (d : α) (length : p.length = xs.length)
    (all : ∀ a < xs.length, a ∈ p) : scatter p (p.map fun a => xs.getD a d) d = xs := by
  refine List.ext_getElem (by simp [scatter,length]) fun a inside below => ?_
  have member := all a below
  have place : p[p.idxOf a]? = some a := List.getElem?_idxOf member
  simp [scatter,List.getD_eq_getElem?_getD,place,below]

theorem eval_parts (evaluated : eval perm t = .ok u) : ∃ p, permutation perm t.shape.length = .ok p ∧
    u.dtype = t.dtype ∧ u.shape = p.map fun a => t.shape.getD a 0 := by
  obtain ⟨p,found,equal⟩ := bind_ok.mp evaluated
  cases equal
  exact ⟨p,found,rfl,rfl⟩

theorem forward_sound {o : Fact} (found : permutation perm t.shape.length = .ok p)
    (shape : u.shape = p.map fun a => t.shape.getD a 0) (input : x.accepts t = true)
    (output : out.accepts u = true) (learned : forward perm x out = .ok o) : o.accepts u = true := by
  unfold forward at learned
  split at learned
  · cases learned
    exact output
  · rename_i s known
    have fits := Fact.accepts_fits input known
    obtain ⟨q,again,learned⟩ := bind_ok.mp learned
    rw [fits.length_eq,found] at again
    cases again
    exact Fact.withDims_accepts output learned (shape ▸ forall₂_map_getD fits rfl p)

theorem backward_sound {y : Fact} (found : permutation perm t.shape.length = .ok p)
    (shape : u.shape = p.map fun a => t.shape.getD a 0) (input : x.accepts t = true)
    (output : out.accepts u = true) (learned : backward perm x out = .ok y) : y.accepts t = true := by
  unfold backward at learned
  split at learned
  · cases learned
    exact input
  · rename_i s known
    obtain ⟨length,all⟩ := permutation_ok found
    have fits := Fact.accepts_fits output known
    obtain ⟨q,again,learned⟩ := bind_ok.mp learned
    rw [fits.length_eq,shape,List.length_map,length,found] at again
    cases again
    have scattered := forall₂_scatter fits (x := .unknown) (y := 0) rfl p
    rw [shape,scatter_map 0 length all] at scattered
    exact Fact.withDims_accepts input learned scattered

theorem infer_sound (evaluated : eval perm t = .ok u) (input : Accept ins [t]) (output : Accept outs [u])
    (found : infer perm ins outs = .ok r) : Hold r [t] [u] := by
  obtain ⟨p,permuted,dtype,shape⟩ := eval_parts evaluated
  rw [infer_eq] at found
  obtain ⟨⟨x,out⟩,shared,found⟩ := bind_ok.mp found
  obtain ⟨o,forwards,found⟩ := bind_ok.mp found
  obtain ⟨y,backwards,equal⟩ := bind_ok.mp found
  cases equal
  obtain ⟨input,output⟩ := sharedPair_accept input output dtype shared
  have output := forward_sound permuted shape input output forwards
  exact hold_one (backward_sound permuted shape input output backwards) output

end Transpose

namespace Slice

theorem eval_ok {spans : List Span} (evaluated : eval spans t = .ok u) : t.shape.length = spans.length ∧
    (∀ p ∈ spans.zip t.shape, p.1.within p.2 = true) ∧
      u = .tabulate t.dtype (List.zipWith (fun s n => s.stop n - s.start) spans t.shape) fun index =>
        t.get (List.zipWith (fun s i => s.start + i) spans index) := by
  unfold eval at evaluated
  dsimp only at evaluated
  split at evaluated
  · rename_i rank
    split at evaluated
    · cases evaluated
    · rename_i none
      cases evaluated
      refine ⟨rank,fun p member => ?_,rfl⟩
      obtain ⟨i,entry⟩ := List.mem_iff_getElem?.mp member
      have passed := List.find?_eq_none.mp none (p,i) (List.mem_zipIdx_iff_getElem?.mpr entry)
      simpa using passed
  · cases evaluated

theorem eval_parts {spans : List Span} (evaluated : eval spans t = .ok u) :
    t.shape.length = spans.length ∧ u.dtype = t.dtype ∧
      u.shape = (spans.zip t.shape).map fun p => p.1.stop p.2 - p.1.start := by
  obtain ⟨rank,-,rfl⟩ := eval_ok evaluated
  exact ⟨rank,rfl,by rw [List.map_zip_eq_zipWith]; rfl⟩

theorem dim_accepts {s : Span} {d e : Dim} {n : Nat} (accept : d.accepts n = true)
    (found : dim s d = .ok e) : e.accepts (s.stop n - s.start) = true := by
  cases length : s.length with
  | some k =>
    have taken : s.stop n - s.start = k := by simp [Span.stop,length]
    rw [taken]
    cases d with
    | known m =>
      simp only [dim,length] at found
      split at found
      · cases found
        exact Dim.accepts_known.mpr rfl
      · cases found
    | streaming | unknown =>
      simp only [dim,length,pure_eq_ok] at found
      cases found
      exact Dim.accepts_known.mpr rfl
  | none =>
    have taken : s.stop n = n := by simp [Span.stop,length]
    rw [taken]
    cases d with
    | known m =>
      cases Dim.accepts_known.mp accept
      simp only [dim,length] at found
      split at found
      · cases found
        exact Dim.accepts_known.mpr rfl
      · cases found
    | streaming =>
      simp only [dim,length,pure_eq_ok] at found
      cases found
      split <;> rfl
    | unknown =>
      simp only [dim,length,pure_eq_ok] at found
      cases found
      rfl

theorem infer_sound {spans : List Span} (evaluated : eval spans t = .ok u) (input : Accept ins [t])
    (output : Accept outs [u]) (found : infer spans ins outs = .ok r) : Hold r [t] [u] := by
  obtain ⟨rank,dtype,shape⟩ := eval_parts evaluated
  obtain ⟨⟨x,out⟩,shared,found⟩ := bind_ok.mp found
  obtain ⟨y,widened,found⟩ := bind_ok.mp found
  obtain ⟨dims,each,found⟩ := bind_ok.mp found
  obtain ⟨o,shaped,equal⟩ := bind_ok.mp found
  cases equal
  obtain ⟨input,output⟩ := sharedPair_accept input output dtype shared
  have input := Fact.withDims_accepts input widened (ShapeFact.fits_unknown rank)
  refine hold_one input (Fact.withDims_accepts output shaped ?_)
  rw [shape,ShapeFact.Fits,List.forall₂_map_right_iff]
  refine mapM_keeps (forall₂_zip_left (Fact.withDims_fits widened input)) each ?_
  rintro ⟨s,d⟩ e ⟨_,n⟩ ⟨rfl,accept⟩ found
  exact dim_accepts accept found

end Slice

namespace Squeeze

variable {given : Option (List Int)}

theorem fits_known {s : ShapeFact} {shape : Shape} (fits : s.Fits shape)
    (known : s.all Dim.isKnown = true) : s = .ofShape shape := by
  induction fits with
  | nil => rfl
  | @cons d n _ _ head _ ih =>
    rw [List.all_cons,Bool.and_eq_true] at known
    cases d with
    | known k =>
      cases Dim.accepts_known.mp head
      rw [ih known.2]
      rfl
    | streaming | unknown => cases known.1

-- The axes that go have an extent of 1.
theorem axes_ones {shape : Shape} {found : List Nat} (chosen : axes given (.ofShape shape) = .ok (some found)) :
    ∀ (a : Nat) n, a ∈ found → shape[a]? = some n → n = 1 := by
  intro a n member entry
  have place : (ShapeFact.ofShape shape)[a]? = some (.known n) := by
    rw [ShapeFact.ofShape,List.getElem?_map,entry]
    rfl
  unfold axes at chosen
  cases given with
  | none =>
    dsimp only at chosen
    split at chosen
    · cases chosen
      obtain ⟨⟨d,_⟩,kept,rfl⟩ := List.mem_map.mp member
      obtain ⟨here,one⟩ := List.mem_filter.mp kept
      have same := place.symm.trans (List.mem_zipIdx_iff_getElem?.mp here)
      rw [← Option.some.inj same] at one
      exact Dim.known.inj (eq_of_beq one)
    · cases chosen
  | some as =>
    obtain ⟨axes,-,chosen⟩ := bind_ok.mp chosen
    obtain ⟨_,ran,equal⟩ := bind_ok.mp chosen
    cases equal
    have passed := loop_passed (fun b s passed => ?_) ran a member
    · rw [List.getD_eq_getElem?_getD,place] at passed
      dsimp only [Option.getD_some] at passed
      split at passed
      · cases passed
      · rename_i one
        exact Decidable.not_not.mp one
    · split at passed
      · split at passed
        · cases passed
        · cases passed; rfl
      · cases passed; rfl

theorem mark_fits {s : ShapeFact} {shape : Shape} {axes : List Nat} (fits : s.Fits shape)
    (ones : ∀ (a : Nat) n, a ∈ axes → shape[a]? = some n → n = 1) :
    ShapeFact.Fits (s.zipIdx.map fun (d,i) => if axes.contains i then .one else d) shape := by
  rw [← List.zipIdx_map_fst 0 shape,ShapeFact.Fits,List.forall₂_map_left_iff,List.forall₂_map_right_iff]
  refine ((forall₂_mem (forall₂_zipIdx fits 0).flip).flip).imp ?_
  rintro ⟨d,i⟩ ⟨n,_⟩ ⟨member,accept,rfl⟩
  dsimp only
  split
  · rename_i inside
    cases ones i n (List.contains_iff_mem.mp inside) (List.mem_zipIdx_iff_getElem?.mp member)
    rfl
  · exact accept

-- The rule chooses the axes that the evaluation drops.
theorem axes_agree {s : ShapeFact} {shape : Shape} {found : List Nat} {o : Option (List Nat)}
    (fits : s.Fits shape) (chosen : axes given s = .ok (some found))
    (dropped : axes given (.ofShape shape) = .ok o) : o = some found := by
  unfold axes at chosen dropped
  cases given with
  | none =>
    dsimp only at chosen dropped
    split at chosen
    · rename_i known
      rw [fits_known fits known] at chosen known
      rw [if_pos known] at dropped
      exact Except.ok.inj (dropped.symm.trans chosen)
    · cases chosen
  | some as =>
    obtain ⟨here,first,chosen⟩ := bind_ok.mp chosen
    obtain ⟨there,second,dropped⟩ := bind_ok.mp dropped
    obtain ⟨_,-,equal⟩ := bind_ok.mp chosen
    cases equal
    obtain ⟨_,-,equal⟩ := bind_ok.mp dropped
    cases equal
    rw [fits.length_eq] at first
    rw [ShapeFact.ofShape,List.length_map,first] at second
    cases second
    rfl

theorem eval_parts (evaluated : eval given t = .ok u) : ∃ found, axes given (.ofShape t.shape) = .ok found ∧
    u.dtype = t.dtype ∧ u.shape = dropAxes (found.getD []) t.shape := by
  obtain ⟨found,chosen,equal⟩ := bind_ok.mp evaluated
  cases equal
  exact ⟨found,chosen,rfl,rfl⟩

theorem infer_sound (evaluated : eval given t = .ok u) (input : Accept ins [t])
    (output : Accept outs [u]) (found : infer given ins outs = .ok r) : Hold r [t] [u] := by
  obtain ⟨dropped,chosen,dtype,shape⟩ := eval_parts evaluated
  obtain ⟨⟨x,out⟩,shared,found⟩ := bind_ok.mp found
  obtain ⟨input,output⟩ := sharedPair_accept input output dtype shared
  dsimp only at found input output
  split at found
  · cases found
    exact hold_one input output
  · rename_i s known
    have fits := Fact.accepts_fits input known
    obtain ⟨axes,here,found⟩ := bind_ok.mp found
    cases axes with
    | none =>
      cases found
      exact hold_one input output
    | some axes =>
      obtain ⟨y,marked,found⟩ := bind_ok.mp found
      obtain ⟨o,shaped,equal⟩ := bind_ok.mp found
      cases equal
      cases axes_agree fits here chosen
      have input := Fact.withDims_accepts input marked (mark_fits fits (axes_ones chosen))
      have dropped := forall₂_dropAxes (Fact.withDims_fits marked input) axes
      exact hold_one input (Fact.withDims_accepts output shaped (shape ▸ dropped))

end Squeeze

namespace ExpandDims

theorem expand_ok {α : Type} {axes : List Int} {e : α} {dims xs : List α}
    (expanded : expand axes e dims = .ok xs) : ∃ found,
      normalizeAxes axes (dims.length + axes.length) = .ok found ∧ found.length = axes.length ∧
        xs = addAxes found e 0 (dims.length + axes.length) dims := by
  obtain ⟨found,chosen,expanded⟩ := bind_ok.mp expanded
  split at expanded
  · rename_i distinct
    cases expanded
    exact ⟨found,chosen,distinct,rfl⟩
  · cases expanded

-- Entries at some of the axes are dropped again, if the others are as many as the list has.
theorem dropAxes_addAxes {α : Type} {axes : List Nat} {e : α} {i count : Nat} {xs : List α}
    (others : (List.range' i count).countP (fun a => !axes.contains a) = xs.length) :
    (addAxes axes e i count xs).length = count ∧
      (((addAxes axes e i count xs).zipIdx i).filter fun p => !axes.contains p.2).map (·.1) = xs := by
  induction count generalizing i xs with
  | zero =>
    rw [List.range'_zero,List.countP_nil] at others
    rw [List.length_eq_zero_iff.mp others.symm]
    exact ⟨rfl,rfl⟩
  | succ count ih =>
    rw [List.range'_succ,List.countP_cons] at others
    unfold addAxes
    cases here : axes.contains i with
    | true =>
      rw [here] at others
      simp only [Bool.not_true,Bool.false_eq_true,if_false,Nat.add_zero] at others
      obtain ⟨length,equal⟩ := ih others
      simp only [if_true,List.length_cons,length,List.zipIdx_cons,List.filter_cons,here,Bool.not_true,
        Bool.false_eq_true,if_false,equal,and_self]
    | false =>
      rw [here] at others
      simp only [Bool.not_false,if_true] at others
      cases xs with
      | nil => cases others
      | cons y xs =>
        obtain ⟨length,equal⟩ := ih (Nat.add_right_cancel others)
        simp only [Bool.false_eq_true,if_false,List.length_cons,length,List.zipIdx_cons,List.filter_cons,
          here,Bool.not_false,if_true,List.map_cons,equal,and_self]

theorem normalizeAxes_count {axes : List Int} {rank : Nat} {found : List Nat}
    (chosen : normalizeAxes axes rank = .ok found) :
    (List.range rank).countP (fun a => !found.contains a) + found.length = rank := by
  obtain ⟨all,-,equal⟩ := bind_ok.mp chosen
  cases equal
  have same : (List.range rank).countP (fun a => !((List.range rank).filter all.contains).contains a) =
      (List.range rank).countP (fun a => !all.contains a) := by
    refine List.countP_congr fun a inside => ?_
    simp [List.mem_filter,List.mem_range.mp inside]
  rw [same,← List.countP_eq_length_filter,Nat.add_comm]
  have parts := List.length_eq_countP_add_countP all.contains (l := List.range rank)
  simpa using parts.symm

-- Beside the added axes there are as many as the list has.
theorem expand_others {axes : List Int} {n : Nat} {found : List Nat}
    (chosen : normalizeAxes axes (n + axes.length) = .ok found) (distinct : found.length = axes.length) :
    (List.range' 0 (n + axes.length)).countP (fun a => !found.contains a) = n := by
  have parts := normalizeAxes_count chosen
  rw [List.range_eq_range'] at parts
  omega

-- Expanding and dropping the same axes.
theorem expand_undone {axes : List Int} {s s' : Shape} {found : List Nat}
    (expanded : expand axes 1 s = .ok s') (chosen : normalizeAxes axes s'.length = .ok found) :
    dropAxes found s' = s := by
  obtain ⟨axes',chosen',length,rfl⟩ := expand_ok expanded
  obtain ⟨rank,undone⟩ := dropAxes_addAxes (e := 1) (expand_others chosen' length)
  rw [rank,chosen'] at chosen
  cases chosen
  exact undone

theorem eval_parts {axes : List Int} (evaluated : eval axes t = .ok u) :
    expand axes 1 t.shape = .ok u.shape ∧ u.dtype = t.dtype := by
  obtain ⟨shape,expanded,equal⟩ := bind_ok.mp evaluated
  cases equal
  exact ⟨expanded,rfl⟩

theorem place_sound {axes : List Int} (expanded : expand axes 1 t.shape = .ok u.shape)
    (input : x.accepts t = true) (output : out.accepts u = true)
    (found : place axes x out = .ok r) : Hold r [t] [u] := by
  unfold place at found
  split at found
  · rename_i s known
    have fits := Fact.accepts_fits input known
    obtain ⟨dims,there,found⟩ := bind_ok.mp found
    obtain ⟨o,shaped,equal⟩ := bind_ok.mp found
    cases equal
    obtain ⟨axes',chosen,-,shape⟩ := expand_ok expanded
    obtain ⟨again,chosen',-,rfl⟩ := expand_ok there
    rw [fits.length_eq,chosen] at chosen'
    cases chosen'
    refine hold_one input (Fact.withDims_accepts output shaped ?_)
    rw [shape,fits.length_eq]
    exact forall₂_addAxes fits axes' rfl 0 _
  · rename_i s none known
    have fits := Fact.accepts_fits output known
    obtain ⟨axes',chosen,found⟩ := bind_ok.mp found
    obtain ⟨y,shaped,equal⟩ := bind_ok.mp found
    cases equal
    have dropped := forall₂_dropAxes fits axes'
    rw [expand_undone expanded (fits.length_eq ▸ chosen)] at dropped
    exact hold_one (Fact.withDims_accepts input shaped dropped) output
  · cases found
    exact hold_one input output

theorem infer_sound {axes : List Int} (evaluated : eval axes t = .ok u) (input : Accept ins [t])
    (output : Accept outs [u]) (found : infer axes ins outs = .ok r) : Hold r [t] [u] := by
  obtain ⟨expanded,dtype⟩ := eval_parts evaluated
  obtain ⟨⟨x,out⟩,shared,found⟩ := bind_ok.mp found
  obtain ⟨input,output⟩ := sharedPair_accept input output dtype shared
  exact place_sound expanded input output found

end ExpandDims

namespace Flatten

theorem product_fits {s : ShapeFact} {shape : Shape} {n : Nat} (fits : s.Fits shape)
    (known : s.product? = some n) : n = shape.size := by
  obtain ⟨extents,all,rfl⟩ := Option.map_eq_some_iff.mp known
  rw [ShapeFact.extents?_eq_some.mp all,ShapeFact.fits_ofShape] at fits
  rw [fits]

theorem collapse_accepts {s : ShapeFact} {shape : Shape} (fits : s.Fits shape) :
    (collapse s).accepts shape.size = true := by
  unfold collapse
  split
  · obtain ⟨n,rest,accept,none,rfl⟩ := List.forall₂_cons_left_iff.mp fits
    cases none
    rw [Shape.size,Shape.size,Nat.mul_one]
    exact accept
  · split
    · rename_i n known
      exact Dim.accepts_known.mpr (product_fits fits known)
    · split <;> rfl

theorem eval_parts {axis : Int} (evaluated : eval axis t = .ok u) : ∃ a, split axis t.shape.length = .ok a ∧
    u.dtype = t.dtype ∧ u.shape = [Shape.size (t.shape.take a),Shape.size (t.shape.drop a)] := by
  obtain ⟨a,cut,equal⟩ := bind_ok.mp evaluated
  cases equal
  exact ⟨a,cut,rfl,rfl⟩

theorem infer_sound {axis : Int} (evaluated : eval axis t = .ok u) (input : Accept ins [t])
    (output : Accept outs [u]) (found : infer axis ins outs = .ok r) : Hold r [t] [u] := by
  obtain ⟨a,cut,dtype,shape⟩ := eval_parts evaluated
  obtain ⟨⟨x,out⟩,shared,found⟩ := bind_ok.mp found
  obtain ⟨input,output⟩ := sharedPair_accept input output dtype shared
  obtain ⟨o,two,found⟩ := bind_ok.mp found
  have output := Fact.withDims_accepts output two (shape ▸ .cons rfl (.cons rfl .nil))
  dsimp only at found input
  split at found
  · cases found
    exact hold_one input output
  · rename_i s known
    have fits := Fact.accepts_fits input known
    obtain ⟨b,here,found⟩ := bind_ok.mp found
    obtain ⟨o',shaped,equal⟩ := bind_ok.mp found
    cases equal
    rw [fits.length_eq,cut] at here
    cases here
    refine hold_one input (Fact.withDims_accepts output shaped (shape ▸ .cons ?_ (.cons ?_ .nil)))
    · exact collapse_accepts (List.forall₂_take a fits)
    · exact collapse_accepts (List.forall₂_drop a fits)

end Flatten

namespace Reduction

variable {k : Reduction} {name : String} {given : Option (List Int)} {keepDims : Bool}

theorem eval_ok (evaluated : k.eval name given keepDims t = .ok u) : t.dtype.isNumeric = true ∧
    ∃ chosen, axes given t.shape.length = .ok chosen ∧
      u = if keepDims then k.reduce chosen t else (k.reduce chosen t).reshape (dropAxes chosen t.shape) := by
  unfold eval at evaluated
  dsimp only at evaluated
  split at evaluated
  · rename_i numeric
    obtain ⟨chosen,found,evaluated⟩ := bind_ok.mp evaluated
    split at evaluated
    · cases evaluated
    · cases evaluated
      exact ⟨numeric,chosen,found,rfl⟩
  · cases evaluated

theorem eval_parts (evaluated : k.eval name given keepDims t = .ok u) :
    ∃ chosen, axes given t.shape.length = .ok chosen ∧ u.dtype = t.dtype ∧
      u.shape = if keepDims then keptShape chosen t.shape else dropAxes chosen t.shape := by
  obtain ⟨-,chosen,found,rfl⟩ := eval_ok evaluated
  cases keepDims <;> exact ⟨chosen,found,rfl,rfl⟩

theorem dims_fit {s : ShapeFact} {shape : Shape} (fits : s.Fits shape) (axes : List Nat) :
    ShapeFact.Fits
      (if keepDims then s.zipIdx.map fun (d,i) => if axes.contains i then Dim.one else d else dropAxes axes s)
      (if keepDims then keptShape axes shape else dropAxes axes shape) := by
  cases keepDims with
  | true => exact forall₂_mark fits axes rfl
  | false => exact forall₂_dropAxes fits axes

-- The rule once the element type is supported.
def conclude (given : Option (List Int)) (keepDims : Bool) (x out : Fact) : Outcome (Facts × Facts) :=
  match x.shape with
  | none => .ok ([x],[out])
  | some s => do
    let axes ← axes given s.length
    let dims :=
      if keepDims then s.zipIdx.map fun (d,i) => if axes.contains i then Dim.one else d
      else dropAxes axes s
    return ([x],[← out.withDims dims])

theorem conclude_sound {chosen : List Nat} (found : axes given t.shape.length = .ok chosen)
    (shape : u.shape = if keepDims then keptShape chosen t.shape else dropAxes chosen t.shape)
    (input : x.accepts t = true) (output : out.accepts u = true)
    (concluded : conclude given keepDims x out = .ok r) : Hold r [t] [u] := by
  unfold conclude at concluded
  split at concluded
  · cases concluded
    exact hold_one input output
  · rename_i s known
    have fits := Fact.accepts_fits input known
    obtain ⟨again,there,concluded⟩ := bind_ok.mp concluded
    obtain ⟨o,shaped,equal⟩ := bind_ok.mp concluded
    cases equal
    rw [fits.length_eq,found] at there
    cases there
    exact hold_one input (Fact.withDims_accepts output shaped (shape ▸ dims_fit fits chosen))

theorem infer_sound (evaluated : k.eval name given keepDims t = .ok u) (input : Accept ins [t])
    (output : Accept outs [u]) (found : infer name given keepDims ins outs = .ok r) : Hold r [t] [u] := by
  obtain ⟨chosen,axes_,dtype,shape⟩ := eval_parts evaluated
  obtain ⟨⟨x,out⟩,shared,found⟩ := bind_ok.mp found
  obtain ⟨input,output⟩ := sharedPair_accept input output dtype shared
  dsimp only at found
  split at found
  · split at found
    · exact conclude_sound axes_ shape input output found
    · cases found
  · exact conclude_sound axes_ shape input output found

end Reduction

end TensorGraph
