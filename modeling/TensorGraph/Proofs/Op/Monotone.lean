import TensorGraph.Op
import TensorGraph.Proofs.Fact.Monotone

namespace TensorGraph
open Outcome

-- Both sides of a rule's answer.
def Facts.Both (p q : Facts × Facts) : Prop := p.1.Under q.1 ∧ p.2.Under q.2

namespace Facts

theorem under_one {a' a : Fact} (under : a'.Under a) : Under [a'] [a] := .cons under .nil

theorem both_one {x' x out' out : Fact} (input : x'.Under x) (output : out'.Under out) :
    Both ([x'],[out']) ([x],[out]) := ⟨under_one input,under_one output⟩

end Facts

section
variable {α β : Type} {R : α → β → Prop} {xs : List α} {ys : List β} {x : α} {y : β}

-- One entry on some of the axes.
theorem forall₂_mark (related : List.Forall₂ R xs ys) (axes : List Nat) (entry : R x y) :
    List.Forall₂ R (xs.zipIdx.map fun (d,i) => if axes.contains i then x else d)
      (ys.zipIdx.map fun (d,i) => if axes.contains i then y else d) := by
  rw [List.forall₂_map_left_iff,List.forall₂_map_right_iff]
  refine (forall₂_zipIdx related 0).imp ?_
  rintro ⟨d',i⟩ ⟨d,_⟩ ⟨low,rfl⟩
  dsimp only
  split
  · exact entry
  · exact low

theorem forall₂_dropAxes (related : List.Forall₂ R xs ys) (axes : List Nat) :
    List.Forall₂ R (dropAxes axes xs) (dropAxes axes ys) := by
  rw [dropAxes,dropAxes,List.forall₂_map_left_iff,List.forall₂_map_right_iff]
  refine (List.rel_filter ?_ (forall₂_zipIdx related 0)).imp fun _ _ agree => agree.1
  intro a b agree
  simp only [agree.2]

theorem forall₂_addAxes (related : List.Forall₂ R xs ys) (axes : List Nat) (entry : R x y)
    (i count : Nat) : List.Forall₂ R (addAxes axes x i count xs) (addAxes axes y i count ys) := by
  induction count generalizing i xs ys with
  | zero => exact .nil
  | succ count ih =>
    unfold addAxes
    split
    · exact .cons entry (ih related (i + 1))
    · cases related with
      | nil => exact .nil
      | cons head rest => exact .cons head (ih rest (i + 1))

end

namespace ShapeFact

theorem mark_below {s' s : ShapeFact} (below : s'.Below s) (axes : List Nat) :
    Below (s'.zipIdx.map fun (d,i) => if axes.contains i then .one else d)
      (s.zipIdx.map fun (d,i) => if axes.contains i then .one else d) :=
  forall₂_mark below axes (Dim.below_refl _)

theorem dropAxes_below {s' s : ShapeFact} (below : s'.Below s) (axes : List Nat) :
    Below (dropAxes axes s') (dropAxes axes s) := forall₂_dropAxes below axes

theorem addAxes_below {s' s : ShapeFact} (below : s'.Below s) (axes : List Nat) (i count : Nat) :
    Below (addAxes axes .one i count s') (addAxes axes .one i count s) :=
  forall₂_addAxes below axes (Dim.below_refl _) i count

-- Once every extent is known there is nothing to learn.
theorem extents?_below {s' s : ShapeFact} {ns : Shape} (below : s'.Below s)
    (known : s'.extents? = some ns) : s.extents? = some ns := by
  rw [extents?_eq_some] at known ⊢
  subst known
  exact (below.eq (by simp [ofShape,Dim.isUnknown])).symm

theorem unknown_extents? {s : ShapeFact} (member : .unknown ∈ s) : s.extents? = none := by
  cases known : s.extents? with
  | none => rfl
  | some ns =>
    rw [extents?_eq_some] at known
    subst known
    simp [ofShape] at member

theorem all_isKnown {s : ShapeFact} (known : s.all Dim.isKnown = true) :
    ∀ d ∈ s, d.isUnknown = false := by
  intro d member
  have found := List.all_eq_true.mp known d member
  cases d <;> simp_all [Dim.isKnown,Dim.isUnknown]

end ShapeFact

section
variable {ins' ins outs' outs : Facts} {x' x out' out : Fact}

namespace Transpose

theorem forall₂_map_getD {α β : Type} {R : α → β → Prop} {xs : List α} {ys : List β} {x : α} {y : β}
    (related : List.Forall₂ R xs ys) (beyond : R x y) (p : List Nat) :
    List.Forall₂ R (p.map fun a => xs.getD a x) (p.map fun a => ys.getD a y) := by
  rw [List.forall₂_map_left_iff,List.forall₂_map_right_iff,List.forall₂_same]
  exact fun a _ => forall₂_getD related a beyond

theorem forall₂_scatter {α β : Type} {R : α → β → Prop} {xs : List α} {ys : List β} {x : α} {y : β}
    (related : List.Forall₂ R xs ys) (beyond : R x y) (p : List Nat) :
    List.Forall₂ R (scatter p xs x) (scatter p ys y) := by
  rw [scatter,scatter,List.forall₂_map_left_iff,List.forall₂_map_right_iff,List.forall₂_same]
  exact fun a _ => forall₂_getD related _ beyond

theorem map_getD_below {s' s : ShapeFact} (below : s'.Below s) (p : List Nat) :
    ShapeFact.Below (p.map fun a => s'.getD a .unknown) (p.map fun a => s.getD a .unknown) :=
  forall₂_map_getD below (Dim.below_refl _) p

theorem scatter_below {s' s : ShapeFact} (below : s'.Below s) (p : List Nat) :
    ShapeFact.Below (scatter p s' .unknown) (scatter p s .unknown) :=
  forall₂_scatter below (Dim.below_refl _) p

def forward (perm : Option (List Int)) (x out : Fact) : Outcome Fact :=
  match x.shape with
  | none => .ok out
  | some s => do out.withDims ((← permutation perm s.length).map fun a => s.getD a .unknown)

def backward (perm : Option (List Int)) (x out : Fact) : Outcome Fact :=
  match out.shape with
  | none => .ok x
  | some s => do x.withDims (scatter (← permutation perm s.length) s .unknown)

theorem infer_eq {perm : Option (List Int)} : infer perm ins outs =
    Facts.sharedPair ins outs >>= fun p => forward perm p.1 p.2 >>= fun out =>
      backward perm p.1 out >>= fun x => .ok ([x],[out]) := by
  unfold infer forward backward
  refine congrArg (_ >>= ·) (funext fun p => ?_)
  dsimp only
  cases p.1.shape with
  | none =>
    simp only [pure_eq_ok,ok_bind]
    cases p.2.shape <;> simp
  | some s =>
    simp only [pure_eq_ok,ok_bind,bind_assoc]
    refine congrArg (_ >>= ·) (funext fun q => congrArg (_ >>= ·) (funext fun out => ?_))
    cases out.shape <;> simp

theorem forward_within {perm : Option (List Int)} (input : x'.Under x) (output : out'.Under out) :
    Within Fact.Under (forward perm x' out') (forward perm x out) := by
  unfold forward
  rcases input.shape_cases with none | ⟨s',s,known',known,below⟩
  · rw [none]
    cases x.shape with
    | none => exact within_ok output
    | some s => exact within_right fun p _ => output.learnsDims
  · rw [known',known]
    dsimp only
    rw [below.length_eq]
    exact within_same fun p _ => Fact.withDims_within output (map_getD_below below p)

theorem backward_within {perm : Option (List Int)} (input : x'.Under x) (output : out'.Under out) :
    Within Fact.Under (backward perm x' out') (backward perm x out) := by
  unfold backward
  rcases output.shape_cases with none | ⟨s',s,known',known,below⟩
  · rw [none]
    cases out.shape with
    | none => exact within_ok input
    | some s => exact within_right fun p _ => input.learnsDims
  · rw [known',known]
    dsimp only
    rw [below.length_eq]
    exact within_same fun p _ => Fact.withDims_within input (scatter_below below p)

theorem infer_within {perm : Option (List Int)} (underIns : ins'.Under ins)
    (underOuts : outs'.Under outs) : Within Facts.Both (infer perm ins' outs') (infer perm ins outs) := by
  rw [infer_eq,infer_eq]
  refine within_bind (Facts.sharedPair_within underIns underOuts) fun p' p both => ?_
  refine within_bind (forward_within both.1 both.2) fun out' out output => ?_
  exact within_bind (backward_within both.1 output) fun x' x input =>
    within_ok (Facts.both_one input output)

end Transpose

namespace Slice

theorem dim_within {s : Span} {d' d : Dim} (below : d'.Below d) :
    Within Dim.Below (dim s d') (dim s d) := by
  rcases below with rfl | rfl
  · intro e found
    refine ⟨(s.length.map Dim.known).getD .unknown,by cases known : s.length <;> simp [dim,known],?_⟩
    cases known : s.length with
    | none => exact Dim.unknown_below e
    | some k =>
      -- the length of the span is all there is to the answer
      refine .inr ?_
      cases d with
      | known n =>
        simp only [dim,known] at found
        split at found
        · cases found; rfl
        · cases found
      | streaming | unknown => simpa [dim,known] using found
  · exact fun e found => ⟨e,found,Dim.below_refl e⟩

theorem infer_within {spans : List Span} (underIns : ins'.Under ins)
    (underOuts : outs'.Under outs) : Within Facts.Both (infer spans ins' outs') (infer spans ins outs) := by
  unfold infer
  refine within_bind (Facts.sharedPair_within underIns underOuts) fun p' p both => ?_
  refine within_bind (Fact.withDims_shaped both.1 (ShapeFact.below_refl _)) ?_
  rintro x' x ⟨input,s',s,known',known,below⟩
  rw [known',known]
  refine within_bind (within_mapM (P := fun a b => a.1 = b.1 ∧ a.2.Below b.2) ?_ ?_) fun dims' dims low =>
    within_bind (Fact.withDims_within both.2 low) fun out' out output =>
      within_ok (Facts.both_one input output)
  · rintro ⟨s,d'⟩ ⟨_,d⟩ ⟨rfl,low⟩
    exact dim_within low
  · exact forall₂_zip_left below

end Slice

namespace Squeeze

theorem axes_within {given : Option (List Int)} {s' s : ShapeFact} (below : s'.Below s) :
    Within (fun a b => a = none ∨ a = b) (axes given s') (axes given s) := by
  unfold axes
  cases given with
  | none =>
    dsimp only
    split
    · rename_i known
      rw [below.eq (ShapeFact.all_isKnown known)]
      rw [below.eq (ShapeFact.all_isKnown known)] at known
      rw [if_pos known]
      exact within_ok (.inr rfl)
    · exact fun b _ => ⟨none,rfl,.inl rfl⟩
  | some as =>
    dsimp only
    rw [below.length_eq]
    refine within_same fun found _ => within_bind (within_loop (P := (· = ·)) ?_
      (List.forall₂_same.mpr fun _ _ => rfl)) fun _ _ _ => within_ok (.inr rfl)
    rintro a _ rfl
    rcases ShapeFact.getD_below below a (Dim.below_refl .unknown) with unknown | equal
    · rw [unknown]
      intro t passed
      refine ⟨_,rfl,rfl,?_⟩
      split at passed
      · split at passed
        · cases passed
        · cases passed; rfl
      · cases passed; rfl
    · rw [equal]
      intro t passed
      have same : t = .yield ⟨⟩ := by
        split at passed
        · split at passed
          · cases passed
          · cases passed; rfl
        · cases passed; rfl
      exact ⟨t,passed,same,same⟩

-- The poorer side may stop before the other.
theorem early_within {x' out' x out : Fact} (input : x'.Under x) (output : out'.Under out)
    (found : Option (List Nat)) (s : ShapeFact) :
    Within Facts.Both (.ok ([x'],[out'])) (match found with
      | none => .ok ([x],[out])
      | some found => do
        let x ← x.withDims (s.zipIdx.map fun (d,i) => if found.contains i then .one else d)
        let out ← out.withDims (dropAxes found (x.shape.getD []))
        return ([x],[out])) := by
  cases found with
  | none => exact within_ok (Facts.both_one input output)
  | some found =>
    exact within_gain input.learnsDims fun x input => within_gain output.learnsDims fun out output =>
      within_ok (Facts.both_one input output)

theorem infer_within {given : Option (List Int)} (underIns : ins'.Under ins)
    (underOuts : outs'.Under outs) : Within Facts.Both (infer given ins' outs') (infer given ins outs) := by
  unfold infer
  refine within_bind (Facts.sharedPair_within underIns underOuts) ?_
  rintro ⟨x',out'⟩ ⟨x,out⟩ ⟨input,output⟩
  dsimp only
  rcases input.shape_cases with none | ⟨s',s,known',known,below⟩
  · rw [none]
    cases x.shape with
    | none => exact within_ok (Facts.both_one input output)
    | some s => exact within_right fun found _ => early_within input output found s
  · rw [known',known]
    refine within_bind (axes_within below) ?_
    rintro found _ (rfl | rfl)
    · exact early_within input output _ s
    · cases found with
      | none => exact within_ok (Facts.both_one input output)
      | some found =>
        refine within_bind (Fact.withDims_shaped input (ShapeFact.mark_below below found)) ?_
        rintro x' x ⟨input,r',r,known',known,low⟩
        rw [known',known]
        exact within_bind (Fact.withDims_within output (ShapeFact.dropAxes_below low found))
          fun out' out output => within_ok (Facts.both_one input output)

end Squeeze

namespace Flatten

theorem collapse_below {s' s : ShapeFact} (below : s'.Below s) : (collapse s').Below (collapse s) := by
  by_cases known : ∀ d ∈ s', d.isUnknown = false
  · rw [below.eq known]
    exact Dim.below_refl _
  · simp only [not_forall,Bool.not_eq_false] at known
    obtain ⟨d,member,unknown⟩ := known
    rw [Dim.isUnknown_iff] at unknown
    subst unknown
    unfold collapse
    split
    · cases List.mem_singleton.mp member
      cases below with
      | cons head rest =>
        cases rest
        exact Dim.unknown_below _
    · have mixed : (s'.all fun d => d.isStreaming || d == .one) = false :=
        List.all_eq_false.mpr ⟨_,member,by decide⟩
      simp only [ShapeFact.product?,ShapeFact.unknown_extents? member,Option.map_none,mixed,
        Bool.and_false,Bool.false_eq_true,if_false]
      exact Dim.unknown_below _

theorem infer_within {axis : Int} (underIns : ins'.Under ins)
    (underOuts : outs'.Under outs) : Within Facts.Both (infer axis ins' outs') (infer axis ins outs) := by
  unfold infer
  refine within_bind (Facts.sharedPair_within underIns underOuts) ?_
  rintro ⟨x',out'⟩ ⟨x,out⟩ ⟨input,output⟩
  refine within_bind (Fact.withDims_within output (ShapeFact.below_refl _)) fun out' out output => ?_
  rcases input.shape_cases with none | ⟨s',s,known',known,below⟩
  · rw [none]
    cases x.shape with
    | none => exact within_ok (Facts.both_one input output)
    | some s =>
      exact within_right fun a _ => within_gain output.learnsDims fun out output =>
        within_ok (Facts.both_one input output)
  · rw [known',known]
    dsimp only
    rw [below.length_eq]
    refine within_same fun a _ => within_bind (Fact.withDims_within output (.cons ?_ (.cons ?_ .nil)))
      fun out' out output => within_ok (Facts.both_one input output)
    · exact collapse_below (List.forall₂_take a below)
    · exact collapse_below (List.forall₂_drop a below)

end Flatten

namespace Cast

theorem infer_within {target : DType} (underIns : ins'.Under ins) (underOuts : outs'.Under outs) :
    Within Facts.Both (infer target ins' outs') (infer target ins outs) := by
  unfold infer
  refine within_bind (Facts.shareShape_within ((underIns.pad 1).append (underOuts.pad 1)))
    fun fs' fs both => within_bind (Facts.pair_within both) ?_
  rintro ⟨x',out'⟩ ⟨x,out⟩ ⟨input,output⟩
  exact within_bind (Fact.withDType_within output fun _ equal => equal) fun out' out output =>
    within_ok (Facts.both_one input output)

end Cast

namespace ShapeOf

theorem row_typed (s : List Nat) : (Fact.constant (.row s)).Typed := by
  intro t known
  cases known
  simp [Tensor.Typed,Tensor.row]

-- The last step of the rule: the output is a constant once every extent is known.
def conclude (x out : Fact) : Outcome (Facts × Facts) :=
  match x.extents? with
  | none => .ok ([x],[out])
  | some s => do
    if s.any (fun n => DType.highest true 64 < Int.ofNat n) then fail (.unworded .overflow)
    return ([x],[← out.unify (.constant (.row s))])

theorem conclude_within (input : x'.Under x) (output : out'.Under out) :
    Within Facts.Both (conclude x' out') (conclude x out) := by
  unfold conclude
  have kept : ∀ s, x'.extents? = some s → x.extents? = some s := by
    intro s known
    obtain ⟨r',shape,extents⟩ := Option.bind_eq_some_iff.mp known
    obtain ⟨r,shape',below⟩ := input.below.shape r' shape
    exact Option.bind_eq_some_iff.mpr ⟨r,shape',ShapeFact.extents?_below below extents⟩
  cases known' : x'.extents? with
  | none =>
    cases known : x.extents? with
    | none => exact within_ok (Facts.both_one input output)
    | some s =>
      dsimp only
      split
      · exact within_fail
      · exact within_gain (output.learns (row_typed s)) fun out output =>
          within_ok (Facts.both_one input output)
  | some s =>
    rw [kept s known']
    dsimp only
    split
    · exact within_fail
    · exact within_bind (Fact.unify_within output (.refl (row_typed s))) fun out' out output =>
        within_ok (Facts.both_one input output)

theorem infer_within (underIns : ins'.Under ins) (underOuts : outs'.Under outs) :
    Within Facts.Both (infer ins' outs') (infer ins outs) := by
  have input := underIns.first
  refine within_bind (Fact.withDType_within underOuts.first fun _ equal => equal) fun out' out output => ?_
  unfold Fact.rank
  rcases input.shape_cases with none | ⟨s',s,known',known,below⟩
  · rw [none]
    cases (Facts.first ins).shape with
    | none => exact conclude_within input output
    | some s => exact within_gain output.learnsDims fun out output => conclude_within input output
  · rw [known',known]
    dsimp only [Option.map_some]
    rw [below.length_eq]
    exact within_bind (Fact.withDims_within output (ShapeFact.below_refl _)) fun out' out output =>
      conclude_within input output

end ShapeOf

namespace Reduction

theorem infer_within {opType : String} {given : Option (List Int)} {keepDims : Bool}
    (underIns : ins'.Under ins) (underOuts : outs'.Under outs) :
    Within Facts.Both (infer opType given keepDims ins' outs') (infer opType given keepDims ins outs) := by
  unfold infer
  refine within_bind (Facts.sharedPair_within underIns underOuts) ?_
  rintro ⟨x',out'⟩ ⟨x,out⟩ ⟨input,output⟩
  dsimp only
  refine Fact.guard_within input ?_
  rcases input.shape_cases with none | ⟨s',s,known',known,below⟩
  · rw [none]
    cases x.shape with
    | none => exact within_ok (Facts.both_one input output)
    | some s =>
      exact within_right fun axes _ => within_gain output.learnsDims fun out output =>
        within_ok (Facts.both_one input output)
  · rw [known',known]
    dsimp only
    rw [below.length_eq]
    refine within_same fun axes _ => within_bind (Fact.withDims_within output ?_)
      fun out' out output => within_ok (Facts.both_one input output)
    split
    · exact ShapeFact.mark_below below axes
    · exact ShapeFact.dropAxes_below below axes

end Reduction

namespace UnaryKind

theorem infer_within {k : UnaryKind} (underIns : ins'.Under ins) (underOuts : outs'.Under outs) :
    Within Facts.Both (k.infer ins' outs') (k.infer ins outs) := by
  unfold infer
  refine within_bind (Facts.shareDType_within ((underIns.pad 1).append (underOuts.pad 1)))
    fun fs' fs shared => within_bind (Facts.shareShape_within shared) fun both' both under => ?_
  exact Fact.guard_within under.first (within_ok (Facts.both_one under.first (under.getD 1)))

end UnaryKind

namespace Softmax

theorem infer_within (underIns : ins'.Under ins) (underOuts : outs'.Under outs) :
    Within Facts.Both (infer ins' outs') (infer ins outs) := by
  unfold infer
  refine within_bind (Facts.shareDType_within ((underIns.pad 1).append (underOuts.pad 1)))
    fun fs' fs shared => within_bind (Facts.shareShape_within shared) fun both' both under =>
      within_bind (Facts.pair_within under) ?_
  rintro ⟨x',out'⟩ ⟨x,out⟩ ⟨input,output⟩
  exact within_bind (Fact.require_within input) fun _ _ _ => within_ok (Facts.both_one input output)

end Softmax

namespace MatMul

-- The rule once both shapes are known.
def combine (a b out : Fact) (s t : ShapeFact) : Outcome (Facts × Facts) :=
  match s.reverse, t.reverse with
  | ka :: _, last :: before => do
    let k ← ka.unify (before.headD last)
    let a ← a.withDims (s.dropLast ++ [k])
    let b ← b.withDims (match before with
      | [] => [k]
      | _ :: lead => lead.reverse ++ [k,last])
    let batch ← ShapeFact.broadcast [s.take (s.length - 2),t.take (t.length - 2)]
    let row := if 2 ≤ s.length then [s.getD (s.length - 2) .unknown] else []
    let column := if before.isEmpty then [] else [last]
    return ([a,b],[← out.withDims (batch ++ row ++ column)])
  | _, _ => fail .matMulRank

theorem combine_learns {a' a b' b : Fact} {s t : ShapeFact} (left : a'.Under a) (right : b'.Under b)
    (output : out'.Under out) :
    Within Facts.Both (.ok ([a',b'],[out'])) (combine a b out s t) := by
  unfold combine
  split
  · refine within_right fun k _ => within_gain left.learnsDims fun a left =>
      within_gain right.learnsDims fun b right => within_right fun batch _ => ?_
    exact within_gain output.learnsDims fun out output =>
      within_ok ⟨.cons left (.cons right .nil),Facts.under_one output⟩
  · exact within_fail

theorem combine_within {a' a b' b : Fact} {s' s t' t : ShapeFact} (left : a'.Under a)
    (right : b'.Under b) (output : out'.Under out) (lowS : s'.Below s) (lowT : t'.Below t) :
    Within Facts.Both (combine a' b' out' s' t') (combine a b out s t) := by
  unfold combine
  have reversedS : List.Forall₂ Dim.Below s'.reverse s.reverse := List.rel_reverse lowS
  have reversedT : List.Forall₂ Dim.Below t'.reverse t.reverse := List.rel_reverse lowT
  generalize s'.reverse = rs' at reversedS ⊢
  generalize s.reverse = rs at reversedS ⊢
  generalize t'.reverse = rt' at reversedT ⊢
  generalize t.reverse = rt at reversedT ⊢
  cases reversedS with
  | nil => exact within_fail
  | cons inner _ =>
    cases reversedT with
    | nil => exact within_fail
    | cons last before =>
      dsimp only
      refine within_bind (Dim.unify_within inner (ShapeFact.headD_below before last)) fun k' k extent => ?_
      have single : ShapeFact.Below [k'] [k] := .cons extent .nil
      refine within_bind (Fact.withDims_within left
        (ShapeFact.append_below (ShapeFact.dropLast_below lowS) single)) fun a' a left => ?_
      refine within_bind (Fact.withDims_within right ?_) fun b' b right => ?_
      · cases before with
        | nil => exact single
        | cons _ lead =>
          exact ShapeFact.append_below (List.rel_reverse lead) (.cons extent (.cons last .nil))
      · rw [lowS.length_eq,lowT.length_eq]
        refine within_bind (ShapeFact.broadcast_within
          (.cons (List.forall₂_take _ lowS) (.cons (List.forall₂_take _ lowT) .nil))) fun batch' batch low => ?_
        refine within_bind (Fact.withDims_within output
          (ShapeFact.append_below (ShapeFact.append_below low ?_) ?_)) fun out' out output =>
            within_ok ⟨.cons left (.cons right .nil),Facts.under_one output⟩
        · split
          · exact .cons (ShapeFact.getD_below lowS _ (Dim.below_refl _)) .nil
          · exact .nil
        · cases before with
          | nil => exact .nil
          | cons _ _ => exact .cons last .nil

def join (a b out : Fact) : Outcome (Facts × Facts) :=
  match a.shape, b.shape with
  | some s, some t => combine a b out s t
  | _, _ => .ok ([a,b],[out])

theorem join_within {a' a b' b : Fact} (left : a'.Under a) (right : b'.Under b)
    (output : out'.Under out) : Within Facts.Both (join a' b' out') (join a b out) := by
  -- where a shape is open on the poorer side, that side stops
  have early : Within Facts.Both (.ok ([a',b'],[out'])) (join a b out) := by
    unfold join
    split
    · exact combine_learns left right output
    · exact within_ok ⟨.cons left (.cons right .nil),Facts.under_one output⟩
  rcases left.shape_cases with none | ⟨s',s,knownS',knownS,lowS⟩
  · simpa only [join,none] using early
  · rcases right.shape_cases with none | ⟨t',t,knownT',knownT,lowT⟩
    · simpa only [join,none,knownS'] using early
    · simpa only [join,knownS',knownS,knownT',knownT] using combine_within left right output lowS lowT

theorem infer_within (underIns : ins'.Under ins) (underOuts : outs'.Under outs) :
    Within Facts.Both (infer ins' outs') (infer ins outs) := by
  unfold infer
  refine within_bind (Facts.shareDType_within ((underIns.pad 2).append (underOuts.pad 1))) fun fs' fs under => ?_
  match under with
  | .cons left (.cons right (.cons output .nil)) => exact join_within left right output
  | .nil | .cons _ .nil | .cons _ (.cons _ .nil) | .cons _ (.cons _ (.cons _ (.cons _ _))) =>
    exact within_fail

end MatMul

namespace Patch

def entry (s : ShapeFact) (a : Nat) : Outcome Dim :=
  match s[a]? with
  | some d => .ok d
  | none => fail (.unworded .index)

theorem entry_within {s' s : ShapeFact} (below : s'.Below s) (a : Nat) :
    Within Dim.Below (entry s' a) (entry s a) := by
  induction below generalizing a with
  | nil => exact within_fail
  | cons head _ ih =>
    cases a with
    | zero => exact within_ok head
    | succ a => simpa [entry] using ih a

theorem entry_getD {s : ShapeFact} {a : Nat} {d : Dim} (found : entry s a = .ok d) :
    s.getD a .unknown = d := by
  unfold entry at found
  split at found
  · rename_i known
    cases found
    simp [known]
  · cases found

-- Spatial extents of the result, once those of the input are known.
def spatial (p : Patch) (rows columns : Dim) : Outcome ShapeFact :=
  match rows, columns with
  | .known h, .known w => do (← p.outputSpatial [h,w]).mapM fun o => Dim.ofInt o.count
  | _, _ => .ok [.unknown,.unknown]

theorem spatial_length {p : Patch} {rows columns : Dim} {r : ShapeFact}
    (found : spatial p rows columns = .ok r) : ∃ d e, r = [d,e] := by
  unfold spatial at found
  split at found
  · obtain ⟨windows,each,counted⟩ := bind_ok.mp found
    have length := (mapM_ok.mp counted).length_eq
    rw [← (mapM_ok.mp each).length_eq] at length
    exact List.length_eq_two.mp (by simpa using length.symm)
  · cases found; exact ⟨_,_,rfl⟩

theorem spatial_within {p : Patch} {rows' rows columns' columns : Dim} (low : rows'.Below rows)
    (low' : columns'.Below columns) :
    Within ShapeFact.Below (spatial p rows' columns') (spatial p rows columns) := by
  have early : Within ShapeFact.Below (.ok [.unknown,.unknown]) (spatial p rows columns) := by
    intro r found
    obtain ⟨d,e,rfl⟩ := spatial_length found
    exact ⟨_,rfl,.cons (Dim.unknown_below d) (.cons (Dim.unknown_below e) .nil)⟩
  rcases low with rfl | rfl
  · exact early
  · rcases low' with rfl | rfl
    · cases rows' <;> exact early
    · exact fun r found => ⟨r,found,ShapeFact.below_refl r⟩

def arrange (p : Patch) (batch channels : Dim) (extents : ShapeFact) : ShapeFact :=
  if p.channelsLast then batch :: extents ++ [channels] else batch :: channels :: extents

theorem arrange_below {p : Patch} {b' b c' c : Dim} {s' s : ShapeFact} (batch : b'.Below b)
    (channels : c'.Below c) (below : s'.Below s) : (arrange p b' c' s').Below (arrange p b c s) := by
  unfold arrange
  split
  · exact .cons batch (ShapeFact.append_below below (.cons channels .nil))
  · exact .cons batch (.cons channels below)

theorem outputDims_eq {p : Patch} {s : ShapeFact} {channels : Dim} : p.outputDims s channels =
    entry s p.spatialAxes.1 >>= fun rows => entry s p.spatialAxes.2 >>= fun columns =>
      spatial p rows columns >>= fun extents => entry s 0 >>= fun batch =>
        .ok (arrange p batch channels extents) := by
  unfold outputDims
  refine congrArg (_ >>= ·) (funext fun rows => congrArg (_ >>= ·) (funext fun columns => ?_))
  unfold spatial
  cases rows with
  | known h =>
    cases columns with
    | known w => simp only [bind_assoc]; rfl
    | streaming | unknown => rfl
  | streaming | unknown => rfl

theorem outputDims_within {p : Patch} {s' s : ShapeFact} {c' c : Dim} (below : s'.Below s)
    (channels : c'.Below c) : Within ShapeFact.Below (p.outputDims s' c') (p.outputDims s c) := by
  rw [outputDims_eq,outputDims_eq]
  refine within_bind (entry_within below _) fun rows' rows low => within_bind (entry_within below _)
    fun columns' columns low' => within_bind (spatial_within low low') fun extents' extents dims => ?_
  exact within_bind (entry_within below 0) fun batch' batch head =>
    within_ok (arrange_below head channels dims)

end Patch

namespace Pooling

theorem infer_within {k : PoolKind} {p : Patch} (underIns : ins'.Under ins)
    (underOuts : outs'.Under outs) : Within Facts.Both (infer k p ins' outs') (infer k p ins outs) := by
  unfold infer
  refine within_bind (Facts.sharedPair_within underIns underOuts) ?_
  rintro ⟨x',out'⟩ ⟨x,out⟩ ⟨input,output⟩
  dsimp only
  refine Fact.check_within input ?_
  refine within_bind (Fact.withDims_shaped input (ShapeFact.below_refl _)) ?_
  rintro x' x ⟨input,s',s,known',known,below⟩
  rw [known',known]
  exact within_bind (Patch.outputDims_within below (ShapeFact.getD_below below _ (Dim.below_refl _)))
    fun dims' dims low => within_bind (Fact.withDims_within output low) fun out' out output =>
      within_ok (Facts.both_one input output)

end Pooling

namespace BatchNorm

theorem infer_within (underIns : ins'.Under ins) (underOuts : outs'.Under outs) :
    Within Facts.Both (infer ins' outs') (infer ins outs) := by
  unfold infer
  refine within_bind (Facts.shareDType_within ((underIns.pad 5).append (underOuts.pad 1)))
    fun fs' fs under => within_bind (Fact.require_within under.first) fun _ _ _ => ?_
  refine within_bind (Facts.shareShape_within (.cons under.first (.cons (under.getD 5) .nil)))
    fun both' both shared => ?_
  have input := shared.first
  have output := shared.getD 1
  refine within_bind (within_mapM (fun _ _ low => Fact.withDims_within low (ShapeFact.below_refl _))
    (List.forall₂_take 4 (List.forall₂_drop 1 under))) fun rows' rows low => ?_
  refine within_bind (Facts.shareShape_within low) fun params' params parameters => ?_
  rcases input.shape_cases with none | ⟨s',s,known',known,below⟩
  · rw [none]
    cases (Facts.first both).shape with
    | none => exact within_ok ⟨.cons input parameters,Facts.under_one output⟩
    | some s =>
      dsimp only
      split
      · refine within_gain (within_learn (fun _ _ low => low.learnsDims) parameters)
          fun params parameters => within_gain input.learnsDims fun x input => ?_
        exact within_gain output.learnsShape fun out output =>
          within_ok ⟨.cons input parameters,Facts.under_one output⟩
      · exact within_fail
  · rw [known',known]
    match below with
    | .nil | .cons _ .nil => exact within_fail
    | .cons batch (.cons channel rest) =>
      refine within_bind (within_mapM (fun _ _ low => Fact.withDims_within low (.cons channel .nil))
        parameters) fun params' params parameters => ?_
      refine within_bind (Fact.withDims_within input (.cons batch (.cons (Facts.Under.first parameters).headD rest)))
        fun x' x input => ?_
      exact within_bind (Fact.withShape_within output input.below.shape) fun out' out output =>
        within_ok ⟨.cons input parameters,Facts.under_one output⟩

end BatchNorm

namespace Convolution

theorem declareKernel_within {c : Convolution} {k' k : Fact} (kernel : k'.Under k) :
    Within Fact.Under (c.declareKernel k') (c.declareKernel k) := by
  unfold declareKernel
  cases c.kernelShape with
  | none => exact within_ok kernel
  | some spatial =>
    exact within_same fun h _ => within_same fun w _ =>
      Fact.withDims_within kernel (ShapeFact.below_refl _)

-- The result while the kernel is open, and under a kernel of two extents.
def openDims (c : Convolution) (xs : ShapeFact) (channels : Dim) : ShapeFact :=
  if c.channelsLast then [xs.getD 0 .unknown,.unknown,.unknown,channels]
  else [xs.getD 0 .unknown,channels,.unknown,.unknown]

def dimsUnder (c : Convolution) (xs : ShapeFact) (channels : Dim) : Dim → Dim → Outcome ShapeFact
  | .known h, .known w => (c.patch (h,w)).outputDims xs channels
  | _, _ => .ok (openDims c xs channels)

theorem outputDims_eq {c : Convolution} {xs ks : ShapeFact} {channels : Dim} :
    c.outputDims xs ks channels = dimsUnder c xs channels
      (ks.getD c.kernelAxes.2.2.1 .unknown) (ks.getD c.kernelAxes.2.2.2 .unknown) := by
  unfold outputDims dimsUnder
  obtain ⟨_,_,row,column⟩ := c.kernelAxes
  dsimp only
  generalize ks.getD row .unknown = h
  generalize ks.getD column .unknown = w
  cases h <;> cases w <;> rfl

theorem openDims_below {c : Convolution} {xs' xs : ShapeFact} {d' d : Dim} (lowX : xs'.Below xs)
    (channels : d'.Below d) : (openDims c xs' d').Below (openDims c xs d) := by
  have batch := ShapeFact.getD_below lowX 0 (Dim.below_refl .unknown)
  unfold openDims
  split
  · exact .cons batch (.cons (Dim.below_refl _) (.cons (Dim.below_refl _) (.cons channels .nil)))
  · exact .cons batch (.cons channels (ShapeFact.below_refl _))

theorem openDims_within {c : Convolution} {xs' xs : ShapeFact} {d' d h w : Dim}
    (lowX : xs'.Below xs) (channels : d'.Below d) :
    Within ShapeFact.Below (.ok (openDims c xs' d')) (dimsUnder c xs d h w) := by
  have batch := ShapeFact.getD_below lowX 0 (Dim.below_refl .unknown)
  unfold dimsUnder
  split
  · rename_i h w
    intro r found
    rw [Patch.outputDims_eq] at found
    obtain ⟨rows,-,found⟩ := bind_ok.mp found
    obtain ⟨columns,-,found⟩ := bind_ok.mp found
    obtain ⟨extents,each,found⟩ := bind_ok.mp found
    obtain ⟨head,first,equal⟩ := bind_ok.mp found
    cases equal
    obtain ⟨e,f,rfl⟩ := Patch.spatial_length each
    rw [Patch.entry_getD first] at batch
    exact ⟨_,rfl,Patch.arrange_below (p := c.patch (h,w)) batch channels
      (.cons (Dim.unknown_below e) (.cons (Dim.unknown_below f) .nil))⟩
  · exact within_ok (openDims_below lowX channels)

theorem outputDims_within {c : Convolution} {xs' xs ks' ks : ShapeFact} {d' d : Dim}
    (lowX : xs'.Below xs) (lowK : ∀ i, (ks'.getD i .unknown).Below (ks.getD i .unknown))
    (channels : d'.Below d) :
    Within ShapeFact.Below (c.outputDims xs' ks' d') (c.outputDims xs ks d) := by
  rw [outputDims_eq,outputDims_eq]
  rcases lowK c.kernelAxes.2.2.1 with unknown | rows
  · rw [unknown]
    exact openDims_within lowX channels
  · rcases lowK c.kernelAxes.2.2.2 with unknown | columns
    · rw [unknown]
      unfold dimsUnder
      split
      · rename_i known; cases known
      · exact openDims_within lowX channels
    · rw [rows,columns]
      unfold dimsUnder
      split
      · exact Patch.outputDims_within lowX channels
      · exact within_ok (openDims_below lowX channels)

-- The rule once data and kernel have their four axes.
def answer (c : Convolution) (x k out : Fact) (rest : Facts) : Outcome (Facts × Facts) :=
  let xs := x.shape.getD []
  let channels := (k.shape.getD []).getD c.kernelAxes.1 .unknown
  match rest with
  | [] => do return ([x,k],[← out.withDims (← c.outputDims xs (k.shape.getD []) channels)])
  | bias :: more => do
    let bias ← bias.withDims [channels]
    let channels := (bias.shape.getD []).headD .unknown
    let k ← k.withDims ((List.replicate 4 Dim.unknown).set c.kernelAxes.1 channels)
    return (x :: k :: bias :: more,[← out.withDims (← c.outputDims xs (k.shape.getD []) channels)])

theorem answer_within {c : Convolution} {k' k : Fact} {rest' rest : Facts} (input : x'.Under x)
    (lowX : ShapeFact.Below (x'.shape.getD []) (x.shape.getD [])) (kernel : k'.Under k)
    (output : out'.Under out) (others : rest'.Under rest) :
    Within Facts.Both (answer c x' k' out' rest') (answer c x k out rest) := by
  have channels := kernel.extent c.kernelAxes.1
  unfold answer
  cases others with
  | nil =>
    exact within_bind (outputDims_within lowX kernel.extent channels) fun dims' dims low =>
      within_bind (Fact.withDims_within output low) fun out' out output =>
        within_ok ⟨.cons input (.cons kernel .nil),Facts.under_one output⟩
  | cons first more =>
    refine within_bind (Fact.withDims_within first (.cons channels .nil)) fun b' b bias => ?_
    refine within_bind (Fact.withDims_within kernel
      (ShapeFact.set_below (ShapeFact.below_refl _) _ bias.headD)) fun k' k kernel => ?_
    exact within_bind (outputDims_within lowX kernel.extent bias.headD) fun dims' dims low =>
      within_bind (Fact.withDims_within output low) fun out' out output =>
        within_ok ⟨.cons input (.cons kernel (.cons bias more)),Facts.under_one output⟩

theorem infer_within {c : Convolution} (underIns : ins'.Under ins)
    (underOuts : outs'.Under outs) : Within Facts.Both (c.infer ins' outs') (c.infer ins outs) := by
  unfold infer
  refine within_bind (Facts.shareDType_within (underIns.append (underOuts.pad 1))) fun fs' fs under => ?_
  have output := under.getLastD
  have inputs := under.dropLast
  dsimp only
  generalize List.dropLast fs' = inputs' at inputs ⊢
  generalize List.dropLast fs = inputs at inputs ⊢
  match inputs with
  | .nil => exact within_fail
  | .cons input .nil => exact within_right fun _ _ => within_right fun _ _ => within_fail
  | .cons input (.cons kernel rest) =>
    refine within_bind (Fact.require_within input) fun _ _ _ => ?_
    refine within_bind (Fact.withDims_shaped input (ShapeFact.below_refl _)) ?_
    rintro x' x ⟨input,s',s,known',known,lowX⟩
    refine within_bind (Fact.withDims_within kernel (ShapeFact.below_refl _)) fun k' k kernel => ?_
    refine within_bind (declareKernel_within kernel) fun k' k kernel => ?_
    have low : ShapeFact.Below (x'.shape.getD []) (x.shape.getD []) := by
      rw [known',known]
      exact lowX
    exact Dim.guard_within (answer_within input low kernel output rest) (input.extent _) (kernel.extent _)

end Convolution

namespace Op

-- The last step of the identity's rule: a constant on one side is the constant of both.
def agree (x out : Fact) : Outcome (Facts × Facts) :=
  match x, out with
  | .constant _, _ => do return ([x],[← out.unify x])
  | _, .constant _ => do return ([← x.unify out],[out])
  | _, _ => .ok ([x],[out])

theorem agree_parts {r : Facts × Facts} (typedX : x.Typed) (typedOut : out.Typed)
    (found : agree x out = .ok r) : ∃ y o, r = ([y],[o]) ∧ x.Under y ∧ out.Under o ∧
      ∀ t, x.value = some t ∨ out.value = some t → y = .constant t ∧ o = .constant t := by
  unfold agree at found
  split at found
  · rename_i t
    obtain ⟨o,unified,equal⟩ := bind_ok.mp found
    cases equal
    have typed := Fact.unify_typed typedOut typedX unified
    have low := Fact.unify_left unified
    cases (Fact.unify_right typedX unified).value t rfl
    refine ⟨_,_,rfl,.refl typedX,⟨low,typed⟩,?_⟩
    rintro s (known | known)
    · cases known; exact ⟨rfl,rfl⟩
    · cases low.value s known; exact ⟨rfl,rfl⟩
  · rename_i t open_
    obtain ⟨y,unified,equal⟩ := bind_ok.mp found
    cases equal
    have typed := Fact.unify_typed typedX typedOut unified
    have low := Fact.unify_left unified
    cases (Fact.unify_right typedOut unified).value t rfl
    refine ⟨_,_,rfl,⟨low,typed⟩,.refl typedOut,?_⟩
    rintro s (known | known)
    · exact absurd (Fact.eq_constant known) (open_ s)
    · cases known; exact ⟨rfl,rfl⟩
  · rename_i openX openOut
    cases found
    refine ⟨_,_,rfl,.refl typedX,.refl typedOut,?_⟩
    rintro s (known | known)
    · exact absurd (Fact.eq_constant known) (openX s)
    · exact absurd (Fact.eq_constant known) (openOut s)

theorem agree_within (input : x'.Under x) (output : out'.Under out) :
    Within Facts.Both (agree x' out') (agree x out) := by
  intro r found
  obtain ⟨y,o,rfl,lowX,lowOut,constant⟩ := agree_parts input.typed output.typed found
  have inputY := input.below.under lowX
  have outputO := output.below.under lowOut
  cases x' with
  | constant t =>
    obtain ⟨rfl,rfl⟩ := constant t (.inl (by rw [input.below.value t rfl]; rfl))
    obtain ⟨c,unified,low⟩ := Fact.unify_least outputO.typed outputO.below inputY.below
    exact ⟨_,by unfold agree; rw [unified]; rfl,Facts.both_one inputY ⟨low,outputO.typed⟩⟩
  | outline d s =>
    cases out' with
    | constant t =>
      obtain ⟨rfl,rfl⟩ := constant t (.inr (by rw [output.below.value t rfl]; rfl))
      obtain ⟨c,unified,low⟩ := Fact.unify_least inputY.typed inputY.below outputO.below
      exact ⟨_,by unfold agree; rw [unified]; rfl,Facts.both_one ⟨low,inputY.typed⟩ outputO⟩
    | outline => exact ⟨_,rfl,Facts.both_one inputY outputO⟩

theorem inferIdentity_within (underIns : ins'.Under ins) (underOuts : outs'.Under outs) :
    Within Facts.Both (inferIdentity ins' outs') (inferIdentity ins outs) := by
  unfold inferIdentity
  refine within_bind (Facts.shareDType_within (.cons underIns.first (.cons underOuts.first .nil)))
    fun fs' fs shared => within_bind (Facts.shareShape_within shared) fun both' both under => ?_
  refine within_bind (Facts.pair_within under) ?_
  rintro ⟨x',out'⟩ ⟨x,out⟩ ⟨input,output⟩
  exact agree_within input output

end Op

end
end TensorGraph
