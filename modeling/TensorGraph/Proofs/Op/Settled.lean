import TensorGraph.Proofs.Fact.Backward
import TensorGraph.Proofs.Op.Monotone

namespace TensorGraph
open Outcome

variable {ins' ins outs' outs start : Facts} {out' out x' x : Fact}

namespace Facts

-- A rule at rest: what it answers is known already.
def Rests (r : Facts × Facts) (ins outs : Facts) : Prop := Below r.1 ins ∧ Below r.2 outs

theorem Refilled.later {o : ShapeFact} (begun : start.Under ins') (refilled : Refilled start ins o) :
    Refilled ins' ins o := by
  intro i s none known others
  refine refilled i s ?_ known others
  cases shape : (List.getD start i .unknown).shape with
  | none => rfl
  | some r =>
    obtain ⟨_,found,-⟩ := (begun.getD i).below.shape r shape
    rw [none] at found
    cases found

theorem learns_stretchOutput (output : out'.Under out) :
    Within Fact.Under (.ok out') (stretchOutput ins out) := by
  unfold stretchOutput
  split
  · exact within_right fun dims _ => output.learnsDims
  · exact within_ok output

theorem stretchInputs_output {q : Facts × Fact} (found : stretchInputs ins out = .ok q) : q.2 = out := by
  unfold stretchInputs at found
  split at found
  · cases found; rfl
  · obtain ⟨refilled,-,found⟩ := bind_ok.mp found
    obtain ⟨_,-,equal⟩ := bind_ok.mp found
    cases equal
    rfl

theorem learns_broadcast (under : ins'.Under ins) (output : out'.Under out) :
    Within (fun p q => Under p.1 q.1 ∧ p.2.Under q.2) (.ok (ins',out')) (broadcast ins out) := by
  rw [broadcast_eq]
  refine within_gain (learns_stretchOutput output) fun output better => ?_
  unfold stretchInputs
  split
  · exact within_ok ⟨under,better⟩
  · exact within_gain (learns_refill _ under) fun ins under => within_right fun _ _ =>
      within_ok ⟨under,better⟩

-- Once broadcasting finds nothing new, it finds nothing new with less known.
theorem broadcast_rests {q : Facts × Fact} (begun : start.Under ins') (under : ins'.Under ins)
    (output : out'.Under out) (found : broadcast ins out = .ok q)
    (restOut : q.2.Below out) (refilled : ∀ o, out.shape = some o → Refilled start ins o) :
    ∃ p, broadcast ins' out' = .ok p ∧ p.1.Under q.1 ∧ p.2.Under q.2 := by
  refine broadcast_within under output (fun r stretched o known => ?_) q found
  rw [broadcast_eq] at found
  obtain ⟨_,stretched',found⟩ := bind_ok.mp found
  cases stretched.symm.trans stretched'
  have better := within_learned (learns_stretchOutput (.refl output.typed)) stretched
  rw [stretchInputs_output found] at restOut
  rw [restOut.antisymm better.below] at known
  exact (refilled o known).later begun

end Facts

namespace BinaryKind

-- Operands and result of one element type, once either is known.
def passType (inputs : Facts) (out : Fact) : Outcome (Facts × Fact) :=
  match (Facts.first inputs).dtype, out.dtype with
  | some t, _ => do return (inputs,← out.withDType (some t))
  | none, some t => do
    let head ← (Facts.first inputs).withDType (some t)
    return (← Facts.shareDType [head,inputs.getD 1 .unknown],out)
  | none, none => return (inputs,out)

-- The element types of the rule, before the shapes.
def shareTypes (k : BinaryKind) (inputs outputs : Facts) : Outcome (Facts × Fact) := do
  let inputs ← (inputs.pad 2).shareDType
  let out := Facts.first outputs
  Fact.require (fun t => if k.supports t then .ok () else fail (.unsupportedDType k.opType t))
    (Facts.first inputs)
  if k.isComparison then return (inputs,← out.withDType (some .bool))
  else passType inputs out

theorem infer_eq {k : BinaryKind} : k.infer ins outs = k.shareTypes ins outs >>= fun p =>
    Facts.broadcast p.1 p.2 >>= fun q => .ok (q.1,[q.2]) := by
  unfold infer shareTypes passType Fact.require
  simp only [bind_assoc]
  refine congrArg (_ >>= ·) (funext fun inputs => ?_)
  cases (Facts.first inputs).dtype with
  | none =>
    cases (Facts.first outs).dtype <;> by_cases compares : k.isComparison = true <;>
      simp only [compares,Bool.false_eq_true,if_true,if_false,bind_assoc,pure_eq_ok,ok_bind]
  | some t =>
    by_cases supported : k.supports t = true <;> by_cases compares : k.isComparison = true <;>
      simp only [supported,compares,Bool.false_eq_true,if_true,if_false,bind_assoc,pure_eq_ok,ok_bind,
        fail_bind]

theorem shareDType_two {a' a b' b : Fact} (left : a'.Under a) (right : b'.Under b) :
    Within (fun fs' fs => ∃ a' b' a b, fs' = [a',b'] ∧ fs = [a,b] ∧ a'.Under a ∧ b'.Under b ∧
      ∀ t, a.dtype = some t → b.dtype = some t)
      (Facts.shareDType [a',b']) (Facts.shareDType [a,b]) := by
  have pair : Facts.Under [a',b'] [a,b] := .cons left (.cons right .nil)
  intro fs shared
  obtain ⟨fs',shared',under⟩ := Facts.shareDType_within pair fs shared
  have grown := within_learned (Facts.learns_shareDType pair) shared
  match grown with
  | .cons _ (.cons _ .nil) =>
    match under with
    | .cons left (.cons right .nil) =>
      refine ⟨_,shared',_,_,_,_,rfl,rfl,left,right,fun t known => ?_⟩
      exact Facts.shareDType_dtype shared ⟨_,List.mem_cons_self,known⟩ _ (by simp)

section
variable {k : BinaryKind} {a' a b' b : Fact}

theorem learns_passType (left : a'.Under a) (right : b'.Under b) (output : out'.Under out) :
    Within (fun p q => Facts.Under p.1 q.1 ∧ p.2.Under q.2) (.ok ([a',b'],out')) (passType [a,b] out) := by
  unfold passType
  split
  · exact within_gain output.learnsDType fun out better => within_ok ⟨.cons left (.cons right .nil),better⟩
  · exact within_gain left.learnsDType fun a left =>
      within_gain (Facts.learns_shareDType (.cons left (.cons right .nil))) fun fs shared =>
        within_ok ⟨shared,output⟩
  · exact within_ok ⟨.cons left (.cons right .nil),output⟩

theorem passType_result {t : DType} (none : a.dtype = none) (known : out.dtype = some t) :
    passType [a,b] out = a.withDType (some t) >>= fun head =>
      Facts.shareDType [head,b] >>= fun shared => .ok (shared,out) := by
  simp only [passType,Facts.first,List.headD_cons,none,known]
  rfl

theorem passType_within (left : a'.Under a) (right : b'.Under b) (output : out'.Under out)
    (same : ∀ t, a.dtype = some t → b.dtype = some t) :
    Within (fun p q => Facts.Under p.1 q.1 ∧ p.2.Under q.2) (passType [a',b'] out') (passType [a,b] out) := by
  rcases left.dtype_cases with none | ⟨t,known',known⟩
  · rcases output.dtype_cases with open_ | ⟨t,knownOut',knownOut⟩
    · have stop : passType [a',b'] out' = .ok ([a',b'],out') := by
        simp only [passType,Facts.first,List.headD_cons,none,open_]
        rfl
      rw [stop]
      exact learns_passType left right output
    · -- the operands get their type from the result, or have it on the better informed side
      rw [passType_result none knownOut']
      cases known : a.dtype with
      | none =>
        rw [passType_result known knownOut]
        exact within_bind (Fact.withDType_within left fun _ equal => equal) fun h' h head =>
          within_bind (Facts.shareDType_within (.cons head (.cons right .nil))) fun fs' fs shared =>
            within_ok ⟨shared,output⟩
      | some u =>
        intro q found
        simp only [passType,Facts.first,List.headD_cons,known] at found
        obtain ⟨c,typed,equal⟩ := bind_ok.mp found
        cases equal
        cases Fact.withDType_same typed knownOut
        obtain ⟨head,joined,low⟩ := Fact.unify_least left.typed left.below
          (b := .outline (some t) Option.none)
          (Fact.outline_below (fun e equal => equal ▸ known) (ShapeFact.none_below? _))
        have pair : Facts.Under [head,b'] [a,b] := .cons ⟨low,left.typed⟩ (.cons right .nil)
        have types : ∀ f ∈ [a,b], f.dtype = some t := by simp [known,same t known]
        obtain ⟨shared,found,under⟩ := Facts.shareDType_least pair types
        have better := within_learned output.learnsDType typed
        exact ⟨(shared,out'),by unfold Fact.withDType; rw [joined,ok_bind,found]; rfl,under,better⟩
  · simp only [passType,Facts.first,List.headD_cons,known',known]
    exact within_bind (Fact.withDType_within output fun _ equal => equal) fun out' out better =>
      within_ok ⟨.cons left (.cons right .nil),better⟩

theorem shareTypes_within (left : a'.Under a) (right : b'.Under b) (underOuts : outs'.Under outs) :
    Within (fun p q => Facts.Under p.1 q.1 ∧ p.2.Under q.2) (k.shareTypes [a',b'] outs')
      (k.shareTypes [a,b] outs) := by
  have output := underOuts.first
  unfold shareTypes
  refine within_bind (shareDType_two left right) ?_
  rintro _ _ ⟨a',b',a,b,rfl,rfl,left,right,same⟩
  refine within_bind (Fact.require_within left) fun _ _ _ => ?_
  split
  · exact within_bind (Fact.withDType_within output fun _ equal => equal) fun out' out better =>
      within_ok ⟨.cons left (.cons right .nil),better⟩
  · exact passType_within left right output same

theorem learns_shareTypes (left : a'.Under a) (right : b'.Under b) (underOuts : outs'.Under outs) :
    Within (fun p q => Facts.Under p.1 q.1 ∧ p.2.Under q.2) (.ok ([a',b'],Facts.first outs'))
      (k.shareTypes [a,b] outs) := by
  have output := underOuts.first
  unfold shareTypes
  refine within_gain (Facts.learns_shareDType (.cons left (.cons right .nil))) ?_
  intro fs shared
  match shared with
  | .cons left (.cons right .nil) =>
    refine within_right fun _ _ => ?_
    split
    · exact within_gain output.learnsDType fun out better =>
        within_ok ⟨.cons left (.cons right .nil),better⟩
    · exact learns_passType left right output

-- The rule answers for two inputs, even where it is given fewer.
theorem infer_two {r : Facts × Facts} (underIns : ins'.Under ins) (underOuts : outs'.Under outs)
    (short : ins.length ≤ 2) (found : k.infer ins outs = .ok r) : List.length r.1 = 2 := by
  have two : List.length (ins.pad 2) = 2 := by simp [Facts.pad]; omega
  obtain ⟨a,b,equal⟩ := List.length_eq_two.mp two
  have typed := (Facts.Under.pad underIns 2).typed
  rw [equal] at typed
  have same : k.shareTypes ins outs = k.shareTypes [a,b] outs := by
    have again : Facts.pad [a,b] 2 = [a,b] := rfl
    unfold shareTypes
    rw [equal,again]
  rw [infer_eq,same] at found
  obtain ⟨⟨fs,mid⟩,shared,found⟩ := bind_ok.mp found
  obtain ⟨q,stretched,equal⟩ := bind_ok.mp found
  cases equal
  obtain ⟨grownIns,grownOut⟩ := within_learned (learns_shareTypes (.refl (typed a (by simp)))
    (.refl (typed b (by simp))) (Facts.Under.refl underOuts.typed)) shared
  have later := (within_learned (Facts.learns_broadcast
    (Facts.Under.refl grownIns.typed) (.refl grownOut.typed)) stretched).1
  exact (grownIns.length_eq.trans later.length_eq).symm

theorem infer_rests {r : Facts × Facts} (short : ins.length ≤ 2)
    (settled : ∀ o, (Facts.first outs).shape = some o → Facts.Refilled start ins o)
    (begun : start.Under ins') (underIns : ins'.Under ins) (underOuts : outs'.Under outs)
    (found : k.infer ins outs = .ok r) (rests : Facts.Rests r ins outs) :
    ∃ p, k.infer ins' outs' = .ok p ∧ Facts.Both p r := by
  have arity : ins.length = 2 :=
    rests.1.length_eq.symm.trans (infer_two underIns underOuts short found)
  obtain ⟨a,b,rfl⟩ := List.length_eq_two.mp arity
  match underIns with
  | .cons left (.cons right .nil) =>
    rw [infer_eq] at found ⊢
    obtain ⟨⟨fs,mid⟩,typed,found⟩ := bind_ok.mp found
    obtain ⟨q,stretched,equal⟩ := bind_ok.mp found
    cases equal
    obtain ⟨⟨fs',mid'⟩,typed',under,output⟩ := shareTypes_within left right underOuts _ typed
    obtain ⟨grownIns,grownOut⟩ := within_learned
      (learns_shareTypes (.refl left.typed) (.refl right.typed) (Facts.Under.refl underOuts.typed)) typed
    obtain ⟨laterIns,laterOut⟩ := within_learned (Facts.learns_broadcast
      (Facts.Under.refl (Facts.Under.typed grownIns)) (.refl grownOut.typed)) stretched
    obtain ⟨restIns,restOuts⟩ := rests
    -- nothing was learned on the way
    have sameIns := (Facts.Under.below laterIns).trans restIns |>.eq (Facts.Under.below grownIns)
    match restOuts with
    | .cons restOut .nil =>
      have sameOut := (laterOut.below.trans restOut).antisymm grownOut.below
      dsimp only at sameIns
      subst sameIns sameOut
      have later := (within_learned
        (learns_shareTypes left.self right.self (Facts.Under.self underOuts)) typed').1
      obtain ⟨p,stretched',betterIns,betterOut⟩ := Facts.broadcast_rests
        (Facts.Under.trans begun later) under output stretched restOut settled
      rw [typed',ok_bind,stretched']
      exact ⟨_,rfl,betterIns,Facts.under_one betterOut⟩

end

end BinaryKind

namespace Facts

-- The facts of inputs and of one output in one list.
theorem under_concat (underIns : ins'.Under ins) (output : out'.Under out) :
    Under (ins' ++ [out']) (ins ++ [out]) := underIns.append (under_one output)

theorem under_split {fs : Facts} (grown : Under (ins ++ [out]) fs) :
    ins.Under (List.dropLast fs) ∧ out.Under (List.getLastD fs .unknown) := by
  have front := grown.dropLast
  have last := grown.getLastD
  rw [List.dropLast_concat] at front
  rw [List.getLastD_concat] at last
  exact ⟨front,last⟩

end Facts

namespace AddN

theorem infer_rests {r : Facts × Facts}
    (settled : ∀ o, (Facts.first outs).shape = some o → Facts.Refilled start ins o)
    (begun : start.Under ins') (underIns : ins'.Under ins) (underOuts : outs'.Under outs)
    (found : infer ins outs = .ok r) (rests : Facts.Rests r ins outs) :
    ∃ p, infer ins' outs' = .ok p ∧ Facts.Both p r := by
  obtain ⟨fs,shared,found⟩ := bind_ok.mp found
  obtain ⟨q,stretched,equal⟩ := bind_ok.mp found
  cases equal
  match rests.2, underOuts with
  | .cons restOut .nil, .cons output .nil =>
    have under := Facts.under_concat underIns output
    obtain ⟨fs',shared',better⟩ := Facts.shareDType_within under fs shared
    obtain ⟨grownIns,grownOut⟩ := Facts.under_split
      (within_learned (Facts.learns_shareDType (Facts.Under.refl under.typed)) shared)
    obtain ⟨laterIns,laterOut⟩ := within_learned (Facts.learns_broadcast
      (Facts.Under.refl grownIns.typed) (.refl grownOut.typed)) stretched
    have sameIns : List.dropLast fs = ins := (laterIns.below.trans rests.1).eq grownIns.below
    have sameOut : List.getLastD fs .unknown = _ :=
      (laterOut.below.trans restOut).antisymm grownOut.below
    have later := (Facts.under_split (within_learned (Facts.learns_shareDType under.self) shared')).1
    rw [sameIns,sameOut] at stretched
    have betterIns := better.dropLast
    have betterOut := better.getLastD
    rw [sameIns] at betterIns
    rw [sameOut] at betterOut
    obtain ⟨p,stretched',pIns,pOut⟩ := Facts.broadcast_rests
      (begun.trans later) betterIns betterOut stretched restOut settled
    refine ⟨(p.1,[p.2]),?_,pIns,Facts.under_one pOut⟩
    unfold infer
    simp only [Facts.pad,List.length_singleton,Nat.sub_self,List.replicate_zero,List.append_nil]
    rw [shared',ok_bind,stretched']
    rfl

end AddN

namespace Pack

def packType (inputs : Facts) (out : Fact) : Outcome Fact :=
  match inputs.mapM Fact.dtype with
  | some types => do out.withDType (some (← commonDType types))
  | none => .ok out

def place (axis : Int) (inputs : Facts) (out : Fact) : Outcome (Facts × Facts) :=
  match (Facts.first inputs).shape, out.shape with
  | some s, _ => do
    let axis ← normalizeAxis axis (s.length + 1)
    return (inputs,[← out.withDims (s.insertIdx axis (.known inputs.length))])
  | none, some s => do
    let axis ← normalizeAxis axis s.length
    return (← Facts.shareShape (← inputs.mapM (·.withDims (s.eraseIdx axis))),[out])
  | none, none => .ok (inputs,[out])

theorem infer_eq {axis : Int} : infer axis ins outs = Facts.shareShape ins >>= fun inputs =>
    packType inputs (Facts.first outs) >>= fun out => place axis inputs out := by
  refine congrArg (_ >>= ·) (funext fun inputs => ?_)
  unfold packType
  cases inputs.mapM Fact.dtype with
  | none => rfl
  | some types => simp only [bind_assoc]; rfl

theorem learns_packType (output : out'.Under out) : Within Fact.Under (.ok out') (packType ins out) := by
  unfold packType
  split
  · exact within_right fun t _ => output.learnsDType
  · exact within_ok output

theorem packType_within (under : ins'.Under ins) (output : out'.Under out) :
    Within Fact.Under (packType ins' out') (packType ins out) := by
  cases found' : ins'.mapM Fact.dtype with
  | none =>
    simp only [packType,found']
    exact learns_packType output
  | some types =>
    have found : ins.mapM Fact.dtype = some types := by
      rw [mapM_some] at found' ⊢
      clear output
      induction under generalizing types with
      | nil => exact found'
      | cons head _ ih =>
        cases found' with
        | cons first others => exact .cons (head.below.dtype _ first) (ih _ others)
    simp only [packType,found',found]
    exact within_same fun t _ => Fact.withDType_within output fun _ equal => equal

theorem learns_place {axis : Int} (under : ins'.Under ins) (output : out'.Under out) :
    Within Facts.Both (.ok (ins',[out'])) (place axis ins out) := by
  unfold place
  split
  · exact within_right fun a _ => within_gain output.learnsDims fun out output =>
      within_ok ⟨under,Facts.under_one output⟩
  · exact within_right fun a _ => within_gain (within_learn (fun _ _ low => low.learnsDims) under)
      fun ins under => within_gain (Facts.learns_shareShape under) fun ins under =>
        within_ok ⟨under,Facts.under_one output⟩
  · exact within_ok ⟨under,Facts.under_one output⟩

-- The inputs have the shape of the output without the new axis, where their shapes were open.
def Unstacked (axis : Int) (start inputs : Facts) (out : Fact) : Prop :=
  (∀ f ∈ start, f.shape = none) → ∀ o, out.shape = some o →
    ∃ a, normalizeAxis axis o.length = .ok a ∧
      ∀ f ∈ inputs, ShapeFact.Below? (some (o.eraseIdx a)) f.shape

theorem insertIdx_below {s' s : ShapeFact} (below : s'.Below s) (i : Nat) (d : Dim) :
    ShapeFact.Below (s'.insertIdx i d) (s.insertIdx i d) := forall₂_insertIdx below i (Dim.below_refl d)

theorem eraseIdx_below {s' s : ShapeFact} (below : s'.Below s) (i : Nat) :
    ShapeFact.Below (s'.eraseIdx i) (s.eraseIdx i) := forall₂_eraseIdx below i

theorem place_within {axis : Int} (under : ins'.Under ins) (output : out'.Under out)
    (shared : Facts.shareShape ins = .ok ins)
    (unstacked : (Facts.first ins').shape = none → ∀ o, out.shape = some o →
      ∃ a, normalizeAxis axis o.length = .ok a ∧
        ∀ f ∈ ins, ShapeFact.Below? (some (o.eraseIdx a)) f.shape) :
    Within Facts.Both (place axis ins' out') (place axis ins out) := by
  rcases under.first.shape_cases with none | ⟨s',s,known',known,low⟩
  · rcases output.shape_cases with open_ | ⟨o',o,shape',shape,below⟩
    · have stop : place axis ins' out' = .ok (ins',[out']) := by simp only [place,none,open_]
      rw [stop]
      exact learns_place under output
    · obtain ⟨a,axis_,filled⟩ := unstacked none o shape
      have back : place axis ins' out' = ins'.mapM (·.withDims (o'.eraseIdx a)) >>= fun fs =>
          Facts.shareShape fs >>= fun fs => .ok (fs,[out']) := by
        simp only [place,none,shape',below.length_eq,axis_]
        rfl
      rw [back]
      intro r found
      -- the step finds nothing that the better informed side does not know
      obtain ⟨fs,spread,lowFs⟩ := mapM_meets (R := Fact.Under)
        (f := fun f : Fact => f.withDims (o'.eraseIdx a)) (fun f' f (both : f ∈ ins ∧ f'.Under f) => by
          obtain ⟨c,joined,least⟩ := Fact.unify_least both.2.typed both.2.below
            (b := .outline Option.none (some (o'.eraseIdx a)))
            (Fact.outline_below nofun ((eraseIdx_below below a).some.trans (filled f both.1)))
          exact ⟨c,joined,least,both.2.typed⟩) (forall₂_mem under.flip).flip
      obtain ⟨gs,shared',better⟩ := Facts.shareShape_within lowFs ins shared
      obtain ⟨later,laterOut⟩ := within_learned (learns_place (Facts.Under.refl under.typed) (.refl output.typed)) found
      rw [spread,ok_bind,shared']
      exact ⟨_,rfl,Facts.Under.trans better later,Facts.Under.trans (Facts.under_one output) laterOut⟩
  · simp only [place,known',known,low.length_eq,under.length_eq]
    exact within_same fun a _ => within_bind (Fact.withDims_within output (insertIdx_below low a _))
      fun out' out better => within_ok ⟨under,Facts.under_one better⟩

-- The shapes are shared: with the first of them open, none was known.
theorem shareShape_open {fs : Facts} (shared : ins.shareShape = .ok fs)
    (first : (Facts.first fs).shape = none) : ∀ f ∈ ins, f.shape = none := by
  unfold Facts.shareShape at shared
  split at shared
  · rename_i empty
    intro f member
    cases known : f.shape with
    | none => rfl
    | some s =>
      have entry : s ∈ List.filterMap Fact.shape ins := List.mem_filterMap.mpr ⟨f,member,known⟩
      rw [empty] at entry
      cases entry
  · rename_i nonempty
    obtain ⟨all,unified,shared⟩ := bind_ok.mp shared
    obtain ⟨s,entry⟩ := List.exists_mem_of_ne_nil _ fun none => nonempty none
    obtain ⟨bounds,-⟩ := Fact.unifyAll_bounds (List.forall_mem_map.mpr fun _ _ => Fact.outline_typed) unified
    obtain ⟨r,known,-⟩ := (bounds _ (List.mem_map.mpr ⟨s,entry,rfl⟩)).shape s rfl
    rw [mapM_ok] at shared
    cases shared with
    | nil => exact nofun
    | cons head _ =>
      rw [known] at head
      obtain ⟨_,shape,-⟩ := Fact.withDims_shape head
      cases first.symm.trans shape

theorem infer_rests {axis : Int} {r : Facts × Facts}
    (settled : Unstacked axis start ins (Facts.first outs))
    (begun : start.Under ins') (underIns : ins'.Under ins) (underOuts : outs'.Under outs)
    (found : infer axis ins outs = .ok r) (rests : Facts.Rests r ins outs) :
    ∃ p, infer axis ins' outs' = .ok p ∧ Facts.Both p r := by
  rw [infer_eq] at found ⊢
  obtain ⟨fs,shared,found⟩ := bind_ok.mp found
  obtain ⟨mid,typed,found⟩ := bind_ok.mp found
  have output := underOuts.first
  have grownIns := within_learned (Facts.learns_shareShape (Facts.Under.refl underIns.typed)) shared
  have grownOut := within_learned (learns_packType (.refl output.typed)) typed
  obtain ⟨laterIns,laterOut⟩ := within_learned
    (learns_place (Facts.Under.refl grownIns.typed) (.refl grownOut.typed)) found
  have sameIns : fs = ins := (laterIns.below.trans rests.1).eq grownIns.below
  have restOut : mid.Below (Facts.first outs) := by
    cases Facts.Below.trans laterOut.below rests.2 with
    | cons low _ => exact low
  have sameOut : mid = Facts.first outs := restOut.antisymm grownOut.below
  subst sameIns sameOut
  obtain ⟨fs',shared',better⟩ := Facts.shareShape_within underIns fs shared
  obtain ⟨mid',typed',betterOut⟩ := packType_within better output _ typed
  rw [shared',ok_bind,typed',ok_bind]
  refine place_within better betterOut shared (fun open_ o known => settled ?_ o known) r found
  intro f member
  obtain ⟨f',other,low⟩ := forall₂_left begun f member
  cases shape : f.shape with
  | none => rfl
  | some s =>
    obtain ⟨_,known,-⟩ := low.below.shape s shape
    cases (shareShape_open shared' open_ f' other).symm.trans known

end Pack

namespace Facts

theorem learns_sharedPair (input : x'.Under x) (output : out'.Under out) :
    Within (fun p q => p.1.Under q.1 ∧ p.2.Under q.2) (.ok (x',out')) (sharedPair [x] [out]) := by
  refine within_gain (learns_shareDType (.cons input (.cons output .nil))) fun fs shared => ?_
  match shared with
  | .cons input (.cons output .nil) => exact within_ok ⟨input,output⟩

theorem below_one {fs : Facts} (below : Below [x] fs) : ∃ f, fs = [f] ∧ x.Below f := by
  cases below with
  | cons low rest =>
    cases rest
    exact ⟨_,rfl,low⟩

theorem under_last {fs : Facts} (under : Under fs [x]) : ∃ f, fs = [f] ∧ f.Under x := by
  cases under with
  | cons low rest =>
    cases rest
    exact ⟨_,rfl,low⟩

end Facts

namespace ExpandDims

-- The input has the shape of the output without the added axes, where its shape was open.
def Unexpanded (axes : List Int) (start x out : Fact) : Prop :=
  start.shape = none → ∀ o, out.shape = some o →
    ∃ found, normalizeAxes axes o.length = .ok found ∧
      ShapeFact.Below? (some (dropAxes found o)) x.shape

def place (axes : List Int) (x out : Fact) : Outcome (Facts × Facts) :=
  match x.shape, out.shape with
  | some s, _ => do return ([x],[← out.withDims (← expand axes .one s)])
  | none, some s => do
    let found ← normalizeAxes axes s.length
    return ([← x.withDims (dropAxes found s)],[out])
  | none, none => return ([x],[out])

theorem expand_within {axes : List Int} {s' s : ShapeFact} (below : s'.Below s) :
    Within ShapeFact.Below (expand axes .one s') (expand axes .one s) := by
  unfold expand
  rw [below.length_eq]
  refine within_same fun found _ => ?_
  split
  · exact within_ok (ShapeFact.addAxes_below below ..)
  · exact within_fail

theorem learns_place {axes : List Int} (input : x'.Under x) (output : out'.Under out) :
    Within Facts.Both (.ok ([x'],[out'])) (place axes x out) := by
  unfold place
  split
  · exact within_right fun s _ => within_gain output.learnsDims fun out output =>
      within_ok (Facts.both_one input output)
  · exact within_right fun found _ => within_gain input.learnsDims fun x input =>
      within_ok (Facts.both_one input output)
  · exact within_ok (Facts.both_one input output)

theorem place_within {axes : List Int} (input : x'.Under x) (output : out'.Under out)
    (unexpanded : Unexpanded axes x' x out) :
    Within Facts.Both (place axes x' out') (place axes x out) := by
  rcases input.shape_cases with none | ⟨s',s,known',known,low⟩
  · rcases output.shape_cases with open_ | ⟨o',o,shape',shape,below⟩
    · have stop : place axes x' out' = .ok ([x'],[out']) := by
        simp only [place,none,open_]
        rfl
      rw [stop]
      exact learns_place input output
    · obtain ⟨found,axes_,filled⟩ := unexpanded none o shape
      obtain ⟨c,joined,least⟩ := Fact.unify_least input.typed input.below
        (b := .outline Option.none (some (dropAxes found o')))
        (Fact.outline_below nofun ((ShapeFact.dropAxes_below below found).some.trans filled))
      have back : place axes x' out' = .ok ([c],[out']) := by
        simp only [place,none,shape',below.length_eq,axes_,ok_bind,Fact.withDims,Fact.withShape,joined]
        rfl
      rw [back]
      exact learns_place ⟨least,input.typed⟩ output
  · simp only [place,known',known]
    exact within_bind (expand_within low) fun dims' dims below =>
      within_bind (Fact.withDims_within output below) fun out' out output =>
        within_ok (Facts.both_one input output)

theorem infer_rests {axes : List Int} {r : Facts × Facts}
    (settled : Unexpanded axes (Facts.first start) (Facts.first ins) (Facts.first outs))
    (begun : start.Under ins') (underIns : ins'.Under ins) (underOuts : outs'.Under outs)
    (found : infer axes ins outs = .ok r) (rests : Facts.Rests r ins outs) :
    ∃ p, infer axes ins' outs' = .ok p ∧ Facts.Both p r := by
  obtain ⟨⟨x,out⟩,shared,found⟩ := bind_ok.mp found
  have placed : place axes x out = .ok r := found
  obtain ⟨⟨x',out'⟩,shared',input,output⟩ := Facts.sharedPair_within underIns underOuts _ shared
  obtain ⟨laterIns,laterOuts⟩ := within_learned (learns_place (.refl input.typed) (.refl output.typed)) placed
  obtain ⟨a,rfl,restIn⟩ := Facts.below_one (laterIns.below.trans rests.1)
  obtain ⟨b,rfl,restOut⟩ := Facts.below_one (laterOuts.below.trans rests.2)
  obtain ⟨a',rfl,left⟩ := Facts.under_last underIns
  obtain ⟨b',rfl,right⟩ := Facts.under_last underOuts
  obtain ⟨f,rfl,early⟩ := Facts.under_last begun
  obtain ⟨grownIn,grownOut⟩ := within_learned
    (Facts.learns_sharedPair (.refl left.typed) (.refl right.typed)) shared
  cases restIn.antisymm grownIn.below
  cases restOut.antisymm grownOut.below
  have later := (within_learned (Facts.learns_sharedPair left.self right.self) shared').1
  unfold infer
  rw [shared',ok_bind]
  refine place_within input output (fun open_ => settled ?_) r placed
  cases known : f.shape with
  | none => exact known
  | some s =>
    obtain ⟨_,shape,-⟩ := (early.trans later).below.shape s known
    cases open_.symm.trans shape

end ExpandDims

namespace Reshape

variable {own : Option (List Int)} {shape' shape : Option ShapeFact} {target : List Int}

theorem set_above {s : ShapeFact} {i : Nat} (slot : s.getD i .unknown = .unknown) (d : Dim) :
    s.Below (s.set i d) := by
  induction s generalizing i with
  | nil => exact .nil
  | cons e s ih =>
    cases i with
    | zero => exact .cons (.inl slot) (ShapeFact.below_refl s)
    | succ i => exact .cons (Dim.below_refl e) (ih (by simpa using slot))

theorem outline_within (low : ShapeFact.Below? shape' shape) :
    Within ShapeFact.Below (outline shape' target) (outline shape target) := by
  refine within_each ?_
  rintro ⟨d,i⟩ -
  dsimp only
  split
  · refine within_ok ?_
    rw [← List.getD_eq_getElem?_getD,← List.getD_eq_getElem?_getD]
    cases shape' with
    | none => exact Dim.unknown_below _
    | some s' =>
      obtain ⟨s,rfl,below⟩ := low s' rfl
      exact ShapeFact.getD_below below i (Dim.below_refl _)
  · exact fun e found => ⟨e,found,Dim.below_refl e⟩

-- The extent in place of -1 is open at first.
theorem outline_slot {dims : ShapeFact} (found : outline shape target = .ok dims) :
    dims.getD (target.idxOf (-1)) .unknown = .unknown := by
  have each : ∀ (i : Nat) d, target[i]? = some d → d = -1 → dims.getD i .unknown = .unknown := by
    rintro i _ at_ rfl
    have place : target.zipIdx[i]? = some (-1,i) := by simp [at_]
    obtain ⟨d,entry,equal⟩ := forall₂_getElem? (mapM_ok.mp found).flip place
    cases equal
    rw [List.getD_eq_getElem?_getD,entry]
    rfl
  by_cases member : -1 ∈ target
  · exact each _ _ (List.getElem?_idxOf member) rfl
  · have length := (mapM_ok.mp found).length_eq
    rw [List.length_zipIdx] at length
    rw [List.idxOf_eq_length member,List.getD_eq_getElem?_getD,List.getElem?_eq_none (by omega)]
    rfl

-- The target's own extents are in the answer.
theorem outline_below_dims {r : ShapeFact} (found : inferDims shape target = .ok r) :
    ∃ dims, outline shape target = .ok dims ∧ dims.Below r := by
  obtain ⟨dims,outlined,found⟩ := bind_ok.mp found
  refine ⟨dims,outlined,?_⟩
  have filled := set_above (outline_slot outlined)
  have keeps : dims.Below dims := ShapeFact.below_refl dims
  cases shape with
  | none => cases found; exact keeps
  | some s =>
    dsimp only at found
    repeat' split at found
    all_goals first
      | (rw [fail_bind] at found; cases found)
      | (cases found; first | exact keeps | exact filled _)

theorem inferDims_open (open_ : ∀ s, shape = some s → s.any Dim.isUnknown = true) :
    inferDims shape target = outline shape target := by
  unfold inferDims
  cases shape with
  | none => exact bind_pure _
  | some s =>
    simp only [open_ s rfl,if_true]
    exact bind_pure _

theorem inferDims_within (low : ShapeFact.Below? shape' shape) :
    Within ShapeFact.Below (inferDims shape' target) (inferDims shape target) := by
  by_cases open_ : ∀ s, shape' = some s → s.any Dim.isUnknown = true
  · rw [inferDims_open open_]
    intro r found
    obtain ⟨dims,outlined,below⟩ := outline_below_dims found
    obtain ⟨dims',outlined',low⟩ := outline_within low dims outlined
    exact ⟨dims',outlined',low.trans below⟩
  · -- all extents of the input are known, and the other side knows the same
    simp only [not_forall,Bool.not_eq_true,List.any_eq_false] at open_
    obtain ⟨s',rfl,known⟩ := open_
    obtain ⟨s,rfl,below⟩ := low s' rfl
    rw [below.eq known]
    exact fun r found => ⟨r,found,ShapeFact.below_refl r⟩

-- Input and output of one element type, once either is known.
def passType (inputs : Facts) (out : Fact) : Outcome (Facts × Fact) :=
  match (Facts.first inputs).dtype, out.dtype with
  | some t, _ => do return (inputs,← out.withDType (some t))
  | none, some t => do
    if inputs.isEmpty then fail (.unworded .index)
    return (inputs.set 0 (← (Facts.first inputs).withDType (some t)),out)
  | none, none => return (inputs,out)

-- The target in force, and that it is a row.
def readTarget (own : Option (List Int)) (inputs : Facts) : Outcome (Facts × Option (List Int)) :=
  match inputs with
  | [a,b] => do
    let b ← b.withDims [.unknown]
    match b.value with
    | some t => return ([a,b],some (← targetOf t))
    | none => return ([a,b],own)
  | _ => return (inputs,own)

def conclude (shape : Option ShapeFact) (inputs : Facts) (out : Fact) (target : Option (List Int)) :
    Outcome (Facts × Facts) :=
  match target with
  | none => return (inputs,[out])
  | some ds => do return (inputs,[← out.withDims (← inferDims shape ds)])

theorem readTarget_bind {k : Facts × Option (List Int) → Outcome β} {fs : Facts} :
    readTarget own fs >>= k = match fs with
      | [a,b] => do
        let b ← b.withDims [.unknown]
        match b.value with
        | some t => targetOf t >>= fun ds => k ([a,b],some ds)
        | none => k ([a,b],own)
      | _ => k (fs,own) := by
  unfold readTarget
  split
  · rw [bind_assoc]
    refine congrArg (_ >>= ·) (funext fun b => ?_)
    split
    · rw [bind_assoc]
      rfl
    · rfl
  · rfl

theorem infer_eq : infer own ins outs = passType ins (Facts.first outs) >>= fun p =>
    readTarget own p.1 >>= fun q => conclude (Facts.first ins).shape q.1 p.2 q.2 := by
  simp only [readTarget_bind]
  unfold infer passType
  dsimp only
  cases (Facts.first ins).dtype with
  | some t => simp only [bind_assoc]; rfl
  | none =>
    cases (Facts.first outs).dtype with
    | none => rfl
    | some t =>
      dsimp only
      split
      · rfl
      · simp only [bind_assoc]; rfl

theorem learns_passType (under : ins'.Under ins) (output : out'.Under out) :
    Within (fun p q => Facts.Under p.1 q.1 ∧ p.2.Under q.2) (.ok (ins',out')) (passType ins out) := by
  unfold passType
  split
  · exact within_gain output.learnsDType fun out output => within_ok ⟨under,output⟩
  · split
    · exact within_fail
    · exact within_gain under.first.learnsDType fun x input => within_ok ⟨under.set_right input,output⟩
  · exact within_ok ⟨under,output⟩

theorem passType_result {t : DType} (none : (Facts.first ins).dtype = none) (known : out.dtype = some t) :
    passType ins out = if ins.isEmpty then fail (.unworded .index) else
      (Facts.first ins).withDType (some t) >>= fun x => .ok (ins.set 0 x,out) := by
  simp only [passType,none,known]
  cases ins <;> rfl

theorem passType_within (under : ins'.Under ins) (output : out'.Under out) :
    Within (fun p q => Facts.Under p.1 q.1 ∧ p.2.Under q.2) (passType ins' out') (passType ins out) := by
  rcases under.first.dtype_cases with none | ⟨t,known',known⟩
  · rcases output.dtype_cases with open_ | ⟨t,knownOut',knownOut⟩
    · have stop : passType ins' out' = .ok (ins',out') := by
        simp only [passType,none,open_]
        rfl
      rw [stop]
      exact learns_passType under output
    · rw [passType_result none knownOut',under.isEmpty_eq]
      cases known : (Facts.first ins).dtype with
      | none =>
        rw [passType_result known knownOut]
        split
        · exact within_fail
        · exact within_bind (Fact.withDType_within under.first fun _ equal => equal)
            fun x' x input => within_ok ⟨under.set_zero input,output⟩
      | some u =>
        -- the input has its type from elsewhere, and the output has the same
        intro q found
        have some_ : ins.isEmpty = false := by
          cases ins with
          | nil => cases known
          | cons => rfl
        simp only [passType,known] at found
        obtain ⟨c,typed,equal⟩ := bind_ok.mp found
        cases equal
        cases Fact.withDType_same typed knownOut
        obtain ⟨head,joined,low⟩ := Fact.unify_least under.first.typed under.first.below
          (b := .outline (some t) Option.none)
          (Fact.outline_below (fun e equal => equal ▸ known) (ShapeFact.none_below? _))
        have better := within_learned output.learnsDType typed
        refine ⟨(ins'.set 0 head,out'),?_,under.set_left ⟨low,under.first.typed⟩,better⟩
        rw [some_]
        unfold Fact.withDType
        rw [joined]
        rfl
  · simp only [passType,known',known]
    exact within_bind (Fact.withDType_within output fun _ equal => equal) fun out' out output =>
      within_ok ⟨under,output⟩

theorem learns_readTarget (under : ins'.Under ins) :
    Within (fun fs q => Facts.Under fs q.1) (.ok ins') (readTarget own ins) := by
  unfold readTarget
  split
  · match under with
    | .cons left (.cons right .nil) =>
      refine within_gain right.learnsDims fun b right => ?_
      split
      · exact within_right fun ds _ => within_ok (.cons left (.cons right .nil))
      · exact within_ok (.cons left (.cons right .nil))
  · exact within_ok under

theorem readTarget_two {a b : Fact} : readTarget own [a,b] = b.withDims [.unknown] >>= fun b =>
    match b.value with
    | some t => targetOf t >>= fun ds => .ok ([a,b],some ds)
    | none => .ok ([a,b],own) := rfl

theorem readTarget_other (other : ∀ a b, ins ≠ [a,b]) : readTarget own ins = .ok (ins,own) := by
  unfold readTarget
  split
  · exact absurd rfl (other _ _)
  · rfl

-- The target is the same on both sides, or a constant that only the better informed side knows has
-- taken the place of the operator's own.
theorem readTarget_within (under : ins'.Under ins) :
    Within (fun p q => p.1.Under q.1 ∧ (p.2 = q.2 ∨ p.2 = own ∧ (ins'.getD 1 .unknown).value = none ∧
      ∃ a b, q.1 = [a,b] ∧ b.value.isSome = true)) (readTarget own ins') (readTarget own ins) := by
  by_cases two : ∃ a b, ins = [a,b]
  · obtain ⟨a,b,rfl⟩ := two
    match under with
    | .cons (a := a') left (.cons (a := b') right .nil) =>
      rw [readTarget_two,readTarget_two]
      intro q found
      obtain ⟨c,shaped,found⟩ := bind_ok.mp found
      obtain ⟨c',shaped',low⟩ := Fact.withDims_within right (ShapeFact.below_refl _) c shaped
      have pair : Facts.Under [a',c'] [a,c] := .cons left (.cons low .nil)
      rw [shaped',ok_bind]
      cases known' : c'.value with
      | some t =>
        have known : c.value = some t := by rw [low.below.value t known']; rfl
        rw [known] at found
        obtain ⟨ds,read,equal⟩ := bind_ok.mp found
        cases equal
        exact ⟨([a',c'],some ds),by dsimp only; rw [read]; rfl,pair,.inl rfl⟩
      | none =>
        refine ⟨([a',c'],own),rfl,?_⟩
        cases known : c.value with
        | none =>
          rw [known] at found
          cases found
          exact ⟨pair,.inl rfl⟩
        | some t =>
          rw [known] at found
          obtain ⟨ds,read,equal⟩ := bind_ok.mp found
          cases equal
          exact ⟨pair,.inr ⟨rfl,(Fact.withDims_value shaped').symm.trans known',a,c,rfl,by simp [known]⟩⟩
  · have other : ∀ a b, ins ≠ [a,b] := fun a b equal => two ⟨a,b,equal⟩
    have other' : ∀ a b, ins' ≠ [a,b] := by
      rintro a b rfl
      match under with
      | .cons _ (.cons _ .nil) => exact other _ _ rfl
    rw [readTarget_other other,readTarget_other other']
    exact within_ok ⟨under,.inl rfl⟩

theorem learns_conclude {given : Option (List Int)} (under : ins'.Under ins) (output : out'.Under out) :
    Within Facts.Both (.ok (ins',[out'])) (conclude shape ins out given) := by
  unfold conclude
  split
  · exact within_ok ⟨under,Facts.under_one output⟩
  · exact within_right fun dims _ => within_gain output.learnsDims fun out output =>
      within_ok ⟨under,Facts.under_one output⟩

theorem conclude_within {given : Option (List Int)} (low : ShapeFact.Below? shape' shape)
    (under : ins'.Under ins) (output : out'.Under out) :
    Within Facts.Both (conclude shape' ins' out' given) (conclude shape ins out given) := by
  unfold conclude
  cases given with
  | none => exact within_ok ⟨under,Facts.under_one output⟩
  | some ds =>
    exact within_bind (inferDims_within low) fun dims' dims below =>
      within_bind (Fact.withDims_within output below) fun out' out output =>
        within_ok ⟨under,Facts.under_one output⟩

-- Where a constant has replaced the operator's own target, that target says nothing new.
def Retargeted (own : Option (List Int)) (start inputs : Facts) (out : Fact) : Prop :=
  ∀ ds a b, own = some ds → inputs = [a,b] → b.value.isSome = true →
    (List.getD start 1 .unknown).value = none →
      ∃ dims, inferDims a.shape ds = .ok dims ∧ ShapeFact.Below? (some dims) out.shape

theorem infer_rests {r : Facts × Facts} (settled : Retargeted own start ins (Facts.first outs))
    (begun : start.Under ins') (underIns : ins'.Under ins) (underOuts : outs'.Under outs)
    (found : infer own ins outs = .ok r) (rests : Facts.Rests r ins outs) :
    ∃ p, infer own ins' outs' = .ok p ∧ Facts.Both p r := by
  rw [infer_eq] at found ⊢
  obtain ⟨⟨fs,mid⟩,typed,found⟩ := bind_ok.mp found
  obtain ⟨⟨gs,given⟩,read,concluded⟩ := bind_ok.mp found
  have output := underOuts.first
  obtain ⟨grownIns,grownOut⟩ := within_learned
    (learns_passType (Facts.Under.refl underIns.typed) (.refl output.typed)) typed
  have moreIns := within_learned (learns_readTarget (Facts.Under.refl grownIns.typed)) read
  obtain ⟨laterIns,laterOuts⟩ := within_learned
    (learns_conclude (Facts.Under.refl moreIns.typed) (.refl grownOut.typed)) concluded
  -- nothing was learned on the way
  have restIns : gs.Below ins := laterIns.below.trans rests.1
  have sameFs : fs = ins := (moreIns.below.trans restIns).eq grownIns.below
  have sameGs : gs = ins := restIns.eq (grownIns.below.trans moreIns.below)
  have restOut : mid.Below (Facts.first outs) := by
    cases Facts.Below.trans laterOuts.below rests.2 with
    | cons low _ => exact low
  have sameOut : mid = Facts.first outs := restOut.antisymm grownOut.below
  dsimp only at sameFs sameGs read concluded
  subst sameFs sameOut
  cases sameGs
  obtain ⟨⟨fs',mid'⟩,typed',under,better⟩ := passType_within underIns output _ typed
  obtain ⟨⟨gs',given'⟩,read',underGs,agree⟩ := readTarget_within under _ read
  rw [typed',ok_bind,read',ok_bind]
  rcases agree with same | ⟨own_,open_,a,b,equal,constant⟩
  · dsimp only at same
    subst same
    exact conclude_within underIns.first.below.shape underGs better r concluded
  · dsimp only at own_
    subst own_
    cases given' with
    | none =>
      exact ⟨_,rfl,within_learned (learns_conclude underGs better) concluded⟩
    | some ds =>
      have later := (within_learned (learns_passType underIns.self output.self) typed').1
      have unread : (List.getD start 1 .unknown).value = none := by
        cases known : (List.getD start 1 .unknown).value with
        | none => rfl
        | some t =>
          rw [((begun.trans later).getD 1).below.value t known] at open_
          cases open_
      dsimp only at equal
      subst equal
      obtain ⟨dims,inferred,low⟩ := settled ds a b rfl rfl constant unread
      obtain ⟨dims',inferred',below⟩ := inferDims_within underIns.first.below.shape dims inferred
      obtain ⟨c,joined,least⟩ := Fact.unify_least better.typed better.below
        (b := .outline none (some dims')) (Fact.outline_below nofun (below.some.trans low))
      refine ⟨(gs',[c]),?_,Facts.Under.trans underGs laterIns,
        Facts.Under.trans (Facts.under_one ⟨least,better.typed⟩) laterOuts⟩
      unfold conclude Fact.withDims Fact.withShape
      dsimp only
      rw [inferred',ok_bind,joined]
      rfl

end Reshape

namespace Concat

-- The known shapes are of one rank.
def Aligned (facts : Facts) : Prop := ∃ rank, ∀ f ∈ facts, ∀ s, f.shape = some s → s.length = rank

section
variable {rank axis : Nat} {fs' fs : Facts}

theorem sharedExtent_within (under : fs'.Under fs) :
    Within Dim.Below (sharedExtent rank axis fs') (sharedExtent rank axis fs) := by
  refine within_foldlM (fun d' d f' f low input => ?_) under (Dim.below_refl _)
  rcases input.shape_cases with none | ⟨s',s,known',known,below⟩
  · rw [none]
    cases f.shape with
    | none => exact within_ok low
    | some s =>
      dsimp only
      split
      · exact within_fail
      · exact fun e unified => ⟨d',rfl,low.trans (Dim.unify_left unified)⟩
  · rw [known',known]
    dsimp only
    rw [below.length_eq]
    split
    · exact within_fail
    · exact Dim.unify_within low (ShapeFact.getD_below below _ (Dim.below_refl _))

theorem refineAxis_within {s' s : Option ShapeFact} {d' d : Dim} (low : ShapeFact.Below? s' s)
    (ranks : ∀ r, s = some r → r.length = rank) (extent : d'.Below d) :
    Within ShapeFact.Below (refineAxis s' rank axis d') (refineAxis s rank axis d) := by
  have dims : ShapeFact.Below (s'.getD (List.replicate rank .unknown)) (s.getD (List.replicate rank .unknown)) := by
    cases s' with
    | none =>
      cases s with
      | none => exact ShapeFact.below_refl _
      | some r => exact ShapeFact.unknown_replicate (ranks r rfl)
    | some r' =>
      obtain ⟨r,rfl,below⟩ := low r' rfl
      exact below
  unfold refineAxis
  dsimp only
  cases entry : (s.getD (List.replicate rank .unknown))[axis]? with
  | none => exact within_fail
  | some e =>
    obtain ⟨e',entry',below⟩ := forall₂_getElem? dims entry
    rw [entry']
    exact within_bind (Dim.unify_within below extent) fun _ _ low =>
      within_ok (ShapeFact.set_below dims axis low)

theorem shareAxis_within (under : fs'.Under fs) (ranks : ∀ f ∈ fs, ∀ s, f.shape = some s → s.length = rank) :
    Within Facts.Under (shareAxis rank fs' axis) (shareAxis rank fs axis) := by
  unfold shareAxis
  refine within_bind (sharedExtent_within under) fun d' d extent => ?_
  refine within_mapM (P := fun f' f => f ∈ fs ∧ Fact.Under f' f) ?_ (forall₂_mem under.flip).flip
  rintro f' f ⟨member,low⟩
  exact within_bind (refineAxis_within low.below.shape (ranks f member) extent) fun _ _ below =>
    Fact.withDims_within low below

theorem learns_shareAxis (under : fs'.Under fs) :
    Within Facts.Under (.ok fs') (shareAxis rank fs axis) := by
  unfold shareAxis
  exact within_right fun d _ => within_learn (fun f' f low => within_right fun _ _ => low.learnsDims) under

-- Sharing an axis leaves all shapes at the rank.
theorem shareAxis_ranks {gs : Facts} (found : shareAxis rank fs axis = .ok gs)
    (ranks : ∀ f ∈ fs, ∀ s, f.shape = some s → s.length = rank) :
    ∀ g ∈ gs, ∀ s, g.shape = some s → s.length = rank := by
  obtain ⟨d,shared,found⟩ := bind_ok.mp found
  intro g member s known
  obtain ⟨f,other,refined⟩ := forall₂_right (mapM_ok.mp found) g member
  obtain ⟨dims,there,shaped⟩ := bind_ok.mp refined
  obtain ⟨r,equal,below⟩ := Fact.withDims_shape shaped
  cases known.symm.trans equal
  rw [← below.length_eq]
  unfold refineAxis at there
  dsimp only at there
  split at there
  · obtain ⟨e,-,equal⟩ := bind_ok.mp there
    cases equal
    rw [List.length_set]
    cases shape : f.shape with
    | none => exact List.length_replicate
    | some r => exact ranks f other r shape
  · cases there

def extentAt (axis : Nat) (s : ShapeFact) : Outcome Dim :=
  match s[axis]? with
  | some d => .ok d
  | none => fail (.unworded .index)

-- The output's extent on the joined axis, once those of the inputs are known.
def total (rank axis : Nat) (inputs : Facts) (out : Fact) : Outcome (Facts × Facts) :=
  match inputs.mapM Fact.shape with
  | none => return (inputs,[out])
  | some shapes => do
    match (← shapes.mapM (extentAt axis)).mapM Dim.extent? with
    | none => return (inputs,[out])
    | some ns =>
      return (inputs,[← out.withDims (← refineAxis out.shape rank axis (.known (ns.foldr (· + ·) 0)))])

def spread (rank axis : Nat) (facts : Facts) : Outcome Facts :=
  ((List.range rank).filter (· != axis)).foldlM (shareAxis rank) facts

def place (axis : Int) (facts : Facts) : Outcome (Facts × Facts) :=
  match facts.findSome? Fact.rank with
  | none => return (facts.dropLast,[facts.getLastD .unknown])
  | some rank => do
    let axis ← normalizeAxis axis rank
    let facts ← spread rank axis facts
    total rank axis facts.dropLast (facts.getLastD .unknown)

theorem infer_eq {axis : Int} : infer axis ins outs =
    Facts.shareDType (ins ++ outs.pad 1) >>= fun facts => place axis facts := rfl

theorem learns_spread (under : fs'.Under fs) : Within Facts.Under (.ok fs') (spread rank axis fs) :=
  within_gainAll (fun _ _ low => learns_shareAxis low) under

theorem spread_within (under : fs'.Under fs) (ranks : ∀ f ∈ fs, ∀ s, f.shape = some s → s.length = rank) :
    Within (fun gs' gs => Facts.Under gs' gs ∧ ∀ g ∈ gs, ∀ s, g.shape = some s → s.length = rank)
      (spread rank axis fs') (spread rank axis fs) := by
  refine within_foldlM (P := (· = ·)) ?_ (List.forall₂_same.mpr fun _ _ => rfl) ⟨under,ranks⟩
  rintro hs' hs a _ ⟨low,ranks⟩ rfl gs found
  obtain ⟨gs',found',better⟩ := shareAxis_within low ranks gs found
  exact ⟨gs',found',better,shareAxis_ranks found ranks⟩

theorem learns_total (under : ins'.Under ins) (output : out'.Under out) :
    Within Facts.Both (.ok (ins',[out'])) (total rank axis ins out) := by
  unfold total
  split
  · exact within_ok ⟨under,Facts.under_one output⟩
  · refine within_right fun ds _ => ?_
    split
    · exact within_ok ⟨under,Facts.under_one output⟩
    · exact within_right fun dims _ => within_gain output.learnsDims fun out output =>
        within_ok ⟨under,Facts.under_one output⟩

theorem extent_below {d' d : Dim} (low : d'.Below d) {n : Nat} (known : d'.extent? = some n) :
    d.extent? = some n := by
  cases d' with
  | known => rw [← low.eq rfl]; exact known
  | streaming | unknown => cases known

theorem extentAt_within {s' s : ShapeFact} (below : s'.Below s) :
    Within Dim.Below (extentAt axis s') (extentAt axis s) := by
  unfold extentAt
  cases entry : s[axis]? with
  | none => exact within_fail
  | some d =>
    obtain ⟨d',entry',low⟩ := forall₂_getElem? below entry
    rw [entry']
    exact within_ok low

theorem total_within (under : ins'.Under ins) (output : out'.Under out)
    (ranks : ∀ s, out.shape = some s → s.length = rank) :
    Within Facts.Both (total rank axis ins' out') (total rank axis ins out) := by
  have early : Within Facts.Both (.ok (ins',[out'])) (total rank axis ins out) := learns_total under output
  cases shapes' : ins'.mapM Fact.shape with
  | none =>
    simp only [total,shapes']
    exact early
  | some ss' =>
    obtain ⟨ss,shapes,below⟩ := mapM_some_above (P := ShapeFact.Below) under
      (fun f' f low s known => low.below.shape s known) shapes'
    unfold total
    rw [shapes',shapes]
    refine within_bind (within_mapM (fun _ _ low => extentAt_within low) below) fun ds' ds low => ?_
    cases extents' : ds'.mapM Dim.extent? with
    | none =>
      dsimp only
      split
      · exact within_ok ⟨under,Facts.under_one output⟩
      · exact within_right fun dims _ => within_gain output.learnsDims fun out output =>
          within_ok ⟨under,Facts.under_one output⟩
    | some ns' =>
      obtain ⟨ns,extents,equal⟩ := mapM_some_above (P := (· = ·)) low
        (fun d' d low n known => ⟨n,extent_below low known,rfl⟩) extents'
      rw [List.forall₂_eq_eq_eq] at equal
      subst equal
      rw [extents]
      exact within_bind (refineAxis_within output.below.shape ranks (Dim.below_refl _)) fun _ _ low =>
        within_bind (Fact.withDims_within output low) fun out' out output =>
          within_ok ⟨under,Facts.under_one output⟩

theorem learns_place {axis : Int} (under : fs'.Under fs) :
    Within Facts.Both (.ok (fs'.dropLast,[fs'.getLastD .unknown])) (place axis fs) := by
  unfold place
  split
  · exact within_ok ⟨under.dropLast,Facts.under_one under.getLastD⟩
  · exact within_right fun a _ => within_gain (learns_spread under) fun fs under =>
      learns_total under.dropLast under.getLastD

theorem rank_below (under : fs'.Under fs) {rank : Nat} (found : fs'.findSome? Fact.rank = some rank) :
    ∃ f ∈ fs, ∃ s, f.shape = some s ∧ s.length = rank := by
  obtain ⟨f',member,known⟩ := List.exists_of_findSome?_eq_some found
  obtain ⟨f,other,low⟩ := forall₂_left under f' member
  obtain ⟨s',shape',length⟩ := Option.map_eq_some_iff.mp known
  obtain ⟨s,shape,below⟩ := low.below.shape s' shape'
  exact ⟨f,other,s,shape,below.length_eq.symm.trans length⟩

theorem place_within {axis : Int} (under : fs'.Under fs) (aligned : Aligned fs) :
    Within Facts.Both (place axis fs') (place axis fs) := by
  obtain ⟨rank,ranks⟩ := aligned
  cases found' : fs'.findSome? Fact.rank with
  | none =>
    have stop : place axis fs' = .ok (fs'.dropLast,[fs'.getLastD .unknown]) := by
      simp only [place,found']
      rfl
    rw [stop]
    exact learns_place under
  | some r' =>
    obtain ⟨f,member,s,shape,length⟩ := rank_below under found'
    have equal : r' = rank := length.symm.trans (ranks f member s shape)
    subst equal
    have found : fs.findSome? Fact.rank = some r' := by
      cases found : fs.findSome? Fact.rank with
      | none =>
        have none := List.findSome?_eq_none_iff.mp found f member
        simp [Fact.rank,shape] at none
      | some r =>
        obtain ⟨g,other,s,shape,length⟩ := rank_below (Facts.Under.refl under.typed) found
        rw [← ranks g other s shape,length]
    simp only [place,found',found]
    refine within_same fun a _ => within_bind (spread_within under ranks) ?_
    rintro gs' gs ⟨better,ranks⟩
    refine total_within better.dropLast better.getLastD fun s shape => ?_
    rcases List.eq_nil_or_concat' gs with rfl | ⟨front,last,rfl⟩
    · cases shape
    · rw [List.getLastD_concat] at shape
      exact ranks last (by simp) s shape

end

theorem infer_rests {axis : Int} {r : Facts × Facts} (settled : Aligned (ins ++ outs))
    (underIns : ins'.Under ins) (underOuts : outs'.Under outs)
    (found : infer axis ins outs = .ok r) (rests : Facts.Rests r ins outs) :
    ∃ p, infer axis ins' outs' = .ok p ∧ Facts.Both p r := by
  rw [infer_eq] at found ⊢
  obtain ⟨fs,shared,placed⟩ := bind_ok.mp found
  obtain ⟨fs',shared',under⟩ := Facts.shareDType_within (underIns.append (underOuts.pad 1)) fs shared
  obtain ⟨laterIns,laterOuts⟩ := within_learned (learns_place (Facts.Under.refl under.typed)) placed
  obtain ⟨b,rfl,restOut⟩ := Facts.below_one (laterOuts.below.trans rests.2)
  have restIns := laterIns.below.trans rests.1
  have grown : Facts.Under (ins ++ [b]) fs := within_learned (Facts.learns_shareDType
    (Facts.Under.refl (underIns.append underOuts).typed)) shared
  have same : fs = ins ++ [b] := by
    rcases List.eq_nil_or_concat' fs with rfl | ⟨front,last,rfl⟩
    · simpa using grown.length_eq
    · rw [List.dropLast_concat] at restIns
      rw [List.getLastD_concat] at restOut
      exact Facts.Below.eq (List.rel_append restIns (.cons restOut .nil)) grown.below
  rw [shared',ok_bind]
  exact place_within under (same ▸ settled) r placed

end Concat

namespace Op

theorem eval_single {o : Op} {ts vs : List Tensor} (evaluated : o.eval ts = .ok vs) : ∃ v, vs = [v] := by
  have one {t : Outcome Tensor} (mapped : t.map ([·]) = .ok vs) : ∃ v, vs = [v] := by
    obtain ⟨v,-,rfl⟩ := map_ok.mp mapped
    exact ⟨v,rfl⟩
  unfold eval at evaluated
  dsimp only at evaluated
  split at evaluated <;> first
    | exact one evaluated
    | (cases evaluated <;> exact ⟨_,rfl⟩)

theorem inferSource_rests {known : Fact} {r : Facts × Facts} (underIns : ins'.Under ins)
    (underOuts : outs'.Under outs) (found : inferSource known ins outs = .ok r)
    (rests : Facts.Rests r ins outs) :
    ∃ p, inferSource known ins' outs' = .ok p ∧ Facts.Both p r := by
  obtain ⟨c,unified,equal⟩ := bind_ok.mp found
  cases equal
  obtain ⟨b,rfl,restOut⟩ := Facts.below_one rests.2
  obtain ⟨b',rfl,output⟩ := Facts.under_last underOuts
  cases restOut.antisymm (Fact.unify_left unified)
  obtain ⟨c',unified',least⟩ := Fact.unify_least output.typed output.below
    (Fact.unify_right_typed output.typed unified)
  refine ⟨(ins',[c']),?_,underIns,Facts.under_one ⟨least,output.typed⟩⟩
  unfold inferSource
  dsimp only [Facts.first,List.headD_cons]
  rw [unified']
  rfl

-- What the rules that look back only at open inputs would have found is known in the end.
def Settled (o : Op) (start inputs outputs : Facts) : Prop :=
  match o with
  | binary _ | addN => ∀ s, (Facts.first outputs).shape = some s → Facts.Refilled start inputs s
  | reshape own => Reshape.Retargeted own start inputs (Facts.first outputs)
  | concat _ => Concat.Aligned (inputs ++ outputs)
  | pack axis => Pack.Unstacked axis start inputs (Facts.first outputs)
  | expandDims axes =>
    ExpandDims.Unexpanded axes (Facts.first start) (Facts.first inputs) (Facts.first outputs)
  | _ => True

-- Where a rule is at rest and settled, it finds nothing new with less known either.
theorem infer_rests {o : Op} {r : Facts × Facts} (accepted : ins = [] ∨ o.arity.accepts ins.length = true)
    (settled : o.Settled start ins outs) (begun : start.Under ins') (underIns : ins'.Under ins)
    (underOuts : outs'.Under outs) (found : o.infer ins outs = .ok r) (rests : Facts.Rests r ins outs) :
    ∃ p, o.infer ins' outs' = .ok p ∧ Facts.Both p r := by
  cases o with
  | const | placeholder => exact inferSource_rests underIns underOuts found rests
  | identity => exact inferIdentity_within underIns underOuts r found
  | binary k =>
    have short : ins.length ≤ 2 := by
      rcases accepted with rfl | accepted
      · exact Nat.zero_le _
      · exact Nat.le_of_eq (of_decide_eq_true accepted)
    exact BinaryKind.infer_rests short settled begun underIns underOuts found rests
  | addN => exact AddN.infer_rests settled begun underIns underOuts found rests
  | unary k => exact UnaryKind.infer_within underIns underOuts r found
  | reshape own => exact Reshape.infer_rests settled begun underIns underOuts found rests
  | transpose perm => exact Transpose.infer_within underIns underOuts r found
  | concat axis => exact Concat.infer_rests settled underIns underOuts found rests
  | pack axis => exact Pack.infer_rests settled begun underIns underOuts found rests
  | slice spans => exact Slice.infer_within underIns underOuts r found
  | squeeze axes => exact Squeeze.infer_within underIns underOuts r found
  | expandDims axes => exact ExpandDims.infer_rests settled begun underIns underOuts found rests
  | flatten axis => exact Flatten.infer_within underIns underOuts r found
  | cast t => exact Cast.infer_within underIns underOuts r found
  | shape => exact ShapeOf.infer_within underIns underOuts r found
  | reduce named reduction axes keepDims => exact Reduction.infer_within underIns underOuts r found
  | matMul => exact MatMul.infer_within underIns underOuts r found
  | softmax axis => exact Softmax.infer_within underIns underOuts r found
  | batchNorm epsilon => exact BatchNorm.infer_within underIns underOuts r found
  | conv c => exact Convolution.infer_within underIns underOuts r found
  | pool k p => exact Pooling.infer_within underIns underOuts r found

end Op

end TensorGraph
