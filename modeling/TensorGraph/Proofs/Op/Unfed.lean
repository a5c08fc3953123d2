import TensorGraph.Proofs.Op.Faults
import TensorGraph.Proofs.Fact.Refinement

namespace TensorGraph
open Outcome

namespace Outcome
variable {α β : Type} {P : α → Prop}

-- Whatever the computation returns has the property.
def Yields (P : α → Prop) (x : Outcome α) : Prop := ∀ a, x = .ok a → P a

@[simp] theorem yields_ok {a : α} : Yields P (.ok a) ↔ P a :=
  ⟨fun yields => yields a rfl,fun holds _ same => Except.ok.inj same ▸ holds⟩

@[simp] theorem yields_fail {c : Cause} : Yields P (fail c) := nofun

theorem yields_bind {x : Outcome β} {f : β → Outcome α} (rest : ∀ b, x = .ok b → Yields P (f b)) : Yields P (x >>= f) := by
  intro a ran
  obtain ⟨b,first,ran⟩ := bind_ok.mp ran
  exact rest b first a ran

end Outcome

namespace Fact

variable {f h k : Fact}

theorem Refines.proper (refines : f.Refines k) : k.Proper := by
  intro s known
  obtain ⟨t,-,equal⟩ := refines.value s known
  exact Tensor.same_trans equal (Tensor.same_symm equal)

theorem refines_self (proper : f.Proper) : f.Refines f :=
  ⟨fun _ known => known,ShapeFact.below?_refl _,fun s known => ⟨s,known,proper s known⟩⟩

theorem Proper.same (proper : f.Proper) : f.same f = true := by
  cases f with
  | constant t => exact proper t rfl
  | outline => simp [Fact.same]

theorem Below.refines (below : k.Below f) (proper : f.Proper) : f.Refines k := by
  refine ⟨below.dtype,below.shape,fun s known => ?_⟩
  have value : f.value = some s := by
    rw [below.value s known]
    rfl
  exact ⟨s,value,proper s value⟩

theorem Like.refines (like : f.Like k) (proper : f.Proper) : f.Refines k := by
  refine ⟨fun d known => like.dtype.trans known,like.shape ▸ ShapeFact.below?_refl _,fun s known => ?_⟩
  rcases like.value with equal | ⟨t,u,mine,other,same⟩
  · exact ⟨s,equal.trans known,proper s (equal.trans known)⟩
  · cases other.symm.trans known
    exact ⟨t,mine,Tensor.same_symm same⟩

-- A fact to which a combination with another one adds nothing says as much as the other.
theorem refines_joined {j new : Fact} (unified : f.unify k = .ok j) (again : f.unify j = .ok new)
    (refines : f.Refines new) : f.Refines k :=
  have joined := refines.trans (unify_refines again refines.proper).2
  joined.trans (unify_refines unified joined.proper).2

-- A fact that refines another takes nothing from it.
theorem unify_absorbs (refines : f.Refines k) : f.unify k = .ok f := by
  refine unify_ok.mpr ⟨?_,?_,?_,?_⟩
  · exact dtype_joins.ok_of_least (fun _ known => known) refines.dtype fun _ left _ => left
  · exact ShapeFact.joins.ok_of_least (ShapeFact.below?_refl _) refines.shape fun _ left _ => left
  · cases known : k.value with
    | none => exact Option.or_none.symm
    | some s =>
      obtain ⟨t,found,-⟩ := refines.value s known
      rw [found]
      rfl
  · intro t s found known
    obtain ⟨t',found',equal⟩ := refines.value s known
    cases found.symm.trans found'
    exact Tensor.same_symm equal

-- Combining adds nothing to a fact only where the fact says as much already.
theorem unify_refined (proper : f.Proper) : (∃ h, f.unify k = .ok h ∧ f.Refines h) ↔ f.Refines k := by
  constructor
  · rintro ⟨h,unified,refines⟩
    exact refines.trans (unify_refines unified refines.proper).2
  · exact fun refines => ⟨f,unify_absorbs refines,refines_self proper⟩

theorem refines_dims {dims : ShapeFact} : f.Refines (.outline none (some dims)) ↔ ∃ s, f.shape = some s ∧ dims.Below s :=
  ⟨fun refines => refines.shape dims rfl,fun below =>
    ⟨nofun,fun _ known => Option.some.inj known ▸ below,nofun⟩⟩

theorem withDims_refined (proper : f.Proper) {dims : ShapeFact} :
    (∃ h, f.withDims dims = .ok h ∧ f.Refines h) ↔ ∃ s, f.shape = some s ∧ dims.Below s :=
  (unify_refined proper).trans refines_dims

end Fact

namespace Facts

-- One tensor shares its element type with itself.
theorem shareDType_one (f : Fact) : shareDType [f] = .ok [f] := by
  unfold shareDType
  cases known : f.dtype with
  | none => simp [known]
  | some d =>
    simp only [List.filterMap_cons,known,List.filterMap_nil,List.map_cons,List.map_nil]
    have shared : Fact.unifyAll [.outline (some d) none] = .ok (.outline (some d) none) := rfl
    have refines : f.Refines (.outline (some d) none) := ⟨fun _ same => known.trans same,nofun,nofun⟩
    rw [shared,ok_bind,List.mapM_cons,Fact.unify_absorbs refines]
    rfl

theorem refill_length {ins fs : Facts} {out : ShapeFact} (refilled : refill ins out = .ok fs) : fs.length = ins.length := by
  rcases refill_cases ins out with ⟨i,-,equal⟩ | ⟨-,equal⟩ <;> rw [equal] at refilled
  · simpa using (mapM_ok.mp refilled).length_eq.symm
  · cases refilled
    rfl

theorem broadcast_length {ins : Facts} {out : Fact} {p : Facts × Fact} (stretched : broadcast ins out = .ok p) :
    p.1.length = ins.length := by
  rw [broadcast_eq] at stretched
  obtain ⟨output,-,stretched⟩ := bind_ok.mp stretched
  unfold stretchInputs at stretched
  split at stretched
  · cases stretched
    rfl
  · obtain ⟨fs,refilled,stretched⟩ := bind_ok.mp stretched
    obtain ⟨_,-,stretched⟩ := bind_ok.mp stretched
    cases stretched
    exact refill_length refilled

end Facts

namespace Op

variable {f : Fact}

-- Facts come back for inputs that there are not.
abbrev Answers (p : Facts × Facts) : Prop := p.1 ≠ []

-- The operators that give no fact to inputs they do not have.
def isUnfed : Op → Bool
  | const _ | placeholder _ | addN | concat _ | reshape _ => true
  | _ => false

theorem binary_answers (k : BinaryKind) : Yields Answers (k.infer [] [f]) := by
  rw [BinaryKind.infer_eq]
  refine yields_bind fun p shared => yields_bind fun q stretched => yields_ok.mpr ?_
  have count : p.1.length = 2 := by
    unfold BinaryKind.shareTypes at shared
    obtain ⟨inputs,typed,shared⟩ := bind_ok.mp shared
    have two : inputs.length = 2 := Facts.shareDType_length typed
    obtain ⟨_,-,shared⟩ := bind_ok.mp shared
    split at shared
    · obtain ⟨_,-,shared⟩ := bind_ok.mp shared
      cases shared
      exact two
    · unfold BinaryKind.passType at shared
      split at shared
      · obtain ⟨_,-,shared⟩ := bind_ok.mp shared
        cases shared
        exact two
      · obtain ⟨_,-,shared⟩ := bind_ok.mp shared
        obtain ⟨_,both,shared⟩ := bind_ok.mp shared
        cases shared
        exact Facts.shareDType_length both
      · cases shared
        exact two
  exact List.ne_nil_of_length_pos (by rw [Facts.broadcast_length stretched,count]; exact Nat.two_pos)

theorem infer_answers {o : Op} (fed : o.isUnfed = false) : Yields Answers (o.infer [] [f]) := by
  cases o with
  | const | placeholder | addN | concat | reshape => cases fed
  | binary k => exact binary_answers k
  | pack axis =>
    -- no inputs have no element type in common
    have failed : (pack axis).infer [] [f] = fail (.noCommonDType "Pack") := rfl
    exact failed ▸ yields_fail
  | conv c =>
    have failed : (conv c).infer [] [f] = fail (.unworded .index) := by
      unfold infer Convolution.infer
      rw [List.nil_append,show Facts.pad [f] 1 = [f] from rfl,Facts.shareDType_one]
      rfl
    exact failed ▸ yields_fail
  | _ =>
    -- however the rule branches, it ends with facts for the inputs that it looked for
    simp only [infer,inferIdentity,UnaryKind.infer,Transpose.infer,Slice.infer,Squeeze.infer,ExpandDims.infer,
      Flatten.infer,Cast.infer,ShapeOf.infer,Reduction.infer,MatMul.infer,Softmax.infer,BatchNorm.infer,Pooling.infer]
    repeat' first | refine yields_bind fun _ _ => ?_ | split
    all_goals simp

-- Where a rule without inputs adds nothing to its output.
def Idle : Op → Fact → Prop
  | const t, f => f.Refines (.constant t)
  | placeholder known, f => f.Refines known
  | addN, f => f.shape = some []
  | concat axis, f => ∀ s, f.shape = some s → ∃ a, normalizeAxis axis s.length = .ok a ∧ s[a]? = some (.known 0)
  | reshape target, f => f.dtype = none ∧ ∀ ds, target = some ds →
      ∃ dims s, Reshape.outline none ds = .ok dims ∧ f.shape = some s ∧ dims.Below s
  | _, _ => False

theorem addN_unfed (f : Fact) : AddN.infer [] [f] = f.withDims [] >>= fun h => .ok ([],[h]) := by
  unfold AddN.infer
  rw [List.nil_append,show Facts.pad [f] 1 = [f] from rfl,Facts.shareDType_one,ok_bind]
  dsimp only [List.dropLast,List.getLastD_cons,List.getLast_singleton]
  rw [Facts.broadcast_eq,bind_assoc]
  refine congrArg (f.withDims [] >>= ·) (funext fun h => ?_)
  unfold Facts.stretchInputs
  cases h.shape <;> rfl

theorem refineAxis_same {s : ShapeFact} {i : Nat} (inside : i < s.length) :
    Concat.refineAxis (some s) s.length i (s.getD i .unknown) = .ok s := by
  unfold Concat.refineAxis
  have at_ : s[i]? = some (s.getD i .unknown) := by simp [inside]
  simp only [Option.getD_some,at_]
  rw [show (s.getD i .unknown).unify (s.getD i .unknown) = .ok (s.getD i .unknown) by simp [Dim.unify]]
  simp [inside]

theorem shareAxis_one {s : ShapeFact} {i : Nat} (known : f.shape = some s) (inside : i < s.length) :
    Concat.shareAxis s.length [f] i = .ok [f] := by
  have shared : Concat.sharedExtent s.length i [f] = .ok (s.getD i .unknown) := by
    unfold Concat.sharedExtent
    simp only [List.foldlM_cons,List.foldlM_nil,known]
    rw [if_neg (by simp)]
    cases s.getD i .unknown <;> rfl
  have absorbed : f.withDims s = .ok f :=
    Fact.unify_absorbs (Fact.refines_dims.mpr ⟨s,known,ShapeFact.below_refl s⟩)
  unfold Concat.shareAxis
  rw [shared,ok_bind,List.mapM_cons,known,refineAxis_same inside,ok_bind,absorbed]
  rfl

theorem concat_unfed (axis : Int) (f : Fact) : Concat.infer axis [] [f] = match f.shape with
    | none => .ok ([],[f])
    | some s => (normalizeAxis axis s.length >>= fun a => Concat.refineAxis (some s) s.length a (.known 0)) >>=
        fun dims => f.withDims dims >>= fun h => .ok ([],[h]) := by
  rw [Concat.infer_eq,List.nil_append,show Facts.pad [f] 1 = [f] from rfl,Facts.shareDType_one,ok_bind]
  unfold Concat.place
  cases known : f.shape with
  | none => simp [Fact.rank,known]
  | some s =>
    simp only [List.findSome?_cons,Fact.rank,known,Option.map_some]
    rw [bind_assoc]
    refine congrArg (_ >>= ·) (funext fun a => ?_)
    have spread : Concat.spread s.length a [f] = .ok [f] := foldlM_fixed fun i member =>
      shareAxis_one known (List.mem_range.mp (List.mem_filter.mp member).1)
    rw [spread,ok_bind]
    unfold Concat.total
    simp only [List.dropLast_singleton,List.getLastD_cons,List.getLastD_nil,known]
    rfl

theorem reshape_unfed (target : Option (List Int)) (f : Fact) : Reshape.infer target [] [f] =
    if f.dtype.isSome then fail (.unworded .index) else match target with
    | none => .ok ([],[f])
    | some ds => Reshape.outline none ds >>= fun dims => f.withDims dims >>= fun h => .ok ([],[h]) := by
  rw [Reshape.infer_eq]
  cases known : f.dtype with
  | some d =>
    have stuck : Reshape.passType [] f = fail (.unworded .index) := by
      unfold Reshape.passType
      rw [known]
      rfl
    exact stuck ▸ rfl
  | none =>
    have passed : Reshape.passType [] f = .ok ([],f) := by
      unfold Reshape.passType
      rw [known]
      rfl
    dsimp only [Facts.first,List.headD]
    rw [passed,ok_bind]
    cases target with
    | none => rfl
    | some ds =>
      have outlined : Reshape.inferDims none ds = Reshape.outline none ds := bind_pure _
      show (Reshape.inferDims none ds >>= fun dims => f.withDims dims >>= fun h => .ok ([],[h])) = _
      rw [outlined]
      rfl

-- A shape that a rule finds adds nothing where the output has it already.
theorem dims_idle (proper : f.Proper) {x : Outcome ShapeFact} :
    (∃ h, (x >>= fun dims => f.withDims dims >>= fun h => (.ok ([],[h]) : Outcome (Facts × Facts))) = .ok ([],[h]) ∧
      f.Refines h) ↔ ∃ dims s, x = .ok dims ∧ f.shape = some s ∧ dims.Below s := by
  cases x with
  | error e => simp
  | ok dims =>
    simp only [ok_bind,Except.ok.injEq,exists_and_left,exists_eq_left']
    rw [← Fact.withDims_refined proper]
    refine exists_congr fun h => and_congr_left fun _ => ?_
    simp [bind_ok]

theorem refineAxis_idle {s : ShapeFact} {i : Nat} :
    (∃ dims, Concat.refineAxis (some s) s.length i (.known 0) = .ok dims ∧ dims.Below s) ↔ s[i]? = some (.known 0) := by
  unfold Concat.refineAxis
  simp only [Option.getD_some]
  cases at_ : s[i]? with
  | none => simp [fail]
  | some e =>
    constructor
    · rintro ⟨dims,refined,below⟩
      obtain ⟨d,unified,equal⟩ := bind_ok.mp refined
      cases equal
      obtain rfl := (Dim.unify_right unified).eq rfl
      have inside := (List.getElem?_eq_some_iff.mp at_).1
      obtain ⟨d,there,low⟩ := forall₂_getElem? below at_
      rw [List.getElem?_set_self inside] at there
      cases there
      exact congrArg some (low.eq rfl).symm
    · intro equal
      cases equal
      refine ⟨s,?_,s.below_refl⟩
      obtain ⟨inside,same⟩ := List.getElem?_eq_some_iff.mp at_
      have set : s.set i (.known 0) = s := by rw [← same,List.set_getElem_self]
      exact congrArg Except.ok set

theorem source_idle (proper : f.Proper) (known : Fact) :
    (∃ h, inferSource known [] [f] = .ok ([],[h]) ∧ f.Refines h) ↔ f.Refines known := by
  rw [← Fact.unify_refined proper]
  refine exists_congr fun h => and_congr_left fun _ => ?_
  unfold inferSource
  simp [bind_ok,Facts.first]

theorem addN_idle (proper : f.Proper) :
    (∃ h, AddN.infer [] [f] = .ok ([],[h]) ∧ f.Refines h) ↔ Op.addN.Idle f := by
  rw [addN_unfed]
  refine (dims_idle proper (x := .ok [])).trans ?_
  simp [Idle,ShapeFact.Below]

theorem concat_idle (proper : f.Proper) (axis : Int) :
    (∃ h, Concat.infer axis [] [f] = .ok ([],[h]) ∧ f.Refines h) ↔ (Op.concat axis).Idle f := by
  rw [concat_unfed]
  unfold Idle
  cases known : f.shape with
  | none => simpa [known] using Fact.refines_self proper
  | some s =>
    refine (dims_idle proper).trans ?_
    constructor
    · rintro ⟨dims,s',found,same,below⟩
      cases known.symm.trans same
      obtain ⟨a,axis,refined⟩ := bind_ok.mp found
      intro s' same
      cases known.symm.trans same
      exact ⟨a,axis,refineAxis_idle.mp ⟨dims,refined,below⟩⟩
    · intro idle
      obtain ⟨a,axis,empty⟩ := idle s known
      obtain ⟨dims,refined,below⟩ := refineAxis_idle.mpr empty
      exact ⟨dims,s,bind_ok.mpr ⟨a,axis,refined⟩,known,below⟩

theorem reshape_idle (proper : f.Proper) (target : Option (List Int)) :
    (∃ h, Reshape.infer target [] [f] = .ok ([],[h]) ∧ f.Refines h) ↔ (Op.reshape target).Idle f := by
  rw [reshape_unfed]
  unfold Idle
  cases typed : f.dtype with
  | some d => simp [fail,typed]
  | none =>
    cases target with
    | none => simpa [typed] using Fact.refines_self proper
    | some ds => simpa [typed] using dims_idle proper

-- A rule that has no inputs returns its output with nothing added just where the operator is idle.
theorem infer_idle {o : Op} (proper : f.Proper) :
    (∃ h, o.infer [] [f] = .ok ([],[h]) ∧ f.Refines h) ↔ o.Idle f := by
  by_cases fed : o.isUnfed = false
  · constructor
    · rintro ⟨h,inferred,-⟩
      exact absurd rfl (infer_answers fed _ inferred)
    · intro idle
      cases o <;> first | exact idle.elim | cases fed
  cases o with
  | const t => exact source_idle proper (.constant t)
  | placeholder known => exact source_idle proper known
  | addN => exact addN_idle proper
  | concat axis => exact concat_idle proper axis
  | reshape target => exact reshape_idle proper target
  | _ => exact absurd rfl fed

end Op
end TensorGraph
