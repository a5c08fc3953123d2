import TensorGraph.Proofs.Op.Meets.Axes
import TensorGraph.Proofs.Op.Meets.Elementwise
import TensorGraph.Proofs.Op.Meets.Join
import TensorGraph.Proofs.Op.Meets.Product
import TensorGraph.Proofs.Op.Meets.Reshape
import TensorGraph.Proofs.Op.Meets.Window
import TensorGraph.Registry

namespace TensorGraph
open Outcome Facts

namespace Op

variable {o : Op} {ins outs : Facts} {out : Fact} {ts us : List Tensor} {r : Facts × Facts}

-- What evaluation asks for and the rule does not: numbers to calculate with, an axis within the rank, output
-- channels in whole groups, rows together with rows only, windows that do not move backward, and a target
-- that is known and suits.
def Guarded (o : Op) (ins outs : Facts) : Prop :=
  match o, ins with
  | addN, x :: _ => ∀ d, x.dtype = some d → d.isNumeric = true
  | matMul, x :: _ => ∀ d, x.dtype = some d → d.isNumeric = true
  | softmax axis, x :: _ => ∀ s, x.extents? = some s → ∃ a, normalizeAxis axis s.length = .ok a
  | conv c, _ :: w :: _ => ∀ s, w.extents? = some s → s.getD c.kernelAxes.1 0 % c.groups = 0
  | concat _, x :: rest => x.rank = some 1 → ∀ f ∈ rest ++ outs, f.rank = some 1
  | pool .max p, _ => Pooling.Forward p
  | reshape (some target), [x] => ∀ s, x.extents? = some s → Reshape.Suits s target
  | reshape _, [x,y] => ∃ known, y.value = some known ∧
      ∀ target, Reshape.targetOf known = .ok target → ∀ s, x.extents? = some s → Reshape.Suits s target
  | _, _ => True

-- A target that comes as a tensor is the one that is known.
def Targeted (o : Op) (ins : Facts) (ts : List Tensor) : Prop :=
  match o, ins, ts with
  | reshape _, [_,y], [_,row] => ∀ known, y.value = some known → Reshape.targetOf row = Reshape.targetOf known
  | _, _, _ => True

-- An evaluation that agrees with what is known of its results.
structure Safe (x : Outcome (List Tensor)) (outs : Facts) : Prop where
  matched : Matched x
  tells : ∀ us, x = .ok us → Tell outs us

theorem safe_ok (tell : Tell outs us) : Safe (.ok us) outs :=
  ⟨matched_ok _,fun _ equal => Except.ok.inj equal ▸ tell⟩

theorem safe_fail {c : Cause} (other : c.kind.isMismatch = false) : Safe (fail c) outs :=
  ⟨matched_fail other,nofun⟩

theorem safe_one {x : Outcome Tensor} (meets : Meets x outs) : Safe (x.map ([·])) outs := by
  refine ⟨?_,fun us evaluated => ?_⟩
  · intro f failed
    cases ran : x with
    | ok u =>
      rw [ran] at failed
      cases failed
    | error e =>
      rw [ran] at failed
      cases failed
      exact meets.matched f ran
  · obtain ⟨u,ran,rfl⟩ := map_ok.mp evaluated
    exact meets.tells u ran

theorem Safe.shown {x : Outcome (List Tensor)} {outs' : Facts} (safe : Safe x outs)
    (shown : List.Forall₂ Fact.Shows outs outs') : Safe x outs' :=
  ⟨safe.matched,fun us ran => (safe.tells us ran).shown shown⟩

theorem infer_meets (guarded : o.Guarded ins outs) (targeted : o.Targeted ins ts) (tell : Tell ins ts)
    (found : o.infer ins [out] = .ok r) (shown : List.Forall₂ Fact.Shows r.2 outs) : Safe (o.eval ts) outs := by
  unfold eval
  dsimp only
  split
  · exact safe_fail rfl
  · cases tell
    obtain ⟨f,learned,equal⟩ := bind_ok.mp found
    cases equal
    exact (safe_ok (.cons ((Fact.tells_constant _).shown (Fact.unify_shows learned)) .nil)).shown shown
  · exact (safe_ok (inferIdentity_tells tell found)).shown shown
  · exact (safe_one (BinaryKind.infer_meets tell found)).shown shown
  · obtain ⟨x,fs,rfl,first,-⟩ := tell.uncons
    exact (safe_one (AddN.infer_meets (guarded _ first.dtype) tell found)).shown shown
  · exact (safe_one (UnaryKind.infer_meets tell found)).shown shown
  · rename_i own t
    obtain ⟨x,rfl,input⟩ := tell.one
    cases own with
    | none => exact safe_fail rfl
    | some target => exact (safe_one (Reshape.infer_meets (guarded _ input.extents) tell found)).shown shown
  · rename_i own t row
    obtain ⟨x,y,rfl,input,-⟩ := tell.two
    obtain ⟨known,value,suits⟩ : ∃ known, y.value = some known ∧ ∀ target, Reshape.targetOf known = .ok target →
        ∀ s, x.extents? = some s → Reshape.Suits s target := by
      cases own <;> exact guarded
    exact (safe_one (Reshape.infer_meets_row input value (targeted known value)
      (fun target chosen => suits target chosen _ input.extents) found)).shown shown
  · exact (safe_one (Transpose.infer_meets tell found)).shown shown
  · obtain ⟨x,fs,rfl,first,later⟩ := tell.uncons
    refine (safe_one (Concat.infer_meets tell found fun row => ?_)).shown shown
    have rows := guarded (row ▸ first.rank_eq)
    refine ⟨fun s member => ?_,fun f member dims known => ?_⟩
    · obtain ⟨f,there,tells⟩ := forall₂_right later s member
      exact Option.some.inj (tells.rank_eq.symm.trans (rows f (List.mem_append_left _ there)))
    · obtain ⟨f',there,shows_⟩ := forall₂_left shown f member
      exact shows_.rank (rows f' (List.mem_append_right _ there)) known
  · exact (safe_one (Pack.infer_meets tell found)).shown shown
  · exact (safe_one (Slice.infer_meets tell found)).shown shown
  · exact (safe_one (Squeeze.infer_meets tell found)).shown shown
  · exact (safe_one (ExpandDims.infer_meets tell found)).shown shown
  · exact (safe_one (Flatten.infer_meets tell found)).shown shown
  · exact (safe_one (Cast.infer_meets tell found)).shown shown
  · exact (safe_ok (ShapeOf.infer_tells tell found)).shown shown
  · exact (safe_one (Reduction.infer_meets tell found)).shown shown
  · obtain ⟨x,y,rfl,first,-⟩ := tell.two
    exact (safe_one (MatMul.infer_meets (guarded _ first.dtype) tell found)).shown shown
  · obtain ⟨x,rfl,input⟩ := tell.one
    obtain ⟨a,inside⟩ := guarded _ input.extents
    exact (safe_one (Softmax.infer_meets inside tell found)).shown shown
  · exact (safe_one (BatchNorm.infer_meets tell found)).shown shown
  · obtain ⟨f,_,rfl,-,later⟩ := tell.uncons
    obtain ⟨w,_,rfl,kernel,-⟩ := later.uncons
    exact (safe_one (Convolution.infer_meets none (guarded _ kernel.extents) tell found)).shown shown
  · obtain ⟨f,_,rfl,-,later⟩ := tell.uncons
    obtain ⟨w,_,rfl,kernel,-⟩ := later.uncons
    exact (safe_one (Convolution.infer_meets (some _) (guarded _ kernel.extents) tell found)).shown shown
  · refine (safe_one (Pooling.infer_meets (fun greatest => ?_) tell found)).shown shown
    subst greatest
    exact guarded
  · exact safe_fail rfl

end Op

end TensorGraph
