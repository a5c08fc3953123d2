import TensorGraph.Proofs.Fact.Sound
import TensorGraph.Proofs.Op.Settled

namespace TensorGraph
open Outcome Facts

variable {ins outs fs gs : Facts} {r : Facts × Facts} {x out : Fact} {t u : Tensor} {ts rest : List Tensor}

theorem normalizeAxis_lt {axis : Int} {rank a : Nat} (found : normalizeAxis axis rank = .ok a) :
    a < rank := by
  unfold normalizeAxis at found
  dsimp only at found
  generalize (if axis < 0 then axis + rank else axis) = k at found
  split at found
  · rename_i inside
    cases found
    simp only [Bool.and_eq_true,decide_eq_true_eq] at inside
    omega
  · cases found

namespace Concat

variable {rank a b n : Nat}

-- Shapes that differ at most on an axis.
structure Beside (a : Nat) (s shape : Shape) : Prop where
  rank : s.length = shape.length
  others : ∀ b, b ≠ a → s[b]? = shape[b]?

theorem beside_of_eraseIdx {s shape : Shape} (rank : s.length = shape.length)
    (equal : s.eraseIdx a = shape.eraseIdx a) : Beside a s shape := by
  refine ⟨rank,fun b apart => ?_⟩
  rcases Nat.lt_or_gt_of_ne apart with before | after
  · have here := congrArg (·[b]?) equal
    simpa [List.getElem?_eraseIdx,before] using here
  · have here := congrArg (·[b - 1]?) equal
    have later : ¬ b - 1 < a := by omega
    have next : b - 1 + 1 = b := by omega
    simpa [List.getElem?_eraseIdx,later,next] using here

theorem beside_set {shape : Shape} : Beside a (shape.set a n) shape :=
  ⟨List.length_set,fun _ apart => List.getElem?_set_ne apart.symm⟩

theorem getD_set {shape : Shape} (inside : a < shape.length) : (shape.set a n).getD a 0 = n := by
  simp [List.getD_eq_getElem?_getD,inside]

theorem refineAxis_fits {d : Dim} {s : Option ShapeFact} {dims : ShapeFact} {shape : Shape}
    (fits : ∀ r, s = some r → r.Fits shape) (length : shape.length = rank) (entry : shape[a]? = some n)
    (accept : d.accepts n = true) (found : refineAxis s rank a d = .ok dims) : dims.Fits shape := by
  have start : ShapeFact.Fits (s.getD (List.replicate rank .unknown)) shape := by
    cases s with
    | none => exact ShapeFact.fits_unknown length
    | some r => exact fits r rfl
  unfold refineAxis at found
  dsimp only at found
  split at found
  · rename_i e known
    obtain ⟨e',unified,equal⟩ := bind_ok.mp found
    cases equal
    obtain ⟨m,there,holds⟩ := forall₂_getElem? start.flip known
    cases entry.symm.trans there
    exact start.set entry (Dim.unify_accepts unified holds accept)
  · cases found

theorem sharedExtent_accepts {d : Dim} (accept : Accept fs ts) (entry : ∀ t ∈ ts, t.shape[b]? = some n)
    (found : sharedExtent rank b fs = .ok d) : d.accepts n = true := by
  refine foldlM_keeps (P := fun d : Dim => d.accepts n = true) ?_ rfl found
  intro d f d' member kept step
  obtain ⟨t,other,holds⟩ := forall₂_left accept f member
  split at step
  · cases step
    exact kept
  · rename_i s known
    split at step
    · cases step
    · exact Dim.unify_accepts step kept ((Fact.accepts_fits holds known).entry (entry t other))

theorem shareAxis_accept (accept : Accept fs ts) (length : ∀ t ∈ ts, t.shape.length = rank)
    (entry : ∀ t ∈ ts, t.shape[b]? = some n) (found : shareAxis rank fs b = .ok gs) : Accept gs ts := by
  obtain ⟨d,shared,found⟩ := bind_ok.mp found
  have extent := sharedExtent_accepts accept entry shared
  refine mapM_accept accept found fun f g t member holds step => ?_
  obtain ⟨dims,refined,shaped⟩ := bind_ok.mp step
  exact Fact.withDims_accepts holds shaped (refineAxis_fits (fun _ known => Fact.accepts_fits holds known)
    (length t member) (entry t member) extent refined)

theorem spread_accept {shape : Shape} (accept : Accept fs ts) (beside : ∀ t ∈ ts, Beside a t.shape shape)
    (found : spread shape.length a fs = .ok gs) : Accept gs ts := by
  refine foldlM_keeps (P := fun gs : Facts => Accept gs ts) ?_ accept found
  intro fs b gs member kept shared
  obtain ⟨below,apart⟩ := List.mem_filter.mp member
  obtain ⟨n,entry⟩ : ∃ n, shape[b]? = some n := ⟨_,List.getElem?_eq_getElem (List.mem_range.mp below)⟩
  have entries (t : Tensor) (other : t ∈ ts) : t.shape[b]? = some n :=
    ((beside t other).others b (by simpa using apart)).trans entry
  exact shareAxis_accept kept (fun t other => (beside t other).rank) entries shared

-- The extents on the joined axis, all known, are those of the tensors.
theorem extents_eq {shapes : List ShapeFact} {ds : List Dim} {ns : List Nat}
    (fits : List.Forall₂ ShapeFact.Fits shapes (ts.map Tensor.shape))
    (entries : shapes.mapM (extentAt a) = .ok ds) (known : ds.mapM Dim.extent? = some ns) :
    ns = ts.map fun t => t.shape.getD a 0 := by
  rw [List.forall₂_map_right_iff] at fits
  have each : ShapeFact.Fits ds (ts.map fun t => t.shape.getD a 0) := by
    rw [ShapeFact.Fits,List.forall₂_map_right_iff]
    refine mapM_keeps fits entries fun s d t fit entry => ?_
    unfold extentAt at entry
    split at entry
    · rename_i here
      cases entry
      have holds := fit.extent a 0
      rw [List.getD_eq_getElem?_getD,here] at holds
      exact holds
    · cases entry
  rw [ShapeFact.extents?_eq_some.mp known,ShapeFact.fits_ofShape] at each
  exact each

theorem total_sound {shape : Shape} (input : Accept ins ts) (output : out.accepts u = true)
    (beside : Beside a u.shape shape) (inside : a < shape.length)
    (sum : u.shape.getD a 0 = (ts.map fun t => t.shape.getD a 0).foldr (· + ·) 0)
    (found : total shape.length a ins out = .ok r) : Hold r ts [u] := by
  unfold total at found
  split at found
  · cases found
    exact ⟨input,accept_one output⟩
  · rename_i shapes known
    obtain ⟨ds,entries,found⟩ := bind_ok.mp found
    split at found
    · cases found
      exact ⟨input,accept_one output⟩
    · rename_i ns extents
      obtain ⟨dims,refined,found⟩ := bind_ok.mp found
      obtain ⟨o,shaped,equal⟩ := bind_ok.mp found
      cases equal
      have entry : u.shape[a]? = some (ns.foldr (· + ·) 0) := by
        rw [extents_eq (input.known known) entries extents,← sum,List.getD_eq_getElem?_getD,
          List.getElem?_eq_getElem (beside.rank ▸ inside)]
        rfl
      exact ⟨input,accept_one (Fact.withDims_accepts output shaped (refineAxis_fits
        (fun _ known => Fact.accepts_fits output known) beside.rank entry (Dim.accepts_known.mpr rfl) refined))⟩

theorem place_sound {axis : Int} {shape : Shape} (accept : Accept fs (ts ++ [u]))
    (chosen : normalizeAxis axis shape.length = .ok a) (beside : ∀ t ∈ ts ++ [u], Beside a t.shape shape)
    (sum : u.shape.getD a 0 = (ts.map fun t => t.shape.getD a 0).foldr (· + ·) 0)
    (found : place axis fs = .ok r) : Hold r ts [u] := by
  unfold place at found
  split at found
  · cases found
    exact ⟨accept.split.1,accept_one accept.split.2⟩
  · rename_i rank first
    obtain ⟨f,member,known⟩ := List.exists_of_findSome?_eq_some first
    obtain ⟨s,shaped,rfl⟩ := Option.map_eq_some_iff.mp known
    obtain ⟨t,other,holds⟩ := forall₂_left accept f member
    have rank : s.length = shape.length :=
      (Fact.accepts_fits holds shaped).length_eq.trans (beside t other).rank
    rw [rank] at found
    obtain ⟨b,again,found⟩ := bind_ok.mp found
    cases chosen.symm.trans again
    obtain ⟨gs,spreads,found⟩ := bind_ok.mp found
    have accept := spread_accept accept beside spreads
    exact total_sound accept.split.1 accept.split.2 (beside u (by simp)) (normalizeAxis_lt chosen) sum found

theorem eval_ok {axis : Int} (evaluated : eval axis t rest = .ok u) : ∃ a,
    normalizeAxis axis t.shape.length = .ok a ∧ (∀ s ∈ t :: rest, s.dtype = t.dtype ∧ Beside a s.shape t.shape) ∧
      u = join a t.dtype t.shape (t :: rest) := by
  unfold eval at evaluated
  dsimp only at evaluated
  split at evaluated
  · rename_i typed
    split at evaluated
    · rename_i ranked
      obtain ⟨a,chosen,evaluated⟩ := bind_ok.mp evaluated
      split at evaluated
      · rename_i extents
        cases evaluated
        refine ⟨a,chosen,fun s member => ?_,rfl⟩
        have dtype := List.all_eq_true.mp typed s member
        have rank := List.all_eq_true.mp ranked s member
        have equal := List.all_eq_true.mp extents s member
        exact ⟨eq_of_beq dtype,beside_of_eraseIdx (eq_of_beq rank) (eq_of_beq equal)⟩
      · cases evaluated
    · cases evaluated
  · cases evaluated

theorem eval_parts {axis : Int} (evaluated : eval axis t rest = .ok u) :
    ∃ a, normalizeAxis axis t.shape.length = .ok a ∧
      (∀ s ∈ t :: rest ++ [u], s.dtype = t.dtype ∧ Beside a s.shape t.shape) ∧
      u.shape.getD a 0 = ((t :: rest).map fun s => s.shape.getD a 0).foldr (· + ·) 0 := by
  obtain ⟨a,chosen,alike,rfl⟩ := eval_ok evaluated
  refine ⟨a,chosen,List.forall_mem_append.mpr ⟨alike,?_⟩,getD_set (normalizeAxis_lt chosen)⟩
  exact List.forall_mem_singleton.mpr ⟨rfl,beside_set⟩

theorem infer_sound {axis : Int} (evaluated : eval axis t rest = .ok u) (input : Accept ins (t :: rest))
    (output : Accept outs [u]) (found : infer axis ins outs = .ok r) : Hold r (t :: rest) [u] := by
  obtain ⟨a,chosen,alike,sum⟩ := eval_parts evaluated
  rw [infer_eq] at found
  obtain ⟨fs,shared,found⟩ := bind_ok.mp found
  have accept := shareDType_accept (input.append (output.pad (Nat.le_refl 1)))
    (fun s member => (alike s member).1) shared
  exact place_sound accept chosen (fun s member => (alike s member).2) sum found

end Concat

namespace Pack

variable {a : Nat}

theorem eval_ok {axis : Int} (evaluated : eval axis t rest = .ok u) : ∃ d a ts,
    commonDType ((t :: rest).map Tensor.dtype) = .ok d ∧ (∀ s ∈ t :: rest, s.shape = t.shape) ∧
      normalizeAxis axis (t.shape.length + 1) = .ok a ∧
        List.Forall₂ (fun s cast => s.ofTensor (some d) = .ok cast) (t :: rest) ts ∧ u = stack a d t.shape ts := by
  obtain ⟨d,common,evaluated⟩ := bind_ok.mp evaluated
  dsimp only at evaluated
  split at evaluated
  · rename_i alike
    obtain ⟨a,chosen,evaluated⟩ := bind_ok.mp evaluated
    obtain ⟨ts,each,equal⟩ := bind_ok.mp evaluated
    cases equal
    exact ⟨d,a,ts,common,fun s member => eq_of_beq (List.all_eq_true.mp alike s member),chosen,mapM_ok.mp each,rfl⟩
  · cases evaluated

theorem eval_parts {axis : Int} (evaluated : eval axis t rest = .ok u) : ∃ a,
    normalizeAxis axis (t.shape.length + 1) = .ok a ∧ (∀ s ∈ t :: rest, s.shape = t.shape) ∧
      commonDType ((t :: rest).map Tensor.dtype) = .ok u.dtype ∧
        u.shape = t.shape.insertIdx a (t :: rest).length := by
  obtain ⟨d,a,ts,common,alike,chosen,casts,rfl⟩ := eval_ok evaluated
  refine ⟨a,chosen,alike,common,?_⟩
  rw [casts.length_eq]
  rfl

theorem packType_sound (input : Accept ins ts) (output : out.accepts u = true)
    (common : commonDType (ts.map Tensor.dtype) = .ok u.dtype) (found : packType ins out = .ok x) :
    x.accepts u = true := by
  unfold packType at found
  split at found
  · rename_i types known
    obtain ⟨d,here,found⟩ := bind_ok.mp found
    rw [input.types known,common] at here
    cases here
    exact Fact.withDType_accepts output found rfl
  · cases found
    exact output

theorem place_sound {axis : Int} {shape : Shape} (input : Accept ins (t :: rest))
    (output : out.accepts u = true) (alike : ∀ s ∈ t :: rest, s.shape = shape)
    (chosen : normalizeAxis axis (shape.length + 1) = .ok a)
    (stacked : u.shape = shape.insertIdx a (t :: rest).length) (found : place axis ins out = .ok r) :
    Hold r (t :: rest) [u] := by
  have inside := Nat.le_of_lt_succ (normalizeAxis_lt chosen)
  unfold place at found
  split at found
  · rename_i s known
    have fits := alike t List.mem_cons_self ▸ Fact.accepts_fits input.first known
    rw [fits.length_eq,chosen,ok_bind] at found
    obtain ⟨o,shaped,equal⟩ := bind_ok.mp found
    cases equal
    have dims : ShapeFact.Fits (s.insertIdx a (.known ins.length)) u.shape := by
      rw [stacked]
      exact forall₂_insertIdx fits a (Dim.accepts_known.mpr input.length_eq)
    exact ⟨input,accept_one (Fact.withDims_accepts output shaped dims)⟩
  · rename_i s none known
    have fits := Fact.accepts_fits output known
    rw [fits.length_eq,stacked,List.length_insertIdx_of_le_length inside,chosen,ok_bind] at found
    obtain ⟨gs,each,found⟩ := bind_ok.mp found
    obtain ⟨hs,shared,equal⟩ := bind_ok.mp found
    cases equal
    have dims : ShapeFact.Fits (s.eraseIdx a) shape := by
      have erased := forall₂_eraseIdx fits a
      rw [stacked,List.eraseIdx_insertIdx_self] at erased
      exact erased
    have input := mapM_accept input each fun f g t member holds shaped =>
      Fact.withDims_accepts holds shaped ((alike t member).symm ▸ dims)
    exact ⟨shareShape_accept input alike shared,accept_one output⟩
  · cases found
    exact ⟨input,accept_one output⟩

theorem infer_sound {axis : Int} (evaluated : eval axis t rest = .ok u) (input : Accept ins (t :: rest))
    (output : Accept outs [u]) (found : infer axis ins outs = .ok r) : Hold r (t :: rest) [u] := by
  obtain ⟨a,chosen,alike,common,stacked⟩ := eval_parts evaluated
  rw [infer_eq] at found
  obtain ⟨fs,shared,found⟩ := bind_ok.mp found
  obtain ⟨o,typed,found⟩ := bind_ok.mp found
  have input := shareShape_accept input alike shared
  have output := packType_sound input output.first common typed
  exact place_sound input output alike chosen stacked found

end Pack

end TensorGraph
