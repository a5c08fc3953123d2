import TensorGraph.Proofs.Op.Exact.Window
import TensorGraph.Proofs.Op.Meets.Elementwise

namespace TensorGraph
open Outcome Facts

variable {ins : Facts} {out : Fact} {r : Facts × Facts} {t u w : Tensor} {shape : Shape} {dims : ShapeFact}

theorem Transpose.reordered_total {flag : Bool} {perm : List Int} (rank : t.shape.length = 4)
    (valid : permutation (some perm) 4 = .ok (perm.map Int.toNat)) :
    ∃ u, (if flag then eval (some perm) t else .ok t) = .ok u := by
  cases flag with
  | true =>
    refine ⟨_,bind_ok.mpr ⟨perm.map Int.toNat,?_,rfl⟩⟩
    rw [Tensor.rank,rank,valid]
  | false => exact ⟨t,rfl⟩

theorem Image.toChannelsSecond_total (last : Bool) (rank : t.shape.length = 4) :
    ∃ u, toChannelsSecond last t = .ok u := Transpose.reordered_total rank rfl

theorem Image.ofChannelsSecond_matched {last : Bool} (rank : t.shape.length = 4) :
    Matched (ofChannelsSecond last t) := by
  obtain ⟨u,ran⟩ : ∃ u, ofChannelsSecond last t = .ok u := Transpose.reordered_total rank rfl
  rw [ran]
  exact matched_ok u

-- The rule counts the windows of known extents.
theorem Patch.outputDims_windows {p : Patch} {d : Dim} (rank : shape.length = 4)
    (found : p.outputDims (.ofShape shape) d = .ok dims) :
    ∃ ws, p.outputPair (shape.getD p.spatialAxes.1 0) (shape.getD p.spatialAxes.2 0) = .ok ws := by
  have known {a : Nat} {e : Dim} (inside : a < 4) (entered : entry (.ofShape shape) a = .ok e) :
      e = .known (shape.getD a 0) := by
    unfold entry at entered
    rw [ShapeFact.place_ofShape (Shape.entry_within (rank.symm ▸ inside))] at entered
    cases entered
    rfl
  have axes : p.spatialAxes.1 < 4 ∧ p.spatialAxes.2 < 4 := by
    unfold spatialAxes
    split <;> decide
  rw [outputDims_eq] at found
  obtain ⟨rows,first,found⟩ := bind_ok.mp found
  obtain ⟨columns,second,found⟩ := bind_ok.mp found
  obtain ⟨extents,each,-⟩ := bind_ok.mp found
  cases known axes.1 first
  cases known axes.2 second
  obtain ⟨ws,counted,-⟩ := bind_ok.mp each
  have length := (mapM_ok.mp counted).length_eq
  obtain ⟨a,b,rfl⟩ := List.length_eq_two.mp length.symm
  exact ⟨(a,b),bind_ok.mpr ⟨_,counted,rfl⟩⟩

namespace Pooling

variable {p : Patch} {kind : PoolKind}

theorem stretched_matched (n : Nat) (positions : List (List Nat)) : Matched (stretched n positions) := by
  refine raises_foldlM (fun _ _ _ => ?_) _
  split
  · exact matched_ok _
  · exact matched_fail rfl

theorem windowed_matched (ws : Windows × Windows)
    (windows : p.outputPair (t.shape.getD 2 0) (t.shape.getD 3 0) = .ok ws) : Matched (windowed kind p t) := by
  cases kind with
  | max =>
    unfold windowed
    rw [greatest_eq]
    refine matched_bind windows ?_
    dsimp only
    split
    · exact matched_fail rfl
    · exact (stretched_matched _ _).bind fun _ _ => (stretched_matched _ _).bind fun _ _ => matched_ok _
  | average =>
    unfold windowed
    rw [mean_eq]
    refine matched_bind windows ?_
    dsimp only
    split
    · exact matched_fail rfl
    · exact matched_ok _

theorem windowed_rank (evaluated : windowed kind p t = .ok u) : u.shape.length = 4 := by
  cases kind with
  | max =>
    obtain ⟨_,_,_,_,-,-,-,rfl⟩ := greatest_made evaluated
    rfl
  | average =>
    obtain ⟨_,_,-,rfl⟩ := mean_made evaluated
    rfl

theorem eval_matched {ws : Windows × Windows} (rank : t.shape.length = 4) (typed : kind.checkDType t.dtype = .ok ())
    (windows : p.outputPair (t.shape.getD p.spatialAxes.1 0) (t.shape.getD p.spatialAxes.2 0) = .ok ws) :
    Matched (eval kind p t) := by
  obtain ⟨data,turned⟩ := Image.toChannelsSecond_total p.channelsLast rank
  obtain ⟨-,shape⟩ := Image.toChannelsSecond_parts rank turned
  rw [eval_eq]
  refine matched_bind typed ?_
  rw [Tensor.rank,if_neg (not_not.mpr rank)]
  refine matched_bind turned ((windowed_matched ws ?_).bind fun result evaluated =>
    Image.ofChannelsSecond_matched (windowed_rank evaluated))
  rw [shape]
  exact windows

theorem infer_meets (forward : kind = .max → Forward p) (tell : Tell ins [t])
    (found : infer kind p ins [out] = .ok r) : Meets (eval kind p t) r.2 := by
  rw [infer_eq] at found
  obtain ⟨q,shared,found⟩ := bind_ok.mp found
  obtain ⟨input,typed⟩ := sharedPair_tell tell shared
  obtain ⟨⟨⟩,supported,found⟩ := bind_ok.mp found
  unfold Fact.require at supported
  rw [input.dtype] at supported
  obtain ⟨x,ranked,found⟩ := bind_ok.mp found
  have rank : t.shape.length = 4 := input.rank ranked
  dsimp only at found
  rw [(input.withDims ranked).shape,Option.getD_some] at found
  obtain ⟨dims,counted,found⟩ := bind_ok.mp found
  obtain ⟨o,shaped,equal⟩ := bind_ok.mp found
  cases equal
  obtain ⟨ws,windows⟩ := Patch.outputDims_windows rank counted
  refine meets_one (eval_matched rank supported windows) fun u ran => ?_
  obtain ⟨-,dtype,covers⟩ := eval_parts forward ran
  have inside : p.channelAxis < t.shape.length := by
    unfold Patch.channelAxis
    split <;> omega
  rw [ShapeFact.extent_ofShape (Shape.entry_within inside),
    Patch.outputDims_exact covers (eval_checked ran).2 rank] at counted
  cases counted
  exact Fact.withDims_tells shaped (dtype ▸ typed) rfl

end Pooling

-- An extent that is checked is one that passed.
theorem Dim.guard_holds {α β : Type} {p : Nat → Nat → Prop} [∀ n m, Decidable (p n m)] {e : Nat → Nat → Cause}
    {m : Outcome α} {k : β → Outcome α} {a b : Dim} {i j : Nat} {y : α} (left : a = .known i) (right : b = .known j)
    (found : (match a, b with
      | .known i, .known j => if p i j then (fail (e i j) : Outcome β) >>= k else m
      | _, _ => m) = .ok y) : ¬ p i j := by
  subst left right
  dsimp only at found
  split at found
  · cases found
  · assumption

namespace Convolution

variable {c : Convolution} {bias : Option Tensor} {x k : Fact}

theorem apply_matched (ws : Windows × Windows) (grouped : w.shape.getD 1 0 * c.groups = t.shape.getD 1 0)
    (divided : w.shape.getD 0 0 % c.groups = 0) (biased : ∀ b, bias = some b → b.shape = [w.shape.getD 0 0])
    (windows : (c.patch (w.shape.getD 2 0,w.shape.getD 3 0)).outputPair (t.shape.getD 2 0) (t.shape.getD 3 0) = .ok ws) :
    Matched (c.apply t w bias) := by
  rw [apply_eq]
  unfold gathered
  rw [if_neg (by rw [grouped,divided]; simp)]
  refine matched_bind windows ?_
  dsimp only
  split
  · exact matched_fail rfl
  · cases bias with
    | none => exact matched_ok _
    | some b =>
      dsimp only
      rw [if_pos (biased b rfl)]
      exact matched_ok _

theorem apply_rank (evaluated : c.apply t w bias = .ok u) : u.shape.length = 4 := by
  obtain ⟨_,_,-,-,-,shape⟩ := apply_parts evaluated
  rw [shape]
  rfl

theorem eval_matched {ws : Windows × Windows} (rankT : t.shape.length = 4) (rankW : w.shape.length = 4)
    (float : t.dtype.isFloat = true) (same : ∀ s ∈ t :: w :: bias.toList, s.dtype = t.dtype)
    (grouped : w.shape.getD c.kernelAxes.2.1 0 * c.groups = t.shape.getD (if c.channelsLast then 3 else 1) 0)
    (divided : w.shape.getD c.kernelAxes.1 0 % c.groups = 0)
    (biased : ∀ b, bias = some b → b.shape = [w.shape.getD c.kernelAxes.1 0])
    (windows : (c.patch (w.shape.getD c.kernelAxes.2.2.1 0,w.shape.getD c.kernelAxes.2.2.2 0)).outputPair
      (t.shape.getD (c.patch (0,0)).spatialAxes.1 0) (t.shape.getD (c.patch (0,0)).spatialAxes.2 0) = .ok ws) :
    Matched (c.eval t w bias) := by
  obtain ⟨data,turned⟩ := Image.toChannelsSecond_total c.channelsLast rankT
  obtain ⟨kernel,ordered⟩ : ∃ u, c.kernelOutputFirst w = .ok u := Transpose.reordered_total rankW rfl
  obtain ⟨-,shape⟩ := Image.toChannelsSecond_parts (p := c.patch (0,0)) rankT turned
  obtain ⟨-,kernelShape⟩ := kernelOutputFirst_parts rankW ordered
  refine matched_bind (if_pos float) (matched_bind (requireSameDType_passes same) ?_)
  dsimp only
  rw [if_neg (by simp [Tensor.rank,rankT,rankW])]
  refine matched_bind turned (matched_bind ordered ((apply_matched ws ?_ ?_ ?_ ?_).bind
    fun result applied => Image.ofChannelsSecond_matched (apply_rank applied)))
  all_goals rw [kernelShape]
  · rw [shape]
    exact grouped
  · exact divided
  · exact biased
  · rw [shape]
    exact windows

theorem declareKernel_below {k' : Fact} (found : c.declareKernel k = .ok k') : k.Below k' := by
  unfold declareKernel at found
  split at found
  · cases found
    exact k.below_refl
  · obtain ⟨_,-,found⟩ := bind_ok.mp found
    obtain ⟨_,-,found⟩ := bind_ok.mp found
    exact Fact.withDims_below found

-- The channels of the result are those of the kernel, and the bias has as many elements.
theorem answer_parts (input : x.Tells t) (kernel : k.Tells w) (rank : w.shape.length = 4)
    (others : Tell ins bias.toList) (found : answer c x k out ins = .ok r) :
    (∀ b, bias = some b → b.shape = [w.shape.getD c.kernelAxes.1 0]) ∧ ∃ dims p,
      c.outputDims (.ofShape t.shape) (.ofShape w.shape) (.known (w.shape.getD c.kernelAxes.1 0)) = .ok dims ∧
        out.withDims dims = .ok p ∧ r.2 = [p] := by
  have channels : (ShapeFact.ofShape w.shape).getD c.kernelAxes.1 .unknown = .known (w.shape.getD c.kernelAxes.1 0) :=
    ShapeFact.extent_ofShape (outputAxis_entry rank)
  unfold answer at found
  dsimp only at found
  rw [input.shape,kernel.shape,Option.getD_some,Option.getD_some,channels] at found
  cases bias with
  | none =>
    cases others
    obtain ⟨dims,counted,found⟩ := bind_ok.mp found
    obtain ⟨p,shaped,equal⟩ := bind_ok.mp found
    cases equal
    exact ⟨nofun,dims,p,counted,shaped,rfl⟩
  | some b =>
    obtain ⟨f,rfl,row⟩ := Tell.one others
    obtain ⟨g,flat,found⟩ := bind_ok.mp found
    have shape : b.shape = [w.shape.getD c.kernelAxes.1 0] := row.same_dims (s := [w.shape.getD c.kernelAxes.1 0]) flat
    obtain ⟨k',refined,found⟩ := bind_ok.mp found
    rw [(row.withDims flat).shape,shape,(kernel.withDims refined).shape] at found
    obtain ⟨dims,counted,found⟩ := bind_ok.mp found
    obtain ⟨p,shaped,equal⟩ := bind_ok.mp found
    cases equal
    exact ⟨fun _ equal => Option.some.inj equal ▸ shape,dims,p,counted,shaped,rfl⟩

theorem infer_meets (bias : Option Tensor) (divided : w.shape.getD c.kernelAxes.1 0 % c.groups = 0)
    (tell : Tell ins (t :: w :: bias.toList)) (found : c.infer ins [out] = .ok r) : Meets (c.eval t w bias) r.2 := by
  unfold infer at found
  obtain ⟨gs,shared,found⟩ := bind_ok.mp found
  obtain ⟨fs,o,rfl,later,-,typed,same⟩ := shareDType_tell (p := out) tell shared
  obtain ⟨f,others,rfl,first,later⟩ := later.uncons
  obtain ⟨g,rest,rfl,second,later⟩ := later.uncons
  rw [List.dropLast_concat,List.getLastD_concat] at found
  dsimp only at found
  obtain ⟨⟨⟩,float,found⟩ := bind_ok.mp found
  unfold requireFloatFact at float
  rw [first.dtype] at float
  obtain ⟨x,rankedT,found⟩ := bind_ok.mp found
  obtain ⟨y,rankedW,found⟩ := bind_ok.mp found
  obtain ⟨k,declared,found⟩ := bind_ok.mp found
  have rankT : t.shape.length = 4 := first.rank rankedT
  have rankW : w.shape.length = 4 := second.rank rankedW
  have input := first.withDims rankedT
  have kernel := (second.withDims rankedW).above (declareKernel_below declared)
  have inside : (if c.channelsLast then 3 else 1) < t.shape.length := by
    split <;> omega
  have axes := kernelAxes_lt c
  have fits : ¬ w.shape.getD c.kernelAxes.2.1 0 * c.groups ≠ t.shape.getD (if c.channelsLast then 3 else 1) 0 := by
    refine Dim.guard_holds (p := fun n m => m * c.groups ≠ n) ?_ ?_ found
    · rw [input.shape]
      exact ShapeFact.extent_ofShape (Shape.entry_within inside)
    · rw [kernel.shape]
      exact ShapeFact.extent_ofShape (Shape.entry_within (rankW.symm ▸ axes.2.1))
  have answered : answer c x k o rest = .ok r := Dim.guard_passed found
  obtain ⟨biased,dims,p,counted,shaped,output⟩ := answer_parts input kernel rankW later answered
  have windows := counted
  rw [outputDims_eq,ShapeFact.extent_ofShape (Shape.entry_within (rankW.symm ▸ axes.2.2.1)),
    ShapeFact.extent_ofShape (Shape.entry_within (rankW.symm ▸ axes.2.2.2))] at windows
  obtain ⟨ws,windows⟩ := Patch.outputDims_windows rankT windows
  rw [output]
  refine meets_one (eval_matched rankT rankW (requireFloat_ok float) same (not_not.mp fits) divided biased windows)
    fun u ran => ?_
  obtain ⟨-,-,-,dtype,-,covers⟩ := eval_parts ran
  obtain ⟨-,-,sized⟩ := eval_checked ran
  rw [outputDims_exact rankT rankW covers sized] at counted
  cases counted
  exact Fact.withDims_tells shaped (dtype ▸ typed) rfl

end Convolution

end TensorGraph
