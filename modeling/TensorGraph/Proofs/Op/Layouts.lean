import TensorGraph.Proofs.Op.Convolved
import TensorGraph.Proofs.Op.Meets.Window
import TensorGraph.Proofs.Op.Reordered

namespace TensorGraph
open Outcome Facts

variable {x y w u : Tensor} {rows columns : Windows}

-- The axes of images with channels last, by their places with channels second, and those of kernels with their spatial
-- axes first, by their places with output channels first.
def channelsToLast : List Int := [0,2,3,1]

def spatialToFirst : List Int := [2,3,1,0]

theorem permutation_last : Transpose.permutation (some channelsToLast) 4 = .ok [0,2,3,1] := rfl

theorem permutation_first : Transpose.permutation (some spatialToFirst) 4 = .ok [2,3,1,0] := rfl

theorem lastOrder : [0,2,3,1].Perm (List.range 4) := Transpose.permutation_perm permutation_last

theorem firstOrder : [2,3,1,0].Perm (List.range 4) := Transpose.permutation_perm permutation_first

-- An order and the one that undoes it.
theorem Transpose.eval_back {perm back : List Int} {p q : List Nat} {n : Nat} (valid : permutation (some perm) n = .ok p)
    (valid' : permutation (some back) n = .ok q) (undone : (q.map fun b => p.getD b 0) = List.range n)
    (evaluated : eval (some perm) x = .ok y) : eval (some back) y = .ok x.table := by
  obtain ⟨rfl,rfl⟩ := eval_known valid evaluated
  have first := permutation_perm valid
  rw [eval_eq_turn (p := q),turn_turn first (permutation_perm valid'),undone,turn_range]
  rw [turn,Tensor.tabulate,List.length_map,order_length first]
  exact valid'

-- The image with channels last, of one with channels second.
def Image.Last (u v : Tensor) : Prop := Transpose.eval (some channelsToLast) v = .ok u

theorem Image.returned_abreast (rank : u.shape.length = 4) :
    Abreast Last (ofChannelsSecond true u) (ofChannelsSecond false u) := by
  have turned := Transpose.eval_eq_turn (rank.symm ▸ permutation_last)
  exact abreast_iff.mpr ⟨fun _ _ => ⟨u,rfl⟩,fun _ equal => ⟨_,turned,Except.ok.inj equal ▸ turned⟩⟩

-- Only what stands at the indices of an image counts.
theorem Image.padded_table {filler : Scalar} {n c : Nat} (rank : x.shape.length = 4) (batch : n < x.shape.getD 0 0)
    (channel : c < x.shape.getD 1 0) (rows columns : Windows) (i j : Nat) :
    padded x.table filler rows columns n c i j = padded x filler rows columns n c i j := by
  rw [padded_eq,padded_eq]
  exact element_congr (x := x.table) (y := x) (fun _ _ => rfl) (fun _ _ below beside => Tensor.get_table
    ((Shape.mem_four rank).mpr ⟨batch,channel,below,beside⟩)) filler _ _

theorem Image.pad_table (rank : x.shape.length = 4) (filler : Scalar) (rows columns : Windows) :
    pad x.table filler rows columns = pad x filler rows columns := by
  rw [pad_eq,pad_eq]
  split
  · rfl
  · exact congrArg Except.ok (Tensor.grid_congr fun n batch c channel i _ j _ => padded_table rank batch channel rows columns i j)

-- The same windows over images with channels last, or second.
def Patch.laid (p : Patch) (last : Bool) : Patch := { p with channelsLast := last }

namespace Convolution

variable {c : Convolution} {bias : Option Tensor}

-- The convolution with channels last and with the kernel's spatial axes first, or with neither.
def laid (c : Convolution) (last : Bool) : Convolution := { c with channelsLast := last, kernelSpatialFirst := last }

theorem Fits.channel_lt (fits : c.Fits x w bias rows columns) {o q : Nat} (output : o < w.shape.getD 0 0)
    (channel : q < w.shape.getD 1 0) :
    o / (w.shape.getD 0 0 / c.groups) * w.shape.getD 1 0 + q < x.shape.getD 1 0 := by
  have whole := Nat.div_mul_cancel (Nat.dvd_of_mod_eq_zero fits.outputs)
  have group : o / (w.shape.getD 0 0 / c.groups) < c.groups :=
    Nat.div_lt_of_lt_mul (by rwa [whole])
  calc o / (w.shape.getD 0 0 / c.groups) * w.shape.getD 1 0 + q
    _ < (o / (w.shape.getD 0 0 / c.groups) + 1) * w.shape.getD 1 0 := by rw [Nat.succ_mul]; omega
    _ ≤ c.groups * w.shape.getD 1 0 := Nat.mul_le_mul_right _ group
    _ = x.shape.getD 1 0 := (Nat.mul_comm ..).trans fits.channels

-- Just the elements that stand at the indices of data and kernel count, and the layout has done its work before.
theorem apply_table (last : Bool) (rankX : x.shape.length = 4) (rankW : w.shape.length = 4) :
    (c.laid last).apply x.table w.table bias = .ok u ↔ (c.laid false).apply x w bias = .ok u := by
  have same : ∀ rows columns, (c.laid false).Fits x w bias rows columns →
      (c.laid last).convolved x.table w.table bias rows columns = (c.laid false).convolved x w bias rows columns := by
    intro rows columns fits
    refine Tensor.tabulate_congr fun index inside => ?_
    match index, Shape.mem_indices.mp inside with
    | [n,o,y,z], .cons batch (.cons output (.cons row (.cons column .nil))) =>
      refine congrArg (addBias x.dtype bias o) (List.foldl_ext _ _ _ fun acc cell member =>
        congrArg (BinaryKind.add.onScalars x.dtype acc) ?_)
      obtain ⟨high,wide⟩ := Patch.mem_cells member
      refine congrArg (MatMul.dot x.dtype) (List.map_congr_left fun q inside => ?_)
      have inside := List.mem_range.mp inside
      refine Prod.ext ?_ ?_
      · exact Image.padded_table rankX batch (fits.channel_lt output inside) rows columns _ _
      · exact Tensor.get_table ((Shape.mem_four rankW).mpr ⟨output,inside,Int.ofNat_lt.mp high,Int.ofNat_lt.mp wide⟩)
  constructor
  · intro evaluated
    obtain ⟨rows,columns,fits,rfl⟩ := apply_ok.mp evaluated
    have fits : (c.laid false).Fits x w bias rows columns :=
      ⟨fits.channels,fits.outputs,fits.windows,fits.whole,fits.counted,fits.served,fits.row⟩
    exact apply_ok.mpr ⟨rows,columns,fits,same rows columns fits⟩
  · intro evaluated
    obtain ⟨rows,columns,fits,rfl⟩ := apply_ok.mp evaluated
    refine apply_ok.mpr ⟨rows,columns,?_,(same rows columns fits).symm⟩
    exact ⟨fits.channels,fits.outputs,fits.windows,fits.whole,fits.counted,fits.served,fits.row⟩

theorem eval_laid (c : Convolution) (x w : Tensor) (bias : Option Tensor) : Abreast Image.Last
    (do (c.laid true).eval (← Transpose.eval (some channelsToLast) x) (← Transpose.eval (some spatialToFirst) w) bias)
    ((c.laid false).eval x w bias) := by
  by_cases ranks : x.shape.length = 4 ∧ w.shape.length = 4
  · obtain ⟨rankX,rankW⟩ := ranks
    have turned : Transpose.eval (some channelsToLast) x = .ok (Transpose.turn [0,2,3,1] x) :=
      Transpose.eval_eq_turn (rankX.symm ▸ permutation_last)
    have ordered : Transpose.eval (some spatialToFirst) w = .ok (Transpose.turn [2,3,1,0] w) :=
      Transpose.eval_eq_turn (rankW.symm ▸ permutation_first)
    have data : Image.toChannelsSecond true (Transpose.turn [0,2,3,1] x) = .ok x.table :=
      Transpose.eval_back permutation_last rfl (by rfl) turned
    have kernel : (c.laid true).kernelOutputFirst (Transpose.turn [2,3,1,0] w) = .ok w.table :=
      Transpose.eval_back permutation_first rfl (by rfl) ordered
    rw [turned,ok_bind,ordered,ok_bind]
    unfold eval
    refine abreast_same fun _ _ => abreast_same fun _ _ => ?_
    rw [if_neg (four_ranks rfl rfl),if_neg (four_ranks rankX rankW)]
    change Abreast _ (Image.toChannelsSecond true _ >>= _) (Image.toChannelsSecond false _ >>= _)
    rw [data,kernel]
    have applied : Abreast (fun u v => u = v ∧ v.shape.length = 4) ((c.laid true).apply x.table w.table bias)
        ((c.laid false).apply x w bias) := by
      refine abreast_iff.mpr ⟨fun u ran => ⟨u,(apply_table true rankX rankW).mp ran⟩,fun u ran => ?_⟩
      exact ⟨u,(apply_table true rankX rankW).mpr ran,rfl,apply_rank ran⟩
    refine applied.bind ?_
    rintro u _ ⟨rfl,rank⟩
    exact Image.returned_abreast rank
  · refine abreast_iff.mpr ⟨fun u evaluated => absurd ?_ ranks,fun v evaluated => absurd ?_ ranks⟩
    · obtain ⟨x',turned,evaluated⟩ := bind_ok.mp evaluated
      obtain ⟨w',ordered,-⟩ := bind_ok.mp evaluated
      exact ⟨(Transpose.eval_known permutation_last turned).1,(Transpose.eval_known permutation_first ordered).1⟩
    · obtain ⟨_,_,_,through⟩ := eval_ok.mp evaluated
      exact through.ranks

end Convolution

namespace Pooling

variable {p : Patch} {kind : PoolKind}

-- The padded images are the same, and all the rest follows from them.
theorem greatest_table (last : Bool) (rank : x.shape.length = 4) :
    greatest (p.laid last) x.table = greatest (p.laid false) x := by
  unfold greatest
  refine congrArg (_ >>= ·) (funext fun ws => ?_)
  exact congrArg (· >>= _) (Image.pad_table rank (lowest x.dtype) ws.1 ws.2)

theorem mean_table (last : Bool) (rank : x.shape.length = 4) : mean (p.laid last) x.table = mean (p.laid false) x := by
  unfold mean
  refine congrArg (_ >>= ·) (funext fun ws => ?_)
  exact congrArg (· >>= _) (Image.pad_table rank (.zero x.dtype) ws.1 ws.2)

theorem windowed_table (last : Bool) (rank : x.shape.length = 4) :
    windowed kind (p.laid last) x.table = windowed kind (p.laid false) x := by
  cases kind with
  | max => exact greatest_table last rank
  | average => exact mean_table last rank

theorem eval_laid (kind : PoolKind) (p : Patch) (x : Tensor) : Abreast Image.Last
    (do eval kind (p.laid true) (← Transpose.eval (some channelsToLast) x)) (eval kind (p.laid false) x) := by
  by_cases rank : x.shape.length = 4
  · have turned : Transpose.eval (some channelsToLast) x = .ok (Transpose.turn [0,2,3,1] x) :=
      Transpose.eval_eq_turn (rank.symm ▸ permutation_last)
    have data : Image.toChannelsSecond true (Transpose.turn [0,2,3,1] x) = .ok x.table :=
      Transpose.eval_back permutation_last rfl (by rfl) turned
    rw [turned,ok_bind,eval_eq,eval_eq]
    refine abreast_same fun _ _ => ?_
    rw [Tensor.rank,Tensor.rank,if_neg (not_not.mpr (show (Transpose.turn [0,2,3,1] x).shape.length = 4 from rfl)),
      if_neg (not_not.mpr rank)]
    change Abreast _ (Image.toChannelsSecond true _ >>= _) (Image.toChannelsSecond false _ >>= _)
    rw [data,ok_bind,windowed_table true rank]
    exact abreast_same fun u ran => Image.returned_abreast (windowed_rank ran)
  · refine abreast_iff.mpr ⟨fun u evaluated => absurd ?_ rank,fun v evaluated => absurd ?_ rank⟩
    · obtain ⟨x',turned,-⟩ := bind_ok.mp evaluated
      exact (Transpose.eval_known permutation_last turned).1
    · rw [eval_eq] at evaluated
      obtain ⟨_,-,evaluated⟩ := bind_ok.mp evaluated
      split at evaluated
      · cases evaluated
      · rename_i ranked
        exact not_not.mp ranked

end Pooling

theorem ShapeFact.of_rank {s : ShapeFact} (rank : s.length = 4) : ∃ a b c d, s = [a,b,c,d] := by
  match s, rank with
  | [a,b,c,d], _ => exact ⟨a,b,c,d,rfl⟩

-- Dims of which one list tells those of a reordered tensor.
def ShapeFact.Turns (p : List Nat) (r s : ShapeFact) : Prop := r = s.turn p ∧ s.length = p.length

theorem Patch.outputDims_laid {p : Patch} {s : ShapeFact} (channels : Dim) (rank : s.length = 4) :
    Abreast (ShapeFact.Turns [0,2,3,1]) ((p.laid true).outputDims (s.turn [0,2,3,1]) channels)
      ((p.laid false).outputDims s channels) := by
  obtain ⟨batch,_,rows,columns,rfl⟩ := ShapeFact.of_rank rank
  rw [outputDims_eq,outputDims_eq]
  change Abreast _ (spatial (p.laid false) rows columns >>= _) (spatial (p.laid false) rows columns >>= _)
  refine abreast_same fun extents found => ?_
  obtain ⟨d,e,rfl⟩ := spatial_length found
  exact ⟨rfl,rfl⟩

theorem Patch.outputDims_length {p : Patch} {s r : ShapeFact} {channels : Dim}
    (found : p.outputDims s channels = .ok r) : r.length = 4 := by
  rw [outputDims_eq] at found
  obtain ⟨_,-,found⟩ := bind_ok.mp found
  obtain ⟨_,-,found⟩ := bind_ok.mp found
  obtain ⟨extents,counted,found⟩ := bind_ok.mp found
  obtain ⟨_,-,equal⟩ := bind_ok.mp found
  obtain ⟨_,_,rfl⟩ := spatial_length counted
  cases equal
  unfold arrange
  split <;> rfl

theorem Fact.Turns.withTurned {f g : Fact} {r s : ShapeFact} {p : List Nat} (order : p.Perm (List.range 4)) (turns : g.Turns p f)
    (dims : ShapeFact.Turns p r s) : Abreast (Fact.Turns p) (g.withDims r) (f.withDims s) := by
  obtain ⟨rfl,rank⟩ := dims
  exact turns.withDims order (rank.trans (Transpose.order_length order))

theorem Facts.sharedPair_turns {x x' out out' : Fact} {p : List Nat} (order : p.Perm (List.range 4)) (input : x'.Turns p x)
    (output : out'.Turns p out) : Abreast (fun q r => q.1.Turns p r.1 ∧ q.2.Turns p r.2) (sharedPair [x'] [out'])
      (sharedPair [x] [out]) := by
  have pair : Abreast (fun gs fs => ∃ x' x out' out, gs = [x',out'] ∧ fs = [x,out] ∧ Fact.Turns p x' x ∧ Fact.Turns p out' out)
      (shareDType [x',out']) (shareDType [x,out]) := by
    refine shareDType_abreast ?_ ⟨_,_,_,_,rfl,rfl,input,output⟩ fun d => ?_
    · rw [List.map_cons,List.map_cons,List.map_cons,List.map_cons,input.dtype,output.dtype]
    · simp only [List.mapM_cons,List.mapM_nil,bind_assoc,pure_bind]
      exact (input.unify (s := none) order nofun).bind fun _ _ input => (output.unify (s := none) order nofun).bind
        fun _ _ output => ⟨_,_,_,_,rfl,rfl,input,output⟩
  refine pair.bind ?_
  rintro _ _ ⟨x',x,out',out,rfl,rfl,input,output⟩
  exact ⟨input,output⟩

-- Facts of inputs, each reordered in its own way, and of images that come out.
def Facts.relaid (perms : List (List Int)) (r : Facts × Facts) : Outcome (Facts × Facts) := do
  return (← turned perms r.1,← turned [channelsToLast] r.2)

theorem Facts.relaid_ok {perms : List (List Int)} {ins : Facts} {out : Fact} {r : Facts × Facts} :
    relaid perms (ins,[out]) = .ok r ↔ ∃ ins' out', turned perms ins = .ok ins' ∧ out.turned channelsToLast = .ok out' ∧
      r = (ins',[out']) := by
  constructor
  · intro found
    obtain ⟨ins',inputs,found⟩ := bind_ok.mp found
    obtain ⟨outs',outputs,equal⟩ := bind_ok.mp found
    obtain ⟨out',_,output,⟨⟩,rfl⟩ := turned_cons.mp outputs
    exact ⟨ins',out',inputs,output,(Except.ok.inj equal).symm⟩
  · rintro ⟨ins',out',inputs,output,rfl⟩
    exact bind_ok.mpr ⟨_,inputs,bind_ok.mpr ⟨_,turned_cons.mpr ⟨_,_,output,rfl,rfl⟩,rfl⟩⟩

-- A rule that learns the same from reordered facts, and nothing from facts that cannot be reordered.
theorem Facts.relaid_abreast {perms : List (List Int)} {rule rule' : Facts → Facts → Outcome (Facts × Facts)} {ins : Facts} {out : Fact}
    (same : ∀ ins' out', turned perms ins = .ok ins' → out.turned channelsToLast = .ok out' →
      Abreast (fun r s => relaid perms s = .ok r) (rule' ins' [out']) (rule ins [out]))
    (total : ∀ s, rule ins [out] = .ok s → ∃ ins' out', turned perms ins = .ok ins' ∧ out.turned channelsToLast = .ok out') :
    Abreast (fun r s => relaid perms s = .ok r) (relaid perms (ins,[out]) >>= fun q => rule' q.1 q.2) (rule ins [out]) := by
  refine abreast_iff.mpr ⟨fun r ran => ?_,fun s ran => ?_⟩
  · obtain ⟨_,reordered,inferred⟩ := bind_ok.mp ran
    obtain ⟨ins',out',inputs,output,rfl⟩ := relaid_ok.mp reordered
    exact (abreast_iff.mp (same ins' out' inputs output)).1 r inferred
  · obtain ⟨ins',out',inputs,output⟩ := total s ran
    obtain ⟨r,inferred,back⟩ := (abreast_iff.mp (same ins' out' inputs output)).2 s ran
    exact ⟨r,bind_ok.mpr ⟨_,relaid_ok.mpr ⟨_,_,inputs,output,rfl⟩,inferred⟩,back⟩

namespace Pooling

variable {p : Patch} {kind : PoolKind} {x x' out out' : Fact}

theorem conclude_laid (input : x'.Turns [0,2,3,1] x) (output : out'.Turns [0,2,3,1] out) :
    Abreast (fun r s => ∃ y' y o' o, r = ([y'],[o']) ∧ s = ([y],[o]) ∧ y'.Turns [0,2,3,1] y ∧ o'.Turns [0,2,3,1] o)
      (conclude (p.laid true) x' out') (conclude (p.laid false) x out) := by
  refine (input.shaped (s := List.replicate 4 .unknown) lastOrder rfl).bind ?_
  rintro y' y ⟨turns,s,known,known',rank⟩
  dsimp only
  rw [known,known']
  obtain ⟨a,b,c,d,rfl⟩ := ShapeFact.of_rank rank
  refine (Patch.outputDims_laid b rank).bind fun r s dims => ?_
  refine (output.withTurned lastOrder dims).bind fun o' o turned => ?_
  exact ⟨y',y,o',o,rfl,rfl,turns,turned⟩

theorem infer_turns (input : x'.Turns [0,2,3,1] x) (output : out'.Turns [0,2,3,1] out) :
    Abreast (fun r s => ∃ y' y o' o, r = ([y'],[o']) ∧ s = ([y],[o]) ∧ y'.Turns [0,2,3,1] y ∧ o'.Turns [0,2,3,1] o)
      (infer kind (p.laid true) [x'] [out']) (infer kind (p.laid false) [x] [out]) := by
  rw [infer_eq,infer_eq]
  refine (sharedPair_turns lastOrder input output).bind fun q r both => ?_
  rw [both.1.require]
  exact abreast_same fun _ _ => conclude_laid both.1 both.2

theorem infer_ranks {r : Facts × Facts} (found : infer kind p [x] [out] = .ok r) :
    (∀ s, x.shape = some s → s.length = 4) ∧ ∀ s, out.shape = some s → s.length = 4 := by
  rw [infer_eq] at found
  obtain ⟨q,shared,found⟩ := bind_ok.mp found
  obtain ⟨_,-,found⟩ := bind_ok.mp found
  obtain ⟨y,widened,found⟩ := bind_ok.mp found
  obtain ⟨dims,counted,found⟩ := bind_ok.mp found
  obtain ⟨o,shaped,-⟩ := bind_ok.mp found
  obtain ⟨fs,typed,paired⟩ := bind_ok.mp shared
  match fs, shareDType_below typed with
  | [_,_], .cons first (.cons second .nil) =>
    cases paired
    exact ⟨fun s => first.ranked widened,fun s known => (second.ranked shaped known).trans (Patch.outputDims_length counted)⟩

theorem sharedPair_short {ins outs : Facts} {q : Fact × Fact} (found : sharedPair ins outs = .ok q) :
    (ins.pad 1).length + (outs.pad 1).length = 2 := by
  obtain ⟨fs,typed,paired⟩ := bind_ok.mp found
  rw [← List.length_append,(shareDType_below typed).length_eq]
  unfold Facts.pair at paired
  split at paired
  · rfl
  · cases paired

-- The rule for one input.
theorem infer_laid_one (kind : PoolKind) (p : Patch) (x out : Fact) : Abreast (fun r s => relaid [channelsToLast] s = .ok r)
    (relaid [channelsToLast] ([x],[out]) >>= fun q => infer kind (p.laid true) q.1 q.2)
    (infer kind (p.laid false) [x] [out]) := by
  refine relaid_abreast (fun ins' out' inputs output => ?_) fun s ran => ?_
  · obtain ⟨x',_,input,⟨⟩,rfl⟩ := turned_cons.mp inputs
    refine (infer_turns (Fact.turns_of_turned permutation_last input) (Fact.turns_of_turned permutation_last output)).mono ?_
    rintro _ _ ⟨y',y,o',o,rfl,rfl,first,second⟩
    exact relaid_ok.mpr ⟨_,_,turned_cons.mpr ⟨_,_,Fact.turned_of_turns permutation_last first,rfl,rfl⟩,
      Fact.turned_of_turns permutation_last second,rfl⟩
  · obtain ⟨rankX,rankOut⟩ := infer_ranks ran
    obtain ⟨x',input⟩ := Fact.turned_total permutation_last rankX
    obtain ⟨out',output⟩ := Fact.turned_total permutation_last rankOut
    exact ⟨_,_,turned_cons.mpr ⟨_,_,input,rfl,rfl⟩,output⟩

theorem infer_laid (kind : PoolKind) (p : Patch) (ins : Facts) (out : Fact) :
    Abreast (fun r s => relaid [channelsToLast] s = .ok r)
      (relaid [channelsToLast] (ins,[out]) >>= fun q => infer kind (p.laid true) q.1 q.2)
      (infer kind (p.laid false) ins [out]) := by
  match ins with
  | [x] => exact infer_laid_one kind p x out
  | [] =>
    have one := infer_laid_one kind p .unknown out
    unfold relaid at one ⊢
    dsimp only at one ⊢
    generalize turned [channelsToLast] [out] = outs at one ⊢
    cases outs <;> exact one
  | x :: y :: more =>
    refine abreast_iff.mpr ⟨fun r ran => ?_,fun s ran => ?_⟩
    · obtain ⟨_,reordered,ran⟩ := bind_ok.mp ran
      obtain ⟨_,out',first,output,rfl⟩ := relaid_ok.mp reordered
      obtain ⟨x',_,input,⟨⟩,rfl⟩ := turned_cons.mp first
      rw [infer_eq] at ran
      obtain ⟨q,shared,-⟩ := bind_ok.mp ran
      cases sharedPair_short shared
    · rw [infer_eq] at ran
      obtain ⟨q,shared,-⟩ := bind_ok.mp ran
      cases sharedPair_short shared

end Pooling

theorem Dim.guard_abreast {α β γ : Type} {R : α → γ → Prop} {p : Nat → Nat → Prop} [∀ n m, Decidable (p n m)]
    {e : Nat → Nat → Cause} {m : Outcome α} {m' : Outcome γ} {k : β → Outcome α} {k' : β → Outcome γ} {a b : Dim}
    (rest : Abreast R m m') :
    Abreast R (match a, b with
      | known i, known j => if p i j then (fail (e i j) : Outcome β) >>= k else m
      | _, _ => m) (match a, b with
      | known i, known j => if p i j then (fail (e i j) : Outcome β) >>= k' else m'
      | _, _ => m') := by
  split
  · split
    · trivial
    · exact rest
  · exact rest

namespace Convolution

variable {c : Convolution} {x x' k k' out out' : Fact} {rest : Facts}

theorem outputDims_laid {xs ks : ShapeFact} (channels : Dim) (rankX : xs.length = 4) (rankK : ks.length = 4) :
    Abreast (ShapeFact.Turns [0,2,3,1]) ((c.laid true).outputDims (xs.turn [0,2,3,1]) (ks.turn [2,3,1,0]) channels)
      ((c.laid false).outputDims xs ks channels) := by
  obtain ⟨o,i,h,v,rfl⟩ := ShapeFact.of_rank rankK
  rw [outputDims_eq,outputDims_eq]
  change Abreast _ (dimsUnder (c.laid true) _ channels h v) (dimsUnder (c.laid false) xs channels h v)
  unfold dimsUnder
  split
  · rename_i h v
    exact Patch.outputDims_laid (p := c.patch (h,v)) channels rankX
  · obtain ⟨_,_,_,_,rfl⟩ := ShapeFact.of_rank rankX
    exact ⟨rfl,rfl⟩

theorem declareKernel_laid (kernel : k'.Turns [2,3,1,0] k) :
    Abreast (Fact.Turns [2,3,1,0]) ((c.laid true).declareKernel k') ((c.laid false).declareKernel k) := by
  unfold declareKernel laid
  dsimp only
  cases c.kernelShape with
  | none => exact kernel
  | some spatial =>
    exact abreast_same fun h _ => abreast_same fun v _ => kernel.withTurned firstOrder ⟨rfl,rfl⟩

-- Facts of data, kernel and result in the two layouts; the other facts are the same.
def Laid (r s : Facts × Facts) : Prop := ∃ x' x k' k rest out' out, r = (x' :: k' :: rest,[out']) ∧
  s = (x :: k :: rest,[out]) ∧ x'.Turns [0,2,3,1] x ∧ k'.Turns [2,3,1,0] k ∧ out'.Turns [0,2,3,1] out

theorem answer_laid {xs ks : ShapeFact} (data : x'.Turns [0,2,3,1] x) (dims : x.shape = some xs) (rankX : xs.length = 4)
    (kernel : k'.Turns [2,3,1,0] k) (extents : k.shape = some ks) (rankK : ks.length = 4) (output : out'.Turns [0,2,3,1] out) :
    Abreast Laid (answer (c.laid true) x' k' out' rest) (answer (c.laid false) x k out rest) := by
  have dims' : x'.shape = some (xs.turn [0,2,3,1]) := by rw [data.shape,dims]; rfl
  have extents' : k'.shape = some (ks.turn [2,3,1,0]) := by rw [kernel.shape,extents]; rfl
  unfold answer
  rw [dims,dims',extents,extents']
  obtain ⟨o,i,h,v,rfl⟩ := ShapeFact.of_rank rankK
  cases rest with
  | nil =>
    refine (outputDims_laid o rankX rankK).bind fun _ _ turned => ?_
    exact (output.withTurned lastOrder turned).bind fun _ _ output => ⟨_,_,_,_,_,_,_,rfl,rfl,data,kernel,output⟩
  | cons bias more =>
    refine abreast_same fun added _ => ?_
    refine (kernel.shaped (s := [(added.shape.getD []).headD .unknown,.unknown,.unknown,.unknown]) firstOrder rfl).bind ?_
    rintro k' k ⟨kernel,ks,known,known',rankK⟩
    rw [known,known']
    refine (outputDims_laid _ rankX rankK).bind fun _ _ turned => ?_
    exact (output.withTurned lastOrder turned).bind fun _ _ output => ⟨_,_,_,_,_,_,_,rfl,rfl,data,kernel,output⟩

theorem shareDType_laid (data : x'.Turns [0,2,3,1] x) (kernel : k'.Turns [2,3,1,0] k) (output : out'.Turns [0,2,3,1] out) :
    Abreast (fun gs fs => ∃ x' x k' k rest out' out, gs = x' :: k' :: rest ++ [out'] ∧ fs = x :: k :: rest ++ [out] ∧
        x'.Turns [0,2,3,1] x ∧ k'.Turns [2,3,1,0] k ∧ out'.Turns [0,2,3,1] out)
      (shareDType (x' :: k' :: rest ++ [out'])) (shareDType (x :: k :: rest ++ [out])) := by
  refine shareDType_abreast ?_ ⟨_,_,_,_,_,_,_,rfl,rfl,data,kernel,output⟩ fun d => ?_
  · simp only [List.map_append,List.map_cons,data.dtype,kernel.dtype,output.dtype]
  · simp only [List.cons_append,List.mapM_cons,List.mapM_append,List.mapM_nil,bind_assoc,pure_bind]
    refine (data.unify (s := none) lastOrder nofun).bind fun _ _ data => ?_
    refine (kernel.unify (s := none) firstOrder nofun).bind fun _ _ kernel => abreast_same fun rest _ => ?_
    exact (output.unify (s := none) lastOrder nofun).bind fun _ _ output =>
      ⟨_,_,_,_,_,_,_,rfl,rfl,data,kernel,output⟩

theorem infer_turns (data : x'.Turns [0,2,3,1] x) (kernel : k'.Turns [2,3,1,0] k) (output : out'.Turns [0,2,3,1] out) :
    Abreast Laid ((c.laid true).infer (x' :: k' :: rest) [out']) ((c.laid false).infer (x :: k :: rest) [out]) := by
  unfold infer
  refine (shareDType_laid data kernel output).bind ?_
  rintro _ _ ⟨x',x,k',k,rest,out',out,rfl,rfl,data,kernel,output⟩
  dsimp only
  rw [List.dropLast_concat,List.dropLast_concat,List.getLastD_concat,List.getLastD_concat]
  dsimp only
  change Abreast _ (Fact.require (requireFloat "Conv") x' >>= _) (Fact.require (requireFloat "Conv") x >>= _)
  rw [data.require]
  refine abreast_same fun _ _ => ?_
  refine (data.shaped (s := List.replicate 4 .unknown) lastOrder rfl).bind ?_
  rintro x' x ⟨data,xs,dims,dims',rankX⟩
  refine (kernel.shaped (s := List.replicate 4 .unknown) firstOrder rfl).bind ?_
  rintro _ k ⟨kernel,ks,known,-,ranked⟩
  refine ((declareKernel_laid kernel).learn fun _ => declareKernel_below).bind ?_
  rintro k' k ⟨kernel,below⟩
  obtain ⟨ks,extents,kept⟩ := below.shape ks known
  have rankK : ks.length = 4 := kept.length_eq.symm.trans ranked
  have extents' : k'.shape = some (ks.turn [2,3,1,0]) := by rw [kernel.shape,extents]; rfl
  have answered : Abreast Laid (answer (c.laid true) x' k' out' rest) (answer (c.laid false) x k out rest) :=
    answer_laid data dims rankX kernel extents rankK output
  unfold answer at answered
  rw [dims,dims',extents,extents'] at answered ⊢
  obtain ⟨_,n,_,_,rfl⟩ := ShapeFact.of_rank rankX
  obtain ⟨_,m,_,_,rfl⟩ := ShapeFact.of_rank rankK
  exact Dim.guard_abreast (a := n) (b := m) answered

theorem answer_rank {r : Facts × Facts} (found : answer c x k out rest = .ok r) :
    ∀ s, out.shape = some s → s.length = 4 := by
  have dims {ks ds : ShapeFact} {d : Dim} (counted : c.outputDims (x.shape.getD []) ks d = .ok ds) : ds.length = 4 := by
    rw [outputDims_eq] at counted
    unfold dimsUnder at counted
    split at counted
    · exact Patch.outputDims_length counted
    · cases counted
      unfold openDims
      split <;> rfl
  unfold answer at found
  cases rest with
  | nil =>
    obtain ⟨_,counted,found⟩ := bind_ok.mp found
    obtain ⟨_,shaped,-⟩ := bind_ok.mp found
    exact fun s known => ((Fact.below_refl out).ranked shaped known).trans (dims counted)
  | cons bias more =>
    obtain ⟨_,-,found⟩ := bind_ok.mp found
    obtain ⟨_,-,found⟩ := bind_ok.mp found
    obtain ⟨_,counted,found⟩ := bind_ok.mp found
    obtain ⟨_,shaped,-⟩ := bind_ok.mp found
    exact fun s known => ((Fact.below_refl out).ranked shaped known).trans (dims counted)

theorem infer_ranks {ins : Facts} {r : Facts × Facts} (found : c.infer ins [out] = .ok r) : ∃ x k rest, ins = x :: k :: rest ∧
    (∀ s, x.shape = some s → s.length = 4) ∧ (∀ s, k.shape = some s → s.length = 4) ∧
      ∀ s, out.shape = some s → s.length = 4 := by
  unfold infer at found
  obtain ⟨fs,typed,found⟩ := bind_ok.mp found
  obtain ⟨inputs,outputs,rfl,front,back⟩ := forall₂_append_left (shareDType_below typed)
  match outputs, back with
  | [o], .cons last .nil =>
    dsimp only at found
    rw [List.dropLast_concat,List.getLastD_concat] at found
    match ins, inputs, front with
    | [], [], .nil => cases found
    | [x], [_], .cons _ .nil =>
      obtain ⟨_,-,found⟩ := bind_ok.mp found
      obtain ⟨_,-,found⟩ := bind_ok.mp found
      cases found
    | x :: k :: rest, _ :: _ :: _, .cons first (.cons second _) =>
      obtain ⟨_,-,found⟩ := bind_ok.mp found
      obtain ⟨_,widened,found⟩ := bind_ok.mp found
      obtain ⟨_,widened',found⟩ := bind_ok.mp found
      obtain ⟨_,-,found⟩ := bind_ok.mp found
      refine ⟨x,k,rest,rfl,fun s => first.ranked widened,fun s => second.ranked widened',fun s known => ?_⟩
      obtain ⟨s',known',kept⟩ := last.shape s known
      exact kept.length_eq.trans (answer_rank (Dim.guard_passed found) s' known')

-- Without data or without a kernel the rule fails.
theorem infer_few {R : Facts × Facts → Facts × Facts → Prop} {c' : Convolution} {ins ins' : Facts} {out out' : Fact}
    (few : ins.length < 2 ∧ ins'.length < 2) : Abreast R (c'.infer ins' [out']) (c.infer ins [out]) := by
  refine abreast_iff.mpr ⟨fun r ran => ?_,fun s ran => ?_⟩
  · obtain ⟨_,_,_,rfl,-⟩ := infer_ranks ran
    rw [List.length_cons,List.length_cons] at few
    omega
  · obtain ⟨_,_,_,rfl,-⟩ := infer_ranks ran
    rw [List.length_cons,List.length_cons] at few
    omega

theorem turned_inputs {ins : Facts} : turned [channelsToLast,spatialToFirst] (x :: k :: rest) = .ok ins ↔
    ∃ x' k', x.turned channelsToLast = .ok x' ∧ k.turned spatialToFirst = .ok k' ∧ ins = x' :: k' :: rest := by
  constructor
  · intro found
    obtain ⟨x',_,data,others,rfl⟩ := turned_cons.mp found
    obtain ⟨k',_,kernel,rest,rfl⟩ := turned_cons.mp others
    cases rest
    exact ⟨x',k',data,kernel,rfl⟩
  · rintro ⟨x',k',data,kernel,rfl⟩
    exact turned_cons.mpr ⟨_,_,data,turned_cons.mpr ⟨_,_,kernel,rfl,rfl⟩,rfl⟩

theorem infer_laid (c : Convolution) (ins : Facts) (out : Fact) :
    Abreast (fun r s => relaid [channelsToLast,spatialToFirst] s = .ok r)
      (relaid [channelsToLast,spatialToFirst] (ins,[out]) >>= fun q => (c.laid true).infer q.1 q.2)
      ((c.laid false).infer ins [out]) := by
  refine relaid_abreast (fun ins' out' inputs output => ?_) fun s ran => ?_
  · match ins with
    | [] =>
      cases inputs
      exact infer_few ⟨by decide,by decide⟩
    | [x] =>
      obtain ⟨_,_,-,rest,rfl⟩ := turned_cons.mp inputs
      cases rest
      exact infer_few ⟨Nat.one_lt_two,Nat.one_lt_two⟩
    | x :: k :: rest =>
      obtain ⟨x',k',data,kernel,rfl⟩ := turned_inputs.mp inputs
      refine (infer_turns (Fact.turns_of_turned permutation_last data) (Fact.turns_of_turned permutation_first kernel)
        (Fact.turns_of_turned permutation_last output)).mono ?_
      rintro _ _ ⟨y',y,l',l,_,o',o,rfl,rfl,data,kernel,output⟩
      exact relaid_ok.mpr ⟨_,_,turned_inputs.mpr ⟨_,_,Fact.turned_of_turns permutation_last data,
        Fact.turned_of_turns permutation_first kernel,rfl⟩,Fact.turned_of_turns permutation_last output,rfl⟩
  · obtain ⟨x,k,rest,rfl,rankX,rankK,rankOut⟩ := infer_ranks ran
    obtain ⟨x',data⟩ := Fact.turned_total permutation_last rankX
    obtain ⟨k',kernel⟩ := Fact.turned_total permutation_first rankK
    obtain ⟨out',output⟩ := Fact.turned_total permutation_last rankOut
    exact ⟨_,_,turned_inputs.mpr ⟨_,_,data,kernel,rfl⟩,output⟩

end Convolution

-- Layouts only permute: operators over images with channels last give what they give over images with channels second,
-- with the axes in the other order, or fail with them; and so do the rules.
theorem layouts_permute : (∀ (c : Convolution) x w bias, Abreast Image.Last
      (do (c.laid true).eval (← Transpose.eval (some channelsToLast) x) (← Transpose.eval (some spatialToFirst) w) bias)
      ((c.laid false).eval x w bias)) ∧
    (∀ kind (p : Patch) x, Abreast Image.Last
      (do Pooling.eval kind (p.laid true) (← Transpose.eval (some channelsToLast) x))
      (Pooling.eval kind (p.laid false) x)) ∧
    (∀ (c : Convolution) ins out, Abreast (fun r s => relaid [channelsToLast,spatialToFirst] s = .ok r)
      (relaid [channelsToLast,spatialToFirst] (ins,[out]) >>= fun q => (c.laid true).infer q.1 q.2)
      ((c.laid false).infer ins [out])) ∧
    ∀ kind (p : Patch) ins out, Abreast (fun r s => relaid [channelsToLast] s = .ok r)
      (relaid [channelsToLast] (ins,[out]) >>= fun q => Pooling.infer kind (p.laid true) q.1 q.2)
      (Pooling.infer kind (p.laid false) ins [out]) :=
  ⟨Convolution.eval_laid,Pooling.eval_laid,Convolution.infer_laid,Pooling.infer_laid⟩

end TensorGraph
