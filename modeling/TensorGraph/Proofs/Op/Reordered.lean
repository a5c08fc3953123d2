import TensorGraph.Proofs.Fact.Told
import TensorGraph.Proofs.Op.Turn

namespace TensorGraph
open Outcome

variable {p : List Nat} {n : Nat}

-- A computation at each axis, with the axes in another order.
theorem Outcome.abreast_order {σ β : Type} {f : σ → Outcome β} (entry : Nat → σ) (d : β) (order : p.Perm (List.range n)) :
    Abreast (fun ys zs => ys = (p.map fun a => zs.getD a d) ∧ zs.length = n)
      ((p.map entry).mapM f) (((List.range n).map entry).mapM f) := by
  refine abreast_iff.mpr ⟨fun ys ran => ?_,fun zs ran => ?_⟩
  · have related := List.forall₂_map_left_iff.mp (mapM_ok.mp ran)
    obtain ⟨zs,each⟩ : ∃ zs, List.Forall₂ (fun a z => f (entry a) = .ok z) (List.range n) zs := exists_forall₂ fun a member =>
      (forall₂_left related a (order.mem_iff.mpr member)).imp fun _ found => found.2
    exact ⟨zs,mapM_ok.mpr (List.forall₂_map_left_iff.mpr each)⟩
  · have related := List.forall₂_map_left_iff.mp (mapM_ok.mp ran)
    have length : zs.length = n := related.length_eq.symm.trans List.length_range
    refine ⟨_,mapM_ok.mpr (List.forall₂_map_left_iff.mpr (List.forall₂_map_right_iff.mpr
      (List.forall₂_same.mpr fun a member => ?_))),rfl,length⟩
    have inside : a < n := List.mem_range.mp (order.mem_iff.mp member)
    obtain ⟨b,place,found⟩ := forall₂_getElem? related (List.getElem?_eq_getElem (length.symm ▸ inside))
    rw [List.getElem?_range inside] at place
    cases place
    rw [found,List.getD_eq_getElem?_getD,List.getElem?_eq_getElem (length.symm ▸ inside)]
    rfl

namespace ShapeFact

variable {s t : ShapeFact}

-- What is known of each axis, with the axes in another order.
def turn (p : List Nat) (s : ShapeFact) : ShapeFact := p.map fun a => s.getD a .unknown

theorem turn_ofShape {shape : Shape} (inside : ∀ a ∈ p, a < shape.length) :
    turn p (ofShape shape) = ofShape (p.map fun a => shape.getD a 0) := by
  rw [turn,ofShape,ofShape,List.map_map]
  refine List.map_congr_left fun a member => ?_
  rw [List.getD_eq_getElem?_getD,List.getElem?_map,Shape.entry_within (inside a member)]
  rfl

theorem unify_turn {a b : Option ShapeFact} (order : p.Perm (List.range n)) (left : ∀ s, a = some s → s.length = n)
    (right : ∀ s, b = some s → s.length = n) :
    Abreast (fun r s => r = s.map (turn p) ∧ ∀ t, s = some t → t.length = n)
      (unify (a.map (turn p)) (b.map (turn p))) (unify a b) := by
  cases a with
  | none => exact ⟨rfl,right⟩
  | some s =>
    cases b with
    | none => exact ⟨rfl,left⟩
    | some t =>
      have sized := left s rfl
      have sized' := right t rfl
      have entries := abreast_order (f := fun e : Dim × Dim => e.1.unify e.2)
        (fun a => (s.getD a .unknown,t.getD a .unknown)) .unknown order
      rw [← List.zip_map',← List.zip_map',← sized,Transpose.map_getD_range,sized,← sized',Transpose.map_getD_range] at entries
      unfold unify
      dsimp only [Option.map_some]
      rw [if_neg (by simp [turn]),if_neg (not_not.mpr (sized.trans sized'.symm))]
      revert entries
      change Abreast _ (((turn p s).zip (turn p t)).mapM _) _ → _
      generalize ((turn p s).zip (turn p t)).mapM (fun e : Dim × Dim => e.1.unify e.2) = x
      generalize (s.zip t).mapM (fun e : Dim × Dim => e.1.unify e.2) = y
      intro entries
      cases x <;> cases y
      case ok.ok ys zs =>
        exact ⟨congrArg some entries.1,fun _ equal => Option.some.inj equal ▸ entries.2.trans sized'⟩
      all_goals exact entries

end ShapeFact

namespace Fact

variable {f g h : Fact} {perm : List Int}

-- The fact of a tensor with its axes in another order; a shape of another rank cannot be reordered.
def turned (perm : List Int) : Fact → Outcome Fact
  | constant t => constant <$> Transpose.eval (some perm) t
  | outline d none => .ok (outline d none)
  | outline d (some s) => do return outline d (some (s.turn (← Transpose.permutation (some perm) s.length)))

-- A fact says of the reordered tensor what another says of the tensor.
structure Turns (p : List Nat) (g f : Fact) : Prop where
  dtype : g.dtype = f.dtype
  shape : g.shape = f.shape.map (ShapeFact.turn p)
  value : g.value = f.value.map (Transpose.turn p)
  rank : ∀ s, f.shape = some s → s.length = p.length

theorem Turns.unique (first : g.Turns p f) (second : h.Turns p f) : g = h :=
  eq_of_parts (first.dtype.trans second.dtype.symm) (first.shape.trans second.shape.symm)
    (first.value.trans second.value.symm)

theorem turns_of_turned (valid : Transpose.permutation (some perm) n = .ok p) (found : f.turned perm = .ok g) :
    g.Turns p f := by
  have inside : ∀ a ∈ p, a < n := fun a => (Transpose.order_mem (Transpose.permutation_perm valid)).mp
  have length := (Transpose.permutation_ok valid).1
  cases f with
  | constant t =>
    obtain ⟨u,evaluated,rfl⟩ := map_ok.mp found
    obtain ⟨same,rfl⟩ := Transpose.eval_known valid evaluated
    refine ⟨rfl,?_,rfl,?_⟩
    · exact congrArg some (ShapeFact.turn_ofShape (same ▸ inside)).symm
    · rintro s ⟨⟩
      exact (ShapeFact.length_ofShape _).trans (same.trans length.symm)
  | outline d s =>
    cases s with
    | none =>
      cases found
      exact ⟨rfl,rfl,rfl,nofun⟩
    | some s =>
      obtain ⟨q,again,equal⟩ := bind_ok.mp found
      obtain ⟨rfl,same⟩ := Transpose.permutation_unique again valid
      cases equal
      refine ⟨rfl,rfl,rfl,?_⟩
      rintro _ ⟨⟩
      exact same.trans length.symm

theorem turned_total (valid : Transpose.permutation (some perm) n = .ok p)
    (rank : ∀ s, f.shape = some s → s.length = n) : ∃ g, f.turned perm = .ok g := by
  cases f with
  | constant t =>
    have rank := (ShapeFact.length_ofShape _).symm.trans (rank _ rfl)
    exact ⟨_,map_ok.mpr ⟨_,Transpose.eval_eq_turn (rank ▸ valid),rfl⟩⟩
  | outline d s =>
    cases s with
    | none => exact ⟨_,rfl⟩
    | some s => exact ⟨_,bind_ok.mpr ⟨p,rank s rfl ▸ valid,rfl⟩⟩

theorem turned_of_turns (valid : Transpose.permutation (some perm) n = .ok p) (turns : g.Turns p f) :
    f.turned perm = .ok g := by
  obtain ⟨h,found⟩ := turned_total valid fun s known =>
    (turns.rank s known).trans (Transpose.permutation_ok valid).1
  rw [found,(turns_of_turned valid found).unique turns]

theorem Turns.unify {d : Option DType} {s : Option ShapeFact} (order : p.Perm (List.range n)) (turns : g.Turns p f)
    (rank : ∀ r, s = some r → r.length = n) :
    Abreast (Turns p) (g.unify (.outline d (s.map (ShapeFact.turn p)))) (f.unify (.outline d s)) := by
  have length := Transpose.order_length order
  have shapes := ShapeFact.unify_turn order (fun r known => (turns.rank r known).trans length) rank
  rw [← turns.shape] at shapes
  obtain ⟨there,back⟩ := abreast_iff.mp shapes
  refine abreast_iff.mpr ⟨fun u unified => ?_,fun v unified => ?_⟩
  · obtain ⟨types,dims,-,-⟩ := unify_ok.mp unified
    obtain ⟨r,dims⟩ := there _ dims
    exact unify_total (turns.dtype ▸ types) dims nofun
  · obtain ⟨types,dims,value,-⟩ := unify_ok.mp unified
    obtain ⟨r,turned,shape,sized⟩ := back _ dims
    obtain ⟨u,unified⟩ := unify_total (a := g) (b := .outline d (s.map (ShapeFact.turn p))) (turns.dtype ▸ types) turned nofun
    obtain ⟨types',dims',value',-⟩ := unify_ok.mp unified
    refine ⟨u,unified,?_⟩
    rw [turns.dtype] at types'
    exact {
      dtype := Except.ok.inj (types'.symm.trans types)
      shape := (Except.ok.inj (dims'.symm.trans turned)).trans shape
      value := by rw [value,value',turns.value]; cases f.value <;> rfl
      rank := fun r known => (sized r known).trans length.symm }

theorem Turns.withDims {s : ShapeFact} (order : p.Perm (List.range n)) (turns : g.Turns p f) (rank : s.length = n) :
    Abreast (Turns p) (g.withDims (s.turn p)) (f.withDims s) :=
  turns.unify (d := none) (s := some s) order fun _ equal => Option.some.inj equal ▸ rank

-- With the dims the shapes are there, on both sides.
theorem Turns.shaped {s : ShapeFact} (order : p.Perm (List.range n)) (turns : g.Turns p f) (rank : s.length = n) :
    Abreast (fun g f => g.Turns p f ∧ ∃ r, f.shape = some r ∧ g.shape = some (r.turn p) ∧ r.length = n)
      (g.withDims (s.turn p)) (f.withDims s) := by
  refine ((turns.withDims order rank).learn fun _ => withDims_shape).mono ?_
  rintro g f ⟨turns,r,known,below⟩
  exact ⟨turns,r,known,by rw [turns.shape,known]; rfl,below.length_eq.symm.trans rank⟩

theorem Turns.require {check : DType → Outcome Unit} (turns : g.Turns p f) : Fact.require check g = Fact.require check f := by
  rw [Fact.require,turns.dtype]
  rfl

-- What takes dims later on has their rank, if it has any.
theorem Below.ranked {s r : ShapeFact} (below : f.Below g) (found : g.withDims s = .ok h) (known : f.shape = some r) :
    r.length = s.length := by
  obtain ⟨t,shaped,taken⟩ := withDims_shape found
  obtain ⟨t',again,kept⟩ := (below.trans (withDims_below found)).shape r known
  cases shaped.symm.trans again
  exact kept.length_eq.trans taken.length_eq.symm

end Fact

namespace Facts

variable {fs gs : Facts} {Q : Facts → Facts → Prop}

-- The first facts are reordered, each in its own way.
def turned : List (List Int) → Facts → Outcome Facts
  | perm :: perms, f :: fs => do return (← f.turned perm) :: (← turned perms fs)
  | _, fs => .ok fs

theorem turned_cons {perm : List Int} {perms : List (List Int)} {f : Fact} : turned (perm :: perms) (f :: fs) = .ok gs ↔
    ∃ g hs, f.turned perm = .ok g ∧ turned perms fs = .ok hs ∧ gs = g :: hs := by
  constructor
  · intro found
    obtain ⟨g,first,found⟩ := bind_ok.mp found
    obtain ⟨hs,rest,equal⟩ := bind_ok.mp found
    exact ⟨g,hs,first,rest,(Except.ok.inj equal).symm⟩
  · rintro ⟨g,hs,first,rest,rfl⟩
    exact bind_ok.mpr ⟨g,first,bind_ok.mpr ⟨hs,rest,rfl⟩⟩

-- What tensors share of their element types says nothing of their axes.
theorem shared_open {types : List DType} {shared : Fact}
    (found : Fact.unifyAll (types.map fun t => .outline (some t) none) = .ok shared) : ∃ d, shared = .outline d none := by
  refine foldlM_keeps (P := fun f : Fact => ∃ d, f = .outline d none) ?_ ⟨none,rfl⟩ found
  rintro _ f c member ⟨d,rfl⟩ unified
  obtain ⟨t,-,rfl⟩ := List.mem_map.mp member
  obtain ⟨-,shape,value,-⟩ := Fact.unify_ok.mp unified
  exact ⟨c.dtype,Fact.eq_of_parts rfl (Except.ok.inj shape).symm value⟩

theorem shareDType_abreast (types : gs.map Fact.dtype = fs.map Fact.dtype) (same : Q gs fs)
    (each : ∀ d, Abreast Q (gs.mapM (·.unify (.outline d none))) (fs.mapM (·.unify (.outline d none)))) :
    Abreast Q gs.shareDType fs.shareDType := by
  have known : gs.filterMap Fact.dtype = fs.filterMap Fact.dtype := by
    have flat := congrArg (List.filterMap id) types
    rwa [List.filterMap_map,List.filterMap_map] at flat
  unfold shareDType
  rw [known]
  split
  · exact same
  · refine abreast_same fun shared found => ?_
    obtain ⟨d,rfl⟩ := shared_open found
    exact each d

end Facts

end TensorGraph
