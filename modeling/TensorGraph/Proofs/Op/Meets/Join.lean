import TensorGraph.Proofs.Op.Exact.Join
import TensorGraph.Proofs.Op.Meets.Elementwise

namespace TensorGraph
open Outcome Facts

variable {ins fs gs : Facts} {out : Fact} {r : Facts × Facts} {t u : Tensor} {ts rest : List Tensor}

namespace Concat

variable {rank a b : Nat} {d : Dim}

-- The shared extent is above those of all shapes, which have the rank.
theorem sharedExtent_above (found : sharedExtent rank b fs = .ok d) :
    ∀ f ∈ fs, ∀ s, f.shape = some s → s.length = rank ∧ (s.getD b .unknown).Below d := by
  refine foldlM_establishes (Q := fun f d => ∀ s, f.shape = some s → s.length = rank ∧ (s.getD b .unknown).Below d)
    ?_ ?_ found
  · intro e f d step s known
    rw [known] at step
    dsimp only at step
    split at step
    · cases step
    · rename_i length
      exact ⟨not_not.mp length,Dim.unify_right step⟩
  · intro e f d g step above s known
    obtain ⟨length,low⟩ := above s known
    refine ⟨length,?_⟩
    split at step
    · cases step
      exact low
    · split at step
      · cases step
      · exact low.trans (Dim.unify_left step)

theorem refineAxis_place {o : Option ShapeFact} {n : Nat} {dims : ShapeFact}
    (found : refineAxis o rank b (.known n) = .ok dims) :
    dims.length = (sketch rank o).length ∧ dims[b]? = some (.known n) := by
  unfold refineAxis at found
  dsimp only at found
  split at found
  · rename_i e entry
    obtain ⟨k,met,equal⟩ := bind_ok.mp found
    cases equal
    cases Dim.Below.eq (Dim.unify_right met) rfl
    exact ⟨List.length_set,List.getElem?_set_self (List.getElem?_eq_some_iff.mp entry).1⟩
  · cases found

-- All facts know one extent on an axis, and have the rank.
def Agreed (rank b n : Nat) (fs : Facts) : Prop :=
  ∀ f ∈ fs, ∃ s, f.shape = some s ∧ s.length = rank ∧ s[b]? = some (.known n)

theorem place_above {s s' : ShapeFact} {n : Nat} (below : s.Below s') (entry : s[b]? = some (.known n)) :
    s'.length = s.length ∧ s'[b]? = some (.known n) := by
  refine ⟨below.length_eq.symm,?_⟩
  have inside := (List.getElem?_eq_some_iff.mp entry).1
  have there := List.getElem?_eq_getElem (below.length_eq ▸ inside)
  obtain ⟨e,here,low⟩ := forall₂_getElem? below there
  cases entry.symm.trans here
  rw [there,← low.eq rfl]

theorem Agreed.above {n : Nat} (agreed : Agreed rank b n fs) (below : fs.Below gs) : Agreed rank b n gs := by
  intro g member
  obtain ⟨f,other,low⟩ := forall₂_right below g member
  obtain ⟨s,known,length,entry⟩ := agreed f other
  obtain ⟨s',known',under⟩ := low.shape s known
  obtain ⟨same,entry'⟩ := place_above under entry
  exact ⟨s',known',same.trans length,entry'⟩

theorem shareAxis_below (found : shareAxis rank fs b = .ok gs) : fs.Below gs := by
  obtain ⟨d,-,found⟩ := bind_ok.mp found
  refine (mapM_ok.mp found).imp fun f g refined => ?_
  obtain ⟨dims,-,shaped⟩ := bind_ok.mp refined
  exact Fact.withDims_below shaped

-- The extent of one tensor on the axis is the extent of all.
theorem shareAxis_agreed (seen : ∃ f ∈ fs, ∃ s : Tensor, f.Tells s) (found : shareAxis rank fs b = .ok gs) :
    ∃ n, Agreed rank b n gs := by
  obtain ⟨d,shared,found⟩ := bind_ok.mp found
  have above := sharedExtent_above shared
  obtain ⟨f,member,s,tells⟩ := seen
  obtain ⟨n,rfl⟩ : ∃ n, d = .known n := by
    obtain ⟨g,-,refined⟩ := forall₂_left (mapM_ok.mp found) f member
    obtain ⟨dims,placed,-⟩ := bind_ok.mp refined
    obtain ⟨length,low⟩ := above f member _ tells.shape
    unfold refineAxis at placed
    rw [tells.shape] at placed
    dsimp only [Option.getD_some] at placed
    split at placed
    · rename_i e entry
      have inside := (List.getElem?_eq_some_iff.mp entry).1
      rw [ShapeFact.length_ofShape] at inside
      rw [ShapeFact.extent_ofShape (Shape.entry_within inside)] at low
      exact ⟨_,(low.eq rfl).symm⟩
    · cases placed
  refine ⟨n,fun g member => ?_⟩
  obtain ⟨f,other,refined⟩ := forall₂_right (mapM_ok.mp found) g member
  obtain ⟨dims,placed,shaped⟩ := bind_ok.mp refined
  obtain ⟨r,known,low⟩ := Fact.withDims_shape shaped
  obtain ⟨length,entry⟩ := refineAxis_place placed
  obtain ⟨same,entry⟩ := place_above low entry
  refine ⟨r,known,same.trans (length.trans ?_),entry⟩
  unfold sketch
  cases shape : f.shape with
  | none => exact List.length_replicate
  | some s => exact (above f other s shape).1

theorem spread_agreed (seen : ∃ f ∈ fs, ∃ s : Tensor, f.Tells s) (found : spread rank a fs = .ok gs) :
    fs.Below gs ∧ ∀ b < rank, b ≠ a → ∃ n, Agreed rank b n gs := by
  unfold spread at found
  constructor
  · refine foldlM_keeps (P := fun gs => fs.Below gs) (fun gs b hs _ low shared => ?_)
      (List.forall₂_same.mpr fun f _ => f.below_refl) found
    exact low.trans (shareAxis_below shared)
  · have each := foldlM_establishes_from (P := fun gs => ∃ f ∈ gs, ∃ s : Tensor, f.Tells s)
      (Q := fun b gs => ∃ n, Agreed rank b n gs) ?_ (fun _ _ _ => shareAxis_agreed)
      (fun _ _ _ _ shared ⟨n,agreed⟩ => ⟨n,agreed.above (shareAxis_below shared)⟩) seen found
    · exact fun b inside apart => each b (List.mem_filter.mpr ⟨List.mem_range.mpr inside,by simpa using apart⟩)
    · rintro gs b hs - ⟨f,member,s,tells⟩ shared
      obtain ⟨g,other,low⟩ := forall₂_left (shareAxis_below shared) f member
      exact ⟨g,other,s,tells.above low⟩

theorem Beside.erase {s shape : Shape} (beside : Beside a s shape) : s.eraseIdx a = shape.eraseIdx a := by
  refine List.ext_getElem? fun b => ?_
  rw [List.getElem?_eraseIdx,List.getElem?_eraseIdx]
  split
  · exact beside.others b (by omega)
  · exact beside.others (b + 1) (by omega)

-- The extents on the joined axis are known, and so is their sum.
theorem total_parts (tell : Tell ins ts) (found : total rank a ins out = .ok r) : ∃ dims p,
    refineAxis out.shape rank a (.known ((ts.map fun s => s.shape.getD a 0).foldr (· + ·) 0)) = .ok dims ∧
      out.withDims dims = .ok p ∧ r.2 = [p] := by
  unfold total at found
  rw [tell.known] at found
  obtain ⟨ds,entries,found⟩ := bind_ok.mp found
  have all : (ts.map fun s => s.shape.getD a 0).map Dim.known = ds := by
    rw [mapM_ok,List.map_map,List.forall₂_map_left_iff] at entries
    rw [← List.forall₂_eq_eq_eq,List.map_map,List.forall₂_map_left_iff]
    refine entries.imp fun s d entry => ?_
    unfold extentAt at entry
    split at entry
    · rename_i e place
      cases entry
      have inside := (List.getElem?_eq_some_iff.mp place).1
      rw [Function.comp_apply,ShapeFact.length_ofShape] at inside
      exact Option.some.inj ((ShapeFact.place_ofShape (Shape.entry_within inside)).symm.trans place)
    · cases entry
  rw [← all,show ((ts.map fun s => s.shape.getD a 0).map Dim.known).mapM Dim.extent? = some _ from
    ShapeFact.extents?_eq_some.mpr rfl] at found
  obtain ⟨dims,refined,found⟩ := bind_ok.mp found
  obtain ⟨p,shaped,equal⟩ := bind_ok.mp found
  cases equal
  exact ⟨dims,p,refined,shaped,rfl⟩

theorem extents_of_agreed {n : Nat} (tell : Tell fs ts) (agreed : Agreed rank b n fs) :
    ∀ s ∈ ts, s.shape.length = rank ∧ s.shape[b]? = some n := by
  intro s member
  obtain ⟨f,other,tells⟩ := forall₂_right tell s member
  obtain ⟨dims,known,length,entry⟩ := agreed f other
  cases tells.shape.symm.trans known
  rw [ShapeFact.length_ofShape] at length
  refine ⟨length,?_⟩
  rw [ShapeFact.ofShape,List.getElem?_map,Option.map_eq_some_iff] at entry
  obtain ⟨m,place,equal⟩ := entry
  cases equal
  exact place

theorem eq_ofShape {s : ShapeFact} {shape : Shape} (length : s.length = shape.length)
    (each : ∀ b < shape.length, ∃ n, shape[b]? = some n ∧ s[b]? = some (.known n)) : s = .ofShape shape := by
  refine List.ext_getElem? fun b => ?_
  by_cases inside : b < shape.length
  · obtain ⟨n,entry,here⟩ := each b inside
    rw [here,ShapeFact.place_ofShape entry]
  · rw [List.getElem?_eq_none (by omega),List.getElem?_eq_none (by rw [ShapeFact.length_ofShape]; omega)]

-- What the rule finds off the joined axis: one rank, and one extent on every axis.
structure Aside (a rank : Nat) (ts : List Tensor) (dims : ShapeFact) : Prop where
  ranks : ∀ s ∈ ts, s.shape.length = rank
  length : dims.length = rank
  extents : ∀ b < rank, b ≠ a → ∃ n, (∀ s ∈ ts, s.shape[b]? = some n) ∧ dims[b]? = some (.known n)

theorem Aside.beside {dims : ShapeFact} (aside : Aside a rank ts dims) {s t : Tensor} (here : s ∈ ts) (there : t ∈ ts) :
    Beside a s.shape t.shape := by
  refine ⟨(aside.ranks s here).trans (aside.ranks t there).symm,fun b apart => ?_⟩
  by_cases inside : b < rank
  · obtain ⟨n,entries,-⟩ := aside.extents b inside apart
    rw [entries s here,entries t there]
  · rw [List.getElem?_eq_none (by rw [aside.ranks s here]; omega),
      List.getElem?_eq_none (by rw [aside.ranks t there]; omega)]

-- Tensors of more than one axis are compared by the rule.
theorem spread_aside {p q : Fact} {dims : ShapeFact} (tell : Tell gs ts) (inside : a < rank)
    (each : ∀ b < rank, b ≠ a → ∃ n, Agreed rank b n (gs ++ [p])) (low : p.Below q)
    (known : q.shape = some dims) (rows : rank = 1 → (∀ s ∈ ts, s.shape.length = 1) ∧ dims.length = 1) :
    Aside a rank ts dims := by
  have apart : ∀ b < rank, b ≠ a → dims.length = rank ∧ ∃ n,
      (∀ s ∈ ts, s.shape.length = rank ∧ s.shape[b]? = some n) ∧ dims[b]? = some (.known n) := by
    intro b within other
    obtain ⟨n,agreed⟩ := each b within other
    obtain ⟨inputs,output⟩ := List.forall_mem_append.mp agreed
    obtain ⟨s,shape,length,entry⟩ := output p (List.mem_singleton_self p)
    obtain ⟨_,again,under⟩ := low.shape s shape
    cases known.symm.trans again
    obtain ⟨same,entry⟩ := place_above under entry
    exact ⟨same.trans length,n,extents_of_agreed tell inputs,entry⟩
  by_cases row : rank = 1
  · obtain ⟨ranks,length⟩ := rows row
    exact ⟨row ▸ ranks,row ▸ length,fun b within other => absurd within (by omega)⟩
  · obtain ⟨b,within,other⟩ : ∃ b < rank, b ≠ a := ⟨if a = 0 then 1 else 0,by split <;> omega,by split <;> omega⟩
    obtain ⟨length,n,ranks,-⟩ := apart b within other
    refine ⟨fun s member => (ranks s member).1,length,fun b within other => ?_⟩
    obtain ⟨-,n,entries,entry⟩ := apart b within other
    exact ⟨n,fun s member => (entries s member).2,entry⟩

-- Rows may be joined with what is no row, and give what is no row, and the rule does not notice.
theorem infer_meets {axis : Int} (tell : Tell ins (t :: rest)) (found : infer axis ins [out] = .ok r)
    (rows : t.shape.length = 1 → (∀ s ∈ rest, s.shape.length = 1) ∧
      ∀ f ∈ r.2, ∀ dims, f.shape = some dims → dims.length = 1) :
    Meets (eval axis t rest) r.2 := by
  rw [infer_eq] at found
  obtain ⟨fs,shared,found⟩ := bind_ok.mp found
  obtain ⟨fs,o,rfl,later,-,typed,same⟩ := shareDType_tell (p := out) tell shared
  obtain ⟨x,others,rfl,first,-⟩ := later.uncons
  have ranked : (x :: others ++ [o]).findSome? Fact.rank = some t.shape.length := by
    rw [List.cons_append,List.findSome?_cons,Fact.rank,first.shape]
    simp [ShapeFact.ofShape]
  unfold place at found
  rw [ranked] at found
  obtain ⟨a,chosen,found⟩ := bind_ok.mp found
  obtain ⟨gs,spreads,found⟩ := bind_ok.mp found
  obtain ⟨below,each⟩ := spread_agreed ⟨x,by simp,t,first⟩ spreads
  obtain ⟨gs,p,rfl,later,low⟩ := later.concat below
  rw [List.dropLast_concat,List.getLastD_concat] at found
  obtain ⟨dims,q,refined,shaped,output⟩ := total_parts later found
  obtain ⟨P,known,under⟩ := Fact.withDims_shape shaped
  have inside := normalizeAxis_lt chosen
  have grown := Fact.withDims_below shaped
  have aside : Aside a t.shape.length (t :: rest) P := spread_aside later inside each grown known fun row => by
    obtain ⟨ranks,length⟩ := rows row
    rw [output] at length
    exact ⟨List.forall_mem_cons.mpr ⟨row,ranks⟩,length q (List.mem_singleton_self q) P known⟩
  have beside : ∀ s ∈ t :: rest, Beside a s.shape t.shape := fun s member =>
    aside.beside member List.mem_cons_self
  rw [output]
  refine meets_one ?_ fun u ran => ?_
  · have alike : (t :: rest).all (·.dtype == t.dtype) = true :=
      List.all_eq_true.mpr fun s member => beq_iff_eq.mpr (same s member)
    have ranks : (t :: rest).all (·.rank == t.rank) = true :=
      List.all_eq_true.mpr fun s member => beq_iff_eq.mpr (beside s member).rank
    have extents : (t :: rest).all (fun s => s.shape.eraseIdx a == t.shape.eraseIdx a) = true :=
      List.all_eq_true.mpr fun s member => beq_iff_eq.mpr (beside s member).erase
    unfold eval
    dsimp only
    rw [if_pos alike,if_pos ranks]
    refine matched_bind chosen ?_
    rw [if_pos extents]
    exact matched_ok _
  · obtain ⟨a',again,together,sum⟩ := eval_parts ran
    cases chosen.symm.trans again
    obtain ⟨dtype,result⟩ := together u (by simp)
    have shape : P = .ofShape u.shape := by
      refine eq_ofShape (aside.length.trans result.rank.symm) fun b within => ?_
      by_cases here : b = a
      · subst here
        refine ⟨_,Shape.entry_within within,?_⟩
        rw [sum]
        exact (place_above under (refineAxis_place refined).2).2
      · obtain ⟨n,entries,entry⟩ := aside.extents b (result.rank ▸ within) here
        exact ⟨n,(result.others b here).trans (entries t List.mem_cons_self),entry⟩
    exact ⟨dtype ▸ (low.trans grown).dtype _ typed,shape ▸ known⟩

end Concat

namespace Pack

theorem ofTensor_matched (t : Tensor) (d : Option DType) : Matched (t.ofTensor d) := by
  unfold Tensor.ofTensor
  split
  · exact matched_ok _
  · split
    · exact matched_ok _
    · exact matched_unread ((t.cast_raises _).mono fun _ unread => unread.1)

theorem infer_meets {axis : Int} (tell : Tell ins (t :: rest)) (found : infer axis ins [out] = .ok r) :
    Meets (eval axis t rest) r.2 := by
  rw [infer_eq] at found
  obtain ⟨fs,shared,found⟩ := bind_ok.mp found
  obtain ⟨o,typed,found⟩ := bind_ok.mp found
  have later := tell.above (shareShape_below shared)
  obtain ⟨x,others,rfl,first,-⟩ := later.uncons
  have alike : ∀ s ∈ t :: rest, s.shape = t.shape := by
    intro s member
    obtain ⟨f,other,tells⟩ := forall₂_right later s member
    obtain ⟨y,_,rfl,before,-⟩ := tell.uncons
    have all := shareShape_shape shared ⟨y,List.mem_cons_self,before.shape⟩ f other
    exact Fact.ofShape_inj (Option.some.inj (tells.shape.symm.trans all))
  unfold packType at typed
  rw [later.types] at typed
  obtain ⟨d,common,typed⟩ := bind_ok.mp typed
  unfold place at found
  dsimp only [Facts.first,List.headD_cons] at found
  rw [first.shape] at found
  obtain ⟨a,chosen,found⟩ := bind_ok.mp found
  rw [ShapeFact.length_ofShape] at chosen
  obtain ⟨p,shaped,equal⟩ := bind_ok.mp found
  cases equal
  have dims := ShapeFact.eq_of_exactly (forall₂_insertIdx (ShapeFact.exactly_ofShape t.shape) a
    (show Dim.known (x :: others).length = .known (t :: rest).length by rw [later.length_eq]))
  rw [dims] at shaped
  refine meets_one ?_ fun u ran => ?_
  · refine matched_bind common ?_
    dsimp only
    rw [if_pos (List.all_eq_true.mpr fun s member => beq_iff_eq.mpr (alike s member))]
    exact matched_bind chosen ((raises_mapM fun s _ => ofTensor_matched s _).bind fun _ _ => matched_ok _)
  · obtain ⟨a',again,-,common',stacked⟩ := eval_parts ran
    cases chosen.symm.trans again
    cases common.symm.trans common'
    exact Fact.withDims_tells shaped (Fact.withDType_exact typed) stacked

end Pack

end TensorGraph
