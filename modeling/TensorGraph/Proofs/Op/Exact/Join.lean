import TensorGraph.Proofs.Fact.Alike
import TensorGraph.Proofs.Op.Sound.Join

namespace TensorGraph
open Outcome Facts

variable {t u : Tensor} {ts rest : List Tensor} {fs : Facts} {d : Option DType}

namespace Concat

variable {a b rank : Nat} {shape : ShapeFact} {o : Option ShapeFact}

-- A shape as far as it is known, with open extents while not even its rank is.
def sketch (rank : Nat) (o : Option ShapeFact) : ShapeFact := o.getD (List.replicate rank .unknown)

-- What is known of the output's shape once the inputs have been compared on some axes.
structure Told (shape : ShapeFact) (done : List Nat) (o : Option ShapeFact) : Prop where
  below : (sketch shape.length o).Below shape
  known : ∀ b ∈ done, (sketch shape.length o)[b]? = shape[b]?

-- The facts after some axes: nothing new of the inputs.
def Compared (shape : ShapeFact) (fs : Facts) (d : Option DType) (done : List Nat) (gs : Facts) : Prop :=
  ∃ o, Told shape done o ∧ gs = fs ++ [.outline d o]

-- An input whose shape is the output's on an axis.
def Reads (shape : ShapeFact) (b : Nat) (f : Fact) : Prop :=
  ∃ s, f.shape = some s ∧ s.length = shape.length ∧ s[b]? = shape[b]?

theorem told_nothing (shape : ShapeFact) : Told shape [] none := ⟨ShapeFact.unknown_replicate rfl,nofun⟩

theorem Told.length {done : List Nat} (told : Told shape done o) : (sketch shape.length o).length = shape.length :=
  told.below.length_eq

theorem Told.more {done : List Nat} {e : Dim} (told : Told shape done o) (entry : shape[b]? = some e) :
    Told shape (done ++ [b]) (some ((sketch shape.length o).set b e)) := by
  constructor
  · have low := ShapeFact.set_below told.below b (Dim.below_refl e)
    rw [set_entry entry] at low
    exact low
  · intro c member
    change ((sketch shape.length o).set b _)[c]? = _
    by_cases here : c = b
    · subst here
      rw [List.getElem?_set_self (told.length.symm ▸ (List.getElem?_eq_some_iff.mp entry).1),entry]
    · rw [List.getElem?_set_ne (Ne.symm here)]
      exact told.known c (by simpa [here] using member)

theorem Told.all {done : List Nat} (told : Told shape done o) (every : ∀ b < shape.length, b ∈ done) :
    sketch shape.length o = shape := by
  refine List.ext_getElem? fun b => ?_
  by_cases inside : b < shape.length
  · exact told.known b (every b inside)
  · rw [List.getElem?_eq_none (by rw [told.length]; omega),List.getElem?_eq_none (by omega)]

theorem refineAxis_exact {e k : Dim} (entry : (sketch rank o)[b]? = some e) (low : e.Below k) :
    refineAxis o rank b k = .ok ((sketch rank o).set b k) := by
  unfold sketch at entry
  unfold refineAxis
  dsimp only
  rw [entry]
  exact bind_ok.mpr ⟨k,Dim.unify_below low,rfl⟩

-- The first input settles the extent, and the other facts agree with it.
theorem sharedExtent_exact {out : Fact} {e : Dim} (filled : fs ≠ []) (entry : shape[b]? = some e)
    (reads : ∀ f ∈ fs, Reads shape b f)
    (output : ∀ s, out.shape = some s → s.length = shape.length ∧ (s.getD b .unknown).Below e) :
    sharedExtent shape.length b (fs ++ [out]) = .ok e := by
  have low : ∀ f ∈ fs ++ [out], ∀ s, f.shape = some s → s.length = shape.length ∧ (s.getD b .unknown).Below e := by
    refine List.forall_mem_append.mpr ⟨fun f member s known => ?_,List.forall_mem_singleton.mpr output⟩
    obtain ⟨r,shaped,length,here⟩ := reads f member
    cases known.symm.trans shaped
    rw [List.getD_eq_getElem?_getD,here,entry]
    exact ⟨length,Dim.below_refl e⟩
  match fs, filled with
  | f :: fs, _ =>
    obtain ⟨s,shaped,length,here⟩ := reads f List.mem_cons_self
    refine bind_ok.mpr ⟨e,?_,foldlM_fixed fun g member => ?_⟩
    · dsimp only
      rw [shaped]
      dsimp only
      rw [if_neg (not_not.mpr length),List.getD_eq_getElem?_getD,here,entry]
      exact Dim.unify_below (Dim.unknown_below e)
    · cases known : g.shape with
      | none => rfl
      | some s =>
        obtain ⟨length,below⟩ := low g (List.mem_cons_of_mem f member) s known
        dsimp only
        rw [if_neg (not_not.mpr length)]
        exact Dim.unify_above below

theorem Told.entry {done : List Nat} {e : Dim} (told : Told shape done o) (entry : shape[b]? = some e) :
    ∃ k, (sketch shape.length o)[b]? = some k ∧ k.Below e := by
  obtain ⟨inside,rfl⟩ := List.getElem?_eq_some_iff.mp entry
  have there := List.getElem?_eq_getElem (told.length.symm ▸ inside)
  have below := ShapeFact.getD_below told.below b (Dim.below_refl .unknown)
  rw [List.getD_eq_getElem?_getD,there,List.getD_eq_getElem?_getD,entry] at below
  exact ⟨_,there,below⟩

-- The output learns one extent.
theorem Told.learns {done : List Nat} {e : Dim} (told : Told shape done o) (entry : shape[b]? = some e) :
    (refineAxis o shape.length b e >>= (Fact.outline d o).withDims) =
      .ok (.outline d (some ((sketch shape.length o).set b e))) := by
  obtain ⟨k,there,low⟩ := told.entry entry
  refine bind_ok.mpr ⟨_,refineAxis_exact there low,?_⟩
  cases o with
  | none => exact Fact.open_withDims d _
  | some s =>
    have gain := ShapeFact.set_below (ShapeFact.below_refl (sketch shape.length (some s))) b low
    rw [set_entry there] at gain
    exact Fact.outline_gains gain

theorem shareAxis_exact {done : List Nat} {e : Dim} (filled : fs ≠ []) (told : Told shape done o)
    (entry : shape[b]? = some e) (reads : ∀ f ∈ fs, Reads shape b f) :
    shareAxis shape.length (fs ++ [.outline d o]) b =
      .ok (fs ++ [.outline d (some ((sketch shape.length o).set b e))]) := by
  have shared : sharedExtent shape.length b (fs ++ [.outline d o]) = .ok e := by
    refine sharedExtent_exact filled entry reads fun s known => ?_
    cases known
    obtain ⟨k,there,low⟩ := told.entry entry
    change s[b]? = some k at there
    rw [List.getD_eq_getElem?_getD,there]
    exact ⟨told.length,low⟩
  have inputs : fs.mapM (fun f => do f.withDims (← refineAxis f.shape shape.length b e)) = .ok fs := by
    refine mapM_own fun f member => ?_
    obtain ⟨s,shaped,-,here⟩ := reads f member
    have place : (sketch shape.length f.shape)[b]? = some e := by
      rw [shaped]
      exact here.trans entry
    refine bind_ok.mpr ⟨_,refineAxis_exact place (Dim.below_refl e),?_⟩
    rw [set_entry place,shaped]
    exact Fact.withDims_own shaped
  exact bind_ok.mpr ⟨_,shared,mapM_ok.mpr (List.rel_append (mapM_ok.mp inputs) (.cons (told.learns entry) .nil))⟩

-- Off the joined axis the output gets the extents that the inputs share.
theorem spread_exact (filled : fs ≠ []) (reads : ∀ f ∈ fs, ∀ b, b ≠ a → Reads shape b f) :
    ∃ o, Told shape ((List.range shape.length).filter (· != a)) o ∧
      spread shape.length a (fs ++ [.outline d none]) = .ok (fs ++ [.outline d o]) := by
  have step : ∀ done gs b, b ∈ (List.range shape.length).filter (· != a) → Compared shape fs d done gs →
      ∃ gs', shareAxis shape.length gs b = .ok gs' ∧ Compared shape fs d (done ++ [b]) gs' := by
    rintro done _ b member ⟨o,told,rfl⟩
    obtain ⟨within,apart⟩ := List.mem_filter.mp member
    have entry := List.getElem?_eq_getElem (List.mem_range.mp within)
    exact ⟨_,shareAxis_exact filled told entry fun f other => reads f other b (by simpa using apart),_,told.more entry,rfl⟩
  obtain ⟨_,ran,o,told,rfl⟩ := foldlM_reaches step ⟨none,told_nothing shape,rfl⟩
  exact ⟨o,told,ran⟩

theorem total_exact {done : List Nat} {shapes : List ShapeFact} {ns : List Nat} (told : Told shape done o)
    (every : ∀ b < shape.length, b ≠ a → b ∈ done) (shaped : fs.mapM Fact.shape = some shapes)
    (extents : List.Forall₂ (fun s n => s[a]? = some (.known n)) shapes ns)
    (joined : shape[a]? = some (.known (ns.foldr (· + ·) 0))) :
    total shape.length a fs (.outline d o) = .ok (fs,[.outline d (some shape)]) := by
  have entries : shapes.mapM (extentAt a) = .ok (ns.map .known) := by
    rw [mapM_ok,List.forall₂_map_right_iff]
    refine extents.imp fun s n entry => ?_
    rw [extentAt,entry]
  have known : (ns.map Dim.known).mapM Dim.extent? = some ns := ShapeFact.extents?_eq_some.mpr rfl
  have complete : (sketch shape.length o).set a (.known (ns.foldr (· + ·) 0)) = shape := by
    refine (told.more joined).all fun b within => ?_
    by_cases here : b = a
    · simp [here]
    · exact List.mem_append_left _ (every b within here)
  have learned := told.learns (d := d) joined
  rw [complete] at learned
  obtain ⟨dims,refined,output⟩ := bind_ok.mp learned
  unfold total
  rw [shaped]
  refine bind_ok.mpr ⟨_,entries,?_⟩
  rw [known]
  exact bind_ok.mpr ⟨dims,refined,bind_ok.mpr ⟨_,output,rfl⟩⟩

-- Inputs of known extents on the joined axis, which are alike on the others.
theorem infer_row {axis : Int} {shapes : List ShapeFact} {ns : List Nat} (filled : fs ≠ [])
    (types : ∀ f ∈ fs, f.dtype = d) (chosen : normalizeAxis axis shape.length = .ok a)
    (reads : ∀ f ∈ fs, ∀ b, b ≠ a → Reads shape b f) (shaped : fs.mapM Fact.shape = some shapes)
    (extents : List.Forall₂ (fun s n => s[a]? = some (.known n)) shapes ns)
    (joined : shape[a]? = some (.known (ns.foldr (· + ·) 0))) :
    infer axis fs [.unknown] = .ok (fs,[.outline d (some shape)]) := by
  obtain ⟨o,told,spreads⟩ := spread_exact (d := d) filled reads
  have every : ∀ b < shape.length, b ≠ a → b ∈ (List.range shape.length).filter (· != a) :=
    fun b within apart => List.mem_filter.mpr ⟨List.mem_range.mpr within,by simpa using apart⟩
  have rank : (fs ++ [Fact.outline d none]).findSome? Fact.rank = some shape.length := by
    match fs, filled with
    | f :: fs, _ =>
      obtain ⟨s,known,length,-⟩ := reads f List.mem_cons_self (a + 1) (Nat.succ_ne_self a)
      have ranked : f.rank = some shape.length := by rw [Fact.rank,known,← length]; rfl
      rw [List.cons_append,List.findSome?_cons,ranked]
  rw [infer_eq]
  refine bind_ok.mpr ⟨_,shareDType_beside filled types,?_⟩
  unfold place
  rw [rank]
  refine bind_ok.mpr ⟨a,chosen,bind_ok.mpr ⟨_,spreads,?_⟩⟩
  rw [List.dropLast_concat,List.getLastD_concat]
  exact total_exact told every shaped extents joined

end Concat

namespace Pack

end Pack

end TensorGraph
