import TensorGraph.Proofs.Fact.Acceptance
import TensorGraph.Proofs.Fact.Backward
import TensorGraph.Proofs.Fact.Stretch

namespace TensorGraph
open Outcome

namespace ShapeFact

-- The extents are of a tensor of this shape.
def Fits (s : ShapeFact) (shape : Shape) : Prop := List.Forall₂ (fun d n => d.accepts n = true) s shape

theorem Fits.extent {s : ShapeFact} {shape : Shape} (fits : s.Fits shape) (i n : Nat) :
    (s.getD i .unknown).accepts (shape.getD i n) = true := forall₂_getD fits i rfl

theorem Fits.entry {s : ShapeFact} {shape : Shape} {i n : Nat} (fits : s.Fits shape)
    (entry : shape[i]? = some n) : (s.getD i .unknown).accepts n = true := by
  have equal : shape.getD i n = n := by rw [List.getD_eq_getElem?_getD,entry]; rfl
  have here := fits.extent i n
  rw [equal] at here
  exact here

theorem Fits.set {s : ShapeFact} {shape : Shape} {i n : Nat} {d : Dim} (fits : s.Fits shape)
    (entry : shape[i]? = some n) (accept : d.accepts n = true) : Fits (List.set s i d) shape := by
  obtain ⟨inside,equal⟩ := List.getElem?_eq_some_iff.mp entry
  subst equal
  have kept := forall₂_set fits i accept
  rw [List.set_getElem_self inside] at kept
  exact kept

theorem fits_unknown {shape : Shape} {rank : Nat} (length : shape.length = rank) :
    Fits (List.replicate rank .unknown) shape := by
  subst length
  induction shape with
  | nil => exact .nil
  | cons _ _ ih => exact .cons rfl ih

theorem Fits.axis {s : ShapeFact} {shape : Shape} (fits : s.Fits shape) (i : Nat) :
    (s.axis i).accepts (shape.extent i) = true := forall₂_getD (List.rel_reverse fits) i rfl

theorem fits_of_axes {s : ShapeFact} {shape : Shape} (length : s.length = shape.length)
    (each : ∀ i, (s.axis i).accepts (shape.extent i) = true) : s.Fits shape := by
  refine List.forall₂_reverse_iff.mp (List.forall₂_iff_get.mpr ⟨by simpa using length,fun i left right => ?_⟩)
  rw [List.get_eq_getElem,List.get_eq_getElem,List.getElem_eq_getD Dim.one,List.getElem_eq_getD 1]
  exact each i

theorem fits_ofShape {s shape : Shape} : (ofShape s).Fits shape ↔ s = shape :=
  accepts_forall₂.symm.trans accepts_ofShape

end ShapeFact

namespace Dim

theorem accepts_known {n m : Nat} : (known n).accepts m = true ↔ n = m := beq_iff_eq

theorem ofInt_accepts {i : Int} {d : Dim} {n : Nat} (found : ofInt i = .ok d) (equal : i.toNat = n) :
    d.accepts n = true := by
  unfold ofInt at found
  split at found
  · cases found
    exact accepts_known.mpr equal
  · cases found

theorem ofInt_accepts_iff {i : Int} {d : Dim} {n : Nat} (found : ofInt i = .ok d) : d.accepts n = true ↔ i = n := by
  unfold ofInt at found
  split at found
  · cases found
    rw [accepts_known]
    omega
  · cases found

-- What an extent that others stretch to leaves room for: if it is 1, those that stretch may have been open.
theorem yields_room {d : Dim} {n k : Nat} (accept : d.accepts k = true) (stretch : k = 1 ∨ k = n) :
    d.YieldsTo (if n = 1 then unknown else known n) := by
  split
  · rename_i one
    cases d with
    | known m =>
      cases accepts_known.mp accept
      exact .inl (by omega)
    | streaming => exact nofun
    | unknown => exact yieldsTo_refl _
  · rename_i other
    cases d with
    | known m =>
      cases accepts_known.mp accept
      exact stretch.imp_right (congrArg known ·.symm)
    | streaming => exact number_ne_one other
    | unknown => exact ⟨number_ne_one other,nofun⟩

-- Extents that stretch to one, or meet in it, and its own knowledge.
theorem broadcast_accepts {ds : List Dim} {ns : List Nat} {n : Nat} {d : Dim}
    (fits : List.Forall₂ (fun d n => d.accepts n = true) ds ns) (stretch : ∀ m ∈ ns, m = 1 ∨ m = n)
    (met : n = 1 ∨ n ∈ ns) (found : broadcast ds = .ok d) : d.accepts n = true := by
  obtain ⟨above,least⟩ := broadcast_joins.ok_iff.mp found
  have low := least _ fun e member => by
    obtain ⟨k,other,accept⟩ := forall₂_left fits e member
    exact yields_room accept (stretch k other)
  cases d with
  | known k =>
    split at low
    · rename_i one
      exact accepts_known.mpr ((low.resolve_right nofun).trans one.symm)
    · rename_i other
      rcases low with rfl | equal
      · -- an extent that meets the others yields to nothing but itself
        obtain ⟨e,member,accept⟩ := forall₂_right fits n (met.resolve_left other)
        rwa [yieldsTo_one (above e member)] at accept
      · exact accepts_known.mpr (known.inj equal).symm
  | streaming | unknown => rfl

end Dim

namespace ShapeFact

theorem broadcast_fits {ss : List ShapeFact} {shapes : List Shape} {r : Shape} {dims : ShapeFact}
    (fits : List.Forall₂ Fits ss shapes) (stretched : Shape.Stretched shapes r)
    (found : broadcast ss = .ok dims) : dims.Fits r := by
  have ranks : ss.map List.length = shapes.map List.length := by
    rw [← List.forall₂_eq_eq_eq,List.forall₂_map_left_iff,List.forall₂_map_right_iff]
    exact fits.imp fun _ _ fit => fit.length_eq
  obtain ⟨length,each⟩ := broadcast_axes.mp found
  rw [ranks,stretched.foldl_max] at length
  refine fits_of_axes length fun i => ?_
  have column : List.Forall₂ (fun d n => Dim.accepts d n = true) (ss.map fun s => s.axis i)
      (shapes.map fun s => s.extent i) := by
    simp only [List.forall₂_map_left_iff,List.forall₂_map_right_iff]
    exact fits.imp fun _ _ fit => fit.axis i
  refine Dim.broadcast_accepts column ?_ ?_ (each i)
  · exact List.forall_mem_map.mpr fun s member => stretched.stretch s member i
  · refine (stretched.met i).imp_right ?_
    rintro ⟨s,member,equal⟩
    exact List.mem_map.mpr ⟨s,member,equal⟩

theorem known_eq {s : ShapeFact} {shape : Shape} (fits : s.Fits shape) (known : ∀ d ∈ s, d.isKnown = true) :
    s = .ofShape shape := by
  induction fits with
  | nil => rfl
  | @cons d n s shape head _ ih =>
    obtain ⟨here,later⟩ := List.forall_mem_cons.mp known
    cases d with
    | known k => rw [ih later,Dim.accepts_known.mp head]; rfl
    | streaming | unknown => cases here

theorem ones_of_fits {s : ShapeFact} {shape : Shape} (fits : s.Fits shape)
    (ones : s.all (· == .one) = true) (i : Nat) : shape.extent i = 1 := by
  have all : ∀ n ∈ shape, n = 1 := by
    intro n member
    obtain ⟨d,other,accept⟩ := forall₂_right fits n member
    rw [eq_of_beq (List.all_eq_true.mp ones d other)] at accept
    exact (Dim.accepts_known.mp accept).symm
  by_cases within : i < shape.length
  · exact all _ (List.mem_of_getElem? (Shape.extent_within within))
  · exact Shape.extent_beyond (Nat.le_of_not_lt within)

end ShapeFact

-- A known first extent other than 1.
theorem leadsFull_extent {o : ShapeFact} {shape : Shape} (fits : o.Fits shape)
    (full : Facts.leadsFull o = true) : 0 < shape.length ∧ shape.extent (shape.length - 1) ≠ 1 := by
  cases fits with
  | nil => cases full
  | @cons d n o shape head _ =>
    refine ⟨Nat.zero_lt_succ _,?_⟩
    have first := Shape.extent_within (s := n :: shape) (i := shape.length) (Nat.lt_succ_self _)
    simp only [List.length_cons,Nat.add_sub_cancel,Nat.sub_self,List.getElem?_cons_zero,
      Option.some.injEq] at first ⊢
    rw [← first]
    cases d with
    | known k =>
      cases Dim.accepts_known.mp head
      simpa [Facts.leadsFull,Dim.isKnown,Dim.one] using full
    | streaming | unknown => cases full

namespace Fact

variable {f g : Fact} {t : Tensor}

theorem accepts_dtype (accept : f.accepts t = true) {d : DType} (known : f.dtype = some d) : t.dtype = d :=
  (accepts_parts.mp accept).1 d known

theorem accepts_fits (accept : f.accepts t = true) {s : ShapeFact} (known : f.shape = some s) :
    s.Fits t.shape := ShapeFact.accepts_forall₂.mp ((accepts_parts.mp accept).2.1 s known)

theorem accepts_extent (accept : f.accepts t = true) (i n : Nat) :
    ((f.shape.getD []).getD i .unknown).accepts (t.shape.getD i n) = true := by
  cases known : f.shape with
  | none => rfl
  | some s => exact (accepts_fits accept known).extent i n

theorem accepts_headD (accept : f.accepts t = true) (n : Nat) :
    ((f.shape.getD []).headD .unknown).accepts (t.shape.headD n) = true := by
  cases known : f.shape with
  | none => rfl
  | some s => exact forall₂_headD (accepts_fits accept known) rfl

theorem accepts_value (accept : f.accepts t = true) {c : Tensor} (known : f.value = some c) :
    c.same t = true := (accepts_parts.mp accept).2.2 c known

theorem accepts_extents (accept : f.accepts t = true) {s : Shape} (known : f.extents? = some s) :
    s = t.shape := by
  obtain ⟨dims,shape,extents⟩ := Option.bind_eq_some_iff.mp known
  have fits := accepts_fits accept shape
  rw [ShapeFact.extents?_eq_some.mp extents] at fits
  exact ShapeFact.fits_ofShape.mp fits

theorem withDType_accepts {d : DType} (accept : f.accepts t = true) (found : f.withDType (some d) = .ok g)
    (dtype : t.dtype = d) : g.accepts t = true :=
  unify_accepts found accept (accepts_outline.mpr ⟨fun _ equal => dtype.trans (Option.some.inj equal),nofun⟩)

theorem withShape_accepts {s : Option ShapeFact} (accept : f.accepts t = true)
    (found : f.withShape s = .ok g) (fits : ∀ r, s = some r → r.Fits t.shape) : g.accepts t = true :=
  unify_accepts found accept
    (accepts_outline.mpr ⟨nofun,fun r known => ShapeFact.accepts_forall₂.mpr (fits r known)⟩)

theorem withDims_accepts {s : ShapeFact} (accept : f.accepts t = true) (found : f.withDims s = .ok g)
    (fits : s.Fits t.shape) : g.accepts t = true :=
  withShape_accepts accept found fun _ known => Option.some.inj known ▸ fits

-- With its dims a fact has a shape, which is that of the tensor.
theorem withDims_fits {s : ShapeFact} (found : f.withDims s = .ok g) (accept : g.accepts t = true) :
    ShapeFact.Fits (g.shape.getD []) t.shape := by
  obtain ⟨r,known,-⟩ := withDims_shape found
  rw [known]
  exact accepts_fits accept known

theorem unifyAll_accepts {fs : List Fact} (each : ∀ f ∈ fs, f.accepts t = true)
    (found : unifyAll fs = .ok g) : g.accepts t = true :=
  foldlM_keeps (P := fun f : Fact => f.accepts t = true)
    (fun _ f _ member kept unified => unify_accepts unified kept (each f member)) (unknown_accepts t) found

end Fact

namespace Facts

variable {fs gs ins outs : Facts} {ts us : List Tensor} {t u : Tensor} {x out : Fact}

-- What a rule answers holds of the tensors around it.
def Hold (r : Facts × Facts) (ts us : List Tensor) : Prop := Accept r.1 ts ∧ Accept r.2 us

theorem accept_one (input : x.accepts t = true) : Accept [x] [t] := .cons input .nil

theorem accept_one_iff : Accept [x] [t] ↔ x.accepts t = true := ⟨fun accept => (List.forall₂_cons.mp accept).1,accept_one⟩

theorem hold_one (input : x.accepts t = true) (output : out.accepts u = true) :
    Hold ([x],[out]) [t] [u] := ⟨accept_one input,accept_one output⟩

theorem Accept.pad (accept : Accept fs ts) {n : Nat} (enough : n ≤ ts.length) : Accept (fs.pad n) ts := by
  unfold Facts.pad
  rw [accept.length_eq,Nat.sub_eq_zero_of_le enough]
  exact (List.append_nil fs).symm ▸ accept

theorem Accept.append (first : Accept fs ts) (second : Accept gs us) : Accept (fs ++ gs) (ts ++ us) :=
  List.rel_append first second

theorem Accept.first (accept : Accept fs (t :: ts)) : (Facts.first fs).accepts t = true := by
  cases accept with
  | cons head _ => exact head

theorem Accept.getD (accept : Accept fs ts) (i : Nat) (t : Tensor) :
    (List.getD fs i .unknown).accepts (ts.getD i t) = true := forall₂_getD accept i (Fact.unknown_accepts t)

-- The facts of the inputs and of the only output, after they went through a rule together.
theorem Accept.split (accept : Accept fs (ts ++ [u])) :
    Accept (List.dropLast fs) ts ∧ (List.getLastD fs .unknown).accepts u = true := by
  have front := forall₂_dropLast accept
  rw [List.dropLast_concat] at front
  refine ⟨front,?_⟩
  rcases List.eq_nil_or_concat' fs with rfl | ⟨rest,last,rfl⟩
  · simpa using accept.length_eq
  · have back := List.rel_reverse accept
    rw [List.reverse_concat,List.reverse_concat] at back
    rw [List.getLastD_concat]
    cases back with
    | cons head _ => exact head

theorem Accept.known (accept : Accept fs ts) {known : List ShapeFact}
    (found : fs.mapM Fact.shape = some known) : List.Forall₂ ShapeFact.Fits known (ts.map Tensor.shape) :=
  List.forall₂_map_right_iff.mpr (mapM_some_keeps accept found fun _ _ _ holds => Fact.accepts_fits holds)

theorem Accept.types (accept : Accept fs ts) {types : List DType} (found : fs.mapM Fact.dtype = some types) :
    types = ts.map Tensor.dtype := by
  rw [← List.forall₂_eq_eq_eq,List.forall₂_map_right_iff]
  exact mapM_some_keeps accept found fun _ _ _ holds known => (Fact.accepts_dtype holds known).symm

theorem mapM_accept {step : Fact → Outcome Fact} (accept : Accept fs ts) (found : fs.mapM step = .ok gs)
    (each : ∀ f g, ∀ t ∈ ts, f.accepts t = true → step f = .ok g → g.accepts t = true) : Accept gs ts :=
  mapM_keeps (forall₂_mem accept.flip).flip found fun f g t ⟨member,holds⟩ => each f g t member holds

theorem shareDType_accept {d : DType} (accept : Accept fs ts) (same : ∀ t ∈ ts, t.dtype = d)
    (found : fs.shareDType = .ok gs) : Accept gs ts := by
  unfold shareDType at found
  split at found
  · cases found; exact accept
  · obtain ⟨shared,unified,found⟩ := bind_ok.mp found
    refine mapM_accept accept found fun f g t member holds joined => ?_
    refine Fact.unify_accepts joined holds (Fact.unifyAll_accepts ?_ unified)
    intro e entry
    obtain ⟨k,member',rfl⟩ := List.mem_map.mp entry
    obtain ⟨f',other,known⟩ := List.mem_filterMap.mp member'
    obtain ⟨t',found',accept'⟩ := forall₂_left accept f' other
    refine Fact.accepts_outline.mpr ⟨fun c equal => ?_,nofun⟩
    cases equal
    rw [same t member,← same t' found',Fact.accepts_dtype accept' known]

theorem shareShape_accept {s : Shape} (accept : Accept fs ts) (same : ∀ t ∈ ts, t.shape = s)
    (found : fs.shareShape = .ok gs) : Accept gs ts := by
  unfold shareShape at found
  split at found
  · cases found; exact accept
  · obtain ⟨shared,unified,found⟩ := bind_ok.mp found
    refine mapM_accept accept found fun f g t member holds joined => ?_
    refine Fact.withShape_accepts holds joined fun r known => Fact.accepts_fits ?_ known
    refine Fact.unifyAll_accepts (fun e entry => ?_) unified
    obtain ⟨k,member',rfl⟩ := List.mem_map.mp entry
    obtain ⟨f',other,known⟩ := List.mem_filterMap.mp member'
    obtain ⟨t',found',accept'⟩ := forall₂_left accept f' other
    refine Fact.accepts_outline.mpr ⟨nofun,fun r equal => ?_⟩
    cases equal
    rw [same t member,← same t' found']
    exact ShapeFact.accepts_forall₂.mpr (Fact.accepts_fits accept' known)

theorem pair_accept {p : Fact × Fact} (accept : Accept fs [t,u]) (found : fs.pair = .ok p) :
    p.1.accepts t = true ∧ p.2.accepts u = true := by
  match accept with
  | .cons input (.cons output .nil) =>
    cases found
    exact ⟨input,output⟩

-- An operator with one input and one output.
theorem accept_around (input : Accept ins [t]) (output : Accept outs [u]) :
    Accept (ins.pad 1 ++ outs.pad 1) [t,u] :=
  (input.pad (Nat.le_refl 1)).append (output.pad (Nat.le_refl 1))

theorem sharedPair_accept {p : Fact × Fact} (input : Accept ins [t]) (output : Accept outs [u])
    (same : u.dtype = t.dtype) (found : sharedPair ins outs = .ok p) :
    p.1.accepts t = true ∧ p.2.accepts u = true := by
  obtain ⟨fs,shared,found⟩ := bind_ok.mp found
  have accept := shareDType_accept (accept_around input output) (d := t.dtype) (by simp [same]) shared
  exact pair_accept accept found

theorem stretchOutput_accepts {r : Fact} (accept : Accept ins ts)
    (stretched : Shape.Stretched (ts.map Tensor.shape) u.shape) (output : out.accepts u = true)
    (found : stretchOutput ins out = .ok r) : r.accepts u = true := by
  unfold stretchOutput at found
  split at found
  · rename_i known all
    obtain ⟨dims,met,found⟩ := bind_ok.mp found
    rw [List.mapM_map] at all
    exact Fact.withDims_accepts output found (ShapeFact.broadcast_fits (accept.known all) stretched met)
  · cases found; exact output

-- The backward step is sound: beside ones that add neither an extent nor an axis to the output, the
-- open input has its shape.
theorem lone_shape {o : ShapeFact} {i : Nat} (accept : Accept ins ts)
    (stretched : Shape.Stretched (ts.map Tensor.shape) u.shape) (fits : o.Fits u.shape)
    (lone : Lone o (ins.map Fact.shape) i) (here : ts[i]? = some t) : t.shape = u.shape := by
  have others : ∀ j v, ts[j]? = some v → j ≠ i → (∀ k, v.shape.extent k = 1) ∧
      (v.shape.length < u.shape.length ∨ leadsFull o = true) := by
    intro j v there apart
    obtain ⟨f,entry,holds⟩ := forall₂_getElem? accept there
    have neutral := lone.2 j f.shape (by rw [List.getElem?_map,entry]; rfl) apart
    cases known : f.shape with
    | none => rw [known] at neutral; cases neutral
    | some s =>
      rw [known] at neutral
      simp only [Facts.neutral,ShapeFact.allOnes,Option.getD_some,Bool.and_eq_true,Bool.or_eq_true,
        decide_eq_true_eq] at neutral
      have fit := Fact.accepts_fits holds known
      exact ⟨ShapeFact.ones_of_fits fit neutral.1,by rw [← fit.length_eq,← fits.length_eq]; exact neutral.2⟩
  have ones : ∀ s ∈ ts.map Tensor.shape, s = t.shape ∨ ∀ k, s.extent k = 1 := by
    intro s member
    obtain ⟨v,entry,rfl⟩ := List.mem_map.mp member
    obtain ⟨j,there⟩ := List.mem_iff_getElem?.mp entry
    by_cases same : j = i
    · subst same
      cases here.symm.trans there
      exact .inl rfl
    · exact .inr (others j v there same).1
  have member : t.shape ∈ ts.map Tensor.shape := List.mem_map_of_mem (List.mem_of_getElem? here)
  refine stretched.eq_of_ones member ones ?_
  rcases stretched.rank with none | ⟨s,entry,equal⟩
  · omega
  · obtain ⟨v,found,rfl⟩ := List.mem_map.mp entry
    obtain ⟨j,there⟩ := List.mem_iff_getElem?.mp found
    by_cases same : j = i
    · subst same
      cases here.symm.trans there
      exact Nat.le_of_eq equal.symm
    · rcases (others j v there same).2 with shorter | full
      · omega
      · obtain ⟨some,other⟩ := leadsFull_extent fits full
        have reached := stretched.reaches ones other
        omega

theorem refill_accept {o : ShapeFact} (accept : Accept ins ts)
    (stretched : Shape.Stretched (ts.map Tensor.shape) u.shape) (fits : o.Fits u.shape)
    (found : refill ins o = .ok gs) : Accept gs ts := by
  rcases refill_cases ins o with ⟨i,lone,equal⟩ | ⟨-,equal⟩
  · rw [equal,refillAt] at found
    have placed := (forall₂_mem (forall₂_zipIdx accept 0).flip).flip
    rw [← List.zipIdx_map_fst 0 ts]
    rw [Accept,List.forall₂_map_right_iff]
    refine mapM_keeps placed found ?_
    rintro ⟨f,k⟩ g ⟨t,_⟩ ⟨member,holds,rfl⟩ joined
    dsimp only at holds joined
    split at joined
    · rename_i same
      subst same
      have here : ts[k]? = some t := List.mem_zipIdx_iff_getElem?.mp member
      exact Fact.withDims_accepts holds joined (lone_shape accept stretched fits lone here ▸ fits)
    · cases joined
      exact holds
  · rw [equal] at found
    cases found
    exact accept

theorem broadcast_accept {r : Facts × Fact} (accept : Accept ins ts)
    (stretched : Shape.Stretched (ts.map Tensor.shape) u.shape) (output : out.accepts u = true)
    (found : broadcast ins out = .ok r) : Accept r.1 ts ∧ r.2.accepts u = true := by
  rw [broadcast_eq] at found
  obtain ⟨mid,forward,found⟩ := bind_ok.mp found
  have better := stretchOutput_accepts accept stretched output forward
  unfold stretchInputs at found
  split at found
  · cases found
    exact ⟨accept,better⟩
  · rename_i o known
    obtain ⟨refilled,backward,found⟩ := bind_ok.mp found
    obtain ⟨_,-,equal⟩ := bind_ok.mp found
    cases equal
    exact ⟨refill_accept accept stretched (Fact.accepts_fits better known) backward,better⟩

end Facts

end TensorGraph
