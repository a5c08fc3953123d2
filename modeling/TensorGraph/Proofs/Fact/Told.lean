import TensorGraph.Proofs.Fact.Exact
import TensorGraph.Proofs.Op.Settled
import TensorGraph.Proofs.Raises

namespace TensorGraph
open Outcome

-- Kinds of faults that tensors of the wrong element type or the wrong shape cause.
def Kind.isMismatch (k : Kind) : Bool := k.isA .typeMismatch || k.isA .shapeMismatch

-- A computation that finds nothing wrong with the types and shapes of what it is given.
def Outcome.Matched {α : Type} (x : Outcome α) : Prop := Raises (fun k => k.isMismatch = false) x

namespace Shape

variable {ss : List Shape} {r s t : Shape}

theorem stretch?_total {m n k : Nat} (left : m = 1 ∨ m = k) (right : n = 1 ∨ n = k) : ∃ p, stretch? m n = some p := by
  unfold stretch?
  split
  · exact ⟨m,rfl⟩
  split
  · exact ⟨n,rfl⟩
  split
  · exact ⟨m,rfl⟩
  · omega

theorem broadcast?_total (each : ∀ i, ∃ p, stretch? (s.extent i) (t.extent i) = some p) :
    ∃ r, broadcast? s t = some r := by
  have left := length_lead (Nat.le_max_left s.length t.length)
  have right := length_lead (Nat.le_max_right s.length t.length)
  obtain ⟨r,met⟩ : ∃ r, List.Forall₂ (fun p q => stretch? p.1 p.2 = some q)
      ((lead (max s.length t.length) s).zip (lead (max s.length t.length) t)) r :=
    exists_forall₂ fun p member => by
      obtain ⟨i,entry⟩ := List.mem_iff_getElem?.mp member
      obtain ⟨first,second⟩ := List.getElem?_zip_eq_some.mp entry
      have inside := (List.getElem?_eq_some_iff.mp first).1
      obtain ⟨q,met⟩ := each (max s.length t.length - 1 - i)
      have here := extent_within (s := lead (max s.length t.length) s) (i := max s.length t.length - 1 - i) (by omega)
      have there := extent_within (s := lead (max s.length t.length) t) (i := max s.length t.length - 1 - i) (by omega)
      rw [left] at here inside
      rw [right] at there
      rw [show max s.length t.length - 1 - (max s.length t.length - 1 - i) = i by omega,extent_lead] at here there
      rw [Option.some.inj (first.symm.trans here),Option.some.inj (second.symm.trans there)]
      exact ⟨q,met⟩
  exact ⟨r,mapM_some.mpr met⟩

-- Shapes meet that have at most one extent other than 1 on every axis.
theorem fold_total {more : List Shape} (stretched : Stretched ss r)
    (agree : ∀ i, ∃ n, ∀ s ∈ ss ++ more, s.extent i = 1 ∨ s.extent i = n) :
    ∃ r', more.foldlM broadcast? r = some r' := by
  induction more generalizing ss r with
  | nil => exact ⟨r,rfl⟩
  | cons s more ih =>
    have each : ∀ i, ∃ p, stretch? (r.extent i) (s.extent i) = some p := by
      intro i
      obtain ⟨n,all⟩ := agree i
      refine stretch?_total (k := n) ?_ (all s (by simp))
      rcases stretched.met i with one | ⟨t,member,equal⟩
      · exact .inl one
      · exact equal ▸ all t (List.mem_append_left _ member)
    obtain ⟨next,met⟩ := broadcast?_total each
    obtain ⟨r',rest⟩ := ih (stretched.more met) (by simpa using agree)
    exact ⟨r',by rw [List.foldlM_cons,met]; exact rest⟩

theorem broadcastAll?_total (agree : ∀ i, ∃ n, ∀ s ∈ ss, s.extent i = 1 ∨ s.extent i = n) :
    ∃ r, broadcastAll? ss = some r := fold_total stretched_nil agree

theorem broadcast?_of_all (met : broadcastAll? [s,t] = some r) : broadcast? s t = some r := by
  unfold broadcastAll? at met
  rw [List.foldlM_cons,Option.bind_eq_bind,Option.bind_eq_some_iff] at met
  obtain ⟨first,start,met⟩ := met
  cases broadcast?_nil start
  rw [List.foldlM_cons,Option.bind_eq_bind,Option.bind_eq_some_iff] at met
  obtain ⟨_,second,equal⟩ := met
  cases equal
  exact second

end Shape

theorem Dim.broadcast_agree {ns : List Nat} {d : Dim} (found : broadcast (ns.map known) = .ok d) :
    ∃ n, ∀ m ∈ ns, m = 1 ∨ m = n := by
  have above := List.forall_mem_map.mp (broadcast_joins.bounds _ d found)
  cases d with
  | known n => exact ⟨n,fun m member => (above m member).imp_right fun equal => (known.inj equal).symm⟩
  | streaming | unknown => exact ⟨1,fun m member => (above m member).imp_right nofun⟩

-- Where the rule for known shapes finds a shape, the tensors stretch.
theorem ShapeFact.broadcast_stretches (shapes : List Shape) {dims : ShapeFact}
    (found : broadcast (shapes.map ofShape) = .ok dims) :
    ∃ r, Shape.broadcastAll? shapes = some r ∧ dims = ofShape r := by
  obtain ⟨-,each⟩ := broadcast_axes.mp found
  have met : ∃ r, Shape.broadcastAll? shapes = some r := by
    refine Shape.broadcastAll?_total fun i => ?_
    have column := each i
    rw [axes_ofShape] at column
    obtain ⟨n,all⟩ := Dim.broadcast_agree column
    exact ⟨n,fun s member => all _ (List.mem_map_of_mem member)⟩
  obtain ⟨r,stretched⟩ := met
  rw [broadcast_exact (Shape.stretched_all stretched)] at found
  cases found
  exact ⟨r,stretched,rfl⟩

namespace Fact

-- What one fact knows of type and shape, the other knows too. Of values nothing is said, as untyped ones may
-- be equal without being the same.
structure Shows (f g : Fact) : Prop where
  dtype : ∀ d, f.dtype = some d → g.dtype = some d
  shape : ShapeFact.Below? f.shape g.shape

-- The element type and every extent are known, and are the tensor's.
structure Tells (f : Fact) (t : Tensor) : Prop where
  dtype : f.dtype = some t.dtype
  shape : f.shape = some (.ofShape t.shape)

variable {f g h : Fact} {t u : Tensor} {s : Shape} {d : DType} {dims : ShapeFact}

theorem Shows.trans (first : f.Shows g) (second : g.Shows h) : f.Shows h :=
  ⟨fun d known => second.dtype d (first.dtype d known),first.shape.trans second.shape⟩

theorem Below.shows (below : f.Below g) : f.Shows g := ⟨below.dtype,below.shape⟩

theorem unify_shows (unified : f.unify g = .ok h) : g.Shows h := by
  obtain ⟨dtypes,shapes,-⟩ := unify_parts unified
  exact ⟨(unifyDType_bounds dtypes).2,(ShapeFact.unify_bounds shapes).2⟩

theorem shows_of_same (same : f.same g = true) : f.Shows g := by
  obtain ⟨dtype,shape⟩ : f.dtype = g.dtype ∧ f.shape = g.shape := by
    cases f with
    | constant s =>
      cases g with
      | constant t =>
        obtain ⟨dtype,shape,-⟩ := Tensor.same_parts.mp same
        exact ⟨congrArg some dtype,congrArg (fun s => some (ShapeFact.ofShape s)) shape⟩
      | outline => cases same
    | outline =>
      cases g with
      | constant => cases same
      | outline =>
        rw [Fact.same,Bool.and_eq_true,beq_iff_eq,beq_iff_eq] at same
        exact same
  exact ⟨fun d known => dtype ▸ known,shape ▸ ShapeFact.below?_refl _⟩

theorem Shows.rank {n : Nat} (shows_ : f.Shows g) (ranked : g.rank = some n) (known : f.shape = some dims) :
    dims.length = n := by
  obtain ⟨s,shape,below⟩ := shows_.shape _ known
  unfold Fact.rank at ranked
  rw [shape] at ranked
  cases ranked
  exact below.length_eq

theorem tells_constant (t : Tensor) : (constant t).Tells t := ⟨rfl,rfl⟩

theorem Tells.shown (tells : f.Tells t) (shows_ : f.Shows g) : g.Tells t :=
  ⟨shows_.dtype _ tells.dtype,ShapeFact.ofShape_maximal (tells.shape ▸ shows_.shape)⟩

theorem Tells.above (tells : f.Tells t) (below : f.Below g) : g.Tells t := tells.shown below.shows

theorem Tells.rank_eq (tells : f.Tells t) : f.rank = some t.shape.length := by
  unfold Fact.rank
  rw [tells.shape]
  exact congrArg some (List.length_map _)

theorem Tells.learns (tells : f.Tells t) (unified : f.unify g = .ok h) : h.Tells t :=
  tells.above (unify_left unified)

theorem Tells.like (tells : f.Tells t) (dtype : u.dtype = t.dtype) (shape : u.shape = t.shape) : f.Tells u :=
  ⟨dtype ▸ tells.dtype,shape ▸ tells.shape⟩

theorem ofShape_inj {r : Shape} (equal : ShapeFact.ofShape s = .ofShape r) : s = r :=
  ShapeFact.fits_ofShape.mp (equal ▸ ShapeFact.fits_ofShape.mpr rfl)

-- A fact that knows everything but the elements tells of every tensor it accepts.
theorem Tells.extents (tells : f.Tells t) : f.extents? = some t.shape := by
  unfold extents?
  rw [tells.shape]
  exact ShapeFact.extents?_eq_some.mpr rfl

theorem tells_accepted (concrete : f.isConcrete = true) (accept : f.accepts t = true) : f.Tells t := by
  unfold isConcrete at concrete
  obtain ⟨typed,extents⟩ := Bool.and_eq_true _ _ ▸ concrete
  obtain ⟨d,dtype⟩ := Option.isSome_iff_exists.mp typed
  obtain ⟨r,known⟩ := Option.isSome_iff_exists.mp extents
  have same := accepts_extents accept known
  obtain ⟨dims,shape,exact_⟩ := Option.bind_eq_some_iff.mp known
  rw [ShapeFact.extents?_eq_some.mp exact_,same] at shape
  exact ⟨(accepts_dtype accept dtype).symm ▸ dtype,shape⟩

theorem withDims_exact (found : f.withDims (.ofShape s) = .ok g) : g.shape = some (.ofShape s) := by
  obtain ⟨r,known,below⟩ := withDims_shape found
  rw [known]
  exact ShapeFact.ofShape_maximal below.some

theorem withDims_below (found : f.withDims dims = .ok g) : f.Below g := by
  unfold withDims withShape at found
  exact unify_left found

theorem withDType_below {e : Option DType} (found : f.withDType e = .ok g) : f.Below g := by
  unfold withDType at found
  exact unify_left found

theorem kept_shape (below : f.Below g) (known : f.shape = some (.ofShape s)) : g.shape = some (.ofShape s) :=
  ShapeFact.ofShape_maximal (known ▸ below.shape)

theorem withDims_dtype (found : f.withDims dims = .ok g) (known : f.dtype = some d) : g.dtype = some d :=
  (withDims_below found).dtype d known

theorem withDims_tells (found : f.withDims (.ofShape s) = .ok g) (known : f.dtype = some t.dtype)
    (shape : t.shape = s) : g.Tells t :=
  ⟨withDims_dtype found known,shape ▸ withDims_exact found⟩

theorem withDType_exact (found : f.withDType (some d) = .ok g) : g.dtype = some d :=
  (unify_right outline_typed found).dtype d rfl

theorem Tells.withDims (tells : f.Tells t) (found : f.withDims dims = .ok g) : g.Tells t :=
  tells.above (withDims_below found)

theorem Tells.below_dims (tells : f.Tells t) (found : f.withDims dims = .ok g) : dims.Below (.ofShape t.shape) := by
  obtain ⟨r,known,below⟩ := withDims_shape found
  cases (tells.withDims found).shape.symm.trans known
  exact below

theorem Tells.same_dims (tells : f.Tells t) (found : f.withDims (.ofShape s) = .ok g) : t.shape = s :=
  ofShape_inj (Option.some.inj ((tells.withDims found).shape.symm.trans (withDims_exact found)))

theorem Tells.rank (tells : f.Tells t) (found : f.withDims dims = .ok g) : t.shape.length = dims.length :=
  ((tells.below_dims found).length_eq.trans (ShapeFact.length_ofShape _)).symm

end Fact

namespace Facts

variable {fs gs ins : Facts} {ts rest : List Tensor} {t u : Tensor} {out : Fact}

def Tell (fs : Facts) (ts : List Tensor) : Prop := List.Forall₂ Fact.Tells fs ts

theorem Tell.shown (tell : Tell fs ts) (shown : List.Forall₂ Fact.Shows fs gs) : Tell gs ts := by
  induction tell generalizing gs with
  | nil => cases shown; exact .nil
  | cons head _ ih =>
    cases shown with
    | cons first later => exact .cons (head.shown first) (ih later)

theorem Tell.above (tell : Tell fs ts) (below : fs.Below gs) : Tell gs ts :=
  tell.shown (below.imp fun _ _ => Fact.Below.shows)

theorem shareDType_below (shared : fs.shareDType = .ok gs) : fs.Below gs := by
  unfold shareDType at shared
  split at shared
  · cases shared
    exact List.forall₂_same.mpr fun f _ => f.below_refl
  · obtain ⟨all,-,shared⟩ := bind_ok.mp shared
    exact (mapM_ok.mp shared).imp fun _ _ => Fact.unify_left

theorem shareShape_below (shared : fs.shareShape = .ok gs) : fs.Below gs := by
  unfold shareShape at shared
  split at shared
  · cases shared
    exact List.forall₂_same.mpr fun f _ => f.below_refl
  · obtain ⟨all,-,shared⟩ := bind_ok.mp shared
    exact (mapM_ok.mp shared).imp fun _ _ => Fact.unify_left

-- A shape that is wholly known of one fact is known of all.
theorem shareShape_shape {s : Shape} (shared : fs.shareShape = .ok gs) (found : ∃ f ∈ fs, f.shape = some (.ofShape s)) :
    ∀ g ∈ gs, g.shape = some (.ofShape s) := by
  obtain ⟨f,member,known⟩ := found
  have entry : ShapeFact.ofShape s ∈ fs.filterMap Fact.shape := List.mem_filterMap.mpr ⟨f,member,known⟩
  unfold shareShape at shared
  split at shared
  · rename_i none
    rw [none] at entry
    cases entry
  · obtain ⟨all,unified,shared⟩ := bind_ok.mp shared
    obtain ⟨bounds,-⟩ := Fact.unifyAll_bounds (List.forall_mem_map.mpr fun _ _ => Fact.outline_typed) unified
    have top : all.shape = some (.ofShape s) :=
      ShapeFact.ofShape_maximal (bounds _ (List.mem_map.mpr ⟨_,entry,rfl⟩)).shape
    intro g member
    obtain ⟨h,-,joined⟩ := forall₂_right (mapM_ok.mp shared) g member
    rw [top] at joined
    exact Fact.withDims_exact joined

theorem Tell.concat {p : Fact} (tell : Tell ins ts) (below : Facts.Below (ins ++ [p]) gs) :
    ∃ fs o, gs = fs ++ [o] ∧ Tell fs ts ∧ p.Below o := by
  rcases List.eq_nil_or_concat' gs with rfl | ⟨fs,o,rfl⟩
  · simpa using below.length_eq
  · have front := forall₂_dropLast below
    have back := below.flip
    rw [List.dropLast_concat,List.dropLast_concat] at front
    refine ⟨fs,o,rfl,tell.above front,?_⟩
    have reversed := List.rel_reverse below
    rw [List.reverse_concat,List.reverse_concat] at reversed
    cases reversed with
    | cons head _ => exact head

-- Tensors whose facts share their element type share it.
theorem shareDType_same (tell : Tell ins (t :: rest)) (shared : ins.shareDType = .ok gs) :
    Tell gs (t :: rest) ∧ (∀ g ∈ gs, g.dtype = some t.dtype) ∧ ∀ s ∈ t :: rest, s.dtype = t.dtype := by
  have later := tell.above (shareDType_below shared)
  have all : ∀ g ∈ gs, g.dtype = some t.dtype := by
    refine shareDType_dtype shared ?_
    cases later with
    | cons head _ => exact ⟨_,List.mem_cons_self,head.dtype⟩
  refine ⟨later,all,fun s member => ?_⟩
  obtain ⟨f,found,tells⟩ := forall₂_right later s member
  exact Option.some.inj (tells.dtype.symm.trans (all f found))

-- Inputs that are known share their element type, and the output has it.
theorem shareDType_tell {p : Fact} (tell : Tell ins (t :: rest)) (shared : shareDType (ins ++ [p]) = .ok gs) :
    ∃ fs o, gs = fs ++ [o] ∧ Tell fs (t :: rest) ∧ p.Below o ∧ o.dtype = some t.dtype ∧
      ∀ s ∈ t :: rest, s.dtype = t.dtype := by
  obtain ⟨fs,o,rfl,later,low⟩ := tell.concat (shareDType_below shared)
  have all : ∀ g ∈ fs ++ [o], g.dtype = some t.dtype := by
    refine shareDType_dtype shared ?_
    cases later with
    | cons head _ => exact ⟨_,by simp,head.dtype⟩
  refine ⟨fs,o,rfl,later,low,all o (by simp),fun s member => ?_⟩
  obtain ⟨f,found,tells⟩ := forall₂_right later s member
  exact Option.some.inj (tells.dtype.symm.trans (all f (List.mem_append_left _ found)))

theorem Tell.uncons (tell : Tell ins (t :: rest)) : ∃ f fs, ins = f :: fs ∧ f.Tells t ∧ Tell fs rest := by
  cases tell with
  | cons head later => exact ⟨_,_,rfl,head,later⟩

theorem Tell.one (tell : Tell ins [t]) : ∃ x, ins = [x] ∧ x.Tells t := by
  obtain ⟨x,_,rfl,head,later⟩ := tell.uncons
  cases later
  exact ⟨x,rfl,head⟩

theorem Tell.two (tell : Tell ins [t,u]) : ∃ a b, ins = [a,b] ∧ a.Tells t ∧ b.Tells u := by
  obtain ⟨a,_,rfl,head,later⟩ := tell.uncons
  obtain ⟨b,rfl,second⟩ := later.one
  exact ⟨a,b,rfl,head,second⟩

theorem Tell.four {t₁ t₂ t₃ t₄ : Tensor} (tell : Tell ins [t₁,t₂,t₃,t₄]) : ∃ a b c d, ins = [a,b,c,d] := by
  obtain ⟨a,_,rfl,-,later⟩ := tell.uncons
  obtain ⟨b,_,rfl,-,later⟩ := later.uncons
  obtain ⟨c,d,rfl,-⟩ := later.two
  exact ⟨a,b,c,d,rfl⟩

-- An operator with one input and one output of its element type.
theorem sharedPair_tell {p : Fact × Fact} (tell : Tell ins [t]) (found : sharedPair ins [out] = .ok p) :
    p.1.Tells t ∧ p.2.dtype = some t.dtype := by
  obtain ⟨x,rfl,-⟩ := tell.one
  obtain ⟨gs,shared,found⟩ := bind_ok.mp found
  obtain ⟨fs,o,rfl,later,-,dtype,-⟩ := shareDType_tell (p := out) tell shared
  obtain ⟨y,rfl,tells⟩ := later.one
  cases found
  exact ⟨tells,dtype⟩

theorem shareShape_tell {o : Fact} (tell : Tell fs [t]) (dtype : o.dtype = some t.dtype)
    (shared : shareShape (fs ++ [o]) = .ok gs) : ∃ x o, gs = [x,o] ∧ x.Tells t ∧ o.Tells t := by
  obtain ⟨y,rfl,tells⟩ := tell.one
  obtain ⟨_,p,rfl,later,low⟩ := tell.concat (shareShape_below shared)
  obtain ⟨x,rfl,input⟩ := later.one
  have shape := shareShape_shape shared ⟨y,by simp,tells.shape⟩ p (by simp)
  exact ⟨x,p,rfl,input,low.dtype _ dtype,shape⟩

-- An operator whose output has the element type and the shape of its input.
theorem alike_tell {both : Facts} (tell : Tell ins [t]) (typed : shareDType (ins.pad 1 ++ Facts.pad [out] 1) = .ok fs)
    (shaped : fs.shareShape = .ok both) : ∃ x o, both = [x,o] ∧ x.Tells t ∧ o.Tells t := by
  obtain ⟨x,rfl,-⟩ := tell.one
  obtain ⟨_,o,rfl,later,-,dtype,-⟩ := shareDType_tell (p := out) tell typed
  exact shareShape_tell later dtype shaped

theorem Tell.known (tell : Tell fs ts) : fs.mapM Fact.shape = some ((ts.map Tensor.shape).map ShapeFact.ofShape) := by
  rw [mapM_some,List.map_map,List.forall₂_map_right_iff]
  exact tell.imp fun _ _ tells => tells.shape

theorem Tell.types (tell : Tell fs ts) : fs.mapM Fact.dtype = some (ts.map Tensor.dtype) := by
  rw [mapM_some,List.forall₂_map_right_iff]
  exact tell.imp fun _ _ tells => tells.dtype

-- Tensors that are known stretch to the shape that broadcasting gives the output.
theorem broadcast_tell {r : Facts × Fact} (tell : Tell ins ts) (found : broadcast ins out = .ok r) :
    ∃ s, Shape.broadcastAll? (ts.map Tensor.shape) = some s ∧ r.2.shape = some (.ofShape s) ∧ out.Below r.2 := by
  rw [broadcast_eq] at found
  obtain ⟨o,forward,found⟩ := bind_ok.mp found
  rw [stretchInputs_output found]
  have all : (ins.map Fact.shape).mapM id = some ((ts.map Tensor.shape).map ShapeFact.ofShape) := by
    rw [List.mapM_map]
    exact tell.known
  unfold stretchOutput at forward
  rw [all] at forward
  obtain ⟨dims,met,shaped⟩ := bind_ok.mp forward
  obtain ⟨s,stretched,rfl⟩ := ShapeFact.broadcast_stretches _ met
  exact ⟨s,stretched,Fact.withDims_exact shaped,Fact.withDims_below shaped⟩

-- An evaluation that agrees with a rule: it finds no mismatch, and its result is what the rule tells.
structure Meets (x : Outcome Tensor) (outs : Facts) : Prop where
  matched : Matched x
  tells : ∀ u, x = .ok u → Tell outs [u]

theorem meets_one {x : Outcome Tensor} (matched : Matched x) (tells : ∀ u, x = .ok u → out.Tells u) :
    Meets x [out] := ⟨matched,fun u ran => .cons (tells u ran) .nil⟩

end Facts

end TensorGraph
