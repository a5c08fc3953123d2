import TensorGraph.Proofs.Fact.Refinement
import TensorGraph.Proofs.Fact.Sound

namespace TensorGraph
open Outcome

theorem Dim.unify_below {d e : Dim} (low : d.Below e) : d.unify e = .ok e := by
  obtain ⟨c,unified,under⟩ := unify_least low (below_refl e)
  rw [unified,under.antisymm (unify_right unified)]

theorem Dim.unify_above {d e : Dim} (low : e.Below d) : d.unify e = .ok d := by
  obtain ⟨c,unified,under⟩ := unify_least (below_refl d) low
  rw [unified,under.antisymm (unify_left unified)]

-- Extents that stretch to one, and meet in it.
theorem Dim.broadcast_exact {ns : List Nat} {n : Nat} (stretch : ∀ m ∈ ns, m = 1 ∨ m = n)
    (met : n = 1 ∨ n ∈ ns) : broadcast (ns.map known) = .ok (known n) := by
  refine broadcast_joins.ok_iff.mpr ⟨List.forall_mem_map.mpr fun m member => ?_,fun u above => ?_⟩
  · exact (stretch m member).imp_right (congrArg known ·.symm)
  · rcases met with rfl | member
    · exact one_yields u
    · exact above _ (List.mem_map_of_mem member)

theorem set_entry {α : Type} {xs : List α} {i : Nat} {x : α} (entry : xs[i]? = some x) : xs.set i x = xs := by
  obtain ⟨inside,rfl⟩ := List.getElem?_eq_some_iff.mp entry
  exact List.set_getElem_self inside

theorem Shape.entry_within {s : Shape} {i : Nat} (inside : i < s.length) : s[i]? = some (s.getD i 0) := by
  simp [List.getD_eq_getElem?_getD,inside]

namespace ShapeFact

theorem length_ofShape (s : Shape) : (ofShape s).length = s.length := List.length_map _

-- Every extent is known, and which.
def Exactly (s : ShapeFact) (shape : Shape) : Prop := List.Forall₂ (fun d n => d = .known n) s shape

theorem exactly_ofShape (shape : Shape) : (ofShape shape).Exactly shape := by
  rw [Exactly,ofShape,List.forall₂_map_left_iff,List.forall₂_same]
  exact fun _ _ => rfl

theorem eq_of_exactly {s : ShapeFact} {shape : Shape} (exactly : s.Exactly shape) : s = ofShape shape := by
  induction exactly with
  | nil => rfl
  | cons head _ ih =>
    rw [head,ih]
    rfl

theorem place_ofShape {s : Shape} {i n : Nat} (entry : s[i]? = some n) : (ofShape s)[i]? = some (.known n) := by
  rw [ofShape,List.getElem?_map,entry]
  rfl

theorem extent_ofShape {s : Shape} {i n : Nat} (entry : s[i]? = some n) :
    (ofShape s).getD i .unknown = .known n := by
  rw [List.getD_eq_getElem?_getD,place_ofShape entry]
  rfl

theorem product_ofShape (s : Shape) : product? (ofShape s) = some s.size := by
  rw [product?,extents?_eq_some.mpr rfl]
  rfl

theorem getD_ofShape (s : Shape) (i n : Nat) : (ofShape s).getD i (.known n) = .known (s.getD i n) := by
  rw [ofShape,List.getD_eq_getElem?_getD,List.getElem?_map,Option.getD_map,List.getD_eq_getElem?_getD]

theorem axis_ofShape (s : Shape) (i : Nat) : (ofShape s).axis i = .known (s.extent i) := by
  rw [axis,ofShape,← List.map_reverse]
  exact getD_ofShape s.reverse i 1

theorem axes_ofShape (shapes : List Shape) (i : Nat) :
    (shapes.map ofShape).map (fun s => s.axis i) = (shapes.map fun s => s.extent i).map .known := by
  rw [List.map_map,List.map_map]
  exact List.map_congr_left fun s _ => axis_ofShape s i

theorem broadcast_exact {shapes : List Shape} {r : Shape} (stretched : Shape.Stretched shapes r) :
    broadcast (shapes.map ofShape) = .ok (ofShape r) := by
  have ranks : (shapes.map ofShape).map List.length = shapes.map List.length := by
    simp [ofShape]
  refine broadcast_axes.mpr ⟨by rw [ranks,stretched.foldl_max,length_ofShape],fun i => ?_⟩
  rw [axes_ofShape,axis_ofShape]
  refine Dim.broadcast_exact (List.forall_mem_map.mpr fun s member => stretched.stretch s member i) ?_
  refine (stretched.met i).imp_right ?_
  rintro ⟨s,member,equal⟩
  exact List.mem_map.mpr ⟨s,member,equal⟩

-- Nothing is learned from what is known already.
theorem unify_above {a b : Option ShapeFact} (below : Below? b a) : unify a b = .ok a :=
  joins.ok_of_least (below?_refl a) below fun _ above _ => above

end ShapeFact

namespace Fact

variable {t : Tensor} {d : Option DType}

theorem unknown_withDType (d : Option DType) : unknown.withDType d = .ok (.outline d none) := by
  cases d <;> rfl

theorem open_withDims (d : Option DType) (s : ShapeFact) :
    (outline d none).withDims s = .ok (.outline d (some s)) := by
  cases d <;> rfl

theorem constant_unify {s : Option ShapeFact} (dtype : ∀ e, d = some e → t.dtype = e)
    (shape : ShapeFact.Below? s (some (.ofShape t.shape))) :
    (constant t).unify (.outline d s) = .ok (constant t) := by
  refine unify_ok.mpr ⟨?_,ShapeFact.unify_above shape,rfl,nofun⟩
  cases d with
  | none => rfl
  | some e => exact if_pos (dtype e rfl)

theorem constant_withDType (t : Tensor) : (constant t).withDType (some t.dtype) = .ok (constant t) :=
  constant_unify (by simp) nofun

-- A fact that has been told its dims holds of what it held of before and what has such dims.
theorem accepts_withDims {f g : Fact} {s : ShapeFact} (found : f.withDims s = .ok g) :
    g.accepts t = true ↔ f.accepts t = true ∧ s.Fits t.shape := by
  unfold withDims withShape at found
  refine (accepts_unify found t).trans (and_congr_right fun _ => ?_)
  rw [accepts_outline]
  exact ⟨fun parts => ShapeFact.accepts_forall₂.mp (parts.2 s rfl),fun fits => ⟨nofun,fun _ known =>
    Option.some.inj known ▸ ShapeFact.accepts_forall₂.mpr fits⟩⟩

theorem constant_withDims {s : ShapeFact} (below : s.Below (.ofShape t.shape)) :
    (constant t).withDims s = .ok (constant t) :=
  constant_unify (d := none) nofun below.some

theorem constant_withShape (t : Tensor) : (constant t).withDims (.ofShape t.shape) = .ok (constant t) :=
  constant_withDims (ShapeFact.below_refl _)

theorem outline_withDims {s r : ShapeFact} (below : r.Below s) :
    (outline d (some s)).withDims r = .ok (outline d (some s)) := by
  change (outline d (some s)).unify (outline none (some r)) = _
  refine unify_ok.mpr ⟨?_,ShapeFact.unify_above below.some,rfl,nofun⟩
  cases d <;> rfl

theorem outline_gains {s r : ShapeFact} (below : s.Below r) :
    (outline d (some s)).withDims r = .ok (outline d (some r)) := by
  change (outline d (some s)).unify (outline none (some r)) = _
  refine unify_ok.mpr ⟨?_,ShapeFact.joins.comm (ShapeFact.unify_above below.some),rfl,nofun⟩
  cases d <;> rfl

theorem unifyAll_same {fs : List Fact} {f : Fact} (filled : fs ≠ []) (same : ∀ g ∈ fs, g = f)
    (self : f.unify f = .ok f) : unifyAll fs = .ok f := by
  cases fs with
  | nil => exact absurd rfl filled
  | cons g gs =>
    obtain ⟨rfl,later⟩ := List.forall_mem_cons.mp same
    rw [unifyAll,List.foldlM_cons,unknown_unify]
    exact foldlM_fixed fun h member => later h member ▸ self

end Fact

namespace Facts

-- What is known of given tensors.
def given (ts : List Tensor) : Facts := ts.map .constant

variable {fs : Facts} {ts : List Tensor} {t : Tensor} {d : DType} {s : Shape}

theorem shareDType_eq (same : ∀ f ∈ fs, ∀ e, f.dtype = some e → e = d) (known : ∃ f ∈ fs, f.dtype = some d) :
    fs.shareDType = fs.mapM (·.withDType (some d)) := by
  obtain ⟨f,member,dtype⟩ := known
  have entry : d ∈ fs.filterMap Fact.dtype := List.mem_filterMap.mpr ⟨f,member,dtype⟩
  have self : (Fact.outline (some d) none).unify (.outline (some d) none) = .ok (.outline (some d) none) := by
    simp [Fact.unify,Fact.isUnknown,Fact.dtype,Fact.shape,Fact.value,Fact.unifyDType,ShapeFact.unify]
  have all : ∀ g ∈ (fs.filterMap Fact.dtype).map fun e => Fact.outline (some e) none,
      g = .outline (some d) none := by
    refine List.forall_mem_map.mpr fun e found => ?_
    obtain ⟨g,other,dtype⟩ := List.mem_filterMap.mp found
    rw [same g other e dtype]
  unfold shareDType
  split
  · rename_i empty
    rw [empty] at entry
    cases entry
  · rw [Fact.unifyAll_same (by simpa using List.ne_nil_of_mem entry) all self]
    rfl

theorem shareShape_eq {r : ShapeFact} (same : ∀ f ∈ fs, ∀ q, f.shape = some q → q = r)
    (known : ∃ f ∈ fs, f.shape = some r) : fs.shareShape = fs.mapM (·.withDims r) := by
  obtain ⟨f,member,shape⟩ := known
  have entry : r ∈ fs.filterMap Fact.shape := List.mem_filterMap.mpr ⟨f,member,shape⟩
  have self : (Fact.outline none (some r)).unify (.outline none (some r)) = .ok (.outline none (some r)) :=
    Fact.unify_ok.mpr ⟨rfl,ShapeFact.unify_above (ShapeFact.below?_refl _),rfl,nofun⟩
  have all : ∀ g ∈ (fs.filterMap Fact.shape).map fun q => Fact.outline none (some q), g = .outline none (some r) := by
    refine List.forall_mem_map.mpr fun q found => ?_
    obtain ⟨g,other,shape⟩ := List.mem_filterMap.mp found
    rw [same g other q shape]
  unfold shareShape
  split
  · rename_i empty
    rw [empty] at entry
    cases entry
  · rw [Fact.unifyAll_same (by simpa using List.ne_nil_of_mem entry) all self]
    rfl

-- Shapes that are wholly known give the output what they stretch to; nothing is left to learn of the inputs.
theorem broadcast_concrete {o : Option DType} {shapes : List Shape}
    (known : fs.map Fact.shape = (shapes.map ShapeFact.ofShape).map some) (stretched : Shape.Stretched shapes s) :
    broadcast fs (.outline o none) = .ok (fs,.outline o (some (.ofShape s))) := by
  have all : (fs.map Fact.shape).mapM id = some (shapes.map ShapeFact.ofShape) := by
    rw [known,mapM_some,List.forall₂_map_left_iff,List.forall₂_same]
    exact fun _ _ => rfl
  have forward : stretchOutput fs (.outline o none) = .ok (.outline o (some (.ofShape s))) := by
    unfold stretchOutput
    rw [all]
    dsimp only
    rw [ShapeFact.broadcast_exact stretched,ok_bind,Fact.open_withDims]
  have full : refill fs (.ofShape s) = .ok fs := by
    have none : positions Option.isNone (fs.map Fact.shape) = [] := by
      refine List.eq_nil_iff_forall_not_mem.mpr fun i found => ?_
      obtain ⟨r,entry,open_⟩ := mem_positions.mp found
      rw [known] at entry
      obtain ⟨_,-,rfl⟩ := List.mem_map.mp (List.mem_of_getElem? entry)
      cases open_
    unfold refill
    rw [none]
  have ranks : checkRanks fs (.ofShape s) = .ok ⟨⟩ := by
    refine loop_passes ?_
    rintro ⟨r,i⟩ member
    have entry := List.mem_of_getElem? (List.mem_zipIdx_iff_getElem?.mp member)
    rw [known] at entry
    obtain ⟨_,found,rfl⟩ := List.mem_map.mp entry
    obtain ⟨shape,other,rfl⟩ := List.mem_map.mp found
    have short := stretched.short shape other
    dsimp only
    rw [if_neg (by simpa [ShapeFact.ofShape] using short)]
    rfl
  rw [broadcast_eq,forward,ok_bind]
  unfold stretchInputs
  dsimp only [Fact.shape]
  rw [full,ok_bind,ranks]
  rfl

end Facts

end TensorGraph
