import TensorGraph.Proofs.Fact.Broadcast
import TensorGraph.Proofs.Op.Exact.Elementwise
import TensorGraph.Proofs.Op.Wrapped

namespace TensorGraph
open Outcome Facts

namespace Shape

variable {ss ss' : List Shape} {r : Shape}

theorem nil_broadcast? (s : Shape) : broadcast? [] s = some s := by
  have alone := broadcastAll?_iff.mpr (stretched_one s)
  rw [broadcastAll?,List.foldlM_cons,Option.bind_eq_bind,Option.bind_eq_some_iff] at alone
  obtain ⟨r,met,equal⟩ := alone
  cases equal
  exact met

theorem broadcastAll?_cons (s : Shape) (ss : List Shape) : broadcastAll? (s :: ss) = ss.foldlM broadcast? s := by
  rw [broadcastAll?,List.foldlM_cons,nil_broadcast?]
  rfl

theorem Stretched.perm (stretched : Stretched ss r) (perm : ss.Perm ss') : Stretched ss' r where
  short s member := stretched.short s (perm.mem_iff.mpr member)
  rank := stretched.rank.imp_right fun ⟨s,member,equal⟩ => ⟨s,perm.mem_iff.mp member,equal⟩
  stretch s member := stretched.stretch s (perm.mem_iff.mpr member)
  met i := (stretched.met i).imp_right fun ⟨s,member,equal⟩ => ⟨s,perm.mem_iff.mp member,equal⟩

theorem broadcastAll?_perm (perm : ss.Perm ss') : broadcastAll? ss = broadcastAll? ss' := by
  refine Option.ext fun r => ?_
  rw [broadcastAll?_iff,broadcastAll?_iff]
  exact ⟨fun stretched => stretched.perm perm,fun stretched => stretched.perm perm.symm⟩

end Shape

-- A fact that has been told an element type which does not contradict it.
def Fact.typed (d : Option DType) : Fact → Fact
  | .constant t => .constant t
  | .outline _ s => .outline d s

theorem Fact.typed_shape (d : Option DType) (f : Fact) : (f.typed d).shape = f.shape := by
  cases f <;> rfl

theorem Fact.typed_dtype {d : Option DType} {f : Fact} (same : ∀ e, f.dtype = some e → d = some e) :
    (f.typed d).dtype = d := by
  cases f with
  | constant t => exact (same t.dtype rfl).symm
  | outline => rfl

theorem Fact.withDType_typed {d : Option DType} {f : Fact} (same : ∀ e, f.dtype = some e → d = some e) :
    f.withDType d = .ok (f.typed d) := by
  cases f with
  | constant t =>
    obtain rfl := same t.dtype rfl
    exact constant_withDType t
  | outline e s =>
    refine unify_ok.mpr ⟨?_,?_,rfl,nofun⟩
    · cases e with
      | none => cases d <;> rfl
      | some e =>
        obtain rfl := same e rfl
        exact if_pos rfl
    · cases s <;> rfl

namespace Facts

variable {d d' : Option DType} {fs gs xs ys : Facts} {shapes : List Shape} {r : Facts × Fact}

-- The element type that is known of any of the tensors is one, or none is known.
def Shares (d : Option DType) (fs : Facts) : Prop := ∀ e, (∃ f ∈ fs, f.dtype = some e) ↔ d = some e

theorem Shares.same (shares : Shares d fs) {f : Fact} (member : f ∈ fs) : ∀ e, f.dtype = some e → d = some e :=
  fun e known => (shares e).mp ⟨f,member,known⟩

theorem shares_one (f : Fact) : Shares f.dtype [f] := by simp [Shares]

theorem Shares.part (shares : Shares d (xs ++ ys)) : ∃ d', Shares d' xs ∧ ∀ e, d' = some e → d = some e := by
  by_cases known : ∃ f ∈ xs, ∃ e, f.dtype = some e
  · obtain ⟨f,member,e,dtype⟩ := known
    obtain rfl := shares.same (List.mem_append_left ys member) e dtype
    refine ⟨some e,fun e' => ⟨?_,?_⟩,fun _ equal => equal⟩
    · rintro ⟨g,other,dtype'⟩
      exact shares.same (List.mem_append_left ys other) e' dtype'
    · rintro ⟨⟩
      exact ⟨f,member,dtype⟩
  · refine ⟨none,fun e => ⟨?_,nofun⟩,nofun⟩
    rintro ⟨f,member,dtype⟩
    exact absurd ⟨f,member,e,dtype⟩ known

-- Facts that share a type stand for it, all together.
theorem shares_regroup (shares : Shares d' xs) {x : Fact} (dtype : x.dtype = d') :
    Shares d (x :: ys) ↔ Shares d (xs ++ ys) := by
  refine forall_congr' fun e => iff_congr ?_ Iff.rfl
  have here := shares e
  simp only [List.exists_mem_cons_iff,List.mem_append,or_and_right,exists_or,dtype,here]

theorem shares_unknown : Shares d (fs ++ [.unknown]) ↔ Shares d fs := by
  refine forall_congr' fun e => iff_congr ?_ Iff.rfl
  simp [or_and_right,exists_or,Fact.unknown,Fact.dtype]

theorem shareDType_told (shares : Shares d fs) : fs.shareDType = .ok (fs.map (Fact.typed d)) := by
  have each : fs.mapM (·.withDType d) = .ok (fs.map (Fact.typed d)) :=
    mapM_eq_map fun f member => Fact.withDType_typed (shares.same member)
  cases d with
  | some e =>
    have all (f : Fact) (member : f ∈ fs) (e' : DType) (dtype : f.dtype = some e') : e' = e :=
      (Option.some.inj (shares.same member e' dtype)).symm
    rw [shareDType_eq all ((shares e).mpr rfl),each]
  | none =>
    have open_ : fs.filterMap Fact.dtype = [] := by
      refine List.filterMap_eq_nil_iff.mpr fun f member => Option.eq_none_iff_forall_ne_some.mpr fun e known => ?_
      cases shares.same member e known
    have idle : fs.mapM (·.withDType none) = .ok fs := by
      have same : fs.map id = fs := List.map_id fs
      exact (mapM_eq_map fun f _ => rfl).trans (congrArg Except.ok same)
    rw [← each,idle,shareDType,open_]

-- Sharing succeeds just where the facts share a type, and tells it to all of them.
theorem shareDType_iff : fs.shareDType = .ok gs ↔ ∃ d, Shares d fs ∧ gs = fs.map (Fact.typed d) := by
  constructor
  · intro shared
    suffices agreed : ∃ d, Shares d fs by
      obtain ⟨d,shares⟩ := agreed
      exact ⟨d,shares,Except.ok.inj (shared.symm.trans (shareDType_told shares))⟩
    by_cases known : ∃ f ∈ fs, ∃ e, f.dtype = some e
    · obtain ⟨f,member,e,dtype⟩ := known
      have below := shareDType_below shared
      obtain ⟨g,other,low⟩ := forall₂_left below f member
      have all := shareDType_dtype shared ⟨g,other,low.dtype e dtype⟩
      refine ⟨some e,fun e' => ⟨?_,?_⟩⟩
      · rintro ⟨f',member',dtype'⟩
        obtain ⟨g',other',low'⟩ := forall₂_left below f' member'
        exact (all g' other').symm.trans (low'.dtype e' dtype')
      · rintro ⟨⟩
        exact ⟨f,member,dtype⟩
    · refine ⟨none,fun e => ⟨?_,nofun⟩⟩
      rintro ⟨f,member,dtype⟩
      exact absurd ⟨f,member,e,dtype⟩ known
  · rintro ⟨d,shares,rfl⟩
    exact shareDType_told shares

-- The shapes are wholly known.
def Concrete (fs : Facts) (shapes : List Shape) : Prop := fs.map Fact.shape = (shapes.map ShapeFact.ofShape).map some

-- Facts that were told a type leave the shape of the output to be found.
theorem broadcast_typed (known : Concrete fs shapes) (d : Option DType) :
    broadcast (fs.map (Fact.typed d)) (.outline d none) = .ok r ↔ ∃ s, Shape.broadcastAll? shapes = some s ∧
      r = (fs.map (Fact.typed d),.outline d (some (.ofShape s))) := by
  have told : Concrete (fs.map (Fact.typed d)) shapes := by
    unfold Concrete
    rw [List.map_map]
    simp only [Function.comp_def,Fact.typed_shape]
    exact known
  constructor
  · intro found
    have all : ((fs.map (Fact.typed d)).map Fact.shape).mapM id = some (shapes.map ShapeFact.ofShape) := by
      rw [told,mapM_some,List.forall₂_map_left_iff,List.forall₂_same]
      exact fun _ _ => rfl
    have stretched := found
    rw [broadcast_eq,stretchOutput,all] at stretched
    obtain ⟨_,forward,-⟩ := bind_ok.mp stretched
    obtain ⟨dims,met,-⟩ := bind_ok.mp forward
    obtain ⟨s,meets,-⟩ := ShapeFact.broadcast_stretches shapes met
    rw [broadcast_concrete told (Shape.stretched_all meets)] at found
    exact ⟨s,meets,(Except.ok.inj found).symm⟩
  · rintro ⟨s,met,rfl⟩
    exact broadcast_concrete told (Shape.stretched_all met)

end Facts

theorem Shape.broadcastAll?_next {s t r : Shape} {ss : List Shape} : broadcastAll? (s :: t :: ss) = some r ↔
    ∃ near, broadcast? s t = some near ∧ broadcastAll? (near :: ss) = some r := by
  simp only [broadcastAll?_cons,List.foldlM_cons,Option.bind_eq_bind,Option.bind_eq_some_iff]

theorem Shape.broadcastAll?_two (s t : Shape) : broadcastAll? [s,t] = broadcast? s t := by
  rw [broadcastAll?_cons,List.foldlM_cons]
  exact bind_pure (broadcast? s t)

namespace BinaryKind

variable {k : BinaryKind} {a b : Fact} {s t : Shape} {r : Facts × Facts}

-- The types of a kind that computes in the type of its operands, where nothing is known of the output.
theorem shareTypes_iff (computes : k.isComparison = false) {p : Facts × Fact} : k.shareTypes [a,b] [.unknown] = .ok p ↔
    ∃ d, Shares d [a,b] ∧ (∀ e, d = some e → k.supports e = true) ∧ p = ([a,b].map (Fact.typed d),.outline d none) := by
  have rest {d : Option DType} (shares : Shares d [a,b]) : (do
      Fact.require (fun t => if k.supports t then .ok () else fail (.unsupportedDType k.opType t))
        (Facts.first ([a,b].map (Fact.typed d)))
      if k.isComparison then return ([a,b].map (Fact.typed d),← (Facts.first [.unknown]).withDType (some .bool))
      else passType ([a,b].map (Fact.typed d)) (Facts.first [.unknown])) = .ok p ↔
      (∀ e, d = some e → k.supports e = true) ∧ p = ([a,b].map (Fact.typed d),.outline d none) := by
    have dtype : (Facts.first ([a,b].map (Fact.typed d))).dtype = d :=
      Fact.typed_dtype (shares.same List.mem_cons_self)
    unfold Fact.require passType
    rw [dtype,computes]
    cases d with
    | none => exact ⟨fun told => ⟨nofun,(Except.ok.inj told).symm⟩,fun ⟨_,same⟩ => congrArg Except.ok same.symm⟩
    | some e =>
      dsimp only
      by_cases supported : k.supports e = true
      · rw [if_pos supported]
        exact ⟨fun told => ⟨fun _ same => Option.some.inj same ▸ supported,(Except.ok.inj told).symm⟩,
          fun ⟨_,same⟩ => congrArg Except.ok same.symm⟩
      · rw [if_neg supported]
        exact ⟨nofun,fun ⟨all,_⟩ => absurd (all e rfl) supported⟩
  unfold shareTypes
  rw [bind_ok]
  constructor
  · rintro ⟨fs,shared,found⟩
    obtain ⟨d,shares,rfl⟩ := shareDType_iff.mp shared
    exact ⟨d,shares,(rest shares).mp found⟩
  · rintro ⟨d,shares,found⟩
    exact ⟨_,shareDType_told shares,(rest shares).mpr found⟩

theorem infer_concrete (computes : k.isComparison = false) (known : Concrete [a,b] [s,t]) :
    k.infer [a,b] [.unknown] = .ok r ↔ ∃ d shape, Shares d [a,b] ∧ (∀ e, d = some e → k.supports e = true) ∧
      Shape.broadcast? s t = some shape ∧ r = ([a,b].map (Fact.typed d),[.outline d (some (.ofShape shape))]) := by
  rw [infer_eq,bind_ok,← Shape.broadcastAll?_two]
  constructor
  · rintro ⟨p,typed,found⟩
    obtain ⟨d,shares,supported,rfl⟩ := (shareTypes_iff computes).mp typed
    obtain ⟨q,stretched,equal⟩ := bind_ok.mp found
    cases equal
    obtain ⟨shape,met,rfl⟩ := (broadcast_typed known d).mp stretched
    exact ⟨d,shape,shares,supported,met,rfl⟩
  · rintro ⟨d,shape,shares,supported,met,rfl⟩
    have stretched := (broadcast_typed known d).mpr ⟨shape,met,rfl⟩
    exact ⟨_,(shareTypes_iff computes).mpr ⟨d,shares,supported,rfl⟩,bind_ok.mpr ⟨_,stretched,rfl⟩⟩

end BinaryKind

namespace AddN

variable {fs : Facts} {shapes : List Shape} {r : Facts × Facts}

theorem infer_concrete (known : Concrete fs shapes) : infer fs [.unknown] = .ok r ↔ ∃ d shape, Shares d fs ∧
    Shape.broadcastAll? shapes = some shape ∧ r = (fs.map (Fact.typed d),[.outline d (some (.ofShape shape))]) := by
  have ends (d : Option DType) : (fs ++ Facts.pad [.unknown] 1).map (Fact.typed d) =
      fs.map (Fact.typed d) ++ [.outline d none] := by
    rw [List.map_append]
    rfl
  unfold infer
  rw [bind_ok]
  constructor
  · rintro ⟨all,shared,found⟩
    obtain ⟨d,shares,rfl⟩ := shareDType_iff.mp shared
    rw [ends,List.dropLast_concat,List.getLastD_concat] at found
    obtain ⟨q,stretched,equal⟩ := bind_ok.mp found
    cases equal
    obtain ⟨shape,met,rfl⟩ := (broadcast_typed known d).mp stretched
    exact ⟨d,shape,shares_unknown.mp shares,met,rfl⟩
  · rintro ⟨d,shape,shares,met,rfl⟩
    refine ⟨_,shareDType_told (shares_unknown.mpr shares),?_⟩
    rw [ends,List.dropLast_concat,List.getLastD_concat]
    have stretched := (broadcast_typed known d).mpr ⟨shape,met,rfl⟩
    exact bind_ok.mpr ⟨_,stretched,rfl⟩

-- What a chain of binary sums finds of its result, one operand after the other.
def chain (first : Fact) (rest : Facts) : Outcome Fact :=
  rest.foldlM (fun sofar f => do return Facts.first (← (Op.binary .add).infer [sofar,f] [.unknown]).2) first

theorem link_iff {a b c : Fact} {s t : Shape} (known : Concrete [a,b] [s,t]) :
    (do return Facts.first (← (Op.binary .add).infer [a,b] [.unknown]).2) = Except.ok c ↔
      ∃ d shape, Shares d [a,b] ∧ (∀ e, d = some e → e.isNumeric = true) ∧ Shape.broadcast? s t = some shape ∧
        c = .outline d (some (.ofShape shape)) := by
  rw [bind_ok]
  constructor
  · rintro ⟨r,found,equal⟩
    obtain ⟨d,shape,shares,numeric,met,rfl⟩ := (BinaryKind.infer_concrete rfl known).mp found
    cases equal
    exact ⟨d,shape,shares,numeric,met,rfl⟩
  · rintro ⟨d,shape,shares,numeric,met,rfl⟩
    exact ⟨_,(BinaryKind.infer_concrete rfl known).mpr ⟨d,shape,shares,numeric,met,rfl⟩,rfl⟩

theorem chain_cons {f g c : Fact} : chain f (g :: fs) = .ok c ↔
    ∃ link, (do return Facts.first (← (Op.binary .add).infer [f,g] [.unknown]).2) = Except.ok link ∧
      chain link fs = .ok c := by
  unfold chain
  rw [List.foldlM_cons,bind_ok]

-- A chain of one operand is the operand. A longer one asks at each link for a type that can be added.
theorem chain_iff {f g c : Fact} {s t : Shape} (known : Concrete (f :: g :: fs) (s :: t :: shapes)) :
    chain f (g :: fs) = .ok c ↔ ∃ d shape, Shares d (f :: g :: fs) ∧ (∀ e, d = some e → e.isNumeric = true) ∧
      Shape.broadcastAll? (s :: t :: shapes) = some shape ∧ c = .outline d (some (.ofShape shape)) := by
  induction fs generalizing f g s t shapes with
  | nil =>
    obtain rfl : shapes = [] := by simpa [Concrete] using congrArg (List.drop 2) known
    rw [chain_cons,Shape.broadcastAll?_two]
    constructor
    · rintro ⟨link,linked,equal⟩
      cases equal
      exact (link_iff known).mp linked
    · exact fun found => ⟨c,(link_iff known).mpr found,rfl⟩
  | cons h fs ih =>
    obtain ⟨v,shapes,rfl⟩ : ∃ v rest, shapes = v :: rest := by
      cases shapes with
      | nil => simp [Concrete] at known
      | cons v rest => exact ⟨v,rest,rfl⟩
    have head : Concrete [f,g] [s,t] := congrArg (List.take 2) known
    have later (d : Option DType) (near : Shape) :
        Concrete (.outline d (some (.ofShape near)) :: h :: fs) (near :: v :: shapes) :=
      congrArg (some (ShapeFact.ofShape near) :: ·) (congrArg (List.drop 2) known)
    rw [chain_cons]
    constructor
    · rintro ⟨link,linked,chained⟩
      obtain ⟨d',near,shares',-,first,rfl⟩ := (link_iff head).mp linked
      obtain ⟨d,shape,shares,numeric,rest,rfl⟩ := (ih (later d' near)).mp chained
      exact ⟨d,shape,(shares_regroup shares' rfl).mp shares,numeric,
        Shape.broadcastAll?_next.mpr ⟨near,first,rest⟩,rfl⟩
    · rintro ⟨d,shape,shares,numeric,met,rfl⟩
      obtain ⟨d',shares',known'⟩ := (show Shares d ([f,g] ++ h :: fs) from shares).part
      obtain ⟨near,first,rest⟩ := Shape.broadcastAll?_next.mp met
      refine ⟨_,(link_iff head).mpr ⟨d',near,shares',fun e here => numeric e (known' e here),first,rfl⟩,?_⟩
      exact (ih (later d' near)).mpr ⟨d,shape,(shares_regroup shares' rfl).mpr shares,numeric,rest,rfl⟩

variable {t u : Tensor} {ts : List Tensor} {signed : Bool} {bits : Nat}

theorem add_iff {a b : Tensor} : BinaryKind.add.eval a b = .ok u ↔ b.dtype = a.dtype ∧ a.dtype.isNumeric = true ∧
    (∃ shape, Shape.broadcast? a.shape b.shape = some shape) ∧ u = sum a b := by
  have summed {shape : Shape} (met : Shape.broadcast? a.shape b.shape = some shape) :
      sum a b = .combine a.dtype (BinaryKind.add.onScalars a.dtype) a b shape := by
    rw [sum,Tensor.zipWith?,met]
    rfl
  constructor
  · intro evaluated
    obtain ⟨same,numeric,shape,met,rfl⟩ := BinaryKind.eval_ok evaluated
    exact ⟨same,numeric,⟨shape,met⟩,(summed met).symm⟩
  · rintro ⟨same,numeric,⟨shape,met⟩,rfl⟩
    have supported : BinaryKind.add.supports a.dtype = true := numeric
    unfold BinaryKind.eval
    rw [if_pos same.symm,if_pos supported,met,summed met]
    rfl

theorem fold_iff {sofar : Tensor} (numeric : sofar.dtype.isNumeric = true) :
    ts.foldlM BinaryKind.add.eval sofar = .ok u ↔ (∀ t ∈ ts, t.dtype = sofar.dtype) ∧
      (∃ shape, (ts.map Tensor.shape).foldlM Shape.broadcast? sofar.shape = some shape) ∧ u = ts.foldl sum sofar := by
  induction ts generalizing sofar with
  | nil => exact ⟨fun equal => by cases equal; exact ⟨nofun,⟨_,rfl⟩,rfl⟩,fun ⟨_,_,equal⟩ => congrArg Except.ok equal.symm⟩
  | cons t ts ih =>
    rw [List.foldlM_cons,bind_ok]
    constructor
    · rintro ⟨next,first,rest⟩
      obtain ⟨same,-,⟨near,met⟩,rfl⟩ := add_iff.mp first
      obtain ⟨dtype,shape⟩ := sum_parts met
      obtain ⟨others,⟨far,later⟩,rfl⟩ := (ih (dtype ▸ numeric)).mp rest
      rw [dtype] at others
      rw [shape] at later
      refine ⟨List.forall_mem_cons.mpr ⟨same,others⟩,⟨far,?_⟩,rfl⟩
      rw [List.map_cons,List.foldlM_cons,met]
      exact later
    · rintro ⟨all,⟨far,met⟩,rfl⟩
      obtain ⟨same,others⟩ := List.forall_mem_cons.mp all
      rw [List.map_cons,List.foldlM_cons,Option.bind_eq_bind,Option.bind_eq_some_iff] at met
      obtain ⟨near,here,later⟩ := met
      obtain ⟨dtype,shape⟩ := sum_parts here
      refine ⟨sum sofar t,add_iff.mpr ⟨same,numeric,⟨near,here⟩,rfl⟩,(ih (dtype ▸ numeric)).mpr ⟨?_,⟨far,?_⟩,rfl⟩⟩
      · rwa [dtype]
      · rwa [shape]

theorem eval_numeric (evaluated : eval t ts = .ok u) : t.dtype.isNumeric = true := by
  unfold eval at evaluated
  dsimp only at evaluated
  split at evaluated
  · split at evaluated
    · assumption
    · cases evaluated
  · cases evaluated

-- The sum of all is what binary sums of one tensor after the other come to, if the first can be added at all.
theorem eval_iff_fold : eval t ts = .ok u ↔ t.dtype.isNumeric = true ∧ ts.foldlM BinaryKind.add.eval t = .ok u := by
  constructor
  · intro evaluated
    obtain ⟨same,shape,-,later,rfl⟩ := eval_ok evaluated
    have numeric := eval_numeric evaluated
    exact ⟨numeric,(fold_iff numeric).mpr ⟨fun s member => same s (List.mem_cons_of_mem t member),⟨shape,later⟩,rfl⟩⟩
  · rintro ⟨numeric,folded⟩
    obtain ⟨same,⟨shape,later⟩,rfl⟩ := (fold_iff numeric).mp folded
    have all : (t :: ts).all (·.dtype == t.dtype) = true := by simpa using same
    have met : Shape.broadcastAll? ((t :: ts).map Tensor.shape) = some shape := by
      rw [List.map_cons,Shape.broadcastAll?_cons,later]
    unfold eval
    dsimp only
    rw [if_pos all,if_pos numeric,met]
    rfl

-- Integers are added without bound at each index, and wrapped once.
def summed (d : DType) (signed : Bool) (bits : Nat) (ts : List Tensor) (shape : Shape) : Tensor :=
  .tabulate d shape fun index => .int (DType.wrap signed bits (total ts index))

theorem eval_integers (formed : ∀ x ∈ t :: ts, x.WellFormed) (integer : t.dtype.layout = .integer signed bits) :
    eval t ts = .ok u ↔ (∀ x ∈ t :: ts, x.dtype = t.dtype) ∧ ∃ shape,
      Shape.broadcastAll? ((t :: ts).map Tensor.shape) = some shape ∧ u = summed t.dtype signed bits (t :: ts) shape := by
  have made {v : Tensor} (evaluated : eval t ts = .ok v) : v = summed t.dtype signed bits (t :: ts) v.shape := by
    obtain ⟨same,dtype,met⟩ := eval_parts evaluated
    have proper : ∀ x ∈ t :: ts, x.Proper := by
      refine fun x member => ⟨formed x member,fun f b float => ?_⟩
      rw [same x member,integer] at float
      cases float
    have meant : exact (t :: ts) = some (v.shape.indices.map (total (t :: ts))) := by
      rw [exact,met]
      rfl
    have wraps := eval_wraps proper evaluated meant signed bits (dtype ▸ integer)
    rw [List.map_map] at wraps
    obtain ⟨d,shape,data⟩ := v
    obtain rfl : d = t.dtype := dtype
    exact congrArg (Tensor.mk t.dtype shape) wraps
  constructor
  · intro evaluated
    obtain ⟨same,-,met⟩ := eval_parts evaluated
    exact ⟨same,_,met,made evaluated⟩
  · rintro ⟨same,shape,met,rfl⟩
    have numeric := DType.isNumeric_of_layout integer
    have later := met
    rw [List.map_cons,Shape.broadcastAll?_cons] at later
    have evaluated := eval_iff_fold.mpr ⟨numeric,(fold_iff numeric).mpr
      ⟨fun x member => same x (List.mem_cons_of_mem t member),⟨shape,later⟩,rfl⟩⟩
    obtain ⟨-,-,reached⟩ := eval_parts evaluated
    rw [evaluated,made evaluated,Option.some.inj (met.symm.trans reached)]

-- So their order does not matter.
theorem eval_perm {s : Tensor} {ss : List Tensor} (formed : ∀ x ∈ t :: ts, x.WellFormed)
    (integer : t.dtype.isInteger = true) (perm : (t :: ts).Perm (s :: ss)) (evaluated : eval t ts = .ok u) :
    eval s ss = .ok u := by
  obtain ⟨signed,bits,integer⟩ := DType.isInteger_iff.mp integer
  obtain ⟨same,shape,met,rfl⟩ := (eval_integers formed integer).mp evaluated
  have types : ∀ x ∈ s :: ss, x.dtype = t.dtype := fun x member => same x (perm.mem_iff.mpr member)
  have first := types s List.mem_cons_self
  have totals : total (t :: ts) = total (s :: ss) := funext fun index => List.Perm.sum_eq (perm.map _)
  refine (eval_integers (fun x member => formed x (perm.mem_iff.mpr member)) (first ▸ integer)).mpr
    ⟨fun x member => (types x member).trans first.symm,shape,?_,?_⟩
  · exact Shape.broadcastAll?_perm (perm.map Tensor.shape) ▸ met
  · rw [summed,summed,totals,first]

theorem eval_perm_iff {s : Tensor} {ss : List Tensor} (formed : ∀ x ∈ t :: ts, x.WellFormed)
    (integer : t.dtype.isInteger = true) (perm : (t :: ts).Perm (s :: ss)) : eval t ts = .ok u ↔ eval s ss = .ok u := by
  refine ⟨eval_perm formed integer perm,fun evaluated => ?_⟩
  have first := (eval_ok evaluated).1 t (perm.mem_iff.mp List.mem_cons_self)
  exact eval_perm (fun x member => formed x (perm.mem_iff.mpr member)) (first ▸ integer) perm.symm evaluated

-- Where the chain finds a shape, so does the rule of the sum, and the same.
theorem chain_infer {f : Fact} (known : ∀ g ∈ f :: fs, ∃ s, g.shape = some (.ofShape s)) :
    ((∃ c, chain f fs = .ok c) ↔ (∃ r, infer (f :: fs) [.unknown] = .ok r) ∧
      (fs = [] ∨ ∀ g ∈ f :: fs, ∀ d, g.dtype = some d → d.isNumeric = true)) ∧
    ∀ c r, chain f fs = .ok c → infer (f :: fs) [.unknown] = .ok r →
      ∃ s, c.shape = some (.ofShape s) ∧ (Facts.first r.2).shape = some (.ofShape s) := by
  obtain ⟨shapes,each⟩ := exists_forall₂ known
  have concrete : Concrete (f :: fs) shapes := by
    unfold Concrete
    rw [List.map_map,← List.forall₂_eq_eq_eq,List.forall₂_map_left_iff,List.forall₂_map_right_iff]
    exact each
  have answer {r : Facts × Facts} := infer_concrete (r := r) concrete
  cases each with
  | @cons _ s _ rest first later =>
  cases later with
  | nil =>
    have alone : Shape.broadcastAll? [s] = some s := Shape.broadcastAll?_cons s []
    refine ⟨⟨fun _ => ⟨⟨_,answer.mpr ⟨_,s,shares_one f,alone,rfl⟩⟩,.inl rfl⟩,fun _ => ⟨f,rfl⟩⟩,?_⟩
    intro c r chained inferred
    cases chained
    obtain ⟨_,_,-,met,rfl⟩ := answer.mp inferred
    cases alone.symm.trans met
    exact ⟨s,first,rfl⟩
  | @cons g t fs rest second later =>
    refine ⟨⟨?_,?_⟩,?_⟩
    · rintro ⟨c,chained⟩
      obtain ⟨d,shape,shares,numeric,met,rfl⟩ := (chain_iff concrete).mp chained
      exact ⟨⟨_,answer.mpr ⟨d,shape,shares,met,rfl⟩⟩,.inr fun g member e dtype => numeric e (shares.same member e dtype)⟩
    · rintro ⟨⟨r,inferred⟩,typed⟩
      obtain ⟨d,shape,shares,met,rfl⟩ := answer.mp inferred
      have numeric := typed.resolve_left (List.cons_ne_nil g fs)
      refine ⟨_,(chain_iff concrete).mpr ⟨d,shape,shares,fun e here => ?_,met,rfl⟩⟩
      obtain ⟨g,member,dtype⟩ := (shares e).mpr here
      exact numeric g member e dtype
    · intro c r chained inferred
      obtain ⟨_,shape,-,-,met,rfl⟩ := (chain_iff concrete).mp chained
      obtain ⟨_,_,-,met',rfl⟩ := answer.mp inferred
      cases met.symm.trans met'
      exact ⟨shape,rfl,rfl⟩

-- A sum of many is a chain of binary sums: it is evaluated as the chain is, integers in any order, and from known
-- shapes the same shape is found or both refuse. Only an element type that cannot be added is refused by the chain
-- alone: its links ask for the type where the rule of the sum does not, although its evaluation does.
theorem eval_chain (t : Tensor) (ts : List Tensor) (f : Fact) (fs : Facts) :
    (∀ os, Op.addN.eval (t :: ts) = .ok os ↔ t.dtype.isNumeric = true ∧
      ∃ u, ts.foldlM BinaryKind.add.eval t = .ok u ∧ os = [u]) ∧
    (∀ s ss os, (∀ x ∈ t :: ts, x.WellFormed) → t.dtype.isInteger = true → (t :: ts).Perm (s :: ss) →
      (Op.addN.eval (t :: ts) = .ok os ↔ Op.addN.eval (s :: ss) = .ok os)) ∧
    ((∀ g ∈ f :: fs, ∃ s, g.shape = some (.ofShape s)) →
      ((∃ c, chain f fs = .ok c) ↔ (∃ r, Op.addN.infer (f :: fs) [.unknown] = .ok r) ∧
        (fs = [] ∨ ∀ g ∈ f :: fs, ∀ d, g.dtype = some d → d.isNumeric = true)) ∧
      ∀ c r, chain f fs = .ok c → Op.addN.infer (f :: fs) [.unknown] = .ok r →
        ∃ s, c.shape = some (.ofShape s) ∧ (Facts.first r.2).shape = some (.ofShape s)) := by
  have one {t : Tensor} {ts os : List Tensor} :
      Op.addN.eval (t :: ts) = .ok os ↔ ∃ u, eval t ts = .ok u ∧ [u] = os := map_ok
  refine ⟨fun os => ?_,fun s ss os formed integer perm => ?_,fun known => chain_infer known⟩
  · simp only [one,eval_iff_fold,and_assoc,exists_and_left,eq_comm (a := os)]
  · rw [one,one]
    exact exists_congr fun u => and_congr_left fun _ => eval_perm_iff formed integer perm

def pairOf (d : DType) : Fact := .outline (some d) (some (.ofShape [2]))

theorem pairs_infer (d : DType) :
    infer [pairOf d,pairOf d] [.unknown] = .ok ([pairOf d,pairOf d],[pairOf d]) := by
  have shares : Shares (some d) [pairOf d,pairOf d] := by simp [Shares,pairOf,Fact.dtype]
  have known : Concrete [pairOf d,pairOf d] [[2],[2]] := rfl
  exact (infer_concrete known).mpr ⟨some d,[2],shares,rfl,rfl⟩

theorem eval_chain_octets : (∀ x ∈ [Op.octets,Op.addends], x.WellFormed) ∧
    [Op.addends].foldlM BinaryKind.add.eval Op.octets = .ok Op.octetSums ∧
    Op.addN.eval [Op.octets,Op.addends] = .ok [Op.octetSums] ∧
    Op.addN.eval [Op.addends,Op.octets] = .ok [Op.octetSums] ∧
    ∃ c, chain (pairOf .u8) [pairOf .u8] = .ok c := by
  have formed : ∀ x ∈ [Op.octets,Op.addends], x.WellFormed := by
    refine List.forall_mem_cons.mpr ⟨⟨rfl,?_⟩,List.forall_mem_singleton.mpr ⟨rfl,?_⟩⟩
    · simp [Op.octets,Scalar.Fits,DType.layout,DType.lowest,DType.highest]
    · simp [Op.addends,Scalar.Fits,DType.layout,DType.lowest,DType.highest]
  have folded : [Op.addends].foldlM BinaryKind.add.eval Op.octets = .ok Op.octetSums := rfl
  obtain ⟨chained,reordered,inferred⟩ := eval_chain Op.octets [Op.addends] (pairOf .u8) [pairOf .u8]
  have evaluated := (chained _).mpr ⟨rfl,_,folded,rfl⟩
  have swapped := (reordered Op.addends [Op.octets] _ formed rfl (.swap _ _ _)).mp evaluated
  have known : ∀ f ∈ [pairOf .u8,pairOf .u8], ∃ s, f.shape = some (.ofShape s) := by
    rintro f member
    obtain rfl : f = pairOf .u8 := by simpa using member
    exact ⟨[2],rfl⟩
  have numeric : ∀ f ∈ [pairOf .u8,pairOf .u8], ∀ d, f.dtype = some d → d.isNumeric = true := by
    rintro f member d dtype
    obtain rfl : f = pairOf .u8 := by simpa using member
    cases dtype
    rfl
  exact ⟨formed,folded,evaluated,swapped,(inferred known).1.mpr ⟨⟨_,pairs_infer .u8⟩,.inr numeric⟩⟩

-- Nothing is held against a sum of truth values until it is evaluated; the chain refuses at its first link.
theorem infer_truths : (∃ r, Op.addN.infer [pairOf .bool,pairOf .bool] [.unknown] = .ok r ∧
      (Facts.first r.2).shape = some (.ofShape [2])) ∧
    (∃ e, chain (pairOf .bool) [pairOf .bool] = .error e ∧ e.kind = .typeMismatch) ∧
    ∃ e, Op.addN.eval [⟨.bool,[2],[.bool true,.bool false]⟩,⟨.bool,[2],[.bool true,.bool true]⟩] = .error e ∧
      e.kind = .typeMismatch := by
  exact ⟨⟨_,pairs_infer .bool,rfl⟩,⟨_,rfl,rfl⟩,_,rfl,rfl⟩

end AddN

end TensorGraph
