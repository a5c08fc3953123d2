import TensorGraph.Proofs.Fact.Order
import TensorGraph.Proofs.Tensor.Equality

namespace TensorGraph
open Outcome

-- A way to combine pieces of knowledge that finds the least one above both, and fails only where
-- there is none.
structure Joins (le : α → α → Prop) (join : α → α → Outcome α) : Prop where
  trans : ∀ a b c, le a b → le b c → le a c
  antisymm : ∀ a b, le a b → le b a → a = b
  bounds : ∀ a b c, join a b = .ok c → le a c ∧ le b c
  least : ∀ a b u, le a u → le b u → ∃ c, join a b = .ok c ∧ le c u

namespace Joins

variable {le : α → α → Prop} {join : α → α → Outcome α} {a b c d u : α}

theorem least_of_ok (joins : Joins le join) (joined : join a b = .ok c) (left : le a u) (right : le b u) :
    le c u := by
  obtain ⟨_,again,low⟩ := joins.least a b u left right
  cases joined.symm.trans again
  exact low

theorem ok_of_least (joins : Joins le join) (left : le a c) (right : le b c)
    (least : ∀ u, le a u → le b u → le c u) : join a b = .ok c := by
  obtain ⟨d,joined,low⟩ := joins.least a b c left right
  obtain ⟨above,above'⟩ := joins.bounds a b d joined
  rw [joined,joins.antisymm d c low (least d above above')]

theorem comm (joins : Joins le join) (joined : join a b = .ok c) : join b a = .ok c := by
  obtain ⟨left,right⟩ := joins.bounds a b c joined
  exact joins.ok_of_least right left fun u first second => joins.least_of_ok joined second first

-- Three pieces are combined alike from either side.
theorem assoc (joins : Joins le join) (first : join a b = .ok d) (second : join d c = .ok u) :
    ∃ e, join b c = .ok e ∧ join a e = .ok u := by
  obtain ⟨lowA,lowB⟩ := joins.bounds a b d first
  obtain ⟨lowD,lowC⟩ := joins.bounds d c u second
  have highA := joins.trans a d u lowA lowD
  have highB := joins.trans b d u lowB lowD
  obtain ⟨e,joined,low⟩ := joins.least b c u highB lowC
  obtain ⟨under,under'⟩ := joins.bounds b c e joined
  refine ⟨e,joined,joins.ok_of_least highA low fun v aboveA aboveE => ?_⟩
  have aboveB := joins.trans b e v under aboveE
  exact joins.least_of_ok second (joins.least_of_ok first aboveA aboveB) (joins.trans c e v under' aboveE)

theorem assoc_left (joins : Joins le join) (first : join b c = .ok d) (second : join a d = .ok u) :
    ∃ e, join a b = .ok e ∧ join e c = .ok u := by
  obtain ⟨e,inner,outer⟩ := joins.assoc (joins.comm first) (joins.comm second)
  exact ⟨e,joins.comm inner,joins.comm outer⟩

end Joins

theorem Dim.Below.accepts {d e : Dim} {n : Nat} (below : d.Below e) (holds : e.accepts n = true) :
    d.accepts n = true := by
  rcases below with rfl | rfl
  · rfl
  · exact holds

theorem ShapeFact.Below.accepts {s r : ShapeFact} {shape : Shape} (below : s.Below r)
    (holds : r.accepts shape = true) : s.accepts shape = true :=
  accepts_forall₂.mpr (forall₂_trans below (accepts_forall₂.mp holds) fun _ _ _ => Dim.Below.accepts)

theorem Fact.Below.accepts {a b : Fact} {t : Tensor} (below : a.Below b) (holds : b.accepts t = true) :
    a.accepts t = true := by
  obtain ⟨dtype,shape,-⟩ := accepts_parts.mp holds
  refine accepts_parts.mpr ⟨fun d known => dtype d (below.dtype d known),fun s known => ?_,fun c known => ?_⟩
  · obtain ⟨r,there,low⟩ := below.shape s known
    exact low.accepts (shape r there)
  · exact accepts_constant.mp (below.value c known ▸ holds)

theorem ShapeFact.unify_fault {s t : Option ShapeFact} {e : Fault} (failed : unify s t = .error e) :
    e.kind = .shapeMismatch := by
  unfold unify at failed
  split at failed
  · cases failed
  · cases failed
  · split at failed
    · cases failed
      rfl
    · split at failed
      · cases failed
      · cases failed
        rfl

theorem ShapeFact.joins : Joins Below? unify where
  trans _ _ _ := Below?.trans
  antisymm _ _ := Below?.antisymm
  bounds _ _ _ := unify_bounds
  least _ _ _ := unify_least

namespace Fact

theorem dtype_joins : Joins (fun a b : Option DType => ∀ d, a = some d → b = some d) unifyDType where
  trans _ _ _ first second d equal := second d (first d equal)
  antisymm a b there back := by
    cases a with
    | some d => exact (there d rfl).symm
    | none =>
      cases b with
      | none => rfl
      | some d => exact back d rfl
  bounds _ _ _ := unifyDType_bounds
  least _ _ _ := unifyDType_least

theorem eq_of_parts {a b : Fact} (dtype : a.dtype = b.dtype) (shape : a.shape = b.shape)
    (value : a.value = b.value) : a = b := by
  cases a with
  | constant => exact (eq_constant value.symm).symm
  | outline =>
    cases b with
    | constant => cases value
    | outline => cases dtype; cases shape; rfl

-- Two values, where there are two, compare equal.
def Agree (s t : Option Tensor) : Prop := ∀ x y, s = some x → t = some y → x.same y = true

theorem Agree.symm {s t : Option Tensor} (agree : Agree s t) : Agree t s :=
  fun x y left right => Tensor.same_symm (agree y x right left)

-- The parts determine a combination.
theorem unify_ok {a b c : Fact} : a.unify b = .ok c ↔ unifyDType a.dtype b.dtype = .ok c.dtype ∧
    ShapeFact.unify a.shape b.shape = .ok c.shape ∧ c.value = a.value.or b.value ∧
      Agree a.value b.value := by
  refine ⟨unify_parts,fun ⟨dtype,shape,value,agree⟩ => ?_⟩
  obtain ⟨d,unified⟩ := unify_total dtype shape agree
  obtain ⟨dtype',shape',value',-⟩ := unify_parts unified
  rw [dtype] at dtype'
  rw [shape] at shape'
  rw [unified,eq_of_parts (Except.ok.inj dtype').symm (Except.ok.inj shape').symm (value'.trans value.symm)]

-- A fact refines another when it says as much of each part; values are compared as tensors are.
structure Refines (u a : Fact) : Prop where
  dtype : ∀ d, a.dtype = some d → u.dtype = some d
  shape : ShapeFact.Below? a.shape u.shape
  value : ∀ s, a.value = some s → ∃ t, u.value = some t ∧ s.same t = true

-- The value, if there is one, equals itself. That of an untyped element that is no number does not.
def Proper (f : Fact) : Prop := ∀ t, f.value = some t → t.same t = true

variable {a b c d u : Fact}

theorem Refines.trans (first : c.Refines b) (second : b.Refines a) : c.Refines a := by
  refine ⟨fun d equal => first.dtype d (second.dtype d equal),second.shape.trans first.shape,?_⟩
  intro s known
  obtain ⟨t,known,equal⟩ := second.value s known
  obtain ⟨r,known,equal'⟩ := first.value t known
  exact ⟨r,known,Tensor.same_trans equal equal'⟩

-- Facts with a common refinement agree, so they can be combined.
theorem unify_of_refines (left : u.Refines a) (right : u.Refines b) :
    ∃ c, a.unify b = .ok c ∧ u.Refines c := by
  obtain ⟨d,dtypes,dtype⟩ := unifyDType_least left.dtype right.dtype
  obtain ⟨s,shapes,shape⟩ := ShapeFact.unify_least left.shape right.shape
  have agree : Agree a.value b.value := by
    intro x y known known'
    obtain ⟨t,holds,equal⟩ := left.value x known
    obtain ⟨t',holds',equal'⟩ := right.value y known'
    cases holds.symm.trans holds'
    exact Tensor.same_trans equal (Tensor.same_symm equal')
  obtain ⟨c,unified⟩ := unify_total dtypes shapes agree
  obtain ⟨dtypes',shapes',value,-⟩ := unify_parts unified
  rw [dtypes] at dtypes'
  rw [shapes] at shapes'
  refine ⟨c,unified,Except.ok.inj dtypes' ▸ dtype,Except.ok.inj shapes' ▸ shape,?_⟩
  intro t known
  rw [value] at known
  rcases Option.or_eq_some_iff.mp known with one | ⟨-,other⟩
  · exact left.value t one
  · exact right.value t other

-- A combination is proper when what is combined is: its value is one of theirs, and if there are two,
-- each equals the other and so itself.
theorem proper_unify (unified : a.unify b = .ok c) : c.Proper ↔ a.Proper ∧ b.Proper := by
  obtain ⟨-,-,value,agree⟩ := unify_ok.mp unified
  unfold Proper
  rw [value]
  cases left : a.value with
  | none => simp
  | some s =>
    cases right : b.value with
    | none => simp
    | some t =>
      have equal := agree s t left right
      simp [Tensor.same_trans equal (Tensor.same_symm equal),Tensor.same_trans (Tensor.same_symm equal) equal]

theorem unify_refines (unified : a.unify b = .ok c) (proper : c.Proper) : c.Refines a ∧ c.Refines b := by
  obtain ⟨dtypes,shapes,value,agree⟩ := unify_ok.mp unified
  obtain ⟨properA,properB⟩ := (proper_unify unified).mp proper
  have dtype := unifyDType_bounds dtypes
  have shape := ShapeFact.unify_bounds shapes
  refine ⟨⟨dtype.1,shape.1,?_⟩,⟨dtype.2,shape.2,?_⟩⟩
  · intro s known
    exact ⟨s,by rw [value,known]; rfl,properA s known⟩
  · intro t known
    cases left : a.value with
    | none => exact ⟨t,by rw [value,left,known]; rfl,properB t known⟩
    | some s => exact ⟨s,by rw [value,left]; rfl,Tensor.same_symm (agree s t left known)⟩

-- What a combination holds of both facts hold of, and conversely.
theorem accepts_unify (unified : a.unify b = .ok c) (t : Tensor) :
    c.accepts t = true ↔ a.accepts t = true ∧ b.accepts t = true := by
  refine ⟨fun holds => ?_,fun ⟨left,right⟩ => unify_accepts unified left right⟩
  obtain ⟨dtypes,shapes,value,agree⟩ := unify_ok.mp unified
  obtain ⟨dtype,dtype'⟩ := unifyDType_bounds dtypes
  obtain ⟨shape,shape'⟩ := ShapeFact.unify_bounds shapes
  obtain ⟨ofType,ofShape,same⟩ := accepts_parts.mp holds
  have within : ∀ {r : Option ShapeFact}, ShapeFact.Below? r c.shape →
      ∀ s, r = some s → s.accepts t.shape = true := by
    rintro _ below s rfl
    obtain ⟨r,known,low⟩ := below s rfl
    exact low.accepts (ofShape r known)
  refine ⟨accepts_parts.mpr ⟨fun d known => ofType d (dtype d known),within shape,?_⟩,
    accepts_parts.mpr ⟨fun d known => ofType d (dtype' d known),within shape',?_⟩⟩
  · intro x known
    exact same x (by rw [value,known]; rfl)
  · intro y known
    cases left : a.value with
    | none => exact same y (by rw [value,left,known]; rfl)
    | some x =>
      exact Tensor.same_trans (Tensor.same_symm (agree x y left known)) (same x (by rw [value,left]; rfl))

-- Two values that say the same: equality compares them, and a value need not equal itself.
def Equal? (s t : Option Tensor) : Prop := s = t ∨ ∃ x y, s = some x ∧ t = some y ∧ x.same y = true

theorem Equal?.symm {s t : Option Tensor} (equal : Equal? s t) : Equal? t s := by
  rcases equal with rfl | ⟨x,y,left,right,same⟩
  · exact .inl rfl
  · exact .inr ⟨y,x,right,left,Tensor.same_symm same⟩

theorem Equal?.trans {s t r : Option Tensor} (first : Equal? s t) (second : Equal? t r) : Equal? s r := by
  rcases first with rfl | ⟨x,y,left,middle,same⟩
  · exact second
  · rcases second with rfl | ⟨y',z,middle',right,same'⟩
    · exact .inr ⟨x,y,left,middle,same⟩
    · cases middle.symm.trans middle'
      exact .inr ⟨x,z,left,right,Tensor.same_trans same same'⟩

theorem Equal?.or {s t s' t' : Option Tensor} (left : Equal? s s') (right : Equal? t t') :
    Equal? (s.or t) (s'.or t') := by
  rcases left with rfl | ⟨x,y,rfl,rfl,same⟩
  · cases s with
    | none => exact right
    | some x => exact .inl rfl
  · exact .inr ⟨x,y,rfl,rfl,same⟩

theorem Equal?.agree {s t r : Option Tensor} (equal : Equal? s t) (agree : Agree s r) : Agree t r := by
  rcases equal with rfl | ⟨x,y,left,right,same⟩
  · exact agree
  · intro y' z known known'
    cases right.symm.trans known
    exact Tensor.same_trans (Tensor.same_symm same) (agree x z left known')

-- Two facts that say the same.
structure Like (a b : Fact) : Prop where
  dtype : a.dtype = b.dtype
  shape : a.shape = b.shape
  value : Equal? a.value b.value

theorem like_iff : a.Like b ↔ a = b ∨ a.same b = true := by
  constructor
  · rintro ⟨dtype,shape,value | ⟨x,y,left,right,same⟩⟩
    · exact .inl (eq_of_parts dtype shape value)
    · rw [eq_constant left,eq_constant right]
      exact .inr same
  · rintro (rfl | same)
    · exact ⟨rfl,rfl,.inl rfl⟩
    · cases a with
      | constant x =>
        cases b with
        | constant y =>
          obtain ⟨dtype,shape,-⟩ := Tensor.same_parts.mp same
          exact ⟨congrArg some dtype,congrArg (some ∘ ShapeFact.ofShape) shape,.inr ⟨x,y,rfl,rfl,same⟩⟩
        | outline => cases same
      | outline d s =>
        cases b with
        | constant => cases same
        | outline e r =>
          simp only [Fact.same,Bool.and_eq_true,beq_iff_eq] at same
          exact ⟨same.1,same.2,.inl rfl⟩

theorem Like.refl (a : Fact) : a.Like a := ⟨rfl,rfl,.inl rfl⟩

theorem Like.symm (like : a.Like b) : b.Like a := ⟨like.dtype.symm,like.shape.symm,like.value.symm⟩

theorem Like.trans (first : a.Like b) (second : b.Like c) : a.Like c :=
  ⟨first.dtype.trans second.dtype,first.shape.trans second.shape,first.value.trans second.value⟩

-- Facts that say the same are combined alike.
theorem unify_like (left : a.Like c) (right : b.Like d) : Within Like (a.unify b) (c.unify d) := by
  intro r unified
  obtain ⟨dtypes,shapes,value,agree⟩ := unify_ok.mp unified
  rw [←left.dtype,←right.dtype] at dtypes
  rw [←left.shape,←right.shape] at shapes
  have agree' : Agree a.value b.value :=
    left.value.symm.agree (right.value.symm.agree agree.symm).symm
  obtain ⟨r',unified'⟩ := unify_total dtypes shapes agree'
  obtain ⟨dtypes',shapes',value',-⟩ := unify_ok.mp unified'
  refine ⟨r',unified',Except.ok.inj (dtypes'.symm.trans dtypes),Except.ok.inj (shapes'.symm.trans shapes),?_⟩
  rw [value,value']
  exact left.value.or right.value

theorem unify_swap (a b : Fact) : Within Like (a.unify b) (b.unify a) := by
  intro r unified
  obtain ⟨dtypes,shapes,value,agree⟩ := unify_ok.mp unified
  have dtypes' := dtype_joins.comm dtypes
  have shapes' := ShapeFact.joins.comm shapes
  obtain ⟨r',unified'⟩ := unify_total dtypes' shapes' agree.symm
  obtain ⟨dtypes'',shapes'',value',-⟩ := unify_ok.mp unified'
  refine ⟨r',unified',Except.ok.inj (dtypes''.symm.trans dtypes'),
    Except.ok.inj (shapes''.symm.trans shapes'),?_⟩
  rw [value,value']
  cases left : a.value with
  | none => exact .inl (Option.or_none).symm
  | some x =>
    cases right : b.value with
    | none => exact .inl rfl
    | some y => exact .inr ⟨x,y,rfl,rfl,agree.symm x y left right⟩

theorem agree_assoc {s t r : Option Tensor} :
    Agree s t ∧ Agree (s.or t) r ↔ Agree t r ∧ Agree s (t.or r) := by
  cases s with
  | none => simp [Agree]
  | some x =>
    cases t with
    | none => simp [Agree]
    | some y =>
      cases r with
      | none => simp [Agree]
      | some z =>
        simp only [Agree,Option.some_or,Option.some.injEq,forall_eq',forall_apply_eq_imp_iff]
        constructor
        · exact fun ⟨first,second⟩ => ⟨Tensor.same_trans (Tensor.same_symm first) second,first⟩
        · exact fun ⟨second,first⟩ => ⟨first,Tensor.same_trans first second⟩

-- Three facts are combined alike from either side.
theorem unify_assoc (a b c r : Fact) :
    (a.unify b >>= (·.unify c)) = .ok r ↔ (b.unify c >>= a.unify) = .ok r := by
  constructor
  · intro ran
    obtain ⟨d,first,second⟩ := bind_ok.mp ran
    obtain ⟨dtypes,shapes,value,agree⟩ := unify_ok.mp first
    obtain ⟨dtypes',shapes',value',agree'⟩ := unify_ok.mp second
    obtain ⟨t,dtype,dtypes⟩ := dtype_joins.assoc dtypes dtypes'
    obtain ⟨s,shape,shapes⟩ := ShapeFact.joins.assoc shapes shapes'
    rw [value] at agree'
    obtain ⟨later,early⟩ := agree_assoc.mp ⟨agree,agree'⟩
    obtain ⟨e,inner⟩ := unify_total dtype shape later
    obtain ⟨dtype',shape',known,-⟩ := unify_ok.mp inner
    cases dtype.symm.trans dtype'
    cases shape.symm.trans shape'
    refine bind_ok.mpr ⟨e,inner,unify_ok.mpr ⟨dtypes,shapes,?_,known ▸ early⟩⟩
    rw [value',value,known,Option.or_assoc]
  · intro ran
    obtain ⟨d,first,second⟩ := bind_ok.mp ran
    obtain ⟨dtypes,shapes,value,agree⟩ := unify_ok.mp first
    obtain ⟨dtypes',shapes',value',agree'⟩ := unify_ok.mp second
    obtain ⟨t,dtype,dtypes⟩ := dtype_joins.assoc_left dtypes dtypes'
    obtain ⟨s,shape,shapes⟩ := ShapeFact.joins.assoc_left shapes shapes'
    rw [value] at agree'
    obtain ⟨early,later⟩ := agree_assoc.mpr ⟨agree,agree'⟩
    obtain ⟨e,inner⟩ := unify_total dtype shape early
    obtain ⟨dtype',shape',known,-⟩ := unify_ok.mp inner
    cases dtype.symm.trans dtype'
    cases shape.symm.trans shape'
    refine bind_ok.mpr ⟨e,inner,unify_ok.mpr ⟨dtypes,shapes,?_,known ▸ later⟩⟩
    rw [value',value,known,Option.or_assoc]

-- Combining two facts one after the other, in either order.
theorem unify_exchange (like : a.Like d) (b c : Fact) :
    Within Like (a.unify b >>= (·.unify c)) (d.unify c >>= (·.unify b)) := by
  intro r ran
  obtain ⟨e,inner,outer⟩ := bind_ok.mp ((unify_assoc d c b r).mp ran)
  obtain ⟨e',inner',same⟩ := unify_swap b c e inner
  obtain ⟨r',outer',same'⟩ := unify_like like same r outer
  exact ⟨r',(unify_assoc a b c r').mpr (bind_ok.mpr ⟨e',inner',outer'⟩),same'⟩

theorem foldlM_unify_perm {fs gs : List Fact} (perm : fs.Perm gs) (like : a.Like b) :
    Within Like (fs.foldlM unify a) (gs.foldlM unify b) := by
  induction perm generalizing a b with
  | nil => exact within_ok like
  | cons f _ ih =>
    simp only [List.foldlM_cons]
    exact within_bind (unify_like like (.refl f)) fun _ _ => ih
  | swap f g fs =>
    simp only [List.foldlM_cons,←bind_assoc]
    refine within_bind (unify_exchange like g f) fun c d same => ?_
    exact within_foldlM (P := (· = ·)) (fun _ _ _ _ like equal => equal ▸ unify_like like (.refl _))
      (List.forall₂_same.mpr fun _ _ => rfl) same
  | trans _ _ ih ih' =>
    intro r ran
    obtain ⟨c,middle,same⟩ := ih' (.refl b) r ran
    obtain ⟨d,first,same'⟩ := ih like c middle
    exact ⟨d,first,same'.trans same⟩

-- Two calls that both fail, with faults as `F` says, or both return facts that say the same.
def Alike (F : Fault → Fault → Prop) (x y : Outcome Fact) : Prop :=
  (∃ e e', x = .error e ∧ y = .error e' ∧ F e e') ∨
    ∃ c d, x = .ok c ∧ y = .ok d ∧ (c = d ∨ c.same d = true)

theorem alike_of_within {x y : Outcome Fact} {F : Fault → Fault → Prop} (there : Within Like x y)
    (back : Within Like y x) (faults : ∀ e e', x = .error e → y = .error e' → F e e') : Alike F x y := by
  cases left : x with
  | ok c =>
    obtain ⟨d,right,like⟩ := back c left
    exact .inr ⟨c,d,rfl,right,like_iff.mp like.symm⟩
  | error e =>
    cases right : y with
    | ok d =>
      obtain ⟨c,other,-⟩ := there d right
      cases left.symm.trans other
    | error e' => exact .inl ⟨e,e',rfl,rfl,faults e e' left right⟩

theorem dtype_fault {s t : Option DType} {e : Fault} (failed : unifyDType s t = .error e) :
    e.kind = .typeMismatch := by
  unfold unifyDType at failed
  split at failed
  · cases failed
  · cases failed
  · split at failed
    · cases failed
    · cases failed
      rfl

-- Where a combination fails: at the element types, else at the shapes, else at the values. Each has
-- a kind of fault of its own.
theorem unify_error {e : Fault} (failed : a.unify b = .error e) :
    (∀ d, unifyDType a.dtype b.dtype ≠ .ok d) ∧ e.kind = .typeMismatch ∨
      (∃ d, unifyDType a.dtype b.dtype = .ok d) ∧ (∀ s, ShapeFact.unify a.shape b.shape ≠ .ok s) ∧
        e.kind = .shapeMismatch ∨
      (∃ d, unifyDType a.dtype b.dtype = .ok d) ∧ (∃ s, ShapeFact.unify a.shape b.shape = .ok s) ∧
        e.kind = .factConflict := by
  unfold unify at failed
  split at failed
  · cases failed
  · split at failed
    · cases failed
    · cases dtypes : unifyDType a.dtype b.dtype with
      | error e' =>
        rw [dtypes] at failed
        cases failed
        exact .inl ⟨nofun,dtype_fault dtypes⟩
      | ok d =>
        rw [dtypes,ok_bind] at failed
        cases shapes : ShapeFact.unify a.shape b.shape with
        | error e' =>
          rw [shapes] at failed
          cases failed
          exact .inr (.inl ⟨⟨d,rfl⟩,nofun,ShapeFact.unify_fault shapes⟩)
        | ok s =>
          rw [shapes,ok_bind] at failed
          refine .inr (.inr ⟨⟨d,rfl⟩,⟨s,rfl⟩,?_⟩)
          split at failed
          · split at failed
            · cases failed
            · cases failed
              rfl
          all_goals cases failed

-- A combination fails from both sides in the same way.
theorem unify_comm (a b : Fact) : Alike (fun e e' => e.kind = e'.kind) (a.unify b) (b.unify a) := by
  refine alike_of_within (unify_swap a b) (unify_swap b a) fun e e' failed failed' => ?_
  have dtype : ∀ {a b : Fact}, (∀ d, unifyDType a.dtype b.dtype ≠ .ok d) →
      ¬ ∃ d, unifyDType b.dtype a.dtype = .ok d :=
    fun none ⟨d,found⟩ => none d (dtype_joins.comm found)
  have shape : ∀ {a b : Fact}, (∀ s, ShapeFact.unify a.shape b.shape ≠ .ok s) →
      ¬ ∃ s, ShapeFact.unify b.shape a.shape = .ok s :=
    fun none ⟨s,found⟩ => none s (ShapeFact.joins.comm found)
  rcases unify_error failed with ⟨none,kind⟩ | ⟨some,none,kind⟩ | ⟨some,some',kind⟩ <;>
    rcases unify_error failed' with ⟨none',kind'⟩ | ⟨one,none',kind'⟩ | ⟨one,one',kind'⟩
  · exact kind.trans kind'.symm
  · exact absurd one (dtype none)
  · exact absurd one (dtype none)
  · exact absurd some (dtype none')
  · exact kind.trans kind'.symm
  · exact absurd one' (shape none)
  · exact absurd some (dtype none')
  · exact absurd some' (shape none')
  · exact kind.trans kind'.symm

theorem unify_unknown (a : Fact) : a.unify unknown = .ok a := rfl

theorem unknown_unify (a : Fact) : unknown.unify a = .ok a := by
  unfold unify
  split
  · rename_i none
    rw [isUnknown_iff.mp none]
  · rfl

-- Combination finds the least knowledge that refines both facts, as far as values equal themselves,
-- and depends neither on the order nor on the grouping of what is combined.
theorem unify_least_refinement :
    (∀ a b : Fact, a.Proper → b.Proper →
      ((∃ c, a.unify b = .ok c) ↔ ∃ u : Fact, u.Refines a ∧ u.Refines b)) ∧
    (∀ a b c : Fact, a.unify b = .ok c →
      (a.Proper → b.Proper → c.Proper ∧ c.Refines a ∧ c.Refines b) ∧
      (∀ u : Fact, u.Refines a → u.Refines b → u.Refines c) ∧
      (∀ t, c.value = some t → c.dtype = some t.dtype ∧ c.shape = some (.ofShape t.shape)) ∧
      ∀ t, c.accepts t = true ↔ a.accepts t = true ∧ b.accepts t = true) ∧
    (∀ a b : Fact, Alike (fun e e' => e.kind = e'.kind) (a.unify b) (b.unify a)) ∧
    (∀ a b c r : Fact, (a.unify b >>= (·.unify c)) = .ok r ↔ (b.unify c >>= a.unify) = .ok r) ∧
    (∀ a : Fact, a.unify unknown = .ok a ∧ unknown.unify a = .ok a) ∧
    ∀ fs gs : List Fact, fs.Perm gs → Alike (fun _ _ => True) (unifyAll fs) (unifyAll gs) := by
  refine ⟨?_,?_,unify_comm,unify_assoc,fun a => ⟨unify_unknown a,unknown_unify a⟩,?_⟩
  · intro a b properA properB
    constructor
    · rintro ⟨c,unified⟩
      exact ⟨c,unify_refines unified ((proper_unify unified).mpr ⟨properA,properB⟩)⟩
    · rintro ⟨u,left,right⟩
      obtain ⟨c,unified,-⟩ := unify_of_refines left right
      exact ⟨c,unified⟩
  · intro a b c unified
    refine ⟨?_,?_,?_,accepts_unify unified⟩
    · intro properA properB
      have proper := (proper_unify unified).mpr ⟨properA,properB⟩
      exact ⟨proper,unify_refines unified proper⟩
    · intro u left right
      obtain ⟨_,again,refines⟩ := unify_of_refines left right
      cases unified.symm.trans again
      exact refines
    · intro t known
      rw [eq_constant known]
      exact ⟨rfl,rfl⟩
  · intro fs gs perm
    exact alike_of_within (foldlM_unify_perm perm (.refl _)) (foldlM_unify_perm perm.symm (.refl _))
      fun _ _ _ _ => trivial

def tall : Fact := .outline (some .f32) (some [.unknown,.known 3])
def wide : Fact := .outline none (some [.known 2,.unknown])
def sheet : Fact := .outline (some .f32) (some [.known 2,.known 3])
def filled : Tensor := .fill .f32 [2,3] (.float .one)

-- Two outlines that each know one extent, what they come to, and a tensor that all three describe.
theorem unify_least_sheet : tall.Proper ∧ wide.Proper ∧ tall.unify wide = .ok sheet ∧
    (∃ u : Fact, u.Refines tall ∧ u.Refines wide) ∧ sheet.Proper ∧ sheet.Refines tall ∧ sheet.Refines wide ∧
    (constant filled).Refines tall ∧ (constant filled).Refines wide ∧ (constant filled).Refines sheet ∧
    sheet.unify (constant filled) = .ok (constant filled) ∧ (constant filled).dtype = some .f32 ∧
    tall.accepts filled = true ∧ wide.accepts filled = true ∧ sheet.accepts filled = true ∧
    [tall,wide,constant filled].Perm [constant filled,tall,wide] ∧
      Alike (fun _ _ => True) (unifyAll [tall,wide,constant filled]) (unifyAll [constant filled,tall,wide]) := by
  obtain ⟨found,least,-,-,-,order⟩ := unify_least_refinement
  have properTall : tall.Proper := nofun
  have properWide : wide.Proper := nofun
  have unified : tall.unify wide = .ok sheet := by rfl
  have known : sheet.unify (constant filled) = .ok (constant filled) := by rfl
  have accepted : tall.accepts filled = true ∧ wide.accepts filled = true := by decide
  obtain ⟨refined,above,-,accepts⟩ := least tall wide sheet unified
  obtain ⟨proper,left,right⟩ := refined properTall properWide
  have properFilled : (constant filled).Proper := by
    rintro t ⟨⟩
    decide
  obtain ⟨-,lower,-⟩ := (least sheet (constant filled) _ known).1 proper properFilled
  have lowerTall := lower.trans left
  have lowerWide := lower.trans right
  have perm : [tall,wide,constant filled].Perm [constant filled,tall,wide] :=
    List.perm_append_singleton _ [tall,wide]
  exact ⟨properTall,properWide,unified,(found tall wide properTall properWide).mp ⟨sheet,unified⟩,proper,left,right,
    lowerTall,lowerWide,above _ lowerTall lowerWide,known,((least _ _ _ known).2.2.1 filled rfl).1,accepted.1,accepted.2,
    (accepts filled).mpr accepted,perm,order _ _ perm⟩

-- A constant with an untyped element that is no number, and three outlines that pairwise conflict in
-- different parts.
def unequal : Fact := .constant ⟨.object,[2],[.object (.float .nan),.object .null]⟩
def short : Fact := .outline (some .f32) (some [.known 2])
def long : Fact := .outline none (some [.known 3])
def double : Fact := .outline (some .f64) none

-- No order makes a combination return exactly where there is a common refinement: what equals nothing
-- can be combined with the unknown fact but not with itself. And which fault is raised for a list
-- depends on its order.
theorem unify_not_refinement : (∃ c, unequal.unify unknown = .ok c) ∧
    (¬ ∃ u : Fact, u.Refines unequal ∧ u.Refines unknown) ∧
    (¬ ∃ R : Fact → Fact → Prop, ∀ a b, (∃ c, a.unify b = .ok c) ↔ ∃ u, R u a ∧ R u b) ∧
    ∃ e e', unifyAll [short,long,double] = .error e ∧ unifyAll [short,double,long] = .error e' ∧
      e.kind = .shapeMismatch ∧ e'.kind = .typeMismatch := by
  have alone : ∀ c, unequal.unify unequal ≠ .ok c := by
    intro c unified
    obtain ⟨-,-,-,agree⟩ := unify_ok.mp unified
    exact absurd (agree _ _ rfl rfl) (by decide)
  refine ⟨⟨unequal,rfl⟩,?_,?_,?_⟩
  · rintro ⟨u,refines,-⟩
    obtain ⟨c,unified,-⟩ := unify_of_refines refines refines
    exact alone c unified
  · rintro ⟨R,exact_⟩
    obtain ⟨u,refines,-⟩ := (exact_ unequal unknown).mp ⟨unequal,rfl⟩
    obtain ⟨c,unified⟩ := (exact_ unequal unequal).mpr ⟨u,refines,refines⟩
    exact alone c unified
  · exact ⟨_,_,rfl,rfl,rfl,rfl⟩

end Fact

end TensorGraph
