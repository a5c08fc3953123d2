import TensorGraph.Proofs.Fact.Acceptance

namespace TensorGraph
open Outcome

-- Knowledge is ordered part by part. An unknown extent is below every extent and an open part
-- below every part; a constant is below itself alone.
def Dim.Below (d e : Dim) : Prop := d = .unknown ∨ d = e

namespace ShapeFact

def Below (s r : ShapeFact) : Prop := List.Forall₂ Dim.Below s r

def Below? (a b : Option ShapeFact) : Prop := ∀ s, a = some s → ∃ r, b = some r ∧ Below s r

end ShapeFact

namespace Fact

structure Below (a b : Fact) : Prop where
  dtype : ∀ d, a.dtype = some d → b.dtype = some d
  shape : ShapeFact.Below? a.shape b.shape
  value : ∀ t, a.value = some t → b = .constant t

def Typed (f : Fact) : Prop := ∀ t, f.value = some t → t.Typed

-- A fact that can be told from others: equality of untyped values is not equality of constants.
structure Under (a b : Fact) : Prop where
  below : a.Below b
  typed : b.Typed

end Fact

namespace Dim

theorem below_refl (d : Dim) : d.Below d := .inr rfl

theorem unknown_below (d : Dim) : unknown.Below d := .inl rfl

theorem Below.trans {a b c : Dim} (first : a.Below b) (second : b.Below c) : a.Below c := by
  rcases first with rfl | rfl
  · exact .inl rfl
  · exact second

theorem Below.antisymm {a b : Dim} (there : a.Below b) (back : b.Below a) : a = b := by
  rcases there with rfl | equal
  · rcases back with rfl | equal
    · rfl
    · exact equal.symm
  · exact equal

theorem Below.eq {a b : Dim} (below : a.Below b) (known : a.isUnknown = false) : a = b := by
  rcases below with rfl | equal
  · cases known
  · exact equal

theorem isUnknown_iff {d : Dim} : d.isUnknown = true ↔ d = .unknown := by
  cases d <;> simp [isUnknown]

variable {a b c u : Dim}

theorem unify_left (unified : a.unify b = .ok c) : a.Below c := by
  unfold unify at unified
  split at unified
  · cases unified; exact below_refl a
  · split at unified
    · rename_i unknown
      cases unified
      exact .inl (isUnknown_iff.mp unknown)
    · cases unified

theorem unify_right (unified : a.unify b = .ok c) : b.Below c := by
  unfold unify at unified
  split at unified
  · rename_i agree
    cases unified
    rcases Bool.or_eq_true _ _ ▸ agree with equal | unknown
    · exact .inr (of_decide_eq_true equal).symm
    · exact .inl (isUnknown_iff.mp unknown)
  · split at unified
    · cases unified; exact below_refl b
    · cases unified

theorem unify_least (left : a.Below u) (right : b.Below u) :
    ∃ c, a.unify b = .ok c ∧ c.Below u := by
  unfold unify
  rcases left with rfl | rfl
  · by_cases agree : (decide (unknown = b) || b.isUnknown) = true
    · exact ⟨_,by rw [if_pos (by simpa using agree)],.inl rfl⟩
    · exact ⟨b,by rw [if_neg (by simpa using agree)]; rfl,right⟩
  · rcases right with rfl | rfl
    · exact ⟨a,by simp [isUnknown],.inr rfl⟩
    · exact ⟨b,by simp,.inr rfl⟩

end Dim

namespace ShapeFact

theorem below_refl (s : ShapeFact) : s.Below s := List.forall₂_same.mpr fun d _ => d.below_refl

theorem Below.trans {a b c : ShapeFact} (first : a.Below b) (second : b.Below c) : a.Below c :=
  forall₂_trans first second fun _ _ _ => Dim.Below.trans

theorem Below.antisymm {a b : ShapeFact} (there : a.Below b) (back : b.Below a) : a = b := by
  induction there with
  | nil => rfl
  | cons head _ ih =>
    cases back with
    | cons next rest => rw [head.antisymm next,ih rest]

-- Without unknown extents there is nothing to learn.
theorem Below.eq {a b : ShapeFact} (below : a.Below b) (known : ∀ d ∈ a, d.isUnknown = false) :
    a = b := by
  induction below with
  | nil => rfl
  | cons head _ ih =>
    obtain ⟨first,rest⟩ := List.forall_mem_cons.mp known
    rw [head.eq first,ih rest]

theorem below?_refl (a : Option ShapeFact) : Below? a a := fun s equal => ⟨s,equal,below_refl s⟩

theorem Below?.trans {a b c : Option ShapeFact} (first : Below? a b) (second : Below? b c) :
    Below? a c := by
  intro s equal
  obtain ⟨r,equal,low⟩ := first s equal
  obtain ⟨q,equal,high⟩ := second r equal
  exact ⟨q,equal,low.trans high⟩

theorem Below?.antisymm {a b : Option ShapeFact} (there : Below? a b) (back : Below? b a) : a = b := by
  cases a with
  | none =>
    cases b with
    | none => rfl
    | some r => obtain ⟨s,equal,-⟩ := back r rfl; cases equal
  | some s =>
    obtain ⟨r,rfl,low⟩ := there s rfl
    obtain ⟨s',equal,high⟩ := back r rfl
    cases equal
    rw [low.antisymm high]

theorem none_below? (a : Option ShapeFact) : Below? none a := nofun

theorem Below.some {s r : ShapeFact} (below : s.Below r) : Below? (some s) (some r) := by
  intro _ equal
  cases equal
  exact ⟨r,rfl,below⟩

theorem below?_some {s r : ShapeFact} (below : Below? (some s) (some r)) : s.Below r := by
  obtain ⟨_,equal,low⟩ := below s rfl
  cases equal
  exact low

-- Shapes of one rank are combined extent by extent.
theorem unify_dims_bounds {s t r : ShapeFact} (ranks : s.length = t.length)
    (unified : (s.zip t).mapM (fun (x,y) => x.unify y) = .ok r) : s.Below r ∧ t.Below r := by
  rw [mapM_ok] at unified
  induction s generalizing t r with
  | nil =>
    cases t with
    | nil => cases unified; exact ⟨.nil,.nil⟩
    | cons => cases ranks
  | cons d s ih =>
    cases t with
    | nil => cases ranks
    | cons e t =>
      cases unified with
      | cons first others =>
        obtain ⟨left,right⟩ := ih (Nat.succ.inj ranks) others
        exact ⟨.cons (Dim.unify_left first) left,.cons (Dim.unify_right first) right⟩

theorem unify_dims_least {s t u : ShapeFact} (left : s.Below u) (right : t.Below u) :
    ∃ r, (s.zip t).mapM (fun (x,y) => x.unify y) = .ok r ∧ Below r u := by
  simp only [mapM_ok]
  induction left generalizing t with
  | nil => exact ⟨[],.nil,.nil⟩
  | cons head _ ih =>
    cases right with
    | cons other others =>
      obtain ⟨c,unified,low⟩ := Dim.unify_least head other
      obtain ⟨r,rest,below⟩ := ih others
      exact ⟨c :: r,.cons unified rest,.cons low below⟩

variable {a b c u : Option ShapeFact}

theorem unify_bounds (unified : unify a b = .ok c) : Below? a c ∧ Below? b c := by
  unfold unify at unified
  split at unified
  · cases unified; exact ⟨none_below? _,below?_refl _⟩
  · cases unified; exact ⟨below?_refl _,none_below? _⟩
  · split at unified
    · cases unified
    · rename_i ranks
      split at unified
      · rename_i pairs
        cases unified
        obtain ⟨left,right⟩ := unify_dims_bounds (Decidable.not_not.mp ranks) pairs
        exact ⟨left.some,right.some⟩
      · cases unified

theorem unify_least (left : Below? a u) (right : Below? b u) :
    ∃ c, unify a b = .ok c ∧ Below? c u := by
  cases a with
  | none => exact ⟨b,by cases b <;> rfl,right⟩
  | some s =>
    cases b with
    | none => exact ⟨some s,rfl,left⟩
    | some t =>
      obtain ⟨r,rfl,low⟩ := left s rfl
      obtain ⟨c,unified,below⟩ := unify_dims_least low (below?_some right)
      refine ⟨some c,?_,below.some⟩
      have ranks : s.length = t.length :=
        low.length_eq.trans (below?_some right).length_eq.symm
      unfold unify
      dsimp only
      rw [if_neg (by simpa using ranks),unified]

theorem ofShape_maximal {s : Shape} (below : Below? (some (ofShape s)) a) :
    a = some (ofShape s) := by
  obtain ⟨r,rfl,low⟩ := below _ rfl
  rw [low.eq (by simp [ofShape,Dim.isUnknown])]

end ShapeFact

namespace Fact

theorem below_refl (a : Fact) : a.Below a := by
  refine ⟨fun d equal => equal,ShapeFact.below?_refl _,?_⟩
  intro t value
  cases a with
  | constant => cases value; rfl
  | outline => cases value

theorem Below.trans {a b c : Fact} (first : a.Below b) (second : b.Below c) : a.Below c := by
  refine ⟨fun d equal => second.dtype d (first.dtype d equal),first.shape.trans second.shape,?_⟩
  intro t value
  exact second.value t (by rw [first.value t value]; rfl)

theorem Below.antisymm {a b : Fact} (there : a.Below b) (back : b.Below a) : a = b := by
  cases a with
  | constant t => exact (there.value t rfl).symm
  | outline d s =>
    cases b with
    | constant t => exact back.value t rfl
    | outline e r =>
      have shape : s = r := there.shape.antisymm back.shape
      have dtype : d = e := by
        cases d with
        | none =>
          cases e with
          | none => rfl
          | some x => exact (back.dtype x rfl)
        | some x => exact (there.dtype x rfl).symm
      rw [shape,dtype]

theorem unknown_below (a : Fact) : unknown.Below a := ⟨nofun,nofun,nofun⟩

theorem outline_below {d : Option DType} {s : Option ShapeFact} {b : Fact}
    (dtype : ∀ x, d = some x → b.dtype = some x) (shape : ShapeFact.Below? s b.shape) :
    (outline d s).Below b := ⟨dtype,shape,nofun⟩

theorem isUnknown_iff {a : Fact} : a.isUnknown = true ↔ a = unknown := by
  cases a with
  | constant t => simp [isUnknown,unknown,dtype]
  | outline d s => cases d <;> cases s <;> simp [isUnknown,unknown,dtype,shape,value]

theorem unifyDType_bounds {a b c : Option DType} (unified : unifyDType a b = .ok c) :
    (∀ d, a = some d → c = some d) ∧ ∀ d, b = some d → c = some d := by
  unfold unifyDType at unified
  split at unified
  · cases unified; exact ⟨nofun,fun _ equal => equal⟩
  · cases unified; exact ⟨fun _ equal => equal,nofun⟩
  · split at unified
    · rename_i equal
      cases unified
      cases equal
      exact ⟨fun _ equal => equal,fun _ equal => equal⟩
    · cases unified

theorem unifyDType_least {a b u : Option DType} (left : ∀ d, a = some d → u = some d)
    (right : ∀ d, b = some d → u = some d) :
    ∃ c, unifyDType a b = .ok c ∧ ∀ d, c = some d → u = some d := by
  cases a with
  | none => exact ⟨b,by cases b <;> rfl,right⟩
  | some x =>
    cases b with
    | none => exact ⟨some x,rfl,left⟩
    | some y =>
      have equal : x = y := Option.some.inj ((left x rfl).symm.trans (right y rfl))
      exact ⟨some x,by simp [unifyDType,equal],left⟩

-- A combination in parts: each part is combined by itself, and two constants agree.
theorem unify_parts {a b c : Fact} (unified : a.unify b = .ok c) :
    unifyDType a.dtype b.dtype = .ok c.dtype ∧ ShapeFact.unify a.shape b.shape = .ok c.shape ∧
      c.value = a.value.or b.value ∧
      ∀ s t, a.value = some s → b.value = some t → s.same t = true := by
  unfold unify at unified
  split at unified
  · rename_i none
    rw [isUnknown_iff] at none
    cases unified
    subst none
    exact ⟨by cases a.dtype <;> rfl,by cases a.shape <;> rfl,by simp [unknown,value],by simp [unknown,value]⟩
  · split at unified
    · rename_i none
      rw [isUnknown_iff] at none
      cases unified
      subst none
      exact ⟨by cases b.dtype <;> rfl,by cases b.shape <;> rfl,by simp [unknown,value],by simp [unknown,value]⟩
    · obtain ⟨d,unifiedDType,unified⟩ := bind_ok.mp unified
      obtain ⟨s,unifiedShape,unified⟩ := bind_ok.mp unified
      have dtypes := unifyDType_bounds unifiedDType
      have shapes := ShapeFact.unify_bounds unifiedShape
      cases a with
      | constant x =>
        have left : d = some x.dtype ∧ s = some (.ofShape x.shape) :=
          ⟨dtypes.1 _ rfl,ShapeFact.ofShape_maximal shapes.1⟩
        rw [left.1] at unifiedDType
        rw [left.2] at unifiedShape
        cases b with
        | constant y =>
          dsimp only [value] at unified
          split at unified
          · rename_i same
            cases unified
            refine ⟨unifiedDType,unifiedShape,rfl,?_⟩
            intro _ _ equal equal'
            cases equal
            cases equal'
            exact same
          · cases unified
        | outline e r => cases unified; exact ⟨unifiedDType,unifiedShape,rfl,by simp [value]⟩
      | outline e r =>
        cases b with
        | constant y =>
          have right : d = some y.dtype ∧ s = some (.ofShape y.shape) :=
            ⟨dtypes.2 _ rfl,ShapeFact.ofShape_maximal shapes.2⟩
          rw [right.1] at unifiedDType
          rw [right.2] at unifiedShape
          cases unified
          exact ⟨unifiedDType,unifiedShape,rfl,by simp [value]⟩
        | outline => cases unified; exact ⟨unifiedDType,unifiedShape,rfl,by simp [value]⟩

theorem unify_total {a b : Fact} {d : Option DType} {s : Option ShapeFact}
    (dtypes : unifyDType a.dtype b.dtype = .ok d) (shapes : ShapeFact.unify a.shape b.shape = .ok s)
    (values : ∀ x y, a.value = some x → b.value = some y → x.same y = true) :
    ∃ c, a.unify b = .ok c := by
  unfold unify
  split
  · exact ⟨a,rfl⟩
  · split
    · exact ⟨b,rfl⟩
    · rw [dtypes,ok_bind,shapes,ok_bind]
      cases left : a.value with
      | none => cases b.value <;> exact ⟨_,rfl⟩
      | some x =>
        cases right : b.value with
        | none => exact ⟨_,rfl⟩
        | some y => exact ⟨_,by simp only [values x y left right]; rfl⟩

theorem eq_constant {a : Fact} {t : Tensor} (known : a.value = some t) : a = .constant t := by
  cases a with
  | constant => cases known; rfl
  | outline => cases known

theorem eq_of_same {a b : Fact} (typed : b.Typed) (same : a.same b = true) : a = b := by
  cases a with
  | constant s =>
    cases b with
    | constant t => rw [Tensor.eq_of_same (typed t rfl) same]
    | outline => cases same
  | outline d s =>
    cases b with
    | constant => cases same
    | outline e r => simpa [Fact.same] using same

theorem same_self {a : Fact} (typed : a.Typed) : a.same a = true := by
  cases a with
  | constant t => exact Tensor.same_self (typed t rfl)
  | outline => simp [Fact.same]

theorem unify_left {a b c : Fact} (unified : a.unify b = .ok c) : a.Below c := by
  obtain ⟨dtypes,shapes,value,-⟩ := unify_parts unified
  refine ⟨(unifyDType_bounds dtypes).1,(ShapeFact.unify_bounds shapes).1,?_⟩
  intro t known
  exact eq_constant (by simpa [known] using value)

theorem unify_right {a b c : Fact} (typed : b.Typed) (unified : a.unify b = .ok c) : b.Below c := by
  obtain ⟨dtypes,shapes,value,same⟩ := unify_parts unified
  refine ⟨(unifyDType_bounds dtypes).2,(ShapeFact.unify_bounds shapes).2,?_⟩
  intro t known
  cases left : a.value with
  | none => exact eq_constant (by simpa [left,known] using value)
  | some s =>
    have equal := Tensor.eq_of_same (typed t known) (same s t left known)
    exact eq_constant (by simpa [left,equal] using value)

theorem unify_right_typed {a b c : Fact} (typed : c.Typed) (unified : a.unify b = .ok c) : b.Below c := by
  obtain ⟨dtypes,shapes,value,same⟩ := unify_parts unified
  refine ⟨(unifyDType_bounds dtypes).2,(ShapeFact.unify_bounds shapes).2,?_⟩
  intro t known
  cases left : a.value with
  | none => exact eq_constant (by simpa [left,known] using value)
  | some s =>
    have found : c.value = some s := by simpa [left] using value
    have equal := Tensor.eq_of_same_left (typed s found) (same s t left known)
    exact eq_constant (equal ▸ found)

theorem unify_value {a b c : Fact} (open_ : b.value = none) (unified : a.unify b = .ok c) : c.value = a.value := by
  obtain ⟨-,-,value,-⟩ := unify_parts unified
  rw [value,open_]
  exact Option.or_none

theorem withShape_value {a b : Fact} {s : Option ShapeFact} (found : a.withShape s = .ok b) : b.value = a.value :=
  unify_value rfl found

theorem withDims_value {a b : Fact} {s : ShapeFact} (found : a.withDims s = .ok b) : b.value = a.value :=
  withShape_value found

theorem withDType_value {a b : Fact} {d : Option DType} (found : a.withDType d = .ok b) : b.value = a.value :=
  unify_value rfl found

theorem unify_least {a b u : Fact} (typed : u.Typed) (left : a.Below u) (right : b.Below u) :
    ∃ c, a.unify b = .ok c ∧ c.Below u := by
  obtain ⟨d,dtypes,dtype⟩ := unifyDType_least left.dtype right.dtype
  obtain ⟨s,shapes,shape⟩ := ShapeFact.unify_least left.shape right.shape
  have same : ∀ x y, a.value = some x → b.value = some y → x.same y = true := by
    intro x y known known'
    have first := left.value x known
    have equal : y = x := by
      have second := right.value y known'
      rw [first] at second
      exact (Fact.constant.inj second).symm
    exact equal ▸ Tensor.same_self (typed y (by rw [right.value y known']; rfl))
  obtain ⟨c,unified⟩ := unify_total dtypes shapes same
  obtain ⟨dtypes',shapes',value,-⟩ := unify_parts unified
  rw [dtypes] at dtypes'
  rw [shapes] at shapes'
  refine ⟨c,unified,Except.ok.inj dtypes' ▸ dtype,Except.ok.inj shapes' ▸ shape,?_⟩
  intro t known
  rw [value] at known
  rcases Option.or_eq_some_iff.mp known with one | ⟨-,other⟩
  · exact left.value t one
  · exact right.value t other

theorem unify_typed {a b c : Fact} (left : a.Typed) (right : b.Typed) (unified : a.unify b = .ok c) :
    c.Typed := by
  obtain ⟨-,-,value,-⟩ := unify_parts unified
  intro t known
  rw [value] at known
  rcases Option.or_eq_some_iff.mp known with one | ⟨-,other⟩
  · exact left t one
  · exact right t other

theorem Below.typed {a b : Fact} (below : a.Below b) (typed : b.Typed) : a.Typed := by
  intro t known
  exact typed t (by rw [below.value t known]; rfl)

end Fact
end TensorGraph
