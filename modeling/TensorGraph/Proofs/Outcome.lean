import TensorGraph.Fault
import Mathlib.Data.List.Forall2

namespace TensorGraph.Outcome

variable {α β σ : Type}

-- A computation that returns has returned at each of its steps. The lemmas below take such a
-- computation apart without unfolding what runs inside it.
theorem bind_ok {x : Outcome α} {f : α → Outcome β} {b : β} :
    (x >>= f) = .ok b ↔ ∃ a, x = .ok a ∧ f a = .ok b := by
  cases x with
  | error e => simp [bind, Except.bind]
  | ok a => simp [bind, Except.bind]

@[simp] theorem ok_bind (a : α) (f : α → Outcome β) : ((.ok a : Outcome α) >>= f) = f a := rfl
@[simp] theorem error_bind (e : Fault) (f : α → Outcome β) :
    ((.error e : Outcome α) >>= f) = .error e := rfl
@[simp] theorem fail_bind (c : Cause) (f : α → Outcome β) : ((fail c : Outcome α) >>= f) = fail c := rfl
@[simp] theorem pure_eq_ok (a : α) : (pure a : Outcome α) = .ok a := rfl
@[simp] theorem fail_ne_ok (c : Cause) (a : α) : (fail c : Outcome α) ≠ .ok a := nofun

theorem map_ok {x : Outcome α} {f : α → β} {b : β} :
    x.map f = .ok b ↔ ∃ a, x = .ok a ∧ f a = b := by
  cases x <;> simp [Except.map]

theorem ok_of_isSome {x : Outcome α} (succeeds : x.toOption.isSome = true) : ∃ a, x = .ok a := by
  cases x with
  | error e => cases succeeds
  | ok a => exact ⟨a,rfl⟩

theorem error_of_isNone {x : Outcome α} (fails : x.toOption.isNone = true) : ∃ e, x = .error e := by
  cases x with
  | error e => exact ⟨e,rfl⟩
  | ok a => cases fails

theorem map_bind (x : Outcome α) (f : α → β) (k : β → Outcome σ) :
    (x.map f >>= k) = x >>= fun a => k (f a) := by
  cases x <;> rfl

theorem mapError_ok {x : Outcome α} {f : Fault → Fault} {a : α} :
    x.mapError f = .ok a ↔ x = .ok a := by
  cases x <;> simp [Except.mapError]

theorem mapM_ok {f : α → Outcome β} {xs : List α} {ys : List β} :
    xs.mapM f = .ok ys ↔ List.Forall₂ (fun x y => f x = .ok y) xs ys := by
  induction xs generalizing ys with
  | nil => cases ys <;> simp
  | cons x xs ih =>
    simp only [List.mapM_cons,bind_ok,pure_eq_ok,ih]
    constructor
    · rintro ⟨y,first,rest,others,equal⟩
      cases equal
      exact .cons first others
    · intro related
      cases related with
      | cons first others => exact ⟨_,first,_,others,rfl⟩

theorem mapM_one {f : α → Outcome β} {x : α} {ys : List β} (ran : [x].mapM f = .ok ys) : ∃ y, f x = .ok y ∧ ys = [y] := by
  cases mapM_ok.mp ran with
  | cons first rest =>
    cases rest
    exact ⟨_,first,rfl⟩

theorem forall₂_left {R : α → β → Prop} {xs : List α} {ys : List β} (related : List.Forall₂ R xs ys) :
    ∀ x ∈ xs, ∃ y ∈ ys, R x y := by
  induction related with
  | nil => exact nofun
  | cons first _ ih =>
    refine List.forall_mem_cons.mpr ⟨⟨_,List.mem_cons_self,first⟩,?_⟩
    intro x member
    obtain ⟨y,other,relation⟩ := ih x member
    exact ⟨y,List.mem_cons_of_mem _ other,relation⟩

theorem forall₂_right {R : α → β → Prop} {xs : List α} {ys : List β} (related : List.Forall₂ R xs ys) :
    ∀ y ∈ ys, ∃ x ∈ xs, R x y := forall₂_left related.flip

theorem forall₂_trans {R : α → β → Prop} {S : β → σ → Prop} {T : α → σ → Prop} {xs : List α} {ys : List β}
    {zs : List σ} (first : List.Forall₂ R xs ys) (second : List.Forall₂ S ys zs)
    (step : ∀ x y z, R x y → S y z → T x z) : List.Forall₂ T xs zs := by
  induction first generalizing zs with
  | nil => cases second; exact .nil
  | cons head _ ih =>
    cases second with
    | cons next rest => exact .cons (step _ _ _ head next) (ih rest)

theorem forall₂_getElem? {R : α → β → Prop} {xs : List α} {ys : List β}
    (related : List.Forall₂ R xs ys) {i : Nat} {y : β} (found : ys[i]? = some y) :
    ∃ x, xs[i]? = some x ∧ R x y := by
  induction related generalizing i with
  | nil => simp at found
  | cons head _ ih =>
    cases i with
    | zero => cases found; exact ⟨_,rfl,head⟩
    | succ i => exact ih (by simpa using found)

theorem forall₂_getD {R : α → β → Prop} {xs : List α} {ys : List β} (related : List.Forall₂ R xs ys)
    (i : Nat) {x : α} {y : β} (beyond : R x y) : R (xs.getD i x) (ys.getD i y) := by
  induction related generalizing i with
  | nil => simpa using beyond
  | cons head _ ih =>
    cases i with
    | zero => exact head
    | succ i => simpa using ih i

theorem forall₂_headD {R : α → β → Prop} {xs : List α} {ys : List β} (related : List.Forall₂ R xs ys)
    {x : α} {y : β} (none : R x y) : R (xs.headD x) (ys.headD y) := by
  cases related with
  | nil => exact none
  | cons head _ => exact head

theorem forall₂_dropLast {R : α → β → Prop} {xs : List α} {ys : List β}
    (related : List.Forall₂ R xs ys) : List.Forall₂ R xs.dropLast ys.dropLast := by
  rw [List.dropLast_eq_take,List.dropLast_eq_take,related.length_eq]
  exact List.forall₂_take _ related

theorem forall₂_set {R : α → β → Prop} {xs : List α} {ys : List β} (related : List.Forall₂ R xs ys)
    (i : Nat) {x : α} {y : β} (entry : R x y) : List.Forall₂ R (xs.set i x) (ys.set i y) := by
  induction related generalizing i with
  | nil => exact .nil
  | cons head rest ih =>
    cases i with
    | zero => exact .cons entry rest
    | succ i => exact .cons head (ih i)

theorem forall₂_insertIdx {R : α → β → Prop} {xs : List α} {ys : List β}
    (related : List.Forall₂ R xs ys) (i : Nat) {x : α} {y : β} (entry : R x y) :
    List.Forall₂ R (xs.insertIdx i x) (ys.insertIdx i y) := by
  induction related generalizing i with
  | nil =>
    cases i with
    | zero => exact .cons entry .nil
    | succ => exact .nil
  | cons head rest ih =>
    cases i with
    | zero => exact .cons entry (.cons head rest)
    | succ i => exact .cons head (ih i)

theorem forall₂_eraseIdx {R : α → β → Prop} {xs : List α} {ys : List β}
    (related : List.Forall₂ R xs ys) (i : Nat) : List.Forall₂ R (xs.eraseIdx i) (ys.eraseIdx i) := by
  induction related generalizing i with
  | nil => exact .nil
  | cons head rest ih =>
    cases i with
    | zero => exact rest
    | succ i => exact .cons head (ih i)

theorem forall₂_zip_left {R : α → β → Prop} {xs : List α} {ys : List β}
    (related : List.Forall₂ R xs ys) {l : List σ} :
    List.Forall₂ (fun a b => a.1 = b.1 ∧ R a.2 b.2) (l.zip xs) (l.zip ys) := by
  induction related generalizing l with
  | nil => simp
  | cons head _ ih =>
    cases l with
    | nil => exact .nil
    | cons a l => exact .cons ⟨rfl,head⟩ ih

theorem forall₂_append_right {R : α → β → Prop} {l : List α} {xs ys : List β}
    (related : List.Forall₂ R l (xs ++ ys)) :
    ∃ as bs, l = as ++ bs ∧ List.Forall₂ R as xs ∧ List.Forall₂ R bs ys :=
  ⟨l.take xs.length,l.drop xs.length,(List.take_append_drop xs.length l).symm,
    List.forall₂_take_append l xs ys related,List.forall₂_drop_append l xs ys related⟩

theorem forall₂_append_left {R : α → β → Prop} {xs ys : List α} {l : List β}
    (related : List.Forall₂ R (xs ++ ys) l) :
    ∃ as bs, l = as ++ bs ∧ List.Forall₂ R xs as ∧ List.Forall₂ R ys bs := by
  obtain ⟨as,bs,equal,first,second⟩ := forall₂_append_right related.flip
  exact ⟨as,bs,equal,first.flip,second.flip⟩

theorem exists_forall₂ {R : α → β → Prop} {xs : List α} (each : ∀ x ∈ xs, ∃ y, R x y) :
    ∃ ys, List.Forall₂ R xs ys := by
  induction xs with
  | nil => exact ⟨[],.nil⟩
  | cons x xs ih =>
    obtain ⟨⟨y,first⟩,rest⟩ := List.forall_mem_cons.mp each
    obtain ⟨ys,others⟩ := ih rest
    exact ⟨y :: ys,.cons first others⟩

theorem forall₂_mem {R : α → β → Prop} {xs : List α} {ys : List β} (related : List.Forall₂ R xs ys) :
    List.Forall₂ (fun x y => x ∈ xs ∧ R x y) xs ys := by
  induction related with
  | nil => exact .nil
  | cons first _ ih =>
    exact .cons ⟨List.mem_cons_self,first⟩
      (ih.imp fun _ _ ⟨member,relation⟩ => ⟨List.mem_cons_of_mem _ member,relation⟩)

-- Element by element, what the computation at an element keeps.
theorem forall₂_map {R : α → β → Prop} {f : α → σ} {h : β → σ} {xs : List α} {ys : List β}
    (related : List.Forall₂ R xs ys) (each : ∀ x y, R x y → f x = h y) : xs.map f = ys.map h := by
  induction related with
  | nil => rfl
  | cons first _ ih => rw [List.map_cons,List.map_cons,each _ _ first,ih]

theorem mapM_keeps {P : α → σ → Prop} {R : β → σ → Prop} {f : α → Outcome β} {xs : List α}
    {ys : List β} {zs : List σ} (related : List.Forall₂ P xs zs) (found : xs.mapM f = .ok ys)
    (each : ∀ x y z, P x z → f x = .ok y → R y z) : List.Forall₂ R ys zs := by
  rw [mapM_ok] at found
  induction found generalizing zs with
  | nil => cases related; exact .nil
  | cons first _ ih =>
    cases related with
    | cons head rest => exact .cons (each _ _ _ head first) (ih rest)

theorem mapM_eq_map {f : α → Outcome β} {g : α → β} {xs : List α} (h : ∀ x ∈ xs, f x = .ok (g x)) :
    xs.mapM f = .ok (xs.map g) := by
  rw [mapM_ok, List.forall₂_map_right_iff, List.forall₂_same]
  exact h

theorem mapM_some {f : α → Option β} {xs : List α} {ys : List β} :
    xs.mapM f = some ys ↔ List.Forall₂ (fun x y => f x = some y) xs ys := by
  induction xs generalizing ys with
  | nil => cases ys <;> simp
  | cons x xs ih =>
    simp only [List.mapM_cons,Option.bind_eq_bind,Option.bind_eq_some_iff,ih,Option.pure_def,
      Option.some.injEq]
    constructor
    · rintro ⟨y,first,rest,others,rfl⟩
      exact .cons first others
    · intro related
      cases related with
      | cons first others => exact ⟨_,first,_,others,rfl⟩

theorem mapM_some_keeps {P : α → σ → Prop} {R : β → σ → Prop} {f : α → Option β} {xs : List α}
    {ys : List β} {zs : List σ} (related : List.Forall₂ P xs zs) (found : xs.mapM f = some ys)
    (each : ∀ x y z, P x z → f x = some y → R y z) : List.Forall₂ R ys zs := by
  rw [mapM_some] at found
  induction found generalizing zs with
  | nil => cases related; exact .nil
  | cons first _ ih =>
    cases related with
    | cons head rest => exact .cons (each _ _ _ head first) (ih rest)

theorem mapM_some_above {γ δ : Type} {R : α → γ → Prop} {P : β → δ → Prop} {f : α → Option β} {h : γ → Option δ}
    {xs : List α} {ys : List γ} (related : List.Forall₂ R xs ys)
    (each : ∀ x y, R x y → ∀ b, f x = some b → ∃ d, h y = some d ∧ P b d) {bs : List β}
    (found : xs.mapM f = some bs) : ∃ ds, ys.mapM h = some ds ∧ List.Forall₂ P bs ds := by
  simp only [mapM_some] at found ⊢
  induction related generalizing bs with
  | nil => cases found; exact ⟨[],.nil,.nil⟩
  | cons head _ ih =>
    cases found with
    | cons first others =>
      obtain ⟨d,known,low⟩ := each _ _ head _ first
      obtain ⟨ds,rest,below⟩ := ih others
      exact ⟨d :: ds,.cons known rest,.cons low below⟩

theorem forall₂_zipIdx {R : α → β → Prop} {xs : List α} {ys : List β} (related : List.Forall₂ R xs ys)
    (k : Nat) : List.Forall₂ (fun a b => R a.1 b.1 ∧ a.2 = b.2) (xs.zipIdx k) (ys.zipIdx k) := by
  induction related generalizing k with
  | nil => exact .nil
  | cons head _ ih => exact .cons ⟨head,rfl⟩ (ih (k + 1))

-- What every step keeps, a whole run keeps.
theorem foldlM_keeps {f : σ → α → Outcome σ} {xs : List α} {P : σ → Prop}
    (step : ∀ s x s', x ∈ xs → P s → f s x = .ok s' → P s')
    {s s' : σ} (start : P s) (ran : xs.foldlM f s = .ok s') : P s' := by
  induction xs generalizing s with
  | nil => cases ran; exact start
  | cons x xs ih =>
    rw [List.foldlM_cons,bind_ok] at ran
    obtain ⟨middle,first,rest⟩ := ran
    exact ih (fun s x s' member => step s x s' (List.mem_cons_of_mem _ member))
      (step s x middle List.mem_cons_self start first) rest

-- What the step at an element establishes and no later step undoes holds in the end.
theorem foldlM_establishes_from {f : σ → α → Outcome σ} {xs : List α} {P : σ → Prop} {Q : α → σ → Prop}
    (kept : ∀ s x s', x ∈ xs → P s → f s x = .ok s' → P s')
    (makes : ∀ s x s', P s → f s x = .ok s' → Q x s')
    (keeps : ∀ s x s' y, f s x = .ok s' → Q y s → Q y s')
    {s s' : σ} (start : P s) (ran : xs.foldlM f s = .ok s') : ∀ x ∈ xs, Q x s' := by
  induction xs generalizing s with
  | nil => exact nofun
  | cons x xs ih =>
    rw [List.foldlM_cons,bind_ok] at ran
    obtain ⟨middle,first,rest⟩ := ran
    have later := ih (fun s y s' member => kept s y s' (List.mem_cons_of_mem _ member))
      (kept s x middle List.mem_cons_self start first) rest
    refine List.forall_mem_cons.mpr ⟨?_,later⟩
    exact foldlM_keeps (P := Q x) (fun s y s' _ kept step => keeps s y s' x step kept)
      (makes s x middle start first) rest

theorem foldlM_establishes {f : σ → α → Outcome σ} {xs : List α} {Q : α → σ → Prop}
    (makes : ∀ s x s', f s x = .ok s' → Q x s')
    (keeps : ∀ s x s' y, f s x = .ok s' → Q y s → Q y s')
    {s s' : σ} (ran : xs.foldlM f s = .ok s') : ∀ x ∈ xs, Q x s' :=
  foldlM_establishes_from (P := fun _ => True) (fun _ _ _ _ _ _ => trivial) (fun s x s' _ => makes s x s') keeps
    trivial ran

theorem foldlM_total {f : σ → α → Outcome σ} {xs : List α} (each : ∀ s, ∀ x ∈ xs, ∃ s', f s x = .ok s')
    (s : σ) : ∃ s', xs.foldlM f s = .ok s' := by
  induction xs generalizing s with
  | nil => exact ⟨s,rfl⟩
  | cons x xs ih =>
    obtain ⟨next,step⟩ := each s x List.mem_cons_self
    obtain ⟨s',rest⟩ := ih (fun s y member => each s y (List.mem_cons_of_mem _ member)) next
    exact ⟨s',by rw [List.foldlM_cons,step]; exact rest⟩

-- A run that fails has come to some element, and the step there fails.
theorem foldlM_error {f : σ → α → Outcome σ} {xs : List α} {s : σ} {e : Fault}
    (ran : xs.foldlM f s = .error e) : ∃ before x after s', xs = before ++ x :: after ∧
      before.foldlM f s = .ok s' ∧ f s' x = .error e := by
  induction xs generalizing s with
  | nil => cases ran
  | cons x xs ih =>
    rw [List.foldlM_cons] at ran
    cases step : f s x with
    | error e' =>
      rw [step] at ran
      cases ran
      exact ⟨[],x,xs,s,rfl,rfl,step⟩
    | ok next =>
      rw [step] at ran
      obtain ⟨before,y,after,s',rfl,reached,failed⟩ := ih ran
      exact ⟨x :: before,y,after,s',rfl,by rw [List.foldlM_cons,step]; exact reached,failed⟩

theorem foldlM_fixed {f : σ → α → Outcome σ} {xs : List α} {s : σ} (each : ∀ x ∈ xs, f s x = .ok s) :
    xs.foldlM f s = .ok s := by
  induction xs with
  | nil => rfl
  | cons x xs ih =>
    obtain ⟨first,rest⟩ := List.forall_mem_cons.mp each
    rw [List.foldlM_cons,first]
    exact ih rest

-- A run whose every step succeeds, with what holds of the elements gone through so far.
theorem foldlM_reaches {f : σ → α → Outcome σ} {xs : List α} {P : List α → σ → Prop}
    (step : ∀ before s x, x ∈ xs → P before s → ∃ s', f s x = .ok s' ∧ P (before ++ [x]) s') {s : σ}
    {before : List α} (start : P before s) : ∃ s', xs.foldlM f s = .ok s' ∧ P (before ++ xs) s' := by
  induction xs generalizing before s with
  | nil => exact ⟨s,rfl,by rwa [List.append_nil]⟩
  | cons x xs ih =>
    obtain ⟨middle,first,next⟩ := step before s x List.mem_cons_self start
    obtain ⟨s',rest,holds⟩ := ih (fun b s y member => step b s y (List.mem_cons_of_mem _ member)) next
    refine ⟨s',by rw [List.foldlM_cons,first]; exact rest,?_⟩
    rwa [List.append_assoc] at holds

theorem foldlM_congr {f f' : σ → α → Outcome σ} {xs : List α} {s : σ}
    (agree : ∀ s, ∀ x ∈ xs, f s x = f' s x) : xs.foldlM f s = xs.foldlM f' s := by
  induction xs generalizing s with
  | nil => rfl
  | cons x xs ih =>
    rw [List.foldlM_cons,List.foldlM_cons,agree s x List.mem_cons_self]
    exact congrArg (f' s x >>= ·) (funext fun s => ih fun s y member => agree s y (List.mem_cons_of_mem _ member))

-- Where each step passes or fails by what it is given, all of them pass or the fold fails.
theorem foldlM_guarded {τ : Type} (make : τ → σ) (next : τ → α → τ) (good : α → Bool) {c : Cause} {f : σ → α → Outcome σ}
    {xs : List α} (each : ∀ a, ∀ x ∈ xs, f (make a) x = if good x then .ok (make (next a x)) else fail c) (a : τ) :
    xs.foldlM f (make a) = if xs.all good then .ok (make (xs.foldl next a)) else fail c := by
  induction xs generalizing a with
  | nil => rfl
  | cons x xs ih =>
    rw [List.foldlM_cons,each a x List.mem_cons_self,List.all_cons]
    cases good x with
    | false => rfl
    | true => exact ih (fun a y member => each a y (List.mem_cons_of_mem _ member)) (next a x)

theorem forM_ok {f : α → Outcome Unit} {xs : List α} :
    xs.forM f = .ok () ↔ ∀ x ∈ xs, f x = .ok () := by
  induction xs with
  | nil => simp
  | cons x xs ih =>
    change (f x >>= fun _ => xs.forM f) = .ok () ↔ _
    rw [bind_ok,List.forall_mem_cons,←ih]
    exact ⟨fun ⟨_,first,rest⟩ => ⟨first,rest⟩,fun ⟨first,rest⟩ => ⟨(),first,rest⟩⟩

theorem forM_error {f : α → Outcome Unit} {xs : List α} {e : Fault} (ran : xs.forM f = .error e) :
    ∃ x ∈ xs, f x = .error e := by
  induction xs with
  | nil => cases ran
  | cons x xs ih =>
    change (f x >>= fun _ => xs.forM f) = .error e at ran
    cases step : f x with
    | error e' =>
      rw [step] at ran
      cases ran
      exact ⟨x,List.mem_cons_self,step⟩
    | ok u =>
      rw [step] at ran
      obtain ⟨y,member,failed⟩ := ih ran
      exact ⟨y,List.mem_cons_of_mem _ member,failed⟩

theorem mapM_error {f : α → Outcome β} {xs : List α} {e : Fault} (ran : xs.mapM f = .error e) :
    ∃ x ∈ xs, f x = .error e := by
  induction xs with
  | nil => cases ran
  | cons x xs ih =>
    rw [List.mapM_cons] at ran
    cases step : f x with
    | error e' =>
      rw [step] at ran
      cases ran
      exact ⟨x,List.mem_cons_self,step⟩
    | ok y =>
      rw [step,ok_bind] at ran
      cases others : xs.mapM f with
      | error e' =>
        rw [others] at ran
        cases ran
        obtain ⟨z,member,failed⟩ := ih others
        exact ⟨z,List.mem_cons_of_mem _ member,failed⟩
      | ok ys =>
        rw [others] at ran
        cases ran

-- Two computations side by side: what the second returns the first returns too, as far as `R`
-- says. Nothing is asked of the first where the second fails.
def Within {γ : Type} (R : α → γ → Prop) (x : Outcome α) (y : Outcome γ) : Prop :=
  ∀ b, y = .ok b → ∃ a, x = .ok a ∧ R a b

section Within
variable {γ δ : Type} {R : α → γ → Prop} {S : β → δ → Prop}

theorem within_ok {a : α} {b : γ} (related : R a b) : Within R (.ok a) (.ok b) := by
  intro _ equal
  cases equal
  exact ⟨a,rfl,related⟩

theorem within_fail {x : Outcome α} {c : Cause} : Within R x (fail c) := nofun

theorem within_bind {x : Outcome α} {y : Outcome γ} {f : α → Outcome β} {h : γ → Outcome δ}
    (first : Within R x y) (rest : ∀ a b, R a b → Within S (f a) (h b)) :
    Within S (x >>= f) (y >>= h) := by
  intro d ran
  obtain ⟨b,returned,ran⟩ := bind_ok.mp ran
  obtain ⟨a,equal,related⟩ := first b returned
  rw [equal]
  exact rest a b related d ran

-- The second computation goes on alone; what it adds keeps the relation.
theorem within_right {x : Outcome β} {y : Outcome γ} {h : γ → Outcome δ}
    (rest : ∀ b, y = .ok b → Within S x (h b)) : Within S x (y >>= h) := by
  intro d ran
  obtain ⟨b,returned,ran⟩ := bind_ok.mp ran
  exact rest b returned d ran

theorem within_learned {a : α} {y : Outcome γ} {b : γ} (first : Within R (.ok a) y)
    (returned : y = .ok b) : R a b := by
  obtain ⟨_,equal,related⟩ := first b returned
  cases equal
  exact related

theorem within_gain {x : Outcome β} {a : α} {y : Outcome γ} {h : γ → Outcome δ}
    (first : Within R (.ok a) y) (rest : ∀ b, R a b → Within S x (h b)) : Within S x (y >>= h) := by
  intro d ran
  obtain ⟨b,returned,ran⟩ := bind_ok.mp ran
  exact rest b (within_learned first returned) d ran

-- A computation that both make in the same way.
theorem within_same {y : Outcome γ} {f : γ → Outcome β} {h : γ → Outcome δ}
    (rest : ∀ b, y = .ok b → Within S (f b) (h b)) : Within S (y >>= f) (y >>= h) := by
  intro d ran
  obtain ⟨b,returned,ran⟩ := bind_ok.mp ran
  rw [returned]
  exact rest b returned d ran

theorem within_mapM {P : σ → τ → Prop} {f : σ → Outcome α} {h : τ → Outcome γ} {xs : List σ}
    {ys : List τ} (each : ∀ x y, P x y → Within R (f x) (h y)) (related : List.Forall₂ P xs ys) :
    Within (List.Forall₂ R) (xs.mapM f) (ys.mapM h) := by
  induction related with
  | nil => exact within_ok .nil
  | cons head _ ih =>
    simp only [List.mapM_cons]
    refine within_bind (each _ _ head) fun a b first => within_bind ih fun as bs rest => ?_
    exact within_ok (.cons first rest)

theorem mapM_meets {P : σ → γ → Prop} {f : σ → Outcome α} {xs : List σ} {ys : List γ}
    (each : ∀ x y, P x y → ∃ a, f x = .ok a ∧ R a y) (related : List.Forall₂ P xs ys) :
    ∃ as, xs.mapM f = .ok as ∧ List.Forall₂ R as ys := by
  simp only [mapM_ok]
  induction related with
  | nil => exact ⟨[],.nil,.nil⟩
  | cons head _ ih =>
    obtain ⟨a,found,first⟩ := each _ _ head
    obtain ⟨as,others,rest⟩ := ih
    exact ⟨a :: as,.cons found others,.cons first rest⟩

theorem within_learn {P : α → τ → Prop} {h : τ → Outcome γ} {xs : List α} {ys : List τ}
    (each : ∀ x y, P x y → Within R (.ok x) (h y)) (related : List.Forall₂ P xs ys) :
    Within (List.Forall₂ R) (.ok xs) (ys.mapM h) := by
  have same : xs.mapM (fun x => (.ok x : Outcome α)) = .ok xs := by
    rw [mapM_eq_map fun _ _ => rfl,List.map_id']
  exact same ▸ within_mapM each related

theorem within_each {f : σ → Outcome α} {h : σ → Outcome γ} {xs : List σ}
    (each : ∀ x ∈ xs, Within R (f x) (h x)) :
    Within (List.Forall₂ R) (xs.mapM f) (xs.mapM h) := by
  refine within_mapM (P := fun x y => x ∈ xs ∧ x = y) ?_ (List.forall₂_same.mpr fun x member => ⟨member,rfl⟩)
  rintro x _ ⟨member,rfl⟩
  exact each x member

theorem within_foldlM {P : σ → τ → Prop} {f : α → σ → Outcome α} {h : γ → τ → Outcome γ}
    {xs : List σ} {ys : List τ} (step : ∀ a b x y, R a b → P x y → Within R (f a x) (h b y))
    (related : List.Forall₂ P xs ys) {a : α} {b : γ} (start : R a b) :
    Within R (xs.foldlM f a) (ys.foldlM h b) := by
  induction related generalizing a b with
  | nil => exact within_ok start
  | cons head _ ih =>
    simp only [List.foldlM_cons]
    exact within_bind (step a b _ _ start head) fun _ _ next => ih next

theorem within_gainAll {h : γ → τ → Outcome γ} {ys : List τ} {a : α} {b : γ}
    (step : ∀ b y, R a b → Within R (.ok a) (h b y)) (start : R a b) :
    Within R (.ok a) (ys.foldlM h b) := by
  induction ys generalizing b with
  | nil => exact within_ok start
  | cons y ys ih =>
    rw [List.foldlM_cons]
    exact within_gain (step b y start) fun _ next => ih next

-- A loop that only checks: it ends when every check passes.
theorem loop_passed {f : σ → Outcome (ForInStep Unit)} {xs : List σ} {u : Unit}
    (yields : ∀ x s, f x = .ok s → s = .yield ())
    (ran : (forIn xs () fun x _ => f x) = .ok u) : ∀ x ∈ xs, f x = .ok (.yield ()) := by
  induction xs with
  | nil => exact fun _ member => absurd member List.not_mem_nil
  | cons x xs ih =>
    rw [List.forIn_cons,bind_ok] at ran
    obtain ⟨s,first,rest⟩ := ran
    cases yields x s first
    exact List.forall_mem_cons.mpr ⟨first,ih rest⟩

theorem loop_passes {f : σ → Outcome (ForInStep PUnit)} {xs : List σ}
    (passed : ∀ x ∈ xs, f x = .ok (.yield ⟨⟩)) : (forIn xs PUnit.unit fun x _ => f x) = .ok ⟨⟩ := by
  induction xs with
  | nil => rfl
  | cons x xs ih =>
    obtain ⟨first,rest⟩ := List.forall_mem_cons.mp passed
    rw [List.forIn_cons,first]
    exact ih rest

theorem within_loop {P : σ → τ → Prop} {f : σ → Outcome (ForInStep PUnit)}
    {h : τ → Outcome (ForInStep PUnit)} {xs : List σ} {ys : List τ}
    (each : ∀ x y, P x y → Within (fun s t => s = .yield ⟨⟩ ∧ t = .yield ⟨⟩) (f x) (h y))
    (related : List.Forall₂ P xs ys) :
    Within (fun _ _ => True) (forIn xs PUnit.unit fun x _ => f x)
      (forIn ys PUnit.unit fun y _ => h y) := by
  induction related with
  | nil => exact within_ok trivial
  | cons head _ ih =>
    simp only [List.forIn_cons]
    refine within_bind (each _ _ head) ?_
    rintro _ _ ⟨rfl,rfl⟩
    exact ih

end Within

-- Two computations that return related results, or both fail, each with a fault of its own.
def Abreast {γ : Type} (R : α → γ → Prop) : Outcome α → Outcome γ → Prop
  | .ok a, .ok b => R a b
  | .error _, .error _ => True
  | _, _ => False

section Abreast
variable {γ δ : Type} {R : α → γ → Prop} {S : β → δ → Prop} {x : Outcome α} {y : Outcome γ}

theorem abreast_iff : Abreast R x y ↔ (∀ a, x = .ok a → ∃ b, y = .ok b) ∧ Within R x y := by
  constructor
  · intro beside
    cases x <;> cases y
    case error.error => exact ⟨nofun,nofun⟩
    case error.ok => exact beside.elim
    case ok.error => exact beside.elim
    case ok.ok a b => exact ⟨fun _ _ => ⟨b,rfl⟩,within_ok beside⟩
  · rintro ⟨there,back⟩
    cases x with
    | error e =>
      cases y with
      | error e' => trivial
      | ok b => obtain ⟨_,returned,-⟩ := back b rfl; cases returned
    | ok a =>
      obtain ⟨b,rfl⟩ := there a rfl
      exact (within_learned back rfl : R a b)

theorem Abreast.bind {f : α → Outcome β} {h : γ → Outcome δ} (first : Abreast R x y)
    (rest : ∀ a b, R a b → Abreast S (f a) (h b)) : Abreast S (x >>= f) (y >>= h) := by
  cases x <;> cases y
  case error.error => trivial
  case error.ok => exact first.elim
  case ok.error => exact first.elim
  case ok.ok a b => exact rest a b first

-- A computation that both make in the same way.
theorem abreast_same {f : α → Outcome β} {h : α → Outcome δ} (rest : ∀ a, x = .ok a → Abreast S (f a) (h a)) :
    Abreast S (x >>= f) (x >>= h) := by
  cases x with
  | error e => trivial
  | ok a => exact rest a rfl

theorem Abreast.mono {T : α → γ → Prop} (beside : Abreast R x y) (weaker : ∀ a b, R a b → T a b) : Abreast T x y := by
  cases x <;> cases y
  case ok.ok a b => exact weaker a b beside
  all_goals exact beside

theorem Abreast.learn {P : γ → Prop} (beside : Abreast R x y) (known : ∀ b, y = .ok b → P b) :
    Abreast (fun a b => R a b ∧ P b) x y := by
  cases x <;> cases y
  case ok.ok a b => exact ⟨beside,known b rfl⟩
  all_goals exact beside

end Abreast

end TensorGraph.Outcome
