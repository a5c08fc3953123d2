import TensorGraph.Proofs.Outcome

namespace TensorGraph.Outcome

variable {α β σ : Type} {K L : Kind → Prop}

-- A computation that fails has failed at one of its steps.
theorem bind_error {x : Outcome α} {f : α → Outcome β} {e : Fault} :
    (x >>= f) = .error e ↔ x = .error e ∨ ∃ a, x = .ok a ∧ f a = .error e := by
  cases x with
  | error e => simp [bind,Except.bind]
  | ok a => simp [bind,Except.bind]

theorem mapError_error {x : Outcome α} {f : Fault → Fault} {e : Fault} :
    x.mapError f = .error e ↔ ∃ raised, x = .error raised ∧ f raised = e := by
  cases x <;> simp [Except.mapError]

-- Every fault of the computation is of a kind that is allowed.
def Raises (K : Kind → Prop) (x : Outcome α) : Prop := ∀ f, x = .error f → K f.kind

theorem Raises.mono {x : Outcome α} (raises : Raises K x) (weaker : ∀ k, K k → L k) : Raises L x :=
  fun f failed => weaker _ (raises f failed)

@[simp] theorem raises_ok (a : α) : Raises K (.ok a : Outcome α) := by
  intro f failed
  cases failed

@[simp] theorem raises_error (f : Fault) : Raises K (.error f : Outcome α) ↔ K f.kind :=
  ⟨fun raises => raises f rfl,fun allowed _ failed => Except.error.inj failed ▸ allowed⟩

@[simp] theorem raises_fail (c : Cause) : Raises K (fail c : Outcome α) ↔ K c.kind := raises_error _

theorem raises_stop {c : Cause} {rest : α → Outcome β} (allowed : K c.kind) :
    Raises K ((fail c : Outcome α) >>= rest) := (raises_fail c).mpr allowed

-- What follows a step matters only where the step returns.
theorem raises_bind {x : Outcome α} {f : α → Outcome β} :
    Raises K (x >>= f) ↔ Raises K x ∧ ∀ a, x = .ok a → Raises K (f a) := by
  cases x with
  | error e => simp
  | ok a => simp

theorem Raises.bind {x : Outcome α} {f : α → Outcome β} (first : Raises K x)
    (rest : ∀ a, x = .ok a → Raises K (f a)) : Raises K (x >>= f) := raises_bind.mpr ⟨first,rest⟩

theorem Raises.map {x : Outcome α} (raises : Raises K x) (f : α → β) : Raises K (x.map f) := by
  cases x with
  | error e => simpa [Except.map] using raises
  | ok a => simp [Except.map]

theorem raises_mapM {f : α → Outcome β} {xs : List α} (each : ∀ x ∈ xs, Raises K (f x)) :
    Raises K (xs.mapM f) := by
  intro e failed
  obtain ⟨x,member,failed⟩ := mapM_error failed
  exact each x member e failed

theorem raises_foldlM {f : σ → α → Outcome σ} {xs : List α} (each : ∀ s, ∀ x ∈ xs, Raises K (f s x)) (s : σ) :
    Raises K (xs.foldlM f s) := by
  intro e failed
  obtain ⟨before,x,after,s',rfl,-,failed⟩ := foldlM_error failed
  exact each s' x (by simp) e failed

theorem raises_loop {f : α → Outcome (ForInStep PUnit)} {xs : List α} (each : ∀ x ∈ xs, Raises K (f x)) :
    Raises K (forIn xs PUnit.unit fun x _ => f x) := by
  induction xs with
  | nil => exact raises_ok _
  | cons x xs ih =>
    obtain ⟨first,rest⟩ := List.forall_mem_cons.mp each
    rw [List.forIn_cons]
    refine first.bind fun s _ => ?_
    cases s with
    | done => exact raises_ok _
    | yield => exact ih rest

-- Two computations that return the same, or both fail with faults of one kind.
def Concur : Outcome α → Outcome α → Prop
  | .ok a, .ok b => a = b
  | .error e, .error f => e.kind = f.kind
  | _, _ => False

theorem concur_iff {x y : Outcome α} : Concur x y ↔ (∀ a, x = .ok a ↔ y = .ok a) ∧
    ∀ e, x = .error e → ∃ f, y = .error f ∧ e.kind = f.kind := by
  cases x <;> cases y
  case error.error e f => simp [Concur]
  case error.ok e b => simp [Concur]
  case ok.error a f => simp [Concur]
  case ok.ok a b =>
    constructor
    · rintro rfl
      exact ⟨fun _ => Iff.rfl,fun _ failed => nomatch failed⟩
    · rintro ⟨same,-⟩
      have other : (Except.ok b : Outcome α) = .ok a := (same a).mp rfl
      exact (Except.ok.inj other).symm

theorem Concur.refl (x : Outcome α) : Concur x x := by
  cases x <;> rfl

theorem Concur.bind {x y : Outcome α} {f h : α → Outcome β} (first : Concur x y)
    (rest : ∀ a, x = .ok a → Concur (f a) (h a)) : Concur (x >>= f) (y >>= h) := by
  cases x <;> cases y
  case error.error => exact first
  case error.ok => exact first.elim
  case ok.error => exact first.elim
  case ok.ok a b =>
    cases (first : a = b)
    exact rest a rfl

theorem concur_mapM {f h : α → Outcome β} {xs : List α} (each : ∀ x ∈ xs, Concur (f x) (h x)) :
    Concur (xs.mapM f) (xs.mapM h) := by
  induction xs with
  | nil => exact .refl _
  | cons x xs ih =>
    obtain ⟨first,rest⟩ := List.forall_mem_cons.mp each
    simp only [List.mapM_cons]
    exact first.bind fun _ _ => (ih rest).bind fun _ _ => .refl _

theorem concur_foldlM {f h : σ → α → Outcome σ} {xs : List α} (each : ∀ s, ∀ x ∈ xs, Concur (f s x) (h s x)) (s : σ) :
    Concur (xs.foldlM f s) (xs.foldlM h s) := by
  induction xs generalizing s with
  | nil => exact .refl _
  | cons x xs ih =>
    simp only [List.foldlM_cons]
    exact (each s x List.mem_cons_self).bind fun s' _ => ih (fun s y member => each s y (List.mem_cons_of_mem _ member)) s'

end TensorGraph.Outcome
