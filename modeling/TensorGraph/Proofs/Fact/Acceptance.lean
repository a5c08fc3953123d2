import TensorGraph.Fact.Rule
import TensorGraph.Proofs.Outcome

namespace TensorGraph
open Outcome

-- A tensor none of whose elements is an untyped value: such tensors are equal as soon as
-- they compare equal, and they equal themselves.
def Tensor.Typed (t : Tensor) : Prop := ∀ x ∈ t.data, ∀ d, x ≠ .object d

theorem Scalar.eq_of_same {x y : Scalar} (typed : ∀ d, x ≠ .object d) (same : x.same y = true) :
    x = y := by
  cases x with
  | object d => exact absurd rfl (typed d)
  | float | int | bool | text => cases y <;> simp_all [Scalar.same]

theorem Scalar.same_self {x : Scalar} (typed : ∀ d, x ≠ .object d) : x.same x = true := by
  cases x with
  | object d => exact absurd rfl (typed d)
  | float | int | bool | text => simp [Scalar.same]

namespace Tensor

theorem same_parts {s t : Tensor} : s.same t = true ↔ s.dtype = t.dtype ∧ s.shape = t.shape ∧
    s.data.length = t.data.length ∧ ∀ p ∈ s.data.zip t.data, p.1.same p.2 = true := by
  simp only [same,Bool.and_eq_true,beq_iff_eq,List.all_eq_true,and_assoc]

theorem eq_of_same {s t : Tensor} (typed : t.Typed) (same : s.same t = true) : s = t := by
  obtain ⟨dtype,shape,length,elements⟩ := same_parts.mp same
  have data : s.data = t.data := by
    apply List.ext_getElem length
    intro i hs ht
    have pair := elements (s.data[i],t.data[i]) (List.mem_iff_getElem.mpr ⟨i,by simp; omega,by simp⟩)
    -- equality of elements is checked from the side that may hold untyped values
    cases left : s.data[i] with
    | object d =>
      simp only [left] at pair
      cases right : t.data[i] with
      | object e => exact absurd right (typed _ (List.getElem_mem ht) e)
      | float | int | bool | text => simp [right,Scalar.same] at pair
    | float | int | bool | text => exact left ▸ Scalar.eq_of_same (by simp [left]) pair
  cases s
  cases t
  simp_all

theorem eq_of_same_left {s t : Tensor} (typed : s.Typed) (same : s.same t = true) : s = t := by
  obtain ⟨dtype,shape,length,elements⟩ := same_parts.mp same
  have data : s.data = t.data := by
    apply List.ext_getElem length
    intro i hs ht
    have pair := elements (s.data[i],t.data[i]) (List.mem_iff_getElem.mpr ⟨i,by simp; omega,by simp⟩)
    exact Scalar.eq_of_same (typed _ (List.getElem_mem hs)) pair
  cases s
  cases t
  simp_all

theorem same_self {t : Tensor} (typed : t.Typed) : t.same t = true := by
  refine same_parts.mpr ⟨rfl,rfl,rfl,?_⟩
  intro p member
  obtain ⟨left,equal⟩ := List.of_mem_zip member
  obtain ⟨i,hi,rfl⟩ := List.mem_iff_getElem.mp member
  simpa using Scalar.same_self (typed _ (List.getElem_mem _))

end Tensor

theorem Dim.unify_accepts {a b c : Dim} {n : Nat} (unified : a.unify b = .ok c)
    (left : a.accepts n = true) (right : b.accepts n = true) : c.accepts n = true := by
  unfold Dim.unify at unified
  split at unified
  · cases unified; exact left
  · split at unified
    · cases unified; exact right
    · cases unified

namespace ShapeFact

theorem accepts_forall₂ {s : ShapeFact} {shape : Shape} :
    s.accepts shape = true ↔ List.Forall₂ (fun d n => d.accepts n = true) s shape := by
  induction s generalizing shape with
  | nil => cases shape <;> simp [accepts]
  | cons d s ih =>
    cases shape with
    | nil => simp [accepts]
    | cons n shape =>
      rw [List.forall₂_cons,←ih]
      simp [accepts]
      grind

theorem accepts_ofShape {s shape : Shape} : (ofShape s).accepts shape = true ↔ s = shape := by
  rw [accepts_forall₂,ofShape,List.forall₂_map_left_iff]
  simp [Dim.accepts,List.forall₂_eq_eq_eq]

theorem extents?_eq_some {s : ShapeFact} {ns : Shape} : extents? s = some ns ↔ s = ofShape ns := by
  unfold extents? ofShape
  induction s generalizing ns with
  | nil => cases ns <;> simp
  | cons d s ih =>
    cases d with
    | known n =>
      cases ns with
      | nil => cases known : s.mapM Dim.extent? <;> simp [Dim.extent?,known]
      | cons m ns =>
        simp only [List.mapM_cons,Dim.extent?,Option.pure_def,Option.bind_eq_bind,Option.bind_some,
          List.map_cons,List.cons.injEq,Dim.known.injEq,← ih]
        cases s.mapM Dim.extent? <;> simp
    | streaming | unknown =>
      cases ns <;> simp [Dim.extent?]

theorem unify_accepts {a b c : Option ShapeFact} {shape : Shape} (unified : unify a b = .ok c)
    (left : ∀ s, a = some s → s.accepts shape = true)
    (right : ∀ s, b = some s → s.accepts shape = true) :
    ∀ s, c = some s → s.accepts shape = true := by
  unfold unify at unified
  split at unified
  · cases unified; exact right
  · cases unified; exact left
  · rename_i s t
    split at unified
    · cases unified
    · split at unified
      · rename_i dims pairs
        cases unified
        intro _ equal
        cases equal
        have hs := accepts_forall₂.mp (left _ rfl)
        have ht := accepts_forall₂.mp (right _ rfl)
        rw [accepts_forall₂]
        rw [mapM_ok] at pairs
        clear left right
        induction hs generalizing t dims with
        | nil => cases ht; cases pairs; exact .nil
        | cons hd _ ih =>
          cases ht with
          | cons he rest =>
            cases pairs with
            | cons first others =>
              exact .cons (Dim.unify_accepts first hd he) (ih _ (by simp_all) _ others rest)
      · cases unified

end ShapeFact

namespace Fact

theorem accepts_check {f : Fact} {t : Tensor} : f.accepts t = true ↔ f.check t = .ok () := by
  unfold accepts
  cases f.check t <;> simp [Except.isOk,Except.toBool]

-- Acceptance in parts: element type, rank with every known extent, and the constant.
theorem accepts_parts {f : Fact} {t : Tensor} : f.accepts t = true ↔
    (∀ d, f.dtype = some d → t.dtype = d) ∧ (∀ s, f.shape = some s → s.accepts t.shape = true) ∧
      ∀ c, f.value = some c → c.same t = true := by
  rw [accepts_check]
  unfold check
  cases f.dtype with
  | none =>
    cases f.shape with
    | none => cases f.value with
      | none => simp
      | some c => cases same : c.same t <;> simp [same]
    | some s => cases shape : s.accepts t.shape with
      | false => simp [shape]
      | true => cases f.value with
        | none => simp [shape]
        | some c => cases same : c.same t <;> simp [shape,same]
  | some d =>
    by_cases dtype : t.dtype = d
    · cases f.shape with
      | none => cases f.value with
        | none => simp [dtype]
        | some c => cases same : c.same t <;> simp [dtype,same]
      | some s => cases shape : s.accepts t.shape with
        | false => simp [dtype,shape]
        | true => cases f.value with
          | none => simp [dtype,shape]
          | some c => cases same : c.same t <;> simp [dtype,shape,same]
    · simp [dtype]

theorem accepts_constant {c t : Tensor} : (constant c).accepts t = true ↔ c.same t = true := by
  rw [accepts_parts]
  refine ⟨fun parts => parts.2.2 c rfl,fun same => ?_⟩
  obtain ⟨dtype,shape,-⟩ := Tensor.same_parts.mp same
  refine ⟨?_,?_,?_⟩
  · intro d equal; cases equal; exact dtype.symm
  · intro s equal; cases equal; exact ShapeFact.accepts_ofShape.mpr shape
  · intro v equal; cases equal; exact same

theorem accepts_outline {d : Option DType} {s : Option ShapeFact} {t : Tensor} :
    (outline d s).accepts t = true ↔
      (∀ x, d = some x → t.dtype = x) ∧ ∀ r, s = some r → r.accepts t.shape = true := by
  rw [accepts_parts]
  exact ⟨fun ⟨dtype,shape,_⟩ => ⟨dtype,shape⟩,fun ⟨dtype,shape⟩ => ⟨dtype,shape,nofun⟩⟩

theorem unknown_accepts (t : Tensor) : unknown.accepts t = true :=
  accepts_outline.mpr ⟨nofun,nofun⟩

theorem unifyDType_accepts {a b c : Option DType} {d : DType} (unified : unifyDType a b = .ok c)
    (left : ∀ x, a = some x → d = x) (right : ∀ x, b = some x → d = x) :
    ∀ x, c = some x → d = x := by
  unfold unifyDType at unified
  split at unified
  · cases unified; exact right
  · cases unified; exact left
  · split at unified
    · cases unified; exact left
    · cases unified

-- What two facts hold of, their combination holds of.
theorem unify_accepts {a b c : Fact} {t : Tensor} (unified : a.unify b = .ok c)
    (left : a.accepts t = true) (right : b.accepts t = true) : c.accepts t = true := by
  unfold unify at unified
  split at unified
  · cases unified; exact left
  · split at unified
    · cases unified; exact right
    · obtain ⟨dtype,unifiedDType,unified⟩ := bind_ok.mp unified
      obtain ⟨shape,unifiedShape,unified⟩ := bind_ok.mp unified
      cases a with
      | constant s =>
        cases b with
        | constant r =>
          simp only [value] at unified
          split at unified
          · cases unified; exact left
          · cases unified
        | outline d s' => cases unified; exact left
      | outline d s =>
        cases b with
        | constant r => cases unified; exact right
        | outline e r =>
          cases unified
          obtain ⟨leftDType,leftShape⟩ := accepts_outline.mp left
          obtain ⟨rightDType,rightShape⟩ := accepts_outline.mp right
          exact accepts_outline.mpr ⟨unifyDType_accepts unifiedDType leftDType rightDType,
            ShapeFact.unify_accepts unifiedShape leftShape rightShape⟩

end Fact

def Facts.Accept (fs : Facts) (ts : List Tensor) : Prop :=
  List.Forall₂ (fun f t => f.accepts t = true) fs ts

end TensorGraph
