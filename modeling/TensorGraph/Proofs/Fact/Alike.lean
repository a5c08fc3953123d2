import TensorGraph.Proofs.Fact.Exact

namespace TensorGraph
open Outcome

namespace Fact

variable {f : Fact} {s : ShapeFact}

-- A fact that is told what it knows already stays as it is.
theorem withDType_own (f : Fact) : f.withDType f.dtype = .ok f := by
  cases f with
  | constant t => exact constant_withDType t
  | outline d r =>
    cases d with
    | none => rfl
    | some d => exact unify_ok.mpr ⟨if_pos rfl,ShapeFact.unify_above nofun,rfl,nofun⟩

theorem withDims_own (known : f.shape = some s) : f.withDims s = .ok f := by
  cases f with
  | constant t =>
    cases known
    exact constant_withShape t
  | outline d r =>
    cases known
    exact outline_withDims (ShapeFact.below_refl s)

end Fact

namespace Facts

variable {fs : Facts} {s : ShapeFact} {d : Option DType}

theorem mapM_own {g : Fact → Outcome Fact} (own : ∀ f ∈ fs, g f = .ok f) : fs.mapM g = .ok fs := by
  rw [mapM_ok,List.forall₂_same]
  exact own

theorem shareDType_untyped (untyped : ∀ f ∈ fs, f.dtype = none) : shareDType fs = .ok fs := by
  unfold shareDType
  rw [List.filterMap_eq_nil_iff.mpr untyped]

-- Facts that know one element type, and one beside them that knows none.
theorem shareDType_beside (filled : fs ≠ []) (alike : ∀ f ∈ fs, f.dtype = d) :
    shareDType (fs ++ [Fact.unknown]) = .ok (fs ++ [Fact.outline d none]) := by
  have cases_ : ∀ f ∈ fs ++ [Fact.unknown], f.dtype = d ∨ f.dtype = none := fun f member =>
    (List.mem_append.mp member).imp (alike f) fun last => by rw [List.mem_singleton.mp last]; rfl
  cases d with
  | none => exact shareDType_untyped fun f member => (cases_ f member).elim id id
  | some d =>
    obtain ⟨f,first⟩ := List.exists_mem_of_ne_nil fs filled
    rw [shareDType_eq (d := d) ?_ ⟨f,List.mem_append_left _ first,alike f first⟩]
    · exact mapM_ok.mpr (List.rel_append (mapM_ok.mp (mapM_own fun g member => alike g member ▸ g.withDType_own))
        (.cons (Fact.unknown_withDType _) .nil))
    · intro g member e known
      rcases cases_ g member with typed | untyped
      · exact Option.some.inj (known.symm.trans typed)
      · cases known.symm.trans untyped

theorem shareShape_untold (untold : ∀ f ∈ fs, f.shape = none) : shareShape fs = .ok fs := by
  unfold shareShape
  rw [List.filterMap_eq_nil_iff.mpr untold]

theorem shareShape_alike (alike : ∀ f ∈ fs, f.shape = some s) : fs.shareShape = .ok fs := by
  cases fs with
  | nil => rfl
  | cons f fs =>
    rw [shareShape_eq (fun g member q known => Option.some.inj (known.symm.trans (alike g member)))
      ⟨f,List.mem_cons_self,alike f List.mem_cons_self⟩]
    exact mapM_own fun g member => Fact.withDims_own (alike g member)

-- What a rule of one input and one output starts from when only one of them is known.
theorem sharedPair_input (x : Fact) : sharedPair [x] [.unknown] = .ok (x,.outline x.dtype none) :=
  bind_ok.mpr ⟨_,shareDType_beside (List.cons_ne_nil x []) (List.forall_mem_singleton.mpr rfl),rfl⟩

theorem sharedPair_output (out : Fact) : sharedPair [.unknown] [out] = .ok (.outline out.dtype none,out) := by
  have shared : shareDType [Fact.unknown,out] = .ok [.outline out.dtype none,out] := by
    cases typed : out.dtype with
    | none => exact shareDType_untyped (by simpa [Fact.unknown,Fact.dtype] using typed)
    | some d =>
      rw [shareDType_eq (d := d) ?_ ⟨out,List.mem_cons_of_mem _ List.mem_cons_self,typed⟩]
      · exact mapM_ok.mpr (.cons (Fact.unknown_withDType _) (.cons (typed ▸ out.withDType_own) .nil))
      · intro f member e known
        rcases List.mem_cons.mp member with rfl | last
        · cases known
        · cases List.mem_singleton.mp last
          exact Option.some.inj (known.symm.trans typed)
  exact bind_ok.mpr ⟨_,shared,rfl⟩

end Facts

end TensorGraph
