import TensorGraph.Op
import TensorGraph.Proofs.Op.Block
import TensorGraph.Proofs.Op.Exact.Axes
import TensorGraph.Proofs.Op.Exact.Join
import TensorGraph.Proofs.Shape.Axes

namespace TensorGraph
open Outcome Facts

namespace Shape

variable {s : Shape} {index : List Nat} {a m : Nat}

theorem size_insertIdx (inside : a ≤ s.length) : size (s.insertIdx a m) = m * size s := by
  induction s generalizing a with
  | nil =>
    cases Nat.le_zero.mp inside
    rfl
  | cons n s ih =>
    cases a with
    | zero => rfl
    | succ a =>
      rw [List.insertIdx_succ_cons,size,size,ih (Nat.le_of_succ_le_succ inside),Nat.mul_left_comm]

-- An axis of extent 1 moves no element.
theorem offset_insertIdx (inside : a ≤ s.length) (length : index.length = s.length + 1) :
    offset (s.insertIdx a 1) (index.set a 0) = offset s (index.eraseIdx a) := by
  induction a generalizing s index with
  | zero =>
    obtain ⟨i,index,rfl⟩ := List.exists_cons_of_length_eq_add_one length
    rw [List.insertIdx_zero,List.set_cons_zero,offset,Nat.zero_mul,Nat.zero_add]
    rfl
  | succ a ih =>
    obtain ⟨i,index,rfl⟩ := List.exists_cons_of_length_eq_add_one length
    cases s with
    | nil => exact absurd inside (Nat.not_succ_le_zero a)
    | cons n s =>
      have inside := Nat.le_of_succ_le_succ inside
      rw [List.insertIdx_succ_cons,List.set_cons_succ,List.eraseIdx_cons_succ,offset,offset,size_insertIdx inside,
        Nat.one_mul,ih inside (Nat.succ.inj length)]

end Shape

section Added

variable {α : Type} {axes : List Nat} {a i : Nat} {e : α} {xs : List α}

theorem addAxes_none (none : ∀ b, i ≤ b → b ∉ axes) : addAxes axes e i xs.length xs = xs := by
  induction xs generalizing i with
  | nil => rfl
  | cons x xs ih =>
    rw [List.length_cons,addAxes,if_neg (by simpa using none i (Nat.le_refl i)),ih fun b later => none b (by omega)]

theorem addAxes_one (only : ∀ b, b ∈ axes ↔ b = a) (low : i ≤ a) (high : a ≤ i + xs.length) :
    addAxes axes e i (xs.length + 1) xs = xs.insertIdx (a - i) e := by
  induction xs generalizing i with
  | nil =>
    have here : i = a := by simpa using Nat.le_antisymm low high
    subst here
    rw [List.length_nil,addAxes,if_pos (List.contains_iff_mem.mpr ((only i).mpr rfl)),Nat.sub_self]
    rfl
  | cons x xs ih =>
    rw [addAxes]
    by_cases here : i = a
    · subst here
      rw [if_pos (List.contains_iff_mem.mpr ((only i).mpr rfl)),Nat.sub_self,
        addAxes_none fun b later member => by have := (only b).mp member; omega]
      rfl
    · have next : a - i = a - (i + 1) + 1 := by omega
      rw [if_neg (by simpa using fun member => here ((only i).mp member)),next,List.length_cons]
      rw [ih (by omega) (by rw [List.length_cons] at high; omega),List.insertIdx_succ_cons]

-- The added entries stand at the axes.
theorem addAxes_entry (others : (List.range' i n).countP (fun a => !axes.contains a) = xs.length)
    (member : a ∈ axes) (low : i ≤ a) (high : a < i + n) : (addAxes axes e i n xs)[a - i]? = some e := by
  induction n generalizing i xs with
  | zero => omega
  | succ n ih =>
    rw [List.range'_succ,List.countP_cons] at others
    unfold addAxes
    by_cases here : i = a
    · subst here
      rw [if_pos (List.contains_iff_mem.mpr member),Nat.sub_self]
      rfl
    · have next : a - i = a - (i + 1) + 1 := by omega
      rw [next]
      cases taken : axes.contains i with
      | true =>
        rw [taken] at others
        rw [if_pos rfl,List.getElem?_cons_succ]
        exact ih others (by omega) (by omega)
      | false =>
        rw [taken] at others
        rw [if_neg Bool.false_ne_true]
        obtain ⟨x,xs,rfl⟩ := List.exists_cons_of_length_eq_add_one others.symm
        rw [List.getElem?_cons_succ]
        exact ih (Nat.add_right_cancel others) (by omega) (by omega)

end Added

-- The axes counted in the result, each told once.
structure ExpandDims.Accepts (rank : Nat) (axes : List Int) : Prop where
  ranked : ∀ axis ∈ axes, Ranked (rank + axes.length) axis
  distinct : (axisPlaces (rank + axes.length) axes).Nodup

-- Axes are as many as they were told if none was told twice.
theorem chosen_length {axes : List Int} {rank : Nat} (ranked : ∀ axis ∈ axes, Ranked rank axis) :
    ((List.range rank).filter (axisPlaces rank axes).contains).length = axes.length ↔ (axisPlaces rank axes).Nodup := by
  have fresh : ((List.range rank).filter (axisPlaces rank axes).contains).Nodup := List.nodup_range.filter _
  have places : axes.length = (axisPlaces rank axes).length := (List.length_map _).symm
  have inside : (List.range rank).filter (axisPlaces rank axes).contains ⊆ axisPlaces rank axes :=
    fun _ member => (mem_chosen ranked).mp member
  rw [places]
  constructor
  · intro same
    exact ((fresh.subperm inside).perm_of_length_le same.ge).nodup_iff.mp fresh
  · intro distinct
    exact Nat.le_antisymm (fresh.subperm inside).length_le
      (distinct.subperm fun _ member => (mem_chosen ranked).mpr member).length_le

namespace ExpandDims

variable {α : Type} {axes : List Int} {e : α} {xs ys : List α} {x : Fact} {s : ShapeFact} {t : Tensor}

theorem expand_iff : expand axes e xs = .ok ys ↔ Accepts xs.length axes ∧ ys =
    addAxes ((List.range (xs.length + axes.length)).filter (axisPlaces (xs.length + axes.length) axes).contains) e 0
      (xs.length + axes.length) xs := by
  constructor
  · intro expanded
    obtain ⟨found,chosen,length,rfl⟩ := expand_ok expanded
    obtain ⟨ranked,rfl⟩ := normalizeAxes_ok.mp chosen
    exact ⟨⟨ranked,(chosen_length ranked).mp length⟩,rfl⟩
  · rintro ⟨accepts,rfl⟩
    refine bind_ok.mpr ⟨_,normalizeAxes_ok.mpr ⟨accepts.ranked,rfl⟩,?_⟩
    rw [if_pos ((chosen_length accepts.ranked).mpr accepts.distinct)]
    rfl

theorem expand_one {axis : Int} (ranked : Ranked (xs.length + 1) axis) :
    expand [axis] e xs = .ok (xs.insertIdx (axisPlace (xs.length + 1) axis).toNat e) := by
  have all := List.forall_mem_singleton.mpr ranked
  refine expand_iff.mpr ⟨⟨all,List.pairwise_singleton _ _⟩,?_⟩
  have inside : (axisPlace (xs.length + 1) axis).toNat ≤ 0 + xs.length := by
    unfold Ranked at ranked
    omega
  refine (addAxes_one (fun b => ?_) (Nat.zero_le _) inside).symm
  exact (mem_chosen all).trans List.mem_singleton

theorem infer_known {r : Facts × Facts} (known : x.shape = some s) : infer axes [x] [.unknown] = .ok r ↔
    ∃ q, expand axes .one s = .ok q ∧ r = ([x],[.outline x.dtype (some q)]) := by
  have shared : infer axes [x] [.unknown] = expand axes .one s >>= fun q => .ok ([x],[.outline x.dtype (some q)]) := by
    unfold infer
    rw [sharedPair_input,ok_bind]
    dsimp only
    rw [known]
    refine congrArg (_ >>= ·) (funext fun q => ?_)
    rw [Fact.open_withDims]
    rfl
  rw [shared,bind_ok]
  exact exists_congr fun q => and_congr_right fun _ =>
    ⟨fun equal => (Except.ok.inj equal).symm,fun equal => congrArg _ equal.symm⟩

theorem infer_open (unknown : x.shape = none) : infer axes [x] [.unknown] = .ok ([x],[.outline x.dtype none]) := by
  refine bind_ok.mpr ⟨_,sharedPair_input x,?_⟩
  dsimp only
  rw [unknown]
  rfl

-- The axes that were added can be told from the result, and dropping them takes them away.
theorem expand_undo (expanded : expand axes e xs = .ok ys) : ∃ found, normalizeAxes axes ys.length = .ok found ∧
    (∀ a ∈ found, ys[a]? = some e) ∧ dropAxes found ys = xs := by
  obtain ⟨found,chosen,length,rfl⟩ := expand_ok expanded
  have others := expand_others chosen length
  obtain ⟨rank,undone⟩ := dropAxes_addAxes (e := e) others
  refine ⟨found,by rw [rank,chosen],fun a member => ?_,undone⟩
  obtain ⟨-,rfl⟩ := normalizeAxes_ok.mp chosen
  have inside := List.mem_range.mp (List.mem_filter.mp member).1
  exact addAxes_entry others member (Nat.zero_le a) (by omega)

end ExpandDims

namespace Squeeze

variable {given : List Int} {dims : ShapeFact} {found : List Nat} {t : Tensor} {x : Fact}

theorem axes_ok (chosen : normalizeAxes given dims.length = .ok found) (ones : ∀ a ∈ found, dims[a]? = some .one) :
    axes (some given) dims = .ok (some found) := by
  refine bind_ok.mpr ⟨found,chosen,bind_ok.mpr ⟨_,loop_passes fun a member => ?_,rfl⟩⟩
  rw [List.getD_eq_getElem?_getD,ones a member]
  rfl

theorem eval_drops (chosen : normalizeAxes given t.shape.length = .ok found) (ones : ∀ a ∈ found, t.shape[a]? = some 1) :
    eval (some given) t = .ok (t.reshape (dropAxes found t.shape)) := by
  refine bind_ok.mpr ⟨some found,axes_ok (by rw [ShapeFact.length_ofShape,chosen]) fun a member => ?_,rfl⟩
  exact ShapeFact.place_ofShape (ones a member)

theorem infer_drops (known : x.shape = some dims) (chosen : normalizeAxes given dims.length = .ok found)
    (ones : ∀ a ∈ found, dims[a]? = some .one) :
    infer (some given) [x] [.unknown] = .ok ([x],[.outline x.dtype (some (dropAxes found dims))]) := by
  have same : (dims.zipIdx.map fun p => if found.contains p.2 then Dim.one else p.1) = dims := by
    refine (List.map_congr_left fun p member => ?_).trans (List.zipIdx_map_fst 0 dims)
    split
    · rename_i inside
      have entry := List.mem_zipIdx_iff_getElem?.mp member
      exact Option.some.inj ((ones p.2 (List.contains_iff_mem.mp inside)).symm.trans entry)
    · rfl
  refine bind_ok.mpr ⟨_,sharedPair_input x,?_⟩
  dsimp only
  rw [known]
  refine bind_ok.mpr ⟨some found,axes_ok chosen ones,bind_ok.mpr ⟨x,?_,?_⟩⟩
  · rw [same,Fact.withDims_own known]
  · rw [known]
    exact bind_ok.mpr ⟨_,Fact.open_withDims _ _,rfl⟩

end Squeeze

theorem set_insertIdx {α : Type} {xs : List α} {a : Nat} (inside : a ≤ xs.length) (x y : α) :
    (xs.insertIdx a x).set a y = xs.insertIdx a y := by
  have apart : a ≠ (xs.insertIdx a x).length := by
    rw [List.length_insertIdx_of_le_length inside]
    omega
  rw [← List.insertIdx_eraseIdx_self apart,List.eraseIdx_insertIdx_self]

namespace Concat

variable {a : Nat} {ts : List Tensor} {t : Tensor} {shape : Shape} {index : List Nat}

-- Of tensors that are one element long on the axis, each stands at its own coordinate.
theorem pick_ones (dtype : DType) (index : List Nat) (ones : ∀ t ∈ ts, t.shape.getD a 0 = 1) (i : Nat) :
    pick a dtype index ts i = match ts[i]? with
      | some t => t.get (index.set a 0)
      | none => .zero dtype := by
  induction ts generalizing i with
  | nil => rfl
  | cons t ts ih =>
    obtain ⟨one,later⟩ := List.forall_mem_cons.mp ones
    rw [pick,one]
    cases i with
    | zero => rfl
    | succ i => exact ih later i

theorem join_expanded (dtype : DType) (inside : a ≤ shape.length) (shapes : ∀ t ∈ ts, t.shape = shape) :
    join a dtype (shape.insertIdx a 1) (ts.map fun t => t.reshape (shape.insertIdx a 1)) = Pack.stack a dtype shape ts := by
  have axis : a < (shape.insertIdx a 1).length := by
    rw [List.length_insertIdx_of_le_length inside]
    omega
  have one : (shape.insertIdx a 1).getD a 0 = 1 := by
    rw [← set_insertIdx inside 0 1,getD_set (by rwa [List.length_insertIdx_of_le_length inside] at axis ⊢)]
  have ones : ∀ u ∈ ts.map fun t => t.reshape (shape.insertIdx a 1), u.shape.getD a 0 = 1 :=
    List.forall_mem_map.mpr fun _ _ => one
  have total : ((ts.map fun t => t.reshape (shape.insertIdx a 1)).map fun u => u.shape.getD a 0).foldr (· + ·) 0 =
      ts.length := by
    rw [← List.sum_eq_foldr,List.map_congr_left ones,List.map_const',List.sum_replicate_nat,List.length_map,Nat.mul_one]
  unfold join Pack.stack
  dsimp only
  rw [total,set_insertIdx inside]
  refine Tensor.tabulate_congr fun index member => ?_
  have length := Shape.length_of_mem member
  rw [List.length_insertIdx_of_le_length inside] at length
  rw [pick_ones dtype index ones,List.getElem?_map]
  cases entry : ts[index.getD a 0]? with
  | none => rfl
  | some t =>
    have same := shapes t (List.mem_of_getElem? entry)
    change t.data.getD (Shape.offset (shape.insertIdx a 1) (index.set a 0)) _ = t.data.getD (Shape.offset t.shape _) _
    rw [Shape.offset_insertIdx inside length,same]
    rfl

-- Facts that know the same shape, in which the joined axis is one long.
theorem infer_ones {axis : Int} {fs : Facts} {d : Option DType} {s : ShapeFact} (filled : fs ≠ [])
    (inside : a ≤ s.length) (chosen : normalizeAxis axis (s.length + 1) = .ok a) (types : ∀ f ∈ fs, f.dtype = d)
    (shapes : ∀ f ∈ fs, f.shape = some (s.insertIdx a .one)) :
    infer axis fs [.unknown] = .ok (fs,[.outline d (some (s.insertIdx a (.known fs.length)))]) := by
  have length (e : Dim) := List.length_insertIdx_of_le_length inside e
  have place (e : Dim) : (s.insertIdx a e)[a]? = some e := by
    rw [← set_insertIdx inside .one e,List.getElem?_set_self (by rw [length]; omega)]
  have told : fs.mapM Fact.shape = some (fs.map fun _ => s.insertIdx a .one) := by
    rw [mapM_some,List.forall₂_map_right_iff,List.forall₂_same]
    exact shapes
  have count : (fs.map fun _ => 1).foldr (· + ·) 0 = fs.length := by
    rw [← List.sum_eq_foldr,List.map_const',List.sum_replicate_nat,Nat.mul_one]
  have extents : List.Forall₂ (fun (r : ShapeFact) n => r[a]? = some (.known n)) (fs.map fun _ => s.insertIdx a .one)
      (fs.map fun _ => 1) := by
    rw [List.forall₂_map_left_iff,List.forall₂_map_right_iff,List.forall₂_same]
    exact fun _ _ => place .one
  refine infer_row filled types (by rw [length,chosen]) (fun f member b apart => ?_) told extents (by rw [count,place])
  refine ⟨_,shapes f member,by rw [length,length],?_⟩
  rw [← set_insertIdx inside .one (.known fs.length),List.getElem?_set_ne apart.symm]

theorem infer_open {axis : Int} {fs : Facts} {d : Option DType} (filled : fs ≠ []) (types : ∀ f ∈ fs, f.dtype = d)
    (unknown : ∀ f ∈ fs, f.shape = none) : infer axis fs [.unknown] = .ok (fs,[.outline d none]) := by
  have none : (fs ++ [Fact.outline d none]).findSome? Fact.rank = none := by
    refine List.findSome?_eq_none_iff.mpr (List.forall_mem_append.mpr ⟨fun f member => ?_,List.forall_mem_singleton.mpr rfl⟩)
    rw [Fact.rank,unknown f member]
    rfl
  rw [infer_eq]
  refine bind_ok.mpr ⟨_,shareDType_beside filled types,?_⟩
  unfold place
  rw [none,List.dropLast_concat,List.getLastD_concat]
  rfl

end Concat

namespace Pack

variable {axis : Int} {a : Nat} {d : DType} {first : Tensor} {rest : List Tensor} {fs : Facts} {o : Option DType} {s : ShapeFact}

theorem commonDType_alike {types : List DType} (filled : types ≠ []) (same : ∀ e ∈ types, e = d) :
    commonDType types = .ok d := by
  match types, filled with
  | e :: types, _ =>
    obtain ⟨rfl,later⟩ := List.forall_mem_cons.mp same
    unfold commonDType DType.superType?
    dsimp only
    rw [if_pos (List.all_eq_true.mpr fun u member => beq_iff_eq.mpr (later u member))]

theorem eval_alike (alike : ∀ t ∈ first :: rest, t.shape = first.shape ∧ t.dtype = first.dtype)
    (chosen : normalizeAxis axis (first.shape.length + 1) = .ok a) :
    eval axis first rest = .ok (stack a first.dtype first.shape (first :: rest)) := by
  have common : commonDType ((first :: rest).map Tensor.dtype) = .ok first.dtype :=
    commonDType_alike nofun (List.forall_mem_map.mpr fun t member => (alike t member).2)
  have same : (first :: rest).mapM (·.ofTensor (some first.dtype)) = .ok (first :: rest) := by
    rw [mapM_ok,List.forall₂_same]
    exact fun t member => if_pos (alike t member).2
  refine bind_ok.mpr ⟨_,common,?_⟩
  dsimp only
  rw [if_pos (List.all_eq_true.mpr fun t member => beq_iff_eq.mpr (alike t member).1)]
  exact bind_ok.mpr ⟨a,chosen,bind_ok.mpr ⟨_,same,rfl⟩⟩

theorem packType_alike (filled : fs ≠ []) (types : ∀ f ∈ fs, f.dtype = o) : packType fs .unknown = .ok (.outline o none) := by
  unfold packType
  cases o with
  | none =>
    match fs, filled with
    | f :: fs, _ =>
      rw [List.mapM_cons,types f List.mem_cons_self]
      rfl
  | some d =>
    have told : fs.mapM Fact.dtype = some (fs.map fun _ => d) := by
      rw [mapM_some,List.forall₂_map_right_iff,List.forall₂_same]
      exact types
    rw [told]
    exact bind_ok.mpr ⟨d,commonDType_alike (by simpa using filled) (List.forall_mem_map.mpr fun _ _ => rfl),
      Fact.unknown_withDType _⟩

theorem infer_alike (filled : fs ≠ []) (types : ∀ f ∈ fs, f.dtype = o) (shapes : ∀ f ∈ fs, f.shape = some s)
    (chosen : normalizeAxis axis (s.length + 1) = .ok a) :
    infer axis fs [.unknown] = .ok (fs,[.outline o (some (s.insertIdx a (.known fs.length)))]) := by
  have first : (Facts.first fs).shape = some s := by
    match fs, filled with
    | f :: fs, _ => exact shapes f List.mem_cons_self
  rw [infer_eq]
  refine bind_ok.mpr ⟨fs,shareShape_alike shapes,bind_ok.mpr ⟨_,packType_alike filled types,?_⟩⟩
  unfold place
  rw [first]
  exact bind_ok.mpr ⟨a,chosen,bind_ok.mpr ⟨_,Fact.open_withDims _ _,rfl⟩⟩

theorem infer_open (filled : fs ≠ []) (types : ∀ f ∈ fs, f.dtype = o) (unknown : ∀ f ∈ fs, f.shape = none) :
    infer axis fs [.unknown] = .ok (fs,[.outline o none]) := by
  have first : (Facts.first fs).shape = none := by
    match fs, filled with
    | f :: fs, _ => exact unknown f List.mem_cons_self
  rw [infer_eq]
  refine bind_ok.mpr ⟨fs,shareShape_untold unknown,bind_ok.mpr ⟨_,packType_alike filled types,?_⟩⟩
  unfold place
  rw [first]
  rfl

end Pack

namespace Op

variable {axis : Int} {ts : List Tensor} {shape : Shape} {dtype : DType} {xs : Facts} {o : Option ShapeFact}
  {d : Option DType}

theorem eval_expandDims {axes : List Int} {t u : Tensor} : (expandDims axes).eval [t] = .ok [u] ↔
    ∃ s, ExpandDims.expand axes 1 t.shape = .ok s ∧ u = t.reshape s := by
  constructor
  · intro evaluated
    obtain ⟨v,made,equal⟩ := map_ok.mp evaluated
    cases equal
    obtain ⟨s,expanded,equal⟩ := bind_ok.mp made
    exact ⟨s,expanded,(Except.ok.inj equal).symm⟩
  · rintro ⟨s,expanded,rfl⟩
    exact map_ok.mpr ⟨_,bind_ok.mpr ⟨s,expanded,rfl⟩,rfl⟩

theorem eval_pack (filled : ts ≠ []) (alike : ∀ t ∈ ts, t.shape = shape ∧ t.dtype = dtype)
    (ranked : Ranked (shape.length + 1) axis) : ∃ expanded u, (pack axis).eval ts = .ok [u] ∧
      List.Forall₂ (fun t e => (expandDims [axis]).eval [t] = .ok [e]) ts expanded ∧ (concat axis).eval expanded = .ok [u] := by
  have chosen := normalizeAxis_ok.mpr ⟨ranked,rfl⟩
  have inside := Nat.le_of_lt_succ (normalizeAxis_lt chosen)
  have added := ExpandDims.expand_one (e := 1) ranked
  generalize (axisPlace (shape.length + 1) axis).toNat = a at chosen inside added
  match ts, filled with
  | first :: rest, _ =>
    obtain ⟨rfl,rfl⟩ := alike first List.mem_cons_self
    have rank : (first.shape.insertIdx a 1).length = first.shape.length + 1 := List.length_insertIdx_of_le_length inside 1
    have beside : ∀ t ∈ rest.map fun t => t.reshape (first.shape.insertIdx a 1), t.dtype = first.dtype ∧
        Concat.Beside a t.shape (first.reshape (first.shape.insertIdx a 1)).shape :=
      List.forall_mem_map.mpr fun t other => ⟨(alike t (List.mem_cons_of_mem _ other)).2,rfl,fun _ _ => rfl⟩
    have joined := @Concat.eval_join (first.reshape (first.shape.insertIdx a 1)) _ a axis beside (rank.symm ▸ chosen)
    refine ⟨(first :: rest).map fun t => t.reshape (first.shape.insertIdx a 1),_,
      map_ok.mpr ⟨_,Pack.eval_alike alike chosen,rfl⟩,?_,map_ok.mpr ⟨_,joined,?_⟩⟩
    · rw [List.forall₂_map_right_iff,List.forall₂_same]
      exact fun t member => eval_expandDims.mpr ⟨_,(alike t member).1.symm ▸ added,rfl⟩
    · exact congrArg ([·]) (Concat.join_expanded first.dtype inside fun t member => (alike t member).1)

theorem infer_pack (filled : xs ≠ []) (alike : ∀ x ∈ xs, x.shape = o ∧ x.dtype = d)
    (ranked : ∀ s, o = some s → Ranked (s.length + 1) axis) : ∃ expanded out, (pack axis).infer xs [.unknown] = .ok (xs,[out]) ∧
      List.Forall₂ (fun x e => (expandDims [axis]).infer [x] [.unknown] = .ok ([x],[e])) xs expanded ∧
      (concat axis).infer expanded [.unknown] = .ok (expanded,[out]) := by
  have types (x : Fact) (member : x ∈ xs) := (alike x member).2
  have shapes (x : Fact) (member : x ∈ xs) := (alike x member).1
  have kept {e : Fact} (dtype : e.dtype = d) : ∀ f ∈ xs.map fun _ => e, f.dtype = d := List.forall_mem_map.mpr fun _ _ => dtype
  cases o with
  | none =>
    refine ⟨xs.map fun _ => .outline d none,_,Pack.infer_open filled types shapes,?_,
      Concat.infer_open (by simpa using filled) (kept rfl) (List.forall_mem_map.mpr fun _ _ => rfl)⟩
    rw [List.forall₂_map_right_iff,List.forall₂_same]
    exact fun x member => types x member ▸ ExpandDims.infer_open (shapes x member)
  | some s =>
    have ranked := ranked s rfl
    have chosen := normalizeAxis_ok.mpr ⟨ranked,rfl⟩
    have inside := Nat.le_of_lt_succ (normalizeAxis_lt chosen)
    have added := ExpandDims.expand_one (e := Dim.one) ranked
    generalize (axisPlace (s.length + 1) axis).toNat = a at chosen inside added
    have shaped : ∀ f ∈ xs.map fun _ => Fact.outline d (some (s.insertIdx a .one)), f.shape = some (s.insertIdx a .one) :=
      List.forall_mem_map.mpr fun _ _ => rfl
    have joined := Concat.infer_ones (by simpa using filled) inside chosen (kept rfl) shaped
    rw [List.length_map] at joined
    refine ⟨_,_,Pack.infer_alike filled types shapes chosen,?_,joined⟩
    rw [List.forall₂_map_right_iff,List.forall₂_same]
    exact fun x member => types x member ▸ (ExpandDims.infer_known (shapes x member)).mpr ⟨_,added,rfl⟩

-- Stacking is joining along an axis that has been added, of tensors and of what is known of them; and added axes can be
-- dropped again.
theorem added_axes :
    (∀ axis ts shape dtype, ts ≠ [] → (∀ t ∈ ts, t.shape = shape ∧ t.dtype = dtype) → Ranked (shape.length + 1) axis →
      ∃ expanded u, (pack axis).eval ts = .ok [u] ∧
        List.Forall₂ (fun t e => (expandDims [axis]).eval [t] = .ok [e]) ts expanded ∧ (concat axis).eval expanded = .ok [u]) ∧
    (∀ axis (xs : Facts) o d, xs ≠ [] → (∀ x ∈ xs, x.shape = o ∧ x.dtype = d) →
      (∀ s, o = some s → Ranked (s.length + 1) axis) → ∃ expanded out, (pack axis).infer xs [.unknown] = .ok (xs,[out]) ∧
        List.Forall₂ (fun x e => (expandDims [axis]).infer [x] [.unknown] = .ok ([x],[e])) xs expanded ∧
        (concat axis).infer expanded [.unknown] = .ok (expanded,[out])) ∧
    (∀ axes t, ((∃ u, (expandDims axes).eval [t] = .ok [u]) ↔ ExpandDims.Accepts t.shape.length axes) ∧
      ∀ u, (expandDims axes).eval [t] = .ok [u] → (squeeze (some axes)).eval [u] = .ok [t]) ∧
    ∀ axes (x : Fact) s, x.shape = some s →
      ((∃ out, (expandDims axes).infer [x] [.unknown] = .ok ([x],[out])) ↔ ExpandDims.Accepts s.length axes) ∧
      ∀ out, (expandDims axes).infer [x] [.unknown] = .ok ([x],[out]) →
        (squeeze (some axes)).infer [out] [.unknown] = .ok ([out],[.outline x.dtype (some s)]) := by
  refine ⟨fun _ _ _ _ => eval_pack,fun _ _ _ _ => infer_pack,fun axes t => ⟨?_,fun u evaluated => ?_⟩,
    fun axes x s known => ⟨?_,fun out found => ?_⟩⟩
  · constructor
    · rintro ⟨u,evaluated⟩
      obtain ⟨_,expanded,-⟩ := eval_expandDims.mp evaluated
      exact (ExpandDims.expand_iff.mp expanded).1
    · intro accepts
      exact ⟨_,eval_expandDims.mpr ⟨_,ExpandDims.expand_iff.mpr ⟨accepts,rfl⟩,rfl⟩⟩
  · obtain ⟨s,expanded,rfl⟩ := eval_expandDims.mp evaluated
    obtain ⟨found,chosen,ones,undone⟩ := ExpandDims.expand_undo expanded
    refine map_ok.mpr ⟨t,(Squeeze.eval_drops (t := t.reshape s) chosen ones).trans ?_,rfl⟩
    change Except.ok (t.reshape (dropAxes found s)) = _
    rw [undone]
    rfl
  · constructor
    · rintro ⟨out,found⟩
      obtain ⟨_,expanded,-⟩ := (ExpandDims.infer_known known).mp found
      exact (ExpandDims.expand_iff.mp expanded).1
    · intro accepts
      exact ⟨_,(ExpandDims.infer_known known).mpr ⟨_,ExpandDims.expand_iff.mpr ⟨accepts,rfl⟩,rfl⟩⟩
  · obtain ⟨q,expanded,equal⟩ := (ExpandDims.infer_known known).mp found
    cases equal
    obtain ⟨found,chosen,ones,undone⟩ := ExpandDims.expand_undo expanded
    have dropped := Squeeze.infer_drops (x := .outline x.dtype (some q)) rfl chosen ones
    rwa [undone] at dropped

def columns : List Tensor := [⟨.i8,[2],[.int 1,.int 2]⟩,⟨.i8,[2],[.int 3,.int 4]⟩]

def streams : Facts := [.outline none (some [.streaming]),.outline none (some [.streaming])]

-- The axis of the stack is counted from the end; the axes that are added, from both ends.
theorem added_axes_columns : Ranked 2 (-1) ∧ ExpandDims.Accepts 1 [-1,0] ∧
    (∃ expanded, (pack (-1)).eval columns = .ok [⟨.i8,[2,2],[.int 1,.int 3,.int 2,.int 4]⟩] ∧
      List.Forall₂ (fun t e => (expandDims [-1]).eval [t] = .ok [e]) columns expanded ∧
      (concat (-1)).eval expanded = .ok [⟨.i8,[2,2],[.int 1,.int 3,.int 2,.int 4]⟩]) ∧
    (∃ expanded, (pack (-1)).infer streams [.unknown] = .ok (streams,[.outline none (some [.streaming,.known 2])]) ∧
      List.Forall₂ (fun x e => (expandDims [-1]).infer [x] [.unknown] = .ok ([x],[e])) streams expanded ∧
      (concat (-1)).infer expanded [.unknown] = .ok (expanded,[.outline none (some [.streaming,.known 2])])) ∧
    (squeeze (some [-1,0])).eval [⟨.i8,[1,2,1],[.int 1,.int 2]⟩] = .ok [⟨.i8,[2],[.int 1,.int 2]⟩] ∧
    (squeeze (some [-1,0])).infer [.outline none (some [.one,.streaming,.one])] [.unknown] =
      .ok ([.outline none (some [.one,.streaming,.one])],[.outline none (some [.streaming])]) := by
  obtain ⟨packs,infers,drops,redrops⟩ := added_axes
  have ranked : Ranked 2 (-1) := ⟨by decide,by decide⟩
  obtain ⟨expanded,u,packed,added,joined⟩ := packs (-1) columns [2] .i8 nofun (by decide) ranked
  have computed : (pack (-1)).eval columns = .ok [⟨.i8,[2,2],[.int 1,.int 3,.int 2,.int 4]⟩] := rfl
  cases computed.symm.trans packed
  obtain ⟨expanded',out,told,known,learned⟩ := infers (-1) streams (some [.streaming]) none nofun
    (by simp [streams,Fact.shape,Fact.dtype]) fun s same => Option.some.inj same ▸ ranked
  have inferred : (pack (-1)).infer streams [.unknown] = .ok (streams,[.outline none (some [.streaming,.known 2])]) := rfl
  cases inferred.symm.trans told
  have wrapped : (expandDims [-1,0]).eval [⟨.i8,[2],[.int 1,.int 2]⟩] = .ok [⟨.i8,[1,2,1],[.int 1,.int 2]⟩] := rfl
  obtain ⟨accepts,dropped⟩ := drops [-1,0] ⟨.i8,[2],[.int 1,.int 2]⟩
  exact ⟨ranked,accepts.mp ⟨_,wrapped⟩,⟨expanded,computed,added,joined⟩,⟨expanded',inferred,known,learned⟩,dropped _ wrapped,
    (redrops [-1,0] (.outline none (some [.streaming])) _ rfl).2 (.outline none (some [.one,.streaming,.one])) rfl⟩

end Op

end TensorGraph
