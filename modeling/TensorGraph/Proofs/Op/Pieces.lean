import TensorGraph.Op
import TensorGraph.Proofs.Op.Block
import TensorGraph.Proofs.Shape.Axes

namespace TensorGraph
open Outcome

variable {t u : Tensor} {ts front : List Tensor} {shape : Shape} {index sizes : List Nat} {cuts : List (List Span)}
  {a start i rank : Nat}

namespace Span

-- Slices of one axis that lie one behind the other, each of its own size.
inductive Splits (shape : Shape) (a : Nat) : Nat → List (List Span) → List Nat → Prop where
  | nil {start : Nat} : Splits shape a start [] []
  | cons {start size : Nat} {spans : List Span} {cuts : List (List Span)} {sizes : List Nat}
      (first : Cuts spans shape a start size) (rest : Splits shape a (start + size) cuts sizes) :
      Splits shape a start (spans :: cuts) (size :: sizes)

end Span

theorem Op.slice_splits (splits : Span.Splits t.shape a start cuts sizes)
    (room : start + sizes.sum ≤ t.shape.getD a 0) :
    cuts.mapM (fun spans => (slice spans).eval [t]) = .ok ((t.blocks a start sizes).map ([·])) := by
  induction splits with
  | nil => rfl
  | cons first _ ih =>
    rw [List.sum_cons,← Nat.add_assoc] at room
    have taken := Slice.eval_cuts first (Nat.le_of_add_right_le room)
    rw [List.mapM_cons]
    exact bind_ok.mpr ⟨_,map_ok.mpr ⟨_,taken,rfl⟩,bind_ok.mpr ⟨_,ih room,rfl⟩⟩

namespace Concat

-- Tensors to be joined along an axis: of one type and one rank, and as long as each other on the other axes.
structure Row (ts : List Tensor) (rank a : Nat) : Prop where
  filled : ts ≠ []
  sized : ∀ t ∈ ts, t.data.length = t.shape.size
  ranks : ∀ t ∈ ts, t.shape.length = rank
  types : ∀ t ∈ ts, ∀ u ∈ ts, t.dtype = u.dtype
  beside : ∀ t ∈ ts, ∀ u ∈ ts, ∀ b, b ≠ a → t.shape[b]? = u.shape[b]?

def extents (a : Nat) (ts : List Tensor) : List Nat := ts.map fun t => t.shape.getD a 0

theorem Beside.set_eq {s shape : Shape} (beside : Beside a s shape) (n : Nat) : s.set a n = shape.set a n := by
  refine List.ext_getElem? fun b => ?_
  by_cases axis : b = a
  · subst axis
    simp only [List.getElem?_set,beside.rank,if_true]
  · rw [List.getElem?_set_ne (Ne.symm axis),List.getElem?_set_ne (Ne.symm axis),beside.others b axis]

-- Past the tensors in front the count begins anew.
theorem pick_append (dtype : DType) (index : List Nat) (front ts : List Tensor) (i : Nat) :
    pick a dtype index (front ++ ts) ((extents a front).sum + i) = pick a dtype index ts i := by
  induction front with
  | nil => rw [List.nil_append,extents,List.map_nil,List.sum_nil,Nat.zero_add]
  | cons t front ih =>
    have behind : (extents a (t :: front)).sum + i = t.shape.getD a 0 + ((extents a front).sum + i) := by
      rw [extents,List.map_cons,List.sum_cons,Nat.add_assoc]
      rfl
    rw [behind,List.cons_append,pick,if_neg (by omega),Nat.add_sub_cancel_left,ih]

theorem join_shape (dtype : DType) (shape : Shape) (ts : List Tensor) :
    (join a dtype shape ts).shape = shape.set a (extents a ts).sum := by
  rw [List.sum_eq_foldr]
  rfl

-- The part of the joined tensor that stands where a tensor was put is that tensor.
theorem block_join {rest : List Tensor} (inside : a < shape.length) (beside : Beside a t.shape shape) :
    (join a t.dtype shape (front ++ t :: rest)).block a (extents a front).sum (t.shape.getD a 0) = t.table := by
  have total : (extents a (front ++ t :: rest)).sum = (extents a front).sum + (t.shape.getD a 0 + (extents a rest).sum) := by
    rw [extents,List.map_append,List.sum_append,List.map_cons,List.sum_cons]
    rfl
  have wide := join_shape (a := a) t.dtype shape (front ++ t :: rest)
  have own : (join a t.dtype shape (front ++ t :: rest)).shape.set a (t.shape.getD a 0) = t.shape := by
    rw [wide,List.set_set,← beside.set_eq,Shape.set_extent]
  rw [Tensor.block,own]
  refine Tensor.tabulate_congr fun index member => ?_
  have axis : a < index.length := by rwa [Shape.length_of_mem member,beside.rank]
  have here := Shape.getD_lt member (a := a) (by rwa [beside.rank])
  have place : index.set a ((extents a front).sum + index.getD a 0) ∈
      Shape.indices (shape.set a (extents a (front ++ t :: rest)).sum) := by
    rw [← beside.set_eq]
    exact Shape.set_mem member (by omega)
  rw [join,Tensor.get_tabulate _ _ (by rwa [← List.sum_eq_foldr]),getD_set axis,pick_append,pick,if_pos here,
    List.set_set,Shape.set_extent]

theorem blocks_join {dtype : DType} (inside : a < shape.length) (types : ∀ t ∈ ts, t.dtype = dtype)
    (beside : ∀ t ∈ ts, Beside a t.shape shape) (front : List Tensor) :
    (join a dtype shape (front ++ ts)).blocks a (extents a front).sum (extents a ts) = ts.map Tensor.table := by
  induction ts generalizing front with
  | nil => rfl
  | cons t ts ih =>
    obtain ⟨rfl,later⟩ := List.forall_mem_cons.mp types
    obtain ⟨near,others⟩ := List.forall_mem_cons.mp beside
    have behind := ih later others (front ++ [t])
    rw [List.append_assoc,List.singleton_append] at behind
    have moved : (extents a (front ++ [t])).sum = (extents a front).sum + t.shape.getD a 0 := by
      simp [extents]
    rw [moved] at behind
    change Tensor.block _ a _ _ :: Tensor.blocks _ a _ (extents a ts) = _
    rw [block_join inside near,behind]
    rfl

end Concat

namespace Op

variable {axis : Int}

-- Slices of joined tensors where they were put are the tensors, and slices that cover an axis join to the tensor.
theorem joins_split (ranked : Ranked rank axis) :
    (∀ ts, Concat.Row ts rank (axisPlace rank axis).toNat → ∃ whole, (concat axis).eval ts = .ok [whole] ∧
      ∀ cuts, Span.Splits whole.shape (axisPlace rank axis).toNat 0 cuts (Concat.extents (axisPlace rank axis).toNat ts) →
        cuts.mapM (fun spans => (slice spans).eval [whole]) = .ok (ts.map ([·]))) ∧
    ∀ t : Tensor, t.data.length = t.shape.size → t.shape.length = rank → ∀ sizes, sizes ≠ [] →
      sizes.sum = t.shape.getD (axisPlace rank axis).toNat 0 →
      ∀ cuts, Span.Splits t.shape (axisPlace rank axis).toNat 0 cuts sizes → ∃ pieces,
        cuts.mapM (fun spans => (slice spans).eval [t]) = .ok (pieces.map ([·])) ∧ (concat axis).eval pieces = .ok [t] := by
  have found := normalizeAxis_ok.mpr ⟨ranked,rfl⟩
  have inside := normalizeAxis_lt found
  generalize (axisPlace rank axis).toNat = a at found inside
  refine ⟨fun ts row => ?_,?_⟩
  · match ts, row with
    | first :: rest, row =>
      have lead := row.ranks first List.mem_cons_self
      have alike (t : Tensor) (member : t ∈ first :: rest) : t.dtype = first.dtype ∧ Concat.Beside a t.shape first.shape :=
        ⟨row.types t member first List.mem_cons_self,(row.ranks t member).trans lead.symm,
          row.beside t member first List.mem_cons_self⟩
      have evaluated := Concat.eval_join (fun t member => alike t (List.mem_cons_of_mem _ member)) (lead.symm ▸ found)
      refine ⟨_,map_ok.mpr ⟨_,evaluated,rfl⟩,fun cuts splits => ?_⟩
      have room : 0 + (Concat.extents a (first :: rest)).sum ≤
          (Concat.join a first.dtype first.shape (first :: rest)).shape.getD a 0 := by
        rw [Concat.join_shape,Concat.getD_set (lead.symm ▸ inside),Nat.zero_add]
      have pieces := Concat.blocks_join (lead.symm ▸ inside) (fun t member => (alike t member).1)
        (fun t member => (alike t member).2) []
      rw [slice_splits splits room]
      refine congrArg (fun pieces => Except.ok (pieces.map ([·]))) (pieces.trans ?_)
      exact (List.map_congr_left fun t member => Tensor.table_eq (row.sized t member)).trans (List.map_id _)
  · rintro t sized rfl sizes filled whole cuts splits
    refine ⟨_,slice_splits splits (by rw [Nat.zero_add,whole]),?_⟩
    match sizes, filled with
    | size :: sizes, _ =>
      exact map_ok.mpr ⟨t,(Concat.eval_blocks rfl found whole).trans (congrArg _ (Tensor.table_eq sized)),rfl⟩

def strips : List Tensor := [⟨.i8,[2,1],[.int 1,.int 4]⟩,⟨.i8,[2,0],[]⟩,⟨.i8,[2,2],[.int 2,.int 3,.int 5,.int 6]⟩]

def sheet : Tensor := ⟨.i8,[2,3],[.int 1,.int 2,.int 3,.int 4,.int 5,.int 6]⟩

def sheetCuts : List (List Span) := [[⟨0,none⟩,⟨0,some 1⟩],[⟨0,some 2⟩,⟨1,some 0⟩],[⟨0,none⟩,⟨1,none⟩]]

theorem sheet_splits : Span.Splits sheet.shape 1 0 sheetCuts [1,0,2] := by
  have cut {x y : Option Nat} {k n : Nat} (whole : Span.stop ⟨0,x⟩ 2 = 2) (part : Span.stop ⟨k,y⟩ 3 = k + n) :
      Span.Cuts [⟨0,x⟩,⟨k,y⟩] [2,3] 1 k n := by
    refine ⟨rfl,fun s n chosen extent => ?_,fun b s n apart chosen extent => ?_⟩
    · cases chosen
      cases extent
      exact ⟨rfl,part⟩
    · match b with
      | 0 =>
        cases chosen
        cases extent
        exact ⟨rfl,whole⟩
      | 1 => exact absurd rfl apart
      | b + 2 => cases extent
  exact .cons (cut rfl rfl) (.cons (cut rfl rfl) (.cons (cut rfl rfl) .nil))

-- One of the pieces is empty, and the axis is counted from the end.
theorem joins_split_sheet : Ranked 2 (-1) ∧ Concat.Row strips 2 1 ∧ [1,0,2].sum = sheet.shape.getD 1 0 ∧
    (concat (-1)).eval strips = .ok [sheet] ∧
    sheetCuts.mapM (fun spans => (slice spans).eval [sheet]) = .ok (strips.map ([·])) ∧
    ∃ pieces, sheetCuts.mapM (fun spans => (slice spans).eval [sheet]) = .ok (pieces.map ([·])) ∧
      (concat (-1)).eval pieces = .ok [sheet] := by
  have ranked : Ranked 2 (-1) := ⟨by decide,by decide⟩
  have row : Concat.Row strips 2 1 := by
    have each : ∀ t ∈ strips, ∃ n, t.shape = [2,n] :=
      List.forall_mem_cons.mpr ⟨⟨1,rfl⟩,List.forall_mem_cons.mpr ⟨⟨0,rfl⟩,List.forall_mem_singleton.mpr ⟨2,rfl⟩⟩⟩
    refine ⟨nofun,by decide,by decide,by decide,fun t first u second b apart => ?_⟩
    obtain ⟨m,here⟩ := each t first
    obtain ⟨n,there⟩ := each u second
    rw [here,there]
    match b with
    | 0 => rfl
    | 1 => exact absurd rfl apart
    | b + 2 => rfl
  obtain ⟨joined,covered⟩ := joins_split ranked
  obtain ⟨whole,evaluated,restored⟩ := joined strips row
  have computed : (concat (-1)).eval strips = .ok [sheet] := by rfl
  cases computed.symm.trans evaluated
  exact ⟨ranked,row,rfl,computed,restored _ sheet_splits,covered sheet rfl rfl [1,0,2] nofun rfl _ sheet_splits⟩

end Op

end TensorGraph
