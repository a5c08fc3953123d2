import TensorGraph.Proofs.Op.Meets.Join
import TensorGraph.Proofs.Op.Sound.Axes
import TensorGraph.Proofs.Tensor.Stretch

namespace TensorGraph
open Outcome

namespace Shape

variable {s : Shape} {index : List Nat} {a b : Nat}

theorem length_of_mem (inside : index ∈ indices s) : index.length = s.length := (mem_indices.mp inside).length_eq

theorem mem_of_getD_lt (length : index.length = s.length) (each : ∀ a < s.length, index.getD a 0 < s.getD a 0) :
    index ∈ indices s := by
  refine mem_indices.mpr (List.forall₂_iff_get.mpr ⟨length,fun a below inside => ?_⟩)
  have entry := each a inside
  rwa [List.getD_eq_getElem?_getD,List.getElem?_eq_getElem below,List.getD_eq_getElem?_getD,
    List.getElem?_eq_getElem inside] at entry

theorem ext_getD {xs ys : List Nat} (length : xs.length = ys.length) (each : ∀ a < ys.length, xs.getD a 0 = ys.getD a 0) :
    xs = ys := by
  refine List.ext_getElem length fun a below inside => ?_
  have entry := each a inside
  rwa [List.getD_eq_getElem?_getD,List.getElem?_eq_getElem below,List.getD_eq_getElem?_getD,
    List.getElem?_eq_getElem inside] at entry

theorem getD_set {n : Nat} (axis : a < s.length) : (s.set a n).getD b 0 = if a = b then n else s.getD b 0 := by
  simp only [List.getD_eq_getElem?_getD,List.getElem?_set,axis,if_true]
  split <;> rfl

theorem set_mem {i n : Nat} (inside : index ∈ indices s) (below : i < n) : index.set a i ∈ indices (s.set a n) :=
  mem_indices.mpr (forall₂_set (mem_indices.mp inside) a below)

theorem getD_lt (inside : index ∈ indices s) (axis : a < s.length) : index.getD a 0 < s.getD a 0 := by
  obtain ⟨i,place,below⟩ := forall₂_getElem? (mem_indices.mp inside) (List.getElem?_eq_getElem axis)
  rw [List.getD_eq_getElem?_getD,place,List.getD_eq_getElem?_getD,List.getElem?_eq_getElem axis]
  exact below

theorem set_extent (s : Shape) (a : Nat) : s.set a (s.getD a 0) = s := by
  by_cases axis : a < s.length
  · rw [List.getD_eq_getElem?_getD,List.getElem?_eq_getElem axis]
    exact List.set_getElem_self axis
  · exact List.set_eq_of_length_le (by omega)

end Shape

namespace Tensor

variable {t u : Tensor} {dtype : DType} {shape : Shape} {index : List Nat} {f g : List Nat → Scalar} {a : Nat}

-- The tensor of the elements that stand at the indices.
def table (t : Tensor) : Tensor := tabulate t.dtype t.shape t.get

theorem table_tabulate : (tabulate dtype shape f).table = tabulate dtype shape f :=
  tabulate_congr fun _ inside => get_tabulate dtype f inside

theorem get_table (inside : index ∈ t.shape.indices) : t.table.get index = t.get index :=
  get_tabulate t.dtype t.get inside

theorem table_eq (sized : t.data.length = t.shape.size) : t.table = t :=
  congrArg (Tensor.mk t.dtype t.shape) (data_eq sized).symm

-- As many elements of an axis as are told, from a start on.
def block (t : Tensor) (axis start size : Nat) : Tensor :=
  tabulate t.dtype (t.shape.set axis size) fun index => t.get (index.set axis (start + index.getD axis 0))

theorem get_block {start size : Nat} (inside : index ∈ (t.block a start size).shape.indices) :
    (t.block a start size).get index = t.get (index.set a (start + index.getD a 0)) := get_tabulate _ _ inside

theorem block_extent {b start size : Nat} (axis : a < t.shape.length) :
    (t.block a start size).shape.getD b 0 = if a = b then size else t.shape.getD b 0 := Shape.getD_set axis

-- Blocks of an axis, one behind the other.
def blocks (t : Tensor) (axis : Nat) : Nat → List Nat → List Tensor
  | _, [] => []
  | start, n :: sizes => t.block axis start n :: blocks t axis (start + n) sizes

theorem blocks_replicate (t : Tensor) (axis start size count : Nat) : t.blocks axis start (List.replicate count size) =
    (List.range count).map fun k => t.block axis (start + k * size) size := by
  induction count generalizing start with
  | zero => rfl
  | succ count ih =>
    rw [List.replicate_succ,blocks,ih,List.range_succ_eq_map,List.map_cons,List.map_map,Nat.zero_mul]
    refine congrArg (_ :: ·) (List.map_congr_left fun k _ => ?_)
    rw [Function.comp_apply,Nat.succ_mul,Nat.add_assoc,Nat.add_comm size]

theorem mem_blocks {start : Nat} {sizes : List Nat} (member : u ∈ t.blocks a start sizes) :
    ∃ first size, u = t.block a first size := by
  induction sizes generalizing start with
  | nil => cases member
  | cons n sizes ih =>
    rcases List.mem_cons.mp member with rfl | later
    · exact ⟨start,n,rfl⟩
    · exact ih later

theorem extents_blocks (axis : a < t.shape.length) (start : Nat) (sizes : List Nat) :
    (t.blocks a start sizes).map (fun u => u.shape.getD a 0) = sizes := by
  induction sizes generalizing start with
  | nil => rfl
  | cons n sizes ih =>
    rw [blocks,List.map_cons,ih]
    exact congrArg (· :: sizes) ((block_extent axis).trans (if_pos rfl))

end Tensor

namespace Span

variable {spans : List Span} {shape : Shape} {a start size : Nat}

-- The spans take part of one axis and all of the others, however that is told.
structure Cuts (spans : List Span) (shape : Shape) (a start size : Nat) : Prop where
  rank : spans.length = shape.length
  here : ∀ s n, spans[a]? = some s → shape[a]? = some n → s.start = start ∧ s.stop n = start + size
  others : ∀ b s n, b ≠ a → spans[b]? = some s → shape[b]? = some n → s.start = 0 ∧ s.stop n = n

def only (rank axis start size : Nat) : List Span := (List.replicate rank ⟨0,none⟩).set axis ⟨start,some size⟩

theorem only_cuts (shape : Shape) (a start size : Nat) : Cuts (only shape.length a start size) shape a start size := by
  refine ⟨by rw [only,List.length_set,List.length_replicate],fun s n chosen extent => ?_,fun b s n apart chosen extent => ?_⟩
  · have axis := (List.getElem?_eq_some_iff.mp extent).1
    rw [only,List.getElem?_set_self (by rwa [List.length_replicate])] at chosen
    cases chosen
    exact ⟨rfl,rfl⟩
  · rw [only,List.getElem?_set_ne apart.symm] at chosen
    cases List.eq_of_mem_replicate (List.mem_of_getElem? chosen)
    exact ⟨rfl,rfl⟩

-- What leaves all entries as they are but for one.
theorem zipWith_set {g : Span → Nat → Nat} {xs : List Nat} {v : Nat} (length : spans.length = xs.length)
    (here : ∀ s x, spans[a]? = some s → xs[a]? = some x → g s x = v)
    (others : ∀ b s x, b ≠ a → spans[b]? = some s → xs[b]? = some x → g s x = x) :
    List.zipWith g spans xs = xs.set a v := by
  refine List.ext_getElem (by simp [length]) fun b _ below => ?_
  rw [List.length_set] at below
  have chosen := List.getElem?_eq_getElem (length ▸ below)
  have entry := List.getElem?_eq_getElem below
  rw [List.getElem_zipWith,List.getElem_set]
  split
  · rename_i same
    subst same
    exact here _ _ chosen entry
  · rename_i apart
    exact others b _ _ (Ne.symm apart) chosen entry

end Span

namespace Slice

variable {t : Tensor} {a start size : Nat}

theorem eval_within {spans : List Span} (rank : t.shape.length = spans.length)
    (within : ∀ p ∈ spans.zip t.shape, p.1.within p.2 = true) :
    eval spans t = .ok (.tabulate t.dtype (List.zipWith (fun s n => s.stop n - s.start) spans t.shape) fun index =>
      t.get (List.zipWith (fun s i => s.start + i) spans index)) := by
  have none : (spans.zip t.shape).zipIdx.find? (fun p => !p.1.1.within p.1.2) = none := by
    refine List.find?_eq_none.mpr fun p member => ?_
    rw [within p.1 (List.mem_of_getElem? (List.mem_zipIdx_iff_getElem?.mp member))]
    exact Bool.false_ne_true
  unfold eval Tensor.rank
  dsimp only
  rw [if_pos rank,none]
  rfl

theorem eval_cuts {spans : List Span} (cuts : Span.Cuts spans t.shape a start size)
    (room : start + size ≤ t.shape.getD a 0) : eval spans t = .ok (t.block a start size) := by
  have within : ∀ p ∈ spans.zip t.shape, p.1.within p.2 = true := by
    rintro ⟨span,n⟩ member
    obtain ⟨b,entry⟩ := List.mem_iff_getElem?.mp member
    obtain ⟨chosen,extent⟩ : spans[b]? = some span ∧ t.shape[b]? = some n := List.getElem?_zip_eq_some.mp entry
    have bounds : span.start ≤ n ∧ span.stop n ≤ n := by
      by_cases axis : b = a
      · subst axis
        obtain ⟨first,last⟩ := cuts.here _ _ chosen extent
        rw [List.getD_eq_getElem?_getD,extent,Option.getD_some] at room
        omega
      · obtain ⟨first,last⟩ := cuts.others _ _ _ axis chosen extent
        omega
    exact Bool.and_eq_true_iff.mpr ⟨decide_eq_true bounds.1,decide_eq_true bounds.2⟩
  have shape : List.zipWith (fun s n => s.stop n - s.start) spans t.shape = t.shape.set a size := by
    refine Span.zipWith_set cuts.rank (fun s n chosen extent => ?_) fun b s n apart chosen extent => ?_
    · have taken := cuts.here s n chosen extent
      omega
    · have whole := cuts.others b s n apart chosen extent
      omega
  rw [eval_within cuts.rank.symm within,shape]
  refine congrArg Except.ok (Tensor.tabulate_congr fun index inside => congrArg t.get ?_)
  have length : index.length = t.shape.length := (Shape.length_of_mem inside).trans List.length_set
  have extent {b x : Nat} (entry : index[b]? = some x) : t.shape[b]? = some (t.shape.getD b 0) :=
    Shape.entry_within (length ▸ (List.getElem?_eq_some_iff.mp entry).1)
  refine Span.zipWith_set (cuts.rank.trans length.symm) (fun s i chosen entry => ?_) fun b s i apart chosen entry => ?_
  · rw [(cuts.here s _ chosen (extent entry)).1,List.getD_eq_getElem?_getD,entry,Option.getD_some]
  · rw [(cuts.others b s _ apart chosen (extent entry)).1,Nat.zero_add]

theorem eval_only (room : start + size ≤ t.shape.getD a 0) :
    eval (Span.only t.shape.length a start size) t = .ok (t.block a start size) :=
  eval_cuts (Span.only_cuts t.shape a start size) room

end Slice

namespace Concat

variable {t first : Tensor} {rest : List Tensor} {a : Nat} {index : List Nat} {k : Int}

-- Joined blocks that lie one behind the other have the elements of the axis they were taken from.
theorem pick_blocks {dtype : DType} {start i : Nat} {sizes : List Nat} (axis : a < t.shape.length)
    (inside : index ∈ t.shape.indices) (below : i < sizes.sum) :
    pick a dtype index (t.blocks a start sizes) i = t.get (index.set a (start + i)) := by
  induction sizes generalizing start i with
  | nil => cases below
  | cons n sizes ih =>
    rw [List.sum_cons] at below
    have extent : (t.block a start n).shape.getD a 0 = n := (Tensor.block_extent axis).trans (if_pos rfl)
    unfold Tensor.blocks pick
    dsimp only
    rw [extent]
    split
    · rename_i here
      rw [Tensor.get_block (Shape.set_mem inside here),getD_set (Shape.length_of_mem inside ▸ axis),List.set_set]
    · rw [ih (by omega)]
      congr 2
      omega

theorem beside_of_set {shape : Shape} {m n : Nat} : Beside a (shape.set a m) (shape.set a n) :=
  ⟨by rw [List.length_set,List.length_set],fun _ apart => by
    rw [List.getElem?_set_ne apart.symm,List.getElem?_set_ne apart.symm]⟩

theorem eval_join (alike : ∀ s ∈ rest, s.dtype = first.dtype ∧ Beside a s.shape first.shape)
    (axis : normalizeAxis k first.shape.length = .ok a) :
    eval k first rest = .ok (join a first.dtype first.shape (first :: rest)) := by
  have types : (first :: rest).all (·.dtype == first.dtype) = true := by
    simpa using fun s member => (alike s member).1
  have ranks : (first :: rest).all (·.rank == first.rank) = true := by
    simpa [Tensor.rank] using fun s member => (alike s member).2.rank
  have extents : (first :: rest).all (fun s => s.shape.eraseIdx a == first.shape.eraseIdx a) = true := by
    simpa using fun s member => (alike s member).2.erase
  unfold eval
  dsimp only
  rw [if_pos types,if_pos ranks]
  refine bind_ok.mpr ⟨a,axis,?_⟩
  rw [if_pos extents]
  rfl

theorem eval_blocks {sizes : List Nat} (blocks : t.blocks a 0 sizes = first :: rest)
    (axis : normalizeAxis k t.shape.length = .ok a) (whole : sizes.sum = t.shape.getD a 0) :
    eval k first rest = .ok t.table := by
  have inside := normalizeAxis_lt axis
  have each : ∀ s ∈ first :: rest, ∃ start size, s = t.block a start size := fun s member =>
    Tensor.mem_blocks (blocks ▸ member)
  have extents := Tensor.extents_blocks inside 0 sizes
  rw [blocks] at extents
  obtain ⟨start,size,rfl⟩ := each first List.mem_cons_self
  rw [eval_join (a := a)]
  · unfold join
    dsimp only
    rw [extents,← List.sum_eq_foldr,whole,← blocks]
    have shape : (t.block a start size).shape.set a (t.shape.getD a 0) = t.shape :=
      (List.set_set ..).trans (Shape.set_extent t.shape a)
    rw [shape]
    refine congrArg Except.ok (Tensor.tabulate_congr fun index member => ?_)
    rw [pick_blocks inside member (whole ▸ Shape.getD_lt member inside),Nat.zero_add,Shape.set_extent]
  · intro s member
    obtain ⟨start',size',rfl⟩ := each s (List.mem_cons_of_mem _ member)
    exact ⟨rfl,beside_of_set⟩
  · rwa [Tensor.block,Tensor.tabulate,List.length_set]

end Concat

end TensorGraph
