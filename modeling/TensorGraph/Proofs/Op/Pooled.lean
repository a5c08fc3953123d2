import TensorGraph.Proofs.Binary.Unit
import TensorGraph.Proofs.Op.Exact.Window
import TensorGraph.Proofs.Op.Geometry
import TensorGraph.Proofs.Op.Proper.Window
import TensorGraph.Proofs.Op.Taps
import TensorGraph.Proofs.Op.Turn

namespace TensorGraph
open Outcome

variable {x u t data : Tensor} {filler : Scalar} {rows columns : Windows} {n c y z : Nat}

theorem Tensor.get_fill {dtype : DType} {shape : Shape} {value : Scalar} {index : List Nat} (inside : index ∈ shape.indices) :
    (fill dtype shape value).get index = value := by
  unfold get fill
  rw [List.getD_eq_getElem?_getD,List.getElem?_replicate,if_pos (Shape.offset_lt inside)]
  rfl

namespace Image

variable {last : Bool}

-- An element keeps its place among batch, channels, rows and columns when the layout changes.
theorem toChannelsSecond_get {i j : Nat} (found : toChannelsSecond last x = .ok data)
    (inside : [n,c,i,j] ∈ data.shape.indices) : data.get [n,c,i,j] = x.get (arranged last n c i j) := by
  cases last with
  | false =>
    cases found
    rfl
  | true => exact Transpose.get_eval (n := 4) rfl found inside

theorem ofChannelsSecond_get (found : ofChannelsSecond last t = .ok u) (inside : arranged last n c y z ∈ u.shape.indices) :
    u.get (arranged last n c y z) = t.get [n,c,y,z] := by
  cases last with
  | false =>
    cases found
    rfl
  | true => exact Transpose.get_eval (n := 4) rfl found inside

theorem arranged_mem {N C H W : Nat} : arranged last n c y z ∈ (arranged last N C H W).indices ↔
    n < N ∧ c < C ∧ y < H ∧ z < W := by
  cases last <;> simp [arranged,Shape.mem_indices,and_comm,and_left_comm]

-- Whether a row and a column are those of an element.
abbrev Inside (h w : Nat) (row column : Int) : Prop := (0 ≤ row ∧ row < h) ∧ 0 ≤ column ∧ column < w

theorem Inside.mem {N C h w : Nat} {row column : Int} (inside : Inside h w row column) (batch : n < N) (channel : c < C) :
    [n,c,row.toNat,column.toNat] ∈ Shape.indices [N,C,h,w] :=
  Shape.mem_indices.mpr (.cons batch (.cons channel (.cons ((Int.toNat_lt inside.1.1).mpr inside.1.2)
    (.cons ((Int.toNat_lt inside.2.1).mpr inside.2.2) .nil))))

end Image

namespace Patch

variable {p : Patch}

def height (p : Patch) (x : Tensor) : Nat := x.shape.getD p.spatialAxes.1 0
def width (p : Patch) (x : Tensor) : Nat := x.shape.getD p.spatialAxes.2 0

-- What an image in the layout of the windows has at a row and a column that may lie outside of it.
def stored (p : Patch) (x : Tensor) (filler : Scalar) (n c : Nat) (row column : Int) : Scalar :=
  if Image.Inside (p.height x) (p.width x) row column then
    x.get (Image.arranged p.channelsLast n c row.toNat column.toNat)
  else filler

-- One for each element, and zero outside of the image.
def present (t : DType) (h w : Nat) (row column : Int) : Scalar :=
  if Image.Inside h w row column then .float .one else .zero t

theorem element_ones (t : DType) (h w : Nat) :
    Image.element (.fill t [1,1,h,w] (.float .one)) (.zero t) 0 0 = present t h w := by
  funext row column
  unfold present
  split
  · rename_i inside
    exact (if_pos inside).trans (Tensor.get_fill (Image.Inside.mem inside one_pos one_pos))
  · rename_i outside
    exact if_neg outside

-- What the cells of a window find, combined in row-major order.
def gather (p : Patch) (k : BinaryKind) (t : DType) (start : Scalar) (rows columns : Windows) (y z : Nat)
    (find : Int → Int → Scalar) : Scalar :=
  p.cells.foldl (fun acc cell => k.onScalars t acc (find (y * p.strides.1 + cell.1 * p.dilations.1 - rows.first)
    (z * p.strides.2 + cell.2 * p.dilations.2 - columns.first))) start

theorem element_stored (filler : Scalar) (rank : x.shape.length = 4) (turned : Image.toChannelsSecond p.channelsLast x = .ok data)
    (batch : n < x.shape.getD 0 0) (channel : c < x.shape.getD p.channelAxis 0) :
    Image.element data filler n c = p.stored x filler n c := by
  obtain ⟨-,shape⟩ := Image.toChannelsSecond_parts rank turned
  funext row column
  have rowExtent : data.shape.getD 2 0 = p.height x := by rw [shape]; rfl
  have columnExtent : data.shape.getD 3 0 = p.width x := by rw [shape]; rfl
  unfold Image.element stored
  rw [rowExtent,columnExtent]
  split
  · rename_i inside
    refine Image.toChannelsSecond_get turned ?_
    rw [shape]
    exact Image.Inside.mem inside batch channel
  · rfl

end Patch

namespace Pooling

variable {p : Patch} {kind : PoolKind}

theorem collected_gather (k : BinaryKind) {x : Tensor} (forward : Forward p)
    (windows : p.outputPair (x.shape.getD 2 0) (x.shape.getD 3 0) = .ok (rows,columns)) (row : y < rows.count.toNat)
    (column : z < columns.count.toNat) : collected p k x filler rows columns n c y z =
      p.gather k x.dtype filler rows columns y z (Image.element x filler n c) :=
  List.foldl_ext _ _ _ fun acc _ member => congrArg (k.onScalars x.dtype acc)
    (Patch.padded_tap _ _ windows forward member row column)

theorem greatest_gather (forward : Forward p) (evaluated : greatest p data = .ok t)
    (windows : p.outputPair (data.shape.getD 2 0) (data.shape.getD 3 0) = .ok (rows,columns))
    (inside : [n,c,y,z] ∈ t.shape.indices) : t.get [n,c,y,z] =
      p.gather .maximum data.dtype (lowest data.dtype) rows columns y z (Image.element data (lowest data.dtype) n c) := by
  obtain ⟨rows',columns',frames,rfl⟩ := greatest_parts forward evaluated
  cases windows.symm.trans frames.windows
  obtain ⟨batch,channel,row,column⟩ := Shape.mem_places.mp inside
  exact (Tensor.get_grid batch channel row column).trans (collected_gather .maximum forward windows row column)

theorem mean_gather (forward : Forward p) (evaluated : mean p data = .ok t)
    (windows : p.outputPair (data.shape.getD 2 0) (data.shape.getD 3 0) = .ok (rows,columns))
    (inside : [n,c,y,z] ∈ t.shape.indices) : t.get [n,c,y,z] = BinaryKind.div.onScalars data.dtype
      (p.gather .add data.dtype (.zero data.dtype) rows columns y z (Image.element data (.zero data.dtype) n c))
      (p.gather .add data.dtype (.zero data.dtype) rows columns y z
        (Patch.present data.dtype (data.shape.getD 2 0) (data.shape.getD 3 0))) := by
  obtain ⟨rows',columns',frames,rfl⟩ := mean_made evaluated
  cases windows.symm.trans frames.windows
  obtain ⟨batch,channel,row,column⟩ := Shape.mem_places.mp inside
  have counted : collected p .add (ones data) (.zero data.dtype) rows columns 0 0 y z = p.gather .add data.dtype
      (.zero data.dtype) rows columns y z (Image.element (ones data) (.zero data.dtype) 0 0) :=
    collected_gather .add forward windows row column
  refine (Tensor.get_grid batch channel row column).trans (congrArg₂ (BinaryKind.div.onScalars data.dtype) ?_ ?_)
  · exact collected_gather .add forward windows row column
  · rw [counted]
    exact congrArg _ (Patch.element_ones ..)

-- The number of elements that a window meets, as it is counted.
def divisor (p : Patch) (x : Tensor) (rows columns : Windows) (y z : Nat) : Scalar :=
  p.gather .add x.dtype (.zero x.dtype) rows columns y z (Patch.present x.dtype (p.height x) (p.width x))

-- The element of a pool from its definition.
def pooled (kind : PoolKind) (p : Patch) (x : Tensor) (rows columns : Windows) (n c y z : Nat) : Scalar :=
  match kind with
  | .max => p.gather .maximum x.dtype (lowest x.dtype) rows columns y z (p.stored x (lowest x.dtype) n c)
  | .average => BinaryKind.div.onScalars x.dtype
      (p.gather .add x.dtype (.zero x.dtype) rows columns y z (p.stored x (.zero x.dtype) n c))
      (divisor p x rows columns y z)

-- A pool in either layout has, for each window of each channel, what its cells find.
structure Pools (kind : PoolKind) (p : Patch) (x u : Tensor) (rows columns : Windows) : Prop where
  windows : p.outputPair (p.height x) (p.width x) = .ok (rows,columns)
  dtype : u.dtype = x.dtype
  shape : u.shape = Image.arranged p.channelsLast (x.shape.getD 0 0) (x.shape.getD p.channelAxis 0) rows.count.toNat
    columns.count.toNat
  element : ∀ n c y z, Image.arranged p.channelsLast n c y z ∈ u.shape.indices →
    u.get (Image.arranged p.channelsLast n c y z) = pooled kind p x rows columns n c y z

theorem eval_pools (forward : Forward p) (evaluated : eval kind p x = .ok u) : ∃ rows columns, Pools kind p x u rows columns := by
  rw [eval_eq] at evaluated
  obtain ⟨_,-,evaluated⟩ := bind_ok.mp evaluated
  split at evaluated
  · cases evaluated
  rename_i rank
  have rank := not_not.mp rank
  obtain ⟨data,turned,evaluated⟩ := bind_ok.mp evaluated
  obtain ⟨t,evaluated,returned⟩ := bind_ok.mp evaluated
  obtain ⟨dtype,shape⟩ := Image.toChannelsSecond_parts rank turned
  obtain ⟨rows,columns,windows,kept,sized⟩ := windowed_parts (fun _ => forward) evaluated
  have rowExtent : data.shape.getD 2 0 = p.height x := by rw [shape]; rfl
  have columnExtent : data.shape.getD 3 0 = p.width x := by rw [shape]; rfl
  have batches : data.shape.getD 0 0 = x.shape.getD 0 0 := by rw [shape]; rfl
  have channels : data.shape.getD 1 0 = x.shape.getD p.channelAxis 0 := by rw [shape]; rfl
  obtain ⟨last,arranged⟩ := Image.ofChannelsSecond_parts sized returned
  refine ⟨rows,columns,?_⟩
  constructor
  case windows => rwa [← rowExtent,← columnExtent]
  case dtype => exact last.trans (kept.trans dtype)
  case shape => rw [arranged,batches,channels]
  case element =>
    intro n c y z member
    rw [Image.ofChannelsSecond_get returned member]
    rw [arranged,Image.arranged_mem,batches,channels] at member
    have inside : [n,c,y,z] ∈ t.shape.indices := by
      rw [sized,batches,channels]
      exact Shape.mem_indices.mpr (.cons member.1 (.cons member.2.1 (.cons member.2.2.1 (.cons member.2.2.2 .nil))))
    have found := fun filler => Patch.element_stored filler rank turned member.1 member.2.1
    cases kind with
    | max => rw [greatest_gather forward evaluated windows inside,found,dtype]; rfl
    | average => rw [mean_gather forward evaluated windows inside,found,dtype,rowExtent,columnExtent]; rfl

end Pooling

namespace Padding

variable {p : Padding} {kernel stride axis axes first last count : Int}

theorem field_undilated (kernel : Int) : field kernel 1 = kernel := by
  unfold field
  omega

-- Nothing, or as much as the windows need of it, is less than a window on either side.
theorem Adds.narrow {n : Int} (implied : ∀ pads, p ≠ .explicit pads) (cells : 1 ≤ kernel) (step : 1 ≤ stride)
    (adds : p.Adds n kernel stride axis axes first last) : 0 ≤ first ∧ 0 ≤ last ∧ first + last < kernel := by
  have least {total : Int} (needs : Needs n kernel stride ⌈(n / stride : ℚ)⌉ total) : 0 ≤ total ∧ total < kernel := by
    have low : (⌈(n / stride : ℚ)⌉ - 1) * stride < n := (ceil_bounds (by omega)).1
    have most := needs.2 (show kernel - 1 ∈ _ from ⟨by omega,by omega⟩)
    exact ⟨needs.1.1,by omega⟩
  cases p with
  | valid =>
    obtain ⟨rfl,rfl⟩ := adds
    omega
  | explicit pads => exact absurd rfl (implied pads)
  | sameUpper | sameLower =>
    obtain ⟨needs,first,second⟩ := adds
    have total := least needs
    omega

-- So every window reaches the data.
theorem covered {n y : Nat} (implied : ∀ pads, p ≠ .explicit pads) (low : 0 ≤ axis) (high : axis < axes)
    (cells : 1 ≤ kernel) (step : 1 ≤ stride) (found : p.compute n kernel stride 1 axis axes = .ok (count,first,last))
    (window : y < count.toNat) : ∃ i < n, y * stride ≤ i + first ∧ i + first < y * stride + kernel := by
  obtain ⟨before,after,most⟩ : ∃ before after, p.MaximalFit n kernel stride 1 axis axes before after :=
    compute_maximalFit (fun pads equal => absurd equal (implied pads)) low high cells step le_rfl
  obtain ⟨rfl,rfl⟩ := most.borders _ _ _ found
  have adds := most.adds
  obtain ⟨-,within,-⟩ := most.fit _ found
  rw [field_undilated] at adds within
  obtain ⟨front,back,short⟩ := adds.narrow implied cells step
  have forward := Int.mul_nonneg (Int.natCast_nonneg y) (show 0 ≤ stride by omega)
  have reach : (y : Int) * stride ≤ (count - 1) * stride := Int.mul_le_mul_of_nonneg_right (by omega) (by omega)
  exact ⟨(y * stride - first).toNat,by omega,by omega,by omega⟩

end Padding

-- Whether a position of an axis lies in a window.
def Windows.Covers (ws : Windows) (stride kernel : Int) (y i : Nat) : Prop :=
  y * stride ≤ i + ws.first ∧ i + ws.first < y * stride + kernel

namespace Patch

variable {p : Patch} {signed : Bool} {bits : Nat}

-- A window meets the data.
def Meets (p : Patch) (h w : Nat) (rows columns : Windows) (y z : Nat) : Prop :=
  (∃ i < h, rows.Covers p.strides.1 p.kernel.1 y i) ∧ ∃ j < w, columns.Covers p.strides.2 p.kernel.2 z j

-- The integers that a window meets in a channel.
def seen (p : Patch) (x : Tensor) (rows columns : Windows) (n c y z : Nat) : Set Int :=
  {v | ∃ i < p.height x, ∃ j < p.width x, rows.Covers p.strides.1 p.kernel.1 y i ∧
    columns.Covers p.strides.2 p.kernel.2 z j ∧ x.get (Image.arranged p.channelsLast n c i j) = .int v}

theorem cell_mem {i j : Nat} : (i,j) ∈ p.cells ↔ (i : Int) < p.kernel.1 ∧ (j : Int) < p.kernel.2 := by
  refine ⟨mem_cells,fun inside => ?_⟩
  refine List.mem_flatMap.mpr ⟨i,List.mem_range.mpr (by omega),List.mem_map.mpr ⟨j,List.mem_range.mpr (by omega),rfl⟩⟩

-- Without dilation a window has a cell for each position that it covers, and no other.
theorem covers_iff {ws : Windows} {stride kernel : Int} {y i : Nat} : ws.Covers stride kernel y i ↔
    ∃ k : Nat, (k : Int) < kernel ∧ (y * stride + k - ws.first : Int) = i := by
  unfold Windows.Covers
  constructor
  · rintro ⟨low,high⟩
    exact ⟨(i + ws.first - y * stride).toNat,by omega,by omega⟩
  · rintro ⟨k,cell,place⟩
    omega

-- The row and the column at which a cell of a window without dilation looks.
def place (p : Patch) (rows columns : Windows) (y z : Nat) (cell : Nat × Nat) : Int × Int :=
  (y * p.strides.1 + cell.1 - rows.first,z * p.strides.2 + cell.2 - columns.first)

theorem gather_places {k : BinaryKind} {dtype : DType} {start : Scalar} {find : Int → Int → Scalar}
    (undilated : p.dilations = (1,1)) : p.gather k dtype start rows columns y z find = p.cells.foldl (fun acc cell =>
      k.onScalars dtype acc (find (p.place rows columns y z cell).1 (p.place rows columns y z cell).2)) start := by
  unfold gather place
  rw [undilated]
  simp only [Int.mul_one]

-- A position inside the data that such a window covers is where one of its cells finds an element.
theorem covered_iff (rows columns : Windows) {h w : Nat} {P : Int → Int → Prop} :
    (∃ i < h, ∃ j < w, rows.Covers p.strides.1 p.kernel.1 y i ∧ columns.Covers p.strides.2 p.kernel.2 z j ∧ P i j) ↔
    ∃ cell ∈ p.cells, Image.Inside h w (p.place rows columns y z cell).1 (p.place rows columns y z cell).2 ∧
      P (p.place rows columns y z cell).1 (p.place rows columns y z cell).2 := by
  unfold place
  constructor
  · rintro ⟨i,row,j,column,down,along,holds⟩
    obtain ⟨k,high,place⟩ := covers_iff.mp down
    obtain ⟨l,wide,place'⟩ := covers_iff.mp along
    refine ⟨(k,l),cell_mem.mpr ⟨high,wide⟩,?_⟩
    rw [place,place']
    exact ⟨⟨⟨by omega,by omega⟩,by omega,by omega⟩,holds⟩
  · rintro ⟨⟨k,l⟩,cell,inside,holds⟩
    obtain ⟨high,wide⟩ := mem_cells cell
    obtain ⟨i,row⟩ := Int.eq_ofNat_of_zero_le inside.1.1
    obtain ⟨j,column⟩ := Int.eq_ofNat_of_zero_le inside.2.1
    rw [row,column] at inside holds
    exact ⟨i,by omega,j,by omega,covers_iff.mpr ⟨k,high,row⟩,covers_iff.mpr ⟨l,wide,column⟩,holds⟩

theorem meets_iff {h w : Nat} : p.Meets h w rows columns y z ↔
    ∃ cell ∈ p.cells, Image.Inside h w (p.place rows columns y z cell).1 (p.place rows columns y z cell).2 := by
  have covered := covered_iff rows columns (p := p) (h := h) (w := w) (y := y) (z := z) (P := fun _ _ => True)
  simp only [and_true] at covered
  rw [← covered]
  constructor
  · rintro ⟨⟨i,row,down⟩,j,column,along⟩
    exact ⟨i,row,j,column,down,along⟩
  · rintro ⟨i,row,j,column,down,along⟩
    exact ⟨⟨i,row,down⟩,j,column,along⟩

-- What no window of integers has below it.
theorem stored_int (formed : x.WellFormed) (integer : x.dtype.layout = .integer signed bits) (row column : Int) :
    ∃ v, p.stored x (.int (DType.lowest signed bits)) n c row column = .int v ∧ DType.lowest signed bits ≤ v := by
  have proper := formed.proper integer
  unfold stored
  split
  · have holds := proper.get (Image.arranged p.channelsLast n c row.toNat column.toNat)
    rw [integer] at holds
    match x.get (Image.arranged p.channelsLast n c row.toNat column.toNat), holds with
    | .int v, holds => exact ⟨v,rfl,holds.1⟩
  · exact ⟨_,rfl,le_rfl⟩

end Patch

namespace Pooling

variable {p : Patch} {signed : Bool} {bits : Nat}

theorem isGreatest_foldl_max (xs : List Int) (a : Int) : IsGreatest {v | v ∈ a :: xs} (xs.foldl max a) := by
  induction xs generalizing a with
  | nil => exact ⟨List.mem_cons_self,fun v member => (List.mem_singleton.mp member).le⟩
  | cons b xs ih =>
    obtain ⟨found,most⟩ := ih (max a b)
    constructor
    · rcases List.mem_cons.mp found with equal | later
      · rcases max_choice a b with first | second
        · exact List.mem_cons.mpr (.inl (equal.trans first))
        · exact List.mem_cons.mpr (.inr (List.mem_cons.mpr (.inl (equal.trans second))))
      · exact List.mem_cons_of_mem _ (List.mem_cons_of_mem _ later)
    · have both : max a b ≤ (b :: xs).foldl max a := most List.mem_cons_self
      rintro v member
      rcases List.mem_cons.mp member with rfl | member
      · exact (le_max_left v b).trans both
      · rcases List.mem_cons.mp member with rfl | later
        · exact (le_max_right a v).trans both
        · exact most (List.mem_cons_of_mem _ later)

theorem maximum_int {t : DType} (integer : t.layout = .integer signed bits) (a b : Int) :
    BinaryKind.maximum.onScalars t (.int a) (.int b) = .int (max a b) := by
  unfold BinaryKind.onScalars
  rw [integer]
  rfl

theorem foldl_ints {α : Type} {t : DType} {g : α → Scalar} {v : α → Int} (integer : t.layout = .integer signed bits)
    (each : ∀ a, g a = .int (v a)) (xs : List α) (start : Int) :
    xs.foldl (fun acc a => BinaryKind.maximum.onScalars t acc (g a)) (.int start) = .int ((xs.map v).foldl max start) := by
  induction xs generalizing start with
  | nil => rfl
  | cons a xs ih => rw [List.foldl_cons,each,maximum_int integer,ih,List.map_cons,List.foldl_cons]

-- A greatest find that is not below the filler is the greatest element, once there is one.
theorem top_seen {value : Int → Int → Int} {low m : Int}
    (stored : ∀ row column, p.stored x (.int low) n c row column = .int (value row column))
    (least : ∀ row column, low ≤ value row column)
    (top : IsGreatest {v | v ∈ low :: p.cells.map fun cell =>
      value (p.place rows columns y z cell).1 (p.place rows columns y z cell).2} m) :
    (p.Meets (p.height x) (p.width x) rows columns y z → IsGreatest (p.seen x rows columns n c y z) m) ∧
      (¬ p.Meets (p.height x) (p.width x) rows columns y z → m = low) := by
  have within {row column : Int} (inside : Image.Inside (p.height x) (p.width x) row column) :
      x.get (Image.arranged p.channelsLast n c row.toNat column.toNat) = .int (value row column) :=
    (if_pos inside).symm.trans (stored row column)
  have beyond {row column : Int} (outside : ¬ Image.Inside (p.height x) (p.width x) row column) : value row column = low :=
    Scalar.int.inj ((stored row column).symm.trans (if_neg outside))
  have seen (v : Int) : v ∈ p.seen x rows columns n c y z ↔ ∃ cell ∈ p.cells,
      Image.Inside (p.height x) (p.width x) (p.place rows columns y z cell).1 (p.place rows columns y z cell).2 ∧
        x.get (Image.arranged p.channelsLast n c (p.place rows columns y z cell).1.toNat
          (p.place rows columns y z cell).2.toNat) = .int v :=
    Patch.covered_iff rows columns (P := fun row column => x.get (Image.arranged p.channelsLast n c row.toNat column.toNat) = .int v)
  have upper : ∀ v ∈ p.seen x rows columns n c y z, v ≤ m := by
    intro v member
    obtain ⟨cell,listed,inside,found⟩ := (seen v).mp member
    cases found.symm.trans (within inside)
    exact top.2 (List.mem_cons_of_mem _ (List.mem_map_of_mem listed))
  constructor
  · intro meets
    refine ⟨?_,upper⟩
    obtain ⟨cell,listed,inside⟩ := Patch.meets_iff.mp meets
    have met := (seen _).mpr ⟨cell,listed,inside,within inside⟩
    -- where the filler comes out, an element does that is no greater
    have filled (lowest : m = low) : m ∈ p.seen x rows columns n c y z := by
      rwa [le_antisymm (lowest.trans_le (least _ _)) (upper _ met)]
    rcases List.mem_cons.mp top.1 with lowest | found
    · exact filled lowest
    · obtain ⟨cell,listed,equal⟩ := List.mem_map.mp found
      by_cases inside : Image.Inside (p.height x) (p.width x) (p.place rows columns y z cell).1
        (p.place rows columns y z cell).2
      · exact (seen _).mpr ⟨cell,listed,inside,equal ▸ within inside⟩
      · exact filled (equal.symm.trans (beyond inside))
  · intro apart
    rcases List.mem_cons.mp top.1 with lowest | found
    · exact lowest
    · obtain ⟨cell,listed,rfl⟩ := List.mem_map.mp found
      exact beyond fun inside => apart (Patch.meets_iff.mpr ⟨cell,listed,inside⟩)

theorem pooled_max {low : Scalar} (undilated : p.dilations = (1,1)) (filler : lowest x.dtype = low) :
    pooled .max p x rows columns n c y z = p.cells.foldl (fun acc cell => BinaryKind.maximum.onScalars x.dtype acc
      (p.stored x low n c (p.place rows columns y z cell).1 (p.place rows columns y z cell).2)) low := by
  unfold pooled
  rw [filler]
  exact Patch.gather_places undilated

theorem Pools.greatest (undilated : p.dilations = (1,1)) (formed : x.WellFormed) (integer : x.dtype.layout = .integer signed bits)
    (pools : Pools .max p x u rows columns) (member : Image.arranged p.channelsLast n c y z ∈ u.shape.indices) :
    ∃ m, u.get (Image.arranged p.channelsLast n c y z) = .int m ∧
      (p.Meets (p.height x) (p.width x) rows columns y z → IsGreatest (p.seen x rows columns n c y z) m) ∧
        (¬ p.Meets (p.height x) (p.width x) rows columns y z → m = DType.lowest signed bits) := by
  have filler : lowest x.dtype = .int (DType.lowest signed bits) := by
    unfold lowest
    rw [integer]
  choose value stored least using fun row column => Patch.stored_int (p := p) (n := n) (c := c) formed integer row column
  have found := foldl_ints integer (fun cell => stored (p.place rows columns y z cell).1 (p.place rows columns y z cell).2)
    p.cells (DType.lowest signed bits)
  exact ⟨_,(pools.element n c y z member).trans ((pooled_max undilated filler).trans found),
    top_seen stored least (isGreatest_foldl_max _ _)⟩

-- What such a window counts.
theorem count_one_le {α : Type} {f : Binary.Format} (units : f.Units) (inside : α → Prop) [DecidablePred inside]
    (xs : List α) (start : Binary) (counted : start = .zero ∨ Binary.le .one start = true)
    (some : Binary.le .one start = true ∨ ∃ a ∈ xs, inside a) :
    Binary.le .one (xs.foldl (fun acc a => .add f acc (if inside a then .one else .zero)) start) = true := by
  induction xs generalizing start with
  | nil =>
    rcases some with above | ⟨a,member,-⟩
    · exact above
    · cases member
  | cons a xs ih =>
    rw [List.foldl_cons]
    by_cases met : inside a
    · have above := Binary.one_le_count units counted
      rw [if_pos met]
      exact ih _ (.inr above) (.inl above)
    · rw [if_neg met]
      refine ih _ ?_ ?_
      · rcases counted with rfl | above
        · exact .inl rfl
        · exact .inr (Binary.one_le_grow units above)
      · rcases some with above | ⟨b,member,inner⟩
        · exact .inl (Binary.one_le_grow units above)
        · rcases List.mem_cons.mp member with rfl | later
          · exact absurd inner met
          · exact .inr ⟨b,later,inner⟩

theorem foldl_floats {α : Type} {t : DType} {f : Binary.Format} {g : α → Binary} (float : t.layout = .float f) (xs : List α)
    (start : Binary) : xs.foldl (fun acc a => BinaryKind.add.onScalars t acc (.float (g a))) (.float start) =
      .float (xs.foldl (fun acc a => .add f acc (g a)) start) := by
  induction xs generalizing start with
  | nil => rfl
  | cons a xs ih =>
    have step : BinaryKind.add.onScalars t (.float start) (.float (g a)) = .float (.add f start (g a)) := by
      unfold BinaryKind.onScalars
      rw [float]
      rfl
    rw [List.foldl_cons,List.foldl_cons,step,ih]

-- The number of elements that a window meets is not below one, if it meets any.
theorem divisor_one_le {f : Binary.Format} (undilated : p.dilations = (1,1)) (float : x.dtype.layout = .float f)
    (meets : p.Meets (p.height x) (p.width x) rows columns y z) :
    ∃ count, divisor p x rows columns y z = .float count ∧ Binary.le .one count = true := by
  have zero : Scalar.zero x.dtype = .float .zero := by
    unfold Scalar.zero
    rw [float]
  have each (row column : Int) : Patch.present x.dtype (p.height x) (p.width x) row column =
      .float (if Image.Inside (p.height x) (p.width x) row column then .one else .zero) := by
    unfold Patch.present
    split
    · rfl
    · exact zero
  obtain ⟨cell,listed,inside⟩ := Patch.meets_iff.mp meets
  unfold divisor
  rw [Patch.gather_places undilated]
  simp only [each]
  rw [zero,foldl_floats float]
  exact ⟨_,rfl,count_one_le (DType.layout_units float) _ p.cells .zero (.inl rfl) (.inr ⟨cell,listed,inside⟩)⟩

theorem layout_of_average (evaluated : eval .average p x = .ok u) : ∃ f, x.dtype.layout = .float f := by
  have supported : (if x.dtype.isFloat then _ else _) = _ := (eval_checked evaluated).1
  split at supported
  · rename_i float
    exact DType.isFloat_iff.mp float
  · cases supported

-- The windows of an axis that is not padded by hand all meet the data.
theorem meets_implied (undilated : p.dilations = (1,1)) (steps : 1 ≤ p.strides.1 ∧ 1 ≤ p.strides.2)
    (cells : 1 ≤ p.kernel.1 ∧ 1 ≤ p.kernel.2) (implied : ∀ pads, p.padding ≠ .explicit pads) {h w : Nat}
    (windows : p.outputPair h w = .ok (rows,columns)) (row : y < rows.count.toNat) (column : z < columns.count.toNat) :
    p.Meets h w rows columns y z := by
  obtain ⟨down,along⟩ := Patch.outputPair_parts windows
  rw [undilated] at down along
  exact ⟨Padding.covered implied (by decide) (by decide) cells.1 steps.1 down row,
    Padding.covered implied (by decide) (by decide) cells.2 steps.2 along column⟩

-- The greatest of integers is that of the elements a window meets, and the least of the type where it meets none; but
-- every window meets some, and an average is over at least one, unless borders are padded by hand.
theorem eval_windows (undilated : p.dilations = (1,1)) (steps : 1 ≤ p.strides.1 ∧ 1 ≤ p.strides.2)
    (cells : 1 ≤ p.kernel.1 ∧ 1 ≤ p.kernel.2) :
    (∀ x u signed bits, x.WellFormed → x.dtype.layout = .integer signed bits → eval .max p x = .ok u →
      ∃ rows columns, Pools .max p x u rows columns ∧
        ∀ n c y z, Image.arranged p.channelsLast n c y z ∈ u.shape.indices →
          ∃ m, u.get (Image.arranged p.channelsLast n c y z) = .int m ∧
            (p.Meets (p.height x) (p.width x) rows columns y z → IsGreatest (p.seen x rows columns n c y z) m) ∧
              (¬ p.Meets (p.height x) (p.width x) rows columns y z → m = DType.lowest signed bits)) ∧
    ((∀ pads, p.padding ≠ .explicit pads) →
      (∀ h w rows columns, p.outputPair h w = .ok (rows,columns) →
        ∀ y < rows.count.toNat, ∀ z < columns.count.toNat, p.Meets h w rows columns y z) ∧
      ∀ x u, eval .average p x = .ok u → ∃ rows columns, Pools .average p x u rows columns ∧
        ∀ y < rows.count.toNat, ∀ z < columns.count.toNat,
          ∃ count, divisor p x rows columns y z = .float count ∧ Binary.le .one count = true) := by
  have forward : Forward p := by
    rw [Forward,undilated]
    omega
  refine ⟨fun x u signed bits formed integer evaluated => ?_,fun implied => ⟨fun h w rows columns windows y row z column => ?_,
    fun x u evaluated => ?_⟩⟩
  · obtain ⟨rows,columns,pools⟩ := eval_pools forward evaluated
    exact ⟨rows,columns,pools,fun n c y z member => pools.greatest undilated formed integer member⟩
  · exact meets_implied undilated steps cells implied windows row column
  · obtain ⟨rows,columns,pools⟩ := eval_pools forward evaluated
    obtain ⟨f,float⟩ := layout_of_average evaluated
    exact ⟨rows,columns,pools,fun y row z column =>
      divisor_one_le undilated float (meets_implied undilated steps cells implied pools.windows row column)⟩

def above : Patch := ⟨(1,1),(1,1),(1,1),.explicit [1,0,0,0],true⟩

def around : Patch := ⟨(2,2),(1,1),(1,1),.sameLower,false⟩

def single : Tensor := ⟨.i8,[1,1,1,1],[.int (-5)]⟩

def half : Tensor := ⟨.f16,[1,1,1,1],[.float .one]⟩

-- A window over nothing but the border has the least byte, and the one below it the only element; around that element a
-- window of four cells counts one.
theorem eval_windows_bordered : single.WellFormed ∧ (∃ u, eval .max above single = .ok u ∧
      u.get [0,0,0,0] = .int (-128) ∧ ∃ m, u.get [0,1,0,0] = .int m ∧
        IsGreatest (above.seen single ⟨2,1,0⟩ ⟨1,0,0⟩ 0 0 1 0) m) ∧
    (∀ pads, around.padding ≠ .explicit pads) ∧ ∃ u, eval .average around half = .ok u ∧
      ∃ count, divisor around half ⟨1,1,0⟩ ⟨1,1,0⟩ 0 0 = .float count ∧ Binary.le .one count = true := by
  have formed : single.WellFormed := ⟨rfl,by
    intro x member
    cases List.mem_singleton.mp member
    exact ⟨true,8,rfl,by decide,by decide⟩⟩
  have implied : ∀ pads, around.padding ≠ .explicit pads := nofun
  refine ⟨formed,?_,implied,?_⟩
  · have evaluated : eval .max above single = .ok _ := rfl
    obtain ⟨rows,columns,pools,each⟩ :=
      (eval_windows rfl (by decide) (by decide)).1 single _ true 8 formed rfl evaluated
    have windows : above.outputPair 1 1 = .ok (⟨2,1,0⟩,⟨1,0,0⟩) := rfl
    cases windows.symm.trans pools.windows
    obtain ⟨m,least,-,apart⟩ := each 0 0 0 0 (by rw [pools.shape]; decide)
    obtain ⟨m',greatest,meets,-⟩ := each 0 0 1 0 (by rw [pools.shape]; decide)
    have border : ¬ above.Meets 1 1 ⟨2,1,0⟩ ⟨1,0,0⟩ 0 0 := by
      rintro ⟨⟨i,-,low,high⟩,-⟩
      change (i : Int) + 1 < 0 * 1 + 1 at high
      omega
    cases apart border
    exact ⟨_,evaluated,least,m',greatest,meets ⟨⟨0,by decide,by decide,by decide⟩,0,by decide,by decide,by decide⟩⟩
  · have evaluated : eval .average around half = .ok _ := rfl
    obtain ⟨rows,columns,pools,each⟩ := ((eval_windows rfl (by decide) (by decide)).2 implied).2 half _ evaluated
    have windows : around.outputPair 1 1 = .ok (⟨1,1,0⟩,⟨1,1,0⟩) := rfl
    cases windows.symm.trans pools.windows
    exact ⟨_,evaluated,each 0 (by decide) 0 (by decide)⟩

end Pooling

end TensorGraph
