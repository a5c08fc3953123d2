import TensorGraph.Op.Convolution
import TensorGraph.Op.Pooling
import TensorGraph.Proofs.Tensor.Stretch

namespace TensorGraph
open Outcome

namespace Shape

theorem mem_places {N C H W n c y z : Nat} :
    [n,c,y,z] ∈ indices [N,C,H,W] ↔ n < N ∧ c < C ∧ y < H ∧ z < W := by
  simp [mem_indices]

theorem coordinate_self {n i : Nat} (below : i < n) : coordinate n i = i := by
  unfold coordinate
  split <;> omega

theorem stretch?_self_iff {m n : Nat} : stretch? m n = some m ↔ n = 1 ∨ n = m := by
  unfold stretch?
  grind

theorem broadcast?_places (N C a b M D p q : Nat) : broadcast? [N,C,a,b] [M,D,p,q] =
    (stretch? N M).bind fun n => (stretch? C D).bind fun c => (stretch? a p).bind fun h =>
      (stretch? b q).map fun w => [n,c,h,w] := by
  have steps : broadcast? [N,C,a,b] [M,D,p,q] = do
      let n ← stretch? N M
      let c ← stretch? C D
      let h ← stretch? a p
      let w ← stretch? b q
      return [n,c,h,w] := by
    simp [broadcast?,lead,Option.bind_assoc]
  simp only [steps,Option.map_eq_bind]
  rfl

-- Extents of batch, channels, rows and columns that stretch to other ones.
structure Reaches (A B p q N C H W : Nat) : Prop where
  batch : A = 1 ∨ A = N
  channel : B = 1 ∨ B = C
  row : p = 1 ∨ p = H
  column : q = 1 ∨ q = W

theorem Reaches.refl {N C H W : Nat} : Reaches N C H W N C H W := ⟨.inr rfl,.inr rfl,.inr rfl,.inr rfl⟩

theorem reaches_iff {N C H W A B p q : Nat} : Reaches A B p q N C H W ↔
    broadcast? [N,C,H,W] [A,B,p,q] = some [N,C,H,W] := by
  rw [broadcast?_places]
  simp only [Option.bind_eq_some_iff,Option.map_eq_some_iff,List.cons.injEq,and_true]
  constructor
  · rintro ⟨batch,channel,row,column⟩
    exact ⟨N,stretch?_self_iff.mpr batch,C,stretch?_self_iff.mpr channel,H,stretch?_self_iff.mpr row,W,
      stretch?_self_iff.mpr column,rfl,rfl,rfl,rfl⟩
  · rintro ⟨_,batch,_,channel,_,row,_,column,rfl,rfl,rfl,rfl⟩
    exact ⟨stretch?_self_iff.mp batch,stretch?_self_iff.mp channel,stretch?_self_iff.mp row,stretch?_self_iff.mp column⟩

end Shape

open Shape

namespace Tensor

variable {d : DType} {N C H W A B p q n c y z : Nat} {f g : Nat → Nat → Nat → Nat → Scalar}

-- The images whose elements are a function of batch, channel, row and column.
def grid (d : DType) (N C H W : Nat) (f : Nat → Nat → Nat → Nat → Scalar) : Tensor :=
  tabulate d [N,C,H,W] fun index => f (index.getD 0 0) (index.getD 1 0) (index.getD 2 0) (index.getD 3 0)

theorem tabulate_grid {h : List Nat → Scalar}
    (agree : ∀ n < N, ∀ c < C, ∀ y < H, ∀ z < W, h [n,c,y,z] = f n c y z) : tabulate d [N,C,H,W] h = grid d N C H W f := by
  refine tabulate_congr fun index inside => ?_
  match index, mem_indices.mp inside with
  | [n,c,y,z], .cons batch (.cons channel (.cons row (.cons column .nil))) => exact agree n batch c channel y row z column

theorem grid_congr (agree : ∀ n < N, ∀ c < C, ∀ y < H, ∀ z < W, f n c y z = g n c y z) :
    grid d N C H W f = grid d N C H W g := tabulate_grid agree

theorem get_grid (batch : n < N) (channel : c < C) (row : y < H) (column : z < W) :
    (grid d N C H W f).get [n,c,y,z] = f n c y z :=
  get_tabulate d _ (mem_places.mpr ⟨batch,channel,row,column⟩)

theorem fill_grid (d : DType) (N C H W : Nat) (value : Scalar) :
    fill d [N,C,H,W] value = grid d N C H W fun _ _ _ _ => value := by
  unfold fill grid tabulate
  rw [List.map_const',length_indices]

-- Stretched to a larger shape, an image has at each place what it has at the place it stretches from.
theorem getStretched_places {t : Tensor} (shape : t.shape = [A,B,p,q]) (n c y z : Nat) :
    t.getStretched [n,c,y,z] = t.get [coordinate A n,coordinate B c,coordinate p y,coordinate q z] := by
  rw [getStretched,shape]
  rfl

theorem getStretched_grid (reaches : Reaches A B p q N C H W) (batch : n < N) (channel : c < C) (row : y < H)
    (column : z < W) : (grid d A B p q f).getStretched [n,c,y,z] =
      f (coordinate A n) (coordinate B c) (coordinate p y) (coordinate q z) :=
  get_grid (coordinate_lt reaches.batch batch) (coordinate_lt reaches.channel channel) (coordinate_lt reaches.row row)
    (coordinate_lt reaches.column column)

theorem stretchTo_places {t : Tensor} (shape : t.shape = [A,B,p,q]) (reaches : Reaches A B p q N C H W) :
    t.stretchTo [N,C,H,W] = .ok (grid t.dtype N C H W fun n c y z =>
      t.get [coordinate A n,coordinate B c,coordinate p y,coordinate q z]) := by
  unfold stretchTo
  rw [shape,if_pos (reaches_iff.mp reaches)]
  exact congrArg Except.ok (tabulate_grid fun n _ c _ y _ z _ => getStretched_places shape n c y z)

theorem stretchTo_apart (apart : ¬ Reaches A B p q N C H W) :
    (grid d A B p q f).stretchTo [N,C,H,W] = fail (.unworded .value) :=
  if_neg fun met => apart (reaches_iff.mpr met)

theorem combine_grid {A' B' p' q' : Nat} {e e' : DType} {h : Scalar → Scalar → Scalar}
    (left : Reaches A B p q N C H W) (right : Reaches A' B' p' q' N C H W) :
    combine d h (grid e A B p q f) (grid e' A' B' p' q' g) [N,C,H,W] = grid d N C H W fun n c y z =>
      h (f (coordinate A n) (coordinate B c) (coordinate p y) (coordinate q z))
        (g (coordinate A' n) (coordinate B' c) (coordinate p' y) (coordinate q' z)) := by
  refine tabulate_grid fun n batch c channel y row z column => ?_
  rw [getStretched_grid left batch channel row column,getStretched_grid right batch channel row column]

end Tensor

open Tensor

-- A list of positions has one for each of the windows, or one for all of them.
def Image.serves (positions : List Nat) (count : Int) : Bool :=
  (positions.length : Int) == count || positions.length == 1

-- The position for a window; a single position serves every window.
def Image.visited (positions : List Nat) (y : Nat) : Nat :=
  match positions with
  | [a] => a
  | _ => positions.getD y 0

namespace Image

variable {d : DType} {N C H W A B p q n c y z : Nat} {f g : Nat → Nat → Nat → Nat → Scalar} {ys xs : List Nat}
  {x t : Tensor} {filler : Scalar} {rows columns : Windows} {count : Int}

theorem serves_iff (counted : 0 ≤ count) : serves ys count = true ↔ ys.length = 1 ∨ ys.length = count.toNat := by
  unfold serves
  rw [Bool.or_eq_true,beq_iff_eq,beq_iff_eq]
  omega

theorem visited_eq (ys : List Nat) (y : Nat) : visited ys y = ys.getD (coordinate ys.length y) 0 := by
  unfold visited coordinate
  split
  · rfl
  · rename_i several
    rw [if_neg fun one => several _ (List.length_eq_one_iff.mp one).choose_spec]

theorem addTo_places (shape : t.shape = [A,B,p,q]) (reaches : Reaches A B p q N C H W) :
    addTo (grid d N C H W f) t = .ok (grid d N C H W fun n c y z => BinaryKind.add.onScalars d (f n c y z)
      (t.get [coordinate A n,coordinate B c,coordinate p y,coordinate q z])) := by
  refine bind_ok.mpr ⟨_,stretchTo_places shape reaches,congrArg Except.ok ?_⟩
  refine (combine_grid .refl .refl).trans (grid_congr fun n batch c channel y row z column => ?_)
  rw [coordinate_self batch,coordinate_self channel,coordinate_self row,coordinate_self column]
  rfl

theorem addTo_grid (reaches : Reaches A B p q N C H W) : addTo (grid d N C H W f) (grid d A B p q g) =
    .ok (grid d N C H W fun n c y z => BinaryKind.add.onScalars d (f n c y z)
      (g (coordinate A n) (coordinate B c) (coordinate p y) (coordinate q z))) := by
  refine (addTo_places rfl reaches).trans (congrArg Except.ok (grid_congr fun n batch c channel y row z column => ?_))
  exact congrArg (BinaryKind.add.onScalars d _) (getStretched_grid reaches batch channel row column)

theorem addTo_apart (apart : ¬ Reaches A B p q N C H W) :
    addTo (grid d N C H W f) (grid d A B p q g) = fail (.unworded .value) :=
  congrArg (· >>= _) (stretchTo_apart apart)

theorem view_grid (inside : ∀ r ∈ ys, r < H) (beside : ∀ s ∈ xs, s < W) : view (grid d N C H W f) ys xs =
    grid d N C ys.length xs.length fun n c a b => f n c (ys.getD a 0) (xs.getD b 0) := by
  have entry {ps : List Nat} {k a : Nat} (each : ∀ r ∈ ps, r < k) (within : a < ps.length) : ps.getD a 0 < k := by
    rw [List.getD_eq_getElem?_getD,List.getElem?_eq_getElem within]
    exact each _ (List.getElem_mem within)
  refine tabulate_grid fun n batch c channel a row b column => ?_
  exact get_grid batch channel (entry inside row) (entry beside column)

theorem pad_eq (x : Tensor) (filler : Scalar) (rows columns : Windows) : pad x filler rows columns =
    if cuts rows columns then fail (.unworded .value) else
      .ok (grid x.dtype (x.shape.getD 0 0) (x.shape.getD 1 0) ((x.shape.getD 2 0 : Int) + rows.first + rows.last).toNat
        ((x.shape.getD 3 0 : Int) + columns.first + columns.last).toNat (padded x filler rows columns)) := rfl

theorem cuts_iff : cuts rows columns = false ↔
    0 ≤ rows.first ∧ 0 ≤ rows.last ∧ 0 ≤ columns.first ∧ 0 ≤ columns.last := by
  simp [cuts]

end Image

-- Positions lie on the axis, whichever way the steps go.
theorem stepPositions_lt {n start stop step : Int} (extent : 0 ≤ n) :
    ∀ r ∈ stepPositions n start stop step, r < n.toNat := by
  let bound (i : Int) : Int :=
    if i < 0 then max (if step < 0 then -1 else 0) (i + n) else min i (if step < 0 then n - 1 else n)
  have low (i : Int) : (if step < 0 then -1 else 0) ≤ bound i := by
    simp only [bound]
    split <;> split <;> omega
  have high (i : Int) : bound i ≤ if step < 0 then n - 1 else n := by
    simp only [bound]
    split <;> split <;> omega
  have begins := And.intro (low start) (high start)
  have ends := And.intro (low stop) (high stop)
  intro r member
  obtain ⟨k,within,rfl⟩ := List.mem_map.mp member
  rw [List.mem_range] at within
  change k < Int.toNat (if 0 < step then (if bound start < bound stop then
    (bound stop - bound start - 1) / step + 1 else 0) else if step < 0 then
      (if bound stop < bound start then (bound start - bound stop - 1) / -step + 1 else 0) else 0) at within
  change (bound start + step * (k : Int)).toNat < n.toNat
  generalize bound start = a at *
  generalize bound stop = b at *
  by_cases forward : 0 < step
  · rw [if_neg (by omega),if_neg (by omega)] at begins ends
    rw [if_pos forward] at within
    split at within
    · have reach : (k : Int) * step ≤ b - a - 1 := Int.mul_le_of_le_ediv forward (by omega)
      rw [Int.mul_comm] at reach
      omega
    · omega
  · rw [if_neg forward] at within
    split at within
    · rename_i back
      rw [if_pos back,if_pos back] at begins ends
      have fall : step * (k : Int) ≤ 0 := Int.mul_nonpos_of_nonpos_of_nonneg (by omega) (by omega)
      split at within <;> omega
    · omega

namespace Patch

variable {x : Tensor} {filler : Scalar} {rows columns : Windows}

theorem visits_lt {n stride dilation : Int} {ws : Windows} {k : Nat} (extent : 0 ≤ n + ws.first + ws.last) :
    ∀ r ∈ visits n ws stride dilation k, r < (n + ws.first + ws.last).toNat := stepPositions_lt extent

-- The rows and the columns that a cell visits, one for each window, of a padded image.
def rowVisits (p : Patch) (height : Nat) (rows : Windows) (cell : Nat × Nat) : List Nat :=
  visits height rows p.strides.1 p.dilations.1 cell.1

def columnVisits (p : Patch) (width : Nat) (columns : Windows) (cell : Nat × Nat) : List Nat :=
  visits width columns p.strides.2 p.dilations.2 cell.2

-- What a cell visits, one for each window, of a padded image.
def visited (p : Patch) (x : Tensor) (filler : Scalar) (rows columns : Windows) (cell : Nat × Nat) : Tensor :=
  let ys := p.rowVisits (x.shape.getD 2 0) rows cell
  let zs := p.columnVisits (x.shape.getD 3 0) columns cell
  grid x.dtype (x.shape.getD 0 0) (x.shape.getD 1 0) ys.length zs.length fun n c a b =>
    Image.padded x filler rows columns n c (ys.getD a 0) (zs.getD b 0)

-- The positions that a cell visits serve all windows.
def served (p : Patch) (x : Tensor) (rows columns : Windows) (cell : Nat × Nat) : Bool :=
  Image.serves (p.rowVisits (x.shape.getD 2 0) rows cell) rows.count &&
    Image.serves (p.columnVisits (x.shape.getD 3 0) columns cell) columns.count

theorem served_iff {p : Patch} (cell : Nat × Nat) (counted : 0 ≤ rows.count ∧ 0 ≤ columns.count) :
    p.served x rows columns cell = true ↔
      ((p.rowVisits (x.shape.getD 2 0) rows cell).length = 1 ∨
        (p.rowVisits (x.shape.getD 2 0) rows cell).length = rows.count.toNat) ∧
      ((p.columnVisits (x.shape.getD 3 0) columns cell).length = 1 ∨
        (p.columnVisits (x.shape.getD 3 0) columns cell).length = columns.count.toNat) := by
  unfold served
  rw [Bool.and_eq_true,Image.serves_iff counted.1,Image.serves_iff counted.2]

-- What a cell finds for a window.
def found (p : Patch) (x : Tensor) (filler : Scalar) (rows columns : Windows) (cell : Nat × Nat) (n c y z : Nat) : Scalar :=
  Image.padded x filler rows columns n c (Image.visited (p.rowVisits (x.shape.getD 2 0) rows cell) y)
    (Image.visited (p.columnVisits (x.shape.getD 3 0) columns cell) z)

theorem views_eq (p : Patch) {y : Tensor} (padded : Image.pad x filler rows columns = .ok y) :
    p.views y (x.shape.getD 2 0) (x.shape.getD 3 0) rows columns =
      p.cells.map fun cell => (cell.1,cell.2,p.visited x filler rows columns cell) := by
  rw [Image.pad_eq] at padded
  split at padded
  · cases padded
  · rename_i whole
    obtain ⟨front,back,left,right⟩ := Image.cuts_iff.mp (Bool.eq_false_iff.mpr whole)
    cases padded
    refine List.map_congr_left fun cell _ => ?_
    exact congrArg (fun view => (cell.1,cell.2,view)) (Image.view_grid (visits_lt (by omega)) (visits_lt (by omega)))

end Patch

end TensorGraph
