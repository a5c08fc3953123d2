import TensorGraph.Proofs.Op.Views

namespace TensorGraph
open Outcome Shape Tensor

-- What is added one cell after the other at each place is the sum over the cells there.
theorem foldl_places {α : Type} (h : α → Nat → Nat → Nat → Nat → Scalar → Scalar) (xs : List α)
    (f : Nat → Nat → Nat → Nat → Scalar) (n c y z : Nat) :
    xs.foldl (fun f x n c y z => h x n c y z (f n c y z)) f n c y z =
      xs.foldl (fun acc x => h x n c y z acc) (f n c y z) := by
  induction xs generalizing f with
  | nil => rfl
  | cons x xs ih => exact ih _

theorem foldl_both {α β γ : Type} (h : β → α → β) (k : γ → α → γ) (xs : List α) (a : β) (b : γ) :
    xs.foldl (fun s x => (h s.1 x,k s.2 x)) (a,b) = (xs.foldl h a,xs.foldl k b) := by
  induction xs generalizing a b with
  | nil => rfl
  | cons x xs ih => exact ih _ _

-- Of the numbers below a bound one is met at most.
theorem foldl_range_one {α : Type} (h : Nat → α → α) (m k : Nat) (a : α) :
    (List.range m).foldl (fun acc i => if i = k then h i acc else acc) a = if k < m then h k a else a := by
  induction m with
  | zero => rfl
  | succ m ih =>
    rw [List.range_succ,List.foldl_append,ih,List.foldl_cons,List.foldl_nil]
    grind

namespace Convolution

variable {c : Convolution} {x w : Tensor} {bias : Option Tensor} {rows columns : Windows}

-- Sum over the channels of a group of data times kernel, at one cell of the window.
def channelSum (x w : Tensor) (rows columns : Windows) (n o i j first perGroup row column : Nat) : Scalar :=
  MatMul.dot x.dtype ((List.range perGroup).map fun c =>
    (Image.padded x (.zero x.dtype) rows columns n (first + c) row column,w.get [o,c,i,j]))

-- The windows over data with channels second under a kernel with output channels first.
abbrev patchOf (c : Convolution) (w : Tensor) : Patch := c.patch (w.shape.getD 2 0,w.shape.getD 3 0)

def addBias (t : DType) (bias : Option Tensor) (o : Nat) (total : Scalar) : Scalar :=
  match bias with
  | some b => BinaryKind.add.onScalars t total (b.get [o])
  | none => total

-- What a cell of the window adds for one output channel.
def tap (c : Convolution) (x w : Tensor) (rows columns : Windows) (cell : Nat × Nat) (n o y z : Nat) : Scalar :=
  channelSum x w rows columns n o cell.1 cell.2 (o / (w.shape.getD 0 0 / c.groups) * w.shape.getD 1 0)
    (w.shape.getD 1 0)
    (Image.visited (Patch.visits (x.shape.getD 2 0) rows c.strides.1 c.dilations.1 cell.1) y)
    (Image.visited (Patch.visits (x.shape.getD 3 0) columns c.strides.2 c.dilations.2 cell.2) z)

-- The sum over the cells of the window, for one output channel.
def total (c : Convolution) (x w : Tensor) (rows columns : Windows) (n o y z : Nat) : Scalar :=
  (c.patchOf w).cells.foldl (fun acc cell => BinaryKind.add.onScalars x.dtype acc (c.tap x w rows columns cell n o y z))
    (.zero x.dtype)

def convolved (c : Convolution) (x w : Tensor) (bias : Option Tensor) (rows columns : Windows) : Tensor :=
  .tabulate x.dtype [x.shape.getD 0 0,w.shape.getD 0 0,rows.count.toNat,columns.count.toNat] fun index =>
    addBias x.dtype bias (index.getD 1 0)
      (c.total x w rows columns (index.getD 0 0) (index.getD 1 0) (index.getD 2 0) (index.getD 3 0))

-- The positions that a cell visits serve all windows; without groups nothing is asked of them.
def served (c : Convolution) (x w : Tensor) (rows columns : Windows) (cell : Nat × Nat) : Bool :=
  c.groups == 0 || (c.patchOf w).served x rows columns cell

section Block
variable {d : DType} {N C O H W p q m first : Nat} {f v g : Nat → Nat → Nat → Nat → Scalar}

theorem channelSums_grid {i j group perGroup perOutput : Nat} (inside : group * perGroup + perGroup ≤ C) :
    channelSums (grid d N C p q v) w i j group perGroup perOutput = grid d N perOutput p q fun n o a b =>
      MatMul.dot d ((List.range perGroup).map fun k =>
        (v n (group * perGroup + k) a b,w.get [group * perOutput + o,k,i,j])) := by
  refine tabulate_grid fun n batch o _ a row b column => ?_
  refine congrArg (MatMul.dot d) (List.map_congr_left fun k member => ?_)
  have below := List.mem_range.mp member
  exact congrArg (·,_) (get_grid batch (by omega) row column)

theorem addChannels_grid (reaches : (p = 1 ∨ p = H) ∧ (q = 1 ∨ q = W)) :
    addChannels (grid d N O H W f) (grid d N m p q g) first = .ok (grid d N O H W fun n o y z =>
      if first ≤ o ∧ o < first + m then
        BinaryKind.add.onScalars d (f n o y z) (g n (o - first) (coordinate p y) (coordinate q z))
      else f n o y z) := by
  refine bind_ok.mpr ⟨_,stretchTo_places (N := N) (C := m) rfl ⟨.inr rfl,.inr rfl,reaches.1,reaches.2⟩,congrArg Except.ok ?_⟩
  refine tabulate_grid fun n batch o output y row z column => ?_
  dsimp only
  rw [get_grid batch output row column]
  simp only [Bool.and_eq_true,decide_eq_true_eq]
  refine if_ctx_congr Iff.rfl (fun inside => congrArg (BinaryKind.add.onScalars d _) ?_) fun _ => rfl
  have own : o - first < m := by omega
  refine (get_grid batch own row column).trans ?_
  rw [coordinate_self batch,coordinate_self own]
  exact get_grid batch own (coordinate_lt reaches.1 row) (coordinate_lt reaches.2 column)

theorem addChannels_apart (apart : ¬ ((p = 1 ∨ p = H) ∧ (q = 1 ∨ q = W))) :
    addChannels (grid d N O H W f) (grid d N m p q g) first = fail (.unworded .value) :=
  congrArg (· >>= _) (stretchTo_apart fun reaches => apart ⟨reaches.row,reaches.column⟩)

end Block

theorem served_iff (cell : Nat × Nat) (grouped : 0 < c.groups) :
    c.served x w rows columns cell = true ↔ (c.patchOf w).served x rows columns cell = true := by
  unfold served
  rw [Bool.or_eq_true,beq_iff_eq,or_iff_right (Nat.ne_of_gt grouped)]

-- An output channel belongs to the group whose block it stands in.
theorem block_iff {group size o : Nat} (some : 0 < size) :
    group * size ≤ o ∧ o < group * size + size ↔ group = o / size := by
  rw [eq_comm,Nat.div_eq_iff some]
  omega

section Cell
variable (cell : Nat × Nat) (f : Nat → Nat → Nat → Nat → Scalar)
  (fit : w.shape.getD 1 0 * c.groups = x.shape.getD 1 0) (whole : w.shape.getD 0 0 % c.groups = 0)
  (counted : 0 ≤ rows.count ∧ 0 ≤ columns.count)
include fit whole counted

-- A group adds to its own output channels, if its view stretches over all windows.
theorem addGroup_grid {group : Nat} (member : group < c.groups) :
    addChannels (grid x.dtype (x.shape.getD 0 0) (w.shape.getD 0 0) rows.count.toNat columns.count.toNat f)
      (channelSums ((c.patchOf w).visited x (.zero x.dtype) rows columns cell) w cell.1 cell.2 group (w.shape.getD 1 0)
        (w.shape.getD 0 0 / c.groups)) (group * (w.shape.getD 0 0 / c.groups)) =
      if c.served x w rows columns cell then
        .ok (grid x.dtype (x.shape.getD 0 0) (w.shape.getD 0 0) rows.count.toNat columns.count.toNat fun n o y z =>
          if group = o / (w.shape.getD 0 0 / c.groups) then
            BinaryKind.add.onScalars x.dtype (f n o y z) (c.tap x w rows columns cell n o y z)
          else f n o y z)
      else fail (.unworded .value) := by
  have inside : group * w.shape.getD 1 0 + w.shape.getD 1 0 ≤ x.shape.getD 1 0 := by
    calc group * w.shape.getD 1 0 + w.shape.getD 1 0
      _ = (group + 1) * w.shape.getD 1 0 := (Nat.succ_mul ..).symm
      _ ≤ c.groups * w.shape.getD 1 0 := Nat.mul_le_mul_right _ member
      _ = x.shape.getD 1 0 := (Nat.mul_comm ..).trans fit
  have serves := (served_iff (x := x) (w := w) cell (Nat.lt_of_le_of_lt (Nat.zero_le _) member)).trans
    (Patch.served_iff cell counted)
  have parts := Nat.div_mul_cancel (Nat.dvd_of_mod_eq_zero whole)
  unfold Patch.visited
  rw [channelSums_grid inside]
  split
  · rename_i here
    refine (addChannels_grid (serves.mp here)).trans (congrArg Except.ok (grid_congr ?_))
    intro n batch o output y row z column
    have some : 0 < w.shape.getD 0 0 / c.groups := Nat.pos_of_ne_zero fun none => by
      rw [none,Nat.zero_mul] at parts
      omega
    refine if_ctx_congr (block_iff some) (fun own => congrArg (BinaryKind.add.onScalars x.dtype _) ?_) fun _ => rfl
    have first := ((block_iff some).mpr own).1
    unfold tap channelSum
    rw [← own,Nat.add_sub_cancel' first,Image.visited_eq,Image.visited_eq]
    rfl
  · rename_i apart
    exact addChannels_apart fun reaches => apart (serves.mpr reaches)

-- All groups together add at every output channel.
theorem addGroups_grid :
    (List.range c.groups).foldlM (fun total group => addChannels total
        (channelSums ((c.patchOf w).visited x (.zero x.dtype) rows columns cell) w cell.1 cell.2 group (w.shape.getD 1 0)
          (w.shape.getD 0 0 / c.groups)) (group * (w.shape.getD 0 0 / c.groups)))
      (grid x.dtype (x.shape.getD 0 0) (w.shape.getD 0 0) rows.count.toNat columns.count.toNat f) =
      if c.served x w rows columns cell then
        .ok (grid x.dtype (x.shape.getD 0 0) (w.shape.getD 0 0) rows.count.toNat columns.count.toNat fun n o y z =>
          BinaryKind.add.onScalars x.dtype (f n o y z) (c.tap x w rows columns cell n o y z))
      else fail (.unworded .value) := by
  have each := fun f group (member : group ∈ List.range c.groups) =>
    addGroup_grid cell f fit whole counted (List.mem_range.mp member)
  have all : (List.range c.groups).all (fun _ => c.served x w rows columns cell) = c.served x w rows columns cell := by
    cases here : c.served x w rows columns cell with
    | true => simp
    | false =>
      have some : c.groups ≠ 0 := fun none => by simp [served,none] at here
      simpa using ⟨0,Nat.pos_of_ne_zero some⟩
  rw [foldlM_guarded _ _ _ each,all]
  split
  · refine congrArg Except.ok (grid_congr fun n batch o output y row z column => ?_)
    have group : o / (w.shape.getD 0 0 / c.groups) < c.groups :=
      Nat.div_lt_of_lt_mul (by rwa [Nat.div_mul_cancel (Nat.dvd_of_mod_eq_zero whole)])
    rw [foldl_places fun group n o y z acc => if group = o / (w.shape.getD 0 0 / c.groups) then
      BinaryKind.add.onScalars x.dtype acc (c.tap x w rows columns cell n o y z) else acc]
    exact (foldl_range_one _ _ _ _).trans (if_pos group)
  · rfl

end Cell

-- The convolution told place by place.
def gathered (c : Convolution) (x w : Tensor) (bias : Option Tensor) : Outcome Tensor := do
  if w.shape.getD 1 0 * c.groups ≠ x.shape.getD 1 0 || w.shape.getD 0 0 % c.groups ≠ 0 then
    fail (.convChannels (x.shape.getD 1 0) w.shape c.groups)
  else
    let (rows,columns) ← (c.patchOf w).outputPair (x.shape.getD 2 0) (x.shape.getD 3 0)
    if Image.cuts rows columns || rows.count < 0 || columns.count < 0 ||
        !(c.patchOf w).cells.all (c.served x w rows columns) then
      fail (.unworded .value)
    else
      match bias with
      | some b =>
        if b.shape = [w.shape.getD 0 0] then return c.convolved x w bias rows columns
        else fail (.convBias (w.shape.getD 0 0) b.shape)
      | none => return c.convolved x w bias rows columns

-- Cell by cell and group by group the sums come together that are told place by place.
theorem addCells_grid (fit : w.shape.getD 1 0 * c.groups = x.shape.getD 1 0) (whole : w.shape.getD 0 0 % c.groups = 0)
    (counted : 0 ≤ rows.count ∧ 0 ≤ columns.count) {padded : Tensor}
    (made : Image.pad x (.zero x.dtype) rows columns = .ok padded) :
    ((c.patchOf w).views padded (x.shape.getD 2 0) (x.shape.getD 3 0) rows columns).foldlM
      (fun total (i,j,view) => (List.range c.groups).foldlM (fun total group => addChannels total
        (channelSums view w i j group (w.shape.getD 1 0) (w.shape.getD 0 0 / c.groups))
          (group * (w.shape.getD 0 0 / c.groups))) total)
      (Tensor.zeros x.dtype [x.shape.getD 0 0,w.shape.getD 0 0,rows.count.toNat,columns.count.toNat]) =
      if (c.patchOf w).cells.all (c.served x w rows columns) then
        .ok (grid x.dtype (x.shape.getD 0 0) (w.shape.getD 0 0) rows.count.toNat columns.count.toNat
          (c.total x w rows columns))
      else fail (.unworded .value) := by
  have each := fun f cell (_ : cell ∈ (c.patchOf w).cells) => addGroups_grid cell f fit whole counted
  rw [Patch.views_eq _ made,List.foldlM_map,Tensor.zeros,fill_grid,foldlM_guarded _ _ _ each]
  split
  · refine congrArg Except.ok (grid_congr fun n _ o _ y _ z _ => ?_)
    exact foldl_places (fun cell n o y z acc => BinaryKind.add.onScalars x.dtype acc (c.tap x w rows columns cell n o y z))
      _ _ n o y z
  · rfl

-- The bias stretches over all places of its channel.
theorem addTo_bias {d : DType} {N O H W : Nat} {f : Nat → Nat → Nat → Nat → Scalar} {b : Tensor} (row : b.shape = [O]) :
    Image.addTo (grid d N O H W f) (b.reshape [1,O,1,1]) =
      .ok (grid d N O H W fun n o y z => BinaryKind.add.onScalars d (f n o y z) (b.get [o])) := by
  have reaches : Reaches 1 O 1 1 N O H W := ⟨.inl rfl,.inr rfl,.inl rfl,.inl rfl⟩
  refine (Image.addTo_places rfl reaches).trans ?_
  refine congrArg Except.ok (grid_congr fun n _ o output y _ z _ => congrArg (BinaryKind.add.onScalars d _) ?_)
  unfold Tensor.get Tensor.reshape
  rw [row,coordinate_self output]
  simp [offset,size,coordinate]

theorem apply_eq (c : Convolution) (x w : Tensor) (bias : Option Tensor) : c.apply x w bias = c.gathered x w bias := by
  unfold apply gathered
  dsimp only
  split
  · rfl
  rename_i grouped
  simp only [Bool.or_eq_true,decide_eq_true_eq,not_or,ne_eq,Decidable.not_not] at grouped
  refine congrArg (_ >>= ·) (funext fun ⟨rows,columns⟩ => ?_)
  dsimp only
  by_cases whole : Image.cuts rows columns = true
  · rw [Image.pad_eq,if_pos whole,whole]
    rfl
  have padded := (Image.pad_eq x (.zero x.dtype) rows columns).trans (if_neg whole)
  rw [padded,ok_bind,Bool.eq_false_iff.mpr whole,Bool.false_or]
  by_cases counted : (decide (rows.count < 0) || decide (columns.count < 0)) = true
  · rw [if_pos counted,counted]
    rfl
  rw [if_neg counted,Bool.eq_false_iff.mpr counted,Bool.false_or]
  simp only [Bool.or_eq_true,decide_eq_true_eq,not_or,Int.not_lt] at counted
  rw [addCells_grid grouped.1 grouped.2 counted padded]
  cases (c.patchOf w).cells.all (c.served x w rows columns) with
  | false => rfl
  | true =>
    cases bias with
    | none => rfl
    | some b =>
      rw [if_pos rfl,ok_bind]
      dsimp only
      split
      · rename_i row
        exact addTo_bias row
      · rfl

-- What a convolution asks of data, kernel and bias.
structure Fits (c : Convolution) (x w : Tensor) (bias : Option Tensor) (rows columns : Windows) : Prop where
  channels : w.shape.getD 1 0 * c.groups = x.shape.getD 1 0
  outputs : w.shape.getD 0 0 % c.groups = 0
  windows : (c.patchOf w).outputPair (x.shape.getD 2 0) (x.shape.getD 3 0) = .ok (rows,columns)
  whole : Image.cuts rows columns = false
  counted : 0 ≤ rows.count ∧ 0 ≤ columns.count
  served : ∀ cell ∈ (c.patchOf w).cells, c.served x w rows columns cell = true
  row : ∀ b, bias = some b → b.shape = [w.shape.getD 0 0]

theorem apply_ok {u : Tensor} : c.apply x w bias = .ok u ↔
    ∃ rows columns, c.Fits x w bias rows columns ∧ u = c.convolved x w bias rows columns := by
  rw [apply_eq]
  constructor
  · intro evaluated
    unfold gathered at evaluated
    split at evaluated
    · cases evaluated
    rename_i grouped
    simp only [Bool.or_eq_true,decide_eq_true_eq,not_or,ne_eq,Decidable.not_not] at grouped
    obtain ⟨⟨rows,columns⟩,windows,evaluated⟩ := bind_ok.mp evaluated
    dsimp only at evaluated
    split at evaluated
    · cases evaluated
    rename_i passed
    simp only [Bool.or_eq_true,decide_eq_true_eq,not_or,Int.not_lt,Bool.not_eq_true,Bool.not_eq_false',
      List.all_eq_true] at passed
    obtain ⟨⟨⟨whole,high⟩,wide⟩,served⟩ := passed
    cases bias with
    | none =>
      cases evaluated
      exact ⟨rows,columns,⟨grouped.1,grouped.2,windows,whole,⟨high,wide⟩,served,nofun⟩,rfl⟩
    | some b =>
      dsimp only at evaluated
      split at evaluated
      · rename_i row
        cases evaluated
        exact ⟨rows,columns,⟨grouped.1,grouped.2,windows,whole,⟨high,wide⟩,served,fun _ equal =>
          Option.some.inj equal ▸ row⟩,rfl⟩
      · cases evaluated
  · rintro ⟨rows,columns,fits,rfl⟩
    unfold gathered
    have served := List.all_eq_true.mpr fits.served
    rw [fits.channels,fits.outputs,if_neg (by simp),fits.windows,ok_bind]
    dsimp only
    rw [if_neg (by simp [fits.whole,fits.counted,served])]
    cases bias with
    | none => rfl
    | some b => exact if_pos (fits.row b rfl)

end Convolution

namespace Pooling

variable {p : Patch} {x : Tensor} {filler : Scalar} {rows columns : Windows}

-- What the cells of a window find, combined in row-major order.
def collected (p : Patch) (k : BinaryKind) (x : Tensor) (filler : Scalar) (rows columns : Windows) (n c y z : Nat) : Scalar :=
  p.cells.foldl (fun acc cell => k.onScalars x.dtype acc (p.found x filler rows columns cell n c y z)) filler

-- One for each element of an image.
def ones (x : Tensor) : Tensor := .fill x.dtype [1,1,x.shape.getD 2 0,x.shape.getD 3 0] (.float .one)

-- The mean told place by place.
def gatheredMean (p : Patch) (x : Tensor) : Outcome Tensor := do
  let (rows,columns) ← p.outputPair (x.shape.getD 2 0) (x.shape.getD 3 0)
  if Image.cuts rows columns || rows.count < 0 || columns.count < 0 || !p.cells.all (p.served x rows columns) then
    fail (.unworded .value)
  else
    return .grid x.dtype (x.shape.getD 0 0) (x.shape.getD 1 0) rows.count.toNat columns.count.toNat fun n c y z =>
      BinaryKind.div.onScalars x.dtype (collected p .add x (.zero x.dtype) rows columns n c y z)
        (collected p .add (ones x) (.zero x.dtype) rows columns 0 0 y z)

-- Extent of an axis after each cell's positions stretch against it.
def stretched (n : Nat) (positions : List (List Nat)) : Outcome Nat :=
  positions.foldlM (fun n ps =>
    match Shape.stretch? n ps.length with
    | some m => .ok m
    | none => fail (.unworded .value)) n

-- The greatest elements told place by place.
def gatheredGreatest (p : Patch) (x : Tensor) : Outcome Tensor := do
  let (rows,columns) ← p.outputPair (x.shape.getD 2 0) (x.shape.getD 3 0)
  if Image.cuts rows columns || rows.count < 0 || columns.count < 0 then fail (.unworded .value)
  else
    let height ← stretched rows.count.toNat (p.cells.map (p.rowVisits (x.shape.getD 2 0) rows))
    let width ← stretched columns.count.toNat (p.cells.map (p.columnVisits (x.shape.getD 3 0) columns))
    return .grid x.dtype (x.shape.getD 0 0) (x.shape.getD 1 0) height width
      (collected p .maximum x (lowest x.dtype) rows columns)

-- What stands at each place once a cell has added what it finds.
def added (p : Patch) (x : Tensor) (rows columns : Windows) (f : Nat → Nat → Nat → Nat → Scalar) (cell : Nat × Nat)
    (n c y z : Nat) : Scalar :=
  BinaryKind.add.onScalars x.dtype (f n c y z) (p.found x (.zero x.dtype) rows columns cell n c y z)

theorem foldl_added : p.cells.foldl (added p x rows columns) (fun _ _ _ _ => .zero x.dtype) =
    collected p .add x (.zero x.dtype) rows columns := by
  funext n c y z
  exact foldl_places (fun cell n c y z acc => BinaryKind.add.onScalars x.dtype acc
    (p.found x (.zero x.dtype) rows columns cell n c y z)) p.cells _ n c y z

section Mean
variable (cell : Nat × Nat) (counted : 0 ≤ rows.count ∧ 0 ≤ columns.count)
include counted

-- What a cell visits is added at each place, if it stretches over all windows.
theorem addTo_visited (f : Nat → Nat → Nat → Nat → Scalar) : Image.addTo
      (grid x.dtype (x.shape.getD 0 0) (x.shape.getD 1 0) rows.count.toNat columns.count.toNat f)
      (p.visited x (.zero x.dtype) rows columns cell) =
    if p.served x rows columns cell then
      .ok (grid x.dtype (x.shape.getD 0 0) (x.shape.getD 1 0) rows.count.toNat columns.count.toNat
        (added p x rows columns f cell))
    else fail (.unworded .value) := by
  have serves := Patch.served_iff (x := x) (p := p) cell counted
  unfold Patch.visited
  split
  · rename_i here
    obtain ⟨row,column⟩ := serves.mp here
    refine (Image.addTo_grid ⟨.inr rfl,.inr rfl,row,column⟩).trans (congrArg Except.ok (grid_congr ?_))
    intro n batch c channel y _ z _
    unfold added Patch.found
    rw [coordinate_self batch,coordinate_self channel,Image.visited_eq,Image.visited_eq]
  · rename_i apart
    exact Image.addTo_apart fun reaches => apart (serves.mpr ⟨reaches.row,reaches.column⟩)

-- The sums and the numbers of elements come together side by side.
theorem addTo_both (s : (Nat → Nat → Nat → Nat → Scalar) × (Nat → Nat → Nat → Nat → Scalar)) : (do
      return (← Image.addTo (grid x.dtype (x.shape.getD 0 0) (x.shape.getD 1 0) rows.count.toNat columns.count.toNat s.1)
        (p.visited x (.zero x.dtype) rows columns cell),
      ← Image.addTo (grid x.dtype 1 1 rows.count.toNat columns.count.toNat s.2)
        (p.visited (ones x) (.zero x.dtype) rows columns cell)) : Outcome (Tensor × Tensor)) =
    if p.served x rows columns cell then
      .ok (grid x.dtype (x.shape.getD 0 0) (x.shape.getD 1 0) rows.count.toNat columns.count.toNat
          (added p x rows columns s.1 cell),
        grid x.dtype 1 1 rows.count.toNat columns.count.toNat (added p (ones x) rows columns s.2 cell))
    else fail (.unworded .value) := by
  have count := addTo_visited (p := p) (x := ones x) cell counted s.2
  rw [addTo_visited cell counted]
  split
  · rename_i here
    rw [ok_bind]
    exact congrArg (· >>= _) (count.trans (if_pos here))
  · rfl

omit cell in
theorem addCells_both :
    ((p.cells.map fun cell => (cell.1,cell.2,p.visited x (.zero x.dtype) rows columns cell)).zip
        (p.cells.map fun cell => (cell.1,cell.2,p.visited (ones x) (.zero x.dtype) rows columns cell))).foldlM
      (fun (s : Tensor × Tensor) (e : (Nat × Nat × Tensor) × Nat × Nat × Tensor) => (do
        return (← Image.addTo s.1 e.1.2.2,← Image.addTo s.2 e.2.2.2) : Outcome (Tensor × Tensor)))
      (Tensor.zeros x.dtype [x.shape.getD 0 0,x.shape.getD 1 0,rows.count.toNat,columns.count.toNat],
        Tensor.zeros x.dtype [1,1,rows.count.toNat,columns.count.toNat]) =
      if p.cells.all (p.served x rows columns) then
        .ok (grid x.dtype (x.shape.getD 0 0) (x.shape.getD 1 0) rows.count.toNat columns.count.toNat
            (collected p .add x (.zero x.dtype) rows columns),
          grid x.dtype 1 1 rows.count.toNat columns.count.toNat (collected p .add (ones x) (.zero x.dtype) rows columns))
      else fail (.unworded .value) := by
  rw [List.zip_map',List.foldlM_map,Tensor.zeros,fill_grid,Tensor.zeros,fill_grid]
  refine (foldlM_guarded (fun s => (grid x.dtype (x.shape.getD 0 0) (x.shape.getD 1 0) rows.count.toNat columns.count.toNat s.1,
      grid x.dtype 1 1 rows.count.toNat columns.count.toNat s.2))
    (fun s cell => (added p x rows columns s.1 cell,added p (ones x) rows columns s.2 cell)) (p.served x rows columns)
    (c := .unworded .value) ?_ (fun _ _ _ _ => .zero x.dtype,fun _ _ _ _ => .zero x.dtype)).trans ?_
  · exact fun s cell _ => addTo_both cell counted s
  · have counts : p.cells.foldl (added p (ones x) rows columns) (fun _ _ _ _ => .zero x.dtype) =
        collected p .add (ones x) (.zero x.dtype) rows columns := foldl_added
    rw [foldl_both,foldl_added,counts]

end Mean

theorem mean_eq (p : Patch) (x : Tensor) : mean p x = gatheredMean p x := by
  unfold mean gatheredMean
  refine congrArg (_ >>= ·) (funext fun ⟨rows,columns⟩ => ?_)
  dsimp only
  by_cases whole : Image.cuts rows columns = true
  · rw [Image.pad_eq,if_pos whole,whole]
    rfl
  have padded := (Image.pad_eq x (.zero x.dtype) rows columns).trans (if_neg whole)
  have mask := (Image.pad_eq (ones x) (.zero x.dtype) rows columns).trans (if_neg whole)
  have views := p.views_eq padded
  have masks := p.views_eq mask
  rw [padded,ok_bind]
  refine (congrArg (· >>= _) mask).trans ?_
  rw [ok_bind,Bool.eq_false_iff.mpr whole,Bool.false_or]
  by_cases counted : (decide (rows.count < 0) || decide (columns.count < 0)) = true
  · rw [if_pos counted,counted]
    rfl
  rw [if_neg counted,Bool.eq_false_iff.mpr counted,Bool.false_or]
  simp only [Bool.or_eq_true,decide_eq_true_eq,not_or,Int.not_lt] at counted
  rw [views]
  refine (congrArg (fun masks => List.foldlM _ _ (List.zip _ masks) >>= _) masks).trans ?_
  refine (congrArg (· >>= _) (addCells_both counted)).trans ?_
  cases p.cells.all (p.served x rows columns) with
  | false => rfl
  | true =>
    refine congrArg Except.ok ((combine_grid .refl ⟨.inl rfl,.inl rfl,.inr rfl,.inr rfl⟩).trans (grid_congr ?_))
    intro n batch c channel y row z column
    rw [coordinate_self batch,coordinate_self channel,coordinate_self row,coordinate_self column]
    rfl

-- Along an axis stretched from two others, the place on either is read off the stretched place.
theorem stretch?_coordinate {a k h : Nat} (met : stretch? a k = some h) (y : Nat) :
    coordinate a (coordinate h y) = coordinate a y ∧ coordinate k (coordinate h y) = coordinate k y :=
  ⟨coordinate_twice (stretch?_some met).1 y,coordinate_twice (stretch?_some met).2.1 y⟩

theorem stretched_cons (n : Nat) (ps : List Nat) (positions : List (List Nat)) : stretched n (ps :: positions) =
    match stretch? n ps.length with
    | some m => stretched m positions
    | none => fail (.unworded .value) := by
  unfold stretched
  rw [List.foldlM_cons]
  split <;> rfl

-- Positions stretch an axis, or fail in one way.
theorem stretched_cases (n : Nat) (positions : List (List Nat)) :
    (∃ m, stretched n positions = .ok m) ∨ stretched n positions = fail (.unworded .value) := by
  induction positions generalizing n with
  | nil => exact .inl ⟨n,rfl⟩
  | cons ps positions ih =>
    rw [stretched_cons]
    split
    · exact ih _
    · exact .inr rfl

-- The greatest of what was found and of what a cell visits, on the axes that both stretch to.
theorem zipWith?_visited {N C a b p q : Nat} {d : DType} {h : Scalar → Scalar → Scalar} {f g : Nat → Nat → Nat → Nat → Scalar} :
    zipWith? d h (grid d N C a b f) (grid d N C p q g) = (stretch? a p).bind fun m => (stretch? b q).map fun k =>
      grid d N C m k fun n c y z => h (f n c (coordinate a y) (coordinate b z)) (g n c (coordinate p y) (coordinate q z)) := by
  unfold zipWith?
  change (broadcast? [N,C,a,b] [N,C,p,q]).map _ = _
  rw [broadcast?_places,stretch?_self_iff.mpr (.inr rfl),stretch?_self_iff.mpr (.inr rfl),Option.bind_some,Option.bind_some]
  cases row : stretch? a p with
  | none => rfl
  | some m =>
    cases column : stretch? b q with
    | none => rfl
    | some k =>
      obtain ⟨a1,p1,-⟩ := stretch?_some row
      obtain ⟨b1,q1,-⟩ := stretch?_some column
      refine congrArg some ((combine_grid ⟨.inr rfl,.inr rfl,a1,b1⟩ ⟨.inr rfl,.inr rfl,p1,q1⟩).trans (grid_congr ?_))
      intro n batch c channel y _ z _
      rw [coordinate_self batch,coordinate_self channel]

-- Cell by cell both axes stretch as far as the positions do. What was found stays the same along an axis that is
-- still single, so it stretches with it.
theorem greatest_cells (cells : List (Nat × Nat)) {a b : Nat} {f : Nat → Nat → Nat → Nat → Scalar}
    (steady : ∀ n c y z, f n c (coordinate a y) (coordinate b z) = f n c y z) :
    (cells.map fun cell => (cell.1,cell.2,p.visited x filler rows columns cell)).foldlM
      (fun (most : Tensor) (view : Nat × Nat × Tensor) =>
        (match zipWith? x.dtype (BinaryKind.maximum.onScalars x.dtype) most view.2.2 with
          | some most => .ok most
          | none => fail (.unworded .value) : Outcome Tensor))
      (grid x.dtype (x.shape.getD 0 0) (x.shape.getD 1 0) a b f) =
      stretched a (cells.map (p.rowVisits (x.shape.getD 2 0) rows)) >>= fun height =>
        stretched b (cells.map (p.columnVisits (x.shape.getD 3 0) columns)) >>= fun width =>
          .ok (grid x.dtype (x.shape.getD 0 0) (x.shape.getD 1 0) height width fun n c y z => cells.foldl
            (fun acc cell => BinaryKind.maximum.onScalars x.dtype acc (p.found x filler rows columns cell n c y z)) (f n c y z)) := by
  induction cells generalizing a b f with
  | nil => rfl
  | cons cell cells ih =>
    rw [List.map_cons,List.foldlM_cons,List.map_cons,List.map_cons,stretched_cons,stretched_cons]
    unfold Patch.visited
    dsimp only
    rw [zipWith?_visited]
    cases row : stretch? a (p.rowVisits (x.shape.getD 2 0) rows cell).length with
    | none => rfl
    | some h =>
      cases column : stretch? b (p.columnVisits (x.shape.getD 3 0) columns cell).length with
      | none =>
        dsimp only [Option.bind_some,Option.map_none]
        rcases stretched_cases h (cells.map (p.rowVisits (x.shape.getD 2 0) rows)) with ⟨m,through⟩ | stuck
        · rw [through]
          rfl
        · rw [stuck]
          rfl
      | some w =>
        dsimp only [Option.bind_some,Option.map_some]
        rw [ok_bind]
        have finds (n c y z : Nat) : Image.padded x filler rows columns n c
            ((p.rowVisits (x.shape.getD 2 0) rows cell).getD (coordinate (p.rowVisits (x.shape.getD 2 0) rows cell).length y) 0)
            ((p.columnVisits (x.shape.getD 3 0) columns cell).getD
              (coordinate (p.columnVisits (x.shape.getD 3 0) columns cell).length z) 0) =
              p.found x filler rows columns cell n c y z := by
          unfold Patch.found
          rw [Image.visited_eq,Image.visited_eq]
        simp only [steady,finds]
        refine ih fun n c y z => congrArg₂ (BinaryKind.maximum.onScalars x.dtype) ?_ ?_
        · rw [← steady,(stretch?_coordinate row y).1,(stretch?_coordinate column z).1,steady]
        · rw [← finds,(stretch?_coordinate row y).2,(stretch?_coordinate column z).2,finds]

theorem greatest_eq (p : Patch) (x : Tensor) : greatest p x = gatheredGreatest p x := by
  unfold greatest gatheredGreatest
  refine congrArg (_ >>= ·) (funext fun ⟨rows,columns⟩ => ?_)
  dsimp only
  by_cases whole : Image.cuts rows columns = true
  · rw [Image.pad_eq,if_pos whole,whole]
    rfl
  have padded := (Image.pad_eq x (lowest x.dtype) rows columns).trans (if_neg whole)
  rw [padded,ok_bind,Bool.eq_false_iff.mpr whole,Bool.false_or]
  split
  · rfl
  · rw [p.views_eq padded,fill_grid]
    exact greatest_cells p.cells fun _ _ _ _ => rfl

-- The windows over an image have their borders and are counted.
structure Frames (p : Patch) (x : Tensor) (rows columns : Windows) : Prop where
  windows : p.outputPair (x.shape.getD 2 0) (x.shape.getD 3 0) = .ok (rows,columns)
  whole : Image.cuts rows columns = false
  counted : 0 ≤ rows.count ∧ 0 ≤ columns.count

theorem greatest_made {u : Tensor} (evaluated : greatest p x = .ok u) : ∃ rows columns height width, Frames p x rows columns ∧
    stretched rows.count.toNat (p.cells.map (p.rowVisits (x.shape.getD 2 0) rows)) = .ok height ∧
    stretched columns.count.toNat (p.cells.map (p.columnVisits (x.shape.getD 3 0) columns)) = .ok width ∧
    u = grid x.dtype (x.shape.getD 0 0) (x.shape.getD 1 0) height width
      (collected p .maximum x (lowest x.dtype) rows columns) := by
  rw [greatest_eq] at evaluated
  obtain ⟨⟨rows,columns⟩,windows,evaluated⟩ := bind_ok.mp evaluated
  dsimp only at evaluated
  split at evaluated
  · cases evaluated
  · rename_i framed
    simp only [Bool.or_eq_true,decide_eq_true_eq,not_or,Int.not_lt,Bool.not_eq_true] at framed
    obtain ⟨height,high,evaluated⟩ := bind_ok.mp evaluated
    obtain ⟨width,wide,equal⟩ := bind_ok.mp evaluated
    cases equal
    exact ⟨rows,columns,height,width,⟨windows,framed.1.1,framed.1.2,framed.2⟩,high,wide,rfl⟩

theorem mean_made {u : Tensor} (evaluated : mean p x = .ok u) : ∃ rows columns, Frames p x rows columns ∧
    u = grid x.dtype (x.shape.getD 0 0) (x.shape.getD 1 0) rows.count.toNat columns.count.toNat fun n c y z =>
      BinaryKind.div.onScalars x.dtype (collected p .add x (.zero x.dtype) rows columns n c y z)
        (collected p .add (ones x) (.zero x.dtype) rows columns 0 0 y z) := by
  rw [mean_eq] at evaluated
  obtain ⟨⟨rows,columns⟩,windows,evaluated⟩ := bind_ok.mp evaluated
  dsimp only at evaluated
  split at evaluated
  · cases evaluated
  · rename_i framed
    simp only [Bool.or_eq_true,decide_eq_true_eq,not_or,Int.not_lt,Bool.not_eq_true] at framed
    cases evaluated
    exact ⟨rows,columns,⟨windows,framed.1.1.1,framed.1.1.2,framed.1.2⟩,rfl⟩

end Pooling

end TensorGraph
