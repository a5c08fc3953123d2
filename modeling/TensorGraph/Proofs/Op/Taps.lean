import TensorGraph.Proofs.Op.Block
import TensorGraph.Proofs.Op.Sound.Window

namespace TensorGraph
open Outcome

variable {x y : Tensor} {filler : Scalar} {rows columns : Windows}

theorem Shape.mem_four {s : Shape} {i j k l : Nat} (rank : s.length = 4) : [i,j,k,l] ∈ indices s ↔
    i < s.getD 0 0 ∧ j < s.getD 1 0 ∧ k < s.getD 2 0 ∧ l < s.getD 3 0 := by
  obtain ⟨a,b,c,d,rfl⟩ := shape_of_rank rank
  simp [mem_indices]

namespace Image

-- What an image with channels second has at a row and a column that may lie outside of it, where there is a filler.
def element (x : Tensor) (filler : Scalar) (n c : Nat) (row column : Int) : Scalar :=
  if (0 ≤ row ∧ row < x.shape.getD 2 0) ∧ 0 ≤ column ∧ column < x.shape.getD 3 0 then
    x.get [n,c,row.toNat,column.toNat]
  else filler

theorem padded_eq (x : Tensor) (filler : Scalar) (rows columns : Windows) (n c i j : Nat) :
    padded x filler rows columns n c i j = element x filler n c (i - rows.first) (j - columns.first) := by
  unfold padded element
  simp only [Bool.and_eq_true,decide_eq_true_eq,and_assoc]

-- Only the elements of the channel count.
theorem element_congr {n m c d : Nat} (extents : ∀ a ≥ 2, x.shape.getD a 0 = y.shape.getD a 0)
    (same : ∀ i j, i < x.shape.getD 2 0 → j < x.shape.getD 3 0 → x.get [n,c,i,j] = y.get [m,d,i,j])
    (filler : Scalar) (row column : Int) : element x filler n c row column = element y filler m d row column := by
  unfold element
  rw [← extents 2 (by decide),← extents 3 (by decide)]
  split
  · exact same _ _ (by omega) (by omega)
  · rfl

theorem visited_getD {positions : List Nat} {i : Nat} (inside : i < positions.length) :
    visited positions i = positions.getD i 0 := by
  unfold visited
  split
  · rw [Nat.lt_one_iff.mp inside]
    rfl
  · rfl

end Image

namespace Patch

-- Where a cell of a window finds an element: a stride further for each window, and a dilation for each cell.
theorem visited_visits {padding : Padding} {n kernel stride dilation axis axes : Int} {ws : Windows} {k i : Nat}
    (found : padding.compute n kernel stride dilation axis axes = .ok (ws.count,ws.first,ws.last))
    (forward : 0 ≤ stride) (spread : 0 ≤ dilation) (cell : (k : Int) < kernel) (window : i < ws.count.toNat) :
    (Image.visited (visits n ws stride dilation k) i : Int) = i * stride + k * dilation := by
  obtain ⟨positions,-,-⟩ := visits_eq found forward spread cell
  have front := Int.mul_nonneg (Int.natCast_nonneg k) spread
  have reach := Int.mul_nonneg forward (Int.natCast_nonneg i)
  rw [positions,Image.visited_getD (by rwa [List.length_map,List.length_range]),List.getD_eq_getElem?_getD,
    List.getElem?_map,List.getElem?_range window]
  change ((k * dilation + stride * i).toNat : Int) = _
  rw [Int.toNat_of_nonneg (by omega),Int.mul_comm stride,Int.add_comm]

variable {p : Patch} {h w : Nat}

theorem padded_tap (x : Tensor) (filler : Scalar) {n c i j y z : Nat}
    (windows : p.outputPair h w = .ok (rows,columns)) (forward : Pooling.Forward p) (cell : (i,j) ∈ p.cells)
    (row : y < rows.count.toNat) (column : z < columns.count.toNat) :
    Image.padded x filler rows columns n c (Image.visited (visits h rows p.strides.1 p.dilations.1 i) y)
        (Image.visited (visits w columns p.strides.2 p.dilations.2 j) z) =
      Image.element x filler n c (y * p.strides.1 + i * p.dilations.1 - rows.first)
        (z * p.strides.2 + j * p.dilations.2 - columns.first) := by
  obtain ⟨down,along⟩ := outputPair_parts windows
  obtain ⟨high,wide⟩ := mem_cells cell
  rw [Image.padded_eq,visited_visits down forward.1 forward.2.2.1 high row,
    visited_visits along forward.2.1 forward.2.2.2 wide column]

-- The cells row by row.
theorem foldl_cells {α : Type} (p : Patch) (f : α → Nat × Nat → α) (a : α) : p.cells.foldl f a =
    (List.range p.kernel.1.toNat).foldl (fun acc i =>
      (List.range p.kernel.2.toNat).foldl (fun acc j => f acc (i,j)) acc) a := by
  unfold cells
  simp only [List.foldl_flatMap,List.foldl_map]

end Patch

end TensorGraph
