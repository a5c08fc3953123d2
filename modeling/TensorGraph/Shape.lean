import TensorGraph.Fault

namespace TensorGraph

namespace Shape

def size : Shape → Nat
  | [] => 1
  | n :: s => n * size s

def indices : Shape → List (List Nat)
  | [] => [[]]
  | n :: s => (List.range n).flatMap fun i => (indices s).map (i :: ·)

def offset : Shape → List Nat → Nat
  | _ :: s,i :: r => i * size s + offset s r
  | _,_ => 0

theorem length_indices (s : Shape) : (indices s).length = size s := by
  induction s with
  | nil => rfl
  | cons n s ih =>
    simp [indices,size,List.length_flatMap,ih,List.map_const']

theorem getElem?_flatMap_of_length {α β : Type} (xs : List α) (f : α → List β) (size i j : Nat)
    (h : ∀ x ∈ xs, (f x).length = size) (hj : j < size) :
    (xs.flatMap f)[i * size + j]? = xs[i]?.bind fun x => (f x)[j]? := by
  induction xs generalizing i with
  | nil => simp
  | cons x xs ih =>
    have hx : (f x).length = size := h x (by simp)
    rw [List.flatMap_cons]
    cases i with
    | zero => simp [List.getElem?_append_left,hx,hj]
    | succ i =>
      rw [List.getElem?_append_right (by rw [hx,Nat.add_mul]; omega),hx]
      have e : (i + 1) * size + j - size = i * size + j := by rw [Nat.add_mul]; omega
      rw [e,ih i fun y hy => h y (by simp [hy])]
      simp

theorem offset_lt {s : Shape} {index : List Nat} (h : index ∈ indices s) :
    offset s index < size s := by
  induction s generalizing index with
  | nil => simp [offset,size]
  | cons n s ih =>
    simp only [indices,List.mem_flatMap,List.mem_range,List.mem_map] at h
    obtain ⟨i,hi,r,hr,rfl⟩ := h
    have hl := ih hr
    have hm : (i + 1) * size s ≤ n * size s := Nat.mul_le_mul_right _ hi
    rw [Nat.add_mul] at hm
    simp only [offset,size]
    omega

theorem getElem?_indices_offset {s : Shape} {index : List Nat} (h : index ∈ indices s) :
    (indices s)[offset s index]? = some index := by
  induction s generalizing index with
  | nil => simp_all [indices,offset]
  | cons n s ih =>
    simp only [indices,List.mem_flatMap,List.mem_range,List.mem_map] at h
    obtain ⟨i,hi,r,hr,rfl⟩ := h
    simp only [indices,offset]
    rw [getElem?_flatMap_of_length _ _ _ _ _ (fun x _ => by rw [List.length_map,length_indices])
      (offset_lt hr)]
    simp [hi,ih hr]

-- Extent of an axis on which two extents meet; an extent of 1 stretches.
def stretch? (m n : Nat) : Option Nat :=
  if m = n then some m else if m = 1 then some n else if n = 1 then some m else none

def lead (rank : Nat) (s : Shape) : Shape := List.replicate (rank - s.length) 1 ++ s

def broadcast? (s t : Shape) : Option Shape :=
  let rank := max s.length t.length
  ((lead rank s).zip (lead rank t)).mapM fun (m,n) => stretch? m n

def broadcastAll? (ss : List Shape) : Option Shape := ss.foldlM broadcast? []

-- Index into `s` of the element that stands at an index of a shape `s` stretches to.
def source (s : Shape) (index : List Nat) : List Nat :=
  List.zipWith (fun n i => if n = 1 then 0 else i) s (index.drop (index.length - s.length))

end Shape

def normalizeAxis (axis : Int) (rank : Nat) : Outcome Nat :=
  let a := if axis < 0 then axis + rank else axis
  if 0 ≤ a && a < rank then .ok a.toNat else fail (.axisOutOfRange axis rank)

def normalizeAxes (axes : List Int) (rank : Nat) : Outcome (List Nat) := do
  let found ← axes.mapM (normalizeAxis · rank)
  return (List.range rank).filter found.contains

end TensorGraph
