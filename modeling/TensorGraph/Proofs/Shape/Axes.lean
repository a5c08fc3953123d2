import TensorGraph.Proofs.Outcome
import TensorGraph.Shape

namespace TensorGraph
open Outcome

-- The place of an axis, which may be counted from the end.
def axisPlace (rank : Nat) (axis : Int) : Int := if axis < 0 then axis + rank else axis

def Ranked (rank : Nat) (axis : Int) : Prop := 0 ≤ axisPlace rank axis ∧ axisPlace rank axis < rank

def axisPlaces (rank : Nat) (axes : List Int) : List Nat := axes.map fun axis => (axisPlace rank axis).toNat

theorem axisPlaces_eq (rank : Nat) (axes : List Int) : axisPlaces rank axes = (axes.map (axisPlace rank)).map Int.toNat := by
  rw [axisPlaces,List.map_map]
  rfl

theorem normalizeAxis_ok {axis : Int} {rank a : Nat} :
    normalizeAxis axis rank = .ok a ↔ Ranked rank axis ∧ (axisPlace rank axis).toNat = a := by
  have checked : normalizeAxis axis rank = if 0 ≤ axisPlace rank axis && axisPlace rank axis < rank then
      .ok (axisPlace rank axis).toNat else fail (.axisOutOfRange axis rank) := rfl
  rw [checked]
  split
  · rename_i inside
    rw [Bool.and_eq_true,decide_eq_true_eq,decide_eq_true_eq] at inside
    simp [Ranked,inside]
  · rename_i outside
    rw [Bool.and_eq_true,decide_eq_true_eq,decide_eq_true_eq] at outside
    exact ⟨nofun,fun ranked => absurd ranked.1 outside⟩

theorem normalizeAxes_ok {axes : List Int} {rank : Nat} {found : List Nat} : normalizeAxes axes rank = .ok found ↔
    (∀ axis ∈ axes, Ranked rank axis) ∧ found = (List.range rank).filter (axisPlaces rank axes).contains := by
  unfold normalizeAxes
  constructor
  · intro chosen
    obtain ⟨places,each,equal⟩ := bind_ok.mp chosen
    cases equal
    have each := (mapM_ok.mp each).imp fun axis a found => normalizeAxis_ok.mp found
    have same : axisPlaces rank axes = places := by
      rw [← List.forall₂_eq_eq_eq]
      exact List.forall₂_map_left_iff.mpr (each.imp fun _ _ => And.right)
    refine ⟨fun axis member => ?_,by rw [same]⟩
    obtain ⟨_,-,ranked,-⟩ := forall₂_left each axis member
    exact ranked
  · rintro ⟨ranked,rfl⟩
    exact bind_ok.mpr ⟨_,mapM_eq_map fun axis member => normalizeAxis_ok.mpr ⟨ranked axis member,rfl⟩,rfl⟩

theorem mem_chosen {axes : List Int} {rank a : Nat} (ranked : ∀ axis ∈ axes, Ranked rank axis) :
    a ∈ (List.range rank).filter (axisPlaces rank axes).contains ↔ a ∈ axisPlaces rank axes := by
  rw [List.mem_filter,List.mem_range,List.contains_iff_mem,and_iff_right_iff_imp]
  intro member
  obtain ⟨axis,there,rfl⟩ := List.mem_map.mp member
  have inside := ranked axis there
  unfold Ranked at inside
  omega

end TensorGraph
