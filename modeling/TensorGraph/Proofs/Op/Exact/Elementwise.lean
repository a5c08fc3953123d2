import TensorGraph.Proofs.Fact.Exact
import TensorGraph.Proofs.Op.Sound.Elementwise
import TensorGraph.Proofs.Op.Sound.Reshape

namespace TensorGraph
open Outcome Facts

-- Extents other than 0 multiply to an integer of 64 bits.
def Shape.Bounded (s : Shape) : Prop := size (s.filter (· ≠ 0)) < 2 ^ 63

theorem Shape.Bounded.extent {s : Shape} (bounded : s.Bounded) (n : Nat) (member : n ∈ s) : n < 2 ^ 63 := by
  by_cases zero : n = 0
  · omega
  · have kept : n ∈ s.filter (· ≠ 0) := List.mem_filter.mpr ⟨member,by simpa using zero⟩
    obtain ⟨i,entry⟩ := List.mem_iff_getElem?.mp kept
    have positive := size_pos (s := s.filter (· ≠ 0)) fun m found => by simpa using (List.mem_filter.mp found).2
    exact Nat.lt_of_le_of_lt (Nat.le_of_dvd positive (Dvd.intro _ (size_eraseIdx entry).symm)) bounded

variable {t u : Tensor}

namespace Op

end Op

namespace UnaryKind

variable {k : UnaryKind}

end UnaryKind

namespace Cast

end Cast

namespace ShapeOf

end ShapeOf

theorem DType.isFloat_iff {d : DType} : d.isFloat = true ↔ ∃ f, d.layout = .float f := by
  unfold isFloat
  cases d.layout <;> simp

theorem requireFloat_ok {name : String} {d : DType} {p : Unit} (passed : requireFloat name d = .ok p) :
    d.isFloat = true := by
  unfold requireFloat at passed
  split at passed
  · assumption
  · cases passed

namespace Softmax

end Softmax

namespace BinaryKind

variable {k : BinaryKind} {a b : Tensor}

end BinaryKind

namespace AddN

end AddN

namespace BatchNorm

variable {epsilon : Binary} {scale bias mean variance : Tensor}

end BatchNorm

end TensorGraph
