import Mathlib.Data.List.Nodup
import TensorGraph.Proofs.Outcome
import TensorGraph.Graph.Table

namespace TensorGraph.Table

variable {t : Table α} {o : Outlet} {a : α}

theorem mem_keys : o ∈ t.keys ↔ ∃ a, t.get? o = some a := by
  rw [←Option.ne_none_iff_exists',ne_eq,get?_eq_none_iff]
  simp [contains]

theorem keys_set : (t.set o a).keys = if t.contains o then t.keys else t.keys ++ [o] := by
  unfold set
  split <;> simp [keys]

theorem keys_set_found (found : (t.get? o).isSome = true) : (t.set o a).keys = t.keys := by
  have known := mem_keys.mpr (Option.isSome_iff_exists.mp found)
  rw [keys_set,if_pos (by simpa [contains] using known)]

theorem nodup_set (distinct : t.keys.Nodup) : (t.set o a).keys.Nodup := by
  rw [keys_set]
  split
  · exact distinct
  · rename_i missing
    have fresh : o ∉ t.keys := by simpa [contains] using missing
    exact List.Nodup.append distinct (List.nodup_singleton o) (by simpa using fresh)

theorem nodup_erase (distinct : t.keys.Nodup) : (t.erase o).keys.Nodup :=
  distinct.sublist (List.filter_sublist.map _)

end TensorGraph.Table
