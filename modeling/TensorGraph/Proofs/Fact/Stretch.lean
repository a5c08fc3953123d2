import TensorGraph.Proofs.Fact.Monotone
import TensorGraph.Proofs.Shape.Stretch

namespace TensorGraph
open Outcome

-- A way to combine any number of pieces that finds the least one above all of them, and fails only where
-- there is none.
structure JoinsAll {α : Type} (le : α → α → Prop) (join : List α → Outcome α) : Prop where
  trans : ∀ a b c, le a b → le b c → le a c
  antisymm : ∀ a b, le a b → le b a → a = b
  bounds : ∀ xs c, join xs = .ok c → ∀ x ∈ xs, le x c
  least : ∀ xs u, (∀ x ∈ xs, le x u) → ∃ c, join xs = .ok c ∧ le c u

namespace JoinsAll

variable {α : Type} {le : α → α → Prop} {join : List α → Outcome α} {xs ys part rest : List α} {c : α}

theorem ok_iff (joins : JoinsAll le join) :
    join xs = .ok c ↔ (∀ x ∈ xs, le x c) ∧ ∀ u, (∀ x ∈ xs, le x u) → le c u := by
  constructor
  · intro joined
    refine ⟨joins.bounds xs c joined,fun u above => ?_⟩
    obtain ⟨_,again,low⟩ := joins.least xs u above
    cases joined.symm.trans again
    exact low
  · rintro ⟨above,least⟩
    obtain ⟨d,joined,low⟩ := joins.least xs c above
    rw [joined,joins.antisymm d c low (least d (joins.bounds xs d joined))]

-- Only what is above the pieces matters.
theorem ok_congr (joins : JoinsAll le join) (same : ∀ u, (∀ x ∈ xs, le x u) ↔ ∀ y ∈ ys, le y u) :
    join xs = .ok c ↔ join ys = .ok c := by
  rw [joins.ok_iff,joins.ok_iff,same c]
  exact and_congr_right fun _ => forall_congr' fun u => imp_congr_left (same u)

theorem ok_perm (joins : JoinsAll le join) (perm : xs.Perm ys) : join xs = .ok c ↔ join ys = .ok c :=
  joins.ok_congr fun _ => forall_congr' fun _ => imp_congr_left perm.mem_iff

-- Some of the pieces may be combined first.
theorem ok_group (joins : JoinsAll le join) :
    (join part >>= fun a => join (a :: rest)) = .ok c ↔ join (part ++ rest) = .ok c := by
  have regroup {a : α} (first : join part = .ok a) : join (a :: rest) = .ok c ↔ join (part ++ rest) = .ok c := by
    obtain ⟨above,least⟩ := joins.ok_iff.mp first
    refine joins.ok_congr fun u => ?_
    rw [List.forall_mem_cons,List.forall_mem_append]
    exact and_congr_left fun _ => ⟨fun low x member => joins.trans x a u (above x member) low,least u⟩
  rw [bind_ok]
  constructor
  · rintro ⟨a,first,second⟩
    exact (regroup first).mp second
  · intro joined
    have above := joins.bounds _ _ joined
    obtain ⟨a,first,-⟩ := joins.least part c fun x member => above x (List.mem_append_left rest member)
    exact ⟨a,first,(regroup first).mpr joined⟩

end JoinsAll

namespace Dim

variable {d e : Dim} {ds : List Dim} {n m : Nat}

-- What an extent gives way to beside it: 1 to everything, a stream to all but 1, an open extent to numbers
-- other than 1, and these only to themselves.
def YieldsTo : Dim → Dim → Prop
  | known n, e => n = 1 ∨ e = known n
  | streaming, e => e ≠ one
  | unknown, e => e ≠ one ∧ e ≠ streaming

theorem one_yields (e : Dim) : one.YieldsTo e := .inl rfl

theorem known_yields (other : n ≠ 1) : (known n).YieldsTo e ↔ e = known n := or_iff_right other

theorem number_ne_one (other : n ≠ 1) : known n ≠ one := fun equal => other (known.inj equal)

theorem yieldsTo_refl (d : Dim) : d.YieldsTo d := by
  cases d with
  | known n => exact .inr rfl
  | streaming => exact nofun
  | unknown => exact ⟨nofun,nofun⟩

theorem yieldsTo_one (yields : d.YieldsTo one) : d = one := by
  cases d with
  | known n =>
    rcases yields with rfl | equal
    · rfl
    · exact equal.symm
  | streaming => exact absurd rfl yields
  | unknown => exact absurd rfl yields.1

theorem YieldsTo.trans {f : Dim} (first : d.YieldsTo e) (second : e.YieldsTo f) : d.YieldsTo f := by
  cases d with
  | known n =>
    rcases first with one | rfl
    · exact .inl one
    · exact second
  | streaming =>
    rintro rfl
    exact first (yieldsTo_one second)
  | unknown =>
    refine ⟨?_,?_⟩
    · rintro rfl
      exact first.1 (yieldsTo_one second)
    · rintro rfl
      cases e with
      | known n =>
        rcases second with rfl | equal
        · exact first.1 rfl
        · cases equal
      | streaming => exact first.2 rfl
      | unknown => exact second.2 rfl

theorem YieldsTo.antisymm (there : d.YieldsTo e) (back : e.YieldsTo d) : d = e := by
  cases d with
  | known n =>
    rcases there with rfl | equal
    · exact (yieldsTo_one back).symm
    · exact equal.symm
  | streaming =>
    cases e with
    | known n =>
      rcases back with rfl | equal
      · exact absurd rfl there
      · cases equal
    | streaming => rfl
    | unknown => exact absurd rfl back.2
  | unknown =>
    cases e with
    | known n =>
      rcases back with rfl | equal
      · exact absurd rfl there.1
      · cases equal
    | streaming => exact absurd rfl there.2
    | unknown => rfl

-- Without open extents and numbers other than 1, only streams and ones are left.
theorem broadcast_streams (stretch : ∀ n, known n ∈ ds → n = 1) (closed : unknown ∉ ds) :
    broadcast ds = .ok (if streaming ∈ ds then streaming else one) := by
  have shut : (ds.filter (· != one)).any isUnknown = false := by
    refine List.any_eq_false.mpr fun d member => ?_
    cases d with
    | unknown => exact absurd (List.mem_of_mem_filter member) closed
    | known | streaming => exact nofun
  unfold broadcast
  dsimp only
  rw [no_extents stretch,shut]
  simp only [ascending,List.mergeSort_nil,List.eraseDups_nil,Bool.false_eq_true,if_false]
  by_cases stream : streaming ∈ ds
  · have left : streaming ∈ ds.filter (· != one) := List.mem_filter.mpr ⟨stream,rfl⟩
    rw [if_pos stream,if_neg (by simpa using List.ne_nil_of_mem left)]
  · have ones : ds.filter (· != one) = [] := by
      refine List.filter_eq_nil_iff.mpr fun d member => ?_
      cases d with
      | known n => simp [stretch n member,one]
      | streaming => exact absurd member stream
      | unknown => exact absurd member closed
    rw [if_neg stream,ones]
    rfl

-- Beside extents there is a number other than 1, or there is none and an extent is open, or neither.
theorem number_or_none (ds : List Dim) : (∃ n, known n ∈ ds ∧ n ≠ 1) ∨
    (∀ n, known n ∈ ds → n = 1) ∧ (unknown ∈ ds ∨ unknown ∉ ds) := by
  by_cases extent : ∃ n, known n ∈ ds ∧ n ≠ 1
  · exact .inl extent
  · simp only [not_exists,not_and,Decidable.not_not] at extent
    exact .inr ⟨extent,Decidable.em _⟩

-- What several extents stretch to is the least that all of them give way to.
theorem broadcast_joins : JoinsAll YieldsTo broadcast where
  trans _ _ _ := YieldsTo.trans
  antisymm _ _ := YieldsTo.antisymm
  bounds ds r found := by
    rcases number_or_none ds with ⟨n,member,other⟩ | ⟨stretch,open_ | closed⟩
    · obtain ⟨rfl,agree⟩ := (broadcast_known member other).mp found
      intro d entry
      cases d with
      | known m => exact (agree m entry).imp_right (congrArg known ·.symm)
      | streaming => exact number_ne_one other
      | unknown => exact ⟨number_ne_one other,nofun⟩
    · cases (broadcast_open stretch open_).symm.trans found
      intro d entry
      cases d with
      | known m => exact .inl (stretch m entry)
      | streaming => exact nofun
      | unknown => exact yieldsTo_refl _
    · cases (broadcast_streams stretch closed).symm.trans found
      intro d entry
      cases d with
      | known m => exact .inl (stretch m entry)
      | streaming =>
        rw [if_pos entry]
        exact yieldsTo_refl _
      | unknown => exact absurd entry closed
  least ds u above := by
    rcases number_or_none ds with ⟨n,member,other⟩ | ⟨stretch,open_ | closed⟩
    · obtain rfl := (known_yields other).mp (above _ member)
      refine ⟨_,(broadcast_known member other).mpr ⟨rfl,fun m entry => ?_⟩,yieldsTo_refl _⟩
      exact (above _ entry).imp_right fun equal => (known.inj equal).symm
    · exact ⟨_,broadcast_open stretch open_,above _ open_⟩
    · refine ⟨_,broadcast_streams stretch closed,?_⟩
      split
      · rename_i stream
        exact above _ stream
      · exact one_yields u

theorem broadcast_ones (ones : ∀ d ∈ ds, d = one) : broadcast ds = .ok one :=
  broadcast_joins.ok_iff.mpr ⟨fun d member => ones d member ▸ yieldsTo_refl _,fun u _ => one_yields u⟩

end Dim

namespace ShapeFact

variable {s t u r : ShapeFact} {ss : List ShapeFact}

-- Extent of an axis counted from the last one. In front of a shape there are ones.
def axis (s : ShapeFact) (i : Nat) : Dim := s.reverse.getD i .one

theorem axis_beyond {i : Nat} (beyond : s.length ≤ i) : s.axis i = .one := by
  rw [axis,List.getD_eq_getElem?_getD,List.getElem?_eq_none (by simpa using beyond)]
  rfl

theorem axis_reverse {i : Nat} (ds : List Dim) (inside : i < ds.length) : axis ds.reverse i = ds[i] := by
  rw [axis,List.reverse_reverse,← List.getElem_eq_getD]

theorem eq_of_axes (length : s.length = t.length) (each : ∀ i, s.axis i = t.axis i) : s = t := by
  refine List.reverse_injective (List.ext_getElem (by simpa using length) fun i left right => ?_)
  rw [List.getElem_eq_getD Dim.one,List.getElem_eq_getD Dim.one]
  exact each i

-- Shapes stretch as their extents do, aligned at the last axes.
def YieldsTo (s t : ShapeFact) : Prop := s.length ≤ t.length ∧ ∀ i, (s.axis i).YieldsTo (t.axis i)

theorem axis_within {i : Nat} (within : i < s.length) : s[s.length - 1 - i]? = some (s.axis i) :=
  getElem?_fromLast within

theorem getD_leading {rank i : Nat} (short : s.length ≤ rank) (within : i < rank) :
    (leading rank s).getD i .one = s.axis (rank - 1 - i) := by
  rw [List.getD_eq_getElem?_getD,leading]
  by_cases front : i < rank - s.length
  · rw [List.getElem?_append_left (by simpa using front),List.getElem?_replicate_of_lt front,axis_beyond (by omega)]
    rfl
  · have entry := axis_within (s := s) (i := rank - 1 - i) (by omega)
    rw [show s.length - 1 - (rank - 1 - i) = i - (rank - s.length) by omega] at entry
    rw [List.getElem?_append_right (by simpa using front),List.length_replicate,entry]
    rfl

-- Broadcasting goes axis by axis.
theorem broadcast_axes : broadcast ss = .ok r ↔ r.length = (ss.map List.length).foldl max 0 ∧
    ∀ i, Dim.broadcast (ss.map fun s => s.axis i) = .ok (r.axis i) := by
  have short := (Shape.foldl_max_le_iff.mp (Nat.le_refl ((ss.map List.length).foldl max 0))).2
  rw [broadcast_ok,mapM_ok]
  generalize (ss.map List.length).foldl max 0 = rank at short
  have column {i : Nat} (within : i < rank) : ((ss.map (leading rank)).map fun s => s.getD (rank - 1 - i) .one) =
      ss.map fun s => s.axis i := by
    rw [List.map_map]
    refine List.map_congr_left fun s member => ?_
    rw [Function.comp_apply,getD_leading (short _ (List.mem_map_of_mem member)) (by omega),
      show rank - 1 - (rank - 1 - i) = i by omega]
  constructor
  · intro related
    have length := related.length_eq.symm
    rw [List.length_range] at length
    refine ⟨length,fun i => ?_⟩
    by_cases within : i < rank
    · obtain ⟨j,place,met⟩ := forall₂_getElem? related (axis_within (length ▸ within))
      rw [length,List.getElem?_range (by omega)] at place
      cases place
      rwa [column within] at met
    · rw [axis_beyond (s := r) (by omega)]
      refine Dim.broadcast_ones (List.forall_mem_map.mpr fun s member => axis_beyond ?_)
      exact Nat.le_trans (short _ (List.mem_map_of_mem member)) (Nat.le_of_not_lt within)
  · rintro ⟨rfl,each⟩
    refine List.forall₂_iff_get.mpr ⟨List.length_range,fun i left right => ?_⟩
    have within : i < r.length := right
    have entry := axis_within (s := r) (i := r.length - 1 - i) (by omega)
    have met := each (r.length - 1 - i)
    rw [← column (by omega)] at met
    rw [show r.length - 1 - (r.length - 1 - i) = i by omega] at entry met
    rw [List.get_eq_getElem,List.get_eq_getElem,List.getElem_range,met,(List.getElem?_eq_some_iff.mp entry).2]

theorem broadcast_joins : JoinsAll YieldsTo broadcast where
  trans _ _ _ first second :=
    ⟨Nat.le_trans first.1 second.1,fun i => (first.2 i).trans (second.2 i)⟩
  antisymm _ _ there back :=
    eq_of_axes (Nat.le_antisymm there.1 back.1) fun i => (there.2 i).antisymm (back.2 i)
  bounds ss r found := by
    obtain ⟨length,each⟩ := broadcast_axes.mp found
    intro s member
    refine ⟨?_,fun i => Dim.broadcast_joins.bounds _ _ (each i) _ (List.mem_map_of_mem member)⟩
    rw [length]
    exact (Shape.foldl_max_le_iff.mp (Nat.le_refl _)).2 _ (List.mem_map_of_mem member)
  least ss u above := by
    have column (i : Nat) : ∃ d, Dim.broadcast (ss.map fun s => s.axis i) = .ok d ∧ d.YieldsTo (u.axis i) :=
      Dim.broadcast_joins.least _ _ (List.forall_mem_map.mpr fun s member => (above s member).2 i)
    choose d met low using column
    have ranks := Shape.foldl_max_le_iff.mp (Nat.le_refl ((ss.map List.length).foldl max 0))
    have axes (i : Nat) : axis ((List.range ((ss.map List.length).foldl max 0)).map d).reverse i = d i := by
      by_cases within : i < (ss.map List.length).foldl max 0
      · rw [axis_reverse _ (by simpa using within),List.getElem_map,List.getElem_range]
      · have ones := Dim.broadcast_ones (List.forall_mem_map.mpr fun s member =>
          axis_beyond (Nat.le_trans (ranks.2 _ (List.mem_map_of_mem member)) (Nat.le_of_not_lt within)))
        rw [axis_beyond (by simpa using within),Except.ok.inj (ones.symm.trans (met i))]
    refine ⟨_,broadcast_axes.mpr ⟨by simp,fun i => (axes i).symm ▸ met i⟩,?_,fun i => (axes i).symm ▸ low i⟩
    simp only [List.length_reverse,List.length_map,List.length_range]
    exact Shape.foldl_max_le_iff.mpr ⟨Nat.zero_le _,List.forall_mem_map.mpr fun s member => (above s member).1⟩

end ShapeFact

end TensorGraph
