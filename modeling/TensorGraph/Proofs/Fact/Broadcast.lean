import TensorGraph.Proofs.Fact.Told

namespace TensorGraph
open Outcome

-- What several shapes come to, one after the other, is what all of them stretch to and nothing more.
theorem Shape.broadcastAll?_iff {ss : List Shape} {r : Shape} : broadcastAll? ss = some r ↔ Stretched ss r := by
  refine ⟨stretched_all,fun stretched => ?_⟩
  obtain ⟨r',met⟩ := broadcastAll?_total fun i => ⟨r.extent i,fun s member => stretched.stretch s member i⟩
  have again := stretched_all met
  rw [met,eq_of_extents (again.foldl_max.symm.trans stretched.foldl_max) fun i => ?_]
  rcases stretched.met i with one | ⟨s,member,equal⟩
  · rcases again.met i with one' | ⟨s,member,equal⟩
    · rw [one,one']
    · have other := stretched.stretch s member i
      omega
  · have other := again.stretch s member i
    rcases again.met i with one' | ⟨s',member',equal'⟩
    · omega
    · have other' := stretched.stretch s' member' i
      omega

namespace ShapeFact

variable {s : ShapeFact} {ss : List ShapeFact} {shape : Shape} {shapes : List Shape}

theorem broadcast_raises (ss : List ShapeFact) : Raises (· = .shapeMismatch) (broadcast ss) := by
  unfold broadcast
  dsimp only
  split
  · exact raises_ok _
  · exact (raises_fail _).mpr rfl

-- What a shape that tensors stretch to leaves room for: the extents that stretch may have been open.
def room (r : Shape) : ShapeFact := r.map fun n => if n = 1 then .unknown else .known n

theorem yields_room {r : Shape} (fits : s.Fits shape) (short : shape.length ≤ r.length)
    (stretch : ∀ i, shape.extent i = 1 ∨ shape.extent i = r.extent i) : s.YieldsTo (room r) := by
  have length : (room r).length = r.length := List.length_map _
  refine ⟨by rwa [length,fits.length_eq],fun i => ?_⟩
  by_cases within : i < r.length
  · have entry := Shape.extent_within within
    have there := axis_within (s := room r) (i := i) (by rwa [length])
    have roomy : (room r)[r.length - 1 - i]? = some (if r.extent i = 1 then .unknown else .known (r.extent i)) := by
      rw [room,List.getElem?_map,entry]
      rfl
    rw [length,roomy] at there
    rw [← Option.some.inj there]
    exact Dim.yields_room (fits.axis i) (stretch i)
  · rw [axis_beyond (by rw [fits.length_eq]; omega)]
    exact Dim.one_yields _

-- Tensors that stretch to one shape never give a false alarm.
theorem broadcast_total {r : Shape} (fits : List.Forall₂ Fits ss shapes) (stretched : Shape.Stretched shapes r) :
    ∃ dims, broadcast ss = .ok dims ∧ dims.Fits r := by
  have above : ∀ s ∈ ss, s.YieldsTo (room r) := by
    intro s member
    obtain ⟨shape,other,fit⟩ := forall₂_left fits s member
    exact yields_room fit (stretched.short shape other) (stretched.stretch shape other)
  obtain ⟨dims,found,-⟩ := broadcast_joins.least ss _ above
  exact ⟨dims,found,broadcast_fits fits stretched found⟩

theorem broadcast_known (shapes : List Shape) (r : Shape) :
    broadcast (shapes.map ofShape) = .ok (.ofShape r) ↔ Shape.broadcastAll? shapes = some r := by
  refine ⟨fun found => ?_,fun met => broadcast_exact (Shape.broadcastAll?_iff.mp met)⟩
  obtain ⟨_,met,equal⟩ := broadcast_stretches shapes found
  rw [met,Fact.ofShape_inj equal]

theorem broadcast_refuses (shapes : List Shape) :
    (∃ f, broadcast (shapes.map ofShape) = .error f ∧ f.kind = .shapeMismatch) ↔
      Shape.broadcastAll? shapes = none := by
  constructor
  · rintro ⟨f,failed,-⟩
    refine Option.eq_none_iff_forall_ne_some.mpr fun r met => ?_
    rw [(broadcast_known shapes r).mpr met] at failed
    cases failed
  · intro apart
    cases result : broadcast (shapes.map ofShape) with
    | error f => exact ⟨f,rfl,broadcast_raises _ f result⟩
    | ok dims =>
      obtain ⟨r,met,-⟩ := broadcast_stretches shapes result
      rw [apart] at met
      cases met

-- Both find the same shape, or both refuse for a mismatch of shapes.
def Agree (x y : Outcome ShapeFact) : Prop :=
  (∀ r, x = .ok r ↔ y = .ok r) ∧ Raises (· = .shapeMismatch) x ∧ Raises (· = .shapeMismatch) y

-- Symbolic broadcasting depends neither on order nor on grouping. Where the tensors stretch, it finds a shape
-- that allows for theirs, and from known extents it finds theirs, or fails exactly where they do not stretch.
theorem broadcast_symbolic :
    (∀ ss ts : List ShapeFact, ss.Perm ts → Agree (broadcast ss) (broadcast ts)) ∧
    (∀ ss part rest : List ShapeFact, ss.Perm (part ++ rest) →
      Agree (broadcast part >>= fun s => broadcast (s :: rest)) (broadcast ss)) ∧
    ∀ (ss : List ShapeFact) (shapes : List Shape),
      List.Forall₂ (fun s shape => s.accepts shape = true) ss shapes →
      (∀ r, Shape.broadcastAll? shapes = some r →
        ∃ dims, broadcast ss = .ok dims ∧ dims.length = r.length ∧ dims.accepts r = true) ∧
      ((∀ s ∈ ss, ∀ d ∈ s, d.isKnown = true) →
        (∀ r, broadcast ss = .ok (.ofShape r) ↔ Shape.broadcastAll? shapes = some r) ∧
        ((∃ f, broadcast ss = .error f ∧ f.kind = .shapeMismatch) ↔ Shape.broadcastAll? shapes = none)) := by
  refine ⟨fun ss ts perm => ?_,fun ss part rest perm => ?_,fun ss shapes accept => ⟨fun r met => ?_,fun known => ?_⟩⟩
  · exact ⟨fun r => broadcast_joins.ok_perm perm,broadcast_raises ss,broadcast_raises ts⟩
  · refine ⟨fun r => ?_,(broadcast_raises part).bind fun s _ => broadcast_raises (s :: rest),broadcast_raises ss⟩
    exact broadcast_joins.ok_group.trans (broadcast_joins.ok_perm perm.symm)
  · have fits := accept.imp fun _ _ => accepts_forall₂.mp
    obtain ⟨dims,found,holds⟩ := broadcast_total fits (Shape.broadcastAll?_iff.mp met)
    exact ⟨dims,found,holds.length_eq,accepts_forall₂.mpr holds⟩
  · obtain rfl : ss = shapes.map ofShape := by
      rw [← List.forall₂_eq_eq_eq,List.forall₂_map_right_iff]
      exact (forall₂_mem accept).imp fun s shape ⟨member,fit⟩ =>
        known_eq (accepts_forall₂.mp fit) (known s member)
    exact ⟨broadcast_known shapes,broadcast_refuses shapes⟩

-- A stream beside a number, each stretched along the other's axis.
theorem broadcast_symbolic_stream : Shape.broadcastAll? [[2,1],[3]] = some [2,3] ∧
    ∃ dims, broadcast [[.streaming,.one],[.known 3]] = .ok dims ∧ dims.length = 2 ∧ dims.accepts [2,3] = true := by
  have met : Shape.broadcastAll? [[2,1],[3]] = some [2,3] := rfl
  exact ⟨met,(broadcast_symbolic.2.2 [[.streaming,.one],[.known 3]] [[2,1],[3]] (.cons rfl (.cons rfl .nil))).1 _ met⟩

end ShapeFact

end TensorGraph
