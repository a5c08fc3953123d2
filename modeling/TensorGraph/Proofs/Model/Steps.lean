import TensorGraph.Proofs.Model.Opening

namespace TensorGraph.Lowering
open Outcome TensorGraph.Graph Model

variable {r : Registry} {start l l' : Lowering} {rows all done block : List Row} {row : Row}
  {final : List (String × Outlet)} {s : Step} {index : Nat}

-- The rows of a step are appended once the name of its node is given away.
def lay (l : Lowering) (p : String × List Row) : Outcome Lowering :=
  p.2.foldlM append { l with used := p.1 :: l.used }

theorem addStep_lay : l.addStep r s index = .ok l' ↔ ∃ block, l.rows r s (l.nameFor s index) = .ok block ∧
    l.lay (l.nameFor s index,block) = .ok l' := addStep_ok

theorem Drafted.with_used (drafted : Drafted start final rows l) (used : List String) :
    Drafted start final rows { l with used := used } :=
  ⟨drafted.built,drafted.graph,drafted.values,drafted.waiting,drafted.distinct,drafted.resolved,drafted.constants⟩

theorem lay_drafted {p : String × List Row} (distinct : (final.map (·.1)).Nodup)
    (early : given start (rows ++ p.2) <:+ final) (drafted : Drafted start final rows l) (ran : l.lay p = .ok l') :
    Drafted start final (rows ++ p.2) l' := appends_drafted distinct early (drafted.with_used _) ran

theorem lays_drafted {ps : List (String × List Row)} (distinct : (final.map (·.1)).Nodup)
    (early : given start (rows ++ ps.flatMap (·.2)) <:+ final) (drafted : Drafted start final rows l)
    (ran : ps.foldlM lay l = .ok l') : Drafted start final (rows ++ ps.flatMap (·.2)) l' := by
  induction ps generalizing rows l with
  | nil =>
    cases ran
    rw [List.flatMap_nil,List.append_nil]
    exact drafted
  | cons p ps ih =>
    rw [List.foldlM_cons] at ran
    obtain ⟨middle,first,rest⟩ := bind_ok.mp ran
    rw [List.flatMap_cons,← List.append_assoc] at early ⊢
    exact ih early (lay_drafted distinct ((given_suffix _).trans early) drafted first) rest

theorem appended_used (u : String) : u ∈ (l.appended row).used ↔ u ∈ l.used ∨ row.link = true ∧ u = row.name := by
  unfold appended
  dsimp only
  split
  · rename_i link
    simp [link,or_comm]
  · rename_i link
    simp [link]

theorem appended_keys (x : String) :
    x ∈ (l.appended row).values.map (·.1) ↔ x ∈ l.values.map (·.1) ∨ x ∈ row.results.map (·.1) := by
  unfold appended Row.bindings
  simp [or_comm]

-- What rows leave behind besides the graph: links use up their names, which nothing had, and results are called values.
theorem appends_parts (ran : block.foldlM append l = .ok l') : l'.constants = l.constants ∧
    (∀ u, u ∈ l'.used ↔ u ∈ l.used ∨ ∃ row ∈ block, row.link = true ∧ u = row.name) ∧
      (∀ row ∈ block, row.link = true → row.name ∉ l.used ∧ row.name ∉ l.values.map (·.1)) ∧
      ∀ x, x ∈ l'.values.map (·.1) ↔ x ∈ l.values.map (·.1) ∨ ∃ row ∈ block, x ∈ row.results.map (·.1) := by
  induction block generalizing l with
  | nil =>
    cases ran
    simp
  | cons row block ih =>
    rw [List.foldlM_cons] at ran
    obtain ⟨middle,first,rest⟩ := bind_ok.mp ran
    obtain ⟨free,-,-,rfl⟩ := append_iff.mp first
    obtain ⟨same,used,later,keys⟩ := ih rest
    refine ⟨same,fun u => ?_,?_,fun x => ?_⟩
    · rw [used,appended_used,or_assoc,List.exists_mem_cons_iff]
    · refine List.forall_mem_cons.mpr ⟨fun link => ?_,fun row' inside link => ?_⟩
      · exact ⟨(free link).1,fun known => by simpa [hasValue,(free link).2] using hasValue_iff.mpr known⟩
      · obtain ⟨unused,unknown⟩ := later row' inside link
        exact ⟨fun taken => unused ((appended_used _).mpr (.inl taken)),
          fun known => unknown ((appended_keys _).mpr (.inl known))⟩
    · rw [keys,appended_keys,or_assoc,List.exists_mem_cons_iff]

theorem lay_used {p : String × List Row} (ran : l.lay p = .ok l') : l'.constants = l.constants ∧
    ∀ u ∈ l'.used, u ∈ l.used ∨ u = p.1 ∨ ∃ row ∈ p.2, row.link = true ∧ u = row.name := by
  obtain ⟨same,used,-⟩ := appends_parts ran
  refine ⟨same,fun u member => ?_⟩
  rcases (used u).mp member with before | link
  · exact (List.mem_cons.mp before).elim (fun here => .inr (.inl here)) .inl
  · exact .inr (.inr link)

theorem nameFor_free (named : s.name ≠ "") (free : s.name ∉ l.used) : l.nameFor s index = s.name := by
  unfold nameFor
  rw [if_neg named]
  exact if_neg (by simpa using free)

-- The steps of a run are laid out one after the other. What decides on the names of their nodes is
-- kept by each for those still to come.
theorem steps_laid {I : List (Step × Nat) → Lowering → Prop} {T : Step × Nat → String → Prop}
    (step : ∀ q rest l, I (q :: rest) l → T q (l.nameFor q.1 q.2) ∧ ∀ block l',
      start.rows r q.1 (l.nameFor q.1 q.2) = .ok block → l.lay (l.nameFor q.1 q.2,block) = .ok l' → I rest l')
    {steps : List (Step × Nat)} (holds : I steps l) (same : l.constants = start.constants)
    (ran : steps.foldlM (fun l q => l.addStep r q.1 q.2) l = .ok l') :
    ∃ ps, List.Forall₂ (fun q p => T q p.1 ∧ start.rows r q.1 p.1 = .ok p.2) steps ps ∧ ps.foldlM lay l = .ok l' := by
  induction steps generalizing l with
  | nil => exact ⟨[],.nil,ran⟩
  | cons q steps ih =>
    rw [List.foldlM_cons] at ran
    obtain ⟨middle,first,rest⟩ := bind_ok.mp ran
    obtain ⟨block,found,laid⟩ := addStep_lay.mp first
    rw [rows_constants same] at found
    obtain ⟨title,next⟩ := step q steps l holds
    obtain ⟨ps,each,ran⟩ := ih (next block middle found laid) ((lay_used laid).1.trans same) rest
    refine ⟨(l.nameFor q.1 q.2,block) :: ps,.cons ⟨title,found⟩ each,?_⟩
    rw [List.foldlM_cons,laid]
    exact ran

theorem given_keys (start : Lowering) (rows : List Row) : (given start rows).map (·.1) =
    (rows.flatMap fun row => row.results.map (·.1)).reverse ++ start.values.map (·.1) := by
  have keys (b : Nat) : (bound b rows).map (·.1) = rows.flatMap fun row => row.results.map (·.1) := by
    induction rows generalizing b with
    | nil => rfl
    | cons row rows ih =>
      have rest := ih (b + 1)
      unfold bound at rest ⊢
      rw [List.zipIdx_cons,List.flatMap_cons,List.map_append,rest,List.flatMap_cons]
      simp [Row.bindings,Function.comp_def]
  rw [given,List.map_append,List.map_reverse,keys]

theorem given_inside {names : List String} (opened : Opened names start) {x : String} {o : Outlet}
    (member : (x,o) ∈ given start rows) : o.node < start.graph.nodes.length + rows.length := by
  rcases List.mem_append.mp member with new | old
  · obtain ⟨p,place,slot,-,rfl⟩ := mem_bound.mp (List.mem_reverse.mp new)
    have inside := zipIdx_lt place
    change (p.2 : Int) < _
    unfold Graph.size at inside
    omega
  · rw [opened.values,List.mem_reverse] at old
    obtain ⟨p,place,equal⟩ := List.mem_map.mp old
    cases equal
    have inside := (List.getElem?_eq_some_iff.mp (List.mem_zipIdx_iff_getElem?.mp place)).1
    have count : start.graph.nodes.length = names.length := by rw [← opened.named,List.length_map]
    change (p.2 : Int) < _
    omega

-- Names of the nodes that rows lead to are free until their rows come.
theorem names_free {names : List String} (opened : Opened names start) (feasible : Feasible start all)
    (early : done ++ row :: rows <+: all) :
    row.name ∉ names ∧ row.name ∉ done.map (·.name) ∧ row.name ∉ rows.map (·.name) := by
  obtain ⟨more,rfl⟩ := early
  have distinct := feasible.named
  unfold Graph.Named at distinct
  rw [drawn_nodes,frame_names,opened.named] at distinct
  simp only [List.append_assoc,List.cons_append,List.map_append,List.map_cons] at distinct
  have parts := List.nodup_append.mp distinct
  have later := List.nodup_append.mp parts.2.1
  have here := (List.nodup_cons.mp later.2.1).1
  refine ⟨fun taken => ?_,fun taken => ?_,fun taken => here (List.mem_append_left _ taken)⟩
  · exact parts.2.2 _ taken _ (List.mem_append_right _ List.mem_cons_self) rfl
  · exact later.2.2 _ taken _ List.mem_cons_self rfl

theorem append_ready {names : List String} {title : String} (opened : Opened names start)
    (feasible : Feasible start all) (distinct : ((given start all).map (·.1)).Nodup)
    (early : done ++ row :: rows <+: all) (drafted : Drafted start (given start all) done l)
    (used : ∀ u ∈ l.used, u ∈ names ∨ u = title ∨ u ∈ done.map (·.name))
    (link : row.link = true → row.name ≠ title ∧ row.results = [(row.name,0)]) : ∃ l', l.append row = .ok l' := by
  obtain ⟨notNamed,notDone,-⟩ := names_free opened feasible early
  have here : done ++ [row] <+: all := by
    rw [List.append_cons] at early
    exact (List.prefix_append _ _).trans early
  refine append_total ?_ ?_ ?_
  · intro n member same
    rw [drafted.graph] at member
    have named : n.name ∈ names ++ done.map (·.name) := by
      rw [← opened.named,← frame_names]
      exact List.mem_map_of_mem member
    exact (List.mem_append.mp (same ▸ named)).elim notNamed notDone
  · intro linked
    obtain ⟨other,results⟩ := link linked
    refine ⟨fun taken => (used _ taken).elim notNamed fun rest => rest.elim other notDone,?_⟩
    have keys := distinct.sublist ((given_early here).sublist.map (·.1))
    rw [given_concat,List.map_append] at keys
    have own : row.name ∈ (row.bindings (start.graph.size + done.length)).reverse.map (·.1) := by
      simp [Row.bindings,results]
    rw [drafted.values]
    exact lookup_missing fun earlier => (List.nodup_append.mp keys).2.2 _ own _ earlier rfl
  · intro x source o found
    have before : done <+: all := (List.prefix_append _ _).trans here
    obtain ⟨o',final,has⟩ := feasible.resolved row (here.subset (by simp)) x source
    rw [drafted.values] at found
    cases (lookup_suffix distinct (given_early before) found).symm.trans final
    have keys := distinct.sublist ((given_early before).sublist.map (·.1))
    have graph := drafted.graph
    exact frame_outlet drawn_nodes (by rw [graph]) before has (given_inside opened ((lookup_mem keys).mp found))

theorem appends_ready {names : List String} {title : String} (opened : Opened names start)
    (feasible : Feasible start all) (distinct : ((given start all).map (·.1)).Nodup)
    (early : done ++ block <+: all) (drafted : Drafted start (given start all) done l)
    (used : ∀ u ∈ l.used, u ∈ names ∨ u = title ∨ u ∈ done.map (·.name))
    (links : ∀ row ∈ block, row.link = true → row.name ≠ title ∧ row.results = [(row.name,0)]) :
    ∃ l', block.foldlM append l = .ok l' := by
  induction block generalizing done l with
  | nil => exact ⟨l,rfl⟩
  | cons row block ih =>
    obtain ⟨link,later⟩ := List.forall_mem_cons.mp links
    obtain ⟨middle,first⟩ := append_ready opened feasible distinct early drafted used link
    rw [List.append_cons] at early
    have used' : ∀ u ∈ middle.used, u ∈ names ∨ u = title ∨ u ∈ (done ++ [row]).map (·.name) := by
      intro u member
      obtain ⟨-,-,-,rfl⟩ := append_iff.mp first
      rw [List.map_append,List.mem_append]
      rcases (appended_used u).mp member with old | ⟨-,rfl⟩
      · exact (used u old).imp_right (Or.imp_right .inl)
      · exact .inr (.inr (.inr List.mem_cons_self))
    have before := (List.prefix_append _ _).trans ((List.prefix_append _ _).trans early)
    have reached := append_drafted distinct (given_early before) drafted first
    obtain ⟨l',rest⟩ := ih early reached used' later
    exact ⟨l',by rw [List.foldlM_cons,first]; exact rest⟩

-- Steps whose rows have what they need are laid out, each under its own name.
theorem steps_total {names : List String} (opened : Opened names start) (feasible : Feasible start all)
    (distinct : ((given start all).map (·.1)).Nodup) {steps : List (Step × Nat)} {blocks : List (List Row)}
    (found : List.Forall₂ (fun q block => start.rows r q.1 q.1.name = .ok block) steps blocks)
    (named : ∀ q ∈ steps, q.1.name ≠ "") (whole : done ++ blocks.flatten <+: all)
    (drafted : Drafted start (given start all) done l) (used : ∀ u ∈ l.used, u ∈ names ∨ u ∈ done.map (·.name)) :
    ∃ l', steps.foldlM (fun l q => l.addStep r q.1 q.2) l = .ok l' ∧
      Drafted start (given start all) (done ++ blocks.flatten) l' := by
  induction found generalizing done l with
  | nil =>
    rw [List.flatten_nil,List.append_nil]
    exact ⟨l,rfl,drafted⟩
  | @cons q block steps blocks found rest ih =>
    obtain ⟨nonempty,later⟩ := List.forall_mem_cons.mp named
    rw [List.flatten_cons,← List.append_assoc] at whole ⊢
    obtain ⟨links,main,equal,shape⟩ := rows_parts found
    have here : done ++ block <+: all := (List.prefix_append _ _).trans whole
    have last : (done ++ links) ++ main :: [] <+: all := by rw [List.append_assoc,← equal]; exact here
    obtain ⟨notNamed,notDone,-⟩ := names_free opened feasible last
    rw [shape.named] at notNamed notDone
    rw [List.map_append,List.mem_append,not_or] at notDone
    have title : l.nameFor q.1 q.2 = q.1.name :=
      nameFor_free nonempty fun taken => (used _ taken).elim notNamed notDone.1
    have ready : ∀ row ∈ block, row.link = true → row.name ≠ q.1.name ∧ row.results = [(row.name,0)] := by
      rw [equal]
      refine List.forall_mem_append.mpr ⟨fun row member _ => ?_,?_⟩
      · exact ⟨fun same => notDone.2 (same ▸ List.mem_map_of_mem member),(shape.links row member).2.results⟩
      · exact List.forall_mem_singleton.mpr fun link => absurd (shape.last ▸ link) Bool.false_ne_true
    obtain ⟨middle,laid⟩ : ∃ middle, l.lay (q.1.name,block) = .ok middle := by
      refine appends_ready opened feasible distinct here (drafted.with_used _) (fun u member => ?_) ready
      rcases List.mem_cons.mp member with same | old
      · exact .inr (.inl same)
      · exact (used u old).imp_right .inr
    have used' : ∀ u ∈ middle.used, u ∈ names ∨ u ∈ (done ++ block).map (·.name) := by
      intro u member
      rw [List.map_append,List.mem_append,equal]
      rcases (lay_used laid).2 u member with old | own | ⟨row,inside,-,rfl⟩
      · exact (used u old).imp_right .inl
      · exact .inr (.inr (by simp [own,shape.named]))
      · exact .inr (.inr (List.mem_map_of_mem (equal ▸ inside)))
    have reached := lay_drafted distinct (given_early here) drafted laid
    obtain ⟨l',ran,drafted'⟩ := ih later whole reached used'
    refine ⟨l',?_,drafted'⟩
    rw [List.foldlM_cons,addStep_lay.mpr ⟨block,?_,title ▸ laid⟩]
    · exact ran
    · rw [rows_constants drafted.constants,title]
      exact found

end TensorGraph.Lowering
