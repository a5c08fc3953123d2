import TensorGraph.Proofs.Model.Faults

namespace TensorGraph
open Outcome

namespace Graph

-- Where an input of a node comes from.
def source? (g : Graph) (i : Inlet) : Option Outlet := (g.get? i.node).bind fun n => n.inputs[i.position.toNat]?

end Graph

namespace Model
open Lowering TensorGraph.Graph

-- The node of a step, counted from its first, and the input of it that take an input of the step: of
-- several nodes the first takes two inputs, and every other takes one after the node before it.
def Step.seat (s : Step) (j : Nat) : Nat × Nat := if isChained s.op = true ∧ 0 < j then (j - 1,1) else (0,j)

def Step.inlet (s : Step) (b j : Nat) : Inlet := ⟨Int.ofNat (b + (s.seat j).1),Int.ofNat (s.seat j).2⟩

-- What steps take, by name, and the inlets that take it. Nodes of the steps are numbered from `b`.
def uses : Nat → List Step → List (String × Inlet)
  | _, [] => []
  | b, s :: steps => s.taken.zipIdx.map (fun p => (p.1,s.inlet b p.2)) ++ uses (b + s.width) steps

-- What steps call their outputs. The last node of a step has them.
def produced : Nat → List Step → List (String × Outlet)
  | _, [] => []
  | b, s :: steps => (s.outputs.zipIdx.filter fun p => p.1 ≠ "").map
      (fun p => (p.1,⟨Int.ofNat (b + (s.width - 1)),Int.ofNat p.2⟩)) ++ produced (b + s.width) steps

-- Outlets by the names that the model declares for them.
def declared (m : Model) : List (String × Outlet) :=
  m.entries.zipIdx.map (fun p => (p.1,⟨Int.ofNat p.2,0⟩)) ++ produced m.entries.length m.steps

def usedNames (m : Model) : List String := m.steps.flatMap Step.taken ++ m.outputs.map (·.name)

-- Names that the last node of a step may get.
def Step.titles (s : Step) (index : Nat) : List String :=
  let name := if s.name = "" then s!"{s.op}_{index}" else s.name
  [name,s!"{name}_{index}"]

-- Names of the nodes of a step.
def Step.names (s : Step) (title : String) : List String :=
  (List.range (s.width - 1)).map (fun k => linkName title (k + 1)) ++ [title]

theorem produced_names (b : Nat) (steps : List Step) : (produced b steps).map (·.1) = outputNames steps := by
  induction steps generalizing b with
  | nil => rfl
  | cons s steps ih =>
    rw [produced,List.map_append,List.map_map,ih]
    exact congrArg (· ++ outputNames steps) (filter_named s.outputs)

theorem declared_names (m : Model) : m.declared.map (·.1) = m.valueNames := by
  rw [declared,List.map_append,produced_names,List.map_map,valueNames]
  exact congrArg (· ++ outputNames m.steps) (List.zipIdx_map_fst 0 m.entries)

end Model

namespace Lowering
open TensorGraph.Graph Model

variable {r : Registry} {start l : Lowering} {rows : List Row} {row : Row} {s : Step} {operator : Operator} {x : String}
  {o : Outlet} {j b : Nat} {qs : List (Step × Nat)} {ps : List (String × List Row)}

theorem nameFor_titles (l : Lowering) (s : Step) (index : Nat) : l.nameFor s index ∈ s.titles index := by
  unfold nameFor Step.titles
  dsimp only
  split <;> split <;> simp

theorem folded_head (operator : Operator) (name : String) (outputs : List (String × Nat)) (k : Nat) (a : String)
    (names : List String) : ∃ row, (folded operator name outputs k a names)[0]? = some row ∧ row.sources[0]? = some a := by
  cases names with
  | nil => exact ⟨⟨name,operator,[a],outputs,false⟩,rfl,rfl⟩
  | cons b names =>
    cases names with
    | nil => exact ⟨⟨name,operator,[a,b],outputs,false⟩,rfl,rfl⟩
    | cons c names => exact ⟨⟨linkName name k,operator,[a,b],[(linkName name k,0)],true⟩,rfl,rfl⟩

-- Every further input comes second at a node of its own.
theorem folded_source {name : String} {outputs : List (String × Nat)} {names : List String} (k : Nat) (a : String)
    (at_ : names[j]? = some x) :
    ∃ row, (folded operator name outputs k a names)[j]? = some row ∧ row.sources[1]? = some x := by
  induction names generalizing k a j with
  | nil => simp at at_
  | cons b names ih =>
    cases names with
    | nil =>
      cases j with
      | zero => exact ⟨⟨name,operator,[a,b],outputs,false⟩,rfl,at_⟩
      | succ j => simp at at_
    | cons c names =>
      cases j with
      | zero => exact ⟨⟨linkName name k,operator,[a,b],[(linkName name k,0)],true⟩,rfl,at_⟩
      | succ j => exact ih (k + 1) (linkName name k) at_

theorem folded_names {name : String} {outputs : List (String × Nat)} (k : Nat) (a : String) (names : List String) :
    (folded operator name outputs k a names).map (·.name) =
      (List.range (names.length - 1)).map (fun i => linkName name (k + i)) ++ [name] := by
  induction names generalizing k a with
  | nil => rfl
  | cons b names ih =>
    cases names with
    | nil => rfl
    | cons c names =>
      rw [folded,List.map_cons,ih]
      simp only [List.length_cons,Nat.add_sub_cancel]
      rw [List.range_succ_eq_map,List.map_cons,List.map_map]
      refine congrArg₂ List.cons rfl (congrArg (· ++ [name]) (List.map_congr_left fun i _ => ?_))
      exact congrArg (linkName name) (by omega)

theorem rows_seat {title : String} {block' : List Row} (found : l.rows r s title = .ok block')
    (at_ : s.taken[j]? = some x) :
    ∃ row, block'[(s.seat j).1]? = some row ∧ row.sources[(s.seat j).2]? = some x := by
  obtain ⟨operator,rfl⟩ := rows_block found
  unfold block Step.seat
  split
  · rename_i _ a rest chained taken
    rw [taken] at at_
    cases j with
    | zero =>
      cases at_
      rw [if_neg (by simp)]
      exact folded_head operator title _ 1 _ rest
    | succ j =>
      rw [if_pos ⟨chained,Nat.succ_pos j⟩]
      exact folded_source 1 a at_
  · rename_i other
    have open_ : ¬ (isChained s.op = true ∧ 0 < j) := by
      rintro ⟨chained,-⟩
      cases taken : s.taken with
      | nil =>
        rw [taken] at at_
        cases at_
      | cons a rest => exact (other a rest chained taken).elim
    rw [if_neg open_]
    exact ⟨⟨title,operator,s.taken,results operator s.outputs,false⟩,rfl,at_⟩

theorem rows_names {title : String} {block' : List Row} (found : l.rows r s title = .ok block') :
    block'.map (·.name) = s.names title := by
  obtain ⟨operator,rfl⟩ := rows_block found
  unfold block Step.names
  split
  · rename_i _ a rest chained taken
    rw [folded_names,width_chained chained taken,Nat.add_sub_cancel_left]
    simp only [Nat.add_comm]
  · rename_i other
    rw [width_single other]
    rfl

theorem rows_width {title : String} {block' : List Row} (found : l.rows r s title = .ok block') :
    block'.length = s.width := by
  obtain ⟨links,main,rfl,shape⟩ := rows_parts found
  rw [List.length_append]
  exact shape.width

-- The inlet of a used name belongs to a row that takes the name there.
theorem uses_rows (found : List.Forall₂ (fun q p => start.rows r q.1 p.1 = .ok p.2) qs ps) {i : Inlet}
    (used : (x,i) ∈ uses b (qs.map (·.1))) : ∃ row, ∃ k j : Nat, (row,k) ∈ (ps.flatMap (·.2)).zipIdx b ∧
      row.sources[j]? = some x ∧ i = ⟨Int.ofNat k,Int.ofNat j⟩ := by
  induction found generalizing b with
  | nil => cases used
  | @cons q p qs ps first _ ih =>
    rw [List.flatMap_cons,List.zipIdx_append]
    rw [List.map_cons,uses] at used
    rcases List.mem_append.mp used with here | later
    · obtain ⟨⟨y,j⟩,place,equal⟩ := List.mem_map.mp here
      cases equal
      obtain ⟨row,at_,source⟩ := rows_seat first (List.mem_zipIdx_iff_getElem?.mp place)
      refine ⟨row,b + (q.1.seat j).1,(q.1.seat j).2,List.mem_append_left _ ?_,source,rfl⟩
      rw [List.mem_zipIdx_iff_le_and_getElem?_sub,Nat.add_sub_cancel_left]
      exact ⟨Nat.le_add_right _ _,at_⟩
    · obtain ⟨row,k,j,place,taken⟩ := ih later
      rw [← rows_width first] at place
      exact ⟨row,k,j,List.mem_append_right _ place,taken⟩

-- Names are given to outlets as the steps declare them, those of links apart.
theorem bound_produced (found : List.Forall₂ (fun q p => start.rows r q.1 p.1 = .ok p.2) qs ps)
    (member : (x,o) ∈ bound b (ps.flatMap (·.2))) :
    (x,o) ∈ produced b (qs.map (·.1)) ∨ ∃ row ∈ ps.flatMap (·.2), row.link = true ∧ x = row.name := by
  induction found generalizing b with
  | nil => cases member
  | @cons q p qs ps first _ ih =>
    rw [List.flatMap_cons] at member ⊢
    rw [bound_append] at member
    rw [List.map_cons,produced]
    rcases List.mem_append.mp member with here | later
    · obtain ⟨⟨row,k⟩,place,slot,result,rfl⟩ := mem_bound.mp here
      have inside := List.fst_mem_of_mem_zipIdx place
      by_cases link : row.link = true
      · obtain ⟨-,links⟩ := rows_links first inside link
        rw [links.results,List.mem_singleton] at result
        exact .inr ⟨row,List.mem_append_left _ inside,link,(Prod.mk.inj result).1⟩
      · obtain ⟨links,main,equal,shape⟩ := rows_parts first
        rw [equal,mem_zipIdx_concat] at place
        rcases place with early | last
        · exact absurd (shape.links row (List.fst_mem_of_mem_zipIdx early)).2.link link
        · cases last
          refine .inl (List.mem_append_left _ (List.mem_map.mpr ⟨(x,slot),?_,?_⟩))
          · rw [shape.results,results,List.mem_filter] at result
            exact List.mem_filter.mpr ⟨result.1,(Bool.and_eq_true_iff.mp result.2).1⟩
          · have count : q.1.width - 1 = links.length := by rw [← shape.width,Nat.add_sub_cancel]
            rw [count]
    · rw [rows_width first] at later
      refine (ih later).imp (List.mem_append_right _) ?_
      rintro ⟨row,inside,named⟩
      exact ⟨row,List.mem_append_right _ inside,named⟩

theorem names_rows (found : List.Forall₂ (fun q p => start.rows r q.1 p.1 = .ok p.2) qs ps) :
    (ps.flatMap (·.2)).map (·.name) = (List.zipWith Step.names (qs.map (·.1)) (ps.map (·.1))).flatten := by
  induction found with
  | nil => rfl
  | cons first _ ih =>
    rw [List.flatMap_cons,List.map_append,ih,rows_names first]
    rfl

-- The node of a row takes at every place the outlet that the name there is given to.
theorem Realized.source {outputs : List Declaration} {g : Graph} {k : Nat} (realized : Realized start rows outputs g)
    (place : (row,k) ∈ rows.zipIdx start.graph.nodes.length) (at_ : row.sources[j]? = some x) :
    ∃ o, (given start rows).lookup x = some o ∧ g.source? ⟨Int.ofNat k,Int.ofNat j⟩ = some o := by
  obtain ⟨-,feasible,os,-,rfl⟩ := realized
  have resolved := feasible.resolved row (List.fst_mem_of_mem_zipIdx place)
  obtain ⟨taken,each⟩ : ∃ taken, List.Forall₂ (fun x o => (given start rows).lookup x = some o) row.sources taken :=
    exists_forall₂ fun x source => (resolved x source).imp fun o found => found.1
  obtain ⟨o,there,found⟩ := forall₂_getElem? each.flip at_
  exact ⟨o,found,Option.bind_eq_some_iff.mpr ⟨_,drawn_taken place each,there⟩⟩

end Lowering

namespace Model
open Lowering TensorGraph.Graph

variable {m : Model} {r : Registry} {serial : Nat} {start : Lowering} {ps : List (String × List Row)} {g : Graph}
  {x : String} {o : Outlet}

theorem uses_names (b : Nat) (steps : List Step) : (uses b steps).map (·.1) = steps.flatMap Step.taken := by
  induction steps generalizing b with
  | nil => rfl
  | cons s steps ih =>
    rw [uses,List.map_append,List.map_map,ih,List.flatMap_cons]
    exact congrArg (· ++ steps.flatMap Step.taken) (List.zipIdx_map_fst 0 s.taken)

-- No name in the model is one that a link may get.
structure Hygienic (m : Model) : Prop where
  values : m.valueNames.Nodup
  apart : ∀ q ∈ m.steps.zipIdx, isChained q.1.op = true → ∀ title ∈ q.1.titles q.2, ∀ k, 1 ≤ k → k < q.1.width →
    linkName title k ∉ m.valueNames ++ m.usedNames

-- Every name stands for the outlet that the model declares for it. Names of the nodes tell which
-- constant, input or step has which numbers.
structure Faithful (m : Model) (g : Graph) : Prop where
  nodes : ∃ titles, List.Forall₂ (fun q title => title ∈ q.1.titles q.2) m.steps.zipIdx titles ∧
    g.nodes.map (·.name) = m.entries ++ (List.zipWith Step.names m.steps titles).flatten
  inputs : ∀ p ∈ uses m.entries.length m.steps, ∃ o, (p.1,o) ∈ m.declared ∧ g.source? p.2 = some o
  outputs : ∃ os, List.Forall₂ (fun d o => (d.name,o) ∈ m.declared) m.outputs os ∧ g.outputs = os.foldl collect []

-- A used name is given to no link, so it is given as it is declared.
theorem Laid.declared (hygienic : Hygienic m) (opened : Opened m.entries start)
    (laid : Laid m r (fun q title => title ∈ q.1.titles q.2) start ps g) (used : x ∈ m.usedNames)
    (found : (given start (ps.flatMap (·.2))).lookup x = some o) : (x,o) ∈ m.declared := by
  have size : start.graph.size = m.entries.length := by rw [← opened.named,List.length_map]; rfl
  rcases List.mem_append.mp ((lookup_mem laid.distinct).mp found) with new | old
  · rcases bound_produced (laid.found.imp fun _ _ => And.right) (List.mem_reverse.mp new) with named | link
    · rw [List.zipIdx_map_fst,size] at named
      exact List.mem_append_right _ named
    · obtain ⟨row,member,link,rfl⟩ := link
      obtain ⟨p,place,inside⟩ := List.mem_flatMap.mp member
      obtain ⟨q,step,titled,found⟩ := forall₂_right laid.found p place
      obtain ⟨chained,links⟩ := rows_links found inside link
      obtain ⟨k,positive,below,linkNamed⟩ := links.named
      have clash : linkName p.1 k ∈ m.valueNames ++ m.usedNames := List.mem_append_right _ (linkNamed ▸ used)
      exact absurd clash (hygienic.apart q step chained p.1 titled k positive below)
  · rw [opened.values,List.mem_reverse] at old
    exact List.mem_append_left _ old

-- Steps are laid out under one of their titles each.
theorem toGraph_titled (hygienic : Hygienic m) (ran : m.toGraph r serial = .ok g) : ∃ start ps,
    Opened m.entries start ∧ Laid m r (fun q title => title ∈ q.1.titles q.2) start ps g := by
  obtain ⟨start,ps,-,opened,laid⟩ := toGraph_laid (I := fun _ _ => True) (T := fun q title => title ∈ q.1.titles q.2)
    hygienic.values (fun _ _ => trivial) (fun _ q _ l _ => ⟨nameFor_titles l q.1 q.2,fun _ _ _ _ => trivial⟩)
    (fun q member chained title titled k positive below clash =>
      hygienic.apart q member chained title titled k positive below (List.mem_append_left _ clash)) ran
  exact ⟨start,ps,opened,laid⟩

theorem toGraph_faithful (hygienic : Hygienic m) (ran : m.toGraph r serial = .ok g) : Faithful m g := by
  obtain ⟨start,ps,opened,laid⟩ := toGraph_titled hygienic ran
  have found := laid.found.imp fun _ _ => And.right
  have steps : m.steps.zipIdx.map (·.1) = m.steps := List.zipIdx_map_fst 0 m.steps
  have size : start.graph.nodes.length = m.entries.length := by rw [← opened.named,List.length_map]
  refine ⟨⟨ps.map (·.1),?_,?_⟩,fun p used => ?_,?_⟩
  · rw [List.forall₂_map_right_iff]
    exact laid.found.imp fun _ _ => And.left
  · obtain ⟨-,-,os,-,rfl⟩ := laid.realized
    change (drawn start (ps.flatMap (·.2))).nodes.map (·.name) = _
    rw [drawn_nodes,frame_names,opened.named,names_rows found,steps]
  · have mentioned : p.1 ∈ m.usedNames :=
      List.mem_append_left _ (uses_names m.entries.length m.steps ▸ List.mem_map_of_mem used)
    rw [← steps,← size] at used
    obtain ⟨row,k,j,place,at_,inlet⟩ := uses_rows found used
    obtain ⟨o,given,source⟩ := laid.realized.source place at_
    exact ⟨o,Laid.declared hygienic opened laid mentioned given,inlet ▸ source⟩
  · obtain ⟨-,-,os,each,rfl⟩ := laid.realized
    refine ⟨os,(forall₂_mem each).imp fun d o parts => ?_,rfl⟩
    have mentioned : d.name ∈ m.usedNames := List.mem_append_right _ (List.mem_map_of_mem parts.1)
    exact Laid.declared hygienic opened laid mentioned parts.2.1

-- So a model that uses a name it does not declare has no graph.
theorem Faithful.declared (faithful : Faithful m g) (used : x ∈ m.usedNames) : x ∈ m.valueNames := by
  have named {o : Outlet} (member : (x,o) ∈ m.declared) : x ∈ m.valueNames :=
    declared_names m ▸ List.mem_map.mpr ⟨_,member,rfl⟩
  rcases List.mem_append.mp used with input | output
  · rw [← uses_names m.entries.length] at input
    obtain ⟨⟨y,i⟩,place,rfl⟩ := List.mem_map.mp input
    obtain ⟨o,member,-⟩ := faithful.inputs _ place
    exact named member
  · obtain ⟨d,place,rfl⟩ := List.mem_map.mp output
    obtain ⟨os,each,-⟩ := faithful.outputs
    obtain ⟨o,-,member⟩ := forall₂_left each d place
    exact named member

-- Names are resolved as they are declared, and a name that is not declared is never resolved.
theorem toGraph_hygienic (hygienic : Hygienic m) (r : Registry) (serial : Nat) :
    (∀ g, m.toGraph r serial = .ok g → Faithful m g) ∧
      ∀ x ∈ m.usedNames, x ∉ m.valueNames → ∃ e, m.toGraph r serial = .error e ∧ Rejection m r e := by
  refine ⟨fun g ran => toGraph_faithful hygienic ran,fun x used undeclared => ?_⟩
  cases ran : m.toGraph r serial with
  | error e => exact ⟨e,rfl,toGraph_rejection ran⟩
  | ok g => exact absurd ((toGraph_faithful hygienic ran).declared used) undeclared

-- Three inputs make a link, which is called most/1.
def woven : Model := ⟨"",[],[⟨"x",1,some [some 2]⟩,⟨"y",1,some [some 2]⟩],[⟨"z",1,none⟩],
  [⟨"Relu",["top"],["z"],"last",[]⟩,⟨"Max",["x","y","x"],["top"],"most",[]⟩]⟩

def unmet : Model := { woven with outputs := [⟨"w",1,none⟩] }

theorem woven_hygienic : Hygienic woven :=
  ⟨by decide,fun _ _ _ title _ k _ _ => linkName_ne (by decide) title k⟩

theorem unmet_hygienic : Hygienic unmet :=
  ⟨by decide,fun _ _ _ title _ k _ _ => linkName_ne (by decide) title k⟩

theorem woven_faithful : (∃ g, woven.toGraph .builtin 0 = .ok g ∧ Faithful woven g) ∧
    ∃ e, unmet.toGraph .builtin 0 = .error e ∧ Rejection unmet .builtin e := by
  refine ⟨?_,(toGraph_hygienic unmet_hygienic .builtin 0).2 "w" (by decide) (by decide)⟩
  cases ran : woven.toGraph .builtin 0 with
  | ok g => exact ⟨g,rfl,(toGraph_hygienic woven_hygienic .builtin 0).1 g ran⟩
  | error e =>
    have succeeds : (woven.toGraph .builtin 0).toOption.isSome = true := by decide +kernel
    rw [ran] at succeeds
    cases succeeds

-- The second step takes what the third calls most/1, but gets the link of the first.
def captured : Model := ⟨"",[],[⟨"x",1,some [some 2]⟩],[⟨"z",1,none⟩],
  [⟨"Max",["x","x","x"],["top"],"most",[]⟩,⟨"Relu",["most/1"],["z"],"last",[]⟩,⟨"Neg",["x"],["most/1"],"turn",[]⟩]⟩

-- Nothing is called most/1 but the link.
def smuggled : Model := { captured with steps := captured.steps.take 2 }

-- The first two steps need each other, and the third needs what is not there.
def tangled : Model := ⟨"",[],[],[⟨"p",1,none⟩],
  [⟨"Relu",["q"],["p"],"first",[]⟩,⟨"Relu",["p"],["q"],"second",[]⟩,⟨"Relu",["u"],["w"],"third",[]⟩]⟩

theorem captured_unfaithful : (captured.valueNames.Nodup ∧ ∃ g, captured.toGraph .builtin 0 = .ok g ∧ ¬ Faithful captured g) ∧
    (smuggled.valueNames.Nodup ∧ "most/1" ∈ smuggled.usedNames ∧ "most/1" ∉ smuggled.valueNames ∧
      ∃ g, smuggled.toGraph .builtin 0 = .ok g) ∧
    (tangled.valueNames.Nodup ∧ "u" ∈ tangled.usedNames ∧ "u" ∉ tangled.valueNames ∧
      ∃ e, tangled.toGraph .builtin 0 = .error e ∧ e.kind = .cycle) := by
  refine ⟨⟨by decide,?_⟩,⟨by decide,by decide,by decide,?_⟩,by decide,by decide,by decide,?_⟩
  · have source : (captured.toGraph .builtin 0).toOption.map (·.source? ⟨3,0⟩) = some (some ⟨1,0⟩) := by decide +kernel
    cases ran : captured.toGraph .builtin 0 with
    | error e =>
      rw [ran] at source
      cases source
    | ok g =>
      rw [ran] at source
      refine ⟨g,rfl,fun faithful => ?_⟩
      obtain ⟨o,member,found⟩ := faithful.inputs ("most/1",⟨3,0⟩) (by decide)
      have link : o = ⟨1,0⟩ := Option.some.inj (found.symm.trans (Option.some.inj source))
      subst link
      revert member
      decide
  · have succeeds : (smuggled.toGraph .builtin 0).toOption.isSome = true := by decide +kernel
    cases ran : smuggled.toGraph .builtin 0 with
    | error e =>
      rw [ran] at succeeds
      cases succeeds
    | ok g => exact ⟨g,rfl⟩
  · have fails : (((tangled.toGraph .builtin 0).map fun _ => none).tryCatch fun e => .ok (some e.kind)).toOption =
        some (some Kind.cycle) := by decide +kernel
    cases ran : tangled.toGraph .builtin 0 with
    | error e =>
      rw [ran] at fails
      exact ⟨e,rfl,Option.some.inj (Option.some.inj fails)⟩
    | ok g =>
      rw [ran] at fails
      cases fails

end Model
end TensorGraph
