import TensorGraph.Proofs.Model.Hygiene

namespace TensorGraph
open Outcome

namespace Lowering

theorem linkName_inj {name : String} {j k : Nat} (same : linkName name j = linkName name k) : j = k := by
  have parts := congrArg String.toList same
  rw [linkName_toList,linkName_toList] at parts
  have digits := (List.cons.inj (List.append_cancel_left parts)).2
  rw [← Nat.ofDigitChars_ten_toDigits (n := j),digits,Nat.ofDigitChars_ten_toDigits]

theorem linkName_title (name : String) (k : Nat) : linkName name k ≠ name := by
  intro same
  have parts := congrArg (fun s => s.toList.length) same
  simp [linkName_toList] at parts

end Lowering

namespace Registry

-- Operators that are made have an output.
def Yields (r : Registry) : Prop := ∀ op as operator, r.create op as = .ok operator → 0 < operator.outputCount

theorem create_made {r : Registry} {op : String} {as : Attributes} {operator : Operator}
    (made : r.create op as = .ok operator) : ∃ make, r.get? op = some make ∧ make as = .ok operator := by
  unfold create at made
  split at made
  · cases made
  · split at made
    · cases made
    · rename_i make found
      refine ⟨make,found,?_⟩
      split at made
      · rename_i built
        cases made
        exact built
      · split at made <;> cases made

theorem builtin_yields : builtin.Yields := by
  intro op as operator made
  obtain ⟨make,found,built⟩ := create_made made
  obtain ⟨before,after,split,-⟩ := List.lookup_eq_some_iff.mp found
  have member : (op,make) ∈ builtin.factories := by simp [split]
  obtain ⟨⟨name,build⟩,-,entry⟩ := List.mem_map.mp member
  cases entry
  obtain ⟨o,-,rfl⟩ := map_ok.mp built
  exact Nat.one_pos

end Registry

namespace Model
open Lowering

-- The name of the last node of step number `index`, when others are given away.
def Step.title (s : Step) (given : List String) (index : Nat) : String :=
  let name := if s.name = "" then s!"{s.op}_{index}" else s.name
  if given.contains name then s!"{name}_{index}" else name

-- Names of the nodes before the last.
def Step.links (s : Step) (title : String) : List String :=
  (List.range (s.width - 1)).map fun k => linkName title (k + 1)

theorem Step.mem_links {s : Step} {title link : String} :
    link ∈ s.links title ↔ ∃ k, 1 ≤ k ∧ k < s.width ∧ link = linkName title k := by
  unfold links
  simp only [List.mem_map,List.mem_range]
  constructor
  · rintro ⟨k,below,rfl⟩
    exact ⟨k + 1,by omega,by omega,rfl⟩
  · rintro ⟨k,positive,below,rfl⟩
    exact ⟨k - 1,by omega,by rw [Nat.sub_add_cancel positive]⟩

-- The name of the first output, if it has one.
def Step.first (s : Step) : List String := (s.outputs.take 1).filter (· ≠ "")

-- A step at the moment when its nodes are named: the names given away before it, and what the steps before
-- it call their first outputs.
structure Naming where
  step : Step
  given : List String
  values : List String
  title : String

def Naming.links (n : Naming) : List String := n.step.links n.title

-- Names that no link may have.
def Naming.known (n : Naming) : List String := n.given ++ n.values

def namingsFrom : List String → List String → List (Step × Nat) → List Naming
  | _, _, [] => []
  | given, values, (s,index) :: later => ⟨s,given,values,s.title given index⟩ ::
    namingsFrom (s.names (s.title given index) ++ given) (s.first ++ values) later

-- The steps of a model in turn.
def namings (m : Model) : List Naming := namingsFrom m.entries [] m.steps.zipIdx

-- Every link has a name that is new when its step comes.
def LinksFree (m : Model) : Prop := ∀ n ∈ m.namings, ∀ link ∈ n.links, link ∉ n.known

instance (m : Model) : Decidable m.LinksFree :=
  inferInstanceAs (Decidable (∀ n ∈ m.namings, ∀ link ∈ n.links, link ∉ n.known))

end Model

namespace Lowering
open TensorGraph.Graph Model

variable {r : Registry} {l l' : Lowering} {row : Row} {s : Step} {index : Nat} {title : String} {block : List Row}
  {names given values V : List String}

theorem nameFor_title (used : ∀ u, u ∈ l.used ↔ u ∈ given) (s : Step) (index : Nat) :
    l.nameFor s index = s.title given index := by
  have same (name : String) : l.used.contains name = given.contains name := by
    simp only [List.contains_eq_mem,used]
  unfold nameFor Step.title
  simp only [same]

theorem addStep_rows (found : l.rows r s (l.nameFor s index) = .ok block) :
    l.addStep r s index = l.lay (l.nameFor s index,block) := by
  unfold rows at found
  split at found
  · cases found
  · rename_i op known
    obtain ⟨as,read,found⟩ := bind_ok.mp found
    obtain ⟨⟨names,as'⟩,divided,found⟩ := bind_ok.mp found
    obtain ⟨operator,made,found⟩ := bind_ok.mp found
    cases found
    unfold addStep
    rw [known]
    dsimp only
    rw [read,ok_bind,divided,ok_bind]
    exact block_made made

theorem rows_titled (found : l.rows r s title = .ok block) : ∃ links main, block = links ++ [main] ∧
    Shape s title links main ∧ links.map (·.name) = s.links title := by
  obtain ⟨links,main,rfl,shape⟩ := rows_parts found
  have names := rows_names found
  rw [List.map_append,List.map_singleton] at names
  exact ⟨links,main,rfl,shape,(List.append_inj' names rfl).1⟩

theorem rows_linked (found : l.rows r s title = .ok block) (u : String) :
    (∃ row ∈ block, row.link = true ∧ u = row.name) ↔ u ∈ s.links title := by
  obtain ⟨links,main,rfl,shape,titled⟩ := rows_titled found
  rw [← titled,List.mem_map]
  constructor
  · rintro ⟨row,member,link,rfl⟩
    rcases List.mem_append.mp member with early | last
    · exact ⟨row,early,rfl⟩
    · rw [List.mem_singleton.mp last,shape.last] at link
      cases link
  · rintro ⟨row,early,rfl⟩
    exact ⟨row,List.mem_append_left _ early,(shape.links row early).2.link,rfl⟩

-- A result is a link, or an output of the step.
theorem rows_results {x : String} (found : l.rows r s title = .ok block) (member : row ∈ block)
    (result : x ∈ row.results.map (·.1)) : x ∈ s.links title ∨ x ∈ s.outputs ∧ x ≠ "" := by
  obtain ⟨links,main,rfl,shape,titled⟩ := rows_titled found
  rcases List.mem_append.mp member with early | last
  · rw [(shape.links row early).2.results,List.map_singleton,List.mem_singleton] at result
    rw [result,← titled]
    exact .inl (List.mem_map_of_mem early)
  · rw [List.mem_singleton.mp last,shape.results] at result
    exact .inr (by simpa using List.mem_filter.mp ((results_named _ _).subset result))

theorem block_yields (yields : r.Yields) (found : l.rows r s title = .ok block) :
    ∀ row ∈ block, 0 < row.operator.outputCount := by
  intro row member
  obtain ⟨op,as,operator,made,rfl⟩ := rows_made found
  rw [block_operator member]
  exact yields op as operator made

theorem rows_first {x : String} (yields : r.Yields) (found : l.rows r s title = .ok block) (first : x ∈ s.first) :
    ∃ row ∈ block, x ∈ row.results.map (·.1) := by
  have made := block_yields yields found
  obtain ⟨links,main,rfl,shape⟩ := rows_parts found
  have last : main ∈ links ++ [main] := List.mem_append_right _ List.mem_cons_self
  refine ⟨main,last,?_⟩
  unfold Step.first at first
  rw [shape.results,results]
  cases outputs : s.outputs with
  | nil => simp [outputs] at first
  | cons y outputs =>
    obtain ⟨rfl,named⟩ : x = y ∧ x ≠ "" := by simpa [outputs,List.mem_filter] using first
    simp [named,made main last]

-- A graph in the making, as far as names go: those given away are in use, nodes have no others, and values
-- are called like them or by names of the model.
structure Tidy (V given values : List String) (l : Lowering) : Prop where
  built : Built l.graph
  used : ∀ u, u ∈ l.used ↔ u ∈ given
  nodes : ∀ n ∈ l.graph.nodes, n.name ∈ given
  keys : ∀ x ∈ l.values.map (·.1), x ∈ V ∨ x ∈ given
  values : ∀ x ∈ values, x ∈ l.values.map (·.1)

-- The nodes of a step get its names, and its links names that nothing had.
theorem lay_tidy (yields : r.Yields) (tidy : Tidy V given values l) (outputs : ∀ x ∈ s.outputs, x ≠ "" → x ∈ V)
    (found : l.rows r s title = .ok block) (ran : l.lay (title,block) = .ok l') :
    Tidy V (s.names title ++ given) (s.first ++ values) l' ∧ ∀ link ∈ s.links title, link ∉ given ++ values := by
  obtain ⟨-,used,free,keys⟩ := appends_parts ran
  obtain ⟨built,named⟩ := lay_named tidy.built ran
  have given_iff (u : String) : u ∈ s.names title ++ given ↔ u ∈ s.links title ∨ u = title ∨ u ∈ given := by
    simp [Step.names,Step.links]
  refine ⟨⟨built,fun u => ?_,fun n member => ?_,fun x member => ?_,fun x member => ?_⟩,fun link member known => ?_⟩
  · rw [used,rows_linked found,given_iff,List.mem_cons,tidy.used,or_comm]
  · have name := List.mem_map_of_mem (f := fun n : Node => n.name) member
    rw [named,rows_names found] at name
    rcases List.mem_append.mp name with old | new
    · obtain ⟨n',there,same⟩ := List.mem_map.mp old
      exact List.mem_append_right _ (same ▸ tidy.nodes n' there)
    · exact List.mem_append_left _ new
  · rcases (keys x).mp member with old | ⟨row,inside,result⟩
    · exact (tidy.keys x old).imp_right (List.mem_append_right _)
    · rcases rows_results found inside result with link | ⟨output,other⟩
      · exact .inr ((given_iff _).mpr (.inl link))
      · exact .inl (outputs _ output other)
  · rcases List.mem_append.mp member with new | old
    · exact (keys x).mpr (.inr (rows_first yields found new))
    · exact (keys x).mpr (.inl (tidy.values x old))
  · obtain ⟨row,inside,isLink,rfl⟩ := (rows_linked found link).mpr member
    obtain ⟨unused,unknown⟩ := free row inside isLink
    rcases List.mem_append.mp known with taken | called
    · exact unused (List.mem_cons_of_mem _ ((tidy.used _).mpr taken))
    · exact unknown (tidy.values _ called)

theorem addStep_tidy (yields : r.Yields) (tidy : Tidy V given values l) (outputs : ∀ x ∈ s.outputs, x ≠ "" → x ∈ V)
    (ran : l.addStep r s index = .ok l') :
    Tidy V (s.names (s.title given index) ++ given) (s.first ++ values) l' ∧
      ∀ link ∈ s.links (s.title given index), link ∉ given ++ values := by
  obtain ⟨block,found,laid⟩ := addStep_lay.mp ran
  rw [nameFor_title tidy.used] at found laid
  exact lay_tidy yields tidy outputs found laid

theorem steps_tidy {qs : List (Step × Nat)} (yields : r.Yields) (tidy : Tidy V given values l)
    (outputs : ∀ q ∈ qs, ∀ x ∈ q.1.outputs, x ≠ "" → x ∈ V)
    (ran : qs.foldlM (fun l q => l.addStep r q.1 q.2) l = .ok l') :
    ∀ n ∈ namingsFrom given values qs, ∀ link ∈ n.links, link ∉ n.known := by
  induction qs generalizing l given values with
  | nil => exact List.forall_mem_nil _
  | cons q qs ih =>
    rw [List.foldlM_cons] at ran
    obtain ⟨middle,first,rest⟩ := bind_ok.mp ran
    obtain ⟨here,later⟩ := List.forall_mem_cons.mp outputs
    obtain ⟨next,free⟩ := addStep_tidy yields tidy here first
    exact List.forall_mem_cons.mpr ⟨free,ih next later rest⟩

theorem Opened.tidy (opened : Opened names l) (same : ∀ x, x ∈ names ↔ x ∈ given) : Tidy V given [] l := by
  refine ⟨opened.built,fun u => ?_,fun n member => ?_,fun x member => .inr ?_,List.forall_mem_nil _⟩
  · rw [opened.used,List.mem_reverse,same]
  · rw [← same,← opened.named]
    exact List.mem_map_of_mem member
  · rwa [← same,← List.mem_reverse,← opened.keys]

-- An input with the name of a constant, or of an earlier input, is left out.
theorem addInput_opens {d : Declaration} (opened : Opened names l) (ran : l.addInput d = .ok l') :
    ∃ more, Opened more l' ∧ ∀ x, x ∈ more ↔ x ∈ names ∨ x = d.name := by
  by_cases known : d.name ∈ names
  · have there : l.hasValue d.name = true := by rwa [hasValue_iff,opened.keys,List.mem_reverse]
    unfold addInput at ran
    rw [if_pos there] at ran
    cases ran
    refine ⟨names,opened,fun x => ⟨.inl,?_⟩⟩
    rintro (old | rfl)
    · exact old
    · exact known
  · exact ⟨names ++ [d.name],addInput_opened opened known ran,by simp⟩

theorem inputs_open {ds : List Declaration} (opened : Opened names l) (ran : ds.foldlM addInput l = .ok l') :
    ∃ more, Opened more l' ∧ ∀ x, x ∈ more ↔ x ∈ names ++ ds.map (·.name) := by
  induction ds generalizing names l with
  | nil =>
    cases ran
    exact ⟨names,opened,by simp⟩
  | cons d ds ih =>
    rw [List.foldlM_cons] at ran
    obtain ⟨middle,first,rest⟩ := bind_ok.mp ran
    obtain ⟨between,reached,here⟩ := addInput_opens opened first
    obtain ⟨more,done,later⟩ := ih reached rest
    exact ⟨more,done,fun x => by simp [later,here,or_assoc]⟩

end Lowering

namespace Model
open Lowering TensorGraph.Graph

variable {m : Model} {r : Registry} {serial : Nat} {start : Lowering} {g : Graph}

theorem opened_names (ran : m.opened serial = .ok start) :
    ∃ names, Opened names start ∧ ∀ x, x ∈ names ↔ x ∈ m.entries := by
  obtain ⟨middle,constants,inputs⟩ := bind_ok.mp ran
  exact inputs_open (constants_opened (start_opened serial _) constants) inputs

-- Names that a model gives to values or uses.
def mentioned (m : Model) : List String := m.valueNames ++ m.usedNames

theorem mentioned_output {s : Step} {x : String} (member : s ∈ m.steps) (output : x ∈ s.outputs) (named : x ≠ "") :
    x ∈ m.mentioned := by
  refine List.mem_append_left _ (List.mem_append_right _ (List.mem_flatMap.mpr ⟨s,member,?_⟩))
  exact List.mem_filter.mpr ⟨output,by simpa using named⟩

theorem mentioned_taken {s : Step} {x : String} (member : s ∈ m.steps) (taken : x ∈ s.taken) : x ∈ m.mentioned :=
  List.mem_append_right _ (List.mem_append_left _ (List.mem_flatMap.mpr ⟨s,member,taken⟩))

-- A model with a graph has links whose names are new.
theorem toGraph_links (yields : r.Yields) (ran : m.toGraph r serial = .ok g) : m.LinksFree := by
  obtain ⟨start,l,-,-,started,stepped,-⟩ := toGraph_parts ran
  obtain ⟨names,opened,same⟩ := opened_names started
  exact steps_tidy (V := m.mentioned) yields (opened.tidy same)
    (fun q member x => mentioned_output (List.fst_mem_of_mem_zipIdx member)) stepped

end Model
end TensorGraph
