import TensorGraph.Model.Lowering
import TensorGraph.Proofs.Outcome

namespace TensorGraph
open Outcome

namespace Model

-- The inputs of a step that its operator takes as tensors: axes are none, and blanks behind the last
-- input are left out.
def Step.taken (s : Step) : List String :=
  let names := match takesAxes s.op, s.inputs with
    | true, x :: axes :: rest => if axes = "" then s.inputs else x :: rest
    | _, names => names
  (names.reverse.dropWhile (· = "")).reverse

-- Number of nodes that a step becomes.
def Step.width (s : Step) : Nat := if isChained s.op then max 1 (s.taken.length - 1) else 1

end Model

namespace Lowering
open Model

-- One node that a step becomes: what it takes, by name, and which names its outputs are given. Links
-- fold the inputs of a step that its operator cannot take at once.
structure Row where
  name : String
  operator : Operator
  sources : List String
  results : List (String × Nat)
  link : Bool

def Row.bindings (row : Row) (id : Nat) : List (String × Outlet) :=
  row.results.map fun (x,slot) => (x,⟨Int.ofNat id,Int.ofNat slot⟩)

def linkName (name : String) (k : Nat) : String := s!"{name}/{k}"

theorem linkName_toList (name : String) (k : Nat) :
    (linkName name k).toList = name.toList ++ '/' :: Nat.toDigits 10 k := by
  simp [linkName,toString]

theorem slash_linkName (name : String) (k : Nat) : '/' ∈ (linkName name k).toList := by
  simp [linkName_toList]

-- Names without a slash are none of a link.
theorem linkName_ne {names : List String} (plain : ∀ x ∈ names, '/' ∉ x.toList) (name : String) (k : Nat) :
    linkName name k ∉ names := fun member => plain _ member (slash_linkName name k)

-- Outputs that are named and that the operator has.
def results (operator : Operator) (outputs : List String) : List (String × Nat) :=
  outputs.zipIdx.filter fun (x,slot) => x ≠ "" && slot < operator.outputCount

def folded (operator : Operator) (name : String) (outputs : List (String × Nat)) :
    Nat → String → List String → List Row
  | k, a, b :: c :: rest =>
    ⟨linkName name k,operator,[a,b],[(linkName name k,0)],true⟩ ::
      folded operator name outputs (k + 1) (linkName name k) (c :: rest)
  | _, a, names => [⟨name,operator,a :: names,outputs,false⟩]

-- The nodes of one step, in the order in which they are appended.
def block (chained : Bool) (operator : Operator) (name : String) (names outputs : List String) : List Row :=
  match chained, names with
  | true, a :: rest => folded operator name (results operator outputs) 1 a rest
  | _, names => [⟨name,operator,names,results operator outputs,false⟩]

-- The rows of a step whose node gets a name. Of what was done before only the constants matter.
def rows (r : Registry) (l : Lowering) (s : Step) (name : String) : Outcome (List Row) :=
  match operators.lookup s.op with
  | none => fail (.unsupportedModelOperator s.op)
  | some op => do
    let as ← operatorAttributes s
    let (names,as) ← l.splitInputs s as
    let operator ← r.create (if isChained s.op && names.length = 1 then "Identity" else op) as
    return block (isChained s.op) operator name names s.outputs

def append (l : Lowering) (row : Row) : Outcome Lowering := do
  if row.link && (l.used.contains row.name || l.hasValue row.name) then fail (.linkTaken row.name)
  let (l,id) ← { l with used := if row.link then row.name :: l.used else l.used }.wire
    row.operator row.sources row.name
  return { l with values := (row.bindings id).reverse ++ l.values }

variable {r : Registry} {l l' : Lowering} {s : Step}

theorem append_main (operator : Operator) (names outputs : List String) (name : String) :
    l.append ⟨name,operator,names,results operator outputs,false⟩ =
      l.wire operator names name >>= fun p => .ok (p.1.produce p.2 operator.outputCount outputs) := rfl

-- A link is appended like any other row.
theorem chain_link {op : String} {as : Attributes} {operator : Operator} (made : r.create op as = .ok operator)
    (l : Lowering) (name : String) (k : Nat) (a b c : String) (rest : List String) :
    chain r op as name k l a (b :: c :: rest) =
      l.append ⟨linkName name k,operator,[a,b],[(linkName name k,0)],true⟩ >>= fun l =>
        chain r op as name (k + 1) l (linkName name k) (c :: rest) := by
  conv => lhs; unfold chain
  unfold append linkName
  dsimp only
  rw [Bool.true_and]
  split
  · rfl
  · rw [made,ok_bind,bind_assoc]
    rfl

theorem chain_append {op : String} {as : Attributes} {operator : Operator} {name : String} {outputs : List String}
    (made : r.create op as = .ok operator) (k : Nat) (l : Lowering) (a : String) : ∀ rest : List String,
    (chain r op as name k l a rest >>= fun p => p.1.wire operator p.2 name >>= fun q =>
      .ok (q.1.produce q.2 operator.outputCount outputs)) =
      (folded operator name (results operator outputs) k a rest).foldlM append l
  | [] => by
    unfold chain folded
    rw [List.foldlM_cons,append_main]
    simp
  | [b] => by
    unfold chain folded
    rw [List.foldlM_cons,append_main]
    simp
  | b :: c :: rest => by
    unfold folded
    rw [List.foldlM_cons,chain_link made,bind_assoc]
    exact congrArg _ (funext fun l => chain_append made (k + 1) l (linkName name k) (c :: rest))

theorem block_made {op : String} {as : Attributes} {operator : Operator} {name : String} {names outputs : List String}
    {chained : Bool} (made : r.create op as = .ok operator) :
    (match chained, names with
      | true, a :: rest => chain r op as name 1 l a rest >>= fun p => r.create op as >>= fun operator =>
        p.1.wire operator p.2 name >>= fun q => .ok (q.1.produce q.2 operator.outputCount outputs)
      | _, names => (.ok (l,names) : Outcome _) >>= fun p => r.create op as >>= fun operator =>
        p.1.wire operator p.2 name >>= fun q => .ok (q.1.produce q.2 operator.outputCount outputs)) =
      (block chained operator name names outputs).foldlM append l := by
  unfold block
  split
  · simp only [made,ok_bind]
    rw [chain_append made]
  · rw [ok_bind,made,ok_bind,List.foldlM_cons,append_main]
    simp [bind_assoc]

theorem block_ok {op : String} {as : Attributes} {name : String} {names outputs : List String} {chained : Bool} :
    (match chained, names with
      | true, a :: rest => chain r op as name 1 l a rest >>= fun p => r.create op as >>= fun operator =>
        p.1.wire operator p.2 name >>= fun q => .ok (q.1.produce q.2 operator.outputCount outputs)
      | _, names => (.ok (l,names) : Outcome _) >>= fun p => r.create op as >>= fun operator =>
        p.1.wire operator p.2 name >>= fun q => .ok (q.1.produce q.2 operator.outputCount outputs)) = .ok l' ↔
      ∃ operator, r.create op as = .ok operator ∧
        (block chained operator name names outputs).foldlM append l = .ok l' := by
  cases made : r.create op as with
  | error e =>
    split <;> simp [bind_ok]
  | ok operator =>
    rw [← made,block_made made]
    simp [made]

theorem addStep_ok {index : Nat} : l.addStep r s index = .ok l' ↔
    ∃ block, l.rows r s (l.nameFor s index) = .ok block ∧
      block.foldlM append { l with used := l.nameFor s index :: l.used } = .ok l' := by
  unfold addStep rows
  cases operators.lookup s.op with
  | none => simp
  | some op =>
    dsimp only
    constructor
    · intro ran
      obtain ⟨as,read,ran⟩ := bind_ok.mp ran
      obtain ⟨⟨names,as'⟩,divided,ran⟩ := bind_ok.mp ran
      obtain ⟨operator,made,ran⟩ := block_ok.mp ran
      refine ⟨_,?_,ran⟩
      rw [read,ok_bind,divided,ok_bind,made]
      rfl
    · rintro ⟨block,found,ran⟩
      obtain ⟨as,read,found⟩ := bind_ok.mp found
      obtain ⟨⟨names,as'⟩,divided,found⟩ := bind_ok.mp found
      obtain ⟨operator,made,found⟩ := bind_ok.mp found
      cases found
      rw [read,ok_bind,divided,ok_bind]
      exact block_ok.mpr ⟨operator,made,ran⟩

theorem rows_constants (same : l'.constants = l.constants) (s : Step) (name : String) :
    l'.rows r s name = l.rows r s name := by
  unfold rows splitInputs
  rw [same]

-- What a link is: its one result has its name, which is made from the name of the step and a number
-- from one on, below the number of nodes.
structure Row.Links (name : String) (width : Nat) (row : Row) : Prop where
  link : row.link = true
  results : row.results = [(row.name,0)]
  named : ∃ k, 1 ≤ k ∧ k < width ∧ row.name = linkName name k

theorem folded_operator {operator : Operator} {name : String} {outputs : List (String × Nat)} {k : Nat} {a : String}
    {names : List String} {row : Row} (member : row ∈ folded operator name outputs k a names) :
    row.operator = operator := by
  induction names generalizing k a with
  | nil => rw [List.mem_singleton.mp member]
  | cons b rest ih =>
    cases rest with
    | nil => rw [List.mem_singleton.mp member]
    | cons c rest =>
      rcases List.mem_cons.mp member with rfl | later
      · rfl
      · exact ih later

theorem folded_parts (operator : Operator) (name : String) (outputs : List (String × Nat)) {k : Nat} (from_ : 1 ≤ k)
    (a : String) (names : List String) : ∃ links main,
      folded operator name outputs k a names = links ++ [main] ∧ links.length = names.length - 1 ∧
      (∀ row ∈ links, row.Links name (k + (names.length - 1))) ∧
      main.name = name ∧ main.operator = operator ∧ main.link = false ∧ main.results = outputs := by
  induction names generalizing k a with
  | nil => exact ⟨[],⟨name,operator,[a],outputs,false⟩,by simp [folded],rfl,List.forall_mem_nil _,rfl,rfl,rfl,rfl⟩
  | cons b rest ih =>
    cases rest with
    | nil => exact ⟨[],⟨name,operator,[a,b],outputs,false⟩,by simp [folded],rfl,List.forall_mem_nil _,rfl,rfl,rfl,rfl⟩
    | cons c rest =>
      obtain ⟨links,main,equal,count,each,parts⟩ := ih (Nat.le_add_right_of_le from_) (linkName name k)
      simp only [List.length_cons,Nat.add_sub_cancel] at count each ⊢
      refine ⟨⟨linkName name k,operator,[a,b],[(linkName name k,0)],true⟩ :: links,main,?_,?_,?_,parts⟩
      · rw [folded,equal,List.cons_append]
      · rw [List.length_cons,count]
      · refine List.forall_mem_cons.mpr ⟨⟨rfl,rfl,k,from_,by omega,rfl⟩,fun row member => ?_⟩
        rw [← Nat.add_assoc,Nat.add_right_comm]
        exact each row member

theorem block_operator {chained : Bool} {operator : Operator} {name : String} {names outputs : List String} {row : Row}
    (member : row ∈ block chained operator name names outputs) : row.operator = operator := by
  unfold block at member
  split at member
  · exact folded_operator member
  · rw [List.mem_singleton.mp member]

-- The rows of a step end with the one that has its name and its outputs.
structure Shape (s : Step) (name : String) (links : List Row) (main : Row) : Prop where
  width : links.length + 1 = s.width
  links : ∀ row ∈ links, isChained s.op = true ∧ row.Links name s.width
  named : main.name = name
  last : main.link = false
  results : main.results = results main.operator s.outputs

theorem filter_named (outputs : List String) :
    (outputs.zipIdx.filter fun p => p.1 ≠ "").map (·.1) = outputs.filter (· ≠ "") := by
  conv => rhs; rw [← List.zipIdx_map_fst 0 outputs,List.filter_map]
  rfl

theorem results_named (operator : Operator) (outputs : List String) :
    ((results operator outputs).map (·.1)).Sublist (outputs.filter (· ≠ "")) := by
  rw [← filter_named]
  refine List.Sublist.map _ (List.monotone_filter_right _ fun p kept => ?_)
  exact (Bool.and_eq_true_iff.mp kept).1

-- What is done once the axes are taken out.
def trim (s : Step) (names : List String) (as : Attributes) : Outcome (List String × Attributes) := do
  let names := (names.reverse.dropWhile (· = "")).reverse
  if names.contains "" then fail (.inputSkipped s.op s.name)
  return (names, as)

theorem trim_ok {as as' : Attributes} {names names' : List String} (trimmed : trim s names as = .ok (names',as')) :
    names' = (names.reverse.dropWhile (· = "")).reverse ∧ as' = as := by
  unfold trim at trimmed
  dsimp only at trimmed
  split at trimmed
  · cases trimmed
  · cases trimmed
    exact ⟨rfl,rfl⟩

theorem splitInputs_taken {as as' : Attributes} {names : List String}
    (divided : l.splitInputs s as = .ok (names,as')) : names = s.taken := by
  unfold splitInputs at divided
  split at divided
  · rename_i x axes rest takes listed
    unfold Step.taken
    rw [takes,listed]
    dsimp only
    split at divided
    · rename_i blank
      rw [listed] at divided
      exact (trim_ok divided).1.trans (by rw [if_pos blank])
    · rename_i named
      split at divided
      · exact (trim_ok divided).1.trans (by rw [if_neg named])
      · cases divided
  · rename_i other
    refine (trim_ok divided).1.trans ?_
    unfold Step.taken
    dsimp only
    split
    · rename_i takes listed
      exact (other _ _ _ takes listed).elim
    · rfl

theorem rows_found {name : String} {block' : List Row} (found : l.rows r s name = .ok block') :
    ∃ op as operator, operators.lookup s.op = some op ∧
      r.create (if isChained s.op && s.taken.length = 1 then "Identity" else op) as = .ok operator ∧
      block' = block (isChained s.op) operator name s.taken s.outputs := by
  unfold rows at found
  split at found
  · cases found
  · rename_i op known
    obtain ⟨as,-,found⟩ := bind_ok.mp found
    obtain ⟨⟨names,as'⟩,divided,found⟩ := bind_ok.mp found
    obtain ⟨operator,made,found⟩ := bind_ok.mp found
    cases found
    rw [splitInputs_taken divided] at made ⊢
    exact ⟨op,as',operator,known,made,rfl⟩

theorem rows_made {name : String} {block' : List Row} (found : l.rows r s name = .ok block') :
    ∃ op as operator, r.create op as = .ok operator ∧ block' = block (isChained s.op) operator name s.taken s.outputs := by
  obtain ⟨_,as,operator,-,made,equal⟩ := rows_found found
  exact ⟨_,as,operator,made,equal⟩

theorem rows_block {name : String} {block' : List Row} (found : l.rows r s name = .ok block') :
    ∃ operator, block' = block (isChained s.op) operator name s.taken s.outputs := by
  obtain ⟨-,-,operator,-,equal⟩ := rows_made found
  exact ⟨operator,equal⟩

theorem width_chained {a : String} {rest : List String} (chained : isChained s.op = true) (taken : s.taken = a :: rest) :
    s.width = 1 + (rest.length - 1) := by
  rw [Step.width,if_pos chained,taken,List.length_cons]
  omega

theorem width_single (other : ∀ a rest, isChained s.op = true → s.taken = a :: rest → False) : s.width = 1 := by
  unfold Step.width
  split
  · rename_i chained
    cases taken : s.taken with
    | nil => rfl
    | cons a rest => exact (other a rest chained taken).elim
  · rfl

theorem rows_parts {name : String} {block' : List Row} (found : l.rows r s name = .ok block') :
    ∃ links main, block' = links ++ [main] ∧ Shape s name links main := by
  obtain ⟨operator,rfl⟩ := rows_block found
  unfold block
  split
  · rename_i _ a rest chained taken
    have width := width_chained chained taken
    obtain ⟨links,main,equal,count,each,named,same,last,results⟩ :=
      folded_parts operator name (results operator s.outputs) (Nat.le_refl 1) a rest
    rw [← width] at each
    exact ⟨links,main,equal,by omega,fun row member => ⟨chained,each row member⟩,named,last,same ▸ results⟩
  · rename_i other
    exact ⟨[],_,rfl,(width_single other).symm,List.forall_mem_nil _,rfl,rfl,rfl⟩

theorem rows_links {name : String} {block' : List Row} (found : l.rows r s name = .ok block') {row : Row}
    (member : row ∈ block') (link : row.link = true) : isChained s.op = true ∧ row.Links name s.width := by
  obtain ⟨links,main,rfl,shape⟩ := rows_parts found
  rcases List.mem_append.mp member with early | last
  · exact shape.links row early
  · rw [List.mem_singleton.mp last,shape.last] at link
    cases link

end Lowering
end TensorGraph
