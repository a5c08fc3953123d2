import TensorGraph.Proofs.Graph.Relabelling
import TensorGraph.Proofs.Model.Titles

namespace TensorGraph
open Outcome

namespace Model

-- The same step under another name.
structure Step.Renamed (s s' : Step) : Prop where
  op : s.op = s'.op
  inputs : s.inputs = s'.inputs
  outputs : s.outputs = s'.outputs
  attributes : s.attributes = s'.attributes

-- The same model with other names for its nodes.
structure Renamed (m m' : Model) : Prop where
  name : m.name = m'.name
  constants : m.constants = m'.constants
  inputs : m.inputs = m'.inputs
  outputs : m.outputs = m'.outputs
  steps : List.Forall₂ Step.Renamed m.steps m'.steps

variable {s s' : Step} {m m' : Model}

theorem Step.Renamed.symm (renamed : s.Renamed s') : s'.Renamed s :=
  ⟨renamed.op.symm,renamed.inputs.symm,renamed.outputs.symm,renamed.attributes.symm⟩

theorem Renamed.symm (renamed : m.Renamed m') : m'.Renamed m :=
  ⟨renamed.name.symm,renamed.constants.symm,renamed.inputs.symm,renamed.outputs.symm,
    (renamed.steps.imp fun _ _ => Step.Renamed.symm).flip⟩

theorem Step.Renamed.taken (renamed : s.Renamed s') : s.taken = s'.taken := by
  unfold Step.taken
  rw [renamed.op,renamed.inputs]

theorem Step.Renamed.width (renamed : s.Renamed s') : s.width = s'.width := by
  unfold Step.width
  rw [renamed.op,renamed.taken]

theorem Step.Renamed.links (renamed : s.Renamed s') : s.links = s'.links := by
  funext title
  unfold Step.links
  rw [renamed.width]

theorem Renamed.entries (renamed : m.Renamed m') : m.entries = m'.entries := by
  unfold Model.entries
  rw [renamed.constants,renamed.inputs]

theorem Renamed.mentioned (renamed : m.Renamed m') : m.mentioned = m'.mentioned := by
  have outputs : outputNames m.steps = outputNames m'.steps := by
    unfold outputNames
    rw [List.flatMap_def,List.flatMap_def,forall₂_map renamed.steps fun s s' same => by rw [same.outputs]]
  have taken : m.steps.flatMap Step.taken = m'.steps.flatMap Step.taken := by
    rw [List.flatMap_def,List.flatMap_def,forall₂_map renamed.steps fun s s' same => same.taken]
  unfold Model.mentioned valueNames usedNames
  rw [renamed.entries,renamed.outputs,outputs,taken]

-- A step whose names stay out of the way: what it takes and gives is mentioned, no link has the name of a
-- value that comes later, and its title is free.
structure Naming.Clear (V : List String) (n : Naming) : Prop where
  taken : ∀ x ∈ n.step.taken, x ∈ V
  outputs : ∀ x ∈ n.step.outputs, x ≠ "" → x ∈ V
  apart : ∀ link ∈ n.links, link ∈ V → link ∈ n.known
  free : n.title ∉ n.given

theorem Naming.Clear.renamed {V given values : List String} {title : String}
    (clear : Naming.Clear V ⟨s,given,values,title⟩) (renamed : s.Renamed s') :
    Naming.Clear V ⟨s',given,values,title⟩ := by
  refine ⟨renamed.taken ▸ clear.taken,renamed.outputs ▸ clear.outputs,?_,clear.free⟩
  unfold Naming.links
  rw [← renamed.links]
  exact clear.apart

-- Attributes are read in the same way whatever the name of a step; it is only told in messages.
theorem operatorAttributes_renamed {as : Attributes} (renamed : s.Renamed s') (read : operatorAttributes s = .ok as) :
    operatorAttributes s' = .ok as := by
  have each : Within (· = ·) (attributes s') (attributes s) := by
    unfold attributes
    rw [← renamed.attributes]
    refine within_foldlM (P := (· = ·)) ?_ (List.forall₂_refl _) rfl
    rintro as _ p _ rfl rfl
    refine within_same fun a _ => ?_
    cases a with
    | none => exact within_fail
    | some a => exact within_ok rfl
  obtain ⟨as,stated,read⟩ := bind_ok.mp read
  obtain ⟨_,stated',rfl⟩ := each as stated
  unfold operatorAttributes
  rw [stated',← renamed.op]
  exact read

end Model

namespace Lowering
open TensorGraph.Graph Model

variable {V : List String} {l l' : Lowering} {x x' : String} {row row' : Row} {r : Registry} {s s' : Step}
  {operator : Operator} {title title' : String}

theorem splitInputs_renamed {as as' : Attributes} {names : List String} (constants : l.constants = l'.constants)
    (renamed : s.Renamed s') (divided : l.splitInputs s as = .ok (names,as')) :
    l'.splitInputs s' as = .ok (names,as') := by
  have trimmed {names : List String} {as : Attributes} {p : List String × Attributes}
      (found : trim s names as = .ok p) : trim s' names as = .ok p := by
    unfold trim at found ⊢
    dsimp only at found ⊢
    split at found
    · cases found
    · rename_i full
      rw [if_neg full]
      exact found
  have takes : takesAxes s'.op = takesAxes s.op := by rw [renamed.op]
  unfold splitInputs at divided ⊢
  rw [takes,← renamed.inputs,← constants]
  generalize takesAxes s.op = takes, s.inputs = listed at divided ⊢
  split at divided
  · dsimp only at divided ⊢
    split at divided
    · rename_i blank
      rw [if_pos blank]
      exact trimmed divided
    · rename_i named
      rw [if_neg named]
      split at divided
      · exact trimmed divided
      · cases divided
  · exact trimmed divided

-- The rows of a renamed step are its rows under another title.
theorem rows_renamed {rows' : List Row} (constants : l.constants = l'.constants) (renamed : s.Renamed s')
    (found : l.rows r s title = .ok rows') (title' : String) : ∃ operator,
      rows' = block (isChained s.op) operator title s.taken s.outputs ∧
        l'.rows r s' title' = .ok (block (isChained s.op) operator title' s.taken s.outputs) := by
  unfold rows at found
  split at found
  · cases found
  · rename_i op known
    obtain ⟨as,read,found⟩ := bind_ok.mp found
    obtain ⟨⟨names,as'⟩,divided,found⟩ := bind_ok.mp found
    obtain ⟨operator,made,found⟩ := bind_ok.mp found
    cases found
    refine ⟨operator,by rw [splitInputs_taken divided],?_⟩
    unfold rows
    rw [← renamed.op,known]
    dsimp only
    rw [operatorAttributes_renamed renamed read,ok_bind,splitInputs_renamed constants renamed divided,ok_bind]
    dsimp only at made ⊢
    rw [made,ok_bind,splitInputs_taken divided,renamed.outputs]
    rfl

-- What one name stands for in a run, another one does in the other: a name that the model mentions for
-- itself, a link for its counterpart.
inductive Source (V : List String) (l l' : Lowering) : String → String → Prop where
  | named : y ∈ V → Source V l l' y y
  | link : y ∈ l.used → y ∉ V → y' ∈ l'.used → y' ∉ V → l.values.lookup y = some o →
      l'.values.lookup y' = some o → Source V l l' y y'

-- Nodes that wait for the same.
def Waiting (V : List String) (l l' : Lowering) (p p' : Nat × List String) : Prop :=
  p.1 = p'.1 ∧ List.Forall₂ (Source V l l') p.2 p'.2

-- Two runs side by side, on models that differ in the names of nodes.
structure Aligned (V : List String) (l l' : Lowering) : Prop where
  graph : l.graph.Relabelled l'.graph
  constants : l.constants = l'.constants
  values : ∀ x ∈ V, l.values.lookup x = l'.values.lookup x
  pending : List.Forall₂ (Waiting V l l') l.pending l'.pending

theorem Source.lookup (values : ∀ x ∈ V, l.values.lookup x = l'.values.lookup x) (source : Source V l l' x x') :
    l.values.lookup x = l'.values.lookup x' := by
  cases source with
  | named mentioned => exact values _ mentioned
  | link _ _ _ _ first second => rw [first,second]

theorem Source.outlets (values : ∀ x ∈ V, l.values.lookup x = l'.values.lookup x) {xs xs' : List String}
    (sources : List.Forall₂ (Source V l l') xs xs') :
    (xs.mapM fun x => l.values.lookup x) = xs'.mapM fun x => l'.values.lookup x := by
  induction sources with
  | nil => rfl
  | cons first _ ih => rw [List.mapM_cons,List.mapM_cons,first.lookup values,ih]

theorem Aligned.with_used (aligned : Aligned V l l') (title title' : String) :
    Aligned V { l with used := title :: l.used } { l' with used := title' :: l'.used } := by
  refine ⟨aligned.graph,aligned.constants,aligned.values,aligned.pending.imp fun p p' same => ⟨same.1,?_⟩⟩
  refine same.2.imp fun x x' source => ?_
  cases source with
  | named mentioned => exact .named mentioned
  | link used apart used' apart' first second =>
    exact .link (List.mem_cons_of_mem _ used) apart (List.mem_cons_of_mem _ used') apart' first second

-- Rows for the same node: their results have the same names, or they are links and have their own.
structure Pair (V : List String) (l l' : Lowering) (row row' : Row) : Prop where
  operator : row.operator = row'.operator
  sources : List.Forall₂ (Source V l l') row.sources row'.sources
  results : (row.link = false ∧ row'.link = false ∧ row.results = row'.results ∧ ∀ p ∈ row.results, p.1 ∈ V) ∨
    ((row.link = true ∧ row.results = [(row.name,0)] ∧ row.name ∉ V) ∧
      row'.link = true ∧ row'.results = [(row'.name,0)] ∧ row'.name ∉ V)

theorem appended_lookup (other : x ∉ row.results.map (·.1)) : (l.appended row).values.lookup x = l.values.lookup x := by
  have missing : (row.bindings l.graph.size).reverse.lookup x = none := by
    refine lookup_missing fun member => other ?_
    rw [List.map_reverse,List.mem_reverse,Row.bindings,List.map_map] at member
    exact member
  unfold appended
  dsimp only
  rw [List.lookup_append,missing,Option.none_or]

theorem appended_pending : (l.appended row).pending = if (row.sources.mapM fun x => l.values.lookup x).isSome
    then l.pending else l.pending ++ [(l.graph.size,row.sources)] := rfl

theorem Source.appended (pair : Pair V l l' row row') (free : row.link = true → row.name ∉ l.used)
    (free' : row'.link = true → row'.name ∉ l'.used) (source : Source V l l' x x') :
    Source V (l.appended row) (l'.appended row') x x' := by
  cases source with
  | named mentioned => exact .named mentioned
  | link used apart used' apart' first second =>
    have other : x ∉ row.results.map (·.1) ∧ x' ∉ row'.results.map (·.1) := by
      rcases pair.results with ⟨-,-,same,named⟩ | ⟨⟨link,results,-⟩,link',results',-⟩
      · rw [← same]
        constructor <;> intro member <;> obtain ⟨p,inside,rfl⟩ := List.mem_map.mp member
        · exact apart (named p inside)
        · exact apart' (named p inside)
      · rw [results,results',List.map_singleton,List.mem_singleton,List.map_singleton,List.mem_singleton]
        exact ⟨fun same : x = row.name => free link (same ▸ used),fun same : x' = row'.name => free' link' (same ▸ used')⟩
    exact .link ((appended_used _).mpr (.inl used)) apart ((appended_used _).mpr (.inl used')) apart'
      ((appended_lookup other.1).trans first) ((appended_lookup other.2).trans second)

theorem Pair.lookup (pair : Pair V l l' row row') (size : l.graph.size = l'.graph.size)
    (values : l.values.lookup x = l'.values.lookup x) (mentioned : x ∈ V) :
    (l.appended row).values.lookup x = (l'.appended row').values.lookup x := by
  rcases pair.results with ⟨-,-,same,-⟩ | ⟨⟨-,results,apart⟩,-,results',apart'⟩
  · unfold Lowering.appended Row.bindings
    dsimp only
    rw [List.lookup_append,List.lookup_append,same,size,values]
  · rw [appended_lookup,appended_lookup,values]
    · rw [results',List.map_singleton,List.mem_singleton]
      exact ne_of_mem_of_not_mem mentioned apart'
    · rw [results,List.map_singleton,List.mem_singleton]
      exact ne_of_mem_of_not_mem mentioned apart

theorem Aligned.append (aligned : Aligned V l l') (pair : Pair V l l' row row')
    (free : row.link = true → row.name ∉ l.used) (free' : row'.link = true → row'.name ∉ l'.used) :
    Aligned V (l.appended row) (l'.appended row') := by
  have size := aligned.graph.size
  have found := Source.outlets aligned.values pair.sources
  refine ⟨⟨aligned.graph.name,?_,aligned.graph.entries,aligned.graph.exits⟩,aligned.constants,fun x mentioned => ?_,?_⟩
  · refine List.rel_append aligned.graph.nodes (.cons ⟨size,pair.operator,?_⟩ .nil)
    rw [found]
  · exact pair.lookup size (aligned.values x mentioned) mentioned
  · have earlier : List.Forall₂ (Waiting V (l.appended row) (l'.appended row')) l.pending l'.pending :=
      aligned.pending.imp fun p p' same => ⟨same.1,same.2.imp fun _ _ => Source.appended pair free free'⟩
    have here : Waiting V (l.appended row) (l'.appended row') (l.graph.size,row.sources) (l'.graph.size,row'.sources) :=
      ⟨size,pair.sources.imp fun _ _ => Source.appended pair free free'⟩
    rw [appended_pending,appended_pending,found]
    split
    · exact earlier
    · exact List.rel_append earlier (.cons here .nil)

-- Values are called by names of the model, or by names that are in use.
def Called (V : List String) (l : Lowering) : Prop := ∀ p ∈ l.values, p.1 ∈ V ∨ p.1 ∈ l.used

-- A row whose name is free is appended where its counterpart was.
theorem append_follows {l₁ : Lowering} (aligned : Aligned V l l') (pair : Pair V l l' row row') (called : Called V l')
    (fresh : ∀ n ∈ l'.graph.nodes, n.name ≠ row'.name) (free : row'.link = true → row'.name ∉ l'.used)
    (ran : l.append row = .ok l₁) :
    l'.append row' = .ok (l'.appended row') ∧ Aligned V l₁ (l'.appended row') := by
  obtain ⟨unused,-,exist,rfl⟩ := append_iff.mp ran
  refine ⟨append_iff.mpr ⟨fun link => ⟨free link,?_⟩,fresh,?_,rfl⟩,aligned.append pair (fun link => (unused link).1) free⟩
  · rcases pair.results with ⟨-,main,-⟩ | ⟨-,-,-,apart⟩
    · rw [main] at link
      cases link
    · refine lookup_missing fun member => ?_
      obtain ⟨p,inside,same⟩ := List.mem_map.mp member
      exact (called p inside).elim (fun mentioned => apart (same ▸ mentioned)) fun used => free link (same ▸ used)
  · rw [← Source.outlets aligned.values pair.sources]
    exact fun o member => aligned.graph.outlet (exist o member)

theorem append_known (link : row.link = true) (known : row.name ∈ l.used ∨ l.hasValue row.name = true) :
    l.append row = fail (.linkTaken row.name) := by
  unfold append
  rw [if_pos (by simpa [link] using known)]
  rfl

-- A run in the middle of a step: what no link may have is what was known before, the title, and the names
-- of links before `k`.
structure Midway (V known : List String) (title : String) (k : Nat) (l : Lowering) : Prop where
  called : Called V l
  nodes : ∀ n ∈ l.graph.nodes, n.name ∈ l.used ∧ n.name ≠ title
  used : ∀ u ∈ l.used, u ∈ known ∨ u = title ∨ ∃ j < k, u = linkName title j
  known : ∀ u ∈ known, u ∈ l.used ∨ l.hasValue u = true

theorem Midway.link {known : List String} {k : Nat} {sources : List String} (midway : Midway V known title k l) :
    Midway V known title (k + 1) (l.appended ⟨linkName title k,operator,sources,[(linkName title k,0)],true⟩) := by
  refine ⟨fun p member => ?_,fun n member => ?_,fun u member => ?_,fun u member => ?_⟩
  · rw [appended_used]
    rcases List.mem_append.mp member with new | old
    · rw [List.mem_singleton.mp (List.mem_reverse.mp new)]
      exact .inr (.inr ⟨rfl,rfl⟩)
    · exact (midway.called p old).imp_right .inl
  · rw [appended_used]
    rcases List.mem_append.mp member with old | new
    · exact ⟨.inl (midway.nodes n old).1,(midway.nodes n old).2⟩
    · rw [List.mem_singleton.mp new]
      exact ⟨.inr ⟨rfl,rfl⟩,linkName_title _ _⟩
  · rcases (appended_used u).mp member with old | ⟨-,rfl⟩
    · exact (midway.used u old).imp_right (Or.imp_right fun ⟨j,below,same⟩ => ⟨j,by omega,same⟩)
    · exact .inr (.inr ⟨k,by omega,rfl⟩)
  · rw [appended_used,hasValue_iff,appended_keys,← hasValue_iff]
    exact (midway.known u member).imp .inl .inl

-- The last row of a step is appended where its counterpart was.
theorem main_follows {known : List String} {outs : List (String × Nat)} {k : Nat} {sources sources' : List String}
    {l₁ : Lowering} (outputs : ∀ p ∈ outs, p.1 ∈ V) (aligned : Aligned V l l') (midway : Midway V known title' k l')
    (related : List.Forall₂ (Source V l l') sources sources')
    (ran : [(⟨title,operator,sources,outs,false⟩ : Row)].foldlM append l = .ok l₁) :
    ∃ l₁', [(⟨title',operator,sources',outs,false⟩ : Row)].foldlM append l' = .ok l₁' ∧ Aligned V l₁ l₁' := by
  obtain ⟨_,first,equal⟩ := bind_ok.mp ran
  cases equal
  have pair : Pair V l l' ⟨title,operator,sources,outs,false⟩ ⟨title',operator,sources',outs,false⟩ :=
    ⟨rfl,related,.inl ⟨rfl,rfl,rfl,outputs⟩⟩
  obtain ⟨second,aligned⟩ := append_follows aligned pair midway.called (fun n member => (midway.nodes n member).2)
    nofun first
  exact ⟨_,bind_ok.mpr ⟨_,second,rfl⟩,aligned⟩

theorem sources_named {names : List String} (mentioned : ∀ x ∈ names, x ∈ V) : List.Forall₂ (Source V l l') names names :=
  List.forall₂_same.mpr fun x inside => .named (mentioned x inside)

theorem link_value (l : Lowering) (link : String) (sources : List String) :
    (l.appended ⟨link,operator,sources,[(link,0)],true⟩).values.lookup link = some ⟨Int.ofNat l.graph.size,0⟩ := by
  simp [appended,Row.bindings]

-- A link follows its counterpart, unless its name was known.
theorem link_follows {known : List String} {k : Nat} {a a' b : String} {middle : Lowering} (here : b ∈ V)
    (apart : linkName title k ∉ V) (apart' : linkName title' k ∈ V → linkName title' k ∈ known)
    (aligned : Aligned V l l') (midway : Midway V known title' k l') (source : Source V l l' a a')
    (ran : l.append ⟨linkName title k,operator,[a,b],[(linkName title k,0)],true⟩ = .ok middle) :
    (∃ middle', l'.append ⟨linkName title' k,operator,[a',b],[(linkName title' k,0)],true⟩ = .ok middle' ∧
      Aligned V middle middle' ∧ Midway V known title' (k + 1) middle' ∧
      Source V middle middle' (linkName title k) (linkName title' k)) ∨
    linkName title' k ∈ known ∧ l'.append ⟨linkName title' k,operator,[a',b],[(linkName title' k,0)],true⟩ =
      fail (.linkTaken (linkName title' k)) := by
  by_cases met : linkName title' k ∈ l'.used ∨ l'.hasValue (linkName title' k) = true
  · refine .inr ⟨?_,append_known rfl met⟩
    have used (taken : linkName title' k ∈ l'.used) : linkName title' k ∈ known := by
      rcases midway.used _ taken with known | title | ⟨j,before,same⟩
      · exact known
      · exact absurd title (linkName_title _ _)
      · exact absurd (linkName_inj same) (by omega)
    rcases met with taken | called
    · exact used taken
    · obtain ⟨p,inside,same⟩ := List.mem_map.mp (hasValue_iff.mp called)
      exact (midway.called p inside).elim (fun named => apart' (same ▸ named)) fun taken => used (same ▸ taken)
  · have fresh : linkName title' k ∉ l'.used := fun taken => met (.inl taken)
    have unnamed : linkName title' k ∉ V := fun named => met (midway.known _ (apart' named))
    have other : ∀ n ∈ l'.graph.nodes, n.name ≠ linkName title' k := fun n member same =>
      fresh (same ▸ (midway.nodes n member).1)
    have pair : Pair V l l' ⟨linkName title k,operator,[a,b],[(linkName title k,0)],true⟩
        ⟨linkName title' k,operator,[a',b],[(linkName title' k,0)],true⟩ :=
      ⟨rfl,.cons source (.cons (.named here) .nil),.inr ⟨⟨rfl,rfl,apart⟩,rfl,rfl,unnamed⟩⟩
    obtain ⟨second,next⟩ := append_follows aligned pair midway.called other (fun _ => fresh) ran
    obtain ⟨-,-,-,rfl⟩ := append_iff.mp ran
    -- The link stands for the same output in both runs, each under its own name.
    refine .inl ⟨_,second,next,midway.link,?_⟩
    exact .link ((appended_used _).mpr (.inr ⟨rfl,rfl⟩)) apart ((appended_used _).mpr (.inr ⟨rfl,rfl⟩)) unnamed
      (link_value l _ _) (by rw [link_value,aligned.graph.size])

-- A chain is folded as its counterpart was, unless it comes to a link whose name was known.
theorem folded_follows {known : List String} {outs : List (String × Nat)} {k : Nat} {a a' : String} {names : List String}
    {l₁ : Lowering} (outputs : ∀ p ∈ outs, p.1 ∈ V) (mentioned : ∀ x ∈ names, x ∈ V)
    (apart : ∀ j, k ≤ j → j < k + (names.length - 1) → linkName title j ∉ V ∧ (linkName title' j ∈ V → linkName title' j ∈ known))
    (aligned : Aligned V l l') (midway : Midway V known title' k l') (source : Source V l l' a a')
    (ran : (folded operator title outs k a names).foldlM append l = .ok l₁) :
    (∃ l₁', (folded operator title' outs k a' names).foldlM append l' = .ok l₁' ∧ Aligned V l₁ l₁') ∨
      ∃ j, k ≤ j ∧ j < k + (names.length - 1) ∧ linkName title' j ∈ known ∧
        (folded operator title' outs k a' names).foldlM append l' = fail (.linkTaken (linkName title' j)) := by
  induction names generalizing k a a' l l' with
  | nil => exact .inl (main_follows outputs aligned midway (.cons source .nil) ran)
  | cons b names ih =>
    cases names with
    | nil => exact .inl (main_follows outputs aligned midway (.cons source (sources_named mentioned)) ran)
    | cons c names =>
      obtain ⟨here,later⟩ := List.forall_mem_cons.mp mentioned
      simp only [List.length_cons,Nat.add_sub_cancel] at apart ih ⊢
      obtain ⟨apartHere,apartHere'⟩ := apart k (Nat.le_refl k) (by omega)
      rw [folded,List.foldlM_cons] at ran
      obtain ⟨middle,first,rest⟩ := bind_ok.mp ran
      rw [folded,List.foldlM_cons]
      rcases link_follows here apartHere apartHere' aligned midway source first with
        ⟨middle',second,next,between,linked⟩ | ⟨known,failed⟩
      · rw [second,ok_bind]
        rcases ih later (fun j low high => apart j (by omega) (by omega)) next between linked rest with
          done | ⟨j,low,high,known,failed⟩
        · exact .inl done
        · exact .inr ⟨j,by omega,by omega,known,failed⟩
      · exact .inr ⟨k,Nat.le_refl k,by omega,known,by rw [failed]; rfl⟩

theorem Tidy.midway {given values : List String} (tidy : Tidy V given values l) (free : title ∉ given) :
    Midway V (given ++ values) title 1 { l with used := title :: l.used } := by
  refine ⟨fun p member => ?_,fun n member => ?_,fun u member => ?_,fun u member => ?_⟩
  · exact (tidy.keys p.1 (List.mem_map_of_mem member)).imp_right fun old => List.mem_cons_of_mem _ ((tidy.used _).mpr old)
  · have old := tidy.nodes n member
    exact ⟨List.mem_cons_of_mem _ ((tidy.used _).mpr old),fun same => free (same ▸ old)⟩
  · rcases List.mem_cons.mp member with own | old
    · exact .inr (.inl own)
    · exact .inl (List.mem_append_left _ ((tidy.used u).mp old))
  · rcases List.mem_append.mp member with old | called
    · exact .inl (List.mem_cons_of_mem _ ((tidy.used u).mpr old))
    · exact .inr (hasValue_iff.mpr (tidy.values u called))

theorem lay_follows {given values : List String} {l₁ : Lowering} (aligned : Aligned V l l') (tidy : Tidy V given values l')
    (apart : ∀ link ∈ s.links title, link ∉ V) (clear : Naming.Clear V ⟨s,given,values,title'⟩)
    (ran : l.lay (title,block (isChained s.op) operator title s.taken s.outputs) = .ok l₁) :
    (∃ l₁', l'.lay (title',block (isChained s.op) operator title' s.taken s.outputs) = .ok l₁' ∧ Aligned V l₁ l₁') ∨
      ∃ link ∈ s.links title', link ∈ given ++ values ∧
        l'.lay (title',block (isChained s.op) operator title' s.taken s.outputs) = fail (.linkTaken link) := by
  have begun := aligned.with_used title title'
  have midway := tidy.midway clear.free
  have outputs : ∀ p ∈ results operator s.outputs, p.1 ∈ V := by
    intro p result
    obtain ⟨output,other⟩ := List.mem_filter.mp ((results_named _ _).subset (List.mem_map_of_mem result))
    exact clear.outputs _ output (by simpa using other)
  have mentioned : ∀ x ∈ s.taken, x ∈ V := clear.taken
  unfold lay block at ran ⊢
  dsimp only at ran ⊢
  split at ran
  · rename_i _ a rest chained taken
    rw [taken] at mentioned
    obtain ⟨here,later⟩ := List.forall_mem_cons.mp mentioned
    have width := width_chained chained taken
    have links (j : Nat) (positive : 1 ≤ j) (below : j < 1 + (rest.length - 1)) :
        linkName title j ∉ V ∧ (linkName title' j ∈ V → linkName title' j ∈ given ++ values) := by
      rw [← width] at below
      exact ⟨apart _ (Step.mem_links.mpr ⟨j,positive,below,rfl⟩),clear.apart _ (Step.mem_links.mpr ⟨j,positive,below,rfl⟩)⟩
    rcases folded_follows outputs later links begun midway (.named here) ran with done | ⟨j,positive,below,known,failed⟩
    · exact .inl done
    · exact .inr ⟨_,Step.mem_links.mpr ⟨j,positive,width ▸ below,rfl⟩,known,failed⟩
  · exact .inl (main_follows outputs begun midway (sources_named mentioned) ran)

theorem addStep_follows {given values given' values' : List String} {index : Nat} {l₁ : Lowering} (yields : r.Yields)
    (aligned : Aligned V l l') (tidy : Tidy V given values l) (tidy' : Tidy V given' values' l') (renamed : s.Renamed s')
    (clear : Naming.Clear V ⟨s,given,values,s.title given index⟩)
    (clear' : Naming.Clear V ⟨s',given',values',s'.title given' index⟩) (ran : l.addStep r s index = .ok l₁) :
    (∃ l₁', l'.addStep r s' index = .ok l₁' ∧ Aligned V l₁ l₁') ∨ ∃ link ∈ s'.links (s'.title given' index),
      link ∈ given' ++ values' ∧ l'.addStep r s' index = fail (.linkTaken link) := by
  obtain ⟨-,free⟩ := addStep_tidy yields tidy clear.outputs ran
  have apart : ∀ link ∈ s.links (s.title given index), link ∉ V :=
    fun link member named => free link member (clear.apart link member named)
  obtain ⟨rows,found,laid⟩ := addStep_lay.mp ran
  rw [nameFor_title tidy.used] at found laid
  obtain ⟨operator,rfl,found'⟩ := rows_renamed aligned.constants renamed found (s'.title given' index)
  rw [← nameFor_title tidy'.used] at found'
  rw [addStep_rows found',nameFor_title tidy'.used,← renamed.links]
  exact lay_follows aligned tidy' apart (clear'.renamed renamed.symm) laid

-- Steps go alike until one of the second run comes to a link whose name was known.
theorem steps_follow {qs qs' : List (Step × Nat)} {given values given' values' : List String} {l₁ : Lowering}
    (yields : r.Yields) (renamed : List.Forall₂ (fun q q' => q.1.Renamed q'.1 ∧ q.2 = q'.2) qs qs')
    (aligned : Aligned V l l') (tidy : Tidy V given values l) (tidy' : Tidy V given' values' l')
    (clear : ∀ n ∈ namingsFrom given values qs, n.Clear V) (clear' : ∀ n ∈ namingsFrom given' values' qs', n.Clear V)
    (ran : qs.foldlM (fun l q => l.addStep r q.1 q.2) l = .ok l₁) :
    (∃ l₁', qs'.foldlM (fun l q => l.addStep r q.1 q.2) l' = .ok l₁' ∧ Aligned V l₁ l₁') ∨
      ∃ n ∈ namingsFrom given' values' qs', ∃ link ∈ n.links, link ∈ n.known ∧
        qs'.foldlM (fun l q => l.addStep r q.1 q.2) l' = fail (.linkTaken link) := by
  induction renamed generalizing l l' given values given' values' with
  | nil =>
    cases ran
    exact .inl ⟨l',rfl,aligned⟩
  | @cons q q' qs qs' same _ ih =>
    obtain ⟨s,index⟩ := q
    obtain ⟨s',_⟩ := q'
    obtain ⟨renamed,rfl⟩ := same
    obtain ⟨here,later⟩ := List.forall_mem_cons.mp clear
    obtain ⟨here',later'⟩ := List.forall_mem_cons.mp clear'
    rw [List.foldlM_cons] at ran
    obtain ⟨middle,first,rest⟩ := bind_ok.mp ran
    rw [List.foldlM_cons]
    rcases addStep_follows yields aligned tidy tidy' renamed here here' first with
      ⟨middle',first',between⟩ | ⟨link,own,known,failed⟩
    · have next := (addStep_tidy yields tidy here.outputs first).1
      have next' := (addStep_tidy yields tidy' here'.outputs first').1
      rw [first',ok_bind]
      rcases ih between next next' later later' rest with done | ⟨n,member,failed⟩
      · exact .inl done
      · exact .inr ⟨n,List.mem_cons_of_mem _ member,failed⟩
    · exact .inr ⟨_,List.mem_cons_self,link,own,known,by rw [failed]; rfl⟩

end Lowering
end TensorGraph
