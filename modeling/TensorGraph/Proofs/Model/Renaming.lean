import TensorGraph.Proofs.Model.Labels

namespace TensorGraph
open Outcome

namespace Lowering
open TensorGraph.Graph Model

variable {V : List String} {l l' : Lowering} {g g' : Graph} {outputs : List Declaration}

theorem edge_follows {final final' : List (String × Outlet)} {p p' : String × Nat} (id : Nat) (same : g.Relabelled g')
    (found : final.lookup p.1 = final'.lookup p'.1) (position : p.2 = p'.2) :
    Within (fun g' g => g.Relabelled g') (edge final' id g' p') (edge final id g p) := by
  intro h ran
  unfold edge at ran ⊢
  rw [← found,← position]
  cases at_ : final.lookup p.1 with
  | none =>
    rw [at_] at ran
    cases ran
  | some o =>
    rw [at_] at ran
    exact same.addEdge ran

theorem connect_follows {p p' : Nat × List String} (same : l.graph.Relabelled l'.graph) (id : p.1 = p'.1)
    (sources : List.Forall₂ (fun x x' => l.values.lookup x = l'.values.lookup x') p.2 p'.2) :
    Within (fun k' k => k.graph.Relabelled k'.graph ∧ k.values = l.values ∧ k'.values = l'.values)
      (l'.connect p') (l.connect p) := by
  obtain ⟨i,names⟩ := p
  obtain ⟨_,names'⟩ := p'
  obtain rfl : i = _ := id
  rw [connect_edges,connect_edges]
  refine within_bind ?_ fun h' h reached => within_ok ⟨reached,rfl,rfl⟩
  exact within_foldlM (fun g' g _ _ same met => edge_follows i same met.1 met.2) (forall₂_zipIdx sources 0).flip same

-- Nodes that wait are connected to what their counterparts are connected to.
theorem connects_follow (aligned : Aligned V l l') :
    Within (fun k' k => k.graph.Relabelled k'.graph ∧ k.values = l.values ∧ k'.values = l'.values)
      (l'.pending.foldlM connect l') (l.pending.foldlM connect l) := by
  refine within_foldlM ?_ aligned.pending.flip ⟨aligned.graph,rfl,rfl⟩
  rintro k' k p' p ⟨same,values,values'⟩ ⟨id,sources⟩
  rw [← values,← values']
  refine connect_follows same id (sources.imp fun x x' source => ?_)
  rw [values,values']
  exact source.lookup aligned.values

-- What is left to do when all steps have their nodes.
def finish (outputs : List Declaration) (l : Lowering) : Outcome Graph :=
  l.pending.foldlM connect l >>= fun l => outputs.foldlM addOutput l >>= fun l =>
    l.graph.validate >>= fun _ => .ok l.graph

theorem finish_follows (aligned : Aligned V l l') (built : Built l.graph) (built' : Built l'.graph)
    (named : ∀ d ∈ outputs, d.name ∈ V) (ran : l.finish outputs = .ok g) :
    ∃ g', l'.finish outputs = .ok g' ∧ g.Relabelled g' := by
  obtain ⟨middle,connected,ran⟩ := bind_ok.mp ran
  obtain ⟨last,designated,ran⟩ := bind_ok.mp ran
  obtain ⟨⟨⟩,valid,equal⟩ := bind_ok.mp ran
  cases equal
  obtain ⟨middle',connected',same,values,values'⟩ := connects_follow aligned middle connected
  have reached := connects_built built connected
  have reached' := connects_built built' connected'
  obtain ⟨os,each,whole⟩ := addOutputs_ok.mp designated
  have designated' : outputs.foldlM addOutput middle' =
      .ok { middle' with graph := { middle'.graph with outputs := os.foldl collect middle'.graph.outputs } } := by
    refine addOutputs_ok.mpr ⟨os,(forall₂_mem each).imp fun d o parts => ?_,rfl⟩
    obtain ⟨member,found,has⟩ := parts
    rw [values,aligned.values _ (named d member),← values'] at found
    exact ⟨found,same.outlet has⟩
  have exits : last.graph.Relabelled { middle'.graph with outputs := os.foldl collect middle'.graph.outputs } := by
    rw [whole]
    exact ⟨same.name,same.nodes,same.entries,congrArg (os.foldl collect) same.exits⟩
  have valid' := exits.valid (built_invariant (addOutputs_built reached designated))
    (built_invariant (addOutputs_built reached' designated')) valid
  refine ⟨_,?_,exits⟩
  unfold finish
  rw [connected',ok_bind,designated',ok_bind,valid']
  rfl

theorem Opened.aligned {names : List String} (opened : Opened names l) (k : Nat) : Aligned V l (l.reserial k) := by
  refine ⟨⟨rfl,List.forall₂_same.mpr fun n _ => ⟨rfl,rfl,rfl⟩,rfl,rfl⟩,rfl,fun _ _ => rfl,?_⟩
  unfold reserial
  rw [opened.pending]
  exact .nil

end Lowering

namespace Model
open Lowering TensorGraph.Graph

variable {m m' : Model} {r : Registry} {serial : Nat} {g : Graph}

theorem toGraph_finish (m : Model) (r : Registry) (serial : Nat) : m.toGraph r serial =
    m.opened serial >>= fun start => m.steps.zipIdx.foldlM (fun l p => l.addStep r p.1 p.2) start >>= fun l =>
      l.finish m.outputs := toGraph_eq m r serial

-- Names of nodes that stay out of the way: a name that was given away before is free once it is numbered,
-- and no link has the name of a value that comes later.
structure Labelled (m : Model) : Prop where
  titles : ∀ n ∈ m.namings, n.title ∉ n.given
  links : ∀ n ∈ m.namings, ∀ link ∈ n.links, link ∈ m.mentioned → link ∈ n.known

theorem namingsFrom_step {given values : List String} {qs : List (Step × Nat)} :
    ∀ n ∈ namingsFrom given values qs, n.step ∈ qs.map (·.1) := by
  induction qs generalizing given values with
  | nil => exact List.forall_mem_nil _
  | cons q qs ih =>
    exact List.forall_mem_cons.mpr ⟨List.mem_cons_self,fun n member => List.mem_cons_of_mem _ (ih n member)⟩

theorem Labelled.clear (labelled : m.Labelled) : ∀ n ∈ m.namings, n.Clear m.mentioned := by
  intro n member
  have step : n.step ∈ m.steps := List.zipIdx_map_fst 0 m.steps ▸ namingsFrom_step n member
  exact ⟨fun x taken => mentioned_taken step taken,fun x output named => mentioned_output step output named,
    labelled.links n member,labelled.titles n member⟩

theorem Renamed.opened (renamed : m.Renamed m') (serial : Nat) : m.opened serial = m'.opened serial := by
  unfold Model.opened
  rw [renamed.name,renamed.constants,renamed.inputs]

-- A renamed model has the same graph, or it has a link whose name was known.
theorem toGraph_follows (yields : r.Yields) (renamed : m.Renamed m') (labelled : m.Labelled) (labelled' : m'.Labelled)
    (serial' : Nat) (ran : m.toGraph r serial = .ok g) :
    (∃ g', m'.toGraph r serial' = .ok g' ∧ g.Relabelled g') ∨
      ∃ n ∈ m'.namings, ∃ link ∈ n.links, link ∈ n.known ∧ m'.toGraph r serial' = fail (.linkTaken link) := by
  rw [toGraph_finish] at ran
  obtain ⟨start,started,ran⟩ := bind_ok.mp ran
  obtain ⟨l,stepped,finished⟩ := bind_ok.mp ran
  have started' : m'.opened serial' = .ok (start.reserial serial') :=
    renamed.opened serial' ▸ opened_reserial serial' started
  obtain ⟨names,opened,same⟩ := opened_names started
  obtain ⟨names',opened',same'⟩ := opened_names started'
  have steps : List.Forall₂ (fun q q' : Step × Nat => q.1.Renamed q'.1 ∧ q.2 = q'.2) m.steps.zipIdx m'.steps.zipIdx :=
    forall₂_zipIdx renamed.steps 0
  have clear' := labelled'.clear
  rw [← renamed.mentioned] at clear'
  rw [toGraph_finish,started',ok_bind]
  rcases steps_follow yields steps (opened.aligned serial') (opened.tidy same) (opened'.tidy same') labelled.clear clear'
    stepped with ⟨l',stepped',aligned⟩ | ⟨n,member,link,own,known,failed⟩
  · have built := addSteps_built opened.built stepped
    have built' := addSteps_built opened'.built stepped'
    have outputs : ∀ d ∈ m.outputs, d.name ∈ m.mentioned := fun d member =>
      List.mem_append_right _ (List.mem_append_right _ (List.mem_map_of_mem member))
    obtain ⟨g',finished',alike⟩ := finish_follows aligned built built' outputs finished
    refine .inl ⟨g',?_,alike⟩
    rw [stepped',← renamed.outputs]
    exact finished'
  · refine .inr ⟨n,member,link,own,known,?_⟩
    rw [failed]
    rfl

-- Names of nodes are labels: where links have new names, either both models have no graph, or they have
-- graphs that differ in nothing but these names. A model whose link has a known name has none.
theorem toGraph_renamed (yields : r.Yields) (renamed : m.Renamed m') (labelled : m.Labelled) (labelled' : m'.Labelled)
    (serial serial' : Nat) :
    (∀ g, m.toGraph r serial = .ok g → m.LinksFree) ∧
      (m.LinksFree → m'.LinksFree → (∃ e e', m.toGraph r serial = .error e ∧ m'.toGraph r serial' = .error e') ∨
        ∃ g g', m.toGraph r serial = .ok g ∧ m'.toGraph r serial' = .ok g' ∧ g.Relabelled g') ∧
      (¬ m.LinksFree → ∀ g', m'.toGraph r serial' = .ok g' →
        ∃ n ∈ m.namings, ∃ link ∈ n.links, link ∈ n.known ∧ m.toGraph r serial = fail (.linkTaken link)) := by
  refine ⟨fun g ran => toGraph_links yields ran,fun free free' => ?_,fun taken g' ran => ?_⟩
  · cases first : m.toGraph r serial with
    | ok g =>
      rcases toGraph_follows yields renamed labelled labelled' serial' first with
        ⟨g',second,same⟩ | ⟨n,member,link,own,known,-⟩
      · exact .inr ⟨g,g',rfl,second,same⟩
      · exact absurd known (free' n member link own)
    | error e =>
      cases second : m'.toGraph r serial' with
      | error e' => exact .inl ⟨e,e',rfl,rfl⟩
      | ok g' =>
        rcases toGraph_follows yields renamed.symm labelled' labelled serial second with
          ⟨g,back,-⟩ | ⟨n,member,link,own,known,-⟩
        · cases first.symm.trans back
        · exact absurd known (free n member link own)
  · rcases toGraph_follows yields renamed.symm labelled' labelled serial ran with ⟨g,back,-⟩ | failed
    · exact absurd (toGraph_links yields back) taken
    · exact failed

-- The third step waits for the fourth. What it takes is called like a link of the second, if that is named
-- least.
def titled (a b c d : String) : Model := ⟨"",[],[⟨"x",1,some [some 2]⟩],[⟨"top",1,none⟩,⟨"z",1,none⟩],
  [⟨"Relu",["x"],["p"],a,[]⟩,⟨"Max",["x","x","p"],["top"],b,[]⟩,⟨"Relu",["least/1"],["z"],c,[]⟩,
    ⟨"Neg",["p"],["least/1"],d,[]⟩]⟩

theorem titled_renamed (a b c d a' b' c' d' : String) : (titled a b c d).Renamed (titled a' b' c' d') :=
  ⟨rfl,rfl,rfl,rfl,.cons ⟨rfl,rfl,rfl,rfl⟩ (.cons ⟨rfl,rfl,rfl,rfl⟩ (.cons ⟨rfl,rfl,rfl,rfl⟩ (.cons ⟨rfl,rfl,rfl,rfl⟩ .nil)))⟩

theorem titled_relabelled :
    (∃ g g', (titled "first" "most" "last" "turn").toGraph .builtin 0 = .ok g ∧
      (titled "" "most" "most/1" "most").toGraph .builtin 1 = .ok g' ∧ g.Relabelled g') ∧
    ∃ link, (titled "most/1" "most" "last" "turn").toGraph .builtin 2 = fail (.linkTaken link) := by
  have plain : (titled "first" "most" "last" "turn").Labelled := ⟨by decide +kernel,by decide +kernel⟩
  have numbered : (titled "" "most" "most/1" "most").Labelled := ⟨by decide +kernel,by decide +kernel⟩
  have blocked : (titled "most/1" "most" "last" "turn").Labelled := ⟨by decide +kernel,by decide +kernel⟩
  have yields := Registry.builtin_yields
  have toNumbered := toGraph_renamed yields (titled_renamed _ _ _ _ _ _ _ _) plain numbered 0 1
  have fromBlocked := toGraph_renamed yields (titled_renamed _ _ _ _ _ _ _ _) blocked plain 2 0
  obtain ⟨g,ran⟩ : ∃ g, (titled "first" "most" "last" "turn").toGraph .builtin 0 = .ok g :=
    ok_of_isSome (by decide +kernel)
  refine ⟨?_,?_⟩
  · rcases toNumbered.2.1 (toNumbered.1 g ran) (by decide +kernel) with ⟨e,-,failed,-⟩ | both
    · cases ran.symm.trans failed
    · exact both
  · obtain ⟨n,-,link,-,-,failed⟩ := fromBlocked.2.2 (by decide +kernel) g ran
    exact ⟨link,failed⟩

-- The same model under four sets of names. In the second the link of a step is called like the step before,
-- in the third a name is taken even when it is numbered, and in the fourth a value that comes later has the
-- name of the link.
theorem titled_differ : (∀ a b c d a' b' c' d', (titled a b c d).Renamed (titled a' b' c' d')) ∧
    (∃ g, (titled "first" "most" "last" "turn").toGraph .builtin 0 = .ok g ∧
      ∃ g', (titled "first" "least" "last" "turn").toGraph .builtin 0 = .ok g' ∧ ¬ g.Relabelled g') ∧
    (∃ e, (titled "most/1" "most" "last" "turn").toGraph .builtin 0 = .error e) ∧
    ∃ e, (titled "most_2" "most" "most" "turn").toGraph .builtin 0 = .error e := by
  refine ⟨titled_renamed,?_,error_of_isNone (by decide +kernel),error_of_isNone (by decide +kernel)⟩
  obtain ⟨g,ran⟩ : ∃ g, (titled "first" "most" "last" "turn").toGraph .builtin 0 = .ok g :=
    ok_of_isSome (by decide +kernel)
  obtain ⟨g',ran'⟩ : ∃ g, (titled "first" "least" "last" "turn").toGraph .builtin 0 = .ok g :=
    ok_of_isSome (by decide +kernel)
  have other : ((titled "first" "most" "last" "turn").toGraph .builtin 0).toOption.map (·.nodes.map (·.inputs)) ≠
      ((titled "first" "least" "last" "turn").toGraph .builtin 0).toOption.map (·.nodes.map (·.inputs)) := by
    decide +kernel
  rw [ran,ran'] at other
  refine ⟨g,ran,g',ran',fun same => other (congrArg some ?_)⟩
  exact forall₂_map same.nodes fun _ _ like => like.inputs

end Model
end TensorGraph
