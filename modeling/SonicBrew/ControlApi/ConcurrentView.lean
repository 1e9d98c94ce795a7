import SonicBrew.ControlApi.Calls

/-!
# Reading the whole graph concurrently

`export_preset` and `GET /topology` answer with all nodes and all links, but read them in two
store calls: `list_nodes`, and then `list_links`. A node and a link to it that come in between are
half in the answer, which then has a link to a node it does not list
(`SonicBrew.Concurrent.viewed_two_states`) – and this is what the server saves and restores.

If between the two reads of a call the nodes stay the same or the links stay the same
(`SonicBrew.Concurrent.ReadsOneState`), the answer is that of one state of the store, and if the
operations keep the links valid, so is the answer (`SonicBrew.Concurrent.viewed_one_state`). All
operations may run meanwhile, imports too.
-/

namespace SonicBrew

namespace Concurrent

open GraphController

/-- Every link is between nodes of the topology. -/
def EdgesHeld (t : TopologySnapshot) : Prop := ∀ e ∈ t.edges, e.src.1 ∈ t.ids ∧ e.dst.1 ∈ t.ids

instance (t : TopologySnapshot) : Decidable (EdgesHeld t) :=
  inferInstanceAs (Decidable (∀ e ∈ t.edges, _))

/-- The ids of the nodes listed are those of the topology. -/
theorem map_id_nodeInfos {S : Type} (c : GraphController S) (t : TopologySnapshot) :
    (c.nodeInfos t).map NodeInfo.id = t.ids := by
  rw [nodeInfos, List.map_map]
  rfl

/-- A link that is listed is a link of the topology. -/
theorem exists_edge_of_mem_linkInfos {t : TopologySnapshot} {l : LinkInfo} (h : l ∈ linkInfos t) :
    ∃ e ∈ t.edges, l.src = e.src.1 ∧ l.dst = e.dst.1 := by
  obtain ⟨x, hx, rfl⟩ := List.mem_map.mp h
  exact ⟨x.1, List.fst_mem_of_mem_zipIdx hx, rfl, rfl⟩

/-- What is listed depends on the nodes only, and on the links only. -/
theorem nodeInfos_congr {S : Type} (c : GraphController S) {t t' : TopologySnapshot}
    (h : t.nodes = t'.nodes) : c.nodeInfos t = c.nodeInfos t' := by
  rw [nodeInfos, nodeInfos, h]

theorem linkInfos_congr {t t' : TopologySnapshot} (h : t.edges = t'.edges) :
    linkInfos t = linkInfos t' := by
  rw [linkInfos, linkInfos, h]

/-- The answers of a view. -/
def IsView : Value → Prop
  | .preset _ => True
  | .topology _ => True
  | _ => False

/-- The ids of the nodes in an answer. -/
def Value.nodeIds : Value → List NodeId
  | .preset q => q.nodes.map PresetNode.id
  | .topology info => info.nodes.map NodeInfo.id
  | _ => []

/-- The source and the destination of each link in an answer. -/
def Value.linkEnds : Value → List (NodeId × NodeId)
  | .preset q => q.links.map fun l => (l.src, l.dst)
  | .topology info => info.links.map fun l => (l.src, l.dst)
  | _ => []

theorem nodeIds_view (nodes : List NodeInfo) (links : List LinkInfo) (req : Request) :
    (view nodes links req).nodeIds = nodes.map NodeInfo.id := by
  cases req with
  | exportPreset => exact List.map_map
  | _ => rfl

theorem linkEnds_view (nodes : List NodeInfo) (links : List LinkInfo) (req : Request) :
    (view nodes links req).linkEnds = links.map fun l => (l.src, l.dst) := by
  cases req with
  | exportPreset => exact List.map_map
  | _ => rfl

/-- A view of a state whose links are valid has no link to a node it does not list. -/
theorem EdgesHeld.view {S : Type} {t : TopologySnapshot} (h : EdgesHeld t) (c : GraphController S)
    (req : Request) :
    ∀ x ∈ (view (c.nodeInfos t) (linkInfos t) req).linkEnds,
      x.1 ∈ (view (c.nodeInfos t) (linkInfos t) req).nodeIds ∧
        x.2 ∈ (view (c.nodeInfos t) (linkInfos t) req).nodeIds := by
  intro x hx
  rw [linkEnds_view] at hx
  obtain ⟨l, hl, rfl⟩ := List.mem_map.mp hx
  obtain ⟨e, he, hsrc, hdst⟩ := exists_edge_of_mem_linkInfos hl
  rw [nodeIds_view, map_id_nodeInfos, hsrc, hdst]
  exact h e he

/-- The first step of a view reads the topology, and has listed nothing yet. -/
theorem viewPhase_first {t : TopologySnapshot} {req : Request} {phase : Phase}
    (h : first t req = .ok phase) :
    (∀ t', phase = .nodesRead t' → t' = t) ∧ ∀ t' nodes, phase ≠ .nodesListed t' nodes := by
  rcases first_ok_cases h with ⟨e, rfl, -⟩ | rfl | ⟨todo, value, rfl, -⟩
  · exact ⟨fun t' => nofun, fun t' nodes => nofun⟩
  · exact ⟨fun t' ht' => (Phase.nodesRead.inj ht').symm, fun t' nodes => nofun⟩
  · exact ⟨fun t' => nofun, fun t' nodes => nofun⟩

/-- The calls that update the store answer with no view. -/
theorem not_isView_of_updating {req : Request} {todo : List Update} {value : Value}
    (h : PhaseOf req (.updating todo value)) : ¬ IsView value := by
  cases req with
  | createNode spec =>
    obtain ⟨kind, id, -, rfl, -⟩ := h
    exact fun hview => hview
  | deleteNode id | deleteLink id =>
    obtain ⟨rfl, -⟩ := h
    exact fun hview => hview
  | importPreset q =>
    obtain rfl : value = .unit := h
    exact fun hview => hview
  | _ => exact h.elim

/-- The topology that a view has listed the nodes of, or is about to. -/
def seen (c : Call) : Option TopologySnapshot :=
  match c.phase with
  | .nodesRead t => some t
  | .nodesListed t _ => some t
  | _ => none

theorem seen_eq_some {c : Call} {t : TopologySnapshot} (h : seen c = some t) :
    c.phase = .nodesRead t ∨ ∃ nodes, c.phase = .nodesListed t nodes := by
  obtain ⟨req, phase⟩ := c
  cases phase with
  | nodesRead t' => exact .inl (congrArg Phase.nodesRead (Option.some.inj h))
  | nodesListed t' nodes =>
    exact .inr ⟨nodes, congrArg (Phase.nodesListed · nodes) (Option.some.inj h)⟩
  | _ => cases h

section View

variable [SnapshotApply] {S F : Type} (ss : SessionStore S F)

/-- **Both reads see one state**: when a view reads the links, the nodes are the ones it has
listed, or the links are still those that went with them. -/
def ReadsOneState (p : Server S) (_ : ℕ) (c : Call) (_ : F) : Prop :=
  match c.phase with
  | .nodesListed t _ =>
      t.nodes = (p.shared.topology ss).nodes ∨ t.edges = (p.shared.topology ss).edges
  | _ => True

instance decidableReadsOneState (p : Server S) (t : ℕ) (c : Call) (fault : F) :
    Decidable (ReadsOneState ss p t c fault) :=
  match c with
  | ⟨_, .nodesListed seen _⟩ => inferInstanceAs (Decidable
      (seen.nodes = (p.shared.topology ss).nodes ∨ seen.edges = (p.shared.topology ss).edges))
  | ⟨_, .started⟩ => isTrue trivial
  | ⟨_, .updating _ _⟩ => isTrue trivial
  | ⟨_, .validated _⟩ => isTrue trivial
  | ⟨_, .appended _ _⟩ => isTrue trivial
  | ⟨_, .nodesRead _⟩ => isTrue trivial

/-- A state that the store of a run has been in: what the first store calls have made of the
topology at the start. -/
def WasStored (t₀ : TopologySnapshot) (p : Server S) (t : TopologySnapshot) : Prop :=
  ∃ ms, ms <+: p.shared.log.map Prod.snd ∧ t = t₀.applyAll ms

/-- A view that was answered shows one state of the store. -/
def ViewOk (t₀ : TopologySnapshot) (p : Server S) (d : Done) : Prop :=
  ∀ value, d.answer = .ok value → IsView value →
    ∃ (c : GraphController S) (t : TopologySnapshot), WasStored t₀ p t ∧
      value = view (c.nodeInfos t) (linkInfos t) d.request

/-- **The invariant**: the log tells what the store holds, the topologies that calls have seen were
there, and all views that were answered are of one state. -/
structure ViewInv (t₀ : TopologySnapshot) (p : Server S) : Prop where
  stored : p.shared.topology ss = t₀.applyAll (p.shared.log.map Prod.snd)
  seen : p.All fun c => ∀ t, seen c = some t → WasStored t₀ p t
  listed : p.All fun c => ∀ t nodes, c.phase = .nodesListed t nodes →
    ∃ ctrl : GraphController S, nodes = ctrl.nodeInfos t
  answers : ∀ d ∈ p.answers, ViewOk t₀ p d

variable {ss} {t₀ : TopologySnapshot}

/-- A state stays a state of the run as the run goes on. -/
theorem WasStored.mono {p p' : Server S} {t : TopologySnapshot} (h : WasStored t₀ p t)
    (hlog : p.shared.log <+: p'.shared.log) : WasStored t₀ p' t := by
  obtain ⟨ms, hms, ht⟩ := h
  exact ⟨ms, hms.trans (hlog.map Prod.snd), ht⟩

/-- The state now is one of them. -/
theorem ViewInv.wasStored {p : Server S} (h : ViewInv ss t₀ p) :
    WasStored t₀ p (p.shared.topology ss) := ⟨_, List.prefix_rfl, h.stored⟩

/-- **A step that is not the last one of a view**, whether it changes the store or not. -/
theorem ViewInv.settle {p : Server S} (h : ViewInv ss t₀ p) {t : ℕ} {s' : Shared S}
    {r : Call ⊕ Done} (hlog : p.shared.log <+: s'.log)
    (hstored : s'.topology ss = t₀.applyAll (s'.log.map Prod.snd))
    (hseen : ∀ c', r = .inl c' → ∀ t', Concurrent.seen c' = some t' → WasStored t₀ p t')
    (hlisted : ∀ c', r = .inl c' → ∀ t' nodes, c'.phase = .nodesListed t' nodes →
      ∃ ctrl : GraphController S, nodes = ctrl.nodeInfos t')
    (hanswer : ∀ d, r = .inr d → ViewOk t₀ p d) : ViewInv ss t₀ (p.settle t s' r) := by
  have hlog' : p.shared.log <+: (p.settle t s' r).shared.log := by
    rw [Pool.settle_shared]
    exact hlog
  have hviewOk : ∀ d, ViewOk t₀ p d → ViewOk t₀ (p.settle t s' r) d := by
    intro d hd value hvalue hkind
    obtain ⟨c, t', ht', heq⟩ := hd value hvalue hkind
    exact ⟨c, t', ht'.mono hlog', heq⟩
  refine ⟨?_, ?_, ?_, ?_⟩
  · rw [Pool.settle_shared]
    exact hstored
  · exact h.seen.settle (fun c' hr t' ht' => (hseen c' hr t' ht').mono hlog')
      fun u d _ _ hA t' ht' => (hA t' ht').mono hlog'
  · exact h.listed.settle hlisted fun _ _ _ _ hA => hA
  · cases r with
    | inl c' => exact fun d hd => hviewOk d (h.answers d hd)
    | inr d =>
      intro d' hd'
      rcases List.mem_append.mp hd' with hd' | hd'
      · exact hviewOk d' (h.answers d' hd')
      · rw [List.mem_singleton.mp hd']
        exact hviewOk d (hanswer d rfl)

/-- **A store call.** -/
theorem ViewInv.mutate {p : Server S} (h : ViewInv ss t₀ p) {t : ℕ} {s' : Shared S}
    {req : Request} {m : Mutation} (happ : Applied ss p.shared s' req m) {c' : Call}
    (hc' : Concurrent.seen c' = none) : ViewInv ss t₀ (p.settle t s' (.inl c')) := by
  refine h.settle ⟨[(req, m)], happ.log.symm⟩ ?_ (fun c hr t' ht' => ?_)
    (fun c hr t' nodes hph => ?_)
    fun d hd => nomatch hd
  · rw [happ.topology, happ.log, List.map_append, h.stored, TopologySnapshot.applyAll,
      TopologySnapshot.applyAll, List.foldl_append]
    rfl
  · obtain rfl := Sum.inl.inj hr
    rw [hc'] at ht'
    cases ht'
  · obtain rfl := Sum.inl.inj hr
    rw [Concurrent.seen, hph] at hc'
    cases hc'

/-- **A step that leaves the store and all views alone.** -/
theorem ViewInv.quiet {p : Server S} (h : ViewInv ss t₀ p) {t : ℕ} {s' : Shared S} {r : Call ⊕ Done}
    (htop : s'.topology ss = p.shared.topology ss) (hlog : s'.log = p.shared.log)
    (hc' : ∀ c', r = .inl c' → Concurrent.seen c' = none)
    (hd : ∀ d, r = .inr d → ∀ value, d.answer = .ok value → ¬ IsView value) :
    ViewInv ss t₀ (p.settle t s' r) := by
  refine h.settle (hlog ▸ List.prefix_rfl) (by rw [htop, hlog]; exact h.stored)
    (fun c hr t' ht' => ?_) (fun c hr t' nodes hph => ?_) fun d hr value hvalue hkind => ?_
  · rw [hc' c hr] at ht'
    cases ht'
  · have hnone := hc' c hr
    rw [Concurrent.seen, hph] at hnone
    cases hnone
  · exact absurd hkind (hd d hr value hvalue)

/-- **The second read of a view**: with the same nodes or the same links as at the first, the
answer is that of the state now, or of the state then. -/
theorem ViewInv.viewOk {p : Server S} (h : ViewInv ss t₀ p) {t : ℕ} {req : Request}
    {seen : TopologySnapshot} {nodes : List NodeInfo}
    (hc : p.calls t = some ⟨req, .nodesListed seen nodes⟩)
    (hguard : seen.nodes = (p.shared.topology ss).nodes ∨
      seen.edges = (p.shared.topology ss).edges) :
    ViewOk t₀ p ⟨req, .ok (view nodes (linkInfos (p.shared.topology ss)) req), none⟩ := by
  intro value hvalue _
  obtain rfl := Except.ok.inj hvalue
  obtain ⟨ctrl, rfl⟩ := h.listed t _ hc seen nodes rfl
  rcases hguard with hnodes | hedges
  · exact ⟨ctrl, _, h.wasStored, by rw [nodeInfos_congr ctrl hnodes]⟩
  · exact ⟨ctrl, seen, h.seen t _ hc seen rfl, by rw [linkInfos_congr hedges]⟩

/-- **One step keeps the invariant.** -/
theorem ViewInv.step {p : Server S} (h : ViewInv ss t₀ p) (htyped : Typed (fun _ => True) p) {t : ℕ}
    {c : Call} {fault : F} (hc : p.calls t = some c) (hguard : ReadsOneState ss p t c fault)
    {s' : Shared S} {r : Call ⊕ Done} (hstep : Step ss p.shared fault c s' r) :
    ViewInv ss t₀ (p.settle t s' r) := by
  have hphase := (htyped t c hc).2
  -- an answer that is an error, an id or nothing is no view
  have hquiet : ∀ d : Done, (∀ value, d.answer = .ok value → ¬ IsView value) →
      ViewInv ss t₀ (p.settle t p.shared (.inr d)) := by
    intro d hd
    refine h.quiet rfl rfl (fun c' hr => nomatch hr) fun d' hr => ?_
    obtain rfl := Sum.inr.inj hr
    exact hd
  cases hstep with
  | refuse => exact hquiet _ fun value hvalue => nomatch hvalue
  | abort => exact hquiet _ fun value hvalue => nomatch hvalue
  | refuseLink => exact hquiet _ fun value hvalue => nomatch hvalue
  | lost => exact hquiet _ fun value hvalue => nomatch hvalue
  | readBack =>
    refine hquiet _ fun value hvalue => ?_
    obtain rfl := Except.ok.inj hvalue
    exact fun hview => hview
  | finish =>
    refine hquiet _ fun value hvalue => ?_
    obtain rfl := Except.ok.inj hvalue
    exact not_isView_of_updating hphase
  | begin hfirst =>
    refine h.settle List.prefix_rfl h.stored (fun c' hr t' ht' => ?_)
      (fun c' hr t' nodes hph => ?_) fun d hr => nomatch hr
    · obtain rfl := Sum.inl.inj hr
      rcases seen_eq_some ht' with hread | ⟨nodes, hlist⟩
      · rw [(viewPhase_first hfirst).1 t' hread]
        exact h.wasStored
      · exact absurd hlist ((viewPhase_first hfirst).2 t' nodes)
    · obtain rfl := Sum.inl.inj hr
      exact absurd hph ((viewPhase_first hfirst).2 t' nodes)
  | mutate happ => exact h.mutate happ rfl
  | addLink happ => exact h.mutate happ rfl
  | @record _ rec =>
    refine h.quiet (topology_record ss p.shared rec) rfl (fun c' hr => ?_) fun d hr => nomatch hr
    obtain rfl := Sum.inl.inj hr
    rfl
  | @listNodes req seen =>
    refine h.settle List.prefix_rfl h.stored (fun c' hr t' ht' => ?_)
      (fun c' hr t' nodes hph => ?_) fun d hr => nomatch hr
    · obtain rfl := Sum.inl.inj hr
      obtain rfl := Option.some.inj ht'
      exact h.seen t _ hc seen rfl
    · obtain rfl := Sum.inl.inj hr
      obtain ⟨rfl, rfl⟩ := Phase.nodesListed.inj hph
      exact ⟨p.shared.ctrl, rfl⟩
  | listLinks =>
    refine h.settle List.prefix_rfl h.stored (fun c' hr => nomatch hr) (fun c' hr => nomatch hr)
      fun d hr => ?_
    obtain rfl := Sum.inr.inj hr
    exact h.viewOk hc hguard

/-- At the start nothing is running, and the log is empty. -/
theorem viewInv_start (c : GraphController S) : ViewInv ss (c.topology ss) (start c) where
  stored := rfl
  seen := Pool.all_idle _ _
  listed := Pool.all_idle _ _
  answers := fun _ hd => nomatch hd

/-- **Concurrent views.** Whatever else runs, if no view has both the nodes and the links change
between its two reads, then whenever the run stops every answer of `export_preset` and of
`GET /topology` is that of one state of the store; and if the store has valid links in all its
states, no answer has a link to a node that it does not list. -/
theorem viewed_one_state {c : GraphController S} {as : List (Action F)}
    (hmeets : Transition.Meets (Pool.step enter (next ss))
      (Pool.Guarded (fun _ => True) (ReadsOneState ss)) (start c) as)
    {p : Server S} (hrun : run ss (start c) as = some p) {d : Done} (hd : d ∈ p.answers)
    {value : Value} (hvalue : d.answer = .ok value) (hview : IsView value) :
    (∃ (c' : GraphController S) (t : TopologySnapshot), WasStored (c.topology ss) p t ∧
      value = view (c'.nodeInfos t) (linkInfos t) d.request) ∧
    ((∀ t, WasStored (c.topology ss) p t → EdgesHeld t) →
      ∀ x ∈ value.linkEnds, x.1 ∈ value.nodeIds ∧ x.2 ∈ value.nodeIds) := by
  have hinv : ViewInv ss (c.topology ss) p := by
    refine invariant (fun p t req hp _ _ => ?_)
      (fun p t c fault s' r htyped hp hc hg hstep => hp.step htyped hc hg hstep)
      (viewInv_start c) hmeets hrun
    refine hp.quiet rfl rfl (fun c' hr => ?_) fun d hr => nomatch hr
    obtain rfl := Sum.inl.inj hr
    rfl
  obtain ⟨c', t, ht, rfl⟩ := hinv.answers d hd value hvalue hview
  exact ⟨⟨c', t, ht, rfl⟩, fun hheld => (hheld t ht).view c' d.request⟩

end View

/-- A node comes in while the graph is being exported, before the first read of the links. -/
def viewsInTurn : List (Action (Option (RaftEngine.PersistStep × String))) :=
  [.invoke 0 .exportPreset, .invoke 1 (.createNode ⟨"delay", 1, 1, none, none⟩), .advance 0 none,
    .advance 0 none, .advance 1 none, .advance 1 none, .advance 0 none]

theorem viewed_one_state_inTurn :
    letI := SnapshotApply.documented
    ∃ p q, run engineStore (start pairController) viewsInTurn = some p ∧
      p.answers = [⟨.exportPreset, .ok (.preset q), none⟩] ∧
      (∃ (c' : GraphController RaftEngine.EngineState) (t : TopologySnapshot),
        WasStored (pairController.topology engineStore) p t ∧
        Value.preset q = view (c'.nodeInfos t) (linkInfos t) .exportPreset) ∧
      ((∀ t, WasStored (pairController.topology engineStore) p t → EdgesHeld t) →
        ∀ x ∈ (Value.preset q).linkEnds,
          x.1 ∈ (Value.preset q).nodeIds ∧ x.2 ∈ (Value.preset q).nodeIds) := by
  let := SnapshotApply.documented
  refine ⟨_, _, rfl, rfl, viewed_one_state ?_
    (show run engineStore (start pairController) viewsInTurn = some _ from rfl)
    (List.mem_singleton.mpr rfl) rfl trivial⟩
  decide

/-- A node and a link to it come in between the two reads of an export. -/
def viewsAcross : List (Action (Option (RaftEngine.PersistStep × String))) :=
  [.invoke 0 .exportPreset, .invoke 1 (.createNode ⟨"delay", 1, 1, none, none⟩),
    .invoke 2 (.linkPorts 1 0 3 0), .advance 0 none, .advance 0 none, .advance 1 none,
    .advance 1 none, .advance 2 none, .advance 2 none, .advance 0 none]

/-- **The export has a link to a node that it does not list**, although every state of the store
has valid links. -/
theorem viewed_two_states :
    letI := SnapshotApply.documented
    ∃ p q, run engineStore (start pairController) viewsAcross = some p ∧
      (∀ t, WasStored (pairController.topology engineStore) p t → EdgesHeld t) ∧
      p.answers = [⟨.exportPreset, .ok (.preset q), none⟩] ∧
      q.nodes.map PresetNode.id = [1, 2] ∧ q.links = [⟨1, 0, 3, 0⟩] := by
  let := SnapshotApply.documented
  refine ⟨_, _, rfl, ?_, rfl, rfl, rfl⟩
  rintro t ⟨ms, hms, rfl⟩
  -- three states, one for each of the first store calls
  have hheld : ∀ k < 3, EdgesHeld ((pairController.topology engineStore).applyAll
      ([.addNode (nodeOf ⟨"delay", 1, 1, none, none⟩ 3), .addLink ⟨(1, 0), (3, 0)⟩].take k)) := by
    decide
  rw [List.prefix_iff_eq_take.mp hms]
  exact hheld ms.length (Nat.lt_succ_of_le hms.length_le)

end Concurrent

end SonicBrew
