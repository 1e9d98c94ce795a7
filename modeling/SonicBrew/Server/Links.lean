import SonicBrew.AudioEngine.Ports
import SonicBrew.Server.Created

/-!
# Accepted links can be built

`link_ports` checks a link against the ports that the topology has for its nodes, and these are as
many as the request for the node asked for. The ports of the node that is built are another matter:
they follow from its kind and parameters. A gain that was created with two outputs has only one, so
that a link from the second is accepted by the control surface and refused at every rebuild
(`SonicBrew.Server.linked_beyond_rendered`).

If every request asks for no more ports than the node rendered for it has
(`SonicBrew.Server.AsksWithinRendered`), all accepted links name ports that exist, and no rebuild
fails on a missing port (`SonicBrew.Server.linked_as_rendered`).
-/

namespace SonicBrew

namespace Server

open GraphController

open EngineServerFactory (renderFrom)

section Links

variable [SnapshotApply] {S F : Type} (ss : SessionStore S F)

/-- One edit of a controller, with what befalls its store call. -/
def edited (c : GraphController S) (e : Edit × F) : Option (GraphController S) :=
  some (c.exec ss e.1 e.2).2

/-- **The request for a node asks for no more ports than the node rendered for it has**; and only
nodes and links are created. -/
def AsksWithinRendered (files : Registry FileBuffer) (c : GraphController S) (e : Edit × F) :
    Prop :=
  match e.1 with
  | .createNode spec =>
      match checkKind spec with
      | .error _ => True
      | .ok kind =>
          let node := renderFrom (files (newId (c.topology ss))) kind spec.params
          spec.inputs.toNat ≤ node.inputCount ∧ spec.outputs.toNat ≤ node.outputCount
  | .link _ _ => True
  | .linkPorts _ _ _ _ => True
  | .deleteNode _ => False
  | .deleteLink _ => False

instance (files : Registry FileBuffer) (c : GraphController S) (e : Edit × F) :
    Decidable (AsksWithinRendered ss files c e) :=
  match e with
  | (.createNode spec, _) =>
      match hkind : checkKind spec with
      | .error _ => isTrue (by simp only [AsksWithinRendered, hkind])
      | .ok kind =>
          let node := renderFrom (files (newId (c.topology ss))) kind spec.params
          decidable_of_iff
            (spec.inputs.toNat ≤ node.inputCount ∧ spec.outputs.toNat ≤ node.outputCount)
            (by simp only [AsksWithinRendered, hkind, node])
  | (.link _ _, _) => isTrue trivial
  | (.linkPorts _ _ _ _, _) => isTrue trivial
  | (.deleteNode _, _) => isFalse id
  | (.deleteLink _, _) => isFalse id

omit [SnapshotApply] in
/-- What is built for an id depends on its own entries only. -/
theorem build_congr {c c' : GraphController S} {files : Registry FileBuffer} {id : NodeId}
    (hkinds : c'.kinds id = c.kinds id) (hparams : c'.params id = c.params id) {Fr : Type}
    (gw : Bridge.Gateway Fr) :
    (factoryOf c' files).build id gw = (factoryOf c files).build id gw := by
  rcases id with _ | _ | k
  · rfl
  · rfl
  · have hid : 2 ≤ k + 2 := Nat.le_add_left 2 k
    rw [EngineServerFactory.build_of_two_le _ hid, EngineServerFactory.build_of_two_le _ hid]
    simp only [EngineServerFactory.render, factoryOf, hkinds, hparams]

variable [RingPorts]

/-- What is built for a node has at least the ports that the topology says. -/
def Fits (c : GraphController S) (files : Registry FileBuffer) (n : NodeSnapshot) : Prop :=
  ∀ (Fr : Type) (gw : Bridge.Gateway Fr) (node : BuiltNode (Bridge.AudioNode DspNode)),
    ((factoryOf c files).build n.id gw).1 = some node →
      n.inputs.length ≤ (HasPorts.inputs node.node).length ∧
        n.outputs.length ≤ (HasPorts.outputs node.node).length

/-- **The invariant**: the graph is sound, the sink is there, and what is built has the ports that
the topology says. -/
structure PortInv (files : Registry FileBuffer) (c : GraphController S) : Prop where
  integrity : Integrity ss c
  sink : 1 ∈ (c.topology ss).ids
  fits : ∀ n ∈ (c.topology ss).nodes, Fits c files n

omit [SnapshotApply] in
theorem Fits.congr {c c' : GraphController S} {files : Registry FileBuffer} {n : NodeSnapshot}
    (h : Fits c files n) (hkinds : c'.kinds n.id = c.kinds n.id)
    (hparams : c'.params n.id = c.params n.id) : Fits c' files n := by
  intro Fr gw node hnode
  rw [build_congr hkinds hparams] at hnode
  exact h Fr gw node hnode

omit [SnapshotApply] in
/-- A node that is not the bridge's fits if its kind and parameters give it the ports. -/
theorem fits_of_rendered {c : GraphController S} {files : Registry FileBuffer} {n : NodeSnapshot}
    {kind : Option String} {params : Option NodeParams} (hid : 2 ≤ n.id)
    (hkind : c.kinds n.id = kind) (hparams : c.params n.id = params)
    (hinputs : n.inputs.length ≤ (renderFrom (files n.id) kind params).inputCount)
    (houtputs : n.outputs.length ≤ (renderFrom (files n.id) kind params).outputCount) :
    Fits c files n := by
  intro Fr gw node hnode
  subst hkind hparams
  rw [EngineServerFactory.build_of_two_le _ hid] at hnode
  obtain rfl := Option.some.inj hnode
  constructor
  · exact hinputs.trans (DspNode.length_inputs _).ge
  · exact houtputs.trans (DspNode.length_outputs _).ge

variable {ss} [LawfulSnapshotApply]

/-- **A new node.** -/
theorem PortInv.createNode {files : Registry FileBuffer} {c : GraphController S}
    (h : PortInv ss files c) (hmax : BelowMax ss c) {spec : NodeSpec} {fault : F}
    (hasks : AsksWithinRendered ss files c (.createNode spec, fault)) :
    PortInv ss files (c.exec ss (.createNode spec) fault).2 := by
  have hintegrity := h.integrity.exec hmax (.createNode spec) fault
  rcases createNode_cases c spec fault with ⟨e, hc⟩ | ⟨kind, s, hkind, hc, ht⟩
  · rw [exec, hc]
    exact h
  · rw [exec, hc] at hintegrity ⊢
    have hfresh := newId_notMem hmax
    have hnodes : (ss.getTopology s).nodes =
        (c.topology ss).nodes ++ [nodeOf spec (newId (c.topology ss))] := by
      rw [ht, apply_addNode, TopologySnapshot.upsertNode_of_fresh hfresh]
    refine ⟨hintegrity, ?_, fun n hn => ?_⟩
    · change 1 ∈ (ss.getTopology s).ids
      rw [ht, TopologySnapshot.mem_ids_apply_addNode]
      exact .inr h.sink
    · change n ∈ (ss.getTopology s).nodes at hn
      rw [hnodes] at hn
      rcases List.mem_append.mp hn with hn | hn
      · -- the entries of the other nodes stay
        have hne : n.id ≠ newId (c.topology ss) := fun heq =>
          hfresh (heq ▸ List.mem_map_of_mem hn)
        exact (h.fits n hn).congr (Registry.insertSome_of_ne _ _ hne)
          (Registry.insertSome_of_ne _ _ hne)
      · obtain rfl := List.mem_singleton.mp hn
        obtain ⟨hk, hp⟩ := entries_record (s := s) h.integrity.keysWithin hfresh spec.label kind
          spec.params
        simp only [AsksWithinRendered, hkind] at hasks
        have hid : 2 ≤ (nodeOf spec (newId (c.topology ss))).id :=
          CreateRace.two_le_newId ⟨1, h.sink, Nat.le_refl 1⟩
        refine fits_of_rendered hid hk hp ?_ ?_
        · exact (length_buildPorts spec.inputs .input).trans_le hasks.1
        · exact (length_buildPorts spec.outputs .output).trans_le hasks.2

/-- **A new link.** -/
theorem PortInv.linkPorts {files : Registry FileBuffer} {c : GraphController S}
    (h : PortInv ss files c) (hmax : BelowMax ss c) (src : NodeId) (srcPort : UInt16) (dst : NodeId)
    (dstPort : UInt16) (fault : F) :
    PortInv ss files (c.exec ss (.linkPorts src srcPort dst dstPort) fault).2 := by
  have hintegrity := h.integrity.exec hmax (.linkPorts src srcPort dst dstPort) fault
  rcases linkPorts_cases c src srcPort dst dstPort fault with ⟨e, hl⟩ | ⟨s, -, hl, ht⟩
  · rw [exec, hl]
    exact h
  · rw [exec, hl] at hintegrity ⊢
    rw [apply_addLink] at ht
    refine ⟨hintegrity, ?_, fun n hn => ?_⟩
    · change 1 ∈ (ss.getTopology s).ids
      rw [ht]
      exact h.sink
    · change n ∈ (ss.getTopology s).nodes at hn
      rw [ht] at hn
      exact (h.fits n hn).congr rfl rfl

/-- **One edit keeps the invariant.** -/
theorem PortInv.exec {files : Registry FileBuffer} {c : GraphController S} (h : PortInv ss files c)
    (hmax : BelowMax ss c) {e : Edit × F} (hasks : AsksWithinRendered ss files c e) :
    PortInv ss files (c.exec ss e.1 e.2).2 := by
  obtain ⟨edit, fault⟩ := e
  cases edit with
  | createNode spec => exact h.createNode hmax hasks
  | link src dst => exact h.linkPorts hmax src 0 dst 0 fault
  | linkPorts src srcPort dst dstPort => exact h.linkPorts hmax src srcPort dst dstPort fault
  | deleteNode | deleteLink => exact hasks.elim

omit [LawfulSnapshotApply] in
/-- The seeded topology is sound, and the two ends of the bridge have their ports. -/
theorem portInv_seeded {s : S} (hs : ss.getTopology s = seeded) (files : Registry FileBuffer) :
    PortInv ss files (new s) := by
  have ht : (new s).topology ss = seeded := hs
  have hkeys : KeysWithin ss (new s) := keysWithin_new s
  refine ⟨⟨?_, ?_, hkeys.labels, hkeys.kinds, hkeys.params, fun _ _ hq => nomatch hq⟩, ?_, ?_⟩
  · rw [ht]
    decide
  · rw [ht]
    intro e he
    obtain rfl := List.mem_singleton.mp he
    exact ⟨⟨_, rfl, Nat.zero_lt_one⟩, _, rfl, Nat.zero_lt_one⟩
  · rw [ht]
    decide
  · rw [ht]
    intro n hn Fr gw node hnode
    rcases List.mem_cons.mp hn with rfl | hn
    · obtain rfl := Option.some.inj hnode
      exact ⟨Nat.zero_le _, RingPorts.one_le_sourceOutputs _⟩
    · obtain rfl := List.mem_singleton.mp hn
      obtain rfl := Option.some.inj hnode
      exact ⟨RingPorts.one_le_sinkInputs _, Nat.zero_le _⟩

omit [LawfulSnapshotApply] in
/-- A link of a sound graph whose nodes fit names ports that exist. -/
theorem PortInv.linkRendered {files : Registry FileBuffer} {c : GraphController S}
    (h : PortInv ss files c) {e : SnapshotEdge} (he : e ∈ (c.topology ss).edges) (Fr : Type) :
    LinkRendered ((factoryOf c files).build (F := Fr)) (c.topology ss) e := by
  obtain ⟨⟨n, hn, hnport⟩, m, hm, hmport⟩ := h.integrity.edges e he
  obtain ⟨hnmem, hnid⟩ := TopologySnapshot.mem_of_node hn
  obtain ⟨hmmem, hmid⟩ := TopologySnapshot.mem_of_node hm
  refine ⟨hnid ▸ List.mem_map_of_mem hnmem, hmid ▸ List.mem_map_of_mem hmmem, ?_, ?_⟩
  · intro gw node hnode
    exact hnport.trans_le (h.fits n hnmem Fr gw node (hnid ▸ hnode)).2
  · intro gw node hnode
    exact hmport.trans_le (h.fits m hmmem Fr gw node (hmid ▸ hnode)).1

variable (ss) in
/-- **No missing port**: every link names ports that the built nodes have; and a build of the graph
fails, if it does, on ports that do not go together, or in `compile` once all nodes and links are
in. -/
def NoMissingPort (files : Registry FileBuffer) (c : GraphController S) : Prop :=
  ∀ (Fr : Type),
    (∀ e ∈ (c.topology ss).edges,
      LinkRendered ((factoryOf c files).build (F := Fr)) (c.topology ss) e) ∧
    ∀ (G : Type) [GraphOps G (Bridge.AudioNode DspNode)]
      [LawfulGraphOps G (Bridge.AudioNode DspNode)] [PortedGraph G (Bridge.AudioNode DspNode)]
      (config : GraphConfig) (gw : Bridge.Gateway Fr) (err : EngineError),
      (buildGraph (G := G) (c.topology ss) config (factoryOf c files).build gw).1 = .error err →
      (∃ e ∈ (c.topology ss).edges, ∃ o i, FactoryEnds ((factoryOf c files).build (F := Fr)) e o i ∧
        ¬PortedGraph.compatible G (Bridge.AudioNode DspNode) o i) ∨
      ∃ (b b' : Building G) (gw' : Bridge.Gateway Fr),
        Building.new.buildNodes (factoryOf c files).build gw (c.topology ss).nodes = (.ok b, gw') ∧
        b.linkEdges (c.topology ss).edges = .ok b' ∧ b'.compile config = .error err

/-- **Accepted links can be built.** From the seeded topology, in every run of `create_node` and
`link_ports` that is not astronomically long and whose requests ask for no more ports than the nodes
rendered for them have, whenever the run stops no link names a missing port. -/
theorem linked_as_rendered {s : S} (hs : ss.getTopology s = seeded) {files : Registry FileBuffer}
    {edits : List (Edit × F)} (hlength : 1 + edits.length < usizeMax)
    (hmeets : Transition.Meets (edited ss) (AsksWithinRendered ss files) (new s) edits)
    {c : GraphController S} (hrun : Transition.run (edited ss) (new s) edits = some c) :
    NoMissingPort ss files c := by
  have hle : ∀ id ∈ ((new s).topology ss).ids, id ≤ 1 := fun id hid => seeded_le id (hs ▸ hid)
  have hinv : PortInv ss files c := by
    refine invariant_belowMax id (fun c e c' hstep => ?_) (fun c e c' hinv hmax hasks hstep => ?_)
      (portInv_seeded hs files) hle hlength hmeets hrun
    · obtain rfl := Option.some.inj hstep
      exact ⟨e.1, e.2, rfl⟩
    · obtain rfl := Option.some.inj hstep
      exact hinv.exec hmax hasks
  intro Fr
  have hlinks := fun e he => hinv.linkRendered (e := e) he Fr
  refine ⟨hlinks, fun G _ _ _ config gw err herr => ?_⟩
  refine buildGraph_error hinv.integrity.nodup (fun id gw => ?_) hlinks herr
  obtain ⟨n, gw', hbuild⟩ := (factoryOf c files).exists_build id gw
  rw [hbuild]
  exact fun hnone => nomatch hnone

end Links

/-- Ring nodes with one port for the channels they are made with. -/
@[reducible] def ringPorts : RingPorts where
  sourceInputs _ := []
  sourceOutputs channels := [⟨.output, channels, .f32⟩]
  sinkInputs channels := [⟨.input, channels, .f32⟩]
  sinkOutputs _ := []
  one_le_sourceOutputs _ := Nat.le_refl 1
  one_le_sinkInputs _ := Nat.le_refl 1

/-- A gain between the two ends of the bridge. -/
def editsWithin : List (Edit × Option (RaftEngine.PersistStep × String)) :=
  [(.createNode quarterSpec, none), (.linkPorts 0 0 2 0, none), (.linkPorts 2 0 1 0, none)]

theorem linked_as_rendered_within :
    letI := SnapshotApply.documented
    letI := ringPorts
    ∃ c, Transition.run (edited engineStore) (new seededEngine) editsWithin = some c ∧
      (c.topology engineStore).edges = [⟨(0, 0), (1, 0)⟩, ⟨(0, 0), (2, 0)⟩, ⟨(2, 0), (1, 0)⟩] ∧
      NoMissingPort engineStore Registry.empty c := by
  let := SnapshotApply.documented
  have := SnapshotApply.lawful_documented
  let := ringPorts
  exact ⟨_, rfl, rfl, linked_as_rendered (s := seededEngine) rfl (by decide) (by decide)
    (show Transition.run (edited engineStore) (new seededEngine) editsWithin = some _ from rfl)⟩

/-- A gain that was asked to have two outputs, and a link from the second. -/
def editsBeyond : List (Edit × Option (RaftEngine.PersistStep × String)) :=
  [(.createNode ⟨"wide", 1, 2, some "gain", none⟩, none), (.linkPorts 2 1 1 0, none)]

/-- **A link is accepted from a port that does not exist**, and the graph cannot be built. -/
theorem linked_beyond_rendered :
    letI := SnapshotApply.documented
    letI := ringPorts
    ∃ c, Transition.run (edited engineStore) (new seededEngine) editsBeyond = some c ∧
      ⟨(2, 1), (1, 0)⟩ ∈ (c.topology engineStore).edges ∧
      (∀ node, ((factoryOf c Registry.empty).build 2 freshGateway).1 = some node →
        (HasPorts.outputs node.node).length = 1) ∧
      (buildGraph (G := CheckedGraph (Bridge.AudioNode DspNode)) (c.topology engineStore)
        graphConfig (factoryOf c Registry.empty).build freshGateway).1 =
        .error (.build "no such port") := by
  let := SnapshotApply.documented
  let := ringPorts
  refine ⟨_, rfl, ?_, fun node hnode => ?_, rfl⟩
  · decide
  · obtain rfl := Option.some.inj hnode
    rfl

end Server

end SonicBrew
