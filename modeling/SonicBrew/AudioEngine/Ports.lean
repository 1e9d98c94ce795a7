import SonicBrew.AudioEngine.Bridge
import SonicBrew.AudioEngine.Nodes

/-!
# Links between ports

The graph library links an output port of one node to an input port of another, and refuses the
link if one of the ports is not there or if the two do not go together
(`SonicBrew.PortedGraph`). Of a build this means: if every link of the topology names ports
that the built nodes have, then no link is refused for a missing port – what can still go wrong is
two ports that do not go together, or `compile` (`SonicBrew.buildGraph_error`).

The argument follows the ids. A build gives every node a new id, the position of the node in the
graph; a node of the topology is *placed* if the position recorded for it holds the node that the
factory made for it (`SonicBrew.Building.Placed`), and this stays so as further nodes and the links
are added.
-/

namespace SonicBrew

/-- The ports of a node. -/
class HasPorts (ν : Type) where
  inputs : ν → List PortMeta
  outputs : ν → List PortMeta

instance : HasPorts DspNode := ⟨DspNode.inputs, DspNode.outputs⟩

/-- The node that was built. -/
def BuiltNode.node {ν : Type} : BuiltNode ν → ν
  | .plain node => node
  | .sink node => node

/-- **The ring nodes of the graph library**, as far as they are used: a source has an output, a
sink has an input. -/
class RingPorts where
  sourceInputs : UInt16 → List PortMeta
  sourceOutputs : UInt16 → List PortMeta
  sinkInputs : UInt16 → List PortMeta
  sinkOutputs : UInt16 → List PortMeta
  one_le_sourceOutputs : ∀ channels, 1 ≤ (sourceOutputs channels).length
  one_le_sinkInputs : ∀ channels, 1 ≤ (sinkInputs channels).length

instance [RingPorts] {ν : Type} [HasPorts ν] : HasPorts (Bridge.AudioNode ν) where
  inputs
    | .ringSource _ channels _ _ => RingPorts.sourceInputs channels
    | .ringSink _ channels _ _ => RingPorts.sinkInputs channels
    | .other node => HasPorts.inputs node
  outputs
    | .ringSource _ channels _ _ => RingPorts.sourceOutputs channels
    | .ringSink _ channels _ _ => RingPorts.sinkOutputs channels
    | .other node => HasPorts.outputs node

section Ported

variable {G ν : Type} [GraphOps G ν] [HasPorts ν]

/-- The two ports that a link of a graph would join. -/
def Joins (g : G) (src dst : NodeId × PortIdx) (o i : PortMeta) : Prop :=
  (∃ n : BuiltNode ν, (GraphOps.slots g)[src.1]? = some n ∧
      (HasPorts.outputs n.node)[src.2]? = some o) ∧
    ∃ n : BuiltNode ν, (GraphOps.slots g)[dst.1]? = some n ∧
      (HasPorts.inputs n.node)[dst.2]? = some i

variable (G ν) in
/-- **What is relied on of the graph library's links**: a node's id is its position, and a link is
refused exactly if a port is missing or the two are not compatible. -/
class PortedGraph where
  compatible : PortMeta → PortMeta → Prop
  addNode_id (g : G) (n : ν) : (GraphOps.addNode g n).2 = (GraphOps.slots g).length
  addSink_id (g : G) (n : ν) : (GraphOps.addSink g n).2 = (GraphOps.slots g).length
  link_ok_iff (g : G) (src dst : NodeId × PortIdx) :
    (∃ g', GraphOps.link g src dst = .ok g') ↔ ∃ o i, Joins g src dst o i ∧ compatible o i

end Ported

namespace Building

variable {G ν : Type} [GraphOps G ν] [LawfulGraphOps G ν] [HasPorts ν] [PortedGraph G ν]

/-- The position recorded for an id holds this node. -/
def Placed (b : Building G) (id : NodeId) (n : BuiltNode ν) : Prop :=
  ∃ k, b.idMap id = some k ∧ (GraphOps.slots b.graph)[k]? = some n

/-- What adding a node does, in full. -/
theorem addBuilt_eq {b b' : Building G} {id : NodeId} {built : Option (BuiltNode ν)}
    (h : b.addBuilt id built = .ok b') :
    ∃ n, built = some n ∧ GraphOps.slots b'.graph = GraphOps.slots b.graph ++ [n] ∧
      b'.idMap id = some (GraphOps.slots b.graph).length ∧
        ∀ i, i ≠ id → b'.idMap i = b.idMap i := by
  rcases built with _ | n | n
  · cases h
  · obtain rfl := Except.ok.inj h
    refine ⟨_, rfl, slots_addNode b.graph n, ?_, fun i hi => if_neg hi⟩
    rw [← PortedGraph.addNode_id b.graph n]
    exact if_pos rfl
  · obtain rfl := Except.ok.inj h
    refine ⟨_, rfl, slots_addSink b.graph n, ?_, fun i hi => if_neg hi⟩
    rw [← PortedGraph.addSink_id b.graph n]
    exact if_pos rfl

/-- A node that is added is placed. -/
theorem placed_addBuilt_self {b b' : Building G} {id : NodeId} {built : Option (BuiltNode ν)}
    (h : b.addBuilt id built = .ok b') : ∃ n, built = some n ∧ b'.Placed id n := by
  obtain ⟨n, hn, hslots, hmap, -⟩ := addBuilt_eq h
  refine ⟨n, hn, _, hmap, ?_⟩
  rw [hslots]
  exact List.getElem?_concat_length

/-- And the others stay where they are. -/
theorem Placed.addBuilt {b b' : Building G} {id id' : NodeId} {n : BuiltNode ν}
    (hplaced : b.Placed id' n) (hne : id' ≠ id) {built : Option (BuiltNode ν)}
    (h : b.addBuilt id built = .ok b') : b'.Placed id' n := by
  obtain ⟨k, hk, hget⟩ := hplaced
  obtain ⟨n', -, hslots, -, hmap⟩ := addBuilt_eq h
  refine ⟨k, (hmap id' hne).trans hk, ?_⟩
  obtain ⟨hlt, -⟩ := List.getElem?_eq_some_iff.mp hget
  rw [hslots, List.getElem?_append_left hlt]
  exact hget

/-- **Nodes with other ids do not move a node.** -/
theorem Placed.buildNodes {σ : Type} {factory : NodeFactory σ ν} {b b' : Building G} {s s' : σ}
    {ns : List NodeSnapshot} (h : b.buildNodes factory s ns = (.ok b', s')) {id : NodeId}
    {n : BuiltNode ν} (hplaced : b.Placed id n) (hid : id ∉ ns.map NodeSnapshot.id) :
    b'.Placed id n := by
  induction ns generalizing b s with
  | nil =>
    obtain ⟨hb, -⟩ := Prod.mk.inj h
    obtain rfl := Except.ok.inj hb
    exact hplaced
  | cons m ns ih =>
    obtain ⟨hne, hid⟩ := not_or.mp (mt List.mem_cons.mpr hid)
    rw [Building.buildNodes] at h
    split at h
    · cases h
    · rename_i hadd
      exact ih h (hplaced.addBuilt hne hadd) hid

/-- **Every node is placed**, and is what the factory made at some point of the build. -/
theorem placed_of_buildNodes {σ : Type} {factory : NodeFactory σ ν} {b b' : Building G} {s s' : σ}
    {ns : List NodeSnapshot} (hnodup : (ns.map NodeSnapshot.id).Nodup)
    (h : b.buildNodes factory s ns = (.ok b', s')) :
    ∀ id ∈ ns.map NodeSnapshot.id, ∃ n s₀, (factory id s₀).1 = some n ∧ b'.Placed id n := by
  induction ns generalizing b s with
  | nil => exact fun id hid => absurd hid List.not_mem_nil
  | cons m ns ih =>
    obtain ⟨hm, hnodup⟩ := List.nodup_cons.mp hnodup
    rw [Building.buildNodes] at h
    split at h
    · cases h
    · rename_i hadd
      intro id hid
      rcases List.mem_cons.mp hid with rfl | hid
      · obtain ⟨n, hn, hplaced⟩ := placed_addBuilt_self hadd
        exact ⟨n, s, hn, hplaced.buildNodes h hm⟩
      · exact ih hnodup h id hid

omit [HasPorts ν] [PortedGraph G ν] in
/-- A link that is made moves no node. -/
theorem Placed.linkEdge {b b' : Building G} {id : NodeId} {n : BuiltNode ν}
    (hplaced : b.Placed id n) {e : SnapshotEdge} (h : b.linkEdge e = .ok b') : b'.Placed id n := by
  have hslots := slots_linkEdge h
  have hmap : b'.idMap = b.idMap := by
    rw [Building.linkEdge] at h
    split at h
    · cases h
    · split at h
      · cases h
      · split at h
        · cases h
        · obtain rfl := Except.ok.inj h
          rfl
  rw [Placed, hmap, hslots]
  exact hplaced

/-- The ports that a link joins, at the nodes that stand for its ends. -/
structure Ends (b : Building G) (e : SnapshotEdge) (o i : PortMeta) : Prop where
  src : ∃ n : BuiltNode ν, b.Placed e.src.1 n ∧ (HasPorts.outputs n.node)[e.src.2]? = some o
  dst : ∃ n : BuiltNode ν, b.Placed e.dst.1 n ∧ (HasPorts.inputs n.node)[e.dst.2]? = some i

omit [LawfulGraphOps G ν] in
/-- **A link both of whose ports are there is refused only if they do not go together.** -/
theorem not_compatible_of_linkEdge {b : Building G} {e : SnapshotEdge} {o i : PortMeta}
    (hends : b.Ends e o i) {err : EngineError} (h : b.linkEdge e = .error err) :
    ¬PortedGraph.compatible G ν o i := by
  intro hcompat
  obtain ⟨⟨n, ⟨k, hk, hn⟩, ho⟩, m, ⟨l, hl, hm⟩, hi⟩ := hends
  obtain ⟨⟨src, output⟩, dst, input⟩ := e
  obtain ⟨g', hg'⟩ := (PortedGraph.link_ok_iff (ν := ν) b.graph (k, output) (l, input)).mpr
    ⟨o, i, ⟨⟨n, hn, ho⟩, m, hm, hi⟩, hcompat⟩
  rw [Building.linkEdge, hk, hl] at h
  simp only [hg'] at h
  cases h

/-- **All links**: the first that is refused joins ports that do not go together. `Q` is anything
that is known of the ports of the links. -/
theorem exists_not_compatible_of_linkEdges {Q : SnapshotEdge → PortMeta → PortMeta → Prop}
    {b : Building G} {es : List SnapshotEdge} (hends : ∀ e ∈ es, ∃ o i, Q e o i ∧ b.Ends e o i)
    {err : EngineError} (h : b.linkEdges es = .error err) :
    ∃ e ∈ es, ∃ o i, Q e o i ∧ ¬PortedGraph.compatible G ν o i := by
  induction es generalizing b with
  | nil => cases h
  | cons e es ih =>
    rw [Building.linkEdges] at h
    split at h
    · rename_i hlink
      obtain ⟨o, i, hq, hoi⟩ := hends e List.mem_cons_self
      exact ⟨e, List.mem_cons_self, o, i, hq, not_compatible_of_linkEdge hoi hlink⟩
    · rename_i b' hlink
      have hends' : ∀ e' ∈ es, ∃ o i, Q e' o i ∧ b'.Ends e' o i := by
        intro e' he'
        obtain ⟨o, i, hq, ⟨n, hn, ho⟩, m, hm, hi⟩ := hends e' (List.mem_cons_of_mem e he')
        exact ⟨o, i, hq, ⟨n, hn.linkEdge hlink, ho⟩, m, hm.linkEdge hlink, hi⟩
      obtain ⟨e', he', hres⟩ := ih hends' h
      exact ⟨e', List.mem_cons_of_mem e he', hres⟩

omit [LawfulGraphOps G ν] [HasPorts ν] [PortedGraph G ν] in
/-- A factory that answers for every id gets all nodes built. -/
theorem exists_buildNodes {σ : Type} {factory : NodeFactory σ ν}
    (htotal : ∀ id s, (factory id s).1 ≠ none) (b : Building G) (s : σ) (ns : List NodeSnapshot) :
    ∃ b' s', b.buildNodes factory s ns = (.ok b', s') := by
  induction ns generalizing b s with
  | nil => exact ⟨b, s, rfl⟩
  | cons n ns ih =>
    rw [Building.buildNodes]
    split
    · rename_i hadd
      exact absurd (addBuilt_eq_error hadd) (htotal n.id s)
    · exact ih _ _

end Building

/-- **The ports that a factory gives a link**: the node it makes for the source has the one, the
node it makes for the destination the other. -/
def FactoryEnds {ν σ : Type} [HasPorts ν] (factory : NodeFactory σ ν) (e : SnapshotEdge)
    (o i : PortMeta) : Prop :=
  (∃ s n, (factory e.src.1 s).1 = some n ∧ (HasPorts.outputs n.node)[e.src.2]? = some o) ∧
    ∃ s n, (factory e.dst.1 s).1 = some n ∧ (HasPorts.inputs n.node)[e.dst.2]? = some i

/-- **A link names ports that exist**: both ends are nodes of the topology, and whatever the factory
makes for them has the ports. -/
structure LinkRendered {ν σ : Type} [HasPorts ν] (factory : NodeFactory σ ν)
    (t : TopologySnapshot) (e : SnapshotEdge) : Prop where
  src_mem : e.src.1 ∈ t.ids
  dst_mem : e.dst.1 ∈ t.ids
  src_port : ∀ s n, (factory e.src.1 s).1 = some n → e.src.2 < (HasPorts.outputs n.node).length
  dst_port : ∀ s n, (factory e.dst.1 s).1 = some n → e.dst.2 < (HasPorts.inputs n.node).length

/-- **No build fails on a missing port** if every link names ports that exist: it fails on a link
between ports that do not go together, or all nodes and links are in and `compile` fails. -/
theorem buildGraph_error {G ν σ : Type} [GraphOps G ν] [LawfulGraphOps G ν] [HasPorts ν]
    [PortedGraph G ν] {t : TopologySnapshot} {config : GraphConfig} {factory : NodeFactory σ ν}
    {s : σ} (hnodup : t.ids.Nodup) (htotal : ∀ id s, (factory id s).1 ≠ none)
    (hlinks : ∀ e ∈ t.edges, LinkRendered factory t e) {err : EngineError}
    (h : (buildGraph (G := G) t config factory s).1 = .error err) :
    (∃ e ∈ t.edges, ∃ o i, FactoryEnds factory e o i ∧ ¬PortedGraph.compatible G ν o i) ∨
      ∃ (b b' : Building G) (s' : σ), Building.new.buildNodes factory s t.nodes = (.ok b, s') ∧
        b.linkEdges t.edges = .ok b' ∧ b'.compile config = .error err := by
  obtain ⟨b, s', hnodes⟩ := Building.exists_buildNodes htotal (Building.new : Building G) s t.nodes
  have hplaced := Building.placed_of_buildNodes hnodup hnodes
  have hends : ∀ e ∈ t.edges, ∃ o i, FactoryEnds factory e o i ∧ b.Ends e o i := by
    intro e he
    have hl := hlinks e he
    obtain ⟨n, sn, hn, hpn⟩ := hplaced e.src.1 hl.src_mem
    obtain ⟨m, sm, hm, hpm⟩ := hplaced e.dst.1 hl.dst_mem
    have ho := List.getElem?_eq_getElem (hl.src_port sn n hn)
    have hi := List.getElem?_eq_getElem (hl.dst_port sm m hm)
    exact ⟨_, _, ⟨⟨sn, n, hn, ho⟩, sm, m, hm, hi⟩, ⟨n, hpn, ho⟩, m, hpm, hi⟩
  rw [buildGraph, hnodes] at h
  simp only at h
  split at h
  · rename_i hlink
    exact .inl (Building.exists_not_compatible_of_linkEdges hends hlink)
  · rename_i b' hlink
    exact .inr ⟨b, b', s', hnodes, hlink, h⟩

/-! ### A graph library that checks ports -/

/-- A graph that links ports of the same format only. -/
structure CheckedGraph (ν : Type) where
  slots : List (BuiltNode ν)
  links : List ((NodeId × PortIdx) × (NodeId × PortIdx))
  deriving DecidableEq, Repr

namespace CheckedGraph

variable {ν : Type} [HasPorts ν]

/-- The output port of a link. -/
def output (g : CheckedGraph ν) (src : NodeId × PortIdx) : Option PortMeta :=
  g.slots[src.1]?.bind fun n => (HasPorts.outputs n.node)[src.2]?

/-- The input port of a link. -/
def input (g : CheckedGraph ν) (dst : NodeId × PortIdx) : Option PortMeta :=
  g.slots[dst.1]?.bind fun n => (HasPorts.inputs n.node)[dst.2]?

instance : GraphOps (CheckedGraph ν) ν where
  new := ⟨[], []⟩
  addNode g n := (⟨g.slots ++ [.plain n], g.links⟩, g.slots.length)
  addSink g n := (⟨g.slots ++ [.sink n], g.links⟩, g.slots.length)
  link g src dst :=
    match g.output src, g.input dst with
    | some o, some i =>
        if o.channels = i.channels ∧ o.sampleFormat = i.sampleFormat then
          .ok ⟨g.slots, g.links ++ [(src, dst)]⟩
        else .error "incompatible ports"
    | _, _ => .error "no such port"
  compile g _ := .ok g
  slots := CheckedGraph.slots

/-- What a link that is made does. -/
theorem link_eq_ok {g g' : CheckedGraph ν} {src dst : NodeId × PortIdx}
    (h : GraphOps.link g src dst = .ok g') :
    g' = ⟨g.slots, g.links ++ [(src, dst)]⟩ ∧ ∃ o i, g.output src = some o ∧ g.input dst = some i ∧
      o.channels = i.channels ∧ o.sampleFormat = i.sampleFormat := by
  change (match g.output src, g.input dst with
    | some o, some i => _
    | _, _ => _) = Except.ok g' at h
  split at h
  · rename_i o i ho hi
    split at h
    · rename_i hsame
      exact ⟨(Except.ok.inj h).symm, o, i, ho, hi, hsame⟩
    · cases h
  · cases h

instance : LawfulGraphOps (CheckedGraph ν) ν where
  slots_new := rfl
  slots_addNode _ _ := rfl
  slots_addSink _ _ := rfl
  slots_link h := by
    rw [(link_eq_ok h).1]
    rfl
  slots_compile h := by
    obtain rfl := Except.ok.inj h
    rfl

instance : CountedGraph (CheckedGraph ν) where
  nodeCount g := g.slots.length
  linkCount g := g.links.length
  nodeCount_eq _ := rfl
  linkCount_new := rfl
  linkCount_addNode _ _ := rfl
  linkCount_addSink _ _ := rfl
  linkCount_link h := by
    rw [(link_eq_ok h).1]
    exact List.length_append
  linkCount_compile h := by
    obtain rfl := Except.ok.inj h
    rfl

/-- The laws have a model. -/
instance : PortedGraph (CheckedGraph ν) ν where
  compatible o i := o.channels = i.channels ∧ o.sampleFormat = i.sampleFormat
  addNode_id _ _ := rfl
  addSink_id _ _ := rfl
  link_ok_iff g src dst := by
    constructor
    · rintro ⟨g', h⟩
      obtain ⟨-, o, i, ho, hi, hsame⟩ := link_eq_ok h
      exact ⟨o, i, ⟨Option.bind_eq_some_iff.mp ho, Option.bind_eq_some_iff.mp hi⟩, hsame⟩
    · rintro ⟨o, i, ⟨hsrc, hdst⟩, hsame⟩
      have ho : g.output src = some o := Option.bind_eq_some_iff.mpr hsrc
      have hi : g.input dst = some i := Option.bind_eq_some_iff.mpr hdst
      refine ⟨⟨g.slots, g.links ++ [(src, dst)]⟩, ?_⟩
      change (match g.output src, g.input dst with
        | some o, some i => _
        | _, _ => _) = _
      rw [ho, hi]
      exact if_pos hsame

end CheckedGraph

end SonicBrew
