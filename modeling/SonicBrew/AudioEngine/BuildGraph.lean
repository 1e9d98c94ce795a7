import SonicBrew.Topology

/-!
# Building a graph from a topology

A topology says which nodes there are and how they are linked, but not what they compute; a
factory supplies the nodes, and `build_graph` (`SonicBrew.buildGraph`) puts them into a fresh
graph, one after the other, links them and compiles the result. It stops at the first thing that
goes wrong: a node the factory does not know, a link one of whose ends is not a node of the
snapshot, a link or a graph that the graph library refuses.

The graph library is not part of the server, so its operations are a parameter
(`SonicBrew.GraphOps`). What is relied on is that they keep track of the nodes
(`SonicBrew.LawfulGraphOps`); which links and which graphs are refused is left open.

A factory may *do* something when it is asked for a node, so it is a function on a state. What it
has done stays done when the build fails later on: `SonicBrew.buildGraph` returns the state along
with the error. The single steps of a build, on a `SonicBrew.Building`, are definitions of their
own, since they are what other threads run in between of.
-/

namespace SonicBrew

/-- A node as a factory hands it over. Only sinks are flushed after a cycle. -/
inductive BuiltNode (ν : Type) where
  | plain (node : ν)
  | sink (node : ν)
  deriving DecidableEq, Repr

/-- The same node, seen differently. -/
def BuiltNode.map {ν μ : Type} (f : ν → μ) : BuiltNode ν → BuiltNode μ
  | .plain node => .plain (f node)
  | .sink node => .sink (f node)

/-- Block size, sample rate and channel count, for `compile`. -/
structure GraphConfig where
  numFrames : ℕ
  sampleRate : UInt32
  channels : UInt16
  deriving DecidableEq, Repr

/-- Why there is no graph. -/
inductive EngineError where
  | build (message : String)
  deriving DecidableEq, Repr

/-- **The graph library**, as far as it is used. A refusal is the text of its error. -/
class GraphOps (G : Type) (ν : outParam Type) where
  /-- The graph without nodes. -/
  new : G
  /-- Register a plain node; the id is the graph's own. -/
  addNode : G → ν → G × NodeId
  /-- Register a node that is flushed. -/
  addSink : G → ν → G × NodeId
  /-- Link an output port to an input port. -/
  link : G → NodeId × PortIdx → NodeId × PortIdx → Except String G
  /-- Make the graph ready to run. -/
  compile : G → GraphConfig → Except String G
  /-- The nodes that have been registered, in order. -/
  slots : G → List (BuiltNode ν)

open GraphOps in
/-- **What is relied on of the graph library**: that it keeps the nodes it is given. -/
class LawfulGraphOps (G ν : Type) [GraphOps G ν] : Prop where
  slots_new : slots (new : G) = []
  slots_addNode (g : G) (n : ν) : slots (addNode g n).1 = slots g ++ [.plain n]
  slots_addSink (g : G) (n : ν) : slots (addSink g n).1 = slots g ++ [.sink n]
  slots_link {g g' : G} {src dst : NodeId × PortIdx} (h : link g src dst = .ok g') :
    slots g' = slots g
  slots_compile {g g' : G} {config : GraphConfig} (h : compile g config = .ok g') :
    slots g' = slots g

export LawfulGraphOps (slots_new slots_addNode slots_addSink slots_link slots_compile)

/-- A factory, which may change a state as it builds: the node for an id, if the id is known. -/
abbrev NodeFactory (σ ν : Type) : Type := NodeId → σ → Option (BuiltNode ν) × σ

/-- A graph under construction, and the ids that its nodes have in the graph. -/
structure Building (G : Type) where
  graph : G
  idMap : NodeId → Option NodeId

namespace Building

variable {G ν : Type} [GraphOps G ν]

/-- Nothing has been built. -/
def new : Building G := ⟨GraphOps.new, fun _ => none⟩

/-- The factory's answer for a node, put into the graph. -/
def addBuilt (b : Building G) (id : NodeId) : Option (BuiltNode ν) → Except EngineError (Building G)
  | none => .error (.build s!"factory returned None for node {id}")
  | some (.plain node) =>
      let (graph, newId) := GraphOps.addNode b.graph node
      .ok ⟨graph, fun i => if i = id then some newId else b.idMap i⟩
  | some (.sink node) =>
      let (graph, newId) := GraphOps.addSink b.graph node
      .ok ⟨graph, fun i => if i = id then some newId else b.idMap i⟩

/-- One link, between the nodes that stand for its ends. -/
def linkEdge (b : Building G) : SnapshotEdge → Except EngineError (Building G)
  | ⟨(src, output), (dst, input)⟩ =>
      match b.idMap src with
      | none => .error (.build s!"edge from unknown node {src}")
      | some fromNode =>
          match b.idMap dst with
          | none => .error (.build s!"edge to unknown node {dst}")
          | some toNode =>
              match GraphOps.link b.graph (fromNode, output) (toNode, input) with
              | .error message => .error (.build message)
              | .ok graph => .ok { b with graph }

/-- The finished graph. -/
def compile (b : Building G) (config : GraphConfig) : Except EngineError G :=
  match GraphOps.compile b.graph config with
  | .error message => .error (.build message)
  | .ok graph => .ok graph

/-- The links, one after the other. -/
def linkEdges (b : Building G) : List SnapshotEdge → Except EngineError (Building G)
  | [] => .ok b
  | e :: es =>
      match b.linkEdge e with
      | .error err => .error err
      | .ok b => b.linkEdges es

/-- The nodes, one after the other. -/
def buildNodes {σ : Type} (factory : NodeFactory σ ν) (b : Building G) (s : σ) :
    List NodeSnapshot → Except EngineError (Building G) × σ
  | [] => (.ok b, s)
  | n :: ns =>
      match b.addBuilt n.id (factory n.id s).1 with
      | .error err => (.error err, (factory n.id s).2)
      | .ok b => b.buildNodes factory (factory n.id s).2 ns

end Building

/-- `build_graph`: the nodes, the links, and then `compile`. -/
def buildGraph {G ν σ : Type} [GraphOps G ν] (snapshot : TopologySnapshot) (config : GraphConfig)
    (factory : NodeFactory σ ν) (s : σ) : Except EngineError G × σ :=
  match Building.new.buildNodes factory s snapshot.nodes with
  | (.error err, s) => (.error err, s)
  | (.ok b, s) =>
      match b.linkEdges snapshot.edges with
      | .error err => (.error err, s)
      | .ok b => (b.compile config, s)

/-! ### What a step does to the nodes -/

namespace Building

variable {G ν : Type} [GraphOps G ν]

/-- A node the factory knows is never refused. -/
theorem addBuilt_eq_error {b : Building G} {id : NodeId} {built : Option (BuiltNode ν)}
    {err : EngineError} (h : b.addBuilt id built = .error err) : built = none := by
  rcases built with _ | n | n
  · rfl
  · simp [addBuilt] at h
  · simp [addBuilt] at h

variable [LawfulGraphOps G ν]

/-- **A node that is built is appended.** -/
theorem addBuilt_eq_ok {b b' : Building G} {id : NodeId} {built : Option (BuiltNode ν)}
    (h : b.addBuilt id built = .ok b') :
    ∃ n, built = some n ∧ GraphOps.slots b'.graph = GraphOps.slots b.graph ++ [n] := by
  rcases built with _ | n | n
  · simp [addBuilt] at h
  · obtain rfl := Except.ok.inj h
    exact ⟨_, rfl, slots_addNode b.graph n⟩
  · obtain rfl := Except.ok.inj h
    exact ⟨_, rfl, slots_addSink b.graph n⟩

theorem slots_linkEdge {b b' : Building G} {e : SnapshotEdge} (h : b.linkEdge e = .ok b') :
    GraphOps.slots b'.graph = GraphOps.slots b.graph := by
  rw [linkEdge] at h
  split at h
  · simp at h
  · split at h
    · simp at h
    · split at h
      · simp at h
      · rename_i hlink
        obtain rfl := Except.ok.inj h
        exact slots_link hlink

theorem slots_compile_building {b : Building G} {config : GraphConfig} {g : G}
    (h : b.compile config = .ok g) : GraphOps.slots g = GraphOps.slots b.graph := by
  rw [compile] at h
  split at h
  · simp at h
  · rename_i hcompile
    obtain rfl := Except.ok.inj h
    exact slots_compile hcompile

end Building

/-! ### Counting -/

/-- **The counts of the graph library**: `node_count` is of the nodes that have been registered, and
`link_count` goes up with every link that is made. -/
class CountedGraph (G : Type) {ν : outParam Type} [GraphOps G ν] where
  nodeCount : G → ℕ
  linkCount : G → ℕ
  nodeCount_eq (g : G) : nodeCount g = (GraphOps.slots g).length
  linkCount_new : linkCount (GraphOps.new : G) = 0
  linkCount_addNode (g : G) (n : ν) : linkCount (GraphOps.addNode g n).1 = linkCount g
  linkCount_addSink (g : G) (n : ν) : linkCount (GraphOps.addSink g n).1 = linkCount g
  linkCount_link {g g' : G} {src dst : NodeId × PortIdx} (h : GraphOps.link g src dst = .ok g') :
    linkCount g' = linkCount g + 1
  linkCount_compile {g g' : G} {config : GraphConfig} (h : GraphOps.compile g config = .ok g') :
    linkCount g' = linkCount g

section Counting

variable {G ν : Type} [GraphOps G ν] [LawfulGraphOps G ν] [CountedGraph G]

open CountedGraph

namespace Building

omit [LawfulGraphOps G ν] in
/-- A node is no link. -/
theorem linkCount_addBuilt {b b' : Building G} {id : NodeId} {built : Option (BuiltNode ν)}
    (h : b.addBuilt id built = .ok b') : linkCount b'.graph = linkCount b.graph := by
  rcases built with _ | node | node
  · cases h
  · obtain rfl := Except.ok.inj h
    exact linkCount_addNode b.graph node
  · obtain rfl := Except.ok.inj h
    exact linkCount_addSink b.graph node

/-- A build of the nodes adds one for each, and no link. -/
theorem counts_buildNodes {σ : Type} {factory : NodeFactory σ ν} {b b' : Building G} {s s' : σ}
    {ns : List NodeSnapshot} (h : b.buildNodes factory s ns = (.ok b', s')) :
    (GraphOps.slots b'.graph).length = (GraphOps.slots b.graph).length + ns.length ∧
      linkCount b'.graph = linkCount b.graph := by
  induction ns generalizing b s with
  | nil =>
    obtain ⟨hb, -⟩ := Prod.mk.inj h
    obtain rfl := Except.ok.inj hb
    exact ⟨rfl, rfl⟩
  | cons n ns ih =>
    rw [buildNodes] at h
    split at h
    · cases h
    · rename_i b₁ hadd
      obtain ⟨hslots, hlinks⟩ := ih h
      obtain ⟨built, -, hb₁⟩ := addBuilt_eq_ok hadd
      rw [hb₁, List.length_append] at hslots
      refine ⟨?_, hlinks.trans (linkCount_addBuilt hadd)⟩
      rw [hslots, List.length_singleton, List.length_cons]
      omega

omit [LawfulGraphOps G ν] in
/-- A link counts for one. -/
theorem linkCount_linkEdge {b b' : Building G} {e : SnapshotEdge} (h : b.linkEdge e = .ok b') :
    linkCount b'.graph = linkCount b.graph + 1 := by
  rw [linkEdge] at h
  split at h
  · cases h
  · split at h
    · cases h
    · split at h
      · cases h
      · rename_i hlink
        obtain rfl := Except.ok.inj h
        exact linkCount_link hlink

theorem counts_linkEdges {b b' : Building G} {es : List SnapshotEdge}
    (h : b.linkEdges es = .ok b') :
    GraphOps.slots b'.graph = GraphOps.slots b.graph ∧
      linkCount b'.graph = linkCount b.graph + es.length := by
  induction es generalizing b with
  | nil =>
    obtain rfl := Except.ok.inj h
    exact ⟨rfl, rfl⟩
  | cons e es ih =>
    rw [linkEdges] at h
    split at h
    · cases h
    · rename_i b₁ hlink
      obtain ⟨hslots, hlinks⟩ := ih h
      refine ⟨hslots.trans (slots_linkEdge hlink), ?_⟩
      rw [hlinks, linkCount_linkEdge hlink, List.length_cons]
      omega

end Building

/-- **A built graph has as many nodes and links as its topology.** -/
theorem counts_buildGraph {σ : Type} {t : TopologySnapshot} {config : GraphConfig}
    {factory : NodeFactory σ ν} {s : σ} {g : G} (h : (buildGraph t config factory s).1 = .ok g) :
    nodeCount g = t.nodes.length ∧ linkCount g = t.edges.length := by
  rw [buildGraph] at h
  split at h
  · cases h
  · rename_i b s' hnodes
    split at h
    · cases h
    · rename_i b' hlinks
      change b'.compile config = .ok g at h
      obtain ⟨hslots, hcount⟩ := Building.counts_buildNodes hnodes
      obtain ⟨hslots', hcount'⟩ := Building.counts_linkEdges hlinks
      have hcompile : linkCount g = linkCount b'.graph := by
        rw [Building.compile] at h
        split at h
        · cases h
        · rename_i hc
          obtain rfl := Except.ok.inj h
          exact linkCount_compile hc
      constructor
      · rw [nodeCount_eq, Building.slots_compile_building h, hslots', hslots]
        change (GraphOps.slots (GraphOps.new : G)).length + _ = _
        rw [slots_new, List.length_nil, Nat.zero_add]
      · rw [hcompile, hcount', hcount]
        change linkCount (GraphOps.new : G) + _ = _
        rw [linkCount_new, Nat.zero_add]

end Counting

/-! ### A graph library -/

/-- A graph that keeps what it is given and refuses nothing. -/
structure RecordedGraph (ν : Type) where
  slots : List (BuiltNode ν)
  links : List ((NodeId × PortIdx) × (NodeId × PortIdx))
  deriving DecidableEq, Repr

namespace RecordedGraph

variable {ν : Type}

instance : GraphOps (RecordedGraph ν) ν where
  new := ⟨[], []⟩
  addNode g n := (⟨g.slots ++ [.plain n], g.links⟩, g.slots.length)
  addSink g n := (⟨g.slots ++ [.sink n], g.links⟩, g.slots.length)
  link g src dst := .ok ⟨g.slots, g.links ++ [(src, dst)]⟩
  compile g _ := .ok g
  slots := RecordedGraph.slots

/-- The laws have a model. -/
instance : LawfulGraphOps (RecordedGraph ν) ν where
  slots_new := rfl
  slots_addNode _ _ := rfl
  slots_addSink _ _ := rfl
  slots_link h := by
    obtain rfl := Except.ok.inj h
    rfl
  slots_compile h := by
    obtain rfl := Except.ok.inj h
    rfl

instance : CountedGraph (RecordedGraph ν) where
  nodeCount g := g.slots.length
  linkCount g := g.links.length
  nodeCount_eq _ := rfl
  linkCount_new := rfl
  linkCount_addNode _ _ := rfl
  linkCount_addSink _ _ := rfl
  linkCount_link h := by
    obtain rfl := Except.ok.inj h
    exact List.length_append
  linkCount_compile h := by
    obtain rfl := Except.ok.inj h
    rfl

end RecordedGraph

end SonicBrew
