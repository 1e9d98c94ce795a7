import Mathlib.Logic.Function.Basic
import SonicBrew.AudioEngine.BuildGraph
import SonicBrew.Lib.Transition

/-!
# The gateway bridge

Audio enters and leaves the graph through two rings. One end of each is with the graph, in a
`RingSource` or a `RingSink`; the other is with the gateway bridge
(`SonicBrew.Bridge.GatewayBridge`), behind `push_inbound` and `pop_outbound`. A rebuild makes new
ring nodes, so it has to give the bridge the ends of new rings – and it does so when the factory
is asked for the nodes (`SonicBrew.Bridge.BridgeFactory.build`), before anybody knows whether the
build will succeed.

Four parties are at work: the store, whose topology changes; the rebuild thread, node by node and
link by link; the engine, which swaps a finished graph in between two cycles; and the gateway. The
model (`SonicBrew.Bridge.step`) has an action for each of their steps and lets them interleave in
any way. Of the engine's cycle only this is fixed, that it changes what is in the rings. A rebuild
that nobody interrupts is `rebuild_once`, on top of the sequential `build_graph`
(`SonicBrew.Bridge.exists_run_rebuildOnce`).
-/

namespace SonicBrew

namespace Bridge

/-! ### Rings -/

/-- A ring, by the order of allocation. -/
abbrev RingId : Type := ℕ

/-- The frames in every ring, oldest first, and the next ring to be allocated. -/
structure Rings (F : Type) where
  frames : RingId → List F
  next : RingId

/-- The frame comes back if there is no room for it. -/
inductive PushError (F : Type) where
  | full (frame : F)
  deriving DecidableEq, Repr

/-- There is nothing to pop. -/
inductive PopError where
  | empty
  deriving DecidableEq, Repr

namespace Rings

variable {F : Type}

/-- A fresh, empty ring. -/
def alloc (rings : Rings F) : RingId × Rings F :=
  (rings.next, ⟨Function.update rings.frames rings.next [], rings.next + 1⟩)

def push (rings : Rings F) (capacity : ℕ) (r : RingId) (frame : F) :
    Except (PushError F) Unit × Rings F :=
  if (rings.frames r).length < capacity then
    (.ok (), { rings with frames := Function.update rings.frames r (rings.frames r ++ [frame]) })
  else (.error (.full frame), rings)

def pop (rings : Rings F) (r : RingId) : Except PopError F × Rings F :=
  match rings.frames r with
  | [] => (.error .empty, rings)
  | frame :: rest =>
      (.ok frame, { rings with frames := Function.update rings.frames r rest })

theorem next_push (rings : Rings F) (capacity : ℕ) (r : RingId) (frame : F) :
    (rings.push capacity r frame).2.next = rings.next := by
  rw [push]
  split
  · rfl
  · rfl

theorem next_pop (rings : Rings F) (r : RingId) : (rings.pop r).2.next = rings.next := by
  rw [pop]
  split
  · rfl
  · rfl

end Rings

/-! ### The bridge -/

/-- Into the graph or out of it. -/
inductive Direction where
  | inbound
  | outbound
  deriving DecidableEq, Repr

/-- **The gateway's ends of the rings**, and the format the ring nodes are made with. -/
structure GatewayBridge where
  channels : UInt16
  sampleRate : UInt32
  numFrames : ℕ
  capacity : ℕ
  /-- The ring that `push_inbound` fills. -/
  inbound : Option RingId
  /-- The ring that `pop_outbound` drains. -/
  outbound : Option RingId

/-- The default capacity of a ring. -/
def defaultCapacity : ℕ := 128

namespace GatewayBridge

def withCapacity (channels : UInt16) (sampleRate : UInt32) (numFrames capacity : ℕ) :
    GatewayBridge :=
  ⟨channels, sampleRate, numFrames, capacity, none, none⟩

def new (channels : UInt16) (sampleRate : UInt32) (numFrames : ℕ) : GatewayBridge :=
  withCapacity channels sampleRate numFrames defaultCapacity

/-- The ring of a direction. -/
def handle (bridge : GatewayBridge) : Direction → Option RingId
  | .inbound => bridge.inbound
  | .outbound => bridge.outbound

end GatewayBridge

/-- A node of the graph: one of the two ring nodes, with its ring and format, or any other. -/
inductive AudioNode (ν : Type) where
  | ringSource (ring : RingId) (channels : UInt16) (sampleRate : UInt32) (numFrames : ℕ)
  | ringSink (ring : RingId) (channels : UInt16) (sampleRate : UInt32) (numFrames : ℕ)
  | other (node : ν)
  deriving DecidableEq, Repr

/-- The ring of a ring node. A sink that is not registered as one is never flushed, so it fills
no ring. -/
def ring {ν : Type} : Direction → BuiltNode (AudioNode ν) → Option RingId
  | .inbound, .plain (.ringSource r _ _ _) => some r
  | .outbound, .sink (.ringSink r _ _ _) => some r
  | _, _ => none

/-- The bridge and the rings it works on. -/
structure Gateway (F : Type) where
  bridge : GatewayBridge
  rings : Rings F

namespace Gateway

variable {F ν : Type}

/-- A fresh inbound ring: the bridge gets one end, the node the other. -/
def makeSourceNode (gw : Gateway F) : BuiltNode (AudioNode ν) × Gateway F :=
  let (ring, rings) := gw.rings.alloc
  (.plain (.ringSource ring gw.bridge.channels gw.bridge.sampleRate gw.bridge.numFrames),
    ⟨{ gw.bridge with inbound := some ring }, rings⟩)

/-- A fresh outbound ring. -/
def makeSinkNode (gw : Gateway F) : BuiltNode (AudioNode ν) × Gateway F :=
  let (ring, rings) := gw.rings.alloc
  (.sink (.ringSink ring gw.bridge.channels gw.bridge.sampleRate gw.bridge.numFrames),
    ⟨{ gw.bridge with outbound := some ring }, rings⟩)

/-- Push into a given ring. -/
def pushTo (gw : Gateway F) (r : RingId) (frame : F) : Except (PushError F) Unit × Gateway F :=
  let (result, rings) := gw.rings.push gw.bridge.capacity r frame
  (result, { gw with rings })

/-- Pop from a given ring. -/
def popFrom (gw : Gateway F) (r : RingId) : Except PopError F × Gateway F :=
  let (result, rings) := gw.rings.pop r
  (result, { gw with rings })

/-- Push into the inbound ring; without one, the frame comes back. -/
def pushInbound (gw : Gateway F) (frame : F) : Except (PushError F) Unit × Gateway F :=
  match gw.bridge.inbound with
  | some r => gw.pushTo r frame
  | none => (.error (.full frame), gw)

/-- Pop from the outbound ring; without one, there is nothing. -/
def popOutbound (gw : Gateway F) : Except PopError F × Gateway F :=
  match gw.bridge.outbound with
  | some r => gw.popFrom r
  | none => (.error .empty, gw)

/-- Pushing moves a frame and leaves the bridge as it is. -/
theorem pushInbound_bridge (gw : Gateway F) (frame : F) :
    (gw.pushInbound frame).2.bridge = gw.bridge ∧
      (gw.pushInbound frame).2.rings.next = gw.rings.next := by
  rw [pushInbound]
  split
  · exact ⟨rfl, Rings.next_push _ _ _ _⟩
  · exact ⟨rfl, rfl⟩

/-- And so does popping. -/
theorem popOutbound_bridge (gw : Gateway F) :
    gw.popOutbound.2.bridge = gw.bridge ∧ gw.popOutbound.2.rings.next = gw.rings.next := by
  rw [popOutbound]
  split
  · exact ⟨rfl, Rings.next_pop _ _⟩
  · exact ⟨rfl, rfl⟩

end Gateway

/-- A factory with one source id and one sink id that are the bridge's. What it makes of the other
ids is its own business, and may change from one call to the next. -/
structure BridgeFactory where
  sourceId : NodeId
  sinkId : NodeId
  source_ne_sink : sourceId ≠ sinkId

namespace BridgeFactory

variable {F ν : Type} (factory : BridgeFactory)

/-- The factory's answer for an id, when it would give the answers `other` for all but its own. -/
def build (other : NodeId → Option (BuiltNode ν)) : NodeFactory (Gateway F) (AudioNode ν) :=
  fun id gw =>
    if id = factory.sourceId then (some gw.makeSourceNode.1, (gw.makeSourceNode (ν := ν)).2)
    else if id = factory.sinkId then (some gw.makeSinkNode.1, (gw.makeSinkNode (ν := ν)).2)
    else ((other id).map (BuiltNode.map .other), gw)

/-- The id of the ring node of a direction. -/
def bridgeId : Direction → NodeId
  | .inbound => factory.sourceId
  | .outbound => factory.sinkId

end BridgeFactory

/-! ### What the factory does -/

section Factory

variable {F ν : Type} (factory : BridgeFactory) (other : NodeId → Option (BuiltNode ν))
  (gw : Gateway F)

/-- Asked for the ring node of a direction, the factory makes one on a fresh ring, and the bridge
has the other end. -/
theorem build_bridgeId (d : Direction) :
    ∃ n gw', factory.build other (factory.bridgeId d) gw = (some n, gw') ∧
      ring d n = some gw.rings.next ∧ gw'.bridge.handle d = some gw.rings.next ∧
      gw'.rings.next = gw.rings.next + 1 := by
  cases d with
  | inbound =>
    rw [BridgeFactory.bridgeId, BridgeFactory.build, if_pos rfl]
    exact ⟨_, _, rfl, rfl, rfl, rfl⟩
  | outbound =>
    rw [BridgeFactory.bridgeId, BridgeFactory.build, if_neg factory.source_ne_sink.symm,
      if_pos rfl]
    exact ⟨_, _, rfl, rfl, rfl, rfl⟩

/-- A node made from another one is no ring node. -/
theorem ring_map_other (d : Direction) (n : BuiltNode ν) : ring d (n.map .other) = none := by
  cases d with
  | inbound => cases n <;> rfl
  | outbound => cases n <;> rfl

/-- Asked for any other node, it leaves this direction of the bridge alone. -/
theorem build_of_ne {d : Direction} {id : NodeId} (h : id ≠ factory.bridgeId d) :
    (factory.build other id gw).2.bridge.handle d = gw.bridge.handle d ∧
      gw.rings.next ≤ (factory.build other id gw).2.rings.next ∧
      ∀ n, (factory.build other id gw).1 = some n → ring d n = none := by
  rw [BridgeFactory.build]
  split
  · -- the source: the direction is the other one
    rename_i hid
    cases d with
    | inbound => exact absurd hid h
    | outbound =>
      refine ⟨rfl, Nat.le_succ _, fun n hn => ?_⟩
      obtain rfl := Option.some.inj hn
      rfl
  · split
    · rename_i hid
      cases d with
      | inbound =>
        refine ⟨rfl, Nat.le_succ _, fun n hn => ?_⟩
        obtain rfl := Option.some.inj hn
        rfl
      | outbound => exact absurd hid h
    · refine ⟨rfl, Nat.le_refl _, fun n hn => ?_⟩
      obtain ⟨m, -, rfl⟩ := Option.map_eq_some_iff.mp hn
      exact ring_map_other d m

/-- A node it does not know is neither of the two, and nothing has happened. -/
theorem build_eq_none {id : NodeId} (h : (factory.build other id gw).1 = none) :
    (id ≠ factory.sourceId ∧ id ≠ factory.sinkId ∧ other id = none) ∧
      (factory.build other id gw).2 = gw := by
  rw [BridgeFactory.build] at h ⊢
  split at h
  · exact absurd h (by simp)
  · rename_i hsource
    split at h
    · exact absurd h (by simp)
    · rename_i hsink
      rw [if_neg hsource, if_neg hsink]
      exact ⟨⟨hsource, hsink, Option.map_eq_none_iff.mp h⟩, rfl⟩

end Factory

/-! ### The four parties -/

/-- A call of `rebuild_once` that is running: the nodes and the links still ahead of it. -/
structure Rebuilding (G : Type) where
  nodes : List NodeSnapshot
  edges : List SnapshotEdge
  building : Building G

/-- The store's topology, the gateway, the rebuild thread, the slot in which it leaves a finished
graph, and the engine's live graph, if there is an engine yet. -/
structure World (G F : Type) where
  topology : TopologySnapshot
  gateway : Gateway F
  rebuild : Option (Rebuilding G)
  slot : Option G
  live : Option G

/-- One step of one party. -/
inductive Action (F ν : Type) where
  /-- The store applies a mutation. -/
  | mutate (m : Mutation)
  /-- The rebuild thread reads the topology. -/
  | rebuildOnce
  /-- It asks the factory for the next node. -/
  | buildNode (other : NodeId → Option (BuiltNode ν))
  /-- It makes the next link. -/
  | linkEdge
  /-- It compiles the graph and leaves it in the slot. -/
  | compile
  /-- The engine starts, with the graph in the slot. -/
  | newEngine
  /-- The engine runs one cycle and swaps. -/
  | engineStep
  /-- The gateway pushes. -/
  | pushInbound (frame : F)
  /-- The gateway pops. -/
  | popOutbound

/-- Before any rebuild and without an engine. -/
def start {G F : Type} (topology : TopologySnapshot) (bridge : GatewayBridge) : World G F :=
  ⟨topology, ⟨bridge, ⟨fun _ => [], 0⟩⟩, none, none, none⟩

section Steps

variable {G F ν : Type} [GraphOps G (AudioNode ν)] [SnapshotApply] (config : GraphConfig)
  (factory : BridgeFactory) (cycle : G → (RingId → List F) → RingId → List F)

/-- One step, if it is possible. There is one rebuild thread. -/
def step (w : World G F) : Action F ν → Option (World G F)
  | .mutate m => some { w with topology := w.topology.apply m }
  | .rebuildOnce =>
      match w.rebuild with
      | none => some { w with rebuild := some ⟨w.topology.nodes, w.topology.edges, Building.new⟩ }
      | some _ => none
  | .buildNode other =>
      match w.rebuild with
      | some ⟨n :: nodes, edges, b⟩ =>
          let (built, gateway) := factory.build other n.id w.gateway
          match b.addBuilt n.id built with
          -- the error is traced, the graph is dropped, and the gateway is left as it is
          | .error _ => some { w with gateway, rebuild := none }
          | .ok b => some { w with gateway, rebuild := some ⟨nodes, edges, b⟩ }
      | _ => none
  | .linkEdge =>
      match w.rebuild with
      | some ⟨[], e :: edges, b⟩ =>
          match b.linkEdge e with
          | .error _ => some { w with rebuild := none }
          | .ok b => some { w with rebuild := some ⟨[], edges, b⟩ }
      | _ => none
  | .compile =>
      -- nobody sees the graph between `compile` and the slot, so this is one step
      match w.rebuild with
      | some ⟨[], [], b⟩ =>
          match b.compile config with
          | .error _ => some { w with rebuild := none }
          | .ok g => some { w with rebuild := none, slot := some g }
      | _ => none
  | .newEngine =>
      match w.live, w.slot with
      | none, some g => some { w with slot := none, live := some g }
      | _, _ => none
  | .engineStep =>
      match w.live with
      | none => none
      | some g =>
          let gateway :=
            { w.gateway with
              rings := { w.gateway.rings with frames := cycle g w.gateway.rings.frames } }
          match w.slot with
          | none => some { w with gateway }
          | some new => some { w with gateway, slot := none, live := some new }
  | .pushInbound frame => some { w with gateway := (w.gateway.pushInbound frame).2 }
  | .popOutbound => some { w with gateway := w.gateway.popOutbound.2 }

/-- **An uninterrupted call of `rebuild_once`**, with a factory whose answers do not change. -/
def rebuildOnce (other : NodeId → Option (BuiltNode ν)) (w : World G F) : World G F :=
  match buildGraph w.topology config (factory.build other) w.gateway with
  | (.ok g, gateway) => { w with gateway, slot := some g }
  | (.error _, gateway) => { w with gateway }

end Steps

/-! ### A rebuild that is not interrupted -/

section Uninterrupted

variable {G F ν : Type} [GraphOps G (AudioNode ν)] [SnapshotApply] (config : GraphConfig)
  (factory : BridgeFactory) (cycle : G → (RingId → List F) → RingId → List F)

/-- The rebuild when its nodes have been built, or one of them has not. -/
def afterNodes (w : World G F) (edges : List SnapshotEdge) :
    Except EngineError (Building G) × Gateway F → World G F
  | (.error _, gateway) => { w with gateway, rebuild := none }
  | (.ok b, gateway) => { w with gateway, rebuild := some ⟨[], edges, b⟩ }

/-- The rebuild when its links have been made, or one of them has not. -/
def afterLinks (w : World G F) : Except EngineError (Building G) → World G F
  | .error _ => { w with rebuild := none }
  | .ok b => { w with rebuild := some ⟨[], [], b⟩ }

theorem run_buildNodes (other : NodeId → Option (BuiltNode ν)) {edges : List SnapshotEdge}
    (nodes : List NodeSnapshot) {w : World G F} {b : Building G}
    (hrebuild : w.rebuild = some ⟨nodes, edges, b⟩) :
    ∃ i, Transition.run (step config factory cycle) w (List.replicate i (.buildNode other)) =
      some (afterNodes w edges (b.buildNodes (factory.build other) w.gateway nodes)) := by
  induction nodes generalizing w b with
  | nil =>
    refine ⟨0, ?_⟩
    rw [Building.buildNodes, afterNodes, ← hrebuild]
    rfl
  | cons n nodes ih =>
    cases hb : b.addBuilt n.id (factory.build other n.id w.gateway).1 with
    | error err =>
      refine ⟨1, ?_⟩
      simp only [List.replicate, Transition.run, step, hrebuild, hb, Building.buildNodes,
        afterNodes, Option.bind_some]
    | ok b' =>
      obtain ⟨i, hi⟩ := ih (w := { w with
        gateway := (factory.build other n.id w.gateway).2, rebuild := some ⟨nodes, edges, b'⟩ }) rfl
      refine ⟨i + 1, ?_⟩
      simp only [List.replicate_succ, Transition.run, step, hrebuild, hb, Building.buildNodes,
        Option.bind_some]
      rw [hi]
      rcases b'.buildNodes (factory.build other) _ nodes with ⟨_ | _, gw⟩
      · rfl
      · rfl

theorem run_linkEdges (edges : List SnapshotEdge) {w : World G F} {b : Building G}
    (hrebuild : w.rebuild = some ⟨[], edges, b⟩) :
    ∃ i, Transition.run (step config factory cycle) w
      (List.replicate i (.linkEdge : Action F ν)) = some (afterLinks w (b.linkEdges edges)) := by
  induction edges generalizing w b with
  | nil =>
    refine ⟨0, ?_⟩
    rw [Building.linkEdges, afterLinks, ← hrebuild]
    rfl
  | cons e edges ih =>
    cases hb : b.linkEdge e with
    | error err =>
      refine ⟨1, ?_⟩
      simp only [List.replicate, Transition.run, step, hrebuild, hb, Building.linkEdges,
        afterLinks, Option.bind_some]
    | ok b' =>
      obtain ⟨i, hi⟩ := ih (w := { w with rebuild := some ⟨[], edges, b'⟩ }) rfl
      refine ⟨i + 1, ?_⟩
      simp only [List.replicate_succ, Transition.run, step, hrebuild, hb, Building.linkEdges,
        Option.bind_some]
      rw [hi]
      rcases b'.linkEdges edges with _ | _
      · rfl
      · rfl

/-- **An uninterrupted rebuild is `rebuild_once`**: the nodes as far as they can be built, the
links as far as they can be made, and `compile` if it comes to that. -/
theorem exists_run_rebuildOnce (other : NodeId → Option (BuiltNode ν)) {w : World G F}
    (hrebuild : w.rebuild = none) :
    ∃ i j k, Transition.run (step config factory cycle) w
      (.rebuildOnce :: (List.replicate i (.buildNode other) ++
        (List.replicate j .linkEdge ++ List.replicate k .compile))) =
      some (rebuildOnce config factory other w) := by
  obtain ⟨i, hi⟩ := run_buildNodes config factory cycle other w.topology.nodes
    (w := { w with rebuild := some ⟨w.topology.nodes, w.topology.edges, Building.new⟩ }) rfl
  have hbegin : ∀ as, Transition.run (step config factory cycle) w (.rebuildOnce :: as) =
      Transition.run (step config factory cycle)
        { w with rebuild := some ⟨w.topology.nodes, w.topology.edges, Building.new⟩ } as := by
    intro as
    simp only [Transition.run, step, hrebuild, Option.bind_some]
  rcases hnodes : (Building.new : Building G).buildNodes (factory.build other) w.gateway
    w.topology.nodes with ⟨err | b, gw⟩
  · -- a node is missing: no link is made
    refine ⟨i, 0, 0, ?_⟩
    rw [hbegin, Transition.run_append, hi]
    simp only [hnodes, afterNodes, rebuildOnce, buildGraph]
    rw [← hrebuild]
    rfl
  · obtain ⟨j, hj⟩ := run_linkEdges config factory cycle w.topology.edges (b := b)
      (w := { w with gateway := gw, rebuild := some ⟨[], w.topology.edges, b⟩ }) rfl
    rcases hedges : b.linkEdges w.topology.edges with err | b'
    · refine ⟨i, j, 0, ?_⟩
      rw [hbegin, Transition.run_append, hi]
      simp only [hnodes, afterNodes, Option.bind_some]
      rw [Transition.run_append, hj]
      simp only [hedges, afterLinks, rebuildOnce, buildGraph, hnodes]
      rw [← hrebuild]
      rfl
    · refine ⟨i, j, 1, ?_⟩
      rw [hbegin, Transition.run_append, hi]
      simp only [hnodes, afterNodes, Option.bind_some]
      rw [Transition.run_append, hj]
      rcases hcompile : b'.compile config with err | g
      · simp only [hedges, afterLinks, Option.bind_some, List.replicate, Transition.run, step,
          hcompile, rebuildOnce, buildGraph, hnodes]
        rw [← hrebuild]
      · simp only [hedges, afterLinks, Option.bind_some, List.replicate, Transition.run, step,
          hcompile, rebuildOnce, buildGraph, hnodes]
        rw [← hrebuild]

end Uninterrupted

end Bridge

end SonicBrew
