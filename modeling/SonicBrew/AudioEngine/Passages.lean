import SonicBrew.AudioEngine.Connection

/-!
# What passes through the gateway bridge

The frames that a step of `SonicBrew.Bridge.step` moves through the two ends of a ring
(`SonicBrew.Bridge.passages`), and what else it can do to the rings and to the graphs that have
them (`SonicBrew.Bridge.step_move`). This is what `SonicBrew.AudioEngine.Stream` follows over whole
runs.

Of the engine's cycle it is assumed that a source takes frames from the front of its ring, that a
sink appends frames to its own, and that nothing else is touched (`SonicBrew.Bridge.Plays`).
-/

namespace SonicBrew

namespace Bridge

/-! ### What passes through a ring -/

/-- The two sides of a ring. -/
inductive Side where
  | gateway
  | engine
  deriving DecidableEq, Repr

/-- One frame goes through one end of a ring. -/
structure Passage (F : Type) where
  direction : Direction
  side : Side
  ring : RingId
  frame : F
  deriving DecidableEq, Repr

/-- The side that fills the rings of a direction. -/
def writer : Direction → Side
  | .inbound => .gateway
  | .outbound => .engine

/-- The side that drains them. -/
def reader : Direction → Side
  | .inbound => .engine
  | .outbound => .gateway

/-- What one side has done with the rings of a direction. -/
def log {F : Type} (d : Direction) (s : Side) (seen : List (Passage F)) : List (RingId × F) :=
  seen.filterMap fun p => if p.direction = d ∧ p.side = s then some (p.ring, p.frame) else none

section Passages

variable {G F ν : Type} [GraphOps G (AudioNode ν)]

/-- The frames a cycle moves through a ring that it leaves as `after`. -/
def moved (before after : List F) : Direction → List F
  | .inbound => before.take (before.length - after.length)
  | .outbound => after.drop before.length

/-- The frames a cycle of the graph `g` moves through its rings of a direction. -/
def enginePassages (d : Direction) (g : G) (before after : RingId → List F) : List (Passage F) :=
  (ringsOf d g).flatMap fun r => (moved (before r) (after r) d).map fun f => ⟨d, .engine, r, f⟩

variable (cycle : G → (RingId → List F) → RingId → List F)

/-- The frames that a step moves. -/
def passages (w : World G F) : Action F ν → List (Passage F)
  | .pushInbound frame =>
      match w.gateway.bridge.inbound, (w.gateway.pushInbound frame).1 with
      | some r, .ok () => [⟨.inbound, .gateway, r, frame⟩]
      | _, _ => []
  | .popOutbound =>
      match w.gateway.bridge.outbound, w.gateway.popOutbound.1 with
      | some r, .ok frame => [⟨.outbound, .gateway, r, frame⟩]
      | _, _ => []
  | .engineStep =>
      match w.live with
      | none => []
      | some g =>
          let before := w.gateway.rings.frames
          enginePassages .inbound g before (cycle g before) ++
            enginePassages .outbound g before (cycle g before)
  | _ => []

/-- **What is assumed of a cycle of the engine.** A `RingSource` pops frames from its ring, a
`RingSink` that is flushed pushes frames to its own, and the engine has no other ring. -/
structure Plays : Prop where
  source : ∀ g frames r, r ∈ ringsOf .inbound g → r ∉ ringsOf .outbound g →
    ∃ popped, frames r = popped ++ cycle g frames r
  sink : ∀ g frames r, r ∈ ringsOf .outbound g → r ∉ ringsOf .inbound g →
    ∃ pushed, cycle g frames r = frames r ++ pushed
  other : ∀ g frames r, r ∉ ringsOf .inbound g → r ∉ ringsOf .outbound g →
    cycle g frames r = frames r

end Passages

/-! ### Logs -/

section Logs

variable {G F ν : Type} [GraphOps G (AudioNode ν)] {d : Direction} {s : Side}

theorem log_append (seen seen' : List (Passage F)) :
    log d s (seen ++ seen') = log d s seen ++ log d s seen' := List.filterMap_append

theorem log_singleton_self (r : RingId) (f : F) :
    log d s [⟨d, s, r, f⟩] = [f].map (Prod.mk r) := by
  simp [log]

theorem log_eq_nil {seen : List (Passage F)} (h : ∀ p ∈ seen, ¬ (p.direction = d ∧ p.side = s)) :
    log d s seen = [] := by
  refine List.filterMap_eq_nil_iff.mpr fun p hp => ?_
  rw [if_neg (h p hp)]

theorem mem_enginePassages {d : Direction} {g : G} {before after : RingId → List F}
    {p : Passage F} (h : p ∈ enginePassages d g before after) :
    p.direction = d ∧ p.side = .engine := by
  obtain ⟨r, -, hp⟩ := List.mem_flatMap.mp h
  obtain ⟨f, -, rfl⟩ := List.mem_map.mp hp
  exact ⟨rfl, rfl⟩

/-- The engine's passages in a direction, in the log of that direction. -/
theorem log_enginePassages_self (g : G) (before after : RingId → List F) :
    log d .engine (enginePassages d g before after) =
      (ringsOf d g).flatMap fun r => (moved (before r) (after r) d).map (Prod.mk r) := by
  rw [log, enginePassages, List.filterMap_flatMap]
  refine List.flatMap_congr fun r _ => ?_
  rw [List.filterMap_map]
  simp

/-- A cycle moves nothing through the gateway's ends. -/
theorem log_gateway_enginePassages (d' : Direction) (g : G) (before after : RingId → List F) :
    log d .gateway (enginePassages d' g before after) = [] := by
  refine log_eq_nil fun p hp hc => ?_
  exact absurd ((mem_enginePassages hp).2.symm.trans hc.2) (by simp)

/-- The two directions do not mix. -/
theorem log_enginePassages_of_ne {e : Direction} (h : e ≠ d) (g : G)
    (before after : RingId → List F) : log d s (enginePassages e g before after) = [] := by
  refine log_eq_nil fun p hp hc => ?_
  exact h ((mem_enginePassages hp).1.symm.trans hc.1)

theorem moved_inbound {before after popped : List F} (h : before = popped ++ after) :
    moved before after .inbound = popped := by
  rw [moved, h, List.length_append, Nat.add_sub_cancel, List.take_left]

theorem moved_outbound {before after pushed : List F} (h : after = before ++ pushed) :
    moved before after .outbound = pushed := by
  rw [moved, h, List.drop_left]

end Logs

/-! ### What a step does -/

section Moves

variable {G F ν : Type} [GraphOps G (AudioNode ν)] [SnapshotApply]

/-- The graphs that exist, oldest first. -/
def graphs (w : World G F) : List G :=
  w.live.toList ++ (w.slot.toList ++ (w.rebuild.map (·.building.graph)).toList)

/-- The same world with other frames in the rings. -/
def World.withFrames (w : World G F) (frames : RingId → List F) : World G F :=
  { w with gateway := { w.gateway with rings := { w.gateway.rings with frames } } }

variable (config : GraphConfig) (factory : BridgeFactory)
  (cycle : G → (RingId → List F) → RingId → List F)

/-- **What a step can do**, and the frames it moves. -/
inductive Move (w : World G F) : World G F → List (Passage F) → Prop where
  /-- Nothing is moved, and at most a graph or a rebuild is given up. -/
  | quiet {w' : World G F} (hgateway : w'.gateway = w.gateway)
      (hgraphs : (graphs w').Sublist (graphs w))
      (hrebuild : ∀ rb, w'.rebuild = some rb → w.rebuild = some rb)
      (htopology : w'.topology = w.topology ∨ ∃ m, w'.topology = w.topology.apply m) : Move w w' []
  | began (hrebuild : w.rebuild = none) :
      Move w { w with rebuild := some ⟨w.topology.nodes, w.topology.edges, Building.new⟩ } []
  | built {n : NodeSnapshot} {nodes : List NodeSnapshot} {edges : List SnapshotEdge}
      {b b' : Building G} {other : NodeId → Option (BuiltNode ν)}
      (hrebuild : w.rebuild = some ⟨n :: nodes, edges, b⟩)
      (hbuilt : b.addBuilt n.id (factory.build other n.id w.gateway).1 = .ok b') :
      Move w { w with
        gateway := (factory.build other n.id w.gateway).2, rebuild := some ⟨nodes, edges, b'⟩ } []
  | linked {e : SnapshotEdge} {edges : List SnapshotEdge} {b b' : Building G}
      (hrebuild : w.rebuild = some ⟨[], e :: edges, b⟩) (hlink : b.linkEdge e = .ok b') :
      Move w { w with rebuild := some ⟨[], edges, b'⟩ } []
  | deposited {b : Building G} {g : G} (hrebuild : w.rebuild = some ⟨[], [], b⟩)
      (hcompile : b.compile config = .ok g) : Move w { w with rebuild := none, slot := some g } []
  | pushed {r : RingId} {frame : F} (hhandle : w.gateway.bridge.handle .inbound = some r) :
      Move w
        (w.withFrames (Function.update w.gateway.rings.frames r
          (w.gateway.rings.frames r ++ [frame])))
        [⟨.inbound, .gateway, r, frame⟩]
  | popped {r : RingId} {frame : F} {rest : List F}
      (hhandle : w.gateway.bridge.handle .outbound = some r)
      (hframes : w.gateway.rings.frames r = frame :: rest) :
      Move w (w.withFrames (Function.update w.gateway.rings.frames r rest))
        [⟨.outbound, .gateway, r, frame⟩]
  /-- A cycle of the live graph, and then the swap, if there is a graph to swap in. -/
  | cycled {g : G} {w' : World G F} (hlive : w.live = some g)
      (hgateway : w'.gateway = (w.withFrames (cycle g w.gateway.rings.frames)).gateway)
      (hgraphs : (graphs w').Sublist (graphs w)) (hrebuild : w'.rebuild = w.rebuild)
      (htopology : w'.topology = w.topology) :
      Move w w'
        (enginePassages .inbound g w.gateway.rings.frames (cycle g w.gateway.rings.frames) ++
          enginePassages .outbound g w.gateway.rings.frames (cycle g w.gateway.rings.frames))

variable {config factory cycle}

/-- A rebuild that fails is given up, and its graph with it. -/
theorem Move.failed (w : World G F) :
    Move config factory cycle w { w with rebuild := none } [] := by
  refine .quiet rfl ?_ (fun rb hrb => absurd hrb (by simp)) (Or.inl rfl)
  refine List.Sublist.append_left (List.Sublist.append_left ?_ _) _
  exact List.nil_sublist _

theorem move_pushInbound (w : World G F) (frame : F) :
    Move config factory cycle w { w with gateway := (w.gateway.pushInbound frame).2 }
      (passages cycle w (.pushInbound frame : Action F ν)) := by
  have hkeep : Move config factory cycle w w [] :=
    .quiet rfl (List.Sublist.refl _) (fun _ h => h) (Or.inl rfl)
  cases hin : w.gateway.bridge.inbound with
  | none =>
    simp only [passages, Gateway.pushInbound, hin]
    exact hkeep
  | some r =>
    simp only [passages, Gateway.pushInbound, Gateway.pushTo, Rings.push, hin]
    split
    · exact .pushed hin
    · exact hkeep

theorem move_popOutbound (w : World G F) :
    Move config factory cycle w { w with gateway := w.gateway.popOutbound.2 }
      (passages cycle w (.popOutbound : Action F ν)) := by
  have hkeep : Move config factory cycle w w [] :=
    .quiet rfl (List.Sublist.refl _) (fun _ h => h) (Or.inl rfl)
  cases hout : w.gateway.bridge.outbound with
  | none =>
    simp only [passages, Gateway.popOutbound, hout]
    exact hkeep
  | some r =>
    cases hframes : w.gateway.rings.frames r with
    | nil =>
      simp only [passages, Gateway.popOutbound, Gateway.popFrom, Rings.pop, hout, hframes]
      exact hkeep
    | cons frame rest =>
      simp only [passages, Gateway.popOutbound, Gateway.popFrom, Rings.pop, hout, hframes]
      exact .popped hout hframes

/-- **Every step is one of the moves.** -/
theorem step_move {w w' : World G F} {a : Action F ν}
    (h : step config factory cycle w a = some w') :
    Move config factory cycle w w' (passages cycle w a) := by
  cases a with
  | mutate m =>
    obtain rfl := Option.some.inj h
    exact .quiet rfl (List.Sublist.refl _) (fun _ h => h) (Or.inr ⟨m, rfl⟩)
  | rebuildOnce =>
    simp only [step] at h
    split at h
    · rename_i hrebuild
      obtain rfl := Option.some.inj h
      exact .began hrebuild
    · exact absurd h (by simp)
  | buildNode other =>
    simp only [step] at h
    split at h
    · rename_i n nodes edges b hrebuild
      split at h
      · rename_i herr
        obtain rfl := Option.some.inj h
        rw [(build_eq_none factory other w.gateway (Building.addBuilt_eq_error herr)).2]
        exact .failed w
      · rename_i hok
        obtain rfl := Option.some.inj h
        exact .built hrebuild hok
    · exact absurd h (by simp)
  | linkEdge =>
    simp only [step] at h
    split at h
    · rename_i e edges b hrebuild
      split at h
      · obtain rfl := Option.some.inj h
        exact .failed w
      · rename_i hok
        obtain rfl := Option.some.inj h
        exact .linked hrebuild hok
    · exact absurd h (by simp)
  | compile =>
    simp only [step] at h
    split at h
    · rename_i b hrebuild
      split at h
      · obtain rfl := Option.some.inj h
        exact .failed w
      · rename_i hok
        obtain rfl := Option.some.inj h
        exact .deposited hrebuild hok
    · exact absurd h (by simp)
  | newEngine =>
    simp only [step] at h
    split at h
    · rename_i hlive hslot
      obtain rfl := Option.some.inj h
      refine .quiet rfl ?_ (fun _ h => h) (Or.inl rfl)
      simp [graphs, hlive, hslot]
    · exact absurd h (by simp)
  | engineStep =>
    simp only [step] at h
    split at h
    · exact absurd h (by simp)
    · rename_i g hlive
      simp only [passages, hlive]
      split at h
      · obtain rfl := Option.some.inj h
        exact .cycled hlive rfl (List.Sublist.refl _) rfl rfl
      · rename_i new hslot
        obtain rfl := Option.some.inj h
        refine .cycled hlive rfl ?_ rfl rfl
        simp [graphs, hlive, hslot]
  | pushInbound frame =>
    obtain rfl := Option.some.inj h
    exact move_pushInbound w frame
  | popOutbound =>
    obtain rfl := Option.some.inj h
    exact move_popOutbound w

end Moves

end Bridge

end SonicBrew
