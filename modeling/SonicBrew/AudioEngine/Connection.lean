import SonicBrew.AudioEngine.Bridge

/-!
# The gateway's connection to the live graph

When a build succeeds, the bridge has the ends of the new graph's rings, and once the engine has
swapped that graph in, it is connected. When a build fails, the previous graph keeps running; but
the bridge may have been given rings of the graph that is gone.

A failure is harmless exactly if the abandoned graph had no ring node of a direction in which the
graph to be run has one (`SonicBrew.Bridge.Harmless`). Runs whose failures are harmless keep the
gateway connected to the live graph (`SonicBrew.Bridge.connected_of_run`), the first failure that is
not disconnects it (`SonicBrew.Bridge.disconnected_of_fails`), and all it takes is a node that the
factory does not know (`SonicBrew.Bridge.disconnected_by_unknown_node`).

The invariant (`SonicBrew.Bridge.Inv`) is about one direction at a time, since the source and the
sink never get in each other's way.
-/

namespace SonicBrew

namespace Bridge

/-! ### Being connected -/

section Connected

variable {G F ν : Type} [GraphOps G (AudioNode ν)]

/-- The rings that a graph reads from, or fills. -/
def ringsOf (d : Direction) (g : G) : List RingId := (GraphOps.slots g).filterMap (ring d)

/-- No rebuild is running and the slot has been drained. -/
def Settled (w : World G F) : Prop := w.rebuild = none ∧ w.slot = none

/-- **The gateway is connected to the live graph**: the bridge has the other end of the ring that
the live graph's source reads, and a frame that is pushed goes there; and it has the other end of
the ring that the sink fills, and a frame that is popped comes from there. -/
def Connected (w : World G F) : Prop :=
  ∀ g, w.live = some g →
    (∀ r ∈ ringsOf .inbound g, w.gateway.bridge.inbound = some r ∧
      ∀ frame, w.gateway.pushInbound frame = w.gateway.pushTo r frame) ∧
    ∀ r ∈ ringsOf .outbound g, w.gateway.bridge.outbound = some r ∧
      w.gateway.popOutbound = w.gateway.popFrom r

/-- The rings of the graph that is live or about to be: the one in the slot, if there is one. -/
def latestRings (d : Direction) (w : World G F) : List RingId :=
  match w.slot.or w.live with
  | none => []
  | some g => ringsOf d g

/-- The rebuild at hand has made no ring node of this direction, or none is to be run. -/
def spares (d : Direction) (w : World G F) : Bool :=
  match w.rebuild with
  | none => true
  | some rb => (ringsOf d rb.building.graph).isEmpty || (latestRings d w).isEmpty

variable (config : GraphConfig) (factory : BridgeFactory)

/-- The step makes `build_graph` return an error: the factory does not know the node, or the
graph library refuses the link or the graph. -/
def fails (w : World G F) : Action F ν → Bool
  | .buildNode other =>
      match w.rebuild with
      | some ⟨n :: _, _, _⟩ =>
          n.id ≠ factory.sourceId && n.id ≠ factory.sinkId && (other n.id).isNone
      | _ => false
  | .linkEdge =>
      match w.rebuild with
      | some ⟨[], e :: _, b⟩ => !(b.linkEdge e).toBool
      | _ => false
  | .compile =>
      match w.rebuild with
      | some ⟨[], [], b⟩ => !(b.compile config).toBool
      | _ => false
  | _ => false

/-- **A harmless step**: one that does not fail, or fails before the factory has made a ring
node of a kind that the graph to be run has. -/
def Harmless (w : World G F) (a : Action F ν) : Prop :=
  fails config factory w a = true → spares .inbound w = true ∧ spares .outbound w = true

instance (w : World G F) (a : Action F ν) : Decidable (Harmless config factory w a) :=
  inferInstanceAs (Decidable (_ → _))

end Connected

/-! ### What a step does -/

section Effect

variable {G F ν : Type} [GraphOps G (AudioNode ν)] [SnapshotApply] (config : GraphConfig)
  (factory : BridgeFactory)

/-- **The effects of a step.** -/
inductive Effect (w : World G F) (a : Action F ν) : World G F → Prop where
  /-- Mutations, the engine and the gateway: the bridge keeps its rings, and the graph that is
  live or about to be is the same. -/
  | quiet {w' : World G F} (hrebuild : w'.rebuild = w.rebuild)
      (hbridge : w'.gateway.bridge = w.gateway.bridge)
      (hnext : w'.gateway.rings.next = w.gateway.rings.next)
      (hlatest : w'.slot.or w'.live = w.slot.or w.live)
      (htopology : w'.topology = w.topology ∨ ∃ m, w'.topology = w.topology.apply m) :
      Effect w a w'
  | began (hrebuild : w.rebuild = none) :
      Effect w a { w with rebuild := some ⟨w.topology.nodes, w.topology.edges, Building.new⟩ }
  | built {n : NodeSnapshot} {nodes : List NodeSnapshot} {edges : List SnapshotEdge}
      {b b' : Building G} {other : NodeId → Option (BuiltNode ν)}
      (hrebuild : w.rebuild = some ⟨n :: nodes, edges, b⟩)
      (hbuilt : b.addBuilt n.id (factory.build other n.id w.gateway).1 = .ok b') :
      Effect w a { w with
        gateway := (factory.build other n.id w.gateway).2, rebuild := some ⟨nodes, edges, b'⟩ }
  | linked {e : SnapshotEdge} {edges : List SnapshotEdge} {b b' : Building G}
      (hrebuild : w.rebuild = some ⟨[], e :: edges, b⟩) (hlink : b.linkEdge e = .ok b') :
      Effect w a { w with rebuild := some ⟨[], edges, b'⟩ }
  | deposited {b : Building G} {g : G} (hrebuild : w.rebuild = some ⟨[], [], b⟩)
      (hcompile : b.compile config = .ok g) :
      Effect w a { w with rebuild := none, slot := some g }
  /-- A failure leaves everything but the rebuild as it is, and so the graph that was running. -/
  | failed {rb : Rebuilding G} (hrebuild : w.rebuild = some rb)
      (hfails : fails config factory w a = true) : Effect w a { w with rebuild := none }

variable {config factory} {cycle : G → (RingId → List F) → RingId → List F}

/-- **Every step has one of the effects.** -/
theorem step_effect {w w' : World G F} {a : Action F ν}
    (h : step config factory cycle w a = some w') : Effect config factory w a w' := by
  cases a with
  | mutate m =>
    obtain rfl := Option.some.inj h
    exact .quiet rfl rfl rfl rfl (Or.inr ⟨m, rfl⟩)
  | rebuildOnce =>
    simp only [step] at h
    split at h
    · rename_i hrebuild
      obtain rfl := Option.some.inj h
      exact .began hrebuild
    · exact absurd h (by simp)
  | buildNode other =>
    simp only [step] at h
    split at h
    · rename_i n nodes edges b hrebuild
      split at h
      · rename_i herr
        obtain rfl := Option.some.inj h
        obtain ⟨⟨hsource, hsink, hother⟩, hgw⟩ :=
          build_eq_none factory other w.gateway (Building.addBuilt_eq_error herr)
        have hfails : fails config factory w (.buildNode other) = true := by
          simp [fails, hrebuild, hsource, hsink, hother]
        rw [hgw]
        exact .failed hrebuild hfails
      · rename_i hok
        obtain rfl := Option.some.inj h
        exact .built hrebuild hok
    · exact absurd h (by simp)
  | linkEdge =>
    simp only [step] at h
    split at h
    · rename_i e edges b hrebuild
      split at h
      · rename_i herr
        obtain rfl := Option.some.inj h
        exact .failed hrebuild (by simp [fails, hrebuild, herr, Except.toBool])
      · rename_i hok
        obtain rfl := Option.some.inj h
        exact .linked hrebuild hok
    · exact absurd h (by simp)
  | compile =>
    simp only [step] at h
    split at h
    · rename_i b hrebuild
      split at h
      · rename_i herr
        obtain rfl := Option.some.inj h
        exact .failed hrebuild (by simp [fails, hrebuild, herr, Except.toBool])
      · rename_i hok
        obtain rfl := Option.some.inj h
        exact .deposited hrebuild hok
    · exact absurd h (by simp)
  | newEngine =>
    simp only [step] at h
    split at h
    · rename_i hlive hslot
      obtain rfl := Option.some.inj h
      exact .quiet rfl rfl rfl (by simp [hslot]) (Or.inl rfl)
    · exact absurd h (by simp)
  | engineStep =>
    simp only [step] at h
    split at h
    · exact absurd h (by simp)
    · split at h
      · obtain rfl := Option.some.inj h
        exact .quiet rfl rfl rfl rfl (Or.inl rfl)
      · rename_i hslot
        obtain rfl := Option.some.inj h
        exact .quiet rfl rfl rfl (by simp [hslot]) (Or.inl rfl)
  | pushInbound frame =>
    obtain rfl := Option.some.inj h
    obtain ⟨hbridge, hnext⟩ := w.gateway.pushInbound_bridge frame
    exact .quiet rfl hbridge hnext rfl (Or.inl rfl)
  | popOutbound =>
    obtain rfl := Option.some.inj h
    obtain ⟨hbridge, hnext⟩ := w.gateway.popOutbound_bridge
    exact .quiet rfl hbridge hnext rfl (Or.inl rfl)

end Effect

/-! ### The invariant -/

section Rings

variable {G ν : Type} [GraphOps G (AudioNode ν)] [LawfulGraphOps G (AudioNode ν)] {d : Direction}

theorem ringsOf_new : ringsOf d (Building.new : Building G).graph = [] := by
  rw [ringsOf, Building.new, slots_new]
  rfl

theorem ringsOf_addBuilt {b b' : Building G} {id : NodeId} {n : BuiltNode (AudioNode ν)}
    (h : b.addBuilt id (some n) = .ok b') :
    ringsOf d b'.graph = ringsOf d b.graph ++ (ring d n).toList := by
  obtain ⟨m, hm, hslots⟩ := Building.addBuilt_eq_ok h
  obtain rfl := Option.some.inj hm
  rw [ringsOf, hslots, List.filterMap_append, ringsOf]
  cases hr : ring d n with
  | none => simp [hr]
  | some r => simp [hr]

theorem ringsOf_linkEdge {b b' : Building G} {e : SnapshotEdge} (h : b.linkEdge e = .ok b') :
    ringsOf d b'.graph = ringsOf d b.graph := by
  rw [ringsOf, Building.slots_linkEdge h, ringsOf]

theorem ringsOf_compile {b : Building G} {config : GraphConfig} {g : G}
    (h : b.compile config = .ok g) : ringsOf d g = ringsOf d b.graph := by
  rw [ringsOf, Building.slots_compile_building h, ringsOf]

end Rings

section Invariant

variable {G F ν : Type} [GraphOps G (AudioNode ν)] (factory : BridgeFactory) (d : Direction)

/-- **What holds of a running rebuild.** The bridge's end is where it was until the ring node has
been made, and from then on it is with that node's ring. -/
structure RebuildInv (w : World G F) (rb : Rebuilding G) : Prop where
  /-- The node is made once. -/
  nodup : (rb.nodes.map NodeSnapshot.id).Nodup
  unmade : factory.bridgeId d ∈ rb.nodes.map NodeSnapshot.id → ringsOf d rb.building.graph = []
  kept : ringsOf d rb.building.graph = [] →
    ∀ r ∈ latestRings d w, w.gateway.bridge.handle d = some r
  made : ∀ r ∈ ringsOf d rb.building.graph,
    w.gateway.bridge.handle d = some r ∧ r < w.gateway.rings.next ∧ r ∉ latestRings d w

/-- **The bridge invariant**, for one direction. Unless a rebuild is running, the bridge's end is
the other end of the graph that is live or about to be. -/
structure Inv (w : World G F) : Prop where
  nodup : w.topology.ids.Nodup
  allocated : ∀ r ∈ latestRings d w, r < w.gateway.rings.next
  idle : w.rebuild = none → ∀ r ∈ latestRings d w, w.gateway.bridge.handle d = some r
  running : ∀ rb, w.rebuild = some rb → RebuildInv factory d w rb

variable {factory d}

theorem inv_start {topology : TopologySnapshot} (h : topology.ids.Nodup) (bridge : GatewayBridge) :
    Inv factory d (start topology bridge : World G F) := by
  have hnone : latestRings d (start topology bridge : World G F) = [] := rfl
  refine ⟨h, ?_, ?_, fun rb hrb => absurd hrb (by simp [start])⟩
  · simp [hnone]
  · simp [hnone]

theorem latestRings_congr {w w' : World G F} (h : w'.slot.or w'.live = w.slot.or w.live) :
    latestRings d w' = latestRings d w := by
  rw [latestRings, h, latestRings]

/-- The steps of the other parties keep the invariant. -/
theorem Inv.quiet {w w' : World G F} (h : Inv factory d w) (hrebuild : w'.rebuild = w.rebuild)
    (hbridge : w'.gateway.bridge = w.gateway.bridge)
    (hnext : w'.gateway.rings.next = w.gateway.rings.next)
    (hlatest : w'.slot.or w'.live = w.slot.or w.live) (hnodup : w'.topology.ids.Nodup) :
    Inv factory d w' := by
  have hrings := latestRings_congr (d := d) hlatest
  refine ⟨hnodup, ?_, ?_, ?_⟩
  · rw [hrings, hnext]
    exact h.allocated
  · rw [hrings, hbridge, hrebuild]
    exact h.idle
  · intro rb hrb
    rw [hrebuild] at hrb
    obtain ⟨hnodup, hunmade, hkept, hmade⟩ := h.running rb hrb
    refine ⟨hnodup, hunmade, ?_, ?_⟩
    · rw [hrings, hbridge]
      exact hkept
    · rw [hrings, hbridge, hnext]
      exact hmade

/-- Only the rebuild changes, and its graph keeps its ring nodes. -/
theorem Inv.rebuild {w : World G F} (h : Inv factory d w) {rb : Rebuilding G}
    (hrb : RebuildInv factory d w rb) : Inv factory d { w with rebuild := some rb } := by
  refine ⟨h.nodup, h.allocated, fun hnone => absurd hnone (by simp), fun rb' hrb' => ?_⟩
  obtain rfl := Option.some.inj hrb'
  exact ⟨hrb.nodup, hrb.unmade, hrb.kept, hrb.made⟩

variable [LawfulGraphOps G (AudioNode ν)]

/-- **The start of a rebuild keeps the invariant.** -/
theorem Inv.began {w : World G F} (h : Inv factory d w) (hrebuild : w.rebuild = none) :
    Inv factory d
      { w with rebuild := some ⟨w.topology.nodes, w.topology.edges, Building.new⟩ } := by
  have hnew : ringsOf d (Building.new : Building G).graph = [] := ringsOf_new
  refine h.rebuild ⟨h.nodup, fun _ => hnew, fun _ => h.idle hrebuild, ?_⟩
  intro r hr
  rw [hnew] at hr
  exact absurd hr (by simp)

/-- **Making the ring node keeps the invariant**: the bridge gets the other end of its ring. -/
theorem Inv.built_bridge {w : World G F} (h : Inv factory d w) {n : NodeSnapshot}
    {nodes : List NodeSnapshot} {edges : List SnapshotEdge} {b b' : Building G}
    {other : NodeId → Option (BuiltNode ν)} (hrebuild : w.rebuild = some ⟨n :: nodes, edges, b⟩)
    (hbuilt : b.addBuilt n.id (factory.build other n.id w.gateway).1 = .ok b')
    (hid : n.id = factory.bridgeId d) :
    Inv factory d { w with
      gateway := (factory.build other n.id w.gateway).2, rebuild := some ⟨nodes, edges, b'⟩ } := by
  have hrb := h.running _ hrebuild
  obtain ⟨node, gw', hbuild, hring, hhandle, hnext⟩ := build_bridgeId factory other w.gateway d
  rw [hid] at hbuilt ⊢
  rw [hbuild] at hbuilt ⊢
  -- it is the first and the last of its kind
  have hmem : factory.bridgeId d ∈ (n :: nodes).map NodeSnapshot.id := by
    rw [← hid]
    exact List.mem_cons_self
  have hrings : ringsOf d b'.graph = [w.gateway.rings.next] := by
    rw [ringsOf_addBuilt hbuilt, hrb.unmade hmem, hring]
    rfl
  obtain ⟨hnotMem, hnodup⟩ := List.nodup_cons.mp hrb.nodup
  have hlt : ∀ r ∈ latestRings d w, r < gw'.rings.next := by
    intro r hr
    rw [hnext]
    exact Nat.lt_succ_of_lt (h.allocated r hr)
  refine ⟨h.nodup, hlt, fun hnone => absurd hnone (by simp), fun rb' hrb' => ?_⟩
  obtain rfl := Option.some.inj hrb'
  refine ⟨hnodup, fun hc => ?_, fun hnil => ?_, fun r hr => ?_⟩
  · rw [← hid] at hc
    exact absurd hc hnotMem
  · exact absurd (hrings.symm.trans hnil) (by simp)
  · have hr' : r = w.gateway.rings.next := by
      rw [hrings] at hr
      exact List.mem_singleton.mp hr
    refine ⟨hr' ▸ hhandle, ?_, fun hc => ?_⟩
    · change r < gw'.rings.next
      rw [hr', hnext]
      exact Nat.lt_succ_self _
    · exact absurd (h.allocated r hc) (hr' ▸ Nat.lt_irrefl _)

/-- **Making any other node keeps the invariant.** -/
theorem Inv.built_other {w : World G F} (h : Inv factory d w) {n : NodeSnapshot}
    {nodes : List NodeSnapshot} {edges : List SnapshotEdge} {b b' : Building G}
    {other : NodeId → Option (BuiltNode ν)} (hrebuild : w.rebuild = some ⟨n :: nodes, edges, b⟩)
    (hbuilt : b.addBuilt n.id (factory.build other n.id w.gateway).1 = .ok b')
    (hid : n.id ≠ factory.bridgeId d) :
    Inv factory d { w with
      gateway := (factory.build other n.id w.gateway).2, rebuild := some ⟨nodes, edges, b'⟩ } := by
  have hrb := h.running _ hrebuild
  obtain ⟨hhandle, hnext, hnone⟩ := build_of_ne factory other w.gateway hid
  have hrings : ringsOf d b'.graph = ringsOf d b.graph := by
    obtain ⟨node, hnode, -⟩ := Building.addBuilt_eq_ok hbuilt
    rw [hnode] at hbuilt
    rw [ringsOf_addBuilt hbuilt, hnone node hnode]
    exact List.append_nil _
  have hlt : ∀ r ∈ latestRings d w, r < (factory.build other n.id w.gateway).2.rings.next :=
    fun r hr => Nat.lt_of_lt_of_le (h.allocated r hr) hnext
  refine ⟨h.nodup, hlt, fun hnone => absurd hnone (by simp), fun rb' hrb' => ?_⟩
  obtain rfl := Option.some.inj hrb'
  refine ⟨(List.nodup_cons.mp hrb.nodup).2, fun hmem => ?_, fun hnil => ?_, fun r hr => ?_⟩
  · exact hrings.trans (hrb.unmade (List.mem_cons_of_mem _ hmem))
  · intro r hr
    exact hhandle.trans (hrb.kept (hrings.symm.trans hnil) r hr)
  · change r ∈ ringsOf d b'.graph at hr
    rw [hrings] at hr
    obtain ⟨hr, hlt, hnotMem⟩ := hrb.made r hr
    exact ⟨hhandle.trans hr, Nat.lt_of_lt_of_le hlt hnext, hnotMem⟩

/-- **Making a link keeps the invariant.** -/
theorem Inv.linked {w : World G F} (h : Inv factory d w) {e : SnapshotEdge}
    {edges : List SnapshotEdge} {b b' : Building G}
    (hrebuild : w.rebuild = some ⟨[], e :: edges, b⟩) (hlink : b.linkEdge e = .ok b') :
    Inv factory d { w with rebuild := some ⟨[], edges, b'⟩ } := by
  have hrb := h.running _ hrebuild
  have hrings : ringsOf d b'.graph = ringsOf d b.graph := ringsOf_linkEdge hlink
  refine h.rebuild ⟨hrb.nodup, fun hmem => absurd hmem (by simp), fun hnil => ?_, fun r hr => ?_⟩
  · exact hrb.kept (hrings.symm.trans hnil)
  · exact hrb.made r (hrings ▸ hr)

/-- **A successful rebuild keeps the invariant**: what is about to be live is what the bridge has
been given the ends of. -/
theorem Inv.deposited {config : GraphConfig} {w : World G F} (h : Inv factory d w)
    {b : Building G} {g : G} (hrebuild : w.rebuild = some ⟨[], [], b⟩)
    (hcompile : b.compile config = .ok g) :
    Inv factory d { w with rebuild := none, slot := some g } := by
  have hrb := h.running _ hrebuild
  have hlatest : latestRings d { w with rebuild := none, slot := some g } = ringsOf d b.graph :=
    ringsOf_compile hcompile
  refine ⟨h.nodup, ?_, fun _ => ?_, fun rb hrb => absurd hrb (by simp)⟩
  · rw [hlatest]
    exact fun r hr => (hrb.made r hr).2.1
  · rw [hlatest]
    exact fun r hr => (hrb.made r hr).1

omit [LawfulGraphOps G (AudioNode ν)] in
/-- **A harmless failure keeps the invariant.** -/
theorem Inv.failed {w : World G F} (h : Inv factory d w) {rb : Rebuilding G}
    (hrebuild : w.rebuild = some rb) (hspares : spares d w = true) :
    Inv factory d { w with rebuild := none } := by
  have hrb := h.running rb hrebuild
  refine ⟨h.nodup, h.allocated, fun _ => ?_, fun rb hrb => absurd hrb (by simp)⟩
  simp only [spares, hrebuild, Bool.or_eq_true, List.isEmpty_iff] at hspares
  rcases hspares with hnil | hnil
  · exact hrb.kept hnil
  · intro r hr
    change r ∈ latestRings d w at hr
    rw [hnil] at hr
    exact absurd hr (by simp)

omit [LawfulGraphOps G (AudioNode ν)] in
/-- **A failure that is not harmless leaves the bridge with the end of a ring that no graph
has**, while the graph that is live or about to be has one in that direction. -/
theorem Inv.lost {w : World G F} (h : Inv factory d w) {rb : Rebuilding G}
    (hrebuild : w.rebuild = some rb) (hspares : spares d w = false) :
    ∃ r ∈ latestRings d w, w.gateway.bridge.handle d ≠ some r := by
  have hrb := h.running rb hrebuild
  simp only [spares, hrebuild, Bool.or_eq_false_iff, List.isEmpty_eq_false_iff] at hspares
  obtain ⟨s, hs⟩ := List.exists_mem_of_ne_nil _ hspares.1
  obtain ⟨r, hr⟩ := List.exists_mem_of_ne_nil _ hspares.2
  obtain ⟨hhandle, -, hnotMem⟩ := hrb.made s hs
  refine ⟨r, hr, fun hc => ?_⟩
  have hsr : s = r := Option.some.inj (hhandle.symm.trans hc)
  exact hnotMem (hsr ▸ hr)

end Invariant

section Runs

variable {G F ν : Type} [GraphOps G (AudioNode ν)] [SnapshotApply] {config : GraphConfig}
  {factory : BridgeFactory} {cycle : G → (RingId → List F) → RingId → List F}

/-- **A failure drops the graph under construction, and that is all.** The live graph and the one
in the slot stay, and the bridge's ends are where the factory has put them. -/
theorem step_of_fails {w : World G F} {a : Action F ν} (h : fails config factory w a = true) :
    step config factory cycle w a = some { w with rebuild := none } := by
  cases a with
  | buildNode other =>
    simp only [fails] at h
    split at h
    · rename_i n nodes edges b hrebuild
      simp only [ne_eq, decide_not, Bool.and_eq_true, Bool.not_eq_true', decide_eq_false_iff_not,
        Option.isNone_iff_eq_none] at h
      obtain ⟨⟨hsource, hsink⟩, hother⟩ := h
      simp only [step, hrebuild, BridgeFactory.build, if_neg hsource, if_neg hsink, hother,
        Option.map_none, Building.addBuilt]
    · exact absurd h (by simp)
  | linkEdge =>
    simp only [fails] at h
    split at h
    · rename_i e edges b hrebuild
      cases herr : b.linkEdge e with
      | error err => simp only [step, hrebuild, herr]
      | ok b' => exact absurd h (by simp [herr, Except.toBool])
    · exact absurd h (by simp)
  | compile =>
    simp only [fails] at h
    split at h
    · rename_i b hrebuild
      cases herr : b.compile config with
      | error err => simp only [step, hrebuild, herr]
      | ok g => exact absurd h (by simp [herr, Except.toBool])
    · exact absurd h (by simp)
  | _ => exact absurd h (by simp [fails])

variable [LawfulGraphOps G (AudioNode ν)] [LawfulSnapshotApply]

/-- **Every harmless step keeps the invariant.** -/
theorem Inv.step {d : Direction} {w w' : World G F} (h : Inv factory d w) {a : Action F ν}
    (hharmless : Harmless config factory w a) (hs : step config factory cycle w a = some w') :
    Inv factory d w' := by
  cases step_effect hs with
  | quiet hrebuild hbridge hnext hlatest htopology =>
    refine h.quiet hrebuild hbridge hnext hlatest ?_
    rcases htopology with heq | ⟨m, heq⟩
    · rw [heq]
      exact h.nodup
    · rw [heq]
      exact TopologySnapshot.nodup_ids_apply h.nodup m
  | began hrebuild => exact h.began hrebuild
  | @built n nodes edges b b' other hrebuild hbuilt =>
    by_cases hid : n.id = factory.bridgeId d
    · exact h.built_bridge hrebuild hbuilt hid
    · exact h.built_other hrebuild hbuilt hid
  | linked hrebuild hlink => exact h.linked hrebuild hlink
  | deposited hrebuild hcompile => exact h.deposited hrebuild hcompile
  | failed hrebuild hfails =>
    obtain ⟨hin, hout⟩ := hharmless hfails
    cases d with
    | inbound => exact h.failed hrebuild hin
    | outbound => exact h.failed hrebuild hout

omit [SnapshotApply] [LawfulGraphOps G (AudioNode ν)] [LawfulSnapshotApply] in
/-- A ring that the live graph has and the bridge has not the other end of. -/
theorem not_connected {d : Direction} {w : World G F} {g : G} (hlive : w.live = some g)
    {r : RingId} (hr : r ∈ ringsOf d g) (hne : w.gateway.bridge.handle d ≠ some r) :
    ¬ Connected w := by
  intro hc
  obtain ⟨hin, hout⟩ := hc g hlive
  cases d with
  | inbound => exact hne (hin r hr).1
  | outbound => exact hne (hout r hr).1

omit [LawfulGraphOps G (AudioNode ν)] [LawfulSnapshotApply] in
/-- When no rebuild is running, at most one step of the engine makes the graph that is about to be
live the live one. -/
theorem exists_run_settled {d : Direction} {w : World G F} (hrebuild : w.rebuild = none)
    {r : RingId} (hr : r ∈ latestRings d w) :
    ∃ bs ∈ [[], [.newEngine], [.engineStep]], ∃ w' g,
      Transition.run (Bridge.step config factory cycle) w bs = some w' ∧
      Settled w' ∧ w'.live = some g ∧ r ∈ ringsOf d g ∧ w'.gateway.bridge = w.gateway.bridge := by
  rw [latestRings] at hr
  rcases hslot : w.slot with _ | g
  · rw [hslot, Option.none_or] at hr
    rcases hlive : w.live with _ | g
    · rw [hlive] at hr
      exact absurd hr (by simp)
    · rw [hlive] at hr
      exact ⟨[], by simp, w, g, rfl, ⟨hrebuild, hslot⟩, hlive, hr, rfl⟩
  · rw [hslot, Option.some_or] at hr
    rcases hlive : w.live with _ | old
    · refine ⟨[.newEngine], by simp, { w with slot := none, live := some g }, g, ?_,
        ⟨hrebuild, rfl⟩, rfl, hr, rfl⟩
      simp only [Transition.run, Bridge.step, hlive, hslot, Option.bind_some]
    · have hstep : Transition.run (Bridge.step config factory cycle) w [.engineStep] =
          some { w with
            gateway := { w.gateway with
              rings := { w.gateway.rings with frames := cycle old w.gateway.rings.frames } }
            slot := none
            live := some g } := by
        simp only [Transition.run, Bridge.step, hlive, hslot, Option.bind_some]
      exact ⟨[.engineStep], by simp, _, g, hstep, ⟨hrebuild, rfl⟩, rfl, hr, rfl⟩

variable {ms : List Mutation} {bridge : GatewayBridge} {as : List (Action F ν)} {w : World G F}
  (hrun : Transition.run (Bridge.step config factory cycle)
    (start (TopologySnapshot.new.applyAll ms) bridge) as = some w)
  (hmeets : Transition.Meets (Bridge.step config factory cycle) (Harmless config factory)
    (start (TopologySnapshot.new.applyAll ms) bridge) as)

include hrun hmeets

/-- Every run of harmless steps keeps the invariant. -/
theorem inv_run (d : Direction) : Inv factory d w :=
  Transition.invariant_of_meets (fun _ _ _ h hc hs => h.step hc hs)
    (inv_start (TopologySnapshot.nodup_ids_applyAll (t := .new) List.nodup_nil ms) bridge)
    hmeets hrun

/-- **The gateway stays connected to the live graph** in every run whose failures are harmless:
whatever the store, the rebuild thread, the engine and the gateway do and in whatever order,
whenever no rebuild is running and the slot has been drained, frames that are pushed go to the
live graph's source and frames that are popped come from its sink. -/
theorem connected_of_run (hsettled : Settled w) : Connected w := by
  intro g hlive
  obtain ⟨hrebuild, hslot⟩ := hsettled
  have hlatest : ∀ d, latestRings d w = ringsOf d g := by
    intro d
    rw [latestRings, hslot, Option.none_or, hlive]
  have hhandle : ∀ d, ∀ r ∈ ringsOf d g, w.gateway.bridge.handle d = some r := by
    intro d r hr
    exact (inv_run hrun hmeets d).idle hrebuild r (hlatest d ▸ hr)
  constructor
  · intro r hr
    have hin : w.gateway.bridge.inbound = some r := hhandle .inbound r hr
    refine ⟨hin, fun frame => ?_⟩
    rw [Gateway.pushInbound, hin]
  · intro r hr
    have hout : w.gateway.bridge.outbound = some r := hhandle .outbound r hr
    refine ⟨hout, ?_⟩
    rw [Gateway.popOutbound, hout]

/-- **One failure that is not harmless is enough to disconnect it**: with at most one step, in which
the engine starts or goes on with the graph in the slot, the rebuild is over, the slot has been
drained, and the live graph has a ring that the bridge does not hold the other end of. -/
theorem disconnected_of_fails {a : Action F ν} (hnot : ¬ Harmless config factory w a) :
    ∃ bs ∈ [[], [.newEngine], [.engineStep]], ∃ w',
      Transition.run (Bridge.step config factory cycle) w (a :: bs) = some w' ∧
      Settled w' ∧ ¬ Connected w' := by
  obtain ⟨hfails, hspares⟩ := Classical.not_imp.mp hnot
  have hlost : ∀ d, spares d w = false →
      ∃ r ∈ latestRings d w, w.gateway.bridge.handle d ≠ some r := by
    intro d hd
    cases hrebuild : w.rebuild with
    | none => exact absurd hd (by simp [spares, hrebuild])
    | some rb => exact (inv_run hrun hmeets d).lost hrebuild hd
  obtain ⟨d, r, hr, hne⟩ : ∃ d, ∃ r ∈ latestRings d w, w.gateway.bridge.handle d ≠ some r := by
    by_cases hin : spares .inbound w = true
    · have hout : spares .outbound w = false := by
        rw [← Bool.not_eq_true]
        exact fun hc => hspares ⟨hin, hc⟩
      exact ⟨.outbound, hlost .outbound hout⟩
    · exact ⟨.inbound, hlost .inbound (Bool.not_eq_true _ ▸ hin)⟩
  -- the failure leaves the rings as they are; the engine makes the graph live
  obtain ⟨bs, hbs, w', g, hrun', hsettled, hlive, hmem, hbridge⟩ :=
    exists_run_settled (w := { w with rebuild := none }) rfl hr
  refine ⟨bs, hbs, w', ?_, hsettled, not_connected hlive hmem (hbridge ▸ hne)⟩
  rw [Transition.run, step_of_fails hfails]
  exact hrun'

end Runs

/-! ### Two runs -/

/-- A graph that hands the next frame from its source to its sink. -/
def passthrough {F ν : Type} (g : RecordedGraph (AudioNode ν)) (frames : RingId → List F) :
    RingId → List F :=
  match ringsOf .inbound g, ringsOf .outbound g with
  | [source], [sink] =>
      match frames source with
      | [] => frames
      | frame :: rest =>
          Function.update (Function.update frames source rest) sink (frames sink ++ [frame])
  | _, _ => frames

/-- A factory that knows its source, `0`, and its sink, `1`, and nothing else. -/
def bridgeFactory : BridgeFactory := ⟨0, 1, by decide⟩

def noOther (_ : NodeId) : Option (BuiltNode Unit) := none

/-- A source, a sink and a link between them. -/
def seeded : List Mutation :=
  [.addNode ⟨0, [], [⟨.output, 2, .f32⟩]⟩, .addNode ⟨1, [⟨.input, 2, .f32⟩], []⟩,
    .addLink ⟨(0, 0), (1, 0)⟩]

/-- The first build, and the start of the engine. -/
def firstBuild : List (Action ℕ Unit) :=
  [.rebuildOnce, .buildNode noOther, .buildNode noOther, .linkEdge, .compile, .newEngine]

/-- The system of the two runs. -/
def bridgeStep [SnapshotApply] :
    World (RecordedGraph (AudioNode Unit)) ℕ → Action ℕ Unit →
      Option (World (RecordedGraph (AudioNode Unit)) ℕ) :=
  step ⟨128, 48000, 2⟩ bridgeFactory passthrough

/-- A frame goes through; then the nodes are replaced by one that the factory does not know, and
the rebuild fails before it has made any. -/
def harmlessFailure : List (Action ℕ Unit) :=
  firstBuild ++ [.pushInbound 5, .engineStep, .mutate (.removeNode 0), .mutate (.removeNode 1),
    .mutate (.addNode ⟨7, [], []⟩), .rebuildOnce, .buildNode noOther]

/-- A node that the factory does not know comes after the source and the sink. -/
def unknownNode : List (Action ℕ Unit) :=
  firstBuild ++ [.mutate (.addNode ⟨7, [], []⟩), .rebuildOnce, .buildNode noOther,
    .buildNode noOther, .buildNode noOther]

theorem connected_of_harmlessFailure :
    letI := SnapshotApply.documented
    ∃ w, Transition.run bridgeStep (start (TopologySnapshot.new.applyAll seeded) (.new 2 48000 128))
        harmlessFailure = some w ∧
      Settled w ∧ Connected w ∧ w.gateway.popOutbound.1 = .ok 5 := by
  let := SnapshotApply.documented
  have := SnapshotApply.lawful_documented
  refine ⟨_, rfl, ⟨rfl, rfl⟩, ?_, rfl⟩
  exact connected_of_run
    (show Transition.run bridgeStep
      (start (TopologySnapshot.new.applyAll seeded) (.new 2 48000 128)) harmlessFailure = _
        from rfl)
    (by decide) ⟨rfl, rfl⟩

theorem disconnected_of_fails_unknownNode :
    letI := SnapshotApply.documented
    ∃ w, ∃ bs ∈ [[], [.newEngine], [.engineStep]], ∃ w', Transition.run bridgeStep
        (start (TopologySnapshot.new.applyAll seeded) (.new 2 48000 128)) unknownNode.dropLast =
          some w ∧
      Transition.run bridgeStep w (.buildNode noOther :: bs) = some w' ∧
      Settled w' ∧ ¬Connected w' := by
  let := SnapshotApply.documented
  have := SnapshotApply.lawful_documented
  obtain ⟨bs, hbs, w', hrun', hsettled, hnot⟩ := disconnected_of_fails
    (show Transition.run bridgeStep (start (TopologySnapshot.new.applyAll seeded)
      (.new 2 48000 128)) unknownNode.dropLast = some _ from rfl) (by decide)
    (a := .buildNode noOther) (by decide)
  exact ⟨_, bs, hbs, w', rfl, hrun', hsettled, hnot⟩

/-- **A node the factory does not know disconnects the gateway.** The rebuild makes a source and a
sink before it gets to that node. It fails, the graph that was live stays live, and the gateway
pushes into a ring that nobody reads. -/
theorem disconnected_by_unknown_node :
    letI := SnapshotApply.documented
    ∃ w, Transition.run bridgeStep (start (TopologySnapshot.new.applyAll seeded) (.new 2 48000 128))
        unknownNode = some w ∧
      Settled w ∧ ¬ Connected w := by
  let := SnapshotApply.documented
  refine ⟨_, rfl, ⟨rfl, rfl⟩, fun hc => ?_⟩
  -- the live graph reads ring `0`
  have hpush := ((hc _ rfl).1 0 (by decide)).2 5
  exact absurd (congrArg (fun p => p.2.rings.frames 0) hpush) (by decide)

end Bridge

end SonicBrew
