import SonicBrew.Server.Restart

/-!
# Importing what was exported

A preset has of a node's ports only how many there are, and of a link only its four numbers. Import
makes the rest up: it takes every port for a mono port of floats. For a node that was created
through the control surface that is what it is. The bridge is seeded with ports of two channels, and
a file with those of the file, so importing the preset of a server that has just started changes the
topology (`SonicBrew.Server.reimport_narrows_bridge`).

Nothing but the channels is lost. Whatever is written to the store – by the start, by edits, by
imports of well-formed presets, also by those that fail half way – is something that the numbers of
a preset can stand for (`SonicBrew.Server.Exportable`), and so the topology survives if and only if
all its ports are mono (`SonicBrew.Server.reimport_keeps_iff`).
-/

namespace SonicBrew

namespace Server

open GraphController

/-! ### Topologies that a preset can stand for -/

/-- Ports of one side of a node, their channels apart: as an import would make them, and not too
many to be counted by a preset. -/
structure PortsFit (dir : PortDir) (ports : List PortMeta) : Prop where
  count : ports.length < UInt16.size
  shape : ∀ port ∈ ports, port.direction = dir ∧ port.sampleFormat = .f32

/-- A node with such ports. -/
def NodeFits (n : NodeSnapshot) : Prop :=
  PortsFit .input n.inputs ∧ PortsFit .output n.outputs

/-- A link between nodes of the topology, with ports that a preset can number. -/
def EdgeFits (t : TopologySnapshot) (e : SnapshotEdge) : Prop :=
  (e.src.1 ∈ t.ids ∧ e.src.2 < UInt16.size) ∧ e.dst.1 ∈ t.ids ∧ e.dst.2 < UInt16.size

/-- **A topology of which an export loses the channels at most.** -/
structure Exportable (t : TopologySnapshot) : Prop where
  nodup : t.ids.Nodup
  nodes : ∀ n ∈ t.nodes, NodeFits n
  edges : ∀ e ∈ t.edges, EdgeFits t e

/-- What a mutation may add. -/
def MutationFits (t : TopologySnapshot) : Mutation → Prop
  | .addNode n => NodeFits n
  | .addLink e => EdgeFits t e
  | .removeNode _ => True
  | .removeLink _ => True

/-- Mutations one after the other. -/
def MutationsFit [SnapshotApply] (t : TopologySnapshot) : List Mutation → Prop
  | [] => True
  | m :: ms => MutationFits t m ∧ MutationsFit (t.apply m) ms

/-- All ports have one channel. -/
def Mono (t : TopologySnapshot) : Prop :=
  ∀ n ∈ t.nodes, ∀ port ∈ n.inputs ++ n.outputs, port.channels = 1

theorem exportable_new : Exportable TopologySnapshot.new :=
  ⟨List.nodup_nil, fun _ h => absurd h List.not_mem_nil, fun _ h => absurd h List.not_mem_nil⟩

theorem portsFit_buildPorts (count : UInt16) (dir : PortDir) :
    PortsFit dir (buildPorts count dir) := by
  constructor
  · rw [length_buildPorts]
    exact count.toNat_lt
  · intro port hport
    obtain rfl := List.eq_of_mem_replicate hport
    exact ⟨rfl, rfl⟩

/-- One port fits, whatever its channels. -/
theorem portsFit_single (dir : PortDir) (channels : UInt16) :
    PortsFit dir [⟨dir, channels, .f32⟩] := by
  refine ⟨show 1 < UInt16.size by decide, fun port hport => ?_⟩
  obtain rfl := List.mem_singleton.mp hport
  exact ⟨rfl, rfl⟩

theorem portsFit_nil (dir : PortDir) : PortsFit dir [] :=
  ⟨by decide, fun _ h => absurd h List.not_mem_nil⟩

/-- A link that `link_ports` has let through. -/
theorem edgeFits_of_edgeOk {t : TopologySnapshot} (hnodes : ∀ n ∈ t.nodes, NodeFits n)
    {e : SnapshotEdge} (h : EdgeOk t e) : EdgeFits t e := by
  obtain ⟨⟨n, hn, hsrc⟩, m, hm, hdst⟩ := h
  obtain ⟨hmemn, -⟩ := TopologySnapshot.mem_of_node hn
  obtain ⟨hmemm, -⟩ := TopologySnapshot.mem_of_node hm
  exact ⟨⟨TopologySnapshot.mem_ids_iff.mpr ⟨n, hn⟩, hsrc.trans (hnodes n hmemn).2.count⟩,
    TopologySnapshot.mem_ids_iff.mpr ⟨m, hm⟩, hdst.trans (hnodes m hmemm).1.count⟩

section Apply

variable [SnapshotApply] [LawfulSnapshotApply]

/-- **One mutation.** -/
theorem Exportable.apply {t : TopologySnapshot} (h : Exportable t) {m : Mutation}
    (hm : MutationFits t m) : Exportable (t.apply m) := by
  refine ⟨TopologySnapshot.nodup_ids_apply h.nodup m, fun n hn => ?_, fun e he => ?_⟩
  · cases m with
    | addNode node =>
      rw [apply_addNode] at hn
      rcases TopologySnapshot.mem_or_of_mem_upsertNode hn with rfl | hn
      · exact hm
      · exact h.nodes n hn
    | removeNode id =>
      rw [apply_removeNode] at hn
      exact h.nodes n (List.mem_of_mem_filter hn)
    | addLink edge =>
      rw [apply_addLink] at hn
      exact h.nodes n hn
    | removeLink id =>
      rw [apply_removeLink] at hn
      exact h.nodes n hn
  · cases m with
    | addNode node =>
      rw [apply_addNode] at he
      obtain ⟨⟨hsrc, hsrcPort⟩, hdst, hdstPort⟩ := h.edges e he
      exact ⟨⟨TopologySnapshot.mem_ids_apply_addNode.mpr (.inr hsrc), hsrcPort⟩,
        TopologySnapshot.mem_ids_apply_addNode.mpr (.inr hdst), hdstPort⟩
    | removeNode id =>
      -- the links that are left have none of their ends at the node
      rw [apply_removeNode] at he
      obtain ⟨he, hne⟩ := List.mem_filter.mp he
      obtain ⟨hnesrc, hnedst⟩ := of_decide_eq_true hne
      obtain ⟨⟨hsrc, hsrcPort⟩, hdst, hdstPort⟩ := h.edges e he
      exact ⟨⟨TopologySnapshot.mem_ids_apply_removeNode.mpr ⟨hsrc, hnesrc⟩, hsrcPort⟩,
        TopologySnapshot.mem_ids_apply_removeNode.mpr ⟨hdst, hnedst⟩, hdstPort⟩
    | addLink edge =>
      rw [apply_addLink] at he ⊢
      rcases List.mem_append.mp he with he | he
      · exact h.edges e he
      · obtain rfl := List.mem_singleton.mp he
        exact hm
    | removeLink id =>
      rw [apply_removeLink] at he ⊢
      exact h.edges e (List.mem_of_mem_eraseIdx he)

/-- The mutations of a start fit the topology they are for. -/
theorem mutationsFit_seedMutations (t : TopologySnapshot) (loaded : Option FileBuffer) :
    MutationsFit t (seedMutations t loaded) := by
  have hsource : NodeFits sourceNode := ⟨portsFit_nil _, portsFit_single _ _⟩
  have hsink : NodeFits sinkNode := ⟨portsFit_single _ _, portsFit_nil _⟩
  have hfile : ∀ id buf, NodeFits (fileNode id buf) :=
    fun _ _ => ⟨portsFit_nil _, portsFit_single _ _⟩
  have hport : 0 < UInt16.size := by decide
  rw [seedMutations]
  split
  · cases loaded with
    | none =>
      refine ⟨hsource, hsink, ⟨⟨?_, hport⟩, ?_, hport⟩, trivial⟩
      · exact TopologySnapshot.mem_ids_apply_addNode.mpr
          (.inr (TopologySnapshot.mem_ids_apply_addNode.mpr (.inl rfl)))
      · exact TopologySnapshot.mem_ids_apply_addNode.mpr (.inl rfl)
    | some buf =>
      refine ⟨hsource, hsink, hfile _ buf, ?_, trivial⟩
      simp only [MutationFits, EdgeFits, TopologySnapshot.mem_ids_apply_addNode]
      -- whichever link it is, both of its nodes have just been added
      rw [seedLink]
      split
      · exact ⟨⟨.inl rfl, hport⟩, .inr (.inl rfl), hport⟩
      · exact ⟨⟨.inr (.inr (.inl rfl)), hport⟩, .inr (.inl rfl), hport⟩
  · cases loaded with
    | none => exact trivial
    | some buf => exact ⟨hfile _ buf, trivial⟩

end Apply

/-! ### What the server can reach -/

section Reachable

variable [SnapshotApply] {S F : Type} (ss : SessionStore S F)

/-- **The states of a server**, over as many starts as there are: a new store; a start, on a store
with the topology that the last state has left, with or without a well-formed preset; any edit; and
any import of a well-formed preset. Nothing of this needs to go through. -/
inductive Reachable : GraphController S → Prop
  | new {s : S} (h : ss.getTopology s = TopologySnapshot.new) : Reachable (new s)
  | boot {c : GraphController S} (hc : Reachable c) {s : S} (hs : ss.getTopology s = c.topology ss)
      {preset : Option Preset} (hp : ∀ p ∈ preset, p.WellFormed) (loaded : Option FileBuffer)
      (faults : BootFaults F) : Reachable (boot ss s preset loaded faults).2.ctrl
  | edit {c : GraphController S} (hc : Reachable c) (edit : Edit) (fault : F) :
      Reachable (c.exec ss edit fault).2
  | importPreset {c : GraphController S} (hc : Reachable c) {p : Preset} (hp : p.WellFormed)
      (faults : ImportFaults F) : Reachable (c.importPreset ss p faults).2

variable {ss} [LawfulSnapshotApply]

/-- Store calls, up to the first that fails. -/
theorem Exportable.applyMutations {s : S} (h : Exportable (ss.getTopology s)) {ms : List Mutation}
    (hms : MutationsFit (ss.getTopology s) ms) (fault : ℕ → F) :
    Exportable (ss.getTopology (applyMutations ss s fault ms).2) := by
  induction ms generalizing s fault with
  | nil => exact h
  | cons m ms ih =>
    rw [Server.applyMutations]
    rcases ss.applyMutation_cases s m (fault 0) with ⟨e, hm⟩ | ⟨id, s₁, hm, ht⟩
    · rw [hm]
      exact h
    · rw [hm]
      refine ih ?_ ?_ _
      · rw [ht]
        exact h.apply hms.1
      · rw [ht]
        exact hms.2

theorem Exportable.exec {c : GraphController S} (h : Exportable (c.topology ss)) (edit : Edit)
    (fault : F) : Exportable ((c.exec ss edit fault).2.topology ss) := by
  rcases exec_cases c edit fault with ⟨e, he⟩ | ⟨r, c', he, heff⟩
  · rw [he]
    exact h
  rw [he]
  rcases heff with ⟨spec, kind, s, -, rfl, ht⟩ | ⟨e, s, hok, rfl, ht⟩ | ⟨id, s, rfl, ht⟩ |
    ⟨id, s, rfl, ht⟩
  all_goals change Exportable (ss.getTopology s)
  all_goals rw [ht]
  · exact h.apply (m := .addNode _) ⟨portsFit_buildPorts _ _, portsFit_buildPorts _ _⟩
  · exact h.apply (m := .addLink _) (edgeFits_of_edgeOk h.nodes hok)
  · exact h.apply (m := .removeNode _) trivial
  · exact h.apply (m := .removeLink _) trivial

/-- An import may stop half way. -/
theorem Exportable.importPreset {c : GraphController S} (h : Exportable (c.topology ss))
    {p : Preset} (hp : p.WellFormed) (faults : ImportFaults F) :
    Exportable ((c.importPreset ss p faults).2.topology ss) := by
  refine importPreset_invariant (P := fun c => Exportable (c.topology ss)) (fun c id s hc ht => ?_)
    (fun c n s _ hc ht => ?_) (fun c l s hl hc hids ht => ?_) h faults
  all_goals change Exportable (ss.getTopology s)
  all_goals rw [ht]
  · exact hc.apply (m := .removeNode _) trivial
  · exact hc.apply (m := .addNode _) ⟨portsFit_buildPorts _ _, portsFit_buildPorts _ _⟩
  · -- the nodes that the link names are in the preset, so they are there by now
    obtain ⟨⟨n, hn, -⟩, m, hm, -⟩ := hp.links l hl
    have hmem : ∀ id k, p.lookup id = some k → id ∈ (c.topology ss).ids := by
      intro id k hk
      have hid : k.id = id := by simpa using List.find?_some hk
      exact hid ▸ hids k (List.mem_reverse.mp (List.mem_of_find?_eq_some hk))
    exact hc.apply (m := .addLink _)
      ⟨⟨hmem _ n hn, l.srcPort.toNat_lt⟩, hmem _ m hm, l.dstPort.toNat_lt⟩

theorem Exportable.boot {s : S} (h : Exportable (ss.getTopology s)) {preset : Option Preset}
    (hp : ∀ p ∈ preset, p.WellFormed) (loaded : Option FileBuffer) (faults : BootFaults F) :
    Exportable ((boot ss s preset loaded faults).2.ctrl.topology ss) := by
  have hrestore : Exportable ((restore ss s preset faults.restore).topology ss) := by
    cases preset with
    | none => exact h
    | some p =>
      exact Exportable.importPreset (c := GraphController.new s) h (hp p rfl) faults.restore
  have hfits := mutationsFit_seedMutations ((restore ss s preset faults.restore).topology ss) loaded
  have hseed := hrestore.applyMutations hfits faults.seed
  change Exportable (ss.getTopology (Server.boot ss s preset loaded faults).2.ctrl.store)
  rw [store_boot]
  exact hseed

/-- **Everything the server can reach can be exported.** -/
theorem Reachable.exportable {c : GraphController S} (h : Reachable ss c) :
    Exportable (c.topology ss) := by
  induction h with
  | @new s h =>
    change Exportable (ss.getTopology s)
    exact h ▸ exportable_new
  | boot _ hs hp loaded faults ih => exact Exportable.boot (hs ▸ ih) hp loaded faults
  | edit _ edit fault ih => exact ih.exec edit fault
  | importPreset _ hp faults ih => exact ih.importPreset hp faults

/-! ### The round trip -/

omit [SnapshotApply] [LawfulSnapshotApply] in
/-- Ports are made again as they were if they are mono. -/
theorem buildPorts_eq_iff {dir : PortDir} {ports : List PortMeta} (h : PortsFit dir ports) :
    buildPorts (UInt16.ofNat ports.length) dir = ports ↔ ∀ port ∈ ports, port.channels = 1 := by
  have hcount : (UInt16.ofNat ports.length).toNat = ports.length :=
    UInt16.toNat_ofNat_of_lt' h.count
  rw [buildPorts, hcount, eq_comm, List.eq_replicate_iff]
  constructor
  · rintro ⟨-, hall⟩ port hport
    rw [hall port hport]
  · intro hmono
    refine ⟨rfl, fun port hport => ?_⟩
    obtain ⟨hdir, hformat⟩ := h.shape port hport
    rw [PortMeta.mk.injEq]
    exact ⟨hdir, hmono port hport, hformat⟩

/-- A node as an import makes it again. -/
def rebuilt (n : NodeSnapshot) : NodeSnapshot :=
  ⟨n.id, buildPorts (UInt16.ofNat n.inputs.length) .input,
    buildPorts (UInt16.ofNat n.outputs.length) .output⟩

omit [SnapshotApply] [LawfulSnapshotApply] in
theorem rebuilt_eq_iff {n : NodeSnapshot} (h : NodeFits n) :
    rebuilt n = n ↔ ∀ port ∈ n.inputs ++ n.outputs, port.channels = 1 := by
  obtain ⟨id, inputs, outputs⟩ := n
  rw [rebuilt, NodeSnapshot.mk.injEq, buildPorts_eq_iff h.1, buildPorts_eq_iff h.2]
  simp only [true_and, List.mem_append, or_imp, forall_and]

omit [SnapshotApply] [LawfulSnapshotApply] in
/-- A link comes back as it was. -/
theorem edge_exportEdge {t : TopologySnapshot} {e : SnapshotEdge} (h : EdgeFits t e) :
    (exportEdge e).edge = e := by
  obtain ⟨⟨-, hsrc⟩, -, hdst⟩ := h
  obtain ⟨⟨src, srcPort⟩, dst, dstPort⟩ := e
  rw [exportEdge, PresetLink.edge]
  rw [UInt16.toNat_ofNat_of_lt' hsrc, UInt16.toNat_ofNat_of_lt' hdst]

omit [SnapshotApply] [LawfulSnapshotApply] in
/-- Every link is held by a node. -/
theorem Exportable.dangling_eq_nil {t : TopologySnapshot} (h : Exportable t) : dangling t = [] := by
  rw [dangling, List.filter_eq_nil_iff]
  intro e he hdangling
  exact (of_decide_eq_true hdangling).1 (h.edges e he).1.1

/-- **What an import of the exported preset leaves**: the links, and every node with ports made
anew. -/
theorem Exportable.reimport {c c' : GraphController S} (h : Exportable (c.topology ss))
    {faults : ImportFaults F}
    (himport : c.importPreset ss (c.exportPreset ss) faults = (.ok (), c')) :
    c'.topology ss = ⟨(c.topology ss).nodes.map rebuilt, (c.topology ss).edges⟩ := by
  obtain ⟨ht, -⟩ := importPreset_ok himport
  have hids : (c.exportPreset ss).nodes.map PresetNode.id = (c.topology ss).ids := by
    rw [exportPreset, listNodes, List.map_map, List.map_map]
    rfl
  have hnodes : upsertAll [] (c.exportPreset ss).nodes = (c.topology ss).nodes.map rebuilt := by
    have hnodup : (([] : List NodeSnapshot).map NodeSnapshot.id ++
        (c.exportPreset ss).nodes.map PresetNode.id).Nodup := by
      rw [hids]
      exact h.nodup
    rw [upsertAll_of_nodup hnodup, List.nil_append, exportPreset, listNodes, List.map_map,
      List.map_map]
    rfl
  have hlinks : (c.exportPreset ss).links.map PresetLink.edge = (c.topology ss).edges := by
    rw [exportPreset_links, List.map_map]
    exact (List.map_congr_left fun e he => edge_exportEdge (h.edges e he)).trans (List.map_id _)
  rw [ht, h.dangling_eq_nil, List.nil_append, hnodes, hlinks]

/-- **Import after export.** In every state that the server can reach, when the import of the
exported preset goes through: the topology is what it was if and only if all ports have one
channel. -/
theorem reimport_keeps_iff {c c' : GraphController S} (hc : Reachable ss c)
    {faults : ImportFaults F}
    (himport : c.importPreset ss (c.exportPreset ss) faults = (.ok (), c')) :
    c'.topology ss = c.topology ss ↔ Mono (c.topology ss) := by
  have h := hc.exportable
  have hmap : (c.topology ss).nodes.map rebuilt = (c.topology ss).nodes ↔
      ∀ n ∈ (c.topology ss).nodes, rebuilt n = id n := by
    rw [← List.map_inj_left, List.map_id]
  rw [h.reimport himport]
  constructor
  · intro heq n hn
    have hnodes := congrArg TopologySnapshot.nodes heq
    exact (rebuilt_eq_iff (h.nodes n hn)).mp (hmap.mp hnodes n hn)
  · intro hmono
    have hnodes := hmap.mpr fun n hn => (rebuilt_eq_iff (h.nodes n hn)).mpr (hmono n hn)
    rw [hnodes]

end Reachable

/-- The first start on a new store. -/
theorem reachable_started :
    letI := SnapshotApply.documented
    Reachable engineStore (boot engineStore emptyEngine none none calm).2.ctrl := by
  let := SnapshotApply.documented
  have hnone : ∀ p ∈ (none : Option Preset), p.WellFormed :=
    fun p h => absurd h (Option.not_mem_none p)
  have hnew : Reachable engineStore (new emptyEngine) := .new rfl
  exact hnew.boot rfl hnone none calm

/-- Then a node is created, and the bridge deleted. -/
def bridgeless : GraphController RaftEngine.EngineState :=
  letI := SnapshotApply.documented
  let c := (boot engineStore emptyEngine none none calm).2.ctrl
  let c := (c.exec engineStore (.createNode quarterSpec) none).2
  let c := (c.exec engineStore (.deleteNode 0) none).2
  (c.exec engineStore (.deleteNode 1) none).2

theorem reimport_keeps_iff_bridgeless :
    letI := SnapshotApply.documented
    Reachable engineStore bridgeless ∧
      ((bridgeless.importPreset engineStore (bridgeless.exportPreset engineStore)
        noFaults).2.topology engineStore = bridgeless.topology engineStore) := by
  let := SnapshotApply.documented
  have := SnapshotApply.lawful_documented
  have hreach : Reachable engineStore bridgeless :=
    ((reachable_started.edit _ none).edit _ none).edit _ none
  refine ⟨hreach, (reimport_keeps_iff hreach
    (show bridgeless.importPreset engineStore (bridgeless.exportPreset engineStore) noFaults =
      (.ok (), _) from rfl)).mpr ?_⟩
  unfold Mono
  decide

/-- **The bridge comes back narrower.** A server that has just started exports its graph and imports
it again; the import goes through, and the ports of the bridge, which had two channels, have one. -/
theorem reimport_narrows_bridge :
    letI := SnapshotApply.documented
    ∃ c, Reachable engineStore c ∧ c.topology engineStore = seeded ∧
      ∃ c', c.importPreset engineStore (c.exportPreset engineStore) noFaults = (.ok (), c') ∧
        c'.topology engineStore =
          ⟨[⟨0, [], [⟨.output, 1, .f32⟩]⟩, ⟨1, [⟨.input, 1, .f32⟩], []⟩], seeded.edges⟩ ∧
        c'.topology engineStore ≠ seeded := by
  let := SnapshotApply.documented
  refine ⟨_, reachable_started, rfl, _, rfl, rfl, ?_⟩
  decide

end Server

end SonicBrew
