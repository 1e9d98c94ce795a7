import SonicBrew.ControlApi.Integrity

/-!
# Presets

A preset is a whole graph as one value: `export_preset` reads it off the controller, and
`import_preset` puts it in place of whatever is there. Import is the second way to write into
the store, and it goes past the validation of the first: it removes every node, one store call
each, adds the preset's nodes under their own ids, and appends the preset's links as they are.

What a successful import leaves is computed here exactly
(`SonicBrew.GraphController.importPreset_ok`). Two things come from the *prior* state rather
than from the preset. A link goes only with one of its endpoints, so a link neither of whose
endpoints is a node survives the clearing (`SonicBrew.dangling`); and an entry of a registry goes
only with its node. Everything else is the preset's, the last of several nodes with one id
winning – but for kind and parameters, where the last that *has* one wins.

From this the two results about presets follow: when an imported graph is sound
(`SonicBrew.GraphController.importPreset_sound_iff`), and when the exported graph is the
imported one (`SonicBrew.GraphController.exportPreset_importPreset_iff`).
-/

namespace SonicBrew

/-- The node an import creates. -/
def PresetNode.snapshot (n : PresetNode) : NodeSnapshot :=
  ⟨n.id, buildPorts n.inputs .input, buildPorts n.outputs .output⟩

/-- The link an import creates. -/
def PresetLink.edge (l : PresetLink) : SnapshotEdge :=
  ⟨(l.src, l.srcPort.toNat), (l.dst, l.dstPort.toNat)⟩

/-- The preset's nodes put into a list of nodes, one after the other. -/
def upsertAll (ms : List NodeSnapshot) (ns : List PresetNode) : List NodeSnapshot :=
  ns.foldl (fun ms n => TopologySnapshot.upsertNode n.snapshot ms) ms

/-- The entries a list of nodes leaves in a registry. -/
def recordAll {V : Type} (f : PresetNode → Option V) (r : Registry V) (ns : List PresetNode) :
    Registry V :=
  ns.foldl (fun r n => r.insertSome n.id (f n)) r

/-- **The links that no node holds**: neither endpoint is in the topology. -/
def dangling (t : TopologySnapshot) : List SnapshotEdge :=
  t.edges.filter fun e => e.src.1 ∉ t.ids ∧ e.dst.1 ∉ t.ids

/-- A registry without the entries of some ids. -/
def Registry.removeAll {V : Type} (r : Registry V) (ids : List NodeId) : Registry V :=
  fun id => if id ∈ ids then none else r id

theorem Registry.removeAll_remove {V : Type} (r : Registry V) (id : NodeId) (ids : List NodeId) :
    (r.remove id).removeAll ids = r.removeAll (id :: ids) := by
  funext i
  by_cases hi : i = id
  · simp [removeAll, hi, remove_self]
  · simp [removeAll, hi, remove_of_ne r hi]

namespace GraphController

section Operations

variable [SnapshotApply] {S F : Type} (ss : SessionStore S F)

/-- `export_preset`. -/
def exportPreset (c : GraphController S) : Preset where
  version := presetVersion
  nodes := (c.listNodes ss).map fun n => ⟨n.id, n.label, n.inputs, n.outputs, n.kind, n.params⟩
  links := (c.listLinks ss).map fun l => ⟨l.src, l.srcPort, l.dst, l.dstPort⟩

/-- The first loop of `import_preset`: every node goes, and its entries with it. -/
def clearNodes (c : GraphController S) (fault : ℕ → F) :
    List NodeId → Except ControlError Unit × GraphController S
  | [] => (.ok (), c)
  | id :: ids =>
      match c.mutate ss (.removeNode id) (fault 0) with
      | (.error e, c) => (.error e, c)
      | (.ok _, c) => clearNodes (c.prune id) (fun i => fault (i + 1)) ids

/-- The second loop: the preset's nodes under their own ids, recorded. -/
def createNodes (c : GraphController S) (fault : ℕ → F) :
    List PresetNode → Except ControlError Unit × GraphController S
  | [] => (.ok (), c)
  | n :: ns =>
      match c.mutate ss (.addNode n.snapshot) (fault 0) with
      | (.error e, c) => (.error e, c)
      | (.ok _, c) =>
          createNodes (c.record n.id n.label n.kind n.params) (fun i => fault (i + 1)) ns

/-- The third loop: the preset's links. -/
def createLinks (c : GraphController S) (fault : ℕ → F) :
    List PresetLink → Except ControlError Unit × GraphController S
  | [] => (.ok (), c)
  | l :: ls =>
      match c.mutate ss (.addLink l.edge) (fault 0) with
      | (.error e, c) => (.error e, c)
      | (.ok _, c) => createLinks c (fun i => fault (i + 1)) ls

/-- What befalls the store calls of an import, loop by loop. -/
structure ImportFaults (F : Type) where
  clear : ℕ → F
  nodes : ℕ → F
  links : ℕ → F

/-- `import_preset`. -/
def importPreset (c : GraphController S) (p : Preset) (faults : ImportFaults F) :
    Except ControlError Unit × GraphController S :=
  match c.clearNodes ss faults.clear (c.topology ss).ids with
  | (.error e, c) => (.error e, c)
  | (.ok _, c) =>
      match c.createNodes ss faults.nodes p.nodes with
      | (.error e, c) => (.error e, c)
      | (.ok _, c) => c.createLinks ss faults.links p.links

/-! ### What a successful import leaves -/

variable {ss} [LawfulSnapshotApply]

/-- **Clearing**: the nodes go with the links they hold and with their entries. -/
theorem clearNodes_ok {c c' : GraphController S} {fault : ℕ → F} {ids : List NodeId}
    (h : c.clearNodes ss fault ids = (.ok (), c')) :
    c'.topology ss =
        ⟨(c.topology ss).nodes.filter fun n => n.id ∉ ids,
          (c.topology ss).edges.filter fun e => e.src.1 ∉ ids ∧ e.dst.1 ∉ ids⟩ ∧
      c'.labels = c.labels.removeAll ids ∧ c'.kinds = c.kinds.removeAll ids ∧
      c'.params = c.params.removeAll ids := by
  induction ids generalizing c fault with
  | nil =>
    obtain rfl : c = c' := (Prod.mk.inj h).2
    refine ⟨by simp, ?_, ?_, ?_⟩
    all_goals funext i
    all_goals simp [Registry.removeAll]
  | cons id ids ih =>
    rw [clearNodes] at h
    rcases mutate_cases ss c (.removeNode id) (fault 0) with ⟨e, hm⟩ | ⟨s, hm, ht⟩
    · rw [hm] at h
      exact absurd (Prod.mk.inj h).1 (by simp)
    · rw [hm] at h
      obtain ⟨htop, hl, hk, hp⟩ := ih h
      refine ⟨?_, ?_, ?_, ?_⟩
      · -- the two filters make one
        rw [htop]
        change TopologySnapshot.mk ((ss.getTopology s).nodes.filter _)
          ((ss.getTopology s).edges.filter _) = _
        rw [ht, apply_removeNode, List.filter_filter, List.filter_filter]
        congr 1
        · refine List.filter_congr fun n _ => ?_
          simp [Bool.and_comm]
        · refine List.filter_congr fun e _ => ?_
          by_cases h1 : e.src.1 = id
          · simp [h1]
          · by_cases h2 : e.dst.1 = id
            · simp [h2]
            · simp [h1, h2]
      · exact hl.trans (Registry.removeAll_remove _ _ _)
      · exact hk.trans (Registry.removeAll_remove _ _ _)
      · exact hp.trans (Registry.removeAll_remove _ _ _)

/-- **Creating the nodes**: one after the other they replace or append, and are recorded. -/
theorem createNodes_ok {c c' : GraphController S} {fault : ℕ → F} {ns : List PresetNode}
    (h : c.createNodes ss fault ns = (.ok (), c')) :
    c'.topology ss =
        { c.topology ss with
          nodes := upsertAll (c.topology ss).nodes ns } ∧
      c'.labels = recordAll (fun n => some n.label) c.labels ns ∧
      c'.kinds = recordAll PresetNode.kind c.kinds ns ∧
      c'.params = recordAll PresetNode.params c.params ns := by
  induction ns generalizing c fault with
  | nil =>
    obtain rfl : c = c' := (Prod.mk.inj h).2
    exact ⟨rfl, rfl, rfl, rfl⟩
  | cons n ns ih =>
    rw [createNodes] at h
    rcases mutate_cases ss c (.addNode n.snapshot) (fault 0) with ⟨e, hm⟩ | ⟨s, hm, ht⟩
    · rw [hm] at h
      exact absurd (Prod.mk.inj h).1 (by simp)
    · rw [hm] at h
      obtain ⟨htop, hl, hk, hp⟩ := ih h
      refine ⟨?_, hl, hk, hp⟩
      rw [htop]
      change { ss.getTopology s with nodes := upsertAll (ss.getTopology s).nodes ns } = _
      rw [ht, apply_addNode]
      rfl

/-- **Creating the links** appends them. -/
theorem createLinks_ok {c c' : GraphController S} {fault : ℕ → F} {ls : List PresetLink}
    (h : c.createLinks ss fault ls = (.ok (), c')) :
    c'.topology ss =
        { c.topology ss with edges := (c.topology ss).edges ++ ls.map PresetLink.edge } ∧
      c'.labels = c.labels ∧ c'.kinds = c.kinds ∧ c'.params = c.params := by
  induction ls generalizing c fault with
  | nil =>
    obtain rfl : c = c' := (Prod.mk.inj h).2
    refine ⟨?_, rfl, rfl, rfl⟩
    rw [List.map_nil, List.append_nil]
  | cons l ls ih =>
    rw [createLinks] at h
    rcases mutate_cases ss c (.addLink l.edge) (fault 0) with ⟨e, hm⟩ | ⟨s, hm, ht⟩
    · rw [hm] at h
      exact absurd (Prod.mk.inj h).1 (by simp)
    · rw [hm] at h
      obtain ⟨htop, hl, hk, hp⟩ := ih h
      refine ⟨?_, hl, hk, hp⟩
      rw [htop]
      change { ss.getTopology s with
        edges := (ss.getTopology s).edges ++ ls.map PresetLink.edge } = _
      rw [ht, apply_addLink, List.map_cons, List.append_assoc, List.singleton_append]

/-- **What an import leaves**: the preset's nodes and links and their entries – and, of what
was there before, the links that no node held and the entries that had no node. -/
theorem importPreset_ok {c c' : GraphController S} {p : Preset} {faults : ImportFaults F}
    (h : c.importPreset ss p faults = (.ok (), c')) :
    c'.topology ss =
        ⟨upsertAll [] p.nodes, dangling (c.topology ss) ++ p.links.map PresetLink.edge⟩ ∧
      c'.labels =
        recordAll (fun n => some n.label) (c.labels.removeAll (c.topology ss).ids) p.nodes ∧
      c'.kinds = recordAll PresetNode.kind (c.kinds.removeAll (c.topology ss).ids) p.nodes ∧
      c'.params = recordAll PresetNode.params (c.params.removeAll (c.topology ss).ids) p.nodes := by
  rw [importPreset] at h
  rcases hc : c.clearNodes ss faults.clear (c.topology ss).ids with ⟨_ | _, c₁⟩
  · rw [hc] at h
    exact absurd (Prod.mk.inj h).1 (by simp)
  rw [hc] at h
  rcases hn : c₁.createNodes ss faults.nodes p.nodes with ⟨_ | _, c₂⟩
  · simp only [hn] at h
    exact absurd (Prod.mk.inj h).1 (by simp)
  simp only [hn] at h
  obtain ⟨ht₁, hl₁, hk₁, hp₁⟩ := clearNodes_ok hc
  obtain ⟨ht₂, hl₂, hk₂, hp₂⟩ := createNodes_ok hn
  obtain ⟨ht₃, hl₃, hk₃, hp₃⟩ := createLinks_ok h
  -- no node is left after clearing
  have hempty : ((c.topology ss).nodes.filter fun n => n.id ∉ (c.topology ss).ids) = [] := by
    rw [List.filter_eq_nil_iff]
    intro n hn'
    have hmem : n.id ∈ (c.topology ss).ids := List.mem_map_of_mem hn'
    simp [hmem]
  refine ⟨?_, by rw [hl₃, hl₂, hl₁], by rw [hk₃, hk₂, hk₁], by rw [hp₃, hp₂, hp₁]⟩
  rw [ht₃, ht₂, ht₁]
  simp only [hempty]
  rfl

end Operations

end GraphController

/-! ### Which of a preset's nodes counts -/

namespace Preset

/-- The node that stays under an id: the last one. -/
def lookup (p : Preset) (id : NodeId) : Option PresetNode :=
  p.nodes.reverse.find? fun n => n.id = id

/-- The last value that a node of this id has in some field. -/
def lastSome {V : Type} (p : Preset) (f : PresetNode → Option V) (id : NodeId) : Option V :=
  p.nodes.reverse.findSome? fun n => if n.id = id then f n else none

/-- A link between ports of the preset's own nodes. -/
def EdgeOk (p : Preset) (e : SnapshotEdge) : Prop :=
  (∃ n, p.lookup e.src.1 = some n ∧ e.src.2 < n.outputs.toNat) ∧
    ∃ n, p.lookup e.dst.1 = some n ∧ e.dst.2 < n.inputs.toNat

end Preset

theorem find?_upsertAll (ms : List NodeSnapshot) (ns : List PresetNode) (id : NodeId) :
    ((upsertAll ms ns).find? fun m => m.id = id) =
      ((ns.reverse.find? fun n => n.id = id).map PresetNode.snapshot).or
        (ms.find? fun m => m.id = id) := by
  induction ns generalizing ms with
  | nil => rfl
  | cons n ns ih =>
    change ((upsertAll (TopologySnapshot.upsertNode n.snapshot ms) ns).find? _) = _
    rw [ih, TopologySnapshot.find?_upsertNode, List.reverse_cons, List.find?_append]
    rcases hlast : ns.reverse.find? (fun n => decide (n.id = id)) with _ | m
    · -- no later node has the id: it is this one's, or an older one's
      have hid : n.snapshot.id = n.id := rfl
      by_cases h : n.id = id
      · simp [h, hid, hlast]
      · simp [h, hid, hlast]
    · simp [hlast]

theorem recordAll_eq {V : Type} (f : PresetNode → Option V) (r : Registry V)
    (ns : List PresetNode) (id : NodeId) :
    recordAll f r ns id =
      (ns.reverse.findSome? fun n => if n.id = id then f n else none).or (r id) := by
  induction ns generalizing r with
  | nil => rfl
  | cons n ns ih =>
    change recordAll f (r.insertSome n.id (f n)) ns id = _
    rw [ih, List.reverse_cons, List.findSome?_append, Option.or_assoc]
    congr 1
    by_cases h : n.id = id
    · rw [← h, Registry.insertSome_self]
      simp
    · rw [Registry.insertSome_of_ne r (f n) (Ne.symm h)]
      simp [h]

/-! ### When an imported graph is sound -/

namespace GraphController

section Sound

variable [SnapshotApply] {S F : Type} (ss : SessionStore S F)

/-- **A sound graph**, in the sense the single operations enforce: links join ports that
exist, and a node with parameters has their kind. -/
def Sound (c : GraphController S) : Prop :=
  (∀ e ∈ (c.topology ss).edges, EdgeOk (c.topology ss) e) ∧
    ∀ id ∈ (c.topology ss).ids, ∀ q, c.params id = some q → c.kinds id = some q.kindName

/-- **The condition on a preset and the state it is imported into**: the preset's links and
the links that are left over join ports of the preset's nodes; and for every node of the
preset, the parameters it ends up with – the last given for its id, else a stale entry – are of
the kind it ends up with, found in the same way. -/
def ImportsSoundly (c : GraphController S) (p : Preset) : Prop :=
  (∀ l ∈ p.links, p.EdgeOk l.edge) ∧ (∀ e ∈ dangling (c.topology ss), p.EdgeOk e) ∧
    ∀ n ∈ p.nodes, ∀ q,
      (p.lastSome PresetNode.params n.id).or
          (c.params.removeAll (c.topology ss).ids n.id) = some q →
        (p.lastSome PresetNode.kind n.id).or
          (c.kinds.removeAll (c.topology ss).ids n.id) = some q.kindName

variable {ss}

omit [SnapshotApply] in
/-- Links of a topology whose nodes are a preset's. -/
theorem edgeOk_upsertAll {p : Preset} {es : List SnapshotEdge} {e : SnapshotEdge} :
    EdgeOk ⟨upsertAll [] p.nodes, es⟩ e ↔ p.EdgeOk e := by
  have hnode : ∀ id, TopologySnapshot.node ⟨upsertAll [] p.nodes, es⟩ id =
      (p.lookup id).map PresetNode.snapshot := by
    intro id
    rw [TopologySnapshot.node, find?_upsertAll, List.find?_nil, Option.or_none]
    rfl
  rw [EdgeOk, Preset.EdgeOk, hnode, hnode]
  constructor
  · rintro ⟨⟨s, hs, hsp⟩, d, hd, hdp⟩
    obtain ⟨n, hn, rfl⟩ := Option.map_eq_some_iff.mp hs
    obtain ⟨m, hm, rfl⟩ := Option.map_eq_some_iff.mp hd
    refine ⟨⟨n, hn, ?_⟩, m, hm, ?_⟩
    · rwa [PresetNode.snapshot, length_buildPorts] at hsp
    · rwa [PresetNode.snapshot, length_buildPorts] at hdp
  · rintro ⟨⟨n, hn, hnp⟩, m, hm, hmp⟩
    refine ⟨⟨n.snapshot, by rw [hn]; rfl, ?_⟩, m.snapshot, by rw [hm]; rfl, ?_⟩
    · rwa [PresetNode.snapshot, length_buildPorts]
    · rwa [PresetNode.snapshot, length_buildPorts]

omit [SnapshotApply] in
/-- The ids of a topology whose nodes are a preset's. -/
theorem mem_ids_upsertAll {p : Preset} {es : List SnapshotEdge} {id : NodeId} :
    id ∈ TopologySnapshot.ids ⟨upsertAll [] p.nodes, es⟩ ↔ ∃ n ∈ p.nodes, n.id = id := by
  rw [TopologySnapshot.mem_ids_iff]
  simp only [TopologySnapshot.node, find?_upsertAll, List.find?_nil, Option.or_none,
    Option.map_eq_some_iff]
  constructor
  · rintro ⟨m, n, hn, -⟩
    refine ⟨n, ?_, by simpa using List.find?_some hn⟩
    exact List.mem_reverse.mp (List.mem_of_find?_eq_some hn)
  · rintro ⟨n, hn, rfl⟩
    have hsome : (p.nodes.reverse.find? fun m => m.id = n.id).isSome :=
      List.find?_isSome.mpr ⟨n, List.mem_reverse.mpr hn, by simp⟩
    obtain ⟨m, hm⟩ := Option.isSome_iff_exists.mp hsome
    exact ⟨m.snapshot, m, hm, rfl⟩

/-- **When an imported graph is sound.** For every state and every preset whose import goes
through, the graph is sound afterwards if and only if the condition held before. -/
theorem importPreset_sound_iff [LawfulSnapshotApply] {c c' : GraphController S} {p : Preset}
    {faults : ImportFaults F} (h : c.importPreset ss p faults = (.ok (), c')) :
    Sound ss c' ↔ ImportsSoundly ss c p := by
  obtain ⟨ht, -, hk, hp⟩ := importPreset_ok h
  rw [Sound, ImportsSoundly, ht, hk, hp]
  constructor
  · rintro ⟨hedges, hkinds⟩
    refine ⟨fun l hl => ?_, fun e he => ?_, fun n hn q hq => ?_⟩
    · exact edgeOk_upsertAll.mp (hedges _ (List.mem_append_right _ (List.mem_map_of_mem hl)))
    · exact edgeOk_upsertAll.mp (hedges e (List.mem_append_left _ he))
    · have hkind := hkinds n.id (mem_ids_upsertAll.mpr ⟨n, hn, rfl⟩) q
      rw [recordAll_eq, recordAll_eq] at hkind
      exact hkind hq
  · rintro ⟨hlinks, hleft, hkinds⟩
    refine ⟨fun e he => edgeOk_upsertAll.mpr ?_, fun id hid q hq => ?_⟩
    · rcases List.mem_append.mp he with he | he
      · exact hleft e he
      · obtain ⟨l, hl, rfl⟩ := List.mem_map.mp he
        exact hlinks l hl
    · obtain ⟨n, hn, rfl⟩ := mem_ids_upsertAll.mp hid
      rw [recordAll_eq] at hq ⊢
      exact hkinds n hn q hq

end Sound

/-- No store call of an import fails. -/
def noFaults : ImportFaults (Option (RaftEngine.PersistStep × String)) :=
  ⟨fun _ => none, fun _ => none, fun _ => none⟩

/-- The engine's store, with the documented fold. -/
abbrev engineStore :
    letI := SnapshotApply.documented
    SessionStore RaftEngine.EngineState (Option (RaftEngine.PersistStep × String)) :=
  letI := SnapshotApply.documented
  RaftEngine.sessionStore Mutation.format.toCodec

/-- A link between two nodes that do not exist. -/
def danglingPreset : Preset := ⟨1, [], [⟨5, 0, 6, 0⟩]⟩

/-- A node whose parameters are of another kind. -/
def mismatchedPreset : Preset := ⟨1, [⟨1, "gain", 1, 1, some "gain", some .meter⟩], []⟩

theorem importPreset_sound_iff_mismatched :
    letI := SnapshotApply.documented
    Sound engineStore ((new emptyEngine).importPreset engineStore mismatchedPreset noFaults).2 ↔
      ImportsSoundly engineStore (new emptyEngine) mismatchedPreset :=
  letI := SnapshotApply.documented
  letI := SnapshotApply.lawful_documented
  importPreset_sound_iff
    (show (new emptyEngine).importPreset engineStore mismatchedPreset noFaults = (.ok (), _)
      from rfl)

/-- **Import accepts what the single operations refuse**: a link between nodes that do not
exist, and parameters that are not of the node's kind. -/
theorem importPreset_unsound :
    letI := SnapshotApply.documented
    (((new emptyEngine).importPreset engineStore danglingPreset noFaults).1 = .ok () ∧
      ¬Sound engineStore ((new emptyEngine).importPreset engineStore danglingPreset noFaults).2) ∧
    ((new emptyEngine).importPreset engineStore mismatchedPreset noFaults).1 = .ok () ∧
      ¬Sound engineStore
        ((new emptyEngine).importPreset engineStore mismatchedPreset noFaults).2 := by
  let := SnapshotApply.documented
  refine ⟨⟨rfl, fun h => ?_⟩, rfl, fun h => ?_⟩
  · obtain ⟨⟨n, hn, -⟩, -⟩ := h.1 ⟨(5, 0), (6, 0)⟩ (List.mem_singleton_self _)
    have hnone : (none : Option NodeSnapshot) = some n := hn
    exact absurd hnone (by simp)
  · have hkind := h.2 1 (List.mem_singleton_self _) .meter rfl
    exact absurd (Option.some.inj hkind) (by decide)

end GraphController

end SonicBrew
