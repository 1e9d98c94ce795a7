import SonicBrew.Server.Boot
import SonicBrew.Server.Links

/-!
# What a restart brings back

Every two seconds the autosave thread exports the graph, and the next start imports what it finds.
Ids, ports, kinds, parameters and links take this way. Labels do not: they are with the controller
of the control surface, and the autosave thread exports with a controller of its own, which knows
none. After a restart every node is called by its id (`SonicBrew.Server.restart_loses_labels`).

`SonicBrew.Server.restart_shows_same_iff` says when a restart that goes through shows the same as
before. Two rarer conditions come with the labels: an empty graph is seeded, and a link that no node
holds comes back twice.
-/

namespace SonicBrew

namespace Server

open GraphController

section Restart

variable [SnapshotApply] {S F : Type} (ss : SessionStore S F)

/-- The preset that the autosave thread writes: exported by a controller of its own, over the same
store and registries. -/
def autosave (c : GraphController S) : Preset :=
  (newWithRegistries c.store c.kinds c.params).exportPreset ss

/-- What is listed, nodes for files excepted. -/
def shown (c : GraphController S) : List NodeInfo :=
  (c.listNodes ss).filter fun n => n.kind ≠ some "file"

/-- **Two controllers show the same**: ids, labels, port counts, kinds, parameters and links. -/
def ShowsSame (c c' : GraphController S) : Prop :=
  shown ss c' = shown ss c ∧ c'.listLinks ss = c.listLinks ss

/-- A node that nobody has named. -/
def unlabelled (n : NodeInfo) : NodeInfo := { n with label := s!"node-{n.id}" }

/-- Nodes – files excepted – have no label but the one they are listed with when they have none. -/
def LabelledById (c : GraphController S) : Prop :=
  ∀ n ∈ (c.topology ss).nodes, c.kinds n.id ≠ some "file" →
    ∀ label ∈ c.labels n.id, label = s!"node-{n.id}"

/-- A preset's node, as it is listed without labels. -/
def infoOf (n : PresetNode) : NodeInfo :=
  ⟨n.id, s!"node-{n.id}", n.inputs, n.outputs, n.kind, n.params⟩

/-- A preset's link, as it is listed. -/
def linkInfoOf (x : PresetLink × ℕ) : LinkInfo :=
  ⟨x.2, x.1.src, x.1.srcPort, x.1.dst, x.1.dstPort⟩

variable {ss}

/-- The autosaved nodes are those that are listed, without their labels. -/
theorem autosave_nodes (c : GraphController S) :
    (autosave ss c).nodes.map infoOf = (c.listNodes ss).map unlabelled := by
  rw [autosave, exportPreset, listNodes, listNodes, List.map_map, List.map_map, List.map_map]
  rfl

theorem autosave_ids (c : GraphController S) :
    (autosave ss c).nodes.map PresetNode.id = (c.topology ss).ids := by
  rw [autosave, exportPreset, listNodes, List.map_map, List.map_map]
  rfl

theorem autosave_links (c : GraphController S) :
    (autosave ss c).links = (c.topology ss).edges.map exportEdge :=
  exportPreset_links (newWithRegistries c.store c.kinds c.params)

/-- The links are listed as they are exported. -/
theorem listLinks_eq_map (c : GraphController S) :
    c.listLinks ss = ((c.topology ss).edges.map exportEdge).zipIdx.map linkInfoOf := by
  rw [listLinks, List.zipIdx_map, List.map_map]
  rfl

/-- A controller without labels over the nodes of a preset, and some files. -/
theorem listNodes_of_preset {c : GraphController S} {p : Preset} {files : List NodeSnapshot}
    (hnodes : (c.topology ss).nodes = p.nodes.map PresetNode.snapshot ++ files)
    (hlabels : c.labels = Registry.empty)
    (hentries : ∀ n ∈ p.nodes, c.kinds n.id = n.kind ∧ c.params n.id = n.params)
    (hfiles : ∀ n ∈ files, c.kinds n.id = some "file") :
    shown ss c = (p.nodes.map infoOf).filter fun n => n.kind ≠ some "file" := by
  rw [shown, listNodes, hnodes, List.map_append, List.filter_append, List.map_map]
  have hnone : (files.map fun ns => (⟨ns.id, (c.labels ns.id).getD s!"node-{ns.id}",
      UInt16.ofNat ns.inputs.length, UInt16.ofNat ns.outputs.length, c.kinds ns.id,
      c.params ns.id⟩ : NodeInfo)).filter (fun n => n.kind ≠ some "file") = [] := by
    rw [List.filter_eq_nil_iff]
    intro n hn
    obtain ⟨ns, hns, rfl⟩ := List.mem_map.mp hn
    simp [hfiles ns hns]
  rw [hnone, List.append_nil]
  congr 1
  refine List.map_congr_left fun n hn => ?_
  obtain ⟨hkind, hparams⟩ := hentries n hn
  simp only [Function.comp, PresetNode.snapshot, infoOf, hlabels, hkind, hparams, length_buildPorts,
    UInt16.ofNat_toNat, Registry.empty, Option.getD_none]

/-- Without labels the same is shown when there are none. -/
theorem map_unlabelled_iff (c : GraphController S) :
    (shown ss c).map unlabelled = shown ss c ↔ LabelledById ss c := by
  have hmap : (shown ss c).map unlabelled = shown ss c ↔ ∀ n ∈ shown ss c, unlabelled n = id n := by
    rw [← List.map_inj_left, List.map_id]
  rw [hmap, shown, listNodes]
  constructor
  · intro heq n hn hkind label hlabel
    have hsame := heq _ (List.mem_filter.mpr ⟨List.mem_map_of_mem hn, by simpa using hkind⟩)
    have hlab := congrArg NodeInfo.label hsame
    simp only [id, Option.mem_def.mp hlabel] at hlab
    exact hlab.symm
  · intro hlabels info hinfo
    obtain ⟨hmem, hkind⟩ := List.mem_filter.mp hinfo
    obtain ⟨n, hn, rfl⟩ := List.mem_map.mp hmem
    rcases hlabel : c.labels n.id with _ | label
    · simp only [unlabelled, id, Option.getD_none]
    · have heq := hlabels n hn (by simpa using hkind) label hlabel
      simp only [unlabelled, id, heq, Option.getD_some]

variable [LawfulSnapshotApply]

/-- **What the import of an autosaved preset leaves**, in a store with the same topology and with
fresh registries: the nodes and the links, behind those that no node held, and all entries. -/
theorem importPreset_autosave {c r : GraphController S} (hnodup : (c.topology ss).ids.Nodup) {s : S}
    (hs : ss.getTopology s = c.topology ss) {faults : ImportFaults F}
    (h : (new s).importPreset ss (autosave ss c) faults = (.ok (), r)) :
    r.topology ss = ⟨(autosave ss c).nodes.map PresetNode.snapshot,
        dangling (c.topology ss) ++ (autosave ss c).links.map PresetLink.edge⟩ ∧
      (∀ n ∈ (autosave ss c).nodes, r.kinds n.id = n.kind ∧ r.params n.id = n.params) ∧
      ∀ id, id ∉ (c.topology ss).ids → r.kinds id = none := by
  have hnodup' : ((autosave ss c).nodes.map PresetNode.id).Nodup := by
    rw [autosave_ids]
    exact hnodup
  have hdangling : (new s).topology ss = c.topology ss := hs
  have hclear : ∀ {V : Type} (ids : List NodeId) (id : NodeId),
      (Registry.empty : Registry V).removeAll ids id = none := by
    intro V ids id
    rw [Registry.removeAll]
    split
    · rfl
    · rfl
  obtain ⟨ht, -, hk, hp⟩ := importPreset_ok h
  refine ⟨?_, fun n hn => ⟨?_, ?_⟩, fun id hid => ?_⟩
  · rw [ht, hdangling]
    congr 1
    exact upsertAll_of_nodup hnodup'
  · rw [hk, recordAll_of_nodup _ _ hnodup' hn]
    exact (congrArg _ (hclear _ _)).trans (Option.or_none ..)
  · rw [hp, recordAll_of_nodup _ _ hnodup' hn]
    exact (congrArg _ (hclear _ _)).trans (Option.or_none ..)
  · rw [← autosave_ids] at hid
    rw [hk, recordAll_of_notMem _ _ hid]
    exact hclear _ _

omit [LawfulSnapshotApply] in
/-- The nodes of a restored topology have the ids they had. -/
theorem ids_map_snapshot (c : GraphController S) (es : List SnapshotEdge) :
    TopologySnapshot.ids ⟨(autosave ss c).nodes.map PresetNode.snapshot, es⟩ =
      (c.topology ss).ids := by
  rw [← autosave_ids, TopologySnapshot.ids, List.map_map]
  rfl

omit [LawfulSnapshotApply] in
/-- The links that are listed after a restart. -/
theorem listLinks_restored {c c' : GraphController S}
    (h : (c'.topology ss).edges =
      dangling (c.topology ss) ++ (autosave ss c).links.map PresetLink.edge) :
    c'.listLinks ss = c.listLinks ss ↔ dangling (c.topology ss) = [] := by
  have hback :
      ((autosave ss c).links.map PresetLink.edge).map exportEdge = (autosave ss c).links := by
    rw [List.map_map]
    exact (List.map_congr_left fun l _ => exportEdge_edge l).trans (List.map_id _)
  rw [listLinks_eq_map, listLinks_eq_map, h, List.map_append, hback, ← autosave_links]
  constructor
  · intro heq
    have hlength := congrArg List.length heq
    simp only [List.length_map, List.length_zipIdx, List.length_append] at hlength
    exact List.length_eq_zero_iff.mp (by omega)
  · intro hnil
    rw [hnil, List.map_nil, List.nil_append]

/-- A start leaves distinct ids distinct. -/
theorem nodup_ids_boot {s : S} (h : (ss.getTopology s).ids.Nodup) {preset : Option Preset}
    {loaded : Option FileBuffer} {faults : BootFaults F} {sv : State S}
    (hboot : boot ss s preset loaded faults = (.ok (), sv)) : (sv.ctrl.topology ss).ids.Nodup := by
  obtain ⟨htop, -⟩ := boot_ok hboot
  rw [htop]
  refine TopologySnapshot.nodup_ids_applyAll ?_ _
  cases preset with
  | none => exact h
  | some p => exact nodup_ids_step (c := new s) h (.importPreset p faults.restore)

section Again

variable {c r : GraphController S} {s : S} (hs : ss.getTopology s = c.topology ss)
  {loaded : Option FileBuffer} {faults : BootFaults F} {sv : State S}
  (hboot : boot ss s (some (autosave ss c)) loaded faults = (.ok (), sv))
  (himport : (new s).importPreset ss (autosave ss c) faults.restore = (.ok (), r))

include hs hboot himport

/-- **After an empty graph**, the bridge is shown. -/
theorem not_showsSame_of_empty (hempty : (c.topology ss).nodes = []) :
    ¬ShowsSame ss c sv.ctrl := by
  have hids : (c.topology ss).ids = [] := by
    rw [TopologySnapshot.ids, hempty]
    rfl
  obtain ⟨htop', -, hkinds'⟩ := importPreset_autosave (hids ▸ List.nodup_nil) hs himport
  have hrestore : restore ss s (some (autosave ss c)) faults.restore = r := by
    rw [restore, himport]
  obtain ⟨htop, -, hkinds, -⟩ := boot_ok hboot
  rw [hrestore] at htop hkinds
  have hnodes : (r.topology ss).nodes = [] := by
    rw [htop', ← List.map_eq_nil_iff (f := NodeSnapshot.id)]
    exact (ids_map_snapshot c []).trans hids
  rw [applyAll_seedMutations_of_empty hnodes] at htop
  intro hsame
  have hkind : sv.ctrl.kinds 0 = none := by
    have hfile : fileId (r.topology ss) = 2 := by
      rw [fileId, hnodes]
      rfl
    rw [hkinds 0 (.inl (by rw [hfile]; decide))]
    exact hkinds' 0 (hids ▸ List.not_mem_nil)
  have hsource :
      ⟨0, (sv.ctrl.labels 0).getD s!"node-{0}", 0, 1, sv.ctrl.kinds 0, sv.ctrl.params 0⟩ ∈
        shown ss sv.ctrl := by
    rw [shown, List.mem_filter, listNodes, htop]
    refine ⟨List.mem_cons_self, ?_⟩
    simp [hkind]
  rw [hsame.1, shown, listNodes, hempty] at hsource
  exact absurd hsource List.not_mem_nil

/-- **After any other graph**, the nodes are shown without their labels, and the links as they come
back. -/
theorem showsSame_iff_of_ne (hnodup : (c.topology ss).ids.Nodup) (hmax : BelowMax ss c)
    (hne : (c.topology ss).nodes ≠ []) :
    ShowsSame ss c sv.ctrl ↔ LabelledById ss c ∧ dangling (c.topology ss) = [] := by
  obtain ⟨htop', hentries', -⟩ := importPreset_autosave hnodup hs himport
  have hrestore : restore ss s (some (autosave ss c)) faults.restore = r := by
    rw [restore, himport]
  obtain ⟨htop, hlabels, hkinds, hfile, hparams⟩ := boot_ok hboot
  rw [hrestore] at htop hkinds hfile hparams
  have hids : (r.topology ss).ids = (c.topology ss).ids := by
    rw [htop']
    exact ids_map_snapshot c _
  have hne' : (r.topology ss).nodes ≠ [] := by
    intro hnil
    have hmap : (c.topology ss).nodes.map NodeSnapshot.id = [] := by
      rw [TopologySnapshot.ids, hnil] at hids
      exact hids.symm
    exact hne (List.map_eq_nil_iff.mp hmap)
  have hmax' : ∀ id ∈ (r.topology ss).ids, id < usizeMax := hids ▸ hmax
  rw [applyAll_seedMutations_of_ne hne' hmax' loaded] at htop
  -- the file comes behind the restored nodes, and has no entry in common with them
  have hshown : shown ss sv.ctrl = (shown ss c).map unlabelled := by
    have hnodes : (sv.ctrl.topology ss).nodes = (autosave ss c).nodes.map PresetNode.snapshot ++
        fileNodes (r.topology ss) loaded := by
      rw [htop, htop']
    rw [listNodes_of_preset hnodes hlabels (fun n hn => ?_) (fun n hn => ?_), autosave_nodes, shown,
      List.filter_map]
    · rfl
    · have hmem : n.id ∈ (r.topology ss).ids := by
        rw [hids, ← autosave_ids]
        exact List.mem_map_of_mem hn
      have hnefile : n.id ≠ fileId (r.topology ss) := fun heq =>
        fileId_notMem hne' hmax' (heq ▸ hmem)
      rw [hkinds n.id (.inl hnefile), hparams]
      exact hentries' n hn
    · cases loaded with
      | none => exact absurd hn List.not_mem_nil
      | some buf =>
        obtain rfl := List.mem_singleton.mp hn
        exact hfile (Option.some_ne_none buf)
  have hlinks : (sv.ctrl.topology ss).edges =
      dangling (c.topology ss) ++ (autosave ss c).links.map PresetLink.edge := by
    rw [htop, htop']
  rw [ShowsSame, listLinks_restored hlinks, hshown]
  exact and_congr_left fun _ => map_unlabelled_iff c

end Again

/-- **What a restart shows.** For a server that has started on a store with distinct ids, after any
run of edits and imports: when the store is opened again with the topology it had, and the next
start and its import of the autosaved preset go through, the control surface shows the same as
before if and only if the graph is not empty, no node – files excepted – has a label of its own, and
no link is without nodes. -/
theorem restart_shows_same_iff {G : Type} [GraphOps G (Bridge.AudioNode DspNode)] [CountedGraph G]
    {s₀ : S} (h₀ : (ss.getTopology s₀).ids.Nodup) {preset₀ : Option Preset}
    {loaded₀ : Option FileBuffer} {faults₀ : BootFaults F} {sv₀ : State S}
    (hstart₀ : start ss G s₀ preset₀ loaded₀ faults₀ = (.ok (), sv₀)) {ops : List (Op F)}
    {c : GraphController S} (hc : sv₀.ctrl.runOps ss ops = c) (hmax : BelowMax ss c) {s : S}
    (hs : ss.getTopology s = c.topology ss) {loaded : Option FileBuffer} {faults : BootFaults F}
    {sv : State S} (hstart : start ss G s (some (autosave ss c)) loaded faults = (.ok (), sv))
    {r : GraphController S}
    (himport : (new s).importPreset ss (autosave ss c) faults.restore = (.ok (), r)) :
    ShowsSame ss c sv.ctrl ↔
      (c.topology ss).nodes ≠ [] ∧ LabelledById ss c ∧ dangling (c.topology ss) = [] := by
  have hboot := (start_ok_iff.mp hstart).1
  have hnodup : (c.topology ss).ids.Nodup :=
    hc ▸ nodup_ids_runOps (nodup_ids_boot h₀ (start_ok_iff.mp hstart₀).1) ops
  by_cases hempty : (c.topology ss).nodes = []
  · constructor
    · exact fun hsame => absurd hsame (not_showsSame_of_empty hs hboot himport hempty)
    · exact fun hcond => absurd hempty hcond.1
  · rw [showsSame_iff_of_ne hs hboot himport hnodup hmax hempty]
    exact (and_iff_right hempty).symm

end Restart

/-- A start whose graph checks the ports of its links. -/
def checkedStart (s : RaftEngine.EngineState) (preset : Option Preset) :
    Except StartError Unit × State RaftEngine.EngineState :=
  letI := SnapshotApply.documented
  letI := ringPorts
  start engineStore (CheckedGraph (Bridge.AudioNode DspNode)) s preset none calm

/-- A gain of a quarter is created under a label. -/
def labelled (label : String) : List (Op (Option (RaftEngine.PersistStep × String))) :=
  [.edit (.createNode { quarterSpec with label }) none]

/-- What the server shows after a start, edits and a second start. -/
def restarted (label : String) :
    GraphController RaftEngine.EngineState × State RaftEngine.EngineState :=
  letI := SnapshotApply.documented
  let c := (checkedStart seededEngine none).2.ctrl.runOps engineStore (labelled label)
  (c, (checkedStart c.store (some (autosave engineStore c))).2)

/-- A node that is labelled by its id is shown as before. -/
theorem restart_shows_same_iff_labelled :
    letI := SnapshotApply.documented
    ShowsSame engineStore (restarted "node-2").1 (restarted "node-2").2.ctrl := by
  let := SnapshotApply.documented
  have := SnapshotApply.lawful_documented
  let := ringPorts
  have hlabels : LabelledById engineStore (restarted "node-2").1 := by
    unfold LabelledById
    decide
  exact (restart_shows_same_iff (show (engineStore.getTopology seededEngine).ids.Nodup by decide)
    (show checkedStart seededEngine none = (.ok (), _) from rfl)
    (show _ = (restarted "node-2").1 from rfl) (by decide)
    (show engineStore.getTopology (restarted "node-2").1.store = _ from rfl)
    (show checkedStart (restarted "node-2").1.store _ = (.ok (), _) from rfl)
    (show (new (restarted "node-2").1.store).importPreset engineStore _ calm.restore = (.ok (), _)
      from rfl)).mpr ⟨by decide, hlabels, by decide⟩

/-- **A restart loses the labels.** Both starts and the import go through; a node that was shown as
`level` is shown as `node-2`. -/
theorem restart_loses_labels :
    letI := SnapshotApply.documented
    (checkedStart seededEngine none).1 = .ok () ∧
      (checkedStart (restarted "level").1.store
        (some (autosave engineStore (restarted "level").1))).1 = .ok () ∧
      ((new (restarted "level").1.store).importPreset engineStore
        (autosave engineStore (restarted "level").1) calm.restore).1 = .ok () ∧
      (shown engineStore (restarted "level").1).map NodeInfo.label = ["node-0", "node-1", "level"] ∧
      (shown engineStore (restarted "level").2.ctrl).map NodeInfo.label =
        ["node-0", "node-1", "node-2"] := by
  let := SnapshotApply.documented
  exact ⟨rfl, rfl, rfl, by decide, by decide⟩

end Server

end SonicBrew
