import SonicBrew.ControlApi.Preset

/-!
# Importing a preset and exporting it again

Import promises to *replace* the graph, so exporting right after an import should give the
preset back. From which states does it? The registries never get in the way: over any run of
edits and imports, successful or not, they speak only of nodes that exist
(`SonicBrew.GraphController.KeysWithin`), so clearing the nodes clears them too. The links do:
one that no node holds outlives the clearing, and an earlier import of a preset with such a link
puts it there. That is the only obstacle, whence the equivalence
`SonicBrew.GraphController.exportPreset_importPreset_iff`.
-/

namespace SonicBrew

/-- **A well-formed preset**: of the current version, with distinct ids, and with links
between ports of its own nodes. -/
structure Preset.WellFormed (p : Preset) : Prop where
  version : p.version = presetVersion
  nodup : (p.nodes.map PresetNode.id).Nodup
  links : ∀ l ∈ p.links, p.EdgeOk l.edge

/-! ### Distinct ids -/

theorem recordAll_of_notMem {V : Type} (f : PresetNode → Option V) (r : Registry V)
    {ns : List PresetNode} {id : NodeId} (h : id ∉ ns.map PresetNode.id) :
    recordAll f r ns id = r id := by
  induction ns generalizing r with
  | nil => rfl
  | cons n ns ih =>
    simp only [List.map_cons, List.mem_cons, not_or] at h
    change recordAll f (r.insertSome n.id (f n)) ns id = _
    rw [ih _ h.2, Registry.insertSome_of_ne r (f n) h.1]

/-- With distinct ids, every node has its own entry. -/
theorem recordAll_of_nodup {V : Type} (f : PresetNode → Option V) (r : Registry V)
    {ns : List PresetNode} (h : (ns.map PresetNode.id).Nodup) {n : PresetNode} (hn : n ∈ ns) :
    recordAll f r ns n.id = (f n).or (r n.id) := by
  induction ns generalizing r with
  | nil => exact absurd hn List.not_mem_nil
  | cons m ns ih =>
    rw [List.map_cons, List.nodup_cons] at h
    change recordAll f (r.insertSome m.id (f m)) ns n.id = _
    rcases List.mem_cons.mp hn with rfl | hn
    · rw [recordAll_of_notMem _ _ h.1, Registry.insertSome_self]
    · have hne : n.id ≠ m.id := by
        intro hc
        exact h.1 (hc ▸ List.mem_map_of_mem hn)
      rw [ih _ h.2 hn, Registry.insertSome_of_ne r (f m) hne]

/-- With distinct ids, every node is appended. -/
theorem upsertAll_of_nodup {ms : List NodeSnapshot} {ns : List PresetNode}
    (h : (ms.map NodeSnapshot.id ++ ns.map PresetNode.id).Nodup) :
    upsertAll ms ns = ms ++ ns.map PresetNode.snapshot := by
  induction ns generalizing ms with
  | nil => rw [upsertAll, List.foldl_nil, List.map_nil, List.append_nil]
  | cons n ns ih =>
    have hfresh : n.snapshot.id ∉ ms.map NodeSnapshot.id := by
      intro hc
      exact (List.nodup_append.mp h).2.2 _ hc _ List.mem_cons_self rfl
    change upsertAll (TopologySnapshot.upsertNode n.snapshot ms) ns = _
    rw [TopologySnapshot.upsertNode_of_fresh hfresh, ih, List.map_cons, List.append_assoc,
      List.singleton_append]
    rw [List.map_append, List.append_assoc]
    exact h

namespace GraphController

/-! ### Runs of edits and imports -/

section Keys

variable [SnapshotApply] {S F : Type} (ss : SessionStore S F)

/-- An operation of the controller that changes something, with what befalls its store
calls. -/
inductive Op (F : Type) where
  | edit (edit : Edit) (fault : F)
  | importPreset (p : Preset) (faults : ImportFaults F)

/-- One operation. -/
def step (c : GraphController S) : Op F → GraphController S
  | .edit edit fault => (c.exec ss edit fault).2
  | .importPreset p faults => (c.importPreset ss p faults).2

/-- A run of operations. -/
def runOps (c : GraphController S) (ops : List (Op F)) : GraphController S := ops.foldl (step ss) c

variable {ss}

variable [LawfulSnapshotApply]

theorem KeysWithin.exec {c : GraphController S} (h : KeysWithin ss c) (edit : Edit) (fault : F) :
    KeysWithin ss (c.exec ss edit fault).2 := by
  rcases exec_cases c edit fault with ⟨e, he⟩ | ⟨r, c', he, heff⟩
  · rw [he]
    exact h
  · rw [he]
    rcases heff with ⟨spec, kind, s, -, rfl, ht⟩ | ⟨e, s, -, rfl, ht⟩ | ⟨id, s, rfl, ht⟩ |
      ⟨id, s, rfl, ht⟩
    · exact h.addNode ht spec.label kind spec.params
    · exact h.addLink ht
    · exact h.removeNode ht
    · exact h.removeLink ht

/-! An import may fail in the middle of any of its loops. What holds of the result all the same is
what every store call keeps, together with the entries that go with it. -/

omit [LawfulSnapshotApply] in
theorem clearNodes_invariant {P : GraphController S → Prop}
    (hclear : ∀ c id s, P c → ss.getTopology s = (c.topology ss).apply (.removeNode id) →
      P ({ c with store := s }.prune id)) {c : GraphController S} (h : P c) (fault : ℕ → F)
    (ids : List NodeId) : P (c.clearNodes ss fault ids).2 := by
  induction ids generalizing c fault with
  | nil => exact h
  | cons id ids ih =>
    rw [GraphController.clearNodes]
    rcases mutate_cases ss c (.removeNode id) (fault 0) with ⟨e, hm⟩ | ⟨s, hm, ht⟩
    · rw [hm]
      exact h
    · rw [hm]
      exact ih (hclear c id s h ht) _

omit [LawfulSnapshotApply] in
theorem createNodes_invariant {P : GraphController S → Prop} {ns : List PresetNode}
    (hcreate : ∀ c n s, n ∈ ns → P c →
      ss.getTopology s = (c.topology ss).apply (.addNode n.snapshot) →
      P ({ c with store := s }.record n.id n.label n.kind n.params))
    {c : GraphController S} (h : P c) (fault : ℕ → F) : P (c.createNodes ss fault ns).2 := by
  induction ns generalizing c fault with
  | nil => exact h
  | cons n ns ih =>
    rw [GraphController.createNodes]
    rcases mutate_cases ss c (.addNode n.snapshot) (fault 0) with ⟨e, hm⟩ | ⟨s, hm, ht⟩
    · rw [hm]
      exact h
    · rw [hm]
      exact ih (fun c n s hn => hcreate c n s (List.mem_cons_of_mem _ hn))
        (hcreate c n s List.mem_cons_self h ht) _

omit [LawfulSnapshotApply] in
theorem createLinks_invariant {P : GraphController S → Prop} {ls : List PresetLink}
    (hlink : ∀ c l s, l ∈ ls → P c → ss.getTopology s = (c.topology ss).apply (.addLink l.edge) →
      P { c with store := s }) {c : GraphController S} (h : P c) (fault : ℕ → F) :
    P (c.createLinks ss fault ls).2 := by
  induction ls generalizing c fault with
  | nil => exact h
  | cons l ls ih =>
    rw [GraphController.createLinks]
    rcases mutate_cases ss c (.addLink l.edge) (fault 0) with ⟨e, hm⟩ | ⟨s, hm, ht⟩
    · rw [hm]
      exact h
    · rw [hm]
      exact ih (fun c l s hl => hlink c l s (List.mem_cons_of_mem _ hl))
        (hlink c l s List.mem_cons_self h ht) _

/-- The nodes that have been created are in the topology. -/
theorem mem_ids_createNodes {c c' : GraphController S} {fault : ℕ → F} {ns : List PresetNode}
    (h : c.createNodes ss fault ns = (.ok (), c')) {n : PresetNode} (hn : n ∈ ns) :
    n.id ∈ (c'.topology ss).ids := by
  obtain ⟨ht, -⟩ := createNodes_ok h
  have hsome : (ns.reverse.find? fun m => m.id = n.id).isSome :=
    List.find?_isSome.mpr ⟨n, List.mem_reverse.mpr hn, by simp⟩
  obtain ⟨m, hm⟩ := Option.isSome_iff_exists.mp hsome
  rw [ht, TopologySnapshot.mem_ids_iff]
  refine ⟨m.snapshot, ?_⟩
  rw [TopologySnapshot.node, find?_upsertAll, hm]
  rfl

/-- **The invariant rule for imports.** When the links are created, all nodes of the preset are
there. -/
theorem importPreset_invariant {P : GraphController S → Prop} {p : Preset}
    (hclear : ∀ c id s, P c → ss.getTopology s = (c.topology ss).apply (.removeNode id) →
      P ({ c with store := s }.prune id))
    (hcreate : ∀ c n s, n ∈ p.nodes → P c →
      ss.getTopology s = (c.topology ss).apply (.addNode n.snapshot) →
      P ({ c with store := s }.record n.id n.label n.kind n.params))
    (hlink : ∀ c l s, l ∈ p.links → P c → (∀ n ∈ p.nodes, n.id ∈ (c.topology ss).ids) →
      ss.getTopology s = (c.topology ss).apply (.addLink l.edge) → P { c with store := s })
    {c : GraphController S} (h : P c) (faults : ImportFaults F) :
    P (c.importPreset ss p faults).2 := by
  have h₁ := clearNodes_invariant hclear h faults.clear (c.topology ss).ids
  rw [GraphController.importPreset]
  rcases hc : c.clearNodes ss faults.clear (c.topology ss).ids with ⟨_ | _, c₁⟩
  · rw [hc] at h₁
    exact h₁
  rw [hc] at h₁
  have h₂ := createNodes_invariant hcreate h₁ faults.nodes
  rcases hn : c₁.createNodes ss faults.nodes p.nodes with ⟨_ | _, c₂⟩
  · simp only [hn]
    rw [hn] at h₂
    exact h₂
  simp only [hn]
  rw [hn] at h₂
  have hids : ∀ n ∈ p.nodes, n.id ∈ (c₂.topology ss).ids :=
    fun n hmem => mem_ids_createNodes hn hmem
  refine (createLinks_invariant
    (P := fun c => P c ∧ ∀ n ∈ p.nodes, n.id ∈ (c.topology ss).ids) (fun c l s hl hp ht => ?_)
    ⟨h₂, hids⟩ faults.links).1
  refine ⟨hlink c l s hl hp.1 hp.2 ht, fun n hmem => ?_⟩
  change n.id ∈ (ss.getTopology s).ids
  rw [ht, apply_addLink]
  exact hp.2 n hmem

theorem KeysWithin.importPreset {c : GraphController S} (h : KeysWithin ss c) (p : Preset)
    (faults : ImportFaults F) : KeysWithin ss (c.importPreset ss p faults).2 := by
  refine importPreset_invariant (fun c id s hc ht => ?_) (fun c n s _ hc ht => ?_)
    (fun c l s _ hc _ ht => ?_) h faults
  · exact hc.removeNode ht
  · exact hc.addNode ht n.label n.kind n.params
  · exact hc.addLink ht

/-- **No operation makes two nodes share an id.** -/
theorem nodup_ids_step {c : GraphController S} (h : (c.topology ss).ids.Nodup) (op : Op F) :
    ((c.step ss op).topology ss).ids.Nodup := by
  -- one store call
  have happly : ∀ (c : GraphController S) (m : Mutation) (s : S), (c.topology ss).ids.Nodup →
      ss.getTopology s = (c.topology ss).apply m → (ss.getTopology s).ids.Nodup := by
    intro c m s hc ht
    rw [ht]
    exact TopologySnapshot.nodup_ids_apply hc m
  cases op with
  | edit edit fault =>
    rw [step]
    rcases exec_cases c edit fault with ⟨e, he⟩ | ⟨r, c', he, heff⟩
    · rw [he]
      exact h
    · rw [he]
      rcases heff with ⟨spec, kind, s, -, rfl, ht⟩ | ⟨e, s, -, rfl, ht⟩ | ⟨id, s, rfl, ht⟩ |
        ⟨id, s, rfl, ht⟩
      all_goals exact happly c _ s h ht
  | importPreset p faults =>
    exact importPreset_invariant (P := fun c => (c.topology ss).ids.Nodup)
      (fun c id s hc ht => happly c _ s hc ht) (fun c n s _ hc ht => happly c _ s hc ht)
      (fun c l s _ hc _ ht => happly c _ s hc ht) h faults

theorem nodup_ids_runOps {c : GraphController S} (h : (c.topology ss).ids.Nodup)
    (ops : List (Op F)) :
    ((c.runOps ss ops).topology ss).ids.Nodup := by
  induction ops generalizing c with
  | nil => exact h
  | cons op ops ih => exact ih (nodup_ids_step h op)

/-- **Over every run, the registries speak of nodes that exist.** -/
theorem keysWithin_runOps {c : GraphController S} (h : KeysWithin ss c) (ops : List (Op F)) :
    KeysWithin ss (c.runOps ss ops) := by
  induction ops generalizing c with
  | nil => exact h
  | cons op ops ih =>
    refine ih ?_
    cases op with
    | edit edit fault => exact h.exec edit fault
    | importPreset p faults => exact h.importPreset p faults

end Keys

/-! ### The round trip -/

section RoundTrip

variable [SnapshotApply] {S F : Type} {ss : SessionStore S F}

/-- A link as it is exported. -/
def exportEdge (e : SnapshotEdge) : PresetLink :=
  ⟨e.src.1, UInt16.ofNat e.src.2, e.dst.1, UInt16.ofNat e.dst.2⟩

theorem exportPreset_links (c : GraphController S) :
    (c.exportPreset ss).links = (c.topology ss).edges.map exportEdge := by
  rw [exportPreset, listLinks, List.map_map]
  change List.map (exportEdge ∘ Prod.fst) _ = _
  rw [← List.map_map, List.zipIdx_map_fst]

omit [SnapshotApply] in
/-- A preset's link is exported as it was imported. -/
theorem exportEdge_edge (l : PresetLink) : exportEdge l.edge = l := by
  rw [exportEdge, PresetLink.edge]
  simp only [UInt16.ofNat_toNat]

variable [LawfulSnapshotApply]

/-- **The nodes come back**: in order, with their labels, ports, kinds and parameters. -/
theorem exportPreset_nodes {c c' : GraphController S} (hc : KeysWithin ss c) {p : Preset}
    (hp : p.WellFormed) {faults : ImportFaults F}
    (h : c.importPreset ss p faults = (.ok (), c')) : (c'.exportPreset ss).nodes = p.nodes := by
  obtain ⟨ht, hl, hk, hq⟩ := importPreset_ok h
  have hnodes : (c'.topology ss).nodes = p.nodes.map PresetNode.snapshot := by
    rw [ht]
    exact upsertAll_of_nodup hp.nodup
  -- what is left of a registry after clearing is nothing at all
  have hclear : ∀ {V : Type} {r : Registry V}, r.KeysIn (c.topology ss).ids →
      ∀ id, r.removeAll (c.topology ss).ids id = none := by
    intro V r hr id
    rw [Registry.removeAll]
    by_cases hid : id ∈ (c.topology ss).ids
    · rw [if_pos hid]
    · rw [if_neg hid]
      by_contra hne
      exact hid (hr id hne)
  rw [exportPreset, listNodes, hnodes, List.map_map, List.map_map]
  refine (List.map_congr_left fun n hn => ?_).trans (List.map_id p.nodes)
  have hlabel : c'.labels n.id = some n.label := by
    rw [hl, recordAll_of_nodup _ _ hp.nodup hn]
    rfl
  have hkind : c'.kinds n.id = n.kind := by
    rw [hk, recordAll_of_nodup _ _ hp.nodup hn, hclear hc.kinds, Option.or_none]
  have hparams : c'.params n.id = n.params := by
    rw [hq, recordAll_of_nodup _ _ hp.nodup hn, hclear hc.params, Option.or_none]
  simp only [Function.comp, PresetNode.snapshot, hlabel, hkind, hparams, length_buildPorts,
    UInt16.ofNat_toNat, Option.getD_some, id]

/-- **The links come back** behind those that no node held. -/
theorem exportPreset_links_importPreset {c c' : GraphController S} {p : Preset}
    {faults : ImportFaults F} (h : c.importPreset ss p faults = (.ok (), c')) :
    (c'.exportPreset ss).links = (dangling (c.topology ss)).map exportEdge ++ p.links := by
  obtain ⟨ht, -⟩ := importPreset_ok h
  rw [exportPreset_links, ht, List.map_append, List.map_map]
  congr 1
  refine (List.map_congr_left fun l _ => ?_).trans (List.map_id p.links)
  exact exportEdge_edge l

/-- **Export after import.** In every state a controller can reach, whatever the store held
at the start, and for every well-formed preset whose import goes through: the exported preset is
the imported one if and only if no link of the state before had both of its endpoints outside
the topology. -/
theorem exportPreset_importPreset_iff {s : S} {ops : List (Op F)} {p : Preset}
    (hp : p.WellFormed) {faults : ImportFaults F} {c' : GraphController S}
    (h : ((new s).runOps ss ops).importPreset ss p faults = (.ok (), c')) :
    c'.exportPreset ss = p ↔ dangling (((new s).runOps ss ops).topology ss) = [] := by
  have hnodes := exportPreset_nodes (keysWithin_runOps (keysWithin_new s) ops) hp h
  have hlinks := exportPreset_links_importPreset h
  constructor
  · intro heq
    rw [heq] at hlinks
    have hnil := List.self_eq_append_left.mp hlinks
    exact List.map_eq_nil_iff.mp hnil
  · intro hnil
    rw [hnil, List.map_nil, List.nil_append] at hlinks
    exact Preset.ext hp.version.symm hnodes hlinks

end RoundTrip

/-- The preset of an empty graph. -/
def emptyPreset : Preset := ⟨1, [], []⟩

theorem wellFormed_emptyPreset : emptyPreset.WellFormed :=
  ⟨rfl, List.nodup_nil, fun _ h => absurd h List.not_mem_nil⟩

/-- The run that imports a link between nodes that do not exist. -/
def danglingRun : List (Op (Option (RaftEngine.PersistStep × String))) :=
  [.importPreset danglingPreset noFaults]

theorem exportPreset_importPreset_iff_danglingRun :
    letI := SnapshotApply.documented
    (((new emptyEngine).runOps engineStore danglingRun).importPreset engineStore
        emptyPreset noFaults).2.exportPreset engineStore = emptyPreset ↔
      dangling (((new emptyEngine).runOps engineStore danglingRun).topology engineStore) = [] :=
  letI := SnapshotApply.documented
  letI := SnapshotApply.lawful_documented
  exportPreset_importPreset_iff wellFormed_emptyPreset
    (show ((new emptyEngine).runOps engineStore danglingRun).importPreset engineStore
      emptyPreset noFaults = (.ok (), _) from rfl)

/-- **A link survives its replacement.** After an import of a link between nodes that do not
exist, the import of the empty preset goes through, and the export still has the link. -/
theorem exportPreset_leftover :
    letI := SnapshotApply.documented
    emptyPreset.WellFormed ∧
      (((new emptyEngine).runOps engineStore danglingRun).importPreset engineStore
        emptyPreset noFaults).1 = .ok () ∧
      (((new emptyEngine).runOps engineStore danglingRun).importPreset engineStore
        emptyPreset noFaults).2.exportPreset engineStore = danglingPreset ∧
      danglingPreset ≠ emptyPreset :=
  letI := SnapshotApply.documented
  ⟨wellFormed_emptyPreset, rfl, rfl, by decide⟩

end GraphController

end SonicBrew
