import SonicBrew.ControlApi.Controller
import SonicBrew.SessionStore.RaftTypes

/-!
# The integrity of the graph under edits

A controller that starts from an empty topology and is only ever *edited* – nodes and links
created and deleted one at a time – keeps its four pieces of state in step
(`SonicBrew.GraphController.Integrity`): node ids are distinct, every link joins ports that
exist, the registries speak of nodes that exist, and a node's parameters are of its kind.

Each part needs the others. A new node's id is one above the largest, so it is fresh, so the
node is appended rather than put in another's place, and the registries have nothing under its
id that could disagree with what is recorded now. Removing a node takes its links along, so no
link is left behind. The one thing that can break the argument is the end of the id type, where
“one above” is the same id again; hence the hypothesis that no id gets there
(`SonicBrew.GraphController.StaysBelowMax`).
-/

namespace SonicBrew

namespace GraphController

/-! ### Ids, kinds and ports -/

/-- Above the largest possible id there is no other. -/
theorem newId_eq_usizeMax {t : TopologySnapshot} (h : usizeMax ∈ t.ids) : newId t = usizeMax := by
  rcases hm : t.ids.max? with _ | m
  · rw [List.max?_eq_none_iff.mp hm] at h
    exact absurd h List.not_mem_nil
  · rw [newId, hm, Option.getD_some]
    exact Nat.min_eq_right (Nat.le_succ_of_le ((List.max?_eq_some_iff.mp hm).2 _ h))

/-- **The next id is taken exactly if the largest possible one is.** -/
theorem newId_mem_iff {t : TopologySnapshot} : newId t ∈ t.ids ↔ usizeMax ∈ t.ids := by
  constructor
  · intro hmem
    by_contra hmax
    have hne : newId t ≠ usizeMax := fun h => hmax (h ▸ hmem)
    rcases hm : t.ids.max? with _ | m
    · rw [List.max?_eq_none_iff.mp hm] at hmem
      exact List.not_mem_nil hmem
    · have hnew : newId t = m + 1 := by
        rw [newId, hm, Option.getD_some] at hne ⊢
        exact Nat.min_eq_left (Nat.le_of_not_le fun hle => hne (Nat.min_eq_right hle))
      rw [hnew] at hmem
      exact Nat.not_succ_le_self m ((List.max?_eq_some_iff.mp hm).2 _ hmem)
  · intro hmax
    rw [newId_eq_usizeMax hmax]
    exact hmax

/-- **The next id is fresh**, below the end of the type. -/
theorem newId_notMem {t : TopologySnapshot} (h : ∀ id ∈ t.ids, id < usizeMax) :
    newId t ∉ t.ids := by
  intro hmem
  exact Nat.lt_irrefl usizeMax (h usizeMax (newId_mem_iff.mp hmem))

/-- The id of a new node is at most one above the others. -/
theorem newId_le {t : TopologySnapshot} {m : ℕ} (h : ∀ id ∈ t.ids, id ≤ m) : newId t ≤ m + 1 := by
  refine (Nat.min_le_left _ _).trans (Nat.succ_le_succ ?_)
  rcases hm : t.ids.max? with _ | k
  · exact Nat.zero_le m
  · exact h k (List.max?_eq_some_iff.mp hm).1

/-- What `create_node` records as kind is the kind of the parameters. -/
theorem checkKind_eq_ok {spec : NodeSpec} {kind : Option String} (h : checkKind spec = .ok kind)
    {q : NodeParams} (hq : spec.params = some q) : kind = some q.kindName := by
  rw [checkKind, hq] at h
  rcases hk : spec.kind with _ | expected
  · simp only [hk] at h
    exact (Except.ok.inj h).symm
  · simp only [hk] at h
    by_cases hne : expected ≠ q.kindName
    · rw [if_pos hne] at h
      exact absurd h (by simp)
    · rw [if_neg hne] at h
      rw [← Except.ok.inj h, not_not.mp hne]

/-- A link keeps its ports as nodes are added at the end. -/
theorem EdgeOk.append {t : TopologySnapshot} {e : SnapshotEdge} (h : EdgeOk t e)
    (ns : List NodeSnapshot) (es : List SnapshotEdge) : EdgeOk ⟨t.nodes ++ ns, es⟩ e := by
  obtain ⟨⟨s, hs, hsp⟩, d, hd, hdp⟩ := h
  exact ⟨⟨s, TopologySnapshot.node_append hs ns es, hsp⟩, d,
    TopologySnapshot.node_append hd ns es, hdp⟩

/-- A link that does not touch a removed node keeps its ports. -/
theorem EdgeOk.filter {t : TopologySnapshot} {e : SnapshotEdge} (h : EdgeOk t e) {id : NodeId}
    (hsrc : e.src.1 ≠ id) (hdst : e.dst.1 ≠ id) (es : List SnapshotEdge) :
    EdgeOk ⟨t.nodes.filter fun n => n.id ≠ id, es⟩ e := by
  rw [EdgeOk, TopologySnapshot.node_filter hsrc, TopologySnapshot.node_filter hdst]
  exact h

/-! ### The registries speak of nodes that exist -/

section Keys

variable [SnapshotApply] {S F : Type} (ss : SessionStore S F)

/-- **Every entry of a registry is of a node of the topology.** -/
structure KeysWithin (c : GraphController S) : Prop where
  labels : c.labels.KeysIn (c.topology ss).ids
  kinds : c.kinds.KeysIn (c.topology ss).ids
  params : c.params.KeysIn (c.topology ss).ids

variable {ss}

theorem keysWithin_new (s : S) : KeysWithin ss (new s) :=
  ⟨fun _ h => absurd rfl h, fun _ h => absurd rfl h, fun _ h => absurd rfl h⟩

/-- The ids only grow. -/
theorem KeysWithin.mono {c : GraphController S} (h : KeysWithin ss c) {s : S}
    (hsub : ∀ id ∈ (c.topology ss).ids, id ∈ (ss.getTopology s).ids) :
    KeysWithin ss { c with store := s } :=
  ⟨h.labels.mono hsub, h.kinds.mono hsub, h.params.mono hsub⟩

variable [LawfulSnapshotApply]

theorem KeysWithin.addNode {c : GraphController S} (h : KeysWithin ss c) {s : S}
    {n : NodeSnapshot} (ht : ss.getTopology s = (c.topology ss).apply (.addNode n))
    (label : String) (kind : Option String) (params : Option NodeParams) :
    KeysWithin ss ({ c with store := s }.record n.id label kind params) := by
  rw [apply_addNode] at ht
  have hnew : n.id ∈ (ss.getTopology s).ids := by
    rw [ht]
    exact List.mem_map_of_mem (TopologySnapshot.mem_upsertNode_self n _)
  have hgrow : KeysWithin ss { c with store := s } := by
    refine h.mono fun id hid => ?_
    rw [ht]
    exact TopologySnapshot.mem_ids_upsertNode hid
  exact ⟨hgrow.labels.insertSome hnew (some label), hgrow.kinds.insertSome hnew kind,
    hgrow.params.insertSome hnew params⟩

theorem KeysWithin.removeNode {c : GraphController S} (h : KeysWithin ss c) {s : S} {id : NodeId}
    (ht : ss.getTopology s = (c.topology ss).apply (.removeNode id)) :
    KeysWithin ss ({ c with store := s }.prune id) := by
  have hids : (ss.getTopology s).ids = (c.topology ss).ids.filter fun i => i ≠ id := by
    rw [ht, apply_removeNode, TopologySnapshot.ids, TopologySnapshot.ids, List.filter_map]
    rfl
  refine ⟨?_, ?_, ?_⟩
  · change (c.labels.remove id).KeysIn (ss.getTopology s).ids
    rw [hids]
    exact h.labels.remove id
  · change (c.kinds.remove id).KeysIn (ss.getTopology s).ids
    rw [hids]
    exact h.kinds.remove id
  · change (c.params.remove id).KeysIn (ss.getTopology s).ids
    rw [hids]
    exact h.params.remove id

theorem KeysWithin.addLink {c : GraphController S} (h : KeysWithin ss c) {s : S}
    {e : SnapshotEdge} (ht : ss.getTopology s = (c.topology ss).apply (.addLink e)) :
    KeysWithin ss { c with store := s } := by
  refine h.mono fun id hid => ?_
  rw [ht, apply_addLink]
  exact hid

theorem KeysWithin.removeLink {c : GraphController S} (h : KeysWithin ss c) {s : S} {id : LinkId}
    (ht : ss.getTopology s = (c.topology ss).apply (.removeLink id)) :
    KeysWithin ss { c with store := s } := by
  refine h.mono fun i hi => ?_
  rw [ht, apply_removeLink]
  exact hi

end Keys

/-! ### The invariant -/

section Integrity

variable [SnapshotApply] {S F : Type} (ss : SessionStore S F)

/-- **Integrity.** -/
structure Integrity (c : GraphController S) : Prop where
  /-- Node ids are pairwise distinct. -/
  nodup : (c.topology ss).ids.Nodup
  /-- Every link joins ports that exist. -/
  edges : ∀ e ∈ (c.topology ss).edges, EdgeOk (c.topology ss) e
  /-- Labels are of nodes. -/
  labels : c.labels.KeysIn (c.topology ss).ids
  /-- Kinds are of nodes. -/
  kinds : c.kinds.KeysIn (c.topology ss).ids
  /-- Parameters are of nodes. -/
  params : c.params.KeysIn (c.topology ss).ids
  /-- A node with parameters has their kind. -/
  kindName : ∀ id q, c.params id = some q → c.kinds id = some q.kindName

/-- No node has the largest id there is. -/
def BelowMax (c : GraphController S) : Prop := ∀ id ∈ (c.topology ss).ids, id < usizeMax

instance (c : GraphController S) : Decidable (BelowMax ss c) :=
  inferInstanceAs (Decidable (∀ id ∈ (c.topology ss).ids, id < usizeMax))

/-- No edit of a run starts from a topology with the largest id. -/
def StaysBelowMax : GraphController S → List (Edit × F) → Prop
  | _, [] => True
  | c, e :: edits => BelowMax ss c ∧ StaysBelowMax (c.exec ss e.1 e.2).2 edits

variable {ss}

theorem Integrity.keysWithin {c : GraphController S} (h : Integrity ss c) : KeysWithin ss c :=
  ⟨h.labels, h.kinds, h.params⟩

/-- The nodes stay and the links change to ones that have their ports. -/
theorem Integrity.edges_of_nodes_eq {c : GraphController S} (h : Integrity ss c) {s : S}
    {es : List SnapshotEdge} (ht : ss.getTopology s = { c.topology ss with edges := es })
    (hes : ∀ e ∈ es, EdgeOk (c.topology ss) e) : Integrity ss { c with store := s } := by
  have hids : (ss.getTopology s).ids = (c.topology ss).ids := by
    rw [ht]
    rfl
  obtain ⟨hlabels, hkinds, hparams⟩ := h.keysWithin.mono (s := s) fun id hid => hids ▸ hid
  refine ⟨?_, ?_, hlabels, hkinds, hparams, h.kindName⟩
  · change (ss.getTopology s).ids.Nodup
    rw [hids]
    exact h.nodup
  · intro e he
    change e ∈ (ss.getTopology s).edges at he
    change EdgeOk (ss.getTopology s) e
    rw [ht] at he ⊢
    exact hes e he

variable [LawfulSnapshotApply]

/-- A mutation leaves the ids distinct. -/
theorem Integrity.nodup_of_apply {c : GraphController S} (h : Integrity ss c) {m : Mutation}
    {s : S} (ht : ss.getTopology s = (c.topology ss).apply m) : (ss.getTopology s).ids.Nodup := by
  rw [ht]
  exact TopologySnapshot.nodup_ids_apply h.nodup m

/-- **A new node keeps integrity.** -/
theorem Integrity.record {c : GraphController S} (h : Integrity ss c) (hmax : BelowMax ss c)
    {spec : NodeSpec} {kind : Option String} {s : S} (hkind : checkKind spec = .ok kind)
    (ht : ss.getTopology s =
      (c.topology ss).apply (.addNode (nodeOf spec (newId (c.topology ss))))) :
    Integrity ss
      ({ c with store := s }.record (newId (c.topology ss)) spec.label kind spec.params) := by
  have hfresh := newId_notMem hmax
  have hnodes : ss.getTopology s =
      ⟨(c.topology ss).nodes ++ [nodeOf spec (newId (c.topology ss))], (c.topology ss).edges⟩ := by
    rw [ht, apply_addNode, TopologySnapshot.upsertNode_of_fresh hfresh]
  obtain ⟨hlabels, hkinds, hparams⟩ := h.keysWithin.addNode ht spec.label kind spec.params
  refine ⟨h.nodup_of_apply ht, ?_, hlabels, hkinds, hparams, ?_⟩
  · intro e he
    change e ∈ (ss.getTopology s).edges at he
    change EdgeOk (ss.getTopology s) e
    rw [hnodes] at he ⊢
    exact (h.edges e he).append _ _
  · intro id q hq
    change c.params.insertSome (newId (c.topology ss)) spec.params id = some q at hq
    change c.kinds.insertSome (newId (c.topology ss)) kind id = some q.kindName
    by_cases hid : id = newId (c.topology ss)
    · -- nothing was recorded under the fresh id before
      have hnone : c.params (newId (c.topology ss)) = none := by
        by_contra hc
        exact hfresh (h.params _ hc)
      rw [hid, Registry.insertSome_self, hnone, Option.or_none] at hq
      rw [hid, Registry.insertSome_self, checkKind_eq_ok hkind hq]
      rfl
    · rw [Registry.insertSome_of_ne _ _ hid] at hq ⊢
      exact h.kindName id q hq

/-- **A removed node keeps integrity**: its links and its entries go with it. -/
theorem Integrity.prune {c : GraphController S} (h : Integrity ss c) {id : NodeId} {s : S}
    (ht : ss.getTopology s = (c.topology ss).apply (.removeNode id)) :
    Integrity ss ({ c with store := s }.prune id) := by
  obtain ⟨hlabels, hkinds, hparams⟩ := h.keysWithin.removeNode ht
  refine ⟨h.nodup_of_apply ht, ?_, hlabels, hkinds, hparams, ?_⟩
  · intro e he
    change e ∈ (ss.getTopology s).edges at he
    change EdgeOk (ss.getTopology s) e
    rw [ht, apply_removeNode] at he ⊢
    obtain ⟨hmem, hne⟩ := List.mem_filter.mp he
    obtain ⟨hsrc, hdst⟩ := of_decide_eq_true hne
    exact (h.edges e hmem).filter hsrc hdst _
  · intro i q hq
    change c.params.remove id i = some q at hq
    change c.kinds.remove id i = some q.kindName
    by_cases hi : i = id
    · rw [hi, Registry.remove_self] at hq
      exact absurd hq (by simp)
    · rw [Registry.remove_of_ne _ hi] at hq ⊢
      exact h.kindName i q hq

/-- **Every successful edit keeps integrity.** -/
theorem Integrity.effect {c c' : GraphController S} (h : Integrity ss c) (hmax : BelowMax ss c)
    (he : Effect ss c c') : Integrity ss c' := by
  rcases he with ⟨spec, kind, s, hkind, rfl, ht⟩ | ⟨e, s, hok, rfl, ht⟩ | ⟨id, s, rfl, ht⟩ |
    ⟨id, s, rfl, ht⟩
  · exact h.record hmax hkind ht
  · refine h.edges_of_nodes_eq (ht.trans (apply_addLink _ e)) fun e' he' => ?_
    rcases List.mem_append.mp he' with he' | he'
    · exact h.edges e' he'
    · rw [List.mem_singleton.mp he']
      exact hok
  · exact h.prune ht
  · refine h.edges_of_nodes_eq (ht.trans (apply_removeLink _ id)) fun e he => ?_
    exact h.edges e (List.mem_of_mem_eraseIdx he)

/-- **Every edit keeps integrity**, whether it goes through or not. -/
theorem Integrity.exec {c : GraphController S} (h : Integrity ss c) (hmax : BelowMax ss c)
    (edit : Edit) (fault : F) : Integrity ss (c.exec ss edit fault).2 := by
  rcases exec_cases c edit fault with ⟨e, he⟩ | ⟨r, c', he, heff⟩
  · rw [he]
    exact h
  · rw [he]
    exact h.effect hmax heff

/-- **Every run of edits keeps integrity.** -/
theorem Integrity.run {c : GraphController S} (h : Integrity ss c) {edits : List (Edit × F)}
    (hmax : StaysBelowMax ss c edits) : Integrity ss (c.run ss edits) := by
  induction edits generalizing c with
  | nil => exact h
  | cons e edits ih => exact ih (h.exec hmax.1 e.1 e.2) hmax.2

omit [LawfulSnapshotApply] in
/-- A new controller over an empty topology. -/
theorem integrity_new {s : S} (h : ss.getTopology s = TopologySnapshot.new) :
    Integrity ss (new s) := by
  have ht : (new s).topology ss = TopologySnapshot.new := h
  have hkeys : KeysWithin ss (new s) := keysWithin_new s
  refine ⟨?_, ?_, hkeys.labels, hkeys.kinds, hkeys.params, ?_⟩
  · rw [ht]
    exact List.nodup_nil
  · rw [ht]
    intro e he
    exact absurd he List.not_mem_nil
  · intro id q hq
    exact absurd hq (by simp [new, Registry.empty])

variable (ss)

/-- **The graph stays sound under edits.** From an empty topology, through any run of edits
with any failures of the store, and as long as no node id reaches the end of its type: ids are
distinct, links join ports that exist, the registries are about nodes that exist, and
parameters are of their node's kind; and whatever edit is tried next, if it fails it changes
nothing. -/
theorem integrity_run {s : S} (hs : ss.getTopology s = TopologySnapshot.new)
    {edits : List (Edit × F)} (hmax : StaysBelowMax ss (new s) edits) :
    Integrity ss ((new s).run ss edits) ∧
      ∀ edit fault e, (((new s).run ss edits).exec ss edit fault).1 = .error e →
        (((new s).run ss edits).exec ss edit fault).2 = (new s).run ss edits :=
  ⟨(integrity_new hs).run hmax, fun _ _ _ h => exec_error h⟩

end Integrity

/-- An engine that has just been opened on an empty file. -/
def emptyEngine : RaftEngine.EngineState :=
  ⟨TopologySnapshot.new, 0, Table.empty, Broadcast.channel⟩

/-- Two nodes, a link between them, and the first of them gone again. -/
def someEdits : List (Edit × Option (RaftEngine.PersistStep × String)) :=
  [(.createNode ⟨"in", 0, 1, none, some (.tone "sine" ⟨0⟩ ⟨0⟩)⟩, none),
    (.createNode ⟨"out", 1, 0, some "meter", some .meter⟩, none),
    (.link 1 2, some (.commit, "disk full")), (.link 1 2, none), (.deleteNode 1, none)]

theorem staysBelowMax_someEdits :
    letI := SnapshotApply.documented
    StaysBelowMax (RaftEngine.sessionStore Mutation.format.toCodec) (new emptyEngine) someEdits :=
  ⟨by decide, by decide, by decide, by decide, by decide, trivial⟩

theorem integrity_run_someEdits :
    letI := SnapshotApply.documented
    Integrity (RaftEngine.sessionStore Mutation.format.toCodec)
      ((new emptyEngine).run (RaftEngine.sessionStore Mutation.format.toCodec) someEdits) :=
  letI := SnapshotApply.documented
  letI := SnapshotApply.lawful_documented
  (integrity_run (RaftEngine.sessionStore Mutation.format.toCodec) rfl staysBelowMax_someEdits).1

end GraphController

end SonicBrew
