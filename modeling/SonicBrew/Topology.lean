import Mathlib.Data.List.Nodup

/-!
# The audio-graph topology

The data every component of the server passes around: nodes with their port lists,
links between ports, and the mutations that change them. A
`SonicBrew.TopologySnapshot` stores nodes and links in creation order; a node
carries its own id, a link has none and is named by its *position*.

The fold step `apply` belongs to the graph library the server is built on, not to the
server, so it is a parameter here (`SonicBrew.SnapshotApply`). What the
server relies on is `SonicBrew.LawfulSnapshotApply`: adding a node replaces the
one with the same id or appends, removing a node drops its incident links with it,
adding a link appends, and removing a link goes by position.
Results about replay, replication and rebuilding hold for *any* fold step; only the
results about the shape of the topology use the laws.
-/

namespace SonicBrew

/-- A node id (`usize`). -/
abbrev NodeId : Type := ℕ

/-- A link id: a position in the link list. -/
abbrev LinkId : Type := ℕ

/-- A port index (`usize`). -/
abbrev PortIdx : Type := ℕ

/-- Whether a port is read or written by its node. -/
inductive PortDir where
  | input
  | output
  deriving DecidableEq, Repr

/-- The sample formats a port can carry. -/
inductive SampleFmt where
  | f32
  | f64
  | i16
  | i32
  deriving DecidableEq, Repr

/-- What a snapshot records of one port. -/
structure PortMeta where
  direction : PortDir
  channels : UInt16
  sampleFormat : SampleFmt
  deriving DecidableEq, Repr

/-- What a snapshot records of one node: its id and its ports, and nothing about
what it computes. -/
structure NodeSnapshot where
  id : NodeId
  inputs : List PortMeta
  outputs : List PortMeta
  deriving DecidableEq, Repr

/-- A link from an output port to an input port. -/
structure SnapshotEdge where
  /-- The source node and one of its output ports (`from`). -/
  src : NodeId × PortIdx
  /-- The destination node and one of its input ports (`to`). -/
  dst : NodeId × PortIdx
  deriving DecidableEq, Repr

/-- A change to the topology. -/
inductive Mutation where
  | addNode (node : NodeSnapshot)
  | removeNode (id : NodeId)
  | addLink (edge : SnapshotEdge)
  | removeLink (id : LinkId)
  deriving DecidableEq, Repr

/-- The event that tells subscribers about a change. -/
inductive TopologyEvent where
  | nodeAdded (node : NodeSnapshot)
  | nodeRemoved (id : NodeId)
  | linkAdded (edge : SnapshotEdge)
  | linkRemoved (id : LinkId)
  deriving DecidableEq, Repr

/-- Nodes and links, in creation order. -/
structure TopologySnapshot where
  nodes : List NodeSnapshot
  edges : List SnapshotEdge
  deriving DecidableEq, Repr

/-- The event describing the same change as a mutation. -/
def mutationToEvent : Mutation → TopologyEvent
  | .addNode node => .nodeAdded node
  | .removeNode id => .nodeRemoved id
  | .addLink edge => .linkAdded edge
  | .removeLink id => .linkRemoved id

/-- The graph library's fold step, `TopologySnapshot::apply`. -/
class SnapshotApply where
  /-- Apply one mutation to a snapshot. -/
  apply : TopologySnapshot → Mutation → TopologySnapshot

namespace TopologySnapshot

/-- The empty topology. -/
def new : TopologySnapshot := ⟨[], []⟩

/-- Apply one mutation. -/
def apply [SnapshotApply] (t : TopologySnapshot) (m : Mutation) : TopologySnapshot :=
  SnapshotApply.apply t m

/-- Apply mutations one after the other. -/
def applyAll [SnapshotApply] (t : TopologySnapshot) (ms : List Mutation) : TopologySnapshot :=
  ms.foldl apply t

/-- The node with the given id. -/
def node (t : TopologySnapshot) (id : NodeId) : Option NodeSnapshot :=
  t.nodes.find? fun n => n.id = id

/-- The node ids, in creation order. -/
def ids (t : TopologySnapshot) : List NodeId := t.nodes.map NodeSnapshot.id

/-- Replace the node with the same id, or append. -/
def upsertNode (n : NodeSnapshot) : List NodeSnapshot → List NodeSnapshot
  | [] => [n]
  | m :: ms => if m.id = n.id then n :: ms else m :: upsertNode n ms

end TopologySnapshot

open TopologySnapshot in
/-- **What the server relies on of `TopologySnapshot::apply`.** -/
class LawfulSnapshotApply [SnapshotApply] : Prop where
  /-- A node replaces the one with the same id, or is appended. -/
  apply_addNode (t : TopologySnapshot) (n : NodeSnapshot) :
    t.apply (.addNode n) = { t with nodes := upsertNode n t.nodes }
  /-- A node takes its incident links with it. -/
  apply_removeNode (t : TopologySnapshot) (id : NodeId) :
    t.apply (.removeNode id) =
      { nodes := t.nodes.filter fun n => n.id ≠ id
        edges := t.edges.filter fun e => e.src.1 ≠ id ∧ e.dst.1 ≠ id }
  /-- A link is appended. -/
  apply_addLink (t : TopologySnapshot) (e : SnapshotEdge) :
    t.apply (.addLink e) = { t with edges := t.edges ++ [e] }
  /-- A link is removed by position; out of range, nothing happens. -/
  apply_removeLink (t : TopologySnapshot) (i : LinkId) :
    t.apply (.removeLink i) = { t with edges := t.edges.eraseIdx i }

export LawfulSnapshotApply (apply_addNode apply_removeNode apply_addLink apply_removeLink)

namespace SnapshotApply

/-- The fold step the laws describe. -/
@[reducible] def documented : SnapshotApply where
  apply t
    | .addNode n => { t with nodes := TopologySnapshot.upsertNode n t.nodes }
    | .removeNode id =>
        { nodes := t.nodes.filter fun n => n.id ≠ id
          edges := t.edges.filter fun e => e.src.1 ≠ id ∧ e.dst.1 ≠ id }
    | .addLink e => { t with edges := t.edges ++ [e] }
    | .removeLink i => { t with edges := t.edges.eraseIdx i }

/-- The laws have a model. -/
theorem lawful_documented : @LawfulSnapshotApply documented :=
  letI := documented
  { apply_addNode := fun _ _ => rfl
    apply_removeNode := fun _ _ => rfl
    apply_addLink := fun _ _ => rfl
    apply_removeLink := fun _ _ => rfl }

end SnapshotApply

namespace TopologySnapshot

/-! ### Looking nodes up -/

theorem mem_of_node {t : TopologySnapshot} {id : NodeId} {n : NodeSnapshot}
    (h : t.node id = some n) : n ∈ t.nodes ∧ n.id = id :=
  ⟨List.mem_of_find?_eq_some h, by simpa using List.find?_some h⟩

theorem mem_ids_iff {t : TopologySnapshot} {id : NodeId} :
    id ∈ t.ids ↔ ∃ n, t.node id = some n := by
  constructor
  · intro h
    obtain ⟨n, hn, rfl⟩ := List.mem_map.mp h
    exact Option.isSome_iff_exists.mp (List.find?_isSome.mpr ⟨n, hn, by simp⟩)
  · rintro ⟨n, hn⟩
    obtain ⟨hmem, rfl⟩ := mem_of_node hn
    exact List.mem_map_of_mem hmem

/-- A node that can be looked up still can after another one is appended. -/
theorem node_append {t : TopologySnapshot} {id : NodeId} {n : NodeSnapshot}
    (h : t.node id = some n) (ns : List NodeSnapshot) (es : List SnapshotEdge) :
    TopologySnapshot.node ⟨t.nodes ++ ns, es⟩ id = some n := by
  rw [node, List.find?_append]
  rw [node] at h
  rw [h]
  rfl

/-- Removing a node hides no other. -/
theorem node_filter {t : TopologySnapshot} {id id' : NodeId} (h : id' ≠ id)
    (es : List SnapshotEdge) :
    TopologySnapshot.node ⟨t.nodes.filter fun n => n.id ≠ id, es⟩ id' = t.node id' := by
  rw [node, node, List.find?_filter]
  refine congrArg (fun p => List.find? p t.nodes) (funext fun n => ?_)
  by_cases hn : n.id = id'
  · simp [hn, h]
  · simp [hn]

/-! ### Replacing or appending a node -/

theorem mem_upsertNode_self (n : NodeSnapshot) (ns : List NodeSnapshot) : n ∈ upsertNode n ns := by
  induction ns with
  | nil => exact List.mem_cons_self
  | cons m ms ih =>
    rw [upsertNode]
    split
    · exact List.mem_cons_self
    · exact List.mem_cons_of_mem _ ih

theorem mem_or_of_mem_upsertNode {n m : NodeSnapshot} {ns : List NodeSnapshot}
    (h : m ∈ upsertNode n ns) : m = n ∨ m ∈ ns := by
  induction ns with
  | nil => exact .inl (List.mem_singleton.mp h)
  | cons k ms ih =>
    rw [upsertNode] at h
    split at h
    · rcases List.mem_cons.mp h with rfl | h
      · exact .inl rfl
      · exact .inr (List.mem_cons_of_mem _ h)
    · rcases List.mem_cons.mp h with rfl | h
      · exact .inr List.mem_cons_self
      · exact (ih h).imp_right (List.mem_cons_of_mem _)

/-- The node just put in is the one found under its id; the others are found as before. -/
theorem find?_upsertNode (n : NodeSnapshot) (ns : List NodeSnapshot) (id : NodeId) :
    ((upsertNode n ns).find? fun m => m.id = id) =
      if n.id = id then some n else ns.find? fun m => m.id = id := by
  induction ns with
  | nil =>
    by_cases h : n.id = id
    · simp [upsertNode, h]
    · simp [upsertNode, h]
  | cons m ms ih =>
    rw [upsertNode]
    by_cases hm : m.id = n.id
    · rw [if_pos hm, List.find?_cons, List.find?_cons]
      by_cases h : n.id = id
      · simp [h]
      · simp [h, hm]
    · rw [if_neg hm, List.find?_cons, List.find?_cons, ih]
      by_cases h : m.id = id
      · have hne : n.id ≠ id := fun hc => hm (h.trans hc.symm)
        simp [h, hne]
      · simp [h]

/-- A node with a fresh id is appended. -/
theorem upsertNode_of_fresh {n : NodeSnapshot} {ns : List NodeSnapshot}
    (h : n.id ∉ ns.map NodeSnapshot.id) : upsertNode n ns = ns ++ [n] := by
  induction ns with
  | nil => rfl
  | cons m ms ih =>
    simp only [List.map_cons, List.mem_cons, not_or] at h
    rw [upsertNode, if_neg (Ne.symm h.1), ih h.2]
    rfl

/-- A node whose id is taken keeps the list of ids. -/
theorem map_id_upsertNode_of_mem {n : NodeSnapshot} {ns : List NodeSnapshot}
    (h : n.id ∈ ns.map NodeSnapshot.id) :
    (upsertNode n ns).map NodeSnapshot.id = ns.map NodeSnapshot.id := by
  induction ns with
  | nil => simp at h
  | cons m ms ih =>
    rw [upsertNode]
    split
    · rename_i heq
      simp [heq]
    · rename_i hne
      have hmem : n.id ∈ ms.map NodeSnapshot.id := by
        rcases List.mem_cons.mp h with h | h
        · exact absurd h.symm hne
        · exact h
      simp [ih hmem]

/-- No id goes away when a node is put in. -/
theorem mem_ids_upsertNode {n : NodeSnapshot} {ns : List NodeSnapshot} {id : NodeId}
    (h : id ∈ ns.map NodeSnapshot.id) : id ∈ (upsertNode n ns).map NodeSnapshot.id := by
  by_cases hn : n.id ∈ ns.map NodeSnapshot.id
  · rw [map_id_upsertNode_of_mem hn]
    exact h
  · rw [upsertNode_of_fresh hn, List.map_append]
    exact List.mem_append_left _ h

section Lawful

variable [SnapshotApply] [LawfulSnapshotApply]

/-! ### Looking nodes up after a mutation -/

theorem node_apply_addNode (t : TopologySnapshot) (n : NodeSnapshot) (id : NodeId) :
    (t.apply (.addNode n)).node id = if n.id = id then some n else t.node id := by
  rw [apply_addNode]
  exact find?_upsertNode n t.nodes id

theorem node_apply_removeNode_of_ne (t : TopologySnapshot) {id id' : NodeId} (h : id' ≠ id) :
    (t.apply (.removeNode id)).node id' = t.node id' := by
  rw [apply_removeNode]
  exact node_filter h _

theorem node_apply_addLink (t : TopologySnapshot) (e : SnapshotEdge) (id : NodeId) :
    (t.apply (.addLink e)).node id = t.node id := by
  rw [apply_addLink]
  rfl

theorem node_apply_removeLink (t : TopologySnapshot) (i : LinkId) (id : NodeId) :
    (t.apply (.removeLink i)).node id = t.node id := by
  rw [apply_removeLink]
  rfl

theorem mem_ids_apply_addNode {t : TopologySnapshot} {n : NodeSnapshot} {id : NodeId} :
    id ∈ (t.apply (.addNode n)).ids ↔ id = n.id ∨ id ∈ t.ids := by
  rw [mem_ids_iff, mem_ids_iff, node_apply_addNode]
  by_cases h : n.id = id
  · simp [h]
  · simp [h, Ne.symm h]

theorem mem_ids_apply_removeNode {t : TopologySnapshot} {id id' : NodeId} :
    id' ∈ (t.apply (.removeNode id)).ids ↔ id' ∈ t.ids ∧ id' ≠ id := by
  rw [apply_removeNode]
  simp only [ids, List.mem_map, List.mem_filter, decide_eq_true_eq]
  constructor
  · rintro ⟨n, ⟨hn, hne⟩, rfl⟩
    exact ⟨⟨n, hn, rfl⟩, hne⟩
  · rintro ⟨⟨n, hn, rfl⟩, hne⟩
    exact ⟨n, ⟨hn, hne⟩, rfl⟩

/-! ### Distinct ids -/

/-- **No mutation makes two nodes share an id.** -/
theorem nodup_ids_apply {t : TopologySnapshot} (h : t.ids.Nodup) (m : Mutation) :
    (t.apply m).ids.Nodup := by
  cases m with
  | addNode n =>
    rw [apply_addNode]
    change ((upsertNode n t.nodes).map NodeSnapshot.id).Nodup
    by_cases hn : n.id ∈ t.nodes.map NodeSnapshot.id
    · rw [map_id_upsertNode_of_mem hn]
      exact h
    · rw [upsertNode_of_fresh hn, ← List.concat_eq_append, List.map_concat]
      exact List.Nodup.concat hn h
  | removeNode id =>
    rw [apply_removeNode]
    exact h.sublist (List.filter_sublist.map _)
  | addLink e =>
    rw [apply_addLink]
    exact h
  | removeLink i =>
    rw [apply_removeLink]
    exact h

/-- **A topology that was built by mutations has distinct ids.** -/
theorem nodup_ids_applyAll {t : TopologySnapshot} (h : t.ids.Nodup) (ms : List Mutation) :
    (t.applyAll ms).ids.Nodup := by
  induction ms generalizing t with
  | nil => exact h
  | cons m ms ih => exact ih (nodup_ids_apply h m)

end Lawful

end TopologySnapshot

end SonicBrew
