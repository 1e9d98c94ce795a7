import SonicBrew.ControlApi.RoundTrip
import SonicBrew.Lib.Transition

/-!
# New nodes and the end of the ids

`create_node` gives a new node the id one above the largest there is. At the largest number that
the type of ids has, “one above” is the same number again, and this is the only case in which the
new id is taken (`SonicBrew.GraphController.newId_mem_iff`). The single operations are far from ever
reaching it; an import, however, takes the ids of the preset as they are, and one node with the
largest id is enough.

From then on every request for a node that goes through replaces that one, ports and label, and
takes over the kind and the parameters where it has none of its own
(`SonicBrew.GraphController.CreateRun.createNode_fresh_iff`).
-/

namespace SonicBrew

namespace GraphController

/-- A `create_node` that returned an id, and the topology before and after it. -/
structure Creation where
  before : TopologySnapshot
  id : NodeId
  after : TopologySnapshot

/-- **A node of its own**: the id is of no node before, and the nodes before are all still there. -/
structure Creation.Fresh (p : Creation) : Prop where
  id_notMem : p.id ∉ p.before.ids
  kept : ∀ n ∈ p.before.nodes, n ∈ p.after.nodes

/-- A controller, and the nodes that were created on the way. -/
structure CreateRun (S : Type) where
  controller : GraphController S
  created : List Creation

namespace CreateRun

variable [SnapshotApply] {S F : Type} (ss : SessionStore S F)

def start (c : GraphController S) : CreateRun S := ⟨c, []⟩

/-- What an operation creates. -/
def creation (c : GraphController S) : Op F → Option Creation
  | .edit (.createNode spec) fault =>
      match c.createNode ss spec fault with
      | (.ok id, c') => some ⟨c.topology ss, id, c'.topology ss⟩
      | (.error _, _) => none
  | _ => none

/-- One operation. -/
def step (r : CreateRun S) (op : Op F) : Option (CreateRun S) :=
  some ⟨r.controller.step ss op, r.created ++ (creation ss r.controller op).toList⟩

/-- Every node that was created is one of its own. -/
def AllFresh (r : CreateRun S) : Prop := ∀ p ∈ r.created, p.Fresh

/-- The request is well formed, and the store would take the node under this id. -/
def Accepts (c : GraphController S) (spec : NodeSpec) (fault : F) (id : NodeId) : Prop :=
  trimIsEmpty spec.label = false ∧ (∃ kind, checkKind spec = .ok kind) ∧
    ∃ mutation s, ss.applyMutation c.store (.addNode (nodeOf spec id)) fault = (.ok mutation, s)

/-- **No node is asked for while there is one with the largest id**, or the request is refused. -/
def Clear (r : CreateRun S) : Op F → Prop
  | .edit (.createNode spec) fault =>
      usizeMax ∈ (r.controller.topology ss).ids → ¬Accepts ss r.controller spec fault usizeMax
  | _ => True

variable {ss}

/-- `create_node` goes through exactly if the request is accepted under the next id. -/
theorem isOk_createNode_iff (c : GraphController S) (spec : NodeSpec) (fault : F) :
    (∃ id c', c.createNode ss spec fault = (.ok id, c')) ↔
      Accepts ss c spec fault (newId (c.topology ss)) := by
  rw [createNode, Accepts, nodeOf]
  rcases hl : trimIsEmpty spec.label with _ | _
  · rcases hk : checkKind spec with e | kind
    · simp
    · simp only [mutate]
      rcases ss.applyMutation c.store _ fault with ⟨e | m, s⟩
      · simp
      · simp
  · simp

/-- **What `create_node` creates**: nothing if the request is refused, and otherwise the node that
is asked for, under the next id. -/
theorem creation_createNode (c : GraphController S) (spec : NodeSpec) (fault : F) :
    (¬Accepts ss c spec fault (newId (c.topology ss)) ∧
      creation ss c (.edit (.createNode spec) fault) = none) ∨
    (Accepts ss c spec fault (newId (c.topology ss)) ∧
      creation ss c (.edit (.createNode spec) fault) = some ⟨c.topology ss, newId (c.topology ss),
        (c.topology ss).apply (.addNode (nodeOf spec (newId (c.topology ss))))⟩) := by
  rw [← isOk_createNode_iff, creation]
  rcases (createNode_cases c spec fault :
    (∃ e, c.createNode ss spec fault = (.error e, c)) ∨ _) with ⟨e, h⟩ | ⟨kind, s, -, h, ht⟩
  · rw [h]
    exact Or.inl ⟨by simp, rfl⟩
  · rw [h]
    exact Or.inr ⟨⟨_, _, rfl⟩, by rw [← ht]; rfl⟩

variable (ss) in
/-- No operation is ever impossible. -/
theorem exists_run (r : CreateRun S) (ops : List (Op F)) :
    ∃ t, Transition.run (step ss) r ops = some t := by
  induction ops generalizing r with
  | nil => exact ⟨r, rfl⟩
  | cons op ops ih => exact ih _

section Lawful

variable [LawfulSnapshotApply]

omit ss in
/-- A node that is added is one of its own exactly if its id is new. -/
theorem fresh_addNode_iff {t : TopologySnapshot} {n : NodeSnapshot} :
    Creation.Fresh ⟨t, n.id, t.apply (.addNode n)⟩ ↔ n.id ∉ t.ids := by
  refine ⟨Creation.Fresh.id_notMem, fun h => ⟨h, fun m hm => ?_⟩⟩
  change m ∈ (t.apply (.addNode n)).nodes
  rw [apply_addNode, TopologySnapshot.upsertNode_of_fresh h]
  exact List.mem_append_left _ hm

/-- **What an operation creates is a node of its own exactly if it meets the condition.** -/
theorem forall_creation_fresh_iff (r : CreateRun S) (op : Op F) :
    (∀ p ∈ creation ss r.controller op, p.Fresh) ↔ Clear ss r op := by
  rcases op with ⟨spec | _ | _ | _ | _, fault⟩ | _
  case edit.createNode =>
    rcases creation_createNode r.controller spec fault with ⟨hno, h⟩ | ⟨hyes, h⟩
    · rw [h]
      refine ⟨fun _ hmax => ?_, fun _ p hp => nomatch hp⟩
      rw [newId_eq_usizeMax hmax] at hno
      exact hno
    · rw [h]
      refine ⟨fun hall hmax _ => ?_, fun hclear p hp => ?_⟩
      · exact (hall _ rfl).id_notMem (newId_mem_iff.mpr hmax)
      · obtain rfl := Option.some.inj hp
        refine (fresh_addNode_iff (n := nodeOf spec _)).mpr fun hmem => ?_
        have hmax := newId_mem_iff.mp hmem
        rw [newId_eq_usizeMax hmax] at hyes
        exact hclear hmax hyes
  all_goals exact ⟨fun _ => trivial, fun _ p hp => nomatch hp⟩

/-- **A new node is one of its own**: in a run of edits and imports, whatever the store held at the
start and whatever befalls its calls, every `create_node` that returns an id returns one that no
node had before, and leaves the nodes before in place, if and only if none of them goes through
while there is a node with the largest possible id. -/
theorem createNode_fresh_iff (c : GraphController S) (ops : List (Op F)) :
    Transition.Always (step ss) AllFresh (start c) ops ↔
      Transition.Meets (step ss) (Clear ss) (start c) ops := by
  obtain ⟨t, hrun⟩ := exists_run ss (start c) ops
  refine Transition.always_iff_meets (fun r op r' hr h => ?_) (fun p hp => nomatch hp) hrun
  obtain rfl := Option.some.inj h
  rw [← forall_creation_fresh_iff]
  refine ⟨fun hall p hp => ?_, fun hnew p hp => ?_⟩
  · exact hall p (List.mem_append_right _ (Option.mem_toList.mpr hp))
  · rcases List.mem_append.mp hp with hp | hp
    · exact hr p hp
    · exact hnew p (Option.mem_toList.mp hp)

end Lawful

end CreateRun

/-! ### A preset that ends the ids -/

/-- One node, under the largest possible id. -/
def lastIdPreset : Preset := ⟨1, [⟨usizeMax, "mic", 0, 2, none, none⟩], []⟩

/-- A request for a node with one input. -/
def speakerSpec : NodeSpec := ⟨"speaker", 1, 0, none, none⟩

/-- The preset is imported, and then the node is asked for. -/
def lastIdRun : List (Op (Option (RaftEngine.PersistStep × String))) :=
  [.importPreset lastIdPreset noFaults, .edit (.createNode speakerSpec) none]

theorem createNode_fresh_iff_lastIdRun :
    letI := SnapshotApply.documented
    Transition.Always (CreateRun.step engineStore) CreateRun.AllFresh
        (CreateRun.start (new emptyEngine)) lastIdRun ↔
      Transition.Meets (CreateRun.step engineStore) (CreateRun.Clear engineStore)
        (CreateRun.start (new emptyEngine)) lastIdRun :=
  letI := SnapshotApply.documented
  letI := SnapshotApply.lawful_documented
  CreateRun.createNode_fresh_iff (new emptyEngine) lastIdRun

/-- **A new node in the place of another.** After the import of a node with the largest id, the
next node is given that id as well, and the imported one is gone. -/
theorem createNode_replaces :
    letI := SnapshotApply.documented
    let c := ((new emptyEngine).importPreset engineStore lastIdPreset noFaults).2
    ((new emptyEngine).importPreset engineStore lastIdPreset noFaults).1 = .ok () ∧
      (c.topology engineStore).nodes = [⟨usizeMax, [], buildPorts 2 .output⟩] ∧
      (c.createNode engineStore speakerSpec none).1 = .ok usizeMax ∧
      ((c.createNode engineStore speakerSpec none).2.topology engineStore).nodes =
        [⟨usizeMax, buildPorts 1 .input, []⟩] ∧
      ¬Transition.Always (CreateRun.step engineStore) CreateRun.AllFresh
        (CreateRun.start (new emptyEngine)) lastIdRun := by
  let := SnapshotApply.documented
  refine ⟨rfl, rfl, rfl, rfl, fun h => ?_⟩
  have hfresh := h lastIdRun List.prefix_rfl _ rfl _ (List.mem_singleton_self _)
  exact hfresh.id_notMem (List.mem_singleton_self usizeMax)

end GraphController

end SonicBrew
