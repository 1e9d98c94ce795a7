import SonicBrew.ControlApi.RoundTrip
import SonicBrew.Lib.Pool

/-!
# The controller's operations, step by step

One `GraphController` serves all requests at once, and no lock spans an operation: each store
call and each update of a registry is atomic, and between two of them any other call may run.
Here every operation is cut into these steps. Its first step reads the topology, validates
against it and fixes what is to be done (`SonicBrew.Concurrent.first`); for creating, deleting and
importing that is a list of updates, worked off one at a time; `link_ports` appends its link and
then reads the store back; the two views of the whole graph read the nodes, the registries and the
links, in this order.

A call that nobody interrupts does what the operation does as one piece
(`SonicBrew.Concurrent.solo_createNode` and its siblings), so every run of the sequential model is
one of this model, in which the calls come one at a time (`SonicBrew.Concurrent.exists_run_runOps`).
What a single step can do is `SonicBrew.Concurrent.Step`, from which every property of the
interleavings is derived.
-/

namespace SonicBrew

/-- The answer of `GET /topology`. -/
structure TopologyInfo where
  nodes : List NodeInfo
  links : List LinkInfo
  deriving DecidableEq, Repr

namespace GraphController

variable {S F : Type}

/-- The nodes of a topology as the controller lists them. -/
def nodeInfos (c : GraphController S) (t : TopologySnapshot) : List NodeInfo :=
  t.nodes.map fun ns =>
    { id := ns.id
      label := (c.labels ns.id).getD s!"node-{ns.id}"
      inputs := UInt16.ofNat ns.inputs.length
      outputs := UInt16.ofNat ns.outputs.length
      kind := c.kinds ns.id
      params := c.params ns.id }

/-- The links of a topology as the controller lists them. -/
def linkInfos (t : TopologySnapshot) : List LinkInfo :=
  t.edges.zipIdx.map fun (edge, id) =>
    { id
      src := edge.src.1
      srcPort := UInt16.ofNat edge.src.2
      dst := edge.dst.1
      dstPort := UInt16.ofNat edge.dst.2 }

/-- The preset made of a list of nodes and a list of links. -/
def presetOf (nodes : List NodeInfo) (links : List LinkInfo) : Preset where
  version := presetVersion
  nodes := nodes.map fun n => ⟨n.id, n.label, n.inputs, n.outputs, n.kind, n.params⟩
  links := links.map fun l => ⟨l.src, l.srcPort, l.dst, l.dstPort⟩

/-- What the registries hold for an id. -/
@[ext]
structure NodeEntry where
  label : Option String
  kind : Option String
  params : Option NodeParams
  deriving DecidableEq, Repr

/-- No entry. -/
def NodeEntry.none : NodeEntry := ⟨.none, .none, .none⟩

/-- The entries of an id. -/
def entry (c : GraphController S) (id : NodeId) : NodeEntry :=
  ⟨c.labels id, c.kinds id, c.params id⟩

end GraphController

namespace Concurrent

open GraphController

/-! ### Calls -/

/-- The operations. -/
inductive Request where
  | createNode (spec : NodeSpec)
  | deleteNode (id : NodeId)
  | linkPorts (src : NodeId) (srcPort : UInt16) (dst : NodeId) (dstPort : UInt16)
  | deleteLink (id : LinkId)
  | importPreset (p : Preset)
  | exportPreset
  | getTopology

/-- What an operation returns when it succeeds. -/
inductive Value where
  | unit
  | node (id : NodeId)
  | link (id : LinkId)
  | preset (p : Preset)
  | topology (info : TopologyInfo)

/-- An update of one registry at one id. -/
inductive Record where
  | insertLabel (id : NodeId) (label : String)
  /-- Nothing happens when there is no kind. -/
  | insertKind (id : NodeId) (kind : Option String)
  /-- Nothing happens when there are no parameters. -/
  | insertParams (id : NodeId) (params : Option NodeParams)
  | removeLabel (id : NodeId)
  | removeKind (id : NodeId)
  | removeParams (id : NodeId)

/-- An atomic update: a store call, or one registry. -/
inductive Update where
  | mutate (m : Mutation)
  | record (r : Record)

/-- What `create_node` does once the id is chosen. -/
def createUpdates (spec : NodeSpec) (kind : Option String) (id : NodeId) : List Update :=
  [.mutate (.addNode (nodeOf spec id)), .record (.insertLabel id spec.label),
    .record (.insertKind id kind), .record (.insertParams id spec.params)]

/-- What `delete_node` does once the node has been found. -/
def deleteUpdates (id : NodeId) : List Update :=
  [.mutate (.removeNode id), .record (.removeLabel id), .record (.removeKind id),
    .record (.removeParams id)]

/-- What `import_preset` does for one node of the preset. -/
def importUpdates (n : PresetNode) : List Update :=
  [.mutate (.addNode n.snapshot), .record (.insertLabel n.id n.label),
    .record (.insertKind n.id n.kind), .record (.insertParams n.id n.params)]

/-- How far a call has come. -/
inductive Phase where
  /-- The store has not been read. -/
  | started
  /-- These updates are ahead, and then the value is returned. -/
  | updating (todo : List Update) (value : Value)
  /-- `link_ports` has validated its link and is to append it. -/
  | validated (e : SnapshotEdge)
  /-- `link_ports` has appended its link, to this topology, and is to read the store back. -/
  | appended (e : SnapshotEdge) (onto : TopologySnapshot)
  /-- `list_nodes` has read this topology and is to look the nodes up in the registries. -/
  | nodesRead (seen : TopologySnapshot)
  /-- `list_nodes` is over, and `list_links` is to read the store. -/
  | nodesListed (seen : TopologySnapshot) (nodes : List NodeInfo)

/-- A running call. -/
structure Call where
  request : Request
  phase : Phase

/-- A call that has returned; `onto` is the topology that its link, if it appended one, was
appended to. -/
structure Done where
  request : Request
  answer : Except ControlError Value
  onto : Option TopologySnapshot

/-- What the calls share: the controller. The log is of the store calls that went through, each
with the request it was made for; no step reads it. -/
structure Shared (S : Type) where
  ctrl : GraphController S
  log : List (Request × Mutation)

/-- The first step of an operation, on the topology it reads: a refusal, or what comes next. -/
def first (t : TopologySnapshot) : Request → Except ControlError Phase
  | .createNode spec =>
      if trimIsEmpty spec.label then .error (.badRequest "node label must not be empty")
      else
        match checkKind spec with
        | .error e => .error e
        | .ok kind => .ok (.updating (createUpdates spec kind (newId t)) (.node (newId t)))
  | .deleteNode id =>
      if (t.node id).isNone then .error (.notFound s!"node {id}")
      else .ok (.updating (deleteUpdates id) .unit)
  | .linkPorts src srcPort dst dstPort =>
      match checkLink t src srcPort dst dstPort with
      | .error e => .error e
      | .ok _ => .ok (.validated ⟨(src, srcPort.toNat), (dst, dstPort.toNat)⟩)
  | .deleteLink id =>
      if t.edges.length ≤ id then .error (.notFound s!"link {id}")
      else .ok (.updating [.mutate (.removeLink id)] .unit)
  | .importPreset p =>
      .ok (.updating (t.ids.flatMap deleteUpdates ++ p.nodes.flatMap importUpdates ++
        p.links.map fun l => .mutate (.addLink l.edge)) .unit)
  | .exportPreset => .ok (.nodesRead t)
  | .getTopology => .ok (.nodesRead t)

/-- A request for a node that is not refused has its updates fixed, under the id after the
largest. -/
theorem first_createNode_ok {t : TopologySnapshot} {spec : NodeSpec} {phase : Phase}
    (h : first t (.createNode spec) = .ok phase) :
    ∃ kind, checkKind spec = .ok kind ∧
      phase = .updating (createUpdates spec kind (newId t)) (.node (newId t)) := by
  simp only [first] at h
  split at h
  · cases h
  · rcases hk : checkKind spec with e | kind
    · rw [hk] at h
      cases h
    · rw [hk] at h
      exact ⟨kind, rfl, (Except.ok.inj h).symm⟩

/-- A node to be deleted is there when it is looked for. -/
theorem first_deleteNode_ok {t : TopologySnapshot} {id : NodeId} {phase : Phase}
    (h : first t (.deleteNode id) = .ok phase) :
    id ∈ t.ids ∧ phase = .updating (deleteUpdates id) .unit := by
  simp only [first] at h
  split at h
  · cases h
  · rename_i hn
    refine ⟨TopologySnapshot.mem_ids_iff.mpr ?_, (Except.ok.inj h).symm⟩
    rw [Option.isNone_iff_eq_none] at hn
    exact Option.ne_none_iff_exists'.mp hn

/-- It is refused otherwise. -/
theorem first_deleteNode_error {t : TopologySnapshot} {id : NodeId} {e : ControlError}
    (h : first t (.deleteNode id) = .error e) : id ∉ t.ids ∧ e = .notFound s!"node {id}" := by
  simp only [first] at h
  split at h
  · rename_i hn
    refine ⟨fun hid => ?_, (Except.error.inj h).symm⟩
    obtain ⟨n, hn'⟩ := TopologySnapshot.mem_ids_iff.mp hid
    rw [hn'] at hn
    exact absurd hn (by simp)
  · cases h

/-- A link that is not refused fits the topology. -/
theorem first_linkPorts_ok {t : TopologySnapshot} {src dst : NodeId} {srcPort dstPort : UInt16}
    {phase : Phase} (h : first t (.linkPorts src srcPort dst dstPort) = .ok phase) :
    EdgeOk t ⟨(src, srcPort.toNat), (dst, dstPort.toNat)⟩ ∧
      phase = .validated ⟨(src, srcPort.toNat), (dst, dstPort.toNat)⟩ := by
  simp only [first] at h
  rcases hc : checkLink t src srcPort dst dstPort with e | _
  · rw [hc] at h
    cases h
  · rw [hc] at h
    exact ⟨checkLink_eq_ok hc, (Except.ok.inj h).symm⟩

theorem first_deleteLink_ok {t : TopologySnapshot} {id : LinkId} {phase : Phase}
    (h : first t (.deleteLink id) = .ok phase) :
    phase = .updating [.mutate (.removeLink id)] .unit := by
  simp only [first] at h
  split at h
  · cases h
  · exact (Except.ok.inj h).symm

/-- **What a call has after its first step**: a link that fits, or the topology it is to list, or
updates that do not begin with one of a registry. -/
theorem first_ok_cases {t : TopologySnapshot} {req : Request} {phase : Phase}
    (h : first t req = .ok phase) :
    (∃ e, phase = .validated e ∧ EdgeOk t e) ∨ phase = .nodesRead t ∨
      ∃ todo value, phase = .updating todo value ∧ ∀ r rest, todo ≠ .record r :: rest := by
  cases req with
  | createNode spec =>
    obtain ⟨kind, -, rfl⟩ := first_createNode_ok h
    exact .inr (.inr ⟨_, _, rfl, fun r rest => nofun⟩)
  | deleteNode id =>
    obtain ⟨-, rfl⟩ := first_deleteNode_ok h
    exact .inr (.inr ⟨_, _, rfl, fun r rest => nofun⟩)
  | linkPorts src srcPort dst dstPort =>
    obtain ⟨hedge, rfl⟩ := first_linkPorts_ok h
    exact .inl ⟨_, rfl, hedge⟩
  | deleteLink id =>
    obtain rfl := first_deleteLink_ok h
    exact .inr (.inr ⟨_, _, rfl, fun r rest => nofun⟩)
  | importPreset p =>
    obtain rfl := Except.ok.inj h
    refine .inr (.inr ⟨_, _, rfl, fun r rest => ?_⟩)
    -- whichever loop is the first to do something, it does it to the store
    rcases t.ids with _ | ⟨id, ids⟩
    · rcases p.nodes with _ | ⟨n, ns⟩
      · rcases p.links with _ | ⟨l, ls⟩
        · nofun
        · nofun
      · nofun
    · nofun
  | exportPreset =>
    obtain rfl := Except.ok.inj h
    exact .inr (.inl rfl)
  | getTopology =>
    obtain rfl := Except.ok.inj h
    exact .inr (.inl rfl)

/-- **The phases of an operation**: what is ahead of a call is the rest of what the operation
does. -/
def PhaseOf : Request → Phase → Prop
  | _, .started => True
  | .createNode spec, .updating todo value =>
      ∃ kind id, checkKind spec = .ok kind ∧ value = .node id ∧ todo <:+ createUpdates spec kind id
  | .deleteNode id, .updating todo value => value = .unit ∧ todo <:+ deleteUpdates id
  | .linkPorts src srcPort dst dstPort, .validated e =>
      e = ⟨(src, srcPort.toNat), (dst, dstPort.toNat)⟩
  | .linkPorts src srcPort dst dstPort, .appended e _ =>
      e = ⟨(src, srcPort.toNat), (dst, dstPort.toNat)⟩
  | .deleteLink id, .updating todo value => value = .unit ∧ todo <:+ [.mutate (.removeLink id)]
  | .importPreset _, .updating _ value => value = .unit
  | .exportPreset, .nodesRead _ => True
  | .exportPreset, .nodesListed _ _ => True
  | .getTopology, .nodesRead _ => True
  | .getTopology, .nodesListed _ _ => True
  | _, _ => False

/-- The phase after the first step. -/
theorem phaseOf_first {t : TopologySnapshot} {req : Request} {phase : Phase}
    (h : first t req = .ok phase) : PhaseOf req phase := by
  cases req with
  | createNode spec =>
    obtain ⟨kind, hk, rfl⟩ := first_createNode_ok h
    exact ⟨kind, newId t, hk, rfl, List.suffix_rfl⟩
  | deleteNode id =>
    obtain ⟨-, rfl⟩ := first_deleteNode_ok h
    exact ⟨rfl, List.suffix_rfl⟩
  | linkPorts src srcPort dst dstPort =>
    obtain ⟨-, rfl⟩ := first_linkPorts_ok h
    rfl
  | deleteLink id =>
    obtain rfl := first_deleteLink_ok h
    exact ⟨rfl, List.suffix_rfl⟩
  | importPreset p =>
    obtain rfl := Except.ok.inj h
    rfl
  | exportPreset =>
    obtain rfl := Except.ok.inj h
    trivial
  | getTopology =>
    obtain rfl := Except.ok.inj h
    trivial

/-- The phase after an update. -/
theorem PhaseOf.tail {req : Request} {u : Update} {todo : List Update} {value : Value}
    (h : PhaseOf req (.updating (u :: todo) value)) : PhaseOf req (.updating todo value) := by
  cases req with
  | createNode spec =>
    obtain ⟨kind, id, hk, hv, hs⟩ := h
    exact ⟨kind, id, hk, hv, (List.suffix_cons u todo).trans hs⟩
  | deleteNode id => exact ⟨h.1, (List.suffix_cons u todo).trans h.2⟩
  | deleteLink id => exact ⟨h.1, (List.suffix_cons u todo).trans h.2⟩
  | importPreset p => exact h
  | linkPorts => exact h.elim
  | exportPreset => exact h.elim
  | getTopology => exact h.elim

/-- The store call of `create_node`. -/
theorem mutate_suffix_createUpdates {m : Mutation} {todo : List Update} {spec : NodeSpec}
    {kind : Option String} {id : NodeId} (h : .mutate m :: todo <:+ createUpdates spec kind id) :
    m = .addNode (nodeOf spec id) ∧ todo = (createUpdates spec kind id).tail := by
  simpa [createUpdates, List.suffix_cons_iff] using h

/-- The store call of `delete_node`. -/
theorem mutate_suffix_deleteUpdates {m : Mutation} {todo : List Update} {id : NodeId}
    (h : .mutate m :: todo <:+ deleteUpdates id) :
    m = .removeNode id ∧ todo = (deleteUpdates id).tail := by
  simpa [deleteUpdates, List.suffix_cons_iff] using h

/-- The store call of `delete_link`. -/
theorem mutate_suffix_removeLink {m : Mutation} {todo : List Update} {id : LinkId}
    (h : .mutate m :: todo <:+ [.mutate (.removeLink id)]) : m = .removeLink id ∧ todo = [] := by
  simpa [List.suffix_cons_iff] using h

/-- The operations that bring no node in. -/
def AddsNoNode : Request → Prop
  | .createNode _ => False
  | .importPreset _ => False
  | _ => True

/-- They remove nodes and links. -/
theorem mutation_of_addsNoNode {req : Request} {m : Mutation} {todo : List Update} {value : Value}
    (hok : AddsNoNode req) (h : PhaseOf req (.updating (.mutate m :: todo) value)) :
    (∃ id, req = .deleteNode id ∧ m = .removeNode id) ∨
      ∃ id, req = .deleteLink id ∧ m = .removeLink id := by
  cases req with
  | deleteNode id => exact Or.inl ⟨id, rfl, (mutate_suffix_deleteUpdates h.2).1⟩
  | deleteLink id => exact Or.inr ⟨id, rfl, (mutate_suffix_removeLink h.2).1⟩
  | createNode => exact hok.elim
  | importPreset => exact hok.elim
  | linkPorts => exact h.elim
  | exportPreset => exact h.elim
  | getTopology => exact h.elim

/-- What the two views of the whole graph return. -/
def view (nodes : List NodeInfo) (links : List LinkInfo) : Request → Value
  | .exportPreset => .preset (presetOf nodes links)
  | _ => .topology ⟨nodes, links⟩

/-- A new call. -/
def enter (req : Request) : Call := ⟨req, .started⟩

/-- An update of a registry. -/
def Record.apply {S : Type} (c : GraphController S) : Record → GraphController S
  | .insertLabel id label => { c with labels := c.labels.insert id label }
  | .insertKind id kind => { c with kinds := c.kinds.insertSome id kind }
  | .insertParams id params => { c with params := c.params.insertSome id params }
  | .removeLabel id => { c with labels := c.labels.remove id }
  | .removeKind id => { c with kinds := c.kinds.remove id }
  | .removeParams id => { c with params := c.params.remove id }

section Steps

variable [SnapshotApply] {S F : Type} (ss : SessionStore S F)

/-- The topology the store holds. -/
def Shared.topology (s : Shared S) : TopologySnapshot := s.ctrl.topology ss

/-- A store call, logged if it goes through. -/
def Shared.mutate (s : Shared S) (req : Request) (m : Mutation) (fault : F) :
    Except ControlError Unit × Shared S :=
  match s.ctrl.mutate ss m fault with
  | (.error e, c) => (.error e, { s with ctrl := c })
  | (.ok _, c) => (.ok (), ⟨c, s.log ++ [(req, m)]⟩)

/-- An update. -/
def Update.apply (s : Shared S) (req : Request) (fault : F) :
    Update → Except ControlError Unit × Shared S
  | .mutate m => s.mutate ss req m fault
  | .record r => (.ok (), { s with ctrl := r.apply s.ctrl })

/-- **One step of a call.** -/
def next (s : Shared S) (c : Call) (fault : F) : Shared S × (Call ⊕ Done) :=
  match c.phase with
  | .started =>
      match first (s.topology ss) c.request with
      | .error e => (s, .inr ⟨c.request, .error e, none⟩)
      | .ok phase => (s, .inl ⟨c.request, phase⟩)
  | .updating [] value => (s, .inr ⟨c.request, .ok value, none⟩)
  | .updating (u :: todo) value =>
      match u.apply ss s c.request fault with
      | (.error e, s) => (s, .inr ⟨c.request, .error e, none⟩)
      | (.ok _, s) => (s, .inl ⟨c.request, .updating todo value⟩)
  | .validated e =>
      match s.mutate ss c.request (.addLink e) fault with
      | (.error err, s) => (s, .inr ⟨c.request, .error err, none⟩)
      | (.ok _, s') => (s', .inl ⟨c.request, .appended e (s.topology ss)⟩)
  | .appended _ onto =>
      match (s.topology ss).edges.length with
      | 0 => (s, .inr ⟨c.request, .error (.graph "link mutation did not persist"), some onto⟩)
      | n + 1 => (s, .inr ⟨c.request, .ok (.link n), some onto⟩)
  | .nodesRead seen => (s, .inl ⟨c.request, .nodesListed seen (s.ctrl.nodeInfos seen)⟩)
  | .nodesListed _ nodes =>
      (s, .inr ⟨c.request, .ok (view nodes (linkInfos (s.topology ss)) c.request), none⟩)

/-- The controller with its calls. -/
abbrev Server (S : Type) : Type := Pool (Shared S) Call Done

/-- A controller before any call. -/
def start (c : GraphController S) : Server S := Pool.idle ⟨c, []⟩

/-- What can happen: a request comes in, or a call takes a step. -/
abbrev Action (F : Type) : Type := Pool.Action Request F

/-- A run of the server, with any number of calls in any order. -/
def run (p : Server S) (as : List (Action F)) : Option (Server S) :=
  Transition.run (Pool.step enter (next ss)) p as

/-! ### What a step can do -/

/-- The store refuses a call. -/
def Refused (s : Shared S) (m : Mutation) (fault : F) : Prop :=
  ∃ e, (ss.applyMutation s.ctrl.store m fault).1 = .error e

instance (s : Shared S) (m : Mutation) (fault : F) : Decidable (Refused ss s m fault) :=
  match h : (ss.applyMutation s.ctrl.store m fault).1 with
  | .error e => isTrue ⟨e, h⟩
  | .ok _ => isFalse fun ⟨_, he⟩ => nomatch h.symm.trans he

/-- A store call goes through: it moves the topology, and nothing else. -/
structure Applied (s s' : Shared S) (req : Request) (m : Mutation) : Prop where
  topology : s'.topology ss = (s.topology ss).apply m
  entry : s'.ctrl.entry = s.ctrl.entry
  log : s'.log = s.log ++ [(req, m)]

theorem Shared.mutate_cases (s : Shared S) (req : Request) (m : Mutation) (fault : F) :
    (∃ e, s.mutate ss req m fault = (.error e, s) ∧ Refused ss s m fault) ∨
      ∃ s', s.mutate ss req m fault = (.ok (), s') ∧ Applied ss s s' req m ∧
        ¬Refused ss s m fault := by
  rcases ss.applyMutation_cases s.ctrl.store m fault with ⟨e, h⟩ | ⟨id, st, h, ht⟩
  · refine Or.inl ⟨storeErrToControl e, ?_, e, by rw [h]⟩
    rw [Shared.mutate, GraphController.mutate, h]
  · refine Or.inr ⟨⟨{ s.ctrl with store := st }, s.log ++ [(req, m)]⟩, ?_, ⟨ht, rfl, rfl⟩, ?_⟩
    · rw [Shared.mutate, GraphController.mutate, h]
    · rintro ⟨e, he⟩
      rw [h] at he
      cases he

/-- The registries are not in the store. -/
theorem topology_record (s : Shared S) (r : Record) :
    Shared.topology ss { s with ctrl := r.apply s.ctrl } = s.topology ss := by
  cases r <;> rfl

/-- **What a step of a call can do.** -/
inductive Step (s : Shared S) (fault : F) : Call → Shared S → Call ⊕ Done → Prop
  | refuse {req e} (h : first (s.topology ss) req = .error e) :
      Step s fault ⟨req, .started⟩ s (.inr ⟨req, .error e, none⟩)
  | begin {req phase} (h : first (s.topology ss) req = .ok phase) :
      Step s fault ⟨req, .started⟩ s (.inl ⟨req, phase⟩)
  | finish {req value} : Step s fault ⟨req, .updating [] value⟩ s (.inr ⟨req, .ok value, none⟩)
  | abort {req m todo value e} (h : Refused ss s m fault) :
      Step s fault ⟨req, .updating (.mutate m :: todo) value⟩ s (.inr ⟨req, .error e, none⟩)
  | mutate {req m todo value s'} (h : Applied ss s s' req m) (hm : ¬Refused ss s m fault) :
      Step s fault ⟨req, .updating (.mutate m :: todo) value⟩ s'
        (.inl ⟨req, .updating todo value⟩)
  | record {req r todo value} :
      Step s fault ⟨req, .updating (.record r :: todo) value⟩ { s with ctrl := r.apply s.ctrl }
        (.inl ⟨req, .updating todo value⟩)
  | refuseLink {req e err} (h : Refused ss s (.addLink e) fault) :
      Step s fault ⟨req, .validated e⟩ s (.inr ⟨req, .error err, none⟩)
  | addLink {req e s'} (h : Applied ss s s' req (.addLink e))
      (hm : ¬Refused ss s (.addLink e) fault) :
      Step s fault ⟨req, .validated e⟩ s' (.inl ⟨req, .appended e (s.topology ss)⟩)
  | lost {req e onto err} (h : (s.topology ss).edges = []) :
      Step s fault ⟨req, .appended e onto⟩ s (.inr ⟨req, .error err, some onto⟩)
  | readBack {req e onto n} (h : (s.topology ss).edges.length = n + 1) :
      Step s fault ⟨req, .appended e onto⟩ s (.inr ⟨req, .ok (.link n), some onto⟩)
  | listNodes {req seen} :
      Step s fault ⟨req, .nodesRead seen⟩ s
        (.inl ⟨req, .nodesListed seen (s.ctrl.nodeInfos seen)⟩)
  | listLinks {req seen nodes} :
      Step s fault ⟨req, .nodesListed seen nodes⟩ s
        (.inr ⟨req, .ok (view nodes (linkInfos (s.topology ss)) req), none⟩)

variable {ss}

/-- **Every step is one of these.** -/
theorem step_next (s : Shared S) (c : Call) (fault : F) :
    Step ss s fault c (next ss s c fault).1 (next ss s c fault).2 := by
  obtain ⟨req, phase⟩ := c
  rcases phase with _ | ⟨_ | ⟨u, todo⟩, value⟩ | e | ⟨e, onto⟩ | seen | ⟨seen, nodes⟩
  · rcases h : first (s.topology ss) req with e | phase
    · simp only [next, h]
      exact .refuse h
    · simp only [next, h]
      exact .begin h
  · exact .finish
  · rcases u with m | r
    · rcases s.mutate_cases ss req m fault with ⟨e, h, hr⟩ | ⟨s', h, ha, hr⟩
      · simp only [next, Update.apply, h]
        exact .abort hr
      · simp only [next, Update.apply, h]
        exact .mutate ha hr
    · exact .record
  · rcases s.mutate_cases ss req (.addLink e) fault with ⟨err, h, hr⟩ | ⟨s', h, ha, hr⟩
    · simp only [next, h]
      exact .refuseLink hr
    · simp only [next, h]
      exact .addLink ha hr
  · rcases h : (s.topology ss).edges.length with _ | n
    · simp only [next, h]
      exact .lost (List.length_eq_zero_iff.mp h)
    · simp only [next, h]
      exact .readBack h
  · exact .listNodes
  · exact .listLinks

/-- Every running call is a call of an operation that is allowed, in one of its phases. -/
def Typed (ok : Request → Prop) (p : Server S) : Prop :=
  p.All fun c => ok c.request ∧ PhaseOf c.request c.phase

theorem Step.phaseOf {s s' : Shared S} {fault : F} {c c' : Call}
    (h : Step ss s fault c s' (.inl c')) (hc : PhaseOf c.request c.phase) :
    c'.request = c.request ∧ PhaseOf c'.request c'.phase := by
  cases h with
  | begin hfirst => exact ⟨rfl, phaseOf_first hfirst⟩
  | mutate => exact ⟨rfl, hc.tail⟩
  | record => exact ⟨rfl, hc.tail⟩
  | @addLink req =>
    cases req with
    | linkPorts => exact ⟨rfl, hc⟩
    | _ => exact hc.elim
  | @listNodes req =>
    cases req with
    | exportPreset => exact ⟨rfl, trivial⟩
    | getTopology => exact ⟨rfl, trivial⟩
    | _ => exact hc.elim

/-- A step of a call leaves every call in a phase of its operation. -/
theorem Typed.step {ok : Request → Prop} {p : Server S} (h : Typed ok p) {t : ℕ} {c : Call}
    {fault : F} (hc : p.calls t = some c) {s' : Shared S} {r : Call ⊕ Done}
    (hstep : Step ss p.shared fault c s' r) : Typed ok (p.settle t s' r) := by
  refine Pool.All.settle h (fun c' hr => ?_) fun _ _ _ _ hA => hA
  obtain rfl := hr
  obtain ⟨hok, hphase⟩ := h t c hc
  obtain ⟨hreq, hphase'⟩ := hstep.phaseOf hphase
  rw [hreq]
  exact ⟨hok, hreq ▸ hphase'⟩

/-- **The rule for the server, with a countdown**: what holds before and is kept by new calls
and by every step under the guard holds in every state reached. All calls are in phases of
their operations. -/
theorem countdown {P : ℕ → Server S → Prop} {ok : Request → Prop}
    {guard : Server S → ℕ → Call → F → Prop}
    (hinvoke : ∀ n p t req, P (n + 1) p → p.calls t = none → ok req →
      P n (p.settle t p.shared (.inl (enter req))))
    (hstep : ∀ n p t c fault s' r, Typed ok p → P (n + 1) p → p.calls t = some c →
      guard p t c fault → Step ss p.shared fault c s' r → P n (p.settle t s' r))
    {c : GraphController S} {p' : Server S} {as : List (Action F)} (hp : P as.length (start c))
    (hmeets : Transition.Meets (Pool.step enter (next ss)) (Pool.Guarded ok guard) (start c) as)
    (hrun : run ss (start c) as = some p') : P 0 p' := by
  refine (Pool.countdown (P := fun n p => Typed ok p ∧ P n p) (fun n p t req hp hc hreq => ?_)
    (fun n p t c fault hp hc hg => ?_) ⟨Pool.all_idle _ _, hp⟩ hmeets hrun).2
  · refine ⟨Pool.All.settle hp.1 (fun c' hr => ?_) fun _ _ _ _ hA => hA,
      hinvoke n p t req hp.2 hc hreq⟩
    obtain rfl := Sum.inl.inj hr
    exact ⟨hreq, trivial⟩
  · have hs : Step ss p.shared fault c _ _ := step_next p.shared c fault
    exact ⟨hp.1.step hc hs, hstep n p t c fault _ _ hp.1 hp.2 hc hg hs⟩

/-- **The rule for the server.** -/
theorem invariant {P : Server S → Prop} {ok : Request → Prop}
    {guard : Server S → ℕ → Call → F → Prop}
    (hinvoke : ∀ p t req, P p → p.calls t = none → ok req →
      P (p.settle t p.shared (.inl (enter req))))
    (hstep : ∀ p t c fault s' r, Typed ok p → P p → p.calls t = some c → guard p t c fault →
      Step ss p.shared fault c s' r → P (p.settle t s' r))
    {c : GraphController S} {p' : Server S} {as : List (Action F)} (hp : P (start c))
    (hmeets : Transition.Meets (Pool.step enter (next ss)) (Pool.Guarded ok guard) (start c) as)
    (hrun : run ss (start c) as = some p') : P p' :=
  countdown (P := fun _ => P) (fun _ => hinvoke) (fun _ => hstep) hp hmeets hrun

/-! ### A call that nobody interrupts -/

variable (ss)

/-- A list of updates, each with what befalls it, up to the first that fails. -/
def perform (req : Request) : List (Update × F) → Shared S → Except ControlError Unit × Shared S
  | [], s => (.ok (), s)
  | (u, fault) :: us, s =>
      match u.apply ss s req fault with
      | (.error e, s) => (.error e, s)
      | (.ok _, s) => perform req us s

/-- The updates do to the controller what a function does. -/
def Does (req : Request) (us : List (Update × F))
    (f : GraphController S → Except ControlError Unit × GraphController S) : Prop :=
  ∀ s : Shared S, ∃ log, perform ss req us s = ((f s.ctrl).1, ⟨(f s.ctrl).2, log⟩)

variable {ss}

theorem perform_append (req : Request) (us vs : List (Update × F)) (s : Shared S) :
    perform ss req (us ++ vs) s =
      match perform ss req us s with
      | (.error e, s) => (.error e, s)
      | (.ok _, s) => perform ss req vs s := by
  induction us generalizing s with
  | nil => rfl
  | cons u us ih =>
    simp only [List.cons_append, perform]
    rcases u.1.apply ss s req u.2 with ⟨e | _, s'⟩
    · rfl
    · exact ih s'

/-- One list of updates after another. -/
theorem Does.append {req : Request} {us vs : List (Update × F)}
    {f g : GraphController S → Except ControlError Unit × GraphController S}
    (hf : Does ss req us f) (hg : Does ss req vs g) :
    Does ss req (us ++ vs) fun c =>
      match f c with
      | (.error e, c) => (.error e, c)
      | (.ok _, c) => g c := by
  intro s
  obtain ⟨log, h⟩ := hf s
  rcases hc : f s.ctrl with ⟨e | _, c⟩
  · simp only [perform_append, h, hc]
    exact ⟨log, rfl⟩
  · simp only [perform_append, h, hc]
    exact hg ⟨c, log⟩

variable (ss) in
/-- A store call and then updates of registries. -/
theorem does_mutate (req : Request) (m : Mutation) (fault : F) (rs : List Record) :
    Does ss req ((Update.mutate m, fault) :: rs.map fun r => (.record r, fault)) fun c =>
      match c.mutate ss m fault with
      | (.error e, c) => (.error e, c)
      | (.ok _, c) => (.ok (), rs.foldl Record.apply c) := by
  have hrecord : ∀ (rs : List Record) (s : Shared S),
      perform ss req (rs.map fun r => (.record r, fault)) s =
        (.ok (), { s with ctrl := rs.foldl Record.apply s.ctrl }) := by
    intro rs
    induction rs with
    | nil => exact fun s => rfl
    | cons r rs ih => exact fun s => ih { s with ctrl := r.apply s.ctrl }
  intro s
  simp only [perform, Update.apply, Shared.mutate]
  rcases s.ctrl.mutate ss m fault with ⟨e | _, c⟩
  · exact ⟨s.log, rfl⟩
  · exact ⟨_, hrecord rs _⟩

/-- The steps of a call whose updates are ahead of it. -/
theorem solo_updating (req : Request) (us : List (Update × F)) (fault : F) (value : Value)
    (s : Shared S) :
    Pool.solo (next ss) (us.map Prod.snd ++ [fault]) s ⟨req, .updating (us.map Prod.fst) value⟩ =
      match perform ss req us s with
      | (.error e, s) => (s, .inr ⟨req, .error e, none⟩)
      | (.ok _, s) => (s, .inr ⟨req, .ok value, none⟩) := by
  induction us generalizing s with
  | nil => rfl
  | cons u us ih =>
    simp only [List.map_cons, List.cons_append, Pool.solo, next, perform]
    rcases u.1.apply ss s req u.2 with ⟨e | _, s'⟩
    · rfl
    · exact ih s'

/-- A call that begins with these updates does what the function does. -/
theorem Does.solo {req : Request} {us : List (Update × F)}
    {f : GraphController S → Except ControlError Unit × GraphController S}
    (h : Does ss req us f) {s : Shared S} {value : Value}
    (hfirst : first (s.topology ss) req = .ok (.updating (us.map Prod.fst) value)) (fault : F) :
    ∃ log, Pool.solo (next ss) (fault :: (us.map Prod.snd ++ [fault])) s (enter req) =
      (⟨(f s.ctrl).2, log⟩, .inr ⟨req, (f s.ctrl).1.map fun _ => value, none⟩) := by
  obtain ⟨log, hp⟩ := h s
  refine ⟨log, ?_⟩
  simp only [Pool.solo, next, enter, hfirst]
  rw [solo_updating, hp]
  rcases (f s.ctrl).1 with e | _
  · rfl
  · rfl

/-- A request that is refused at once. -/
theorem solo_refuse {s : Shared S} {req : Request} {e : ControlError}
    (h : first (s.topology ss) req = .error e) (fault : F) (faults : List F) :
    Pool.solo (next ss) (fault :: faults) s (enter req) =
      (s, .inr ⟨req, .error e, none⟩) := by
  simp only [Pool.solo, next, enter, h]

variable (ss) in
/-- **`create_node`, undisturbed.** -/
theorem solo_createNode (s : Shared S) (spec : NodeSpec) (fault : F) :
    ∃ log, Pool.solo (next ss) (List.replicate 6 fault) s (enter (.createNode spec)) =
      (⟨(s.ctrl.createNode ss spec fault).2, log⟩,
        .inr ⟨.createNode spec, (s.ctrl.createNode ss spec fault).1.map .node, none⟩) := by
  by_cases hlabel : trimIsEmpty spec.label
  · have hfirst : first (s.topology ss) (.createNode spec) =
        .error (.badRequest "node label must not be empty") := by
      simp only [first, hlabel, if_true]
    refine ⟨s.log, ?_⟩
    rw [List.replicate_succ, solo_refuse hfirst, GraphController.createNode, if_pos hlabel]
    rfl
  · rcases hkind : checkKind spec with e | kind
    · have hfirst : first (s.topology ss) (.createNode spec) = .error e := by
        simp only [first, hlabel, hkind]
        rfl
      refine ⟨s.log, ?_⟩
      rw [List.replicate_succ, solo_refuse hfirst, GraphController.createNode, if_neg hlabel, hkind]
      rfl
    · have hfirst : first (s.topology ss) (.createNode spec) =
          .ok (.updating (createUpdates spec kind (newId (s.topology ss)))
            (.node (newId (s.topology ss)))) := by
        simp only [first, hlabel, hkind]
        rfl
      obtain ⟨log, h⟩ := (does_mutate ss (.createNode spec)
        (.addNode (nodeOf spec (newId (s.topology ss)))) fault
        [.insertLabel (newId (s.topology ss)) spec.label,
          .insertKind (newId (s.topology ss)) kind,
          .insertParams (newId (s.topology ss)) spec.params]).solo hfirst fault
      refine ⟨log, h.trans ?_⟩
      rw [GraphController.createNode, if_neg hlabel, hkind]
      simp only [Shared.topology, nodeOf]
      rcases s.ctrl.mutate ss _ fault with ⟨e | _, c⟩
      · rfl
      · rfl

variable (ss) in
/-- **`delete_node`, undisturbed.** -/
theorem solo_deleteNode (s : Shared S) (id : NodeId) (fault : F) :
    ∃ log, Pool.solo (next ss) (List.replicate 6 fault) s (enter (.deleteNode id)) =
      (⟨(s.ctrl.deleteNode ss id fault).2, log⟩,
        .inr ⟨.deleteNode id, (s.ctrl.deleteNode ss id fault).1.map fun _ => .unit, none⟩) := by
  by_cases hnode : ((s.ctrl.topology ss).node id).isNone
  · have hfirst : first (s.topology ss) (.deleteNode id) = .error (.notFound s!"node {id}") := by
      simp only [first, Shared.topology, hnode, if_true]
    refine ⟨s.log, ?_⟩
    rw [List.replicate_succ, solo_refuse hfirst, GraphController.deleteNode, if_pos hnode]
    rfl
  · have hfirst : first (s.topology ss) (.deleteNode id) =
        .ok (.updating (deleteUpdates id) .unit) := by
      simp only [first, Shared.topology, hnode]
      rfl
    obtain ⟨log, h⟩ := (does_mutate ss (.deleteNode id) (.removeNode id) fault
      [.removeLabel id, .removeKind id, .removeParams id]).solo hfirst fault
    refine ⟨log, h.trans ?_⟩
    rw [GraphController.deleteNode, if_neg hnode]
    rcases s.ctrl.mutate ss _ fault with ⟨e | _, c⟩
    · rfl
    · rfl

variable (ss) in
/-- **`delete_link`, undisturbed.** -/
theorem solo_deleteLink (s : Shared S) (id : LinkId) (fault : F) :
    ∃ log, Pool.solo (next ss) (List.replicate 3 fault) s (enter (.deleteLink id)) =
      (⟨(s.ctrl.deleteLink ss id fault).2, log⟩,
        .inr ⟨.deleteLink id, (s.ctrl.deleteLink ss id fault).1.map fun _ => .unit, none⟩) := by
  by_cases hlen : (s.ctrl.topology ss).edges.length ≤ id
  · have hfirst : first (s.topology ss) (.deleteLink id) = .error (.notFound s!"link {id}") := by
      simp only [first, Shared.topology, hlen, if_true]
    refine ⟨s.log, ?_⟩
    rw [List.replicate_succ, solo_refuse hfirst, GraphController.deleteLink, if_pos hlen]
    rfl
  · have hfirst : first (s.topology ss) (.deleteLink id) =
        .ok (.updating [.mutate (.removeLink id)] .unit) := by
      simp only [first, Shared.topology, hlen]
      rfl
    obtain ⟨log, h⟩ := (does_mutate ss (.deleteLink id) (.removeLink id) fault
      []).solo hfirst fault
    refine ⟨log, h.trans ?_⟩
    rw [GraphController.deleteLink, if_neg hlen]
    rcases s.ctrl.mutate ss _ fault with ⟨e | _, c⟩
    · rfl
    · rfl

variable (ss) in
/-- **`link_ports`, undisturbed.** -/
theorem solo_linkPorts (s : Shared S) (src : NodeId) (srcPort : UInt16) (dst : NodeId)
    (dstPort : UInt16) (fault : F) :
    ∃ log onto, Pool.solo (next ss) (List.replicate 3 fault) s
        (enter (.linkPorts src srcPort dst dstPort)) =
      (⟨(s.ctrl.linkPorts ss src srcPort dst dstPort fault).2, log⟩,
        .inr ⟨.linkPorts src srcPort dst dstPort,
          (s.ctrl.linkPorts ss src srcPort dst dstPort fault).1.map .link, onto⟩) := by
  rw [GraphController.linkPorts]
  rcases hcheck : checkLink (s.ctrl.topology ss) src srcPort dst dstPort with e | _
  · have hfirst : first (s.topology ss) (.linkPorts src srcPort dst dstPort) = .error e := by
      simp only [first, Shared.topology, hcheck]
    exact ⟨s.log, none, solo_refuse hfirst fault _⟩
  · simp only [List.replicate, Pool.solo, next, enter, first, Shared.topology, hcheck,
      Shared.mutate]
    rcases s.ctrl.mutate ss _ fault with ⟨e | _, c⟩
    · exact ⟨s.log, none, rfl⟩
    · rcases hlen : (c.topology ss).edges.length with _ | n
      · simp only [hlen]
        exact ⟨_, _, rfl⟩
      · simp only [hlen]
        exact ⟨_, _, rfl⟩

/-- **`export_preset` and `GET /topology`, undisturbed.** -/
theorem solo_view (s : Shared S) {req : Request} (hreq : req = .exportPreset ∨ req = .getTopology)
    (fault : F) :
    Pool.solo (next ss) (List.replicate 3 fault) s (enter req) =
      (s, .inr ⟨req, .ok (view (s.ctrl.listNodes ss) (s.ctrl.listLinks ss) req), none⟩) := by
  rcases hreq with rfl | rfl
  · rfl
  · rfl

/-- The updates of a loop that makes one store call for each item and then touches the
registries. -/
def loop {α : Type} (m : α → Mutation) (rs : α → List Record) (fault : ℕ → F) :
    List α → List (Update × F)
  | [] => []
  | x :: xs =>
      ((Update.mutate (m x), fault 0) :: (rs x).map fun r => (.record r, fault 0)) ++
        loop m rs (fun i => fault (i + 1)) xs

omit [SnapshotApply] in
theorem map_fst_loop {α : Type} (m : α → Mutation) (rs : α → List Record) (fault : ℕ → F)
    (xs : List α) :
    (loop m rs fault xs).map Prod.fst =
      xs.flatMap fun x => .mutate (m x) :: (rs x).map Update.record := by
  induction xs generalizing fault with
  | nil => rfl
  | cons x xs ih => simp [loop, ih]

/-- A loop of the source, as the updates it makes. -/
theorem does_loop {α : Type} (req : Request) (m : α → Mutation) (rs : α → List Record)
    (f : (ℕ → F) → List α → GraphController S → Except ControlError Unit × GraphController S)
    (hnil : ∀ fault c, f fault [] c = (.ok (), c))
    (hcons : ∀ fault x xs c, f fault (x :: xs) c =
      match c.mutate ss (m x) (fault 0) with
      | (.error e, c) => (.error e, c)
      | (.ok _, c) => f (fun i => fault (i + 1)) xs ((rs x).foldl Record.apply c))
    (fault : ℕ → F) (xs : List α) : Does ss req (loop m rs fault xs) (f fault xs) := by
  induction xs generalizing fault with
  | nil => exact fun s => ⟨s.log, by rw [hnil]; rfl⟩
  | cons x xs ih =>
    intro s
    obtain ⟨log, h⟩ :=
      (does_mutate ss req (m x) (fault 0) (rs x)).append (ih fun i => fault (i + 1)) s
    refine ⟨log, h.trans ?_⟩
    rcases hm : s.ctrl.mutate ss (m x) (fault 0) with ⟨e | _, c⟩
    · simp only [hcons, hm]
    · simp only [hcons, hm]

variable (ss) in
/-- **`import_preset`, undisturbed**: the three loops in one. -/
theorem solo_importPreset (s : Shared S) (p : Preset) (faults : ImportFaults F) :
    ∃ fs log, Pool.solo (next ss) fs s (enter (.importPreset p)) =
      (⟨(s.ctrl.importPreset ss p faults).2, log⟩,
        .inr ⟨.importPreset p,
          (s.ctrl.importPreset ss p faults).1.map fun _ => .unit, none⟩) := by
  have hclear : Does ss (.importPreset p)
      (loop Mutation.removeNode (fun id => [.removeLabel id, .removeKind id, .removeParams id])
        faults.clear (s.topology ss).ids)
      fun c => c.clearNodes ss faults.clear (s.topology ss).ids :=
    does_loop (.importPreset p) _ _ (fun fault ids c => c.clearNodes ss fault ids)
      (fun _ _ => rfl) (fun _ _ _ _ => rfl) _ _
  have hnodes : Does ss (.importPreset p)
      (loop (fun n : PresetNode => .addNode n.snapshot)
        (fun n => [.insertLabel n.id n.label, .insertKind n.id n.kind, .insertParams n.id n.params])
        faults.nodes p.nodes)
      fun c => c.createNodes ss faults.nodes p.nodes :=
    does_loop (.importPreset p) _ _ (fun fault ns c => c.createNodes ss fault ns)
      (fun _ _ => rfl) (fun _ _ _ _ => rfl) _ _
  have hlinks : Does ss (.importPreset p)
      (loop (fun l : PresetLink => .addLink l.edge) (fun _ => []) faults.links p.links)
      fun c => c.createLinks ss faults.links p.links :=
    does_loop (.importPreset p) _ _ (fun fault ls c => c.createLinks ss fault ls)
      (fun _ _ => rfl) (fun _ _ _ _ => rfl) _ _
  have hfirst : first (s.topology ss) (.importPreset p) = .ok (.updating
      ((loop Mutation.removeNode (fun id => [.removeLabel id, .removeKind id, .removeParams id])
          faults.clear (s.topology ss).ids ++
        (loop (fun n : PresetNode => .addNode n.snapshot) (fun n =>
            [.insertLabel n.id n.label, .insertKind n.id n.kind, .insertParams n.id n.params])
          faults.nodes p.nodes ++
        loop (fun l : PresetLink => .addLink l.edge) (fun _ => []) faults.links p.links)).map
          Prod.fst) .unit) := by
    simp only [first, List.map_append, map_fst_loop, List.append_assoc, List.map_nil]
    rw [List.map_eq_flatMap]
    rfl
  obtain ⟨log, h⟩ := (hclear.append (hnodes.append hlinks)).solo hfirst (faults.clear 0)
  refine ⟨_, log, h.trans ?_⟩
  have hids : (s.topology ss).ids = (s.ctrl.topology ss).ids := rfl
  rcases hc : s.ctrl.clearNodes ss faults.clear (s.ctrl.topology ss).ids with ⟨e | _, c⟩
  · simp only [importPreset, hids, hc]
  · rcases hn : c.createNodes ss faults.nodes p.nodes with ⟨e | _, c'⟩
    · simp only [importPreset, hids, hc, hn]
    · simp only [importPreset, hids, hc, hn]

/-! ### Calls that come one at a time -/

/-- A call that nobody interrupts, as a run of the server. -/
theorem exists_run_of_solo {p : Server S} (hidle : ∀ t, p.calls t = none) {req : Request}
    {faults : List F} {s : Shared S} {d : Done}
    (h : Pool.solo (next ss) faults p.shared (enter req) = (s, .inr d)) :
    ∃ as p', run ss p as = some p' ∧ (∀ t, p'.calls t = none) ∧ p'.shared.ctrl = s.ctrl := by
  have hinvoke : Pool.step enter (next ss) p (.invoke 0 req) =
      some (p.settle 0 p.shared (.inl (enter req))) := by
    simp only [Pool.step, hidle 0]
  have hcall : (p.settle 0 p.shared (.inl (enter req))).calls 0 = some (enter req) :=
    Pool.settle_calls_self p 0 p.shared (.inl (enter req))
  obtain ⟨k, hk⟩ := Pool.run_solo enter hcall h
  rw [Pool.settle_settle_inl] at hk
  refine ⟨.invoke 0 req :: (faults.take k).map (.advance 0), p.settle 0 s (.inr d), ?_,
    fun t => ?_, rfl⟩
  · rw [run, Transition.run, hinvoke, Option.bind_some]
    exact hk
  · by_cases ht : t = 0
    · rw [ht]
      exact Pool.settle_calls_self p 0 s (.inr d)
    · rw [Pool.settle_calls_of_ne p ht]
      exact hidle t

/-- **One operation of the sequential model.** -/
theorem exists_run_step {p : Server S} (hidle : ∀ t, p.calls t = none) (op : Op F) :
    ∃ as p', run ss p as = some p' ∧ (∀ t, p'.calls t = none) ∧
      p'.shared.ctrl = p.shared.ctrl.step ss op := by
  cases op with
  | edit edit fault =>
    cases edit with
    | createNode spec =>
      obtain ⟨log, h⟩ := solo_createNode ss p.shared spec fault
      exact exists_run_of_solo hidle h
    | link src dst =>
      obtain ⟨log, onto, h⟩ := solo_linkPorts ss p.shared src 0 dst 0 fault
      exact exists_run_of_solo hidle h
    | linkPorts src srcPort dst dstPort =>
      obtain ⟨log, onto, h⟩ := solo_linkPorts ss p.shared src srcPort dst dstPort fault
      exact exists_run_of_solo hidle h
    | deleteNode id =>
      obtain ⟨log, h⟩ := solo_deleteNode ss p.shared id fault
      exact exists_run_of_solo hidle h
    | deleteLink id =>
      obtain ⟨log, h⟩ := solo_deleteLink ss p.shared id fault
      exact exists_run_of_solo hidle h
  | importPreset preset faults =>
    obtain ⟨fs, log, h⟩ := solo_importPreset ss p.shared preset faults
    exact exists_run_of_solo hidle h

/-- **Every run of the sequential model is a run of this one**, in which the calls come one at a
time. -/
theorem exists_run_runOps {p : Server S} (hidle : ∀ t, p.calls t = none) (ops : List (Op F)) :
    ∃ as p', run ss p as = some p' ∧ (∀ t, p'.calls t = none) ∧
      p'.shared.ctrl = p.shared.ctrl.runOps ss ops := by
  induction ops generalizing p with
  | nil => exact ⟨[], p, rfl, hidle, rfl⟩
  | cons op ops ih =>
    obtain ⟨as, p₁, hrun, hidle₁, hctrl⟩ := exists_run_step hidle op
    obtain ⟨bs, p₂, hrun₂, hidle₂, hctrl₂⟩ := ih hidle₁
    refine ⟨as ++ bs, p₂, ?_, hidle₂, ?_⟩
    · rw [run, Transition.run_append, ← run, hrun, Option.bind_some]
      exact hrun₂
    · rw [hctrl₂, hctrl]
      rfl

end Steps

/-- A controller with a source, node `1`, and a sink, node `2`. -/
def pairController : GraphController RaftEngine.EngineState :=
  letI := SnapshotApply.documented
  (new emptyEngine).run engineStore
    [(.createNode ⟨"source", 0, 1, none, none⟩, none),
      (.createNode ⟨"sink", 1, 0, none, none⟩, none)]

end Concurrent

end SonicBrew
