import Mathlib.Logic.Function.Basic
import SonicBrew.ControlApi.Types

/-!
# The graph controller

`GraphController` turns requests into mutations of the session store, and keeps beside the
store what the store does not: three registries, from node ids to labels, kinds and
parameters. Every operation validates against the topology it reads, makes one store call,
and touches the registries only after that call has succeeded – so an operation that fails
leaves everything as it was (`SonicBrew.GraphController.exec_error`).

What a successful operation does to the topology and the registries is one lemma per
operation (`SonicBrew.GraphController.createNode_cases` and its siblings), and every invariant
of the controller is derived from these, never from the code of the operations.
-/

namespace SonicBrew

/-- A side registry (`HashMap<NodeId, V>`). -/
abbrev Registry (V : Type) : Type := NodeId → Option V

namespace Registry

variable {V : Type}

/-- The empty registry. -/
def empty : Registry V := fun _ => none

/-- `HashMap::insert`. -/
def insert (r : Registry V) (id : NodeId) (v : V) : Registry V := Function.update r id (some v)

/-- `HashMap::remove`. -/
def remove (r : Registry V) (id : NodeId) : Registry V := Function.update r id none

/-- Insert a value if there is one (`if let Some`). -/
def insertSome (r : Registry V) (id : NodeId) : Option V → Registry V
  | none => r
  | some v => r.insert id v

/-- The ids with an entry are among `ids`. -/
def KeysIn (r : Registry V) (ids : List NodeId) : Prop := ∀ id, r id ≠ none → id ∈ ids

theorem insert_self (r : Registry V) (id : NodeId) (v : V) : r.insert id v id = some v :=
  Function.update_self ..

theorem insert_of_ne (r : Registry V) {id id' : NodeId} (v : V) (h : id' ≠ id) :
    r.insert id v id' = r id' := Function.update_of_ne h ..

theorem remove_self (r : Registry V) (id : NodeId) : r.remove id id = none :=
  Function.update_self ..

theorem remove_of_ne (r : Registry V) {id id' : NodeId} (h : id' ≠ id) :
    r.remove id id' = r id' := Function.update_of_ne h ..

theorem insertSome_self (r : Registry V) (id : NodeId) (v : Option V) :
    r.insertSome id v id = v.or (r id) := by
  cases v with
  | none => rfl
  | some v => exact insert_self r id v

theorem insertSome_of_ne (r : Registry V) {id id' : NodeId} (v : Option V) (h : id' ≠ id) :
    r.insertSome id v id' = r id' := by
  cases v with
  | none => rfl
  | some v => exact insert_of_ne r v h

theorem KeysIn.mono {r : Registry V} {ids ids' : List NodeId} (h : r.KeysIn ids)
    (hsub : ∀ id ∈ ids, id ∈ ids') : r.KeysIn ids' := fun id hid => hsub id (h id hid)

theorem KeysIn.insertSome {r : Registry V} {ids : List NodeId} (h : r.KeysIn ids) {id : NodeId}
    (hid : id ∈ ids) (v : Option V) : (r.insertSome id v).KeysIn ids := by
  intro i hi
  by_cases hne : i = id
  · rw [hne]
    exact hid
  · rw [insertSome_of_ne r v hne] at hi
    exact h i hi

theorem KeysIn.remove {r : Registry V} {ids : List NodeId} (h : r.KeysIn ids) (id : NodeId) :
    (r.remove id).KeysIn (ids.filter fun i => i ≠ id) := by
  intro i hi
  by_cases hne : i = id
  · rw [hne, remove_self] at hi
    exact absurd rfl hi
  · rw [remove_of_ne r hne] at hi
    simpa [hne] using h i hi

end Registry

/-- **The controller**: the store, and the three registries beside it. -/
structure GraphController (S : Type) where
  store : S
  labels : Registry String
  kinds : Registry String
  params : Registry NodeParams

namespace GraphController

/-- A controller over a store, with empty registries. -/
def new {S : Type} (s : S) : GraphController S :=
  ⟨s, Registry.empty, Registry.empty, Registry.empty⟩

section Operations

variable [SnapshotApply] {S F : Type} (ss : SessionStore S F)

/-- The topology the controller reads. -/
def topology (c : GraphController S) : TopologySnapshot := ss.getTopology c.store

/-- One store call, with its error translated. -/
def mutate (c : GraphController S) (m : Mutation) (fault : F) :
    Except ControlError Unit × GraphController S :=
  match ss.applyMutation c.store m fault with
  | (.ok _, s) => (.ok (), { c with store := s })
  | (.error e, s) => (.error (storeErrToControl e), { c with store := s })

/-- `list_nodes`. -/
def listNodes (c : GraphController S) : List NodeInfo :=
  (c.topology ss).nodes.map fun ns =>
    { id := ns.id
      label := (c.labels ns.id).getD s!"node-{ns.id}"
      inputs := UInt16.ofNat ns.inputs.length
      outputs := UInt16.ofNat ns.outputs.length
      kind := c.kinds ns.id
      params := c.params ns.id }

/-- `list_links`. -/
def listLinks (c : GraphController S) : List LinkInfo :=
  (c.topology ss).edges.zipIdx.map fun (edge, id) =>
    { id
      src := edge.src.1
      srcPort := UInt16.ofNat edge.src.2
      dst := edge.dst.1
      dstPort := UInt16.ofNat edge.dst.2 }

/-- The check of a request's kind against its parameters: the kind to record, inferred from
the parameters when it is omitted. -/
def checkKind (spec : NodeSpec) : Except ControlError (Option String) :=
  match spec.params with
  | none => .ok spec.kind
  | some params =>
      let actual := params.kindName
      match spec.kind with
      | some expected =>
          if expected ≠ actual then
            .error (.badRequest s!"params variant '{actual}' does not match kind '{expected}'")
          else .ok spec.kind
      | none => .ok (some actual)

/-- The id of a new node: one above the largest, as far as the type goes. -/
def newId (t : TopologySnapshot) : NodeId := min (t.ids.max?.getD 0 + 1) usizeMax

/-- The entries a new node gets in the registries. -/
def record (c : GraphController S) (id : NodeId) (label : String) (kind : Option String)
    (params : Option NodeParams) : GraphController S :=
  { c with
    labels := c.labels.insert id label
    kinds := c.kinds.insertSome id kind
    params := c.params.insertSome id params }

/-- The entries of a removed node go. -/
def prune (c : GraphController S) (id : NodeId) : GraphController S :=
  { c with
    labels := c.labels.remove id
    kinds := c.kinds.remove id
    params := c.params.remove id }

/-- `create_node`. -/
def createNode (c : GraphController S) (spec : NodeSpec) (fault : F) :
    Except ControlError NodeId × GraphController S :=
  if trimIsEmpty spec.label then
    (.error (.badRequest "node label must not be empty"), c)
  else
    match checkKind spec with
    | .error e => (.error e, c)
    | .ok kind =>
        let id := newId (c.topology ss)
        let snapshot : NodeSnapshot :=
          ⟨id, buildPorts spec.inputs .input, buildPorts spec.outputs .output⟩
        match c.mutate ss (.addNode snapshot) fault with
        | (.error e, c) => (.error e, c)
        | (.ok _, c) => (.ok id, c.record id spec.label kind spec.params)

/-- `delete_node`. -/
def deleteNode (c : GraphController S) (id : NodeId) (fault : F) :
    Except ControlError Unit × GraphController S :=
  if ((c.topology ss).node id).isNone then (.error (.notFound s!"node {id}"), c)
  else
    match c.mutate ss (.removeNode id) fault with
    | (.error e, c) => (.error e, c)
    | (.ok _, c) => (.ok (), c.prune id)

/-- `delete_link`. -/
def deleteLink (c : GraphController S) (id : LinkId) (fault : F) :
    Except ControlError Unit × GraphController S :=
  if (c.topology ss).edges.length ≤ id then (.error (.notFound s!"link {id}"), c)
  else c.mutate ss (.removeLink id) fault

/-- The validation of `link_ports`, in the source's order. -/
def checkLink (t : TopologySnapshot) (src : NodeId) (srcPort : UInt16) (dst : NodeId)
    (dstPort : UInt16) : Except ControlError Unit :=
  match t.node src with
  | none => .error (.notFound s!"source node {src}")
  | some s =>
      let outputs := s.outputs.length
      if outputs ≤ srcPort.toNat then
        .error (.badRequest
          s!"source node {src} has {outputs} output port(s); from_port {srcPort} is out of range")
      else
        match t.node dst with
        | none => .error (.notFound s!"destination node {dst}")
        | some d =>
            let inputs := d.inputs.length
            if inputs ≤ dstPort.toNat then
              .error (.badRequest
                s!"destination node {dst} has {inputs} input port(s); to_port {dstPort} is out of range")
            else .ok ()

/-- `link_ports`. The id is the position of the last link, read back from the store. -/
def linkPorts (c : GraphController S) (src : NodeId) (srcPort : UInt16) (dst : NodeId)
    (dstPort : UInt16) (fault : F) : Except ControlError LinkId × GraphController S :=
  match checkLink (c.topology ss) src srcPort dst dstPort with
  | .error e => (.error e, c)
  | .ok _ =>
      match c.mutate ss (.addLink ⟨(src, srcPort.toNat), (dst, dstPort.toNat)⟩) fault with
      | (.error e, c) => (.error e, c)
      | (.ok _, c) =>
          match (c.topology ss).edges.length with
          | 0 => (.error (.graph "link mutation did not persist"), c)
          | n + 1 => (.ok n, c)

/-- `link`: the first output to the first input. -/
def link (c : GraphController S) (src dst : NodeId) (fault : F) :
    Except ControlError LinkId × GraphController S :=
  c.linkPorts ss src 0 dst 0 fault

/-! ### What a call can do -/

variable {ss}

variable (ss) in
/-- **One store call** fails and changes nothing, or moves the topology by its mutation. -/
theorem mutate_cases (c : GraphController S) (m : Mutation) (fault : F) :
    (∃ e, c.mutate ss m fault = (.error e, c)) ∨
      ∃ s, c.mutate ss m fault = (.ok (), { c with store := s }) ∧
        ss.getTopology s = (c.topology ss).apply m := by
  rcases ss.applyMutation_cases c.store m fault with ⟨e, h⟩ | ⟨id, s, h, ht⟩
  · exact Or.inl ⟨_, by rw [mutate, h]⟩
  · exact Or.inr ⟨s, by rw [mutate, h], ht⟩

/-- The node a request asks for, under the id it would get. -/
def nodeOf (spec : NodeSpec) (id : NodeId) : NodeSnapshot :=
  ⟨id, buildPorts spec.inputs .input, buildPorts spec.outputs .output⟩

theorem createNode_cases (c : GraphController S) (spec : NodeSpec) (fault : F) :
    (∃ e, c.createNode ss spec fault = (.error e, c)) ∨
      ∃ kind s, checkKind spec = .ok kind ∧
        c.createNode ss spec fault =
          (.ok (newId (c.topology ss)),
            { c with store := s }.record (newId (c.topology ss)) spec.label kind spec.params) ∧
        ss.getTopology s =
          (c.topology ss).apply (.addNode (nodeOf spec (newId (c.topology ss)))) := by
  rw [createNode]
  split
  · exact Or.inl ⟨_, rfl⟩
  · rcases hk : checkKind spec with e | kind
    · exact Or.inl ⟨e, rfl⟩
    · rcases mutate_cases ss c (.addNode (nodeOf spec (newId (c.topology ss)))) fault
        with ⟨e, h⟩ | ⟨s, h, ht⟩
      · refine Or.inl ⟨e, ?_⟩
        rw [nodeOf] at h
        simp only [h]
      · refine Or.inr ⟨kind, s, rfl, ?_, ht⟩
        rw [nodeOf] at h
        simp only [h]

theorem deleteNode_cases (c : GraphController S) (id : NodeId) (fault : F) :
    (∃ e, c.deleteNode ss id fault = (.error e, c)) ∨
      ∃ s, c.deleteNode ss id fault = (.ok (), { c with store := s }.prune id) ∧
        ss.getTopology s = (c.topology ss).apply (.removeNode id) := by
  rw [deleteNode]
  split
  · exact Or.inl ⟨_, rfl⟩
  · rcases mutate_cases ss c (.removeNode id) fault with ⟨e, h⟩ | ⟨s, h, ht⟩
    · exact Or.inl ⟨e, by rw [h]⟩
    · exact Or.inr ⟨s, by rw [h], ht⟩

theorem deleteLink_cases (c : GraphController S) (id : LinkId) (fault : F) :
    (∃ e, c.deleteLink ss id fault = (.error e, c)) ∨
      ∃ s, c.deleteLink ss id fault = (.ok (), { c with store := s }) ∧
        ss.getTopology s = (c.topology ss).apply (.removeLink id) := by
  rw [deleteLink]
  split
  · exact Or.inl ⟨_, rfl⟩
  · exact mutate_cases ss c (.removeLink id) fault

/-- **A link the topology can carry**: both nodes are there, and have the ports. -/
def EdgeOk (t : TopologySnapshot) (e : SnapshotEdge) : Prop :=
  (∃ n, t.node e.src.1 = some n ∧ e.src.2 < n.outputs.length) ∧
    ∃ n, t.node e.dst.1 = some n ∧ e.dst.2 < n.inputs.length

omit [SnapshotApply] in
/-- **What `link_ports` validates.** -/
theorem checkLink_eq_ok {t : TopologySnapshot} {src dst : NodeId} {srcPort dstPort : UInt16}
    (h : checkLink t src srcPort dst dstPort = .ok ()) :
    EdgeOk t ⟨(src, srcPort.toNat), (dst, dstPort.toNat)⟩ := by
  rw [checkLink] at h
  rcases hs : t.node src with _ | s
  · simp [hs] at h
  · simp only [hs] at h
    split at h
    · simp at h
    · rename_i hsp
      rcases hd : t.node dst with _ | d
      · simp [hd] at h
      · simp only [hd] at h
        split at h
        · simp at h
        · rename_i hdp
          exact ⟨⟨s, hs, not_le.mp hsp⟩, d, hd, not_le.mp hdp⟩

theorem linkPorts_cases [LawfulSnapshotApply] (c : GraphController S) (src : NodeId)
    (srcPort : UInt16) (dst : NodeId) (dstPort : UInt16) (fault : F) :
    (∃ e, c.linkPorts ss src srcPort dst dstPort fault = (.error e, c)) ∨
      ∃ s, EdgeOk (c.topology ss) ⟨(src, srcPort.toNat), (dst, dstPort.toNat)⟩ ∧
        c.linkPorts ss src srcPort dst dstPort fault =
          (.ok (c.topology ss).edges.length, { c with store := s }) ∧
        ss.getTopology s =
          (c.topology ss).apply (.addLink ⟨(src, srcPort.toNat), (dst, dstPort.toNat)⟩) := by
  rw [linkPorts]
  rcases hc : checkLink (c.topology ss) src srcPort dst dstPort with e | u
  · exact Or.inl ⟨e, rfl⟩
  · rcases mutate_cases ss c (.addLink ⟨(src, srcPort.toNat), (dst, dstPort.toNat)⟩)
      fault with ⟨e, h⟩ | ⟨s, h, ht⟩
    · exact Or.inl ⟨e, by simp only [h]⟩
    · refine Or.inr ⟨s, checkLink_eq_ok hc, ?_, ht⟩
      -- the link is there when the store is read back, so its position is the old length
      have hlen : (topology ss { c with store := s }).edges.length =
          (c.topology ss).edges.length + 1 := by
        rw [topology, ht, apply_addLink, List.length_append]
        rfl
      simp only [h, hlen]

/-! ### Edits -/

/-- The operations that change one thing at a time. -/
inductive Edit where
  | createNode (spec : NodeSpec)
  | link (src dst : NodeId)
  | linkPorts (src : NodeId) (srcPort : UInt16) (dst : NodeId) (dstPort : UInt16)
  | deleteNode (id : NodeId)
  | deleteLink (id : LinkId)

variable (ss)

/-- One edit, with what befalls its store call. The answer is the id of the new node or
link, if there is one. -/
def exec (c : GraphController S) (edit : Edit) (fault : F) :
    Except ControlError (Option ℕ) × GraphController S :=
  match edit with
  | .createNode spec =>
      let (r, c) := c.createNode ss spec fault
      (r.map some, c)
  | .link src dst =>
      let (r, c) := c.link ss src dst fault
      (r.map some, c)
  | .linkPorts src srcPort dst dstPort =>
      let (r, c) := c.linkPorts ss src srcPort dst dstPort fault
      (r.map some, c)
  | .deleteNode id =>
      let (r, c) := c.deleteNode ss id fault
      (r.map fun _ => none, c)
  | .deleteLink id =>
      let (r, c) := c.deleteLink ss id fault
      (r.map fun _ => none, c)

/-- A run of edits. -/
def run (c : GraphController S) (edits : List (Edit × F)) : GraphController S :=
  edits.foldl (fun c e => (c.exec ss e.1 e.2).2) c

variable {ss}

/-- **What a successful edit does**: a node with the next id, recorded; a link that has its
ports; a node gone with its entries; a link gone. -/
def Effect (ss : SessionStore S F) (c c' : GraphController S) : Prop :=
  (∃ spec kind s, checkKind spec = .ok kind ∧
      c' = { c with store := s }.record (newId (c.topology ss)) spec.label kind spec.params ∧
      ss.getTopology s = (c.topology ss).apply (.addNode (nodeOf spec (newId (c.topology ss))))) ∨
  (∃ e s, EdgeOk (c.topology ss) e ∧ c' = { c with store := s } ∧
      ss.getTopology s = (c.topology ss).apply (.addLink e)) ∨
  (∃ id s, c' = { c with store := s }.prune id ∧
      ss.getTopology s = (c.topology ss).apply (.removeNode id)) ∨
  ∃ id s, c' = { c with store := s } ∧ ss.getTopology s = (c.topology ss).apply (.removeLink id)

/-- **An edit fails and changes nothing, or has its effect.** -/
theorem exec_cases [LawfulSnapshotApply] (c : GraphController S) (edit : Edit) (fault : F) :
    (∃ e, c.exec ss edit fault = (.error e, c)) ∨
      ∃ r c', c.exec ss edit fault = (.ok r, c') ∧ Effect ss c c' := by
  have hports : ∀ src srcPort dst dstPort,
      (∃ e, c.exec ss (.linkPorts src srcPort dst dstPort) fault = (.error e, c)) ∨
        ∃ r c', c.exec ss (.linkPorts src srcPort dst dstPort) fault = (.ok r, c') ∧
          Effect ss c c' := by
    intro src srcPort dst dstPort
    rcases linkPorts_cases c src srcPort dst dstPort fault with ⟨e, h⟩ | ⟨s, hok, h, ht⟩
    · exact Or.inl ⟨e, by rw [exec, h]; rfl⟩
    · exact Or.inr ⟨_, _, by rw [exec, h]; rfl, Or.inr (Or.inl ⟨_, s, hok, rfl, ht⟩)⟩
  cases edit with
  | createNode spec =>
    rcases createNode_cases c spec fault with ⟨e, h⟩ | ⟨kind, s, hk, h, ht⟩
    · exact Or.inl ⟨e, by rw [exec, h]; rfl⟩
    · exact Or.inr ⟨_, _, by rw [exec, h]; rfl, Or.inl ⟨spec, kind, s, hk, rfl, ht⟩⟩
  | link src dst => exact hports src 0 dst 0
  | linkPorts src srcPort dst dstPort => exact hports src srcPort dst dstPort
  | deleteNode id =>
    rcases deleteNode_cases c id fault with ⟨e, h⟩ | ⟨s, h, ht⟩
    · exact Or.inl ⟨e, by rw [exec, h]; rfl⟩
    · exact Or.inr ⟨_, _, by rw [exec, h]; rfl, Or.inr (Or.inr (Or.inl ⟨id, s, rfl, ht⟩))⟩
  | deleteLink id =>
    rcases deleteLink_cases c id fault with ⟨e, h⟩ | ⟨s, h, ht⟩
    · exact Or.inl ⟨e, by rw [exec, h]; rfl⟩
    · exact Or.inr ⟨_, _, by rw [exec, h]; rfl, Or.inr (Or.inr (Or.inr ⟨id, s, rfl, ht⟩))⟩

/-- **A failed edit leaves no trace.** -/
theorem exec_error [LawfulSnapshotApply] {c : GraphController S} {edit : Edit} {fault : F}
    {e : ControlError} (h : (c.exec ss edit fault).1 = .error e) :
    (c.exec ss edit fault).2 = c := by
  rcases exec_cases c edit fault with ⟨e', h'⟩ | ⟨r, c', h', -⟩
  · rw [h']
  · rw [h'] at h
    exact absurd h (by simp)

end Operations

end GraphController

end SonicBrew
