import SonicBrew.ControlApi.Integrity
import SonicBrew.Lib.Transition

/-!
# Creating nodes while the graph is being rebuilt

On the server a node that is created over the control surface is rendered by the rebuild
thread, which learns of it through the store and of its kind and parameters through the two
registries that it shares with the controller. `create_node` writes them in this order: the node
– and with it the event – and then the label, the kind, the parameters. The rebuild that the event
triggers may therefore come before the entries it is there to pick up, and no later event makes
up for that.

The model splits a call into its store read, its store call and its three insertions, and a
rebuild into the read of the topology and, node by node, the reads of the two registries. The
invariant (`SonicBrew.CreateRace.Inv`) says that as long as the receiver is empty, what has been
rendered so far is what the registries say *and nobody is about to say otherwise*. It is kept by
every step but one: a read of an entry whose insertion is still ahead of some call. Runs without
such a read (`SonicBrew.CreateRace.ReadsSettled`) render every node from what was recorded for it
(`SonicBrew.CreateRace.rendered_as_recorded`); the shortest run with one does not
(`SonicBrew.CreateRace.rendered_before_recorded`).
-/

namespace SonicBrew

namespace CreateRace

open GraphController (newId checkKind nodeOf)

open RaftEngine (channelCapacity)

/-- What the server's factory makes of a node id. -/
inductive Built where
  /-- The gateway's source, for id `0`. -/
  | bridgeSource
  /-- The gateway's sink, for id `1`. -/
  | bridgeSink
  /-- A file player, for kind `"file"`; it reads no parameters. -/
  | file
  /-- Whatever `render_node` makes of a kind and parameters. -/
  | node (kind : Option String) (params : Option NodeParams)
  deriving DecidableEq, Repr

/-- What the factory renders from a kind and parameters. -/
def render (kind : Option String) (params : Option NodeParams) : Built :=
  if kind = some "file" then .file else .node kind params

/-- `EngineServerFactory::build`, on registries that do not change meanwhile. -/
def factory (kinds : Registry String) (params : Registry NodeParams) (id : NodeId) : Built :=
  if id = 0 then .bridgeSource
  else if id = 1 then .bridgeSink
  else render (kinds id) (params id)

/-- How far a call of `create_node` has come, and the id it uses. -/
inductive CreatePhase where
  /-- The request is valid; the topology is to be read. -/
  | started
  /-- The id is chosen; the node is to be added. -/
  | chosen (id : NodeId)
  /-- The node is in the store and the event is out; the label is to be inserted. -/
  | added (id : NodeId)
  /-- The kind is to be inserted. -/
  | labelled (id : NodeId)
  /-- The parameters are to be inserted. -/
  | kinded (id : NodeId)
  deriving DecidableEq, Repr

/-- The id under which the kind is still to be inserted. -/
def CreatePhase.kindAhead : CreatePhase → Option NodeId
  | .added id => some id
  | .labelled id => some id
  | _ => none

/-- The id under which the parameters are still to be inserted. -/
def CreatePhase.paramsAhead : CreatePhase → Option NodeId
  | .added id => some id
  | .labelled id => some id
  | .kinded id => some id
  | _ => none

/-- A running call: its request, the kind it records, and where it is. -/
structure Create where
  spec : NodeSpec
  kind : Option String
  phase : CreatePhase

/-- What the rebuild thread is about to do. -/
inductive ThreadPhase where
  /-- To subscribe. -/
  | unsubscribed
  /-- To read the topology. -/
  | rebuilding
  /-- To render the first of these nodes, whose kind it may have read already. -/
  | building (todo : List NodeSnapshot) (kindRead : Option (Option String))
  /-- To poll. -/
  | idle

/-- The rebuild thread: where it is, its receiver, and of its most recent call of
`build_graph` the topology and the nodes rendered so far. -/
structure Thread where
  phase : ThreadPhase
  cursor : ℕ
  topology : TopologySnapshot
  done : List (NodeId × Built)

/-- The store, the controller's registries, the calls that are running, the ids under which
nodes have been created, and the rebuild thread. -/
structure World where
  engine : RaftEngine.EngineState
  labels : Registry String
  kinds : Registry String
  params : Registry NodeParams
  calls : ℕ → Option Create
  created : List NodeId
  thread : Thread

/-- A step of a call or of the rebuild thread. -/
inductive Action where
  | createNode (t : ℕ) (spec : NodeSpec)
  | readTopology (t : ℕ)
  | addNode (t : ℕ) (fault : Option (RaftEngine.PersistStep × String))
  | insertLabel (t : ℕ)
  | insertKind (t : ℕ)
  | insertParams (t : ℕ)
  | subscribe
  | getTopology
  | build
  | tryRecv

/-- Where a thread's call is now. -/
def World.setCall (w : World) (t : ℕ) (c : Option Create) : World :=
  { w with calls := Function.update w.calls t c }

/-- The node at hand is rendered, and the next one is up. -/
def World.push (w : World) (id : NodeId) (b : Built) (todo : List NodeSnapshot) : World :=
  { w with thread :=
    { w.thread with phase := .building todo none, done := w.thread.done ++ [(id, b)] } }

/-- A server whose store holds a topology, before any call and before the rebuild thread. -/
def start (engine : RaftEngine.EngineState) (labels kinds : Registry String)
    (params : Registry NodeParams) : World :=
  ⟨engine, labels, kinds, params, fun _ => none, [], ⟨.unsubscribed, 0, TopologySnapshot.new, []⟩⟩

section Steps

variable [SnapshotApply] (json : Codec Mutation)

/-- One step, if it is possible. -/
def step (w : World) : Action → Option World
  | .createNode t spec =>
      match w.calls t with
      | some _ => none
      | none =>
          -- a request that is refused returns at once
          if trimIsEmpty spec.label then some w
          else match checkKind spec with
            | .error _ => some w
            | .ok kind => some (w.setCall t (some ⟨spec, kind, .started⟩))
  | .readTopology t =>
      match w.calls t with
      | some ⟨spec, kind, .started⟩ =>
          some (w.setCall t (some ⟨spec, kind, .chosen (newId w.engine.snapshot)⟩))
      | _ => none
  | .addNode t fault =>
      match w.calls t with
      | some ⟨spec, kind, .chosen id⟩ =>
          match RaftEngine.applyMutation json w.engine (.addNode (nodeOf spec id)) fault with
          | (.ok _, engine) =>
              some { w.setCall t (some ⟨spec, kind, .added id⟩) with
                engine, created := w.created ++ [id] }
          | (.error _, engine) => some { w.setCall t none with engine }
      | _ => none
  | .insertLabel t =>
      match w.calls t with
      | some ⟨spec, kind, .added id⟩ =>
          some { w.setCall t (some ⟨spec, kind, .labelled id⟩) with
            labels := w.labels.insert id spec.label }
      | _ => none
  | .insertKind t =>
      match w.calls t with
      | some ⟨spec, kind, .labelled id⟩ =>
          some { w.setCall t (some ⟨spec, kind, .kinded id⟩) with
            kinds := w.kinds.insertSome id kind }
      | _ => none
  | .insertParams t =>
      match w.calls t with
      | some ⟨spec, _, .kinded id⟩ =>
          some { w.setCall t none with params := w.params.insertSome id spec.params }
      | _ => none
  | .subscribe =>
      match w.thread.phase with
      | .unsubscribed =>
          some { w with thread :=
            { w.thread with phase := .rebuilding, cursor := w.engine.tx.subscribe } }
      | _ => none
  | .getTopology =>
      match w.thread.phase with
      | .rebuilding =>
          some { w with thread :=
            { w.thread with
              phase := .building w.engine.snapshot.nodes none
              topology := w.engine.snapshot
              done := [] } }
      | _ => none
  | .build =>
      match w.thread.phase with
      | .building [] _ => some { w with thread := { w.thread with phase := .idle } }
      | .building (n :: todo) none =>
          if n.id = 0 then some (w.push n.id .bridgeSource todo)
          else if n.id = 1 then some (w.push n.id .bridgeSink todo)
          else if w.kinds n.id = some "file" then some (w.push n.id .file todo)
          else some { w with thread :=
            { w.thread with phase := .building (n :: todo) (some (w.kinds n.id)) } }
      | .building (n :: todo) (some kind) =>
          some (w.push n.id (.node kind (w.params n.id)) todo)
      | _ => none
  | .tryRecv =>
      match w.thread.phase with
      | .idle =>
          match w.engine.tx.tryRecv channelCapacity w.thread.cursor with
          | (.empty, _) => some w
          | (.ok _, cursor) =>
              some { w with thread := { w.thread with phase := .rebuilding, cursor } }
          | (.lagged _, cursor) =>
              some { w with thread := { w.thread with phase := .rebuilding, cursor } }
      | _ => none

end Steps

/-! ### The condition on the reads -/

/-- Some call is still to insert the kind of this id. -/
def PendingKind (calls : ℕ → Option Create) (id : NodeId) : Prop :=
  ∃ t c, calls t = some c ∧ c.kind ≠ none ∧ c.phase.kindAhead = some id

/-- Some call is still to insert the parameters of this id. -/
def PendingParams (calls : ℕ → Option Create) (id : NodeId) : Prop :=
  ∃ t c, calls t = some c ∧ c.spec.params ≠ none ∧ c.phase.paramsAhead = some id

/-- **No entry is read before it is written**: when the rebuild thread reads the kind or the
parameters of a node, no call that has added the node is still to insert them. -/
def ReadsSettled (w : World) : Action → Prop
  | .build =>
      match w.thread.phase with
      | .building (n :: _) none => n.id ≠ 0 → n.id ≠ 1 → ¬PendingKind w.calls n.id
      | .building (n :: _) (some _) => ¬PendingParams w.calls n.id
      | _ => True
  | _ => True

/-- **Everything has come to rest**: every call has returned, and the rebuild thread is polling
an empty receiver. -/
structure Quiescent (w : World) : Prop where
  calls : ∀ t, w.calls t = none
  idle : w.thread.phase = .idle
  empty : (w.engine.tx.tryRecv channelCapacity w.thread.cursor).1 = .empty

/-- **The last rebuild is of what was recorded**: it rendered the nodes of the topology in
order, each as the factory renders it from the registries; and for a node that `create_node` made,
that is from its kind and its parameters. -/
def RenderedAsRecorded (w : World) : Prop :=
  w.thread.done = w.engine.snapshot.nodes.map (fun n => (n.id, factory w.kinds w.params n.id)) ∧
    ∀ id ∈ w.created, factory w.kinds w.params id = render (w.kinds id) (w.params id)

/-! ### What has been read stays true -/

/-- The kind read for a node is the recorded one, and no call is about to change it. -/
structure KindSettled (w : World) (id : NodeId) (kind : Option String) : Prop where
  not_source : id ≠ 0
  not_sink : id ≠ 1
  kind_eq : w.kinds id = kind
  not_pending : ¬PendingKind w.calls id

/-- A node is rendered as recorded, and no call is about to record otherwise. -/
def Settled (w : World) (id : NodeId) : Built → Prop
  | .bridgeSource => id = 0
  | .bridgeSink => id = 1
  | .file => KindSettled w id (some "file")
  | .node kind params =>
      KindSettled w id kind ∧ kind ≠ some "file" ∧ w.params id = params ∧ ¬PendingParams w.calls id

/-- A settled node is rendered as the factory would render it now. -/
theorem Settled.eq_factory {w : World} {id : NodeId} {b : Built} (h : Settled w id b) :
    b = factory w.kinds w.params id := by
  cases b with
  | bridgeSource =>
    have hid : id = 0 := h
    rw [hid, factory, if_pos rfl]
  | bridgeSink =>
    have hid : id = 1 := h
    rw [hid, factory, if_neg Nat.one_ne_zero, if_pos rfl]
  | file =>
    have hk : KindSettled w id (some "file") := h
    rw [factory, if_neg hk.not_source, if_neg hk.not_sink, hk.kind_eq, render, if_pos rfl]
  | node kind params =>
    obtain ⟨hk, hne, hp, -⟩ := h
    rw [factory, if_neg hk.not_source, if_neg hk.not_sink, hk.kind_eq, hp, render, if_neg hne]

/-- The registries change only where a call has announced it, and no call announces
anything new. -/
structure Quiet (w w' : World) : Prop where
  kinds : ∀ id, ¬PendingKind w.calls id → w'.kinds id = w.kinds id
  params : ∀ id, ¬PendingParams w.calls id → w'.params id = w.params id
  pendingKind : ∀ id, PendingKind w'.calls id → PendingKind w.calls id
  pendingParams : ∀ id, PendingParams w'.calls id → PendingParams w.calls id

theorem KindSettled.quiet {w w' : World} {id : NodeId} {kind : Option String}
    (h : KindSettled w id kind) (hq : Quiet w w') : KindSettled w' id kind :=
  ⟨h.not_source, h.not_sink, (hq.kinds id h.not_pending).trans h.kind_eq,
    fun hp => h.not_pending (hq.pendingKind id hp)⟩

theorem Settled.quiet {w w' : World} {id : NodeId} {b : Built} (h : Settled w id b)
    (hq : Quiet w w') : Settled w' id b := by
  cases b with
  | bridgeSource => exact h
  | bridgeSink => exact h
  | file => exact KindSettled.quiet h hq
  | node kind params =>
    obtain ⟨hk, hne, hp, hpend⟩ := h
    exact ⟨hk.quiet hq, hne, (hq.params id hpend).trans hp,
      fun hc => hpend (hq.pendingParams id hc)⟩

/-- One call moves on: a call of which something holds now is another one, or it is this one. -/
theorem exists_call_of_update {P : Create → Prop} {calls : ℕ → Option Create} {t : ℕ}
    {c' : Option Create} (hself : ∀ c, c' = some c → P c → ∃ t c, calls t = some c ∧ P c)
    (h : ∃ t' c, Function.update calls t c' t' = some c ∧ P c) : ∃ t c, calls t = some c ∧ P c := by
  obtain ⟨t', c, hc, hp⟩ := h
  by_cases ht : t' = t
  · rw [ht, Function.update_self] at hc
    exact hself c hc hp
  · rw [Function.update_of_ne ht] at hc
    exact ⟨t', c, hc, hp⟩

/-! ### The invariant -/

/-- The nodes a rebuild has rendered and those it is still to render are those of its
topology. -/
def Shape (th : Thread) : Prop :=
  match th.phase with
  | .building todo _ => th.done.map Prod.fst ++ todo.map NodeSnapshot.id = th.topology.ids
  | .idle => th.done.map Prod.fst = th.topology.ids
  | _ => True

/-- What a rebuild has read is up to date. -/
def Fresh (w : World) : Prop :=
  match w.thread.phase with
  | .building todo kindRead =>
      w.thread.topology = w.engine.snapshot ∧ (∀ p ∈ w.thread.done, Settled w p.1 p.2) ∧
        ∀ kind, kindRead = some kind → kind ≠ some "file" ∧
          ∃ n rest, todo = n :: rest ∧ KindSettled w n.id kind
  | .idle =>
      w.thread.topology = w.engine.snapshot ∧ ∀ p ∈ w.thread.done, Settled w p.1 p.2
  | _ => True

/-- **The invariant**: what the current or the last rebuild has read is up to date, or else
there is something to receive. The ids of created nodes are above the gateway's. -/
structure Inv (w : World) : Prop where
  cursor_le : w.thread.cursor ≤ w.engine.tx.sent.length
  shape : Shape w.thread
  fresh : w.engine.tx.Drained w.thread.cursor → Fresh w
  seeded : ∃ id ∈ w.engine.snapshot.ids, 1 ≤ id
  chosen : ∀ t spec kind id, w.calls t = some ⟨spec, kind, .chosen id⟩ → 2 ≤ id
  created : ∀ id ∈ w.created, 2 ≤ id

theorem Fresh.quiet {w w' : World} (h : Fresh w) (hq : Quiet w w')
    (hthread : w'.thread = w.thread) (hsnap : w'.engine.snapshot = w.engine.snapshot) :
    Fresh w' := by
  rw [Fresh] at h ⊢
  rw [hthread, hsnap]
  rcases hph : w.thread.phase with _ | _ | ⟨todo, kindRead⟩ | _
  · trivial
  · trivial
  · rw [hph] at h
    obtain ⟨ht, hdone, hkind⟩ := h
    refine ⟨ht, fun p hp => (hdone p hp).quiet hq, fun kind hk => ?_⟩
    obtain ⟨hne, n, rest, htodo, hset⟩ := hkind kind hk
    exact ⟨hne, n, rest, htodo, hset.quiet hq⟩
  · rw [hph] at h
    exact ⟨h.1, fun p hp => (h.2 p hp).quiet hq⟩

/-- The id that the next call chooses is above the gateway's. -/
theorem two_le_newId {t : TopologySnapshot} (h : ∃ id ∈ t.ids, 1 ≤ id) : 2 ≤ newId t := by
  obtain ⟨id, hid, hpos⟩ := h
  have hmax : 1 ≤ t.ids.max?.getD 0 := by
    rcases hm : t.ids.max? with _ | m
    · rw [List.max?_eq_none_iff] at hm
      rw [hm] at hid
      exact absurd hid List.not_mem_nil
    · exact hpos.trans ((List.max?_eq_some_iff.mp hm).2 id hid)
  have hbound : 2 ≤ usizeMax := by decide
  exact Nat.le_min.mpr ⟨Nat.succ_le_succ hmax, hbound⟩

/-- Where the chosen ids of a world with one call moved on come from. -/
theorem chosen_of_update {w : World} (h : Inv w) {t : ℕ} {c' : Option Create}
    (hself : ∀ c ∈ c', ∀ id, c.phase = .chosen id → 2 ≤ id) (t' : ℕ) (spec : NodeSpec)
    (kind : Option String) (id : NodeId)
    (hc : Function.update w.calls t c' t' = some ⟨spec, kind, .chosen id⟩) : 2 ≤ id := by
  by_cases ht : t' = t
  · rw [ht, Function.update_self] at hc
    exact hself _ hc id rfl
  · rw [Function.update_of_ne ht] at hc
    exact h.chosen t' spec kind id hc

/-- **A call that moves on and leaves the store alone** keeps the invariant, if it changes only
entries that were announced, announces none itself, and has chosen an id above the gateway's. -/
theorem Inv.move {w w' : World} (h : Inv w) {t : ℕ} {c' : Option Create}
    (hcalls : w'.calls = Function.update w.calls t c') (hthread : w'.thread = w.thread)
    (hengine : w'.engine = w.engine) (hcreated : w'.created = w.created)
    (hkinds : ∀ id, ¬PendingKind w.calls id → w'.kinds id = w.kinds id)
    (hparams : ∀ id, ¬PendingParams w.calls id → w'.params id = w.params id)
    (hkind : ∀ c ∈ c', ∀ id, c.kind ≠ none → c.phase.kindAhead = some id → PendingKind w.calls id)
    (hparam : ∀ c ∈ c', ∀ id, c.spec.params ≠ none → c.phase.paramsAhead = some id →
      PendingParams w.calls id)
    (hchosen : ∀ c ∈ c', ∀ id, c.phase = .chosen id → 2 ≤ id) : Inv w' := by
  have hq : Quiet w w' := by
    refine ⟨hkinds, hparams, fun id hp => ?_, fun id hp => ?_⟩
    · exact exists_call_of_update (fun c hc hp => hkind c hc id hp.1 hp.2) (hcalls ▸ hp)
    · exact exists_call_of_update (fun c hc hp => hparam c hc id hp.1 hp.2) (hcalls ▸ hp)
  refine ⟨?_, ?_, fun hd => ?_, ?_, ?_, ?_⟩
  · rw [hthread, hengine]
    exact h.cursor_le
  · rw [hthread]
    exact h.shape
  · rw [hthread, hengine] at hd
    exact (h.fresh hd).quiet hq hthread (by rw [hengine])
  · rw [hengine]
    exact h.seeded
  · rw [hcalls]
    exact chosen_of_update h hchosen
  · rw [hcreated]
    exact h.created

section Runs

variable [SnapshotApply] [LawfulSnapshotApply] {json : Codec Mutation}

/-- **Adding the node** keeps the invariant: either nothing has happened, or there is an event
to receive. -/
theorem Inv.addNode {w w' : World} (h : Inv w) {t : ℕ}
    {fault : Option (RaftEngine.PersistStep × String)}
    (hs : step json w (.addNode t fault) = some w') :
    Inv w' := by
  simp only [step] at hs
  split at hs
  · rename_i spec kind id hc
    have hid := h.chosen t spec kind id hc
    rcases RaftEngine.applyMutation_cases json w.engine (.addNode (nodeOf spec id)) fault with
      ⟨err, ha⟩ | ha
    · rw [ha] at hs
      obtain rfl := Option.some.inj hs
      exact h.move rfl rfl rfl rfl (fun _ _ => rfl) (fun _ _ => rfl) (by simp) (by simp) (by simp)
    · rw [ha] at hs
      obtain rfl := Option.some.inj hs
      refine ⟨Broadcast.le_length_send h.cursor_le _, h.shape, fun hd => ?_, ?_,
        chosen_of_update h (by simp), ?_⟩
      · exact absurd hd (Broadcast.not_drained_send h.cursor_le _)
      · obtain ⟨i, hi, hpos⟩ := h.seeded
        refine ⟨i, ?_, hpos⟩
        change i ∈ (w.engine.snapshot.apply _).ids
        rw [apply_addNode]
        exact TopologySnapshot.mem_ids_upsertNode hi
      · intro id' hid'
        rcases List.mem_append.mp hid' with hid' | hid'
        · exact h.created id' hid'
        · rw [List.mem_singleton.mp hid']
          exact hid
  · simp at hs

omit [LawfulSnapshotApply] in
/-- **Inserting the kind** changes an entry that was announced. -/
theorem Inv.insertKind {w w' : World} (h : Inv w) {t : ℕ}
    (hs : step json w (.insertKind t) = some w') : Inv w' := by
  simp only [step] at hs
  split at hs
  · rename_i spec kind id hc
    obtain rfl := Option.some.inj hs
    refine h.move rfl rfl rfl rfl (fun id' hn => ?_) (fun _ _ => rfl)
      (by simp [CreatePhase.kindAhead]) ?_ (by simp)
    · change w.kinds.insertSome id kind id' = w.kinds id'
      by_cases hid : id' = id
      · -- only a call that records no kind can be here
        have hnone : kind = none := by
          by_contra hk
          exact hn ⟨t, _, hc, hk, by rw [hid]; rfl⟩
        rw [hnone]
        rfl
      · exact Registry.insertSome_of_ne _ _ hid
    · rintro c ⟨⟩ id' hp hahead
      exact ⟨t, _, hc, hp, hahead⟩
  · simp at hs

omit [LawfulSnapshotApply] in
/-- **Inserting the parameters** likewise. -/
theorem Inv.insertParams {w w' : World} (h : Inv w) {t : ℕ}
    (hs : step json w (.insertParams t) = some w') : Inv w' := by
  simp only [step] at hs
  split at hs
  · rename_i spec kind id hc
    obtain rfl := Option.some.inj hs
    refine h.move rfl rfl rfl rfl (fun _ _ => rfl) (fun id' hn => ?_) (by simp) (by simp) (by simp)
    change w.params.insertSome id spec.params id' = w.params id'
    by_cases hid : id' = id
    · have hnone : spec.params = none := by
        by_contra hk
        exact hn ⟨t, _, hc, hk, by rw [hid]; rfl⟩
      rw [hnone]
      rfl
    · exact Registry.insertSome_of_ne _ _ hid
  · simp at hs

/-- **Every step of a call keeps the invariant.** -/
theorem Inv.step_call {w w' : World} (h : Inv w) {a : Action} {t : ℕ}
    (ha : (∃ spec, a = .createNode t spec) ∨ a = .readTopology t ∨ (∃ fault, a = .addNode t fault) ∨
      a = .insertLabel t ∨ a = .insertKind t ∨ a = .insertParams t)
    (hs : step json w a = some w') : Inv w' := by
  rcases ha with ⟨spec, rfl⟩ | rfl | ⟨fault, rfl⟩ | rfl | rfl | rfl
  · simp only [step] at hs
    split at hs
    · simp at hs
    · split at hs
      · obtain rfl := Option.some.inj hs
        exact h
      · split at hs
        · obtain rfl := Option.some.inj hs
          exact h
        · obtain rfl := Option.some.inj hs
          exact h.move rfl rfl rfl rfl (fun _ _ => rfl) (fun _ _ => rfl)
            (by simp [CreatePhase.kindAhead]) (by simp [CreatePhase.paramsAhead]) (by simp)
  · simp only [step] at hs
    split at hs
    · obtain rfl := Option.some.inj hs
      refine h.move rfl rfl rfl rfl (fun _ _ => rfl) (fun _ _ => rfl)
        (by simp [CreatePhase.kindAhead]) (by simp [CreatePhase.paramsAhead]) ?_
      rintro c ⟨⟩ id ⟨⟩
      exact two_le_newId h.seeded
    · simp at hs
  · exact h.addNode hs
  · simp only [step] at hs
    split at hs
    · rename_i spec kind id hc
      obtain rfl := Option.some.inj hs
      refine h.move rfl rfl rfl rfl (fun _ _ => rfl) (fun _ _ => rfl) ?_ ?_ (by simp)
      · rintro c ⟨⟩ id' hk hahead
        exact ⟨t, _, hc, hk, hahead⟩
      · rintro c ⟨⟩ id' hp hahead
        exact ⟨t, _, hc, hp, hahead⟩
    · simp at hs
  · exact h.insertKind hs
  · exact h.insertParams hs

omit [SnapshotApply] [LawfulSnapshotApply] in
/-- A step of the rebuild thread touches no registry and no call. -/
theorem quiet_thread (w : World) (th : Thread) : Quiet w { w with thread := th } :=
  ⟨fun _ _ => rfl, fun _ _ => rfl, fun _ h => h, fun _ h => h⟩

omit [SnapshotApply] [LawfulSnapshotApply] in
/-- **Rendering one node** keeps the invariant if the node is settled. -/
theorem Inv.push {w : World} (h : Inv w) {n : NodeSnapshot} {todo : List NodeSnapshot}
    {kindRead : Option (Option String)} (hph : w.thread.phase = .building (n :: todo) kindRead)
    {b : Built} (hb : w.engine.tx.Drained w.thread.cursor → Settled w n.id b) :
    Inv (w.push n.id b todo) := by
  refine ⟨h.cursor_le, ?_, fun hd => ?_, h.seeded, h.chosen, h.created⟩
  · have hshape := h.shape
    rw [Shape, hph] at hshape
    change (w.thread.done ++ [(n.id, b)]).map Prod.fst ++ todo.map NodeSnapshot.id = _
    rw [List.map_append, List.append_assoc]
    exact hshape
  · have hfresh := h.fresh hd
    rw [Fresh, hph] at hfresh
    obtain ⟨ht, hdone, -⟩ := hfresh
    refine ⟨ht, fun p hp => ?_, fun kind hk => absurd hk (by simp)⟩
    rcases List.mem_append.mp hp with hp | hp
    · exact (hdone p hp).quiet (quiet_thread w _)
    · rw [List.mem_singleton.mp hp]
      exact (hb hd).quiet (quiet_thread w _)

omit [LawfulSnapshotApply] in
/-- **A step of a build** keeps the invariant, as long as no entry is read too early. -/
theorem Inv.build {w w' : World} (h : Inv w) (hcond : ReadsSettled w .build)
    (hs : step json w .build = some w') : Inv w' := by
  simp only [step] at hs
  rw [ReadsSettled] at hcond
  split at hs
  · -- every node is rendered
    rename_i kindRead hph
    obtain rfl := Option.some.inj hs
    refine ⟨h.cursor_le, ?_, fun hd => ?_, h.seeded, h.chosen, h.created⟩
    · have hshape := h.shape
      rw [Shape, hph] at hshape
      change w.thread.done.map Prod.fst = _
      simpa using hshape
    · have hfresh := h.fresh hd
      rw [Fresh, hph] at hfresh
      exact ⟨hfresh.1, fun p hp => (hfresh.2.1 p hp).quiet (quiet_thread w _)⟩
  · -- the kind of the next node, unless it is the gateway's
    rename_i n todo hph
    rw [hph] at hcond
    split at hs
    · rename_i h0
      obtain rfl := Option.some.inj hs
      exact h.push hph fun _ => h0
    · rename_i h0
      split at hs
      · rename_i h1
        obtain rfl := Option.some.inj hs
        exact h.push hph fun _ => h1
      · rename_i h1
        have hnot := hcond h0 h1
        split at hs
        · rename_i hfile
          obtain rfl := Option.some.inj hs
          exact h.push hph fun _ => ⟨h0, h1, hfile, hnot⟩
        · rename_i hfile
          obtain rfl := Option.some.inj hs
          refine ⟨h.cursor_le, ?_, fun hd => ?_, h.seeded, h.chosen, h.created⟩
          · have hshape := h.shape
            rw [Shape, hph] at hshape
            exact hshape
          · have hfresh := h.fresh hd
            rw [Fresh, hph] at hfresh
            refine ⟨hfresh.1, fun p hp => (hfresh.2.1 p hp).quiet (quiet_thread w _), ?_⟩
            intro kind hk
            obtain rfl := Option.some.inj hk
            exact ⟨hfile, n, todo, rfl, h0, h1, rfl, hnot⟩
  · -- the parameters of the node whose kind has been read
    rename_i n todo kind hph
    rw [hph] at hcond
    obtain rfl := Option.some.inj hs
    refine h.push hph fun hd => ?_
    have hfresh := h.fresh hd
    rw [Fresh, hph] at hfresh
    obtain ⟨hne, n', rest, htodo, hset⟩ := hfresh.2.2 kind rfl
    obtain ⟨rfl, -⟩ := List.cons.inj htodo
    exact ⟨hset, hne, rfl, hcond⟩
  · simp at hs

omit [SnapshotApply] [LawfulSnapshotApply] in
/-- A thread that is about to read the topology has read nothing that could be out of date. -/
theorem Inv.rebuilding {w : World} (h : Inv w) {th : Thread} (hph : th.phase = .rebuilding)
    (hcur : th.cursor ≤ w.engine.tx.sent.length) : Inv { w with thread := th } := by
  refine ⟨hcur, ?_, fun _ => ?_, h.seeded, h.chosen, h.created⟩
  · rw [Shape, hph]
    trivial
  · rw [Fresh, hph]
    trivial

/-- **Every step keeps the invariant**, as long as no entry is read too early. -/
theorem Inv.step {w w' : World} (h : Inv w) {a : Action} (hcond : ReadsSettled w a)
    (hs : step json w a = some w') : Inv w' := by
  cases a with
  | createNode t spec => exact h.step_call (t := t) (Or.inl ⟨spec, rfl⟩) hs
  | readTopology t => exact h.step_call (t := t) (by simp) hs
  | addNode t fault => exact h.step_call (t := t) (by simp) hs
  | insertLabel t => exact h.step_call (t := t) (by simp) hs
  | insertKind t => exact h.step_call (t := t) (by simp) hs
  | insertParams t => exact h.step_call (t := t) (by simp) hs
  | subscribe =>
    simp only [CreateRace.step] at hs
    split at hs
    · obtain rfl := Option.some.inj hs
      exact h.rebuilding rfl (le_refl _)
    · simp at hs
  | getTopology =>
    simp only [CreateRace.step] at hs
    split at hs
    · obtain rfl := Option.some.inj hs
      refine ⟨h.cursor_le, rfl, fun _ => ?_, h.seeded, h.chosen, h.created⟩
      exact ⟨rfl, fun p hp => absurd hp List.not_mem_nil, fun kind hk => absurd hk (by simp)⟩
    · simp at hs
  | build => exact h.build hcond hs
  | tryRecv =>
    have hcur : (w.engine.tx.tryRecv channelCapacity w.thread.cursor).2 ≤
        w.engine.tx.sent.length := Broadcast.le_length_tryRecv h.cursor_le
    simp only [CreateRace.step] at hs
    split at hs
    · split at hs
      · obtain rfl := Option.some.inj hs
        exact h
      · rename_i hr
        rw [hr] at hcur
        obtain rfl := Option.some.inj hs
        exact h.rebuilding rfl hcur
      · rename_i hr
        rw [hr] at hcur
        obtain rfl := Option.some.inj hs
        exact h.rebuilding rfl hcur
    · simp at hs

omit [SnapshotApply] [LawfulSnapshotApply] in
theorem inv_start {engine : RaftEngine.EngineState} (h : ∃ id ∈ engine.snapshot.ids, 1 ≤ id)
    (labels kinds : Registry String) (params : Registry NodeParams) :
    Inv (start engine labels kinds params) :=
  ⟨Nat.zero_le _, trivial, fun _ => trivial, h, fun _ _ _ _ hc => absurd hc (by simp [start]),
    fun _ hc => absurd hc List.not_mem_nil⟩

omit [SnapshotApply] [LawfulSnapshotApply] in
/-- At rest, the invariant is the property. -/
theorem Inv.renderedAsRecorded {w : World} (h : Inv w) (hq : Quiescent w) :
    RenderedAsRecorded w := by
  have hdrained : w.engine.tx.Drained w.thread.cursor :=
    (Broadcast.tryRecv_eq_empty h.cursor_le (Prod.ext hq.empty rfl)).2
  have hshape := h.shape
  have hfresh := h.fresh hdrained
  rw [Shape, hq.idle] at hshape
  rw [Fresh, hq.idle] at hfresh
  obtain ⟨htop, hsettled⟩ := hfresh
  constructor
  · -- the ids are those of the topology, and each is rendered as the factory renders it
    have hdone : w.thread.done =
        (w.thread.done.map Prod.fst).map fun id => (id, factory w.kinds w.params id) := by
      rw [List.map_map]
      refine (List.map_id _).symm.trans (List.map_congr_left fun p hp => ?_)
      exact Prod.ext rfl (hsettled p hp).eq_factory
    rw [hdone, hshape, htop, TopologySnapshot.ids, List.map_map]
    rfl
  · intro id hid
    have htwo := h.created id hid
    have h0 : id ≠ 0 := Nat.ne_of_gt (Nat.lt_of_lt_of_le Nat.two_pos htwo)
    have h1 : id ≠ 1 := Nat.ne_of_gt htwo
    rw [factory, if_neg h0, if_neg h1]

variable (json)

/-- **Nodes are rendered as recorded when no entry is read too early.** In every interleaving of
any number of `create_node` calls with the rebuild thread, on a server whose topology has a node
as high as the gateway's sink: if the rebuild thread never reads a kind or parameters that a call
which has added the node is still to insert, then in every state in which all calls have returned
and every event has been consumed, the last rebuild rendered every node of the topology from the
kind and the parameters recorded for it. -/
theorem rendered_as_recorded {engine : RaftEngine.EngineState}
    (hseed : ∃ id ∈ engine.snapshot.ids, 1 ≤ id)
    {labels kinds : Registry String} {params : Registry NodeParams} {as : List Action} {w : World}
    (hmeets : Transition.Meets (step json) ReadsSettled (start engine labels kinds params) as)
    (hrun : Transition.run (step json) (start engine labels kinds params) as = some w)
    (hq : Quiescent w) : RenderedAsRecorded w :=
  Inv.renderedAsRecorded
    (Transition.invariant_of_meets (fun _ _ _ h hc hs => Inv.step h hc hs)
      (inv_start hseed labels kinds params) hmeets hrun) hq

end Runs

/-! ### The two orders -/

/-- A store with the gateway's source and sink, here with mono ports and no link between them. -/
def bridgeEngine : RaftEngine.EngineState :=
  ⟨⟨[⟨0, [], buildPorts 1 .output⟩, ⟨1, buildPorts 1 .input, []⟩], []⟩, 0, Table.empty,
    Broadcast.channel⟩

/-- A new server, with nothing recorded. -/
def seededServer : World := start bridgeEngine Registry.empty Registry.empty Registry.empty

/-- A request for a gain with parameters. -/
def gainSpec : NodeSpec := ⟨"gain", 1, 1, some "gain", some (.gain ⟨0⟩)⟩

/-- The initial rebuild, and a call up to its event. -/
def untilEvent : List Action :=
  [.subscribe, .getTopology, .build, .build, .build, .createNode 0 gainSpec, .readTopology 0,
    .addNode 0 none]

/-- The rest of the call. -/
def recordEntries : List Action := [.insertLabel 0, .insertKind 0, .insertParams 0]

/-- The rebuild that the event brings about: three nodes, the last with two reads. -/
def rebuildAfterEvent : List Action :=
  [.tryRecv, .getTopology, .build, .build, .build, .build, .build]

/-- With no call running, nothing is pending. -/
theorem not_pending_of_none {calls : ℕ → Option Create} (h : ∀ t, calls t = none) (id : NodeId) :
    ¬PendingKind calls id ∧ ¬PendingParams calls id := by
  constructor
  · rintro ⟨t, c, hc, -⟩
    exact absurd (hc.symm.trans (h t)) (by simp)
  · rintro ⟨t, c, hc, -⟩
    exact absurd (hc.symm.trans (h t)) (by simp)

theorem meets_inOrder :
    letI := SnapshotApply.documented
    Transition.Meets (step Mutation.format.toCodec) ReadsSettled seededServer
      (untilEvent ++ recordEntries ++ rebuildAfterEvent) := by
  let := SnapshotApply.documented
  -- the initial rebuild, and the call
  refine Transition.meets_cons trivial rfl (Transition.meets_cons trivial rfl ?_)
  refine Transition.meets_cons (fun h => absurd rfl h) rfl ?_
  refine Transition.meets_cons (fun _ h => absurd rfl h) rfl ?_
  refine Transition.meets_cons trivial rfl ?_
  refine Transition.meets_cons trivial rfl (Transition.meets_cons trivial rfl ?_)
  refine Transition.meets_cons trivial rfl (Transition.meets_cons trivial rfl ?_)
  refine Transition.meets_cons trivial rfl (Transition.meets_cons trivial rfl ?_)
  -- the rebuild
  refine Transition.meets_cons trivial rfl (Transition.meets_cons trivial rfl ?_)
  refine Transition.meets_cons (fun h => absurd rfl h) rfl ?_
  refine Transition.meets_cons (fun _ h => absurd rfl h) rfl ?_
  refine Transition.meets_cons (fun _ _ => (not_pending_of_none ?_ 2).1) rfl ?_
  · intro t
    cases t <;> rfl
  refine Transition.meets_cons (not_pending_of_none ?_ 2).2 rfl ?_
  · intro t
    cases t <;> rfl
  exact Transition.meets_cons trivial rfl trivial

theorem quiescent_inOrder :
    letI := SnapshotApply.documented
    ∃ w, Transition.run (step Mutation.format.toCodec) seededServer
        (untilEvent ++ recordEntries ++ rebuildAfterEvent) = some w ∧ Quiescent w :=
  letI := SnapshotApply.documented
  ⟨_, rfl, fun t => by cases t <;> rfl, rfl, rfl⟩

theorem rendered_as_recorded_inOrder :
    letI := SnapshotApply.documented
    ∃ w, Transition.run (step Mutation.format.toCodec) seededServer
        (untilEvent ++ recordEntries ++ rebuildAfterEvent) = some w ∧
      Quiescent w ∧ RenderedAsRecorded w := by
  let := SnapshotApply.documented
  have := SnapshotApply.lawful_documented
  obtain ⟨w, hrun, hq⟩ := quiescent_inOrder
  exact ⟨w, hrun, hq, rendered_as_recorded _ (by decide) meets_inOrder hrun hq⟩

/-- **A node can be rendered before its kind and parameters are recorded**, and stay so: the
rebuild that the event brings about runs before the call goes on, and then everything is at rest
with the node rendered from nothing. -/
theorem rendered_before_recorded :
    letI := SnapshotApply.documented
    ∃ w, Transition.run (step Mutation.format.toCodec) seededServer
        (untilEvent ++ rebuildAfterEvent ++ recordEntries) = some w ∧
      Quiescent w ∧ (2, Built.node none none) ∈ w.thread.done ∧
      w.kinds 2 = some "gain" ∧ w.params 2 = some (.gain ⟨0⟩) ∧ ¬RenderedAsRecorded w := by
  let := SnapshotApply.documented
  refine ⟨_, rfl, ⟨fun t => by cases t <;> rfl, rfl, rfl⟩, by decide, rfl, rfl, fun h => ?_⟩
  exact absurd h.1 (by decide)

end CreateRace

end SonicBrew
