import SonicBrew.ControlApi.RoundTrip
import SonicBrew.Server.Factory

/-!
# Nodes are rendered as they were created

`create_node` takes one more than the largest id there is, and the factory takes ids `0` and `1`
for the bridge. As long as the bridge is there this is no conflict. But its nodes can be deleted
like any others, and once no id above `0` is left the next node gets id `1`: it is listed with its
own kind and parameters, and rendered as the sink of the bridge
(`SonicBrew.Server.created_as_sink`).

The edits of a run are tracked with the requests that the nodes were created with
(`SonicBrew.Server.Tracked`). If every node is created while there is an id above `0`, each node is
rendered from the kind and the parameters of its request (`SonicBrew.Server.rendered_as_created`).
-/

namespace SonicBrew

namespace Server

open GraphController

/-- The source of the bridge, as an empty store is seeded with it. -/
def sourceNode : NodeSnapshot := ⟨0, [], [⟨.output, channels, .f32⟩]⟩

/-- The sink of the bridge. -/
def sinkNode : NodeSnapshot := ⟨1, [⟨.input, channels, .f32⟩], []⟩

/-- The topology that an empty store is seeded with: source, sink, and the link between them. -/
def seeded : TopologySnapshot := ⟨[sourceNode, sinkNode], [⟨(0, 0), (1, 0)⟩]⟩

theorem seeded_le : ∀ id ∈ seeded.ids, id ≤ 1 := by decide

/-- The mutations that seed it. -/
def seedBridge : List Mutation :=
  [.addNode sourceNode, .addNode sinkNode, .addLink ⟨(0, 0), (1, 0)⟩]

/-- A controller, and the request that each node was created with. -/
structure Tracked (S : Type) where
  ctrl : GraphController S
  created : Registry NodeSpec

/-- What an edit and its answer say about the requests behind the nodes. -/
def note (created : Registry NodeSpec) :
    Edit → Except ControlError (Option ℕ) → Registry NodeSpec
  | .createNode spec, .ok (some id) => created.insert id spec
  | .deleteNode id, .ok _ => created.remove id
  | _, _ => created

section Runs

variable [SnapshotApply] {S F : Type} (ss : SessionStore S F)

/-- One edit, with what befalls its store call. -/
def step (w : Tracked S) (e : Edit × F) : Option (Tracked S) :=
  let (r, ctrl) := w.ctrl.exec ss e.1 e.2
  some ⟨ctrl, note w.created e.1 r⟩

/-- The factory over a controller's registries. -/
def factoryOf (c : GraphController S) (files : Registry FileBuffer) : EngineServerFactory :=
  ⟨c.kinds, c.params, files⟩

/-- **Every node is rendered as it was created**: from the kind and the parameters of its request,
unless it is a file. -/
def RenderedAsCreated (files : Registry FileBuffer) (w : Tracked S) : Prop :=
  ∀ id ∈ (w.ctrl.topology ss).ids, ∀ spec, w.created id = some spec →
    ∀ kind, checkKind spec = .ok kind → kind ≠ some "file" →
      ∀ {Fr : Type} (gw : Bridge.Gateway Fr), ((factoryOf w.ctrl files).build id gw).1 =
        some (.plain (.other (renderNode kind spec.params sampleRate channels)))

/-- **A node is created while there is an id above `0`.** -/
def CreatesAboveZero (w : Tracked S) (e : Edit × F) : Prop :=
  match e.1 with
  | .createNode _ => ∃ id ∈ (w.ctrl.topology ss).ids, 1 ≤ id
  | _ => True

instance (w : Tracked S) (e : Edit × F) : Decidable (CreatesAboveZero ss w e) :=
  match e with
  | (.createNode _, _) => inferInstanceAs (Decidable (∃ id ∈ (w.ctrl.topology ss).ids, 1 ≤ id))
  | (.link _ _, _) => isTrue trivial
  | (.linkPorts _ _ _ _, _) => isTrue trivial
  | (.deleteNode _, _) => isTrue trivial
  | (.deleteLink _, _) => isTrue trivial

/-- **The invariant**: the registries have entries for nodes only, and for a node that was created
what its request says; its id is not the bridge's. -/
structure CreatedInv (w : Tracked S) : Prop where
  keys : KeysWithin ss w.ctrl
  entries : ∀ id spec, w.created id = some spec → checkKind spec = .ok (w.ctrl.kinds id) ∧
    w.ctrl.params id = spec.params ∧ 2 ≤ id

variable {ss}

theorem step_eq (w : Tracked S) (edit : Edit) (fault : F) :
    step ss w (edit, fault) =
      some ⟨(w.ctrl.exec ss edit fault).2, note w.created edit (w.ctrl.exec ss edit fault).1⟩ := rfl

/-- Under an id that is not taken, the entries are the recorded ones: nothing of an earlier node
shows through. -/
theorem entries_record {c : GraphController S} (hkeys : KeysWithin ss c) {id : NodeId}
    (hfresh : id ∉ (c.topology ss).ids) {s : S} (label : String) (kind : Option String)
    (params : Option NodeParams) :
    ({ c with store := s }.record id label kind params).kinds id = kind ∧
      ({ c with store := s }.record id label kind params).params id = params := by
  have hkind : c.kinds id = none := not_not.mp fun hne => hfresh (hkeys.kinds id hne)
  have hparams : c.params id = none := not_not.mp fun hne => hfresh (hkeys.params id hne)
  constructor
  · change c.kinds.insertSome id kind id = kind
    rw [Registry.insertSome_self, hkind, Option.or_none]
  · change c.params.insertSome id params id = params
    rw [Registry.insertSome_self, hparams, Option.or_none]

variable [LawfulSnapshotApply]

variable (ss) in
/-- The edits that neither create nor delete a node leave the registries alone. -/
theorem registries_exec (c : GraphController S) {edit : Edit} (fault : F)
    (hcreate : ∀ spec, edit ≠ .createNode spec) (hdelete : ∀ id, edit ≠ .deleteNode id) :
    (c.exec ss edit fault).2.kinds = c.kinds ∧ (c.exec ss edit fault).2.params = c.params := by
  have hlink : ∀ src srcPort dst dstPort,
      (c.linkPorts ss src srcPort dst dstPort fault).2.kinds = c.kinds ∧
        (c.linkPorts ss src srcPort dst dstPort fault).2.params = c.params := by
    intro src srcPort dst dstPort
    rcases linkPorts_cases c src srcPort dst dstPort fault with ⟨e, h⟩ | ⟨s, -, h, -⟩
    · rw [h]
      exact ⟨rfl, rfl⟩
    · rw [h]
      exact ⟨rfl, rfl⟩
  cases edit with
  | createNode spec => exact absurd rfl (hcreate spec)
  | deleteNode id => exact absurd rfl (hdelete id)
  | link src dst => exact hlink src 0 dst 0
  | linkPorts src srcPort dst dstPort => exact hlink src srcPort dst dstPort
  | deleteLink id =>
    rcases deleteLink_cases c id fault with ⟨e, h⟩ | ⟨s, h, -⟩
    · rw [exec, h]
      exact ⟨rfl, rfl⟩
    · rw [exec, h]
      exact ⟨rfl, rfl⟩

/-- An edit raises the largest id by at most one. -/
theorem ids_le_exec {c : GraphController S} {m : ℕ} (hm : ∀ id ∈ (c.topology ss).ids, id ≤ m)
    (edit : Edit) (fault : F) :
    ∀ id ∈ ((c.exec ss edit fault).2.topology ss).ids, id ≤ m + 1 := by
  have hle : ∀ id ∈ (c.topology ss).ids, id ≤ m + 1 := fun id hid =>
    (hm id hid).trans (Nat.le_succ m)
  rcases exec_cases c edit fault with ⟨e, h⟩ | ⟨r, c', h, heffect⟩
  · rw [h]
    exact hle
  · rw [h]
    rcases heffect with ⟨spec, kind, s, -, rfl, ht⟩ | ⟨e, s, -, rfl, ht⟩ | ⟨i, s, rfl, ht⟩ |
      ⟨i, s, rfl, ht⟩
    · intro id hid
      have hid' : id ∈ (ss.getTopology s).ids := hid
      rw [ht, TopologySnapshot.mem_ids_apply_addNode] at hid'
      rcases hid' with hid' | hid'
      · rw [hid']
        exact newId_le hm
      · exact hle id hid'
    · intro id hid
      have hid' : id ∈ (ss.getTopology s).ids := hid
      rw [ht, apply_addLink] at hid'
      exact hle id hid'
    · intro id hid
      have hid' : id ∈ (ss.getTopology s).ids := hid
      rw [ht, TopologySnapshot.mem_ids_apply_removeNode] at hid'
      exact hle id hid'.1
    · intro id hid
      have hid' : id ∈ (ss.getTopology s).ids := hid
      rw [ht, apply_removeLink] at hid'
      exact hle id hid'

/-- **The rule for runs of edits that are not astronomically long**: what every edit keeps while the
largest id can be counted on holds at the end. An edit raises the largest id by at most one, so the
length of the run is all that is needed. -/
theorem invariant_belowMax {W A : Type} {step : W → A → Option W} {cond : W → A → Prop}
    (ctrl : W → GraphController S)
    (hexec : ∀ w a w', step w a = some w' →
      ∃ edit fault, ctrl w' = ((ctrl w).exec ss edit fault).2) {P : W → Prop}
    (hstep : ∀ w a w', P w → BelowMax ss (ctrl w) → cond w a → step w a = some w' → P w')
    {w w' : W} (h : P w) {m : ℕ} (hm : ∀ id ∈ ((ctrl w).topology ss).ids, id ≤ m) {as : List A}
    (hlength : m + as.length < usizeMax) (hmeets : Transition.Meets step cond w as)
    (hrun : Transition.run step w as = some w') : P w' := by
  let Q : ℕ → W → Prop := fun n w => P w ∧
    ∃ m : ℕ, (∀ id ∈ ((ctrl w).topology ss).ids, id ≤ m) ∧ m + n < usizeMax
  have hQ : Q 0 w' := by
    refine Transition.countdown (P := Q) (fun n w a w' hq hcond ha => ?_) ⟨h, m, hm, hlength⟩
      hmeets hrun
    obtain ⟨hp, m, hm, hroom⟩ := hq
    have hlt : m < usizeMax := by omega
    obtain ⟨edit, fault, hctrl⟩ := hexec w a w' ha
    refine ⟨hstep w a w' hp (fun id hid => (hm id hid).trans_lt hlt) hcond ha, m + 1, ?_, by omega⟩
    rw [hctrl]
    exact ids_le_exec hm edit fault
  exact hQ.1

omit [LawfulSnapshotApply] in
/-- **Creating a node** under an id that is neither taken nor the bridge's. -/
theorem CreatedInv.createNode {w : Tracked S} (h : CreatedInv ss w)
    (hmax : ∀ id ∈ (w.ctrl.topology ss).ids, id < usizeMax) (spec : NodeSpec) (fault : F)
    (habove : ∃ id ∈ (w.ctrl.topology ss).ids, 1 ≤ id) {w' : Tracked S}
    (hstep : step ss w (.createNode spec, fault) = some w') :
    ∀ id spec', w'.created id = some spec' → checkKind spec' = .ok (w'.ctrl.kinds id) ∧
      w'.ctrl.params id = spec'.params ∧ 2 ≤ id := by
  rcases createNode_cases w.ctrl spec fault with ⟨e, hc⟩ | ⟨kind, s, hkind, hc, -⟩
  · rw [step_eq, exec, hc] at hstep
    obtain rfl := Option.some.inj hstep
    exact h.entries
  · rw [step_eq, exec, hc] at hstep
    obtain rfl := Option.some.inj hstep
    intro id spec' hspec'
    change w.created.insert (newId (w.ctrl.topology ss)) spec id = some spec' at hspec'
    by_cases hid : id = newId (w.ctrl.topology ss)
    · subst hid
      rw [Registry.insert_self] at hspec'
      obtain rfl := Option.some.inj hspec'
      obtain ⟨hk, hp⟩ :=
        entries_record (s := s) h.keys (newId_notMem hmax) spec.label kind spec.params
      refine ⟨?_, hp, CreateRace.two_le_newId habove⟩
      rw [hk]
      exact hkind
    · rw [Registry.insert_of_ne _ _ hid] at hspec'
      change checkKind spec' = .ok (w.ctrl.kinds.insertSome (newId (w.ctrl.topology ss)) kind id) ∧
        w.ctrl.params.insertSome (newId (w.ctrl.topology ss)) spec.params id = spec'.params ∧ 2 ≤ id
      rw [Registry.insertSome_of_ne _ _ hid, Registry.insertSome_of_ne _ _ hid]
      exact h.entries id spec' hspec'

omit [LawfulSnapshotApply] in
/-- **Deleting a node** takes its request along with its entries. -/
theorem CreatedInv.deleteNode {w : Tracked S} (h : CreatedInv ss w) (i : NodeId) (fault : F)
    {w' : Tracked S} (hstep : step ss w (.deleteNode i, fault) = some w') :
    ∀ id spec, w'.created id = some spec → checkKind spec = .ok (w'.ctrl.kinds id) ∧
      w'.ctrl.params id = spec.params ∧ 2 ≤ id := by
  rcases deleteNode_cases w.ctrl i fault with ⟨e, hd⟩ | ⟨s, hd, -⟩
  · rw [step_eq, exec, hd] at hstep
    obtain rfl := Option.some.inj hstep
    exact h.entries
  · rw [step_eq, exec, hd] at hstep
    obtain rfl := Option.some.inj hstep
    intro id spec hspec
    change w.created.remove i id = some spec at hspec
    change checkKind spec = .ok (w.ctrl.kinds.remove i id) ∧
      w.ctrl.params.remove i id = spec.params ∧ 2 ≤ id
    by_cases hid : id = i
    · rw [hid, Registry.remove_self] at hspec
      cases hspec
    · rw [Registry.remove_of_ne _ hid] at hspec
      rw [Registry.remove_of_ne _ hid, Registry.remove_of_ne _ hid]
      exact h.entries id spec hspec

/-- **One edit keeps the invariant.** -/
theorem CreatedInv.step {w w' : Tracked S} (h : CreatedInv ss w)
    (hmax : ∀ id ∈ (w.ctrl.topology ss).ids, id < usizeMax) {e : Edit × F}
    (habove : CreatesAboveZero ss w e) (hstep : step ss w e = some w') : CreatedInv ss w' := by
  obtain ⟨edit, fault⟩ := e
  refine ⟨?_, ?_⟩
  · obtain rfl := Option.some.inj hstep
    exact h.keys.exec edit fault
  · -- all edits but these two leave both the registries and the requests as they are
    have hquiet : (∀ spec, edit ≠ .createNode spec) → (∀ id, edit ≠ .deleteNode id) →
        (∀ r, note w.created edit r = w.created) →
        ∀ id spec, w'.created id = some spec → checkKind spec = .ok (w'.ctrl.kinds id) ∧
          w'.ctrl.params id = spec.params ∧ 2 ≤ id := by
      intro hcreate hdelete hnote
      obtain ⟨hkinds, hparams⟩ := registries_exec ss w.ctrl fault hcreate hdelete
      obtain rfl := Option.some.inj hstep
      intro id spec hspec
      change note w.created edit _ id = some spec at hspec
      rw [hnote] at hspec
      change checkKind spec = .ok ((w.ctrl.exec ss edit fault).2.kinds id) ∧
        (w.ctrl.exec ss edit fault).2.params id = spec.params ∧ 2 ≤ id
      rw [hkinds, hparams]
      exact h.entries id spec hspec
    cases edit with
    | createNode spec => exact h.createNode hmax spec fault habove hstep
    | deleteNode i => exact h.deleteNode i fault hstep
    | link | linkPorts | deleteLink =>
      exact hquiet (fun _ he => nomatch he) (fun _ he => nomatch he) fun _ => rfl

omit [SnapshotApply] [LawfulSnapshotApply] in
/-- A node whose entries are those of its request is rendered from the request. -/
theorem build_of_entries {c : GraphController S} {files : Registry FileBuffer} {id : NodeId}
    {kind : Option String} {params : Option NodeParams} (hkind : c.kinds id = kind)
    (hparams : c.params id = params) (hid : 2 ≤ id) (hfile : kind ≠ some "file") {Fr : Type}
    (gw : Bridge.Gateway Fr) : ((factoryOf c files).build id gw).1 =
      some (.plain (.other (renderNode kind params sampleRate channels))) := by
  have hrender : (factoryOf c files).render id =
      EngineServerFactory.renderFrom (files id) (c.kinds id) (c.params id) := rfl
  rw [EngineServerFactory.build_of_two_le _ hid, hrender, hkind, hparams,
    EngineServerFactory.renderFrom, if_neg hfile]

/-- **Created nodes are rendered.** From the seeded topology, in every run of edits that is not
astronomically long and that creates nodes only while there is an id above `0`, whenever the run
stops every node that was created is rendered from its kind and parameters, and never as an end of
the bridge. -/
theorem rendered_as_created {s : S} (hs : ss.getTopology s = seeded) {edits : List (Edit × F)}
    (hlength : 1 + edits.length < usizeMax)
    (hmeets : Transition.Meets (step ss) (CreatesAboveZero ss) ⟨new s, Registry.empty⟩ edits)
    {w : Tracked S} (hrun : Transition.run (step ss) ⟨new s, Registry.empty⟩ edits = some w)
    (files : Registry FileBuffer) : RenderedAsCreated ss files w := by
  have hle : ∀ id ∈ ((new s).topology ss).ids, id ≤ 1 := fun id hid => seeded_le id (hs ▸ hid)
  have hinv : CreatedInv ss w := by
    refine invariant_belowMax Tracked.ctrl (fun w e w' hstep => ?_)
      (fun w e w' hinv hmax hcond hstep => hinv.step hmax hcond hstep) ?_ hle hlength hmeets hrun
    · obtain rfl := Option.some.inj hstep
      exact ⟨e.1, e.2, rfl⟩
    · exact ⟨keysWithin_new s, fun _ _ hspec => nomatch hspec⟩
  intro id _ spec hspec kind hkind hfile Fr gw
  obtain ⟨hentry, hparams, hid⟩ := hinv.entries id spec hspec
  exact build_of_entries (Except.ok.inj (hentry.symm.trans hkind)) hparams hid hfile gw

end Runs

/-- An engine that has been seeded. -/
def seededEngine : RaftEngine.EngineState :=
  letI := SnapshotApply.documented
  seedBridge.foldl (fun e m => (engineStore.applyMutation e m none).2) emptyEngine

/-- A bridge before the first build. -/
def freshGateway : Bridge.Gateway ℕ :=
  ⟨.new channels sampleRate numFrames, ⟨fun _ => [], 0⟩⟩

/-- A gain of a quarter. -/
def quarterSpec : NodeSpec := ⟨"quarter", 1, 1, some "gain", some (.gain ⟨0x3E800000⟩)⟩

/-- The sink is deleted, but the created node is still there when the next one comes. -/
def editsAbove : List (Edit × Option (RaftEngine.PersistStep × String)) :=
  [(.createNode quarterSpec, none), (.linkPorts 0 0 2 0, none), (.deleteNode 1, none),
    (.createNode ⟨"meter", 1, 1, some "meter", none⟩, none)]

theorem rendered_as_created_above :
    letI := SnapshotApply.documented
    ∃ w, Transition.run (step engineStore) ⟨new seededEngine, Registry.empty⟩ editsAbove = some w ∧
      w.created 2 = some quarterSpec ∧ RenderedAsCreated engineStore Registry.empty w := by
  let := SnapshotApply.documented
  have := SnapshotApply.lawful_documented
  refine ⟨_, rfl, rfl, rendered_as_created (s := seededEngine) rfl (by decide) (by decide)
    (show Transition.run (step engineStore) ⟨new seededEngine, Registry.empty⟩ editsAbove = some _
      from rfl) Registry.empty⟩

/-- The sink is deleted, and its id goes to the next node. -/
def editsReusing : List (Edit × Option (RaftEngine.PersistStep × String)) :=
  [(.deleteNode 1, none), (.createNode quarterSpec, none)]

/-- **A created node is rendered as the sink of the bridge.** -/
theorem created_as_sink :
    letI := SnapshotApply.documented
    ∃ w,
      Transition.run (step engineStore) ⟨new seededEngine, Registry.empty⟩ editsReusing = some w ∧
      1 ∈ (w.ctrl.topology engineStore).ids ∧ w.created 1 = some quarterSpec ∧
      w.ctrl.kinds 1 = some "gain" ∧
      ∀ gw : Bridge.Gateway ℕ,
        ((factoryOf w.ctrl Registry.empty).build 1 gw).1 = some gw.makeSinkNode.1 := by
  let := SnapshotApply.documented
  refine ⟨_, rfl, ?_, rfl, rfl, fun gw => rfl⟩
  decide

end Server

end SonicBrew
