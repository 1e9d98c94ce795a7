import Mathlib.Data.Prod.Lex
import SonicBrew.Server.Created

/-!
# Starting the server

`run_server_engine` opens the store, imports the preset that the last run has saved, if there is
one, seeds the topology if it is empty, adds a node for a file given on the command line, and only
then starts what works on the result: the rebuild task, the autosave thread and the control surface,
each with a controller of its own over the store and two shared registries. The labels are not
shared: every controller has its own.

The last step before the audio thread starts is to wait for the first graph, until
`(node_count, link_count)` is at least `(2, 1)`. The pair is compared lexicographically, so this
asks for three nodes or for two and a link; and a store in which the user has left less than that,
say by deleting the link of the bridge, makes the start fail for ever
(`SonicBrew.Server.boot_never_lands`). What it takes of the topology found in the store is
`SonicBrew.Server.boot_lands_iff`, and `SonicBrew.Server.start` is the start with the wait.
-/

namespace SonicBrew

/-- `GraphController::new_with_registries`: labels of its own, and registries that are shared. -/
def GraphController.newWithRegistries {S : Type} (s : S) (kinds : Registry String)
    (params : Registry NodeParams) : GraphController S :=
  ⟨s, Registry.empty, kinds, params⟩

namespace Server

open GraphController

/-! ### What is written to the store -/

/-- The id of the node for a file: one more than the largest, or behind the bridge. -/
def fileId (t : TopologySnapshot) : NodeId :=
  if t.nodes.isEmpty then 2
  else match t.ids.max? with
    | none => 0
    | some m => (m + 1) % (usizeMax + 1)

/-- The node for a file. -/
def fileNode (id : NodeId) (buf : FileBuffer) : NodeSnapshot :=
  ⟨id, [], [⟨.output, buf.channels, .f32⟩]⟩

/-- The node for the file that was loaded, if there is one. -/
def fileNodes (t : TopologySnapshot) (loaded : Option FileBuffer) : List NodeSnapshot :=
  (loaded.map (fileNode (fileId t))).toList

/-- The link an empty topology is seeded with: from the file if it has the channels of the graph,
else from the source. -/
def seedLink (t : TopologySnapshot) (loaded : Option FileBuffer) : SnapshotEdge :=
  if loaded.any fun buf => buf.channels = channels then ⟨(fileId t, 0), (1, 0)⟩
  else ⟨(0, 0), (1, 0)⟩

/-- The mutations of the start, for the topology found in the store. -/
def seedMutations (t : TopologySnapshot) (loaded : Option FileBuffer) : List Mutation :=
  if t.nodes.isEmpty then
    .addNode sourceNode :: .addNode sinkNode :: (fileNodes t loaded).map Mutation.addNode ++
      [.addLink (seedLink t loaded)]
  else (fileNodes t loaded).map Mutation.addNode

section Boot

variable [SnapshotApply] {S F : Type} (ss : SessionStore S F)

/-- Store calls one after the other, up to the first that fails. -/
def applyMutations (s : S) (fault : ℕ → F) : List Mutation → Except StoreError Unit × S
  | [] => (.ok (), s)
  | m :: ms =>
      match ss.applyMutation s m (fault 0) with
      | (.error e, s) => (.error e, s)
      | (.ok _, s) => applyMutations s (fun i => fault (i + 1)) ms

/-- The controller that the preset is imported with. If the import fails the start goes on with what
has been imported. -/
def restore (s : S) (preset : Option Preset) (faults : ImportFaults F) : GraphController S :=
  match preset with
  | none => new s
  | some p => ((new s).importPreset ss p faults).2

/-- What befalls the store calls of a start. -/
structure BootFaults (F : Type) where
  restore : ImportFaults F
  seed : ℕ → F

/-- A server: the controller of its control surface, and the files of the factory. -/
structure State (S : Type) where
  ctrl : GraphController S
  files : Registry FileBuffer

/-- **The start of the server, up to the wait for the first graph**, on an opened store. -/
def boot (s : S) (preset : Option Preset) (loaded : Option FileBuffer) (faults : BootFaults F) :
    Except StoreError Unit × State S :=
  let ctrl := restore ss s preset faults.restore
  let t := ctrl.topology ss
  match applyMutations ss ctrl.store faults.seed (seedMutations t loaded) with
  | (.error e, s) => (.error e, ⟨newWithRegistries s ctrl.kinds ctrl.params, Registry.empty⟩)
  | (.ok _, s) =>
      match loaded with
      | none => (.ok (), ⟨newWithRegistries s ctrl.kinds ctrl.params, Registry.empty⟩)
      | some buf =>
          (.ok (), ⟨newWithRegistries s (ctrl.kinds.insert (fileId t) "file") ctrl.params,
            Registry.empty.insert (fileId t) buf⟩)

variable {ss}

/-- Calls that all go through apply their mutations. -/
theorem applyMutations_ok {s s' : S} {fault : ℕ → F} {ms : List Mutation}
    (h : applyMutations ss s fault ms = (.ok (), s')) :
    ss.getTopology s' = (ss.getTopology s).applyAll ms := by
  induction ms generalizing s fault with
  | nil =>
    obtain ⟨-, rfl⟩ := Prod.mk.inj h
    rfl
  | cons m ms ih =>
    rw [applyMutations] at h
    rcases ss.applyMutation_cases s m (fault 0) with ⟨e, hm⟩ | ⟨id, s₁, hm, ht⟩
    · rw [hm] at h
      cases (Prod.mk.inj h).1
    · rw [hm] at h
      rw [ih h, ht]
      rfl

/-- A start writes to the store what its mutations say, also when it fails. -/
theorem store_boot (s : S) (preset : Option Preset) (loaded : Option FileBuffer)
    (faults : BootFaults F) : (boot ss s preset loaded faults).2.ctrl.store =
      (applyMutations ss (restore ss s preset faults.restore).store faults.seed
        (seedMutations ((restore ss s preset faults.restore).topology ss) loaded)).2 := by
  rw [boot]
  rcases applyMutations ss (restore ss s preset faults.restore).store faults.seed
    (seedMutations ((restore ss s preset faults.restore).topology ss) loaded) with ⟨_ | _, s₁⟩
  · rfl
  · cases loaded with
    | none => rfl
    | some buf => rfl

/-- **What a start that goes through leaves.** -/
theorem boot_ok {s : S} {preset : Option Preset} {loaded : Option FileBuffer}
    {faults : BootFaults F} {sv : State S} (h : boot ss s preset loaded faults = (.ok (), sv)) :
    sv.ctrl.topology ss = ((restore ss s preset faults.restore).topology ss).applyAll
        (seedMutations ((restore ss s preset faults.restore).topology ss) loaded) ∧
      sv.ctrl.labels = Registry.empty ∧
      (∀ id, id ≠ fileId ((restore ss s preset faults.restore).topology ss) ∨ loaded = none →
        sv.ctrl.kinds id = (restore ss s preset faults.restore).kinds id) ∧
      (loaded ≠ none →
        sv.ctrl.kinds (fileId ((restore ss s preset faults.restore).topology ss)) = some "file") ∧
      sv.ctrl.params = (restore ss s preset faults.restore).params := by
  rw [boot] at h
  rcases hm : applyMutations ss (restore ss s preset faults.restore).store faults.seed
    (seedMutations ((restore ss s preset faults.restore).topology ss) loaded) with ⟨_ | _, s₁⟩
  · simp only [hm] at h
    cases (Prod.mk.inj h).1
  simp only [hm] at h
  cases loaded with
  | none =>
    obtain ⟨-, rfl⟩ := Prod.mk.inj h
    exact ⟨applyMutations_ok hm, rfl, fun id _ => rfl, fun hn => absurd rfl hn, rfl⟩
  | some buf =>
    obtain ⟨-, rfl⟩ := Prod.mk.inj h
    refine ⟨applyMutations_ok hm, rfl, fun id hid => ?_, fun _ => Registry.insert_self _ _ _, rfl⟩
    rcases hid with hid | hid
    · exact Registry.insert_of_ne _ _ hid
    · cases hid

/-! ### What is in the store afterwards -/

section Seeded

variable [LawfulSnapshotApply]

/-- **An empty topology is seeded**; links that it may have keep their place. -/
theorem applyAll_seedMutations_of_empty {t : TopologySnapshot} (h : t.nodes = [])
    (loaded : Option FileBuffer) :
    t.applyAll (seedMutations t loaded) =
      ⟨sourceNode :: sinkNode :: fileNodes t loaded, t.edges ++ [seedLink t loaded]⟩ := by
  obtain ⟨nodes, edges⟩ := t
  obtain rfl : nodes = [] := h
  cases loaded with
  | none =>
    simp only [seedMutations, TopologySnapshot.applyAll, fileNodes, Option.map_none,
      Option.toList_none, List.map_nil, List.isEmpty_nil, if_true, List.cons_append,
      List.nil_append, List.foldl_cons, List.foldl_nil, apply_addNode, apply_addLink]
    rfl
  | some buf =>
    simp only [seedMutations, TopologySnapshot.applyAll, fileNodes, Option.map_some,
      Option.toList_some, List.map_cons, List.map_nil, List.isEmpty_nil, if_true, List.cons_append,
      List.nil_append, List.foldl_cons, List.foldl_nil, apply_addNode, apply_addLink]
    rfl

omit [SnapshotApply] [LawfulSnapshotApply] in
/-- The node for a file gets an id that is not taken. -/
theorem fileId_notMem {t : TopologySnapshot} (h : t.nodes ≠ [])
    (hmax : ∀ id ∈ t.ids, id < usizeMax) : fileId t ∉ t.ids := by
  have hne : t.nodes.isEmpty = false := by
    rw [List.isEmpty_eq_false_iff]
    exact h
  rw [fileId, hne]
  rcases hm : t.ids.max? with _ | m
  · rw [List.max?_eq_none_iff, TopologySnapshot.ids, List.map_eq_nil_iff] at hm
    exact absurd hm h
  · obtain ⟨hmem, hle⟩ := List.max?_eq_some_iff.mp hm
    have hlt := hmax m hmem
    intro hid
    have hid' : (m + 1) % (usizeMax + 1) ∈ t.ids := hid
    rw [Nat.mod_eq_of_lt (Nat.succ_lt_succ hlt)] at hid'
    exact absurd (hle _ hid') (Nat.not_succ_le_self m)

/-- **Any other topology keeps what it has**, and the file comes last. -/
theorem applyAll_seedMutations_of_ne {t : TopologySnapshot} (h : t.nodes ≠ [])
    (hmax : ∀ id ∈ t.ids, id < usizeMax) (loaded : Option FileBuffer) :
    t.applyAll (seedMutations t loaded) = ⟨t.nodes ++ fileNodes t loaded, t.edges⟩ := by
  have hne : t.nodes.isEmpty = false := by
    rw [List.isEmpty_eq_false_iff]
    exact h
  rw [seedMutations, hne]
  cases loaded with
  | none =>
    change t = ⟨t.nodes ++ [], t.edges⟩
    rw [List.append_nil]
  | some buf =>
    change t.apply (.addNode (fileNode (fileId t) buf)) = _
    rw [apply_addNode, TopologySnapshot.upsertNode_of_fresh (fileId_notMem h hmax)]
    rfl

end Seeded

/-! ### Waiting for the first graph -/

section Landing

variable [LawfulSnapshotApply] {G : Type} [GraphOps G (Bridge.AudioNode DspNode)]
  [LawfulGraphOps G (Bridge.AudioNode DspNode)] [CountedGraph G]

/-- **The start goes on waiting** as long as this holds of the graph in the slot. -/
def Waits (g : G) : Prop :=
  toLex (CountedGraph.nodeCount g, CountedGraph.linkCount g) < toLex (2, 1)

omit [SnapshotApply] [LawfulSnapshotApply] [LawfulGraphOps G (Bridge.AudioNode DspNode)] in
/-- What the comparison of the pairs asks for. -/
theorem not_waits_iff (g : G) :
    ¬Waits g ↔ 2 < CountedGraph.nodeCount g ∨
      CountedGraph.nodeCount g = 2 ∧ 1 ≤ CountedGraph.linkCount g := by
  rw [Waits, Prod.Lex.toLex_lt_toLex]
  omega

instance (g : G) : Decidable (Waits g) := inferInstanceAs (Decidable (toLex _ < toLex _))

/-- What a start fails with. -/
inductive StartError where
  | store (e : StoreError)
  | message (text : String)

variable (G ss) in
/-- **The whole start.** The rebuild task builds the topology that it finds and puts the graph, if
the build succeeds, into the slot – before the deadline, we assume. Nothing else is written to the
store as long as the start waits, so this is the only graph that can land. -/
def start (s : S) (preset : Option Preset) (loaded : Option FileBuffer) (faults : BootFaults F) :
    Except StartError Unit × State S :=
  match boot ss s preset loaded faults with
  | (.error e, sv) => (.error (.store e), sv)
  | (.ok _, sv) =>
      let slot : Option G := (buildGraph (sv.ctrl.topology ss) graphConfig
        (factoryOf sv.ctrl sv.files).build freshGateway).1.toOption
      if ∀ g ∈ slot, Waits g then
        (.error (.message "server-engine: initial graph rebuild never landed"), sv)
      else (.ok (), sv)

omit [LawfulSnapshotApply] [LawfulGraphOps G (Bridge.AudioNode DspNode)] in
/-- **A start goes through** when its store calls do, and the graph is built and is enough. -/
theorem start_ok_iff {s : S} {preset : Option Preset} {loaded : Option FileBuffer}
    {faults : BootFaults F} {sv : State S} :
    start ss G s preset loaded faults = (.ok (), sv) ↔
      boot ss s preset loaded faults = (.ok (), sv) ∧ ∃ g : G,
        (buildGraph (sv.ctrl.topology ss) graphConfig (factoryOf sv.ctrl sv.files).build
          freshGateway).1 = .ok g ∧ ¬Waits g := by
  rw [start]
  rcases boot ss s preset loaded faults with ⟨e | _, sv'⟩
  · simp
  · dsimp only
    constructor
    · intro h
      split at h
      · cases (Prod.mk.inj h).1
      · rename_i hlands
        obtain rfl := (Prod.mk.inj h).2
        refine ⟨rfl, ?_⟩
        generalize (buildGraph (G := G) _ _ _ _).1 = built at hlands ⊢
        rcases built with err | g
        · exact absurd (by simp [Except.toOption]) hlands
        · exact ⟨g, rfl, fun hwaits => hlands (by simpa [Except.toOption] using hwaits)⟩
    · rintro ⟨⟨⟩, g, hg, hwaits⟩
      rw [hg, if_neg fun hall => hwaits (hall g rfl)]

/-- **What a topology needs for the server to start on it**: it is empty, and gets the bridge; or
there are three nodes, the one for a file among them; or two nodes, and a link. -/
def StartsOn (t : TopologySnapshot) (loaded : Option FileBuffer) : Prop :=
  t.nodes = [] ∨ 2 < t.nodes.length + loaded.toList.length ∨
    t.nodes.length + loaded.toList.length = 2 ∧ t.edges ≠ []

/-- **The start.** When the graph of the topology that the start has left in the store can be built,
the wait for it ends if and only if the topology found there – after the import of the preset, if
there is one – is enough to start on. -/
theorem boot_lands_iff {s : S} {preset : Option Preset} {loaded : Option FileBuffer}
    {faults : BootFaults F} {sv : State S} (hboot : boot ss s preset loaded faults = (.ok (), sv))
    (hmax : BelowMax ss (restore ss s preset faults.restore)) {config : GraphConfig} {Fr : Type}
    {gw : Bridge.Gateway Fr} {g : G}
    (hbuild :
      (buildGraph (sv.ctrl.topology ss) config (factoryOf sv.ctrl sv.files).build gw).1 = .ok g) :
    ¬Waits g ↔ StartsOn ((restore ss s preset faults.restore).topology ss) loaded := by
  obtain ⟨htop, -⟩ := boot_ok hboot
  obtain ⟨hnodes, hlinks⟩ := counts_buildGraph hbuild
  rw [htop] at hnodes hlinks
  have hfile : ∀ t, (fileNodes t loaded).length = loaded.toList.length := by
    intro t
    cases loaded <;> rfl
  rw [not_waits_iff, hnodes, hlinks, StartsOn]
  by_cases hempty : ((restore ss s preset faults.restore).topology ss).nodes = []
  · -- source, sink and a link are there
    rw [applyAll_seedMutations_of_empty hempty]
    simp only [List.length_cons, List.length_append, List.length_nil, hempty, true_or, iff_true]
    omega
  · rw [applyAll_seedMutations_of_ne hempty hmax]
    simp only [List.length_append, hfile, hempty, false_or, ← List.length_pos_iff, Nat.succ_le_iff]

end Landing

end Boot

/-- No call fails. -/
def calm : BootFaults (Option (RaftEngine.PersistStep × String)) := ⟨noFaults, fun _ => none⟩

/-- The seeded store is enough to start on. -/
theorem boot_lands_iff_seeded :
    letI := SnapshotApply.documented
    ∃ sv, boot engineStore seededEngine none none calm = (.ok (), sv) ∧
      ∃ g : RecordedGraph (Bridge.AudioNode DspNode),
        (buildGraph (sv.ctrl.topology engineStore) graphConfig
          (factoryOf sv.ctrl sv.files).build freshGateway).1 = .ok g ∧
        (¬Waits g ↔ StartsOn seeded none) := by
  let := SnapshotApply.documented
  have := SnapshotApply.lawful_documented
  refine ⟨_, rfl, _, rfl, boot_lands_iff
    (show boot engineStore seededEngine none none calm = (.ok (), _) from rfl) ?_
    (show (buildGraph _ graphConfig _ freshGateway).1 = .ok _ from rfl)⟩
  decide

/-- The store after the link of the bridge has been deleted. -/
def unlinkedEngine : RaftEngine.EngineState :=
  letI := SnapshotApply.documented
  ((new seededEngine).exec engineStore (.deleteLink 0) none).2.store

/-- **A server whose bridge was unlinked does not start again**: the graph is built, and the wait
for it does not end. -/
theorem boot_never_lands :
    letI := SnapshotApply.documented
    ∃ sv, boot engineStore unlinkedEngine none none calm = (.ok (), sv) ∧
      ∃ g : RecordedGraph (Bridge.AudioNode DspNode),
        (buildGraph (sv.ctrl.topology engineStore) graphConfig
          (factoryOf sv.ctrl sv.files).build freshGateway).1 = .ok g ∧ Waits g := by
  let := SnapshotApply.documented
  refine ⟨_, rfl, _, rfl, ?_⟩
  exact Prod.Lex.toLex_lt_toLex.mpr (.inr ⟨rfl, Nat.zero_lt_one⟩)

end Server

end SonicBrew
