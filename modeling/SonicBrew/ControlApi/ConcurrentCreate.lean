import SonicBrew.ControlApi.Calls

/-!
# Creating nodes concurrently

`create_node` reads the topology, takes the id after the largest, and adds its node under that
id in a second store call. Two calls that read the same topology take the same id, and then the
store lets the second node replace the first: both callers are told the same id, and one of the
two nodes is gone (`SonicBrew.Concurrent.created_twice`).

The other interleavings are fine. If a call adds its node under the id that it would still choose
at that moment (`SonicBrew.Concurrent.AddsNext`) – no node has come in between – then the id is
fresh, and the run as a whole keeps what every caller was promised
(`SonicBrew.Concurrent.created_of_run`): all ids differ, and every node is there with its ports.
-/

namespace SonicBrew

namespace Concurrent

open GraphController

/-- The calls of `create_node`. -/
def IsCreate : Request → Prop
  | .createNode _ => True
  | _ => False

instance decidableIsCreate : DecidablePred IsCreate
  | .createNode _ => isTrue trivial
  | .deleteNode _ => isFalse id
  | .linkPorts .. => isFalse id
  | .deleteLink _ => isFalse id
  | .importPreset _ => isFalse id
  | .exportPreset => isFalse id
  | .getTopology => isFalse id

theorem IsCreate.exists_spec {req : Request} (h : IsCreate req) :
    ∃ spec, req = .createNode spec := by
  cases req with
  | createNode spec => exact ⟨spec, rfl⟩
  | _ => exact h.elim

/-- The nodes that callers have been told of: what they asked for, and the id. -/
def returned (ds : List Done) : List (NodeSpec × NodeId) :=
  ds.filterMap fun d =>
    match d.request, d.answer with
    | .createNode spec, .ok (.node id) => some (spec, id)
    | _, _ => none

theorem returned_append (ds ds' : List Done) :
    returned (ds ++ ds') = returned ds ++ returned ds' := List.filterMap_append

theorem returned_error (req : Request) (e : ControlError) (onto : Option TopologySnapshot) :
    returned [⟨req, .error e, onto⟩] = [] := by
  cases req <;> rfl

/-- The id under which a call has added its node. -/
def addedId (c : Call) : Option NodeId :=
  match c.request, c.phase with
  | .createNode _, .updating (.mutate _ :: _) _ => none
  | .createNode _, .updating _ (.node id) => some id
  | _, _ => none

section Create

variable [SnapshotApply] {S F : Type} (ss : SessionStore S F)

/-- **No node comes in between**: a call adds its node, if the store does not refuse it, under the
id that it would choose if it read the topology now. -/
def AddsNext (p : Server S) (_ : ℕ) (c : Call) (fault : F) : Prop :=
  match c.phase with
  | .updating (.mutate (.addNode n) :: _) _ =>
      ¬Refused ss p.shared (.addNode n) fault → n.id = newId (p.shared.topology ss)
  | _ => True

instance decidableAddsNext (p : Server S) (t : ℕ) (c : Call) (fault : F) :
    Decidable (AddsNext ss p t c fault) := by
  unfold AddsNext
  split <;> infer_instance

/-- **The invariant**: the ids that callers have been told or are about to be told differ, and
the nodes are there. -/
structure CreateInv (p : Server S) : Prop where
  distinct : ∀ t u c d id, t ≠ u → p.calls t = some c → p.calls u = some d →
    addedId c = some id → addedId d ≠ some id
  untold : p.All fun c => ∀ id, addedId c = some id → id ∉ (returned p.answers).map Prod.snd
  nodup : ((returned p.answers).map Prod.snd).Nodup
  added : p.All fun c => ∀ spec id, c.request = .createNode spec → addedId c = some id →
    (p.shared.topology ss).node id = some (nodeOf spec id)
  nodes : ∀ x ∈ returned p.answers, (p.shared.topology ss).node x.2 = some (nodeOf x.1 x.2)

variable {ss}

theorem createInv_start (c : GraphController S) : CreateInv ss (start c) where
  distinct := fun _ _ _ _ _ _ hc => nomatch hc
  untold := Pool.all_idle _ _
  nodup := List.nodup_nil
  added := Pool.all_idle _ _
  nodes := fun _ hx => nomatch hx

/-- **A step that adds no node and tells no id** keeps the invariant: afterwards the thread is in
no call, or in one that holds no id that the thread did not hold before. -/
theorem CreateInv.quiet {p : Server S} (h : CreateInv ss p) {t : ℕ} {s' : Shared S}
    (hs : s'.topology ss = p.shared.topology ss) {r : Call ⊕ Done}
    (hd : ∀ d, r = .inr d → returned [d] = [])
    (hc : ∀ c', r = .inl c' → ∀ id, addedId c' = some id →
      ∃ c, p.calls t = some c ∧ c.request = c'.request ∧ addedId c = some id) :
    CreateInv ss (p.settle t s' r) := by
  have hret : returned (p.settle t s' r).answers = returned p.answers := by
    cases r with
    | inl c' => rfl
    | inr d => rw [Pool.settle_answers_inr, returned_append, hd d rfl, List.append_nil]
  -- a call that holds an id after the step held it before, or its thread did
  have hold : ∀ u d id, (p.settle t s' r).calls u = some d → addedId d = some id →
      ∃ c, p.calls u = some c ∧ c.request = d.request ∧ addedId c = some id := by
    intro u d id hd ha
    rcases Pool.settle_calls_cases hd with ⟨rfl, hr⟩ | ⟨-, hu⟩
    · exact hc d hr id ha
    · exact ⟨d, hu, rfl, ha⟩
  refine ⟨?_, ?_, ?_, ?_, ?_⟩
  · intro u v d d' id huv hu hv ha ha'
    obtain ⟨c, hcu, -, hca⟩ := hold u d id hu ha
    obtain ⟨c', hcv, -, hca'⟩ := hold v d' id hv ha'
    exact h.distinct u v c c' id huv hcu hcv hca hca'
  · intro u d hu id ha
    obtain ⟨c, hcu, -, hca⟩ := hold u d id hu ha
    rw [hret]
    exact h.untold u c hcu id hca
  · rw [hret]
    exact h.nodup
  · intro u d hu spec id hreq ha
    obtain ⟨c, hcu, hcreq, hca⟩ := hold u d id hu ha
    rw [Pool.settle_shared, hs]
    exact h.added u c hcu spec id (hcreq.trans hreq) hca
  · rw [hret, Pool.settle_shared, hs]
    exact h.nodes

/-- **Telling an id** keeps the invariant: nobody else was told it, or is about to be. -/
theorem CreateInv.finish {p : Server S} (h : CreateInv ss p) {t : ℕ} {spec : NodeSpec}
    {id : NodeId} (hc : p.calls t = some ⟨.createNode spec, .updating [] (.node id)⟩) :
    CreateInv ss (p.settle t p.shared (.inr ⟨.createNode spec, .ok (.node id), none⟩)) := by
  have hret : returned (p.settle t p.shared (.inr ⟨.createNode spec, .ok (.node id), none⟩)).answers
      = returned p.answers ++ [(spec, id)] := returned_append ..
  have hother : ∀ u d, (p.settle t p.shared (.inr ⟨.createNode spec, .ok (.node id), none⟩)).calls u
      = some d → u ≠ t ∧ p.calls u = some d := by
    intro u d hd
    rcases Pool.settle_calls_cases hd with ⟨-, hr⟩ | hu
    · cases hr
    · exact hu
  refine ⟨?_, ?_, ?_, ?_, ?_⟩
  · intro u v d d' i huv hu hv
    exact h.distinct u v d d' i huv (hother u d hu).2 (hother v d' hv).2
  · intro u d hu i ha hmem
    obtain ⟨hut, hu'⟩ := hother u d hu
    rw [hret, List.map_append, List.mem_append] at hmem
    rcases hmem with hmem | hmem
    · exact h.untold u d hu' i ha hmem
    · obtain rfl : i = id := List.mem_singleton.mp hmem
      exact h.distinct u t d _ i hut hu' hc ha rfl
  · rw [hret, List.map_append]
    refine List.nodup_append.mpr ⟨h.nodup, List.nodup_singleton _, fun a ha b hb hab => ?_⟩
    obtain rfl : b = id := List.mem_singleton.mp hb
    rw [hab] at ha
    exact h.untold t _ hc b rfl ha
  · intro u d hu
    exact h.added u d (hother u d hu).2
  · rw [hret, Pool.settle_shared]
    intro x hx
    rcases List.mem_append.mp hx with hx | hx
    · exact h.nodes x hx
    · obtain rfl : x = (spec, id) := List.mem_singleton.mp hx
      exact h.added t _ hc spec id rfl rfl

variable [LawfulSnapshotApply]

/-- **Adding a node under a fresh id** keeps the invariant: the ids held and told so far are
ids of the topology, and their nodes stay. -/
theorem CreateInv.addNode {p : Server S} (h : CreateInv ss p)
    (hcreate : p.All fun c => IsCreate c.request) {t : ℕ} {spec : NodeSpec} {kind : Option String}
    {id : NodeId} (hid : id ∉ (p.shared.topology ss).ids) {s' : Shared S}
    (ht : s'.topology ss = (p.shared.topology ss).apply (.addNode (nodeOf spec id))) :
    CreateInv ss (p.settle t s' (.inl
      ⟨.createNode spec, .updating (createUpdates spec kind id).tail (.node id)⟩)) := by
  have hkeep : ∀ i n, (p.shared.topology ss).node i = some n →
      i ≠ id ∧ (s'.topology ss).node i = some n := by
    intro i n hn
    have hne : i ≠ id := by
      rintro rfl
      exact hid (TopologySnapshot.mem_ids_iff.mpr ⟨n, hn⟩)
    refine ⟨hne, ?_⟩
    rw [ht, TopologySnapshot.node_apply_addNode,
      if_neg (show (nodeOf spec id).id ≠ i from hne.symm)]
    exact hn
  have hheld : ∀ u d i, p.calls u = some d → addedId d = some i → i ≠ id := by
    intro u d i hu ha
    obtain ⟨spec', hreq⟩ := (hcreate u d hu).exists_spec
    exact (hkeep i _ (h.added u d hu spec' i hreq ha)).1
  refine ⟨?_, ?_, h.nodup, ?_, fun x hx => ?_⟩
  · intro u v d d' i huv hu hv ha ha'
    rcases Pool.settle_calls_cases hu with ⟨rfl, hr⟩ | ⟨-, hu'⟩
    · obtain rfl := Sum.inl.inj hr
      rcases Pool.settle_calls_cases hv with ⟨rfl, -⟩ | ⟨-, hv'⟩
      · exact huv rfl
      · exact hheld v d' i hv' ha' (Option.some.inj ha).symm
    · rcases Pool.settle_calls_cases hv with ⟨rfl, hr⟩ | ⟨-, hv'⟩
      · obtain rfl := Sum.inl.inj hr
        exact hheld u d i hu' ha (Option.some.inj ha').symm
      · exact h.distinct u v d d' i huv hu' hv' ha ha'
  · refine h.untold.settle (fun c' hr i ha hmem => ?_) fun _ _ _ _ hA => hA
    obtain rfl := Sum.inl.inj hr
    obtain ⟨x, hx, hxi⟩ := List.mem_map.mp hmem
    exact (hkeep x.2 _ (h.nodes x hx)).1 (hxi.trans (Option.some.inj ha).symm)
  · refine h.added.settle (fun c' hr spec' i hreq ha => ?_)
      fun u d _ _ hA spec' i hreq ha => (hkeep i _ (hA spec' i hreq ha)).2
    obtain rfl := Sum.inl.inj hr
    obtain rfl := Request.createNode.inj hreq
    obtain rfl : id = i := Option.some.inj ha
    rw [Pool.settle_shared, ht, TopologySnapshot.node_apply_addNode]
    exact if_pos rfl
  · exact (hkeep x.2 _ (h.nodes x hx)).2

/-- **Every step under the guard keeps the invariant**, below the largest id; and no id is more
than one above the others. -/
theorem CreateInv.step {p : Server S} (h : CreateInv ss p) (htyped : Typed IsCreate p) {m : ℕ}
    (hm : ∀ id ∈ (p.shared.topology ss).ids, id ≤ m) (hmax : m < usizeMax) {t : ℕ} {c : Call}
    {fault : F} (hc : p.calls t = some c) (hguard : AddsNext ss p t c fault) {s' : Shared S}
    {r : Call ⊕ Done} (hstep : Step ss p.shared fault c s' r) :
    CreateInv ss (p.settle t s' r) ∧ ∀ id ∈ (s'.topology ss).ids, id ≤ m + 1 := by
  have hle : ∀ id ∈ (p.shared.topology ss).ids, id ≤ m + 1 := fun id hid =>
    (hm id hid).trans (Nat.le_succ m)
  obtain ⟨hcreate, hphase⟩ := htyped t c hc
  obtain ⟨req, phase⟩ := c
  obtain ⟨spec, rfl⟩ := hcreate.exists_spec
  cases hstep with
  | refuse =>
    refine ⟨h.quiet rfl (fun d hd => ?_) (fun _ hr => nomatch hr), hle⟩
    obtain rfl := Sum.inr.inj hd
    exact returned_error ..
  | begin hfirst =>
    obtain ⟨kind, -, rfl⟩ := first_createNode_ok hfirst
    refine ⟨h.quiet rfl (fun _ hr => nomatch hr) fun c' hr id ha => ?_, hle⟩
    obtain rfl := Sum.inl.inj hr
    cases ha
  | finish =>
    obtain ⟨kind, id, -, rfl, -⟩ := hphase
    exact ⟨h.finish hc, hle⟩
  | abort =>
    refine ⟨h.quiet rfl (fun d hd => ?_) (fun _ hr => nomatch hr), hle⟩
    obtain rfl := Sum.inr.inj hd
    exact returned_error ..
  | mutate happ haccepted =>
    obtain ⟨kind, id, -, rfl, hsuffix⟩ := hphase
    obtain ⟨rfl, rfl⟩ := mutate_suffix_createUpdates hsuffix
    have hid : id = newId (p.shared.topology ss) := hguard haccepted
    refine ⟨h.addNode (fun u d hu => (htyped u d hu).1) ?_ happ.topology, fun i hi => ?_⟩
    · rw [hid]
      exact newId_notMem fun i hi => (hm i hi).trans_lt hmax
    · rw [happ.topology, TopologySnapshot.mem_ids_apply_addNode] at hi
      rcases hi with hi | hi
      · rw [hi, show (nodeOf spec id).id = id from rfl, hid]
        exact newId_le hm
      · exact hle i hi
  | @record _ rec todo value =>
    refine ⟨h.quiet (topology_record ss p.shared rec) (fun _ hr => nomatch hr)
      fun c' hr id ha => ⟨_, hc, ?_⟩, ?_⟩
    · obtain rfl := Sum.inl.inj hr
      obtain ⟨kind, id', -, rfl, -⟩ := hphase
      refine ⟨rfl, ?_⟩
      -- once a call records, it holds its id to the end
      cases todo with
      | nil => exact ha
      | cons u todo =>
        cases u with
        | mutate => cases ha
        | record => exact ha
    · rw [topology_record]
      exact hle
  | _ => exact hphase.elim

/-- **Concurrent creations.** From a topology whose ids leave room for the run, if every call
adds its node under the id it would still choose, then whenever the run stops the ids returned
so far are pairwise distinct, and each node is in the topology with the ports its caller asked
for. -/
theorem created_of_run {c : GraphController S} {m : ℕ} (hm : ∀ id ∈ (c.topology ss).ids, id ≤ m)
    {as : List (Action F)} (hroom : m + as.length < usizeMax)
    (hmeets : Transition.Meets (Pool.step enter (next ss)) (Pool.Guarded IsCreate (AddsNext ss))
      (start c) as) {p : Server S} (hrun : run ss (start c) as = some p) :
    ((returned p.answers).map Prod.snd).Nodup ∧
      ∀ x ∈ returned p.answers, (p.shared.topology ss).node x.2 = some (nodeOf x.1 x.2) := by
  -- the ids are bounded, and the bound rises by at most one for each action
  let P : ℕ → Server S → Prop := fun n p => CreateInv ss p ∧
    ∃ m : ℕ, (∀ id ∈ (p.shared.topology ss).ids, id ≤ m) ∧ m + n < usizeMax
  have hP : P 0 p := by
    refine countdown (P := P) (fun n p t req hp _ _ => ?_)
      (fun n p t c fault s' r htyped hp hc hg hstep => ?_) ⟨createInv_start c, m, hm, hroom⟩
      hmeets hrun
    · obtain ⟨hinv, m, hm, hroom⟩ := hp
      refine ⟨hinv.quiet rfl (fun _ hr => nomatch hr) fun c' hr id ha => ?_, m, hm,
        Nat.lt_of_succ_lt hroom⟩
      obtain rfl := Sum.inl.inj hr
      cases req <;> cases ha
    · obtain ⟨hinv, m, hm, hroom⟩ := hp
      obtain ⟨hinv', hm'⟩ := hinv.step htyped hm (by omega) hc hg hstep
      refine ⟨hinv', m + 1, ?_, by omega⟩
      rw [Pool.settle_shared]
      exact hm'
  exact ⟨hP.1.nodup, hP.1.nodes⟩

end Create

/-- Two requests. -/
def gainSpec : NodeSpec := ⟨"gain", 1, 1, none, none⟩

def mixerSpec : NodeSpec := ⟨"mixer", 2, 1, none, none⟩

/-- The steps of two calls, the second reading after the first has added its node. -/
def createsInTurn : List (Action (Option (RaftEngine.PersistStep × String))) :=
  [.invoke 0 (.createNode gainSpec), .invoke 1 (.createNode mixerSpec), .advance 0 none,
    .advance 0 none, .advance 1 none, .advance 0 none, .advance 1 none, .advance 0 none,
    .advance 0 none, .advance 0 none, .advance 1 none, .advance 1 none, .advance 1 none,
    .advance 1 none]

theorem created_of_run_inTurn :
    letI := SnapshotApply.documented
    ∃ p, run engineStore (start (new emptyEngine)) createsInTurn = some p ∧
      ((returned p.answers).map Prod.snd).Nodup ∧
      ∀ x ∈ returned p.answers,
        (p.shared.topology engineStore).node x.2 = some (nodeOf x.1 x.2) := by
  let := SnapshotApply.documented
  have := SnapshotApply.lawful_documented
  refine ⟨_, rfl, created_of_run (m := 0) ?_ ?_ ?_
    (show run engineStore (start (new emptyEngine)) createsInTurn = some _ from rfl)⟩
  · intro id hid
    cases hid
  · decide
  · decide

/-- The steps of two calls that read the same topology. -/
def createsAtOnce : List (Action (Option (RaftEngine.PersistStep × String))) :=
  [.invoke 0 (.createNode gainSpec), .invoke 1 (.createNode mixerSpec), .advance 0 none,
    .advance 1 none, .advance 0 none, .advance 1 none, .advance 0 none, .advance 0 none,
    .advance 0 none, .advance 0 none, .advance 1 none, .advance 1 none, .advance 1 none,
    .advance 1 none]

/-- **Two calls are told the same id**, and only one of the nodes is there. -/
theorem created_twice :
    letI := SnapshotApply.documented
    ∃ p, run engineStore (start (new emptyEngine)) createsAtOnce = some p ∧
      returned p.answers = [(gainSpec, 1), (mixerSpec, 1)] ∧
      (p.shared.topology engineStore).nodes = [nodeOf mixerSpec 1] := by
  let := SnapshotApply.documented
  exact ⟨_, rfl, rfl, rfl⟩

end Concurrent

end SonicBrew
