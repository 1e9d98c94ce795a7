import Mathlib.Logic.Function.Basic
import SonicBrew.Lib.Broadcast
import SonicBrew.Lib.Transition
import SonicBrew.SessionStore.Engine
import SonicBrew.SessionStore.StateMachine

/-!
# What a subscriber of the replicated store sees

Every node of a cluster has an engine and a state machine. A call of an engine's `apply_mutation`
hands the mutation to the consensus library and waits; the library commits it to a log that all
nodes share, each node's state machine applies the log in order and in batches of its own, and the
call is told the id its mutation was given when its own node has applied it. Only then does *the
calling thread* send the event, on its own node's channel.

So a node announces what was submitted through it, in whatever order the calling threads get to
run, and not what its state machine applies: a mutation submitted elsewhere is applied here without
an event, and two calls may announce their mutations in the wrong order
(`SonicBrew.Distributed.events_lost_and_disordered`).

Of the consensus library only this is assumed: there is one committed log, it grows, and a call
learns of its own entry. Which entries come to be committed – a leader's own, or those of a call
that was told of an error – is left open (`SonicBrew.Distributed.Action.append`).
-/

namespace SonicBrew

namespace Distributed

open RaftEngine (channelCapacity)

open StateMachine (Bincode Db mutations)

/-- How far a call of `apply_mutation` has come. -/
inductive CallPhase where
  /-- Its mutation has been handed to the consensus library. -/
  | submitted
  /-- It is in the log, at a position. -/
  | committed (position : ℕ)
  /-- This node has applied the entry at the position, and the call knows the id; the thread has
  still to send the event and to return. -/
  | applied (position mutationId : ℕ)
  deriving DecidableEq, Repr

/-- A running call. -/
structure Call where
  mutation : Mutation
  phase : CallPhase

/-- What a call has returned. -/
structure Answer where
  thread : ℕ
  mutation : Mutation
  result : Except StoreError ℕ

/-- A receiver of the engine's events, and how many mutations the node had applied when it
subscribed. -/
structure Subscriber where
  receiver : Broadcast.Receiver TopologyEvent
  position : ℕ

/-- A node: the database of its state machine, how much of the log it has applied, and its
engine with the calls and the subscribers. -/
structure Node where
  db : Db
  applied : ℕ
  calls : ℕ → Option Call
  tx : Broadcast TopologyEvent
  subscribers : ℕ → Option Subscriber
  answers : List Answer

/-- One step of one node. -/
inductive NodeAction where
  | applyMutation (t : ℕ) (m : Mutation)
  | commit (t : ℕ) (logId : LogId)
  | apply (count : ℕ) (fault : Option StorageError)
  | send (t : ℕ)
  /-- `client_write` fails with an error, or its task is dropped. -/
  | fail (t : ℕ) (cause : Option String)
  | subscribe (s : ℕ)
  | tryRecv (s : ℕ)

/-- The entries that a node applies next. -/
def Node.batch (node : Node) (log : List Entry) (count : ℕ) : List Entry :=
  (log.drop node.applied).take count

/-- The calls after the node has applied a batch from position `k` on: those whose entry is in it
are told the id of their mutation. -/
def deliver (k : ℕ) (responses : List ClientWriteResponse) (calls : ℕ → Option Call) (t : ℕ) :
    Option Call :=
  match calls t with
  | some ⟨m, .committed p⟩ =>
      if k ≤ p then
        match responses[p - k]? with
        | some response => some ⟨m, .applied p response.mutationId⟩
        | none => some ⟨m, .committed p⟩
      else some ⟨m, .committed p⟩
  | call => call

/-- The error of a call whose `client_write` has failed. -/
def clientWriteError : Option String → StoreError
  | some e => .persistence s!"raft client_write: {e}"
  | none => .persistence "raft client_write task dropped"

/-- The mutations a node has applied. -/
def Node.mutations (node : Node) (log : List Entry) : List Mutation :=
  StateMachine.mutations (log.take node.applied)

/-- Where a call is now. -/
def Node.setCall (node : Node) (t : ℕ) (call : Option Call) : Node :=
  { node with calls := Function.update node.calls t call }

/-- Where a subscriber is now. -/
def Node.setSubscriber (node : Node) (s : ℕ) (sub : Subscriber) : Node :=
  { node with subscribers := Function.update node.subscribers s (some sub) }

section Steps

variable [SnapshotApply] (bin : Bincode)

/-- One step of a node, if it is possible, and the log it leaves. -/
def Node.step (log : List Entry) (node : Node) : NodeAction → Option (List Entry × Node)
  | .applyMutation t m =>
      match node.calls t with
      | none => some (log, node.setCall t (some ⟨m, .submitted⟩))
      | some _ => none
  | .commit t logId =>
      match node.calls t with
      | some ⟨m, .submitted⟩ =>
          some (log ++ [⟨logId, .normal m⟩], node.setCall t (some ⟨m, .committed log.length⟩))
      | _ => none
  | .apply count fault =>
      match StateMachine.apply bin node.db (node.batch log count) fault with
      | (.error _, db) => some (log, { node with db })
      | (.ok responses, db) =>
          some (log, { node with
            db
            applied := node.applied + (node.batch log count).length
            calls := deliver node.applied responses node.calls })
  | .send t =>
      match node.calls t with
      | some ⟨m, .applied _ id⟩ =>
          some (log, { node.setCall t none with
            tx := node.tx.send (mutationToEvent m)
            answers := node.answers ++ [⟨t, m, .ok id⟩] })
      | _ => none
  | .fail t cause =>
      match node.calls t with
      | some ⟨m, _⟩ =>
          some (log, { node.setCall t none with
            answers := node.answers ++ [⟨t, m, .error (clientWriteError cause)⟩] })
      | none => none
  | .subscribe s =>
      match node.subscribers s with
      | none => some (log, node.setSubscriber s ⟨node.tx.receiver, (node.mutations log).length⟩)
      | some _ => none
  | .tryRecv s =>
      match node.subscribers s with
      | none => none
      | some sub =>
          some (log, node.setSubscriber s
            { sub with receiver := sub.receiver.recv channelCapacity node.tx })

/-- The committed log and the nodes. -/
structure World where
  log : List Entry
  nodes : ℕ → Node

/-- One step of the cluster. -/
inductive Action where
  | node (n : ℕ) (a : NodeAction)
  /-- An entry that no running call waits for is committed. -/
  | append (entry : Entry)

/-- One step, if it is possible. -/
def step (w : World) : Action → Option World
  | .node n a =>
      match (w.nodes n).step bin w.log a with
      | none => none
      | some (log, node) => some ⟨log, Function.update w.nodes n node⟩
  | .append entry => some { w with log := w.log ++ [entry] }

end Steps

/-- A cluster whose nodes have just been started on a log and databases: nobody has called or
subscribed. -/
def start (log : List Entry) (dbs : ℕ → Db) (applied : ℕ → ℕ) : World :=
  ⟨log, fun n => ⟨dbs n, applied n, fun _ => none, Broadcast.channel, fun _ => none, []⟩⟩

/-- The events a subscriber is to see: one for each mutation the node has applied since. -/
def expected (log : List Entry) (node : Node) (sub : Subscriber) : List TopologyEvent :=
  ((node.mutations log).drop sub.position).map mutationToEvent

/-- **A subscriber sees what its node applies**: the events of the first mutations applied since it
subscribed, one each and in that order – and of all of them, when no call is running and its
receiver is empty. -/
def Announced (log : List Entry) (node : Node) (sub : Subscriber) : Prop :=
  sub.receiver.seen <+: expected log node sub ∧
    ((∀ t, node.calls t = none) →
      (node.tx.tryRecv channelCapacity sub.receiver.cursor).1 = .empty →
      sub.receiver.seen = expected log node sub)

/-- A mutation has been applied and its event is still to be sent. -/
def Due (node : Node) : Prop := ∃ t m p id, node.calls t = some ⟨m, .applied p id⟩

/-- **A node announces in turn**: a running call of its own engine waits for every mutation that it
applies; a call sends its event only if no call is left that has an earlier one to send; nobody
subscribes while an event is due; and a call whose mutation has been applied does not fail. -/
def InTurn (log : List Entry) (node : Node) : NodeAction → Prop
  | .apply count _ =>
      ∀ i e m, (node.batch log count)[i]? = some e → StateMachine.mutation? e = some m →
        ∃ t, node.calls t = some ⟨m, .committed (node.applied + i)⟩
  | .send t =>
      ∀ m p id, node.calls t = some ⟨m, .applied p id⟩ →
        ∀ t' m' p' id', node.calls t' = some ⟨m', .applied p' id'⟩ → p ≤ p'
  | .subscribe _ => ¬Due node
  | .fail t _ => ∀ m p id, node.calls t ≠ some ⟨m, .applied p id⟩
  | _ => True

/-! ### The calls of a node -/

/-- The call of a thread has been told that its mutation, at a position of the log, is applied. -/
def Told (calls : ℕ → Option Call) (t p : ℕ) (m : Mutation) : Prop :=
  ∃ id, calls t = some ⟨m, .applied p id⟩

/-- **The events that are due**, in the order of the log: one for each call that has been told. -/
structure Dues (applied : ℕ) (calls : ℕ → Option Call) (due : List (ℕ × Mutation)) : Prop where
  increasing : due.Pairwise fun a b => a.1 < b.1
  mem_iff : ∀ p m, (p, m) ∈ due ↔ ∃ t, Told calls t p m
  position_lt : ∀ t p m, Told calls t p m → p < applied
  injective : ∀ t t' p m m', Told calls t p m → Told calls t' p m' → t = t'

/-- **The calls that wait** wait for entries that the node has still to apply, and no two of them
for the same one. -/
structure Waiting (log : List Entry) (applied : ℕ) (calls : ℕ → Option Call) : Prop where
  position_ge : ∀ t m p, calls t = some ⟨m, .committed p⟩ → applied ≤ p
  logged : ∀ t m p, calls t = some ⟨m, .committed p⟩ →
    ∃ e, log[p]? = some e ∧ StateMachine.mutation? e = some m
  injective : ∀ t t' m m' p, calls t = some ⟨m, .committed p⟩ →
    calls t' = some ⟨m', .committed p⟩ → t = t'

section Calls

variable {log : List Entry} {applied : ℕ} {calls : ℕ → Option Call}
  {due : List (ℕ × Mutation)} {t : ℕ} {call : Option Call}

/-- A call other than the one that moved is where it was. -/
theorem update_cases {t' : ℕ} {c : Call} (h : Function.update calls t call t' = some c) :
    t' = t ∧ call = some c ∨ t' ≠ t ∧ calls t' = some c := by
  rcases eq_or_ne t' t with rfl | hne
  · rw [Function.update_self] at h
    exact .inl ⟨rfl, h⟩
  · rw [Function.update_of_ne hne] at h
    exact .inr ⟨hne, h⟩

theorem Told.of_update {t' p : ℕ} {m : Mutation} (hcall : ∀ m p id, call ≠ some ⟨m, .applied p id⟩)
    (h : Told (Function.update calls t call) t' p m) : t' ≠ t ∧ Told calls t' p m := by
  obtain ⟨id, hid⟩ := h
  rcases update_cases hid with ⟨-, hcon⟩ | ⟨hne, hold⟩
  · exact absurd hcon (hcall m p id)
  · exact ⟨hne, id, hold⟩

theorem Told.update {t' p : ℕ} {m : Mutation} (hne : t' ≠ t) (h : Told calls t' p m) :
    Told (Function.update calls t call) t' p m := by
  obtain ⟨id, hid⟩ := h
  exact ⟨id, by rw [Function.update_of_ne hne, hid]⟩

/-- A call that has not been told moves, and is not told now. -/
theorem Dues.update (h : Dues applied calls due) (hold : ∀ p m, ¬Told calls t p m)
    (hcall : ∀ m p id, call ≠ some ⟨m, .applied p id⟩) :
    Dues applied (Function.update calls t call) due := by
  have htold : ∀ t' p m, Told (Function.update calls t call) t' p m ↔ Told calls t' p m := by
    intro t' p m
    refine ⟨fun ht' => (ht'.of_update hcall).2, fun ht' => ht'.update ?_⟩
    rintro rfl
    exact hold p m ht'
  exact ⟨h.increasing, by simpa only [htold] using h.mem_iff,
    by simpa only [htold] using h.position_lt, by simpa only [htold] using h.injective⟩

/-- The call with the earliest of the events that are due sends it: the others are left. -/
theorem Dues.settle (h : Dues applied calls due) {p : ℕ} {m : Mutation} (ht : Told calls t p m)
    (hfirst : ∀ t' p' m', Told calls t' p' m' → p ≤ p') :
    ∃ rest, due = (p, m) :: rest ∧ Dues applied (Function.update calls t none) rest := by
  have hgone : ∀ {t' p' m'}, Told (Function.update calls t none) t' p' m' →
      t' ≠ t ∧ Told calls t' p' m' := fun ht' => ht'.of_update (by rintro m p id ⟨⟩)
  have hmem : (p, m) ∈ due := (h.mem_iff p m).mpr ⟨t, ht⟩
  rcases due with _ | ⟨⟨p₀, m₀⟩, rest⟩
  · exact absurd hmem List.not_mem_nil
  have hsorted := List.pairwise_cons.mp h.increasing
  -- nothing that is due comes before it, so it is the head
  obtain ⟨⟩ : (p, m) = (p₀, m₀) := by
    rcases List.mem_cons.mp hmem with heq | hlater
    · exact heq
    · obtain ⟨t₀, ht₀⟩ := (h.mem_iff p₀ m₀).mp List.mem_cons_self
      exact absurd (hsorted.1 _ hlater) (not_lt.mpr (hfirst t₀ p₀ m₀ ht₀))
  refine ⟨rest, rfl, hsorted.2, fun p' m' => ⟨fun hrest => ?_, ?_⟩, ?_, ?_⟩
  · obtain ⟨t', ht'⟩ := (h.mem_iff p' m').mp (List.mem_cons_of_mem _ hrest)
    refine ⟨t', ht'.update ?_⟩
    rintro rfl
    obtain ⟨id, hid⟩ := ht
    obtain ⟨id', hid'⟩ := ht'
    obtain ⟨⟩ := Option.some.inj (hid.symm.trans hid')
    exact lt_irrefl _ (hsorted.1 _ hrest)
  · rintro ⟨t', ht'⟩
    obtain ⟨hne, hold⟩ := hgone ht'
    rcases List.mem_cons.mp ((h.mem_iff p' m').mpr ⟨t', hold⟩) with heq | hrest
    · obtain ⟨⟩ := heq
      exact absurd (h.injective t' t _ _ _ hold ht) hne
    · exact hrest
  · exact fun t' p' m' ht' => h.position_lt t' p' m' (hgone ht').2
  · exact fun t₁ t₂ p' m₁ m₂ h₁ h₂ => h.injective t₁ t₂ p' m₁ m₂ (hgone h₁).2 (hgone h₂).2

/-- A call stops waiting, or was not waiting at all. -/
theorem Waiting.update (h : Waiting log applied calls)
    (hcall : ∀ m p, call ≠ some ⟨m, .committed p⟩) :
    Waiting log applied (Function.update calls t call) := by
  have hold : ∀ t' m p, Function.update calls t call t' = some ⟨m, .committed p⟩ →
      calls t' = some ⟨m, .committed p⟩ := by
    intro t' m p ht'
    rcases update_cases ht' with ⟨-, hcon⟩ | ⟨-, hc⟩
    · exact absurd hcon (hcall m p)
    · exact hc
  exact ⟨fun t' m p ht' => h.position_ge t' m p (hold t' m p ht'),
    fun t' m p ht' => h.logged t' m p (hold t' m p ht'),
    fun t₁ t₂ m m' p h₁ h₂ => h.injective t₁ t₂ m m' p (hold t₁ m p h₁) (hold t₂ m' p h₂)⟩

/-- The log grows. -/
theorem Waiting.append (h : Waiting log applied calls) (es : List Entry) :
    Waiting (log ++ es) applied calls := by
  refine ⟨h.position_ge, fun t m p ht => ?_, h.injective⟩
  obtain ⟨e, he, hm⟩ := h.logged t m p ht
  exact ⟨e, List.getElem?_append_left (List.getElem?_eq_some_iff.mp he).1 ▸ he, hm⟩

/-- A call's mutation comes to stand at the end of the log. -/
theorem Waiting.commit (h : Waiting log applied calls) (happlied : applied ≤ log.length) {e : Entry}
    {m : Mutation} (he : StateMachine.mutation? e = some m) :
    Waiting (log ++ [e]) applied
      (Function.update calls t (some ⟨m, .committed log.length⟩)) := by
  have hlt : ∀ t' m' p, calls t' = some ⟨m', .committed p⟩ → p < log.length := by
    intro t' m' p ht'
    obtain ⟨e', he', -⟩ := h.logged t' m' p ht'
    exact (List.getElem?_eq_some_iff.mp he').1
  have hgrown := h.append [e]
  refine ⟨fun t' m' p ht' => ?_, fun t' m' p ht' => ?_, fun t₁ t₂ m₁ m₂ p h₁ h₂ => ?_⟩
  · rcases update_cases ht' with ⟨-, ⟨⟩⟩ | ⟨-, hold⟩
    · exact happlied
    · exact h.position_ge t' m' p hold
  · rcases update_cases ht' with ⟨-, ⟨⟩⟩ | ⟨-, hold⟩
    · exact ⟨e, List.getElem?_concat_length, he⟩
    · exact hgrown.logged t' m' p hold
  · rcases update_cases h₁ with ⟨rfl, ⟨⟩⟩ | ⟨-, hold₁⟩
    · rcases update_cases h₂ with ⟨rfl, -⟩ | ⟨-, hold₂⟩
      · rfl
      · exact absurd (hlt _ _ _ hold₂) (lt_irrefl _)
    · rcases update_cases h₂ with ⟨-, ⟨⟩⟩ | ⟨-, hold₂⟩
      · exact absurd (hlt _ _ _ hold₁) (lt_irrefl _)
      · exact h.injective _ _ _ _ _ hold₁ hold₂

/-! ### What a batch tells the calls -/

/-- The mutations of a batch from position `k` on, with the positions of their entries. -/
def positioned (k : ℕ) (batch : List Entry) : List (ℕ × Mutation) :=
  (batch.zipIdx k).filterMap fun (e, p) => (StateMachine.mutation? e).map (p, ·)

theorem mem_positioned {k p : ℕ} {batch : List Entry} {m : Mutation} :
    (p, m) ∈ positioned k batch ↔
      k ≤ p ∧ ∃ e, batch[p - k]? = some e ∧ StateMachine.mutation? e = some m := by
  rw [positioned, List.mem_filterMap]
  constructor
  · rintro ⟨⟨e, p'⟩, hmem, hsome⟩
    obtain ⟨m', hm', ⟨⟩⟩ := Option.map_eq_some_iff.mp hsome
    obtain ⟨hle, he⟩ := List.mk_mem_zipIdx_iff_le_and_getElem?_sub.mp hmem
    exact ⟨hle, e, he, hm'⟩
  · rintro ⟨hle, e, he, hm⟩
    exact ⟨(e, p), List.mk_mem_zipIdx_iff_le_and_getElem?_sub.mpr ⟨hle, he⟩,
      Option.map_eq_some_iff.mpr ⟨m, hm, rfl⟩⟩

theorem map_snd_positioned (k : ℕ) (batch : List Entry) :
    (positioned k batch).map Prod.snd = mutations batch := by
  rw [positioned, List.map_filterMap, mutations]
  conv_rhs => rw [← List.zipIdx_map_fst k batch, List.filterMap_map]
  refine congrArg (List.filterMap · _) (funext fun x => ?_)
  simp only [Option.map_map, Function.comp_apply]
  exact Option.map_id'

theorem pairwise_positioned (k : ℕ) (batch : List Entry) :
    (positioned k batch).Pairwise fun a b => a.1 < b.1 := by
  have hpositions : (batch.zipIdx k).Pairwise fun a b => a.2 < b.2 := by
    rw [← List.pairwise_map, List.zipIdx_map_snd]
    exact List.pairwise_lt_range'
  refine hpositions.filterMap _ ?_
  rintro a a' hlt b hb b' hb'
  obtain ⟨m, -, rfl⟩ := Option.map_eq_some_iff.mp hb
  obtain ⟨m', -, rfl⟩ := Option.map_eq_some_iff.mp hb'
  exact hlt

variable {k : ℕ} {responses : List ClientWriteResponse}

/-- A call that was told stays told. -/
theorem told_deliver_of_told {p : ℕ} {m : Mutation} (h : Told calls t p m) :
    Told (deliver k responses calls) t p m := by
  obtain ⟨id, hid⟩ := h
  exact ⟨id, by simp only [deliver, hid]⟩

/-- A call whose entry is in the batch is told. -/
theorem told_deliver_of_committed {m : Mutation} {p : ℕ} (h : calls t = some ⟨m, .committed p⟩)
    (hge : k ≤ p) (hlt : p < k + responses.length) : Told (deliver k responses calls) t p m := by
  have hget : p - k < responses.length := by omega
  exact ⟨(responses.get ⟨p - k, hget⟩).mutationId, by
    simp only [deliver, h, if_pos hge, List.getElem?_eq_getElem hget, List.get_eq_getElem]⟩

/-- Those are all. -/
theorem told_deliver {p : ℕ} {m : Mutation} (h : Told (deliver k responses calls) t p m) :
    Told calls t p m ∨
      calls t = some ⟨m, .committed p⟩ ∧ k ≤ p ∧ p < k + responses.length := by
  obtain ⟨id, hid⟩ := h
  rw [deliver] at hid
  split at hid
  · rename_i m' p' hcall
    split at hid
    · rename_i hge
      split at hid
      · rename_i response hresponse
        have hlt := (List.getElem?_eq_some_iff.mp hresponse).1
        cases hid
        exact .inr ⟨hcall, hge, by omega⟩
      · cases hid
    · cases hid
  · exact .inl ⟨id, hid⟩

/-- A call that still waits after a batch was waiting before it, for something later. -/
theorem committed_deliver {m : Mutation} {p : ℕ}
    (h : deliver k responses calls t = some ⟨m, .committed p⟩) :
    calls t = some ⟨m, .committed p⟩ ∧ (k ≤ p → k + responses.length ≤ p) := by
  rw [deliver] at h
  split at h
  · rename_i m' p' hcall
    split at h
    · rename_i hge
      split at h
      · cases h
      · rename_i hnone
        have hle := List.getElem?_eq_none_iff.mp hnone
        cases h
        exact ⟨hcall, fun _ => by omega⟩
    · rename_i hlt
      cases h
      exact ⟨hcall, fun hge => absurd hge hlt⟩
  · rename_i hother
    exact absurd h (hother m p)

theorem Waiting.deliver (h : Waiting log k calls) :
    Waiting log (k + responses.length) (deliver k responses calls) := by
  refine ⟨fun t m p ht => ?_, fun t m p ht => ?_, fun t₁ t₂ m₁ m₂ p h₁ h₂ => ?_⟩
  · obtain ⟨hold, hlater⟩ := committed_deliver ht
    exact hlater (h.position_ge t m p hold)
  · exact h.logged t m p (committed_deliver ht).1
  · exact h.injective t₁ t₂ m₁ m₂ p (committed_deliver h₁).1 (committed_deliver h₂).1

end Calls

/-! ### What a batch applies -/

section Batches

variable {log : List Entry} {node : Node} {count : ℕ}

theorem Node.length_batch_le (node : Node) (log : List Entry) (count : ℕ) :
    (node.batch log count).length ≤ count ∧
      (node.batch log count).length ≤ log.length - node.applied := by
  rw [batch, List.length_take, List.length_drop]
  omega

theorem Node.take_applied_add (node : Node) (log : List Entry) (count : ℕ) :
    log.take (node.applied + (node.batch log count).length) =
      log.take node.applied ++ node.batch log count := by
  rw [List.take_add, batch, List.length_take, ← List.take_eq_take_min]

/-- The entry at a position that the batch covers. -/
theorem Node.getElem?_batch {p : ℕ} (hge : node.applied ≤ p)
    (hlt : p < node.applied + (node.batch log count).length) :
    (node.batch log count)[p - node.applied]? = log[p]? := by
  have hle := node.length_batch_le log count
  rw [batch, List.getElem?_take_of_lt (by omega), List.getElem?_drop, Nat.add_sub_cancel' hge]

end Batches

/-! ### The invariant -/

/-- A subscriber came when everything applied had been announced, and as long as it has not lagged
it has been given the stream from there on. -/
structure Tracks (k₀ : ℕ) (tx : Broadcast TopologyEvent) (sub : Subscriber) : Prop where
  position_eq : sub.position = k₀ + sub.receiver.start
  start_le : sub.receiver.start ≤ tx.sent.length
  follows : sub.receiver.lagged = false → sub.receiver.Follows tx

/-- **The invariant of a node** that announces in turn, started when `k₀` mutations had been
applied. -/
structure Inv (k₀ : ℕ) (log : List Entry) (node : Node) : Prop where
  applied_le : node.applied ≤ log.length
  start_le : k₀ ≤ (node.mutations log).length
  waiting : Waiting log node.applied node.calls
  stream : ∃ due, Dues node.applied node.calls due ∧
    node.tx.sent ++ (due.map Prod.snd).map mutationToEvent =
      ((node.mutations log).drop k₀).map mutationToEvent
  tracks : ∀ s sub, node.subscribers s = some sub → Tracks k₀ node.tx sub

section Invariant

variable {k₀ : ℕ} {log : List Entry} {node : Node}

theorem inv_start {log : List Entry} {dbs : ℕ → Db} {applied : ℕ → ℕ} {n : ℕ}
    (h : applied n ≤ log.length) :
    Inv (mutations (log.take (applied n))).length log ((start log dbs applied).nodes n) where
  applied_le := h
  start_le := le_rfl
  waiting := ⟨by rintro t m p ⟨⟩, by rintro t m p ⟨⟩, by rintro t t' m m' p ⟨⟩⟩
  stream := by
    refine ⟨[], ⟨.nil, fun p m => ⟨fun h => absurd h List.not_mem_nil, ?_⟩, ?_, ?_⟩, ?_⟩
    · rintro ⟨t, id, ⟨⟩⟩
    · rintro t p m ⟨id, ⟨⟩⟩
    · rintro t t' p m m' ⟨id, ⟨⟩⟩
    · rw [Node.mutations, start, List.drop_length]
      rfl
  tracks := by rintro s sub ⟨⟩

/-- The log grows: nothing changes for the node. -/
theorem Inv.append (h : Inv k₀ log node) (es : List Entry) : Inv k₀ (log ++ es) node := by
  have hmuts : node.mutations (log ++ es) = node.mutations log := by
    rw [Node.mutations, List.take_append_of_le_length h.applied_le]
    rfl
  refine ⟨?_, ?_, h.waiting.append es, ?_, h.tracks⟩
  · rw [List.length_append]
    exact h.applied_le.trans (Nat.le_add_right _ _)
  · rw [hmuts]
    exact h.start_le
  · rw [hmuts]
    exact h.stream

/-- A call that has not been told moves. -/
theorem Inv.setCall (h : Inv k₀ log node) {t : ℕ} {call : Option Call} {answers : List Answer}
    (hold : ∀ p m, ¬Told node.calls t p m) (happlied : ∀ m p id, call ≠ some ⟨m, .applied p id⟩)
    (hcommitted : ∀ m p, call ≠ some ⟨m, .committed p⟩) :
    Inv k₀ log { node.setCall t call with answers } := by
  obtain ⟨due, hdues, hsent⟩ := h.stream
  exact ⟨h.applied_le, h.start_le, h.waiting.update hcommitted,
    ⟨due, hdues.update hold happlied, hsent⟩, h.tracks⟩

theorem Inv.commit (h : Inv k₀ log node) {t : ℕ} {m : Mutation} {e : Entry}
    (hcall : node.calls t = some ⟨m, .submitted⟩) (he : StateMachine.mutation? e = some m) :
    Inv k₀ (log ++ [e]) (node.setCall t (some ⟨m, .committed log.length⟩)) := by
  have hgrown := h.append [e]
  obtain ⟨due, hdues, hsent⟩ := hgrown.stream
  have hold : ∀ p m', ¬Told node.calls t p m' := by
    rintro p m' ⟨id, hid⟩
    cases hcall.symm.trans hid
  exact ⟨hgrown.applied_le, hgrown.start_le, h.waiting.commit h.applied_le he,
    ⟨due, hdues.update hold (by rintro m p id ⟨⟩), hsent⟩, h.tracks⟩

/-- The event that is due is sent. -/
theorem Inv.send (h : Inv k₀ log node) {t p : ℕ} {m : Mutation} (htold : Told node.calls t p m)
    (hfirst : ∀ t' p' m', Told node.calls t' p' m' → p ≤ p') {answers : List Answer} :
    Inv k₀ log { node.setCall t none with tx := node.tx.send (mutationToEvent m), answers } := by
  obtain ⟨due, hdues, hsent⟩ := h.stream
  obtain ⟨rest, rfl, hrest⟩ := hdues.settle htold hfirst
  refine ⟨h.applied_le, h.start_le, h.waiting.update (by rintro m p ⟨⟩), ⟨rest, hrest, ?_⟩, ?_⟩
  · rw [Broadcast.sent_send, List.append_assoc]
    exact hsent
  · intro s sub hsub
    have htracks := h.tracks s sub hsub
    exact ⟨htracks.position_eq, Broadcast.le_length_send htracks.start_le _,
      fun hlag => (htracks.follows hlag).send _⟩

theorem Inv.setSubscriber (h : Inv k₀ log node) {s : ℕ} {sub : Subscriber}
    (hsub : Tracks k₀ node.tx sub) : Inv k₀ log (node.setSubscriber s sub) := by
  refine ⟨h.applied_le, h.start_le, h.waiting, h.stream, fun s' sub' hs' => ?_⟩
  change Function.update node.subscribers s (some sub) s' = some sub' at hs'
  rcases eq_or_ne s' s with rfl | hne
  · rw [Function.update_self] at hs'
    obtain rfl := Option.some.inj hs'
    exact hsub
  · rw [Function.update_of_ne hne] at hs'
    exact h.tracks s' sub' hs'

/-- When no event is due, everything applied has been announced. -/
theorem Inv.sent_eq (h : Inv k₀ log node) (hdue : ¬Due node) :
    node.tx.sent = ((node.mutations log).drop k₀).map mutationToEvent := by
  obtain ⟨due, hdues, hsent⟩ := h.stream
  rcases due with _ | ⟨⟨p, m⟩, rest⟩
  · rwa [List.map_nil, List.map_nil, List.append_nil] at hsent
  · obtain ⟨t, id, hid⟩ := (hdues.mem_iff p m).mp List.mem_cons_self
    exact absurd ⟨t, m, p, id, hid⟩ hdue

theorem Inv.tracks_receiver (h : Inv k₀ log node) (hdue : ¬Due node) :
    Tracks k₀ node.tx ⟨node.tx.receiver, (node.mutations log).length⟩ := by
  have hlen : node.tx.sent.length = (node.mutations log).length - k₀ := by
    rw [h.sent_eq hdue, List.length_map, List.length_drop]
  refine ⟨?_, le_rfl, fun _ => Broadcast.Receiver.follows_receiver _⟩
  change (node.mutations log).length = k₀ + node.tx.sent.length
  have hstart := h.start_le
  omega

theorem Tracks.tryRecv {tx : Broadcast TopologyEvent} {sub : Subscriber} (h : Tracks k₀ tx sub)
    (cap : ℕ) : Tracks k₀ tx { sub with receiver := sub.receiver.recv cap tx } := by
  refine ⟨?_, ?_, fun hlag => ?_⟩
  · rw [Broadcast.Receiver.start_recv]
    exact h.position_eq
  · rw [Broadcast.Receiver.start_recv]
    exact h.start_le
  · exact (h.follows (Broadcast.Receiver.lagged_of_recv hlag)).recv hlag

/-- A call that waits for an entry of the batch has its mutation there. -/
theorem Inv.covered (h : Inv k₀ log node) {count t p : ℕ} {m : Mutation}
    (ht : node.calls t = some ⟨m, .committed p⟩)
    (hp : p < node.applied + (node.batch log count).length) :
    ∃ e, (node.batch log count)[p - node.applied]? = some e ∧
      StateMachine.mutation? e = some m := by
  rw [Node.getElem?_batch (h.waiting.position_ge t m p ht) hp]
  exact h.waiting.logged t m p ht

section Deliver

variable {count : ℕ} {responses : List ClientWriteResponse}

/-- The mutations of a batch become due after those that are due already. -/
theorem Inv.dues_deliver (h : Inv k₀ log node)
    (hlen : responses.length = (node.batch log count).length)
    (hturn : InTurn log node (.apply count none)) {due : List (ℕ × Mutation)}
    (hdues : Dues node.applied node.calls due) :
    Dues (node.applied + (node.batch log count).length) (deliver node.applied responses node.calls)
      (due ++ positioned node.applied (node.batch log count)) := by
  have hnew : ∀ {t p m}, node.calls t = some ⟨m, .committed p⟩ →
      p < node.applied + responses.length →
        (p, m) ∈ positioned node.applied (node.batch log count) := by
    intro t p m ht hp
    exact mem_positioned.mpr ⟨h.waiting.position_ge t m p ht, h.covered ht (hlen ▸ hp)⟩
  refine ⟨?_, fun p m => ⟨fun hmem => ?_, ?_⟩, fun t p m htold => ?_, fun t t' p m m' ht ht' => ?_⟩
  · refine List.pairwise_append.mpr ⟨hdues.increasing, pairwise_positioned _ _, ?_⟩
    rintro ⟨p, m⟩ hmem ⟨p', m'⟩ hmem'
    obtain ⟨t, ht⟩ := (hdues.mem_iff p m).mp hmem
    exact (hdues.position_lt t p m ht).trans_le (mem_positioned.mp hmem').1
  · rcases List.mem_append.mp hmem with hold | hbatch
    · obtain ⟨t, ht⟩ := (hdues.mem_iff p m).mp hold
      exact ⟨t, told_deliver_of_told ht⟩
    · obtain ⟨hge, e, he, hm⟩ := mem_positioned.mp hbatch
      obtain ⟨t, ht⟩ := hturn _ e m he hm
      have hlt := (List.getElem?_eq_some_iff.mp he).1
      rw [Nat.add_sub_cancel' hge] at ht
      exact ⟨t, told_deliver_of_committed ht hge (by omega)⟩
  · rintro ⟨t, ht⟩
    rcases told_deliver ht with hold | ⟨hcall, -, hp⟩
    · exact List.mem_append_left _ ((hdues.mem_iff p m).mpr ⟨t, hold⟩)
    · exact List.mem_append_right _ (hnew hcall hp)
  · rcases told_deliver htold with hold | ⟨-, -, hp⟩
    · exact (hdues.position_lt t p m hold).trans_le (Nat.le_add_right _ _)
    · exact hlen ▸ hp
  · rcases told_deliver ht with hold | ⟨hcall, hge, -⟩ <;>
      rcases told_deliver ht' with hold' | ⟨hcall', hge', -⟩
    · exact hdues.injective t t' p m m' hold hold'
    · exact absurd (hdues.position_lt t p m hold) (not_lt.mpr hge')
    · exact absurd (hdues.position_lt t' p m' hold') (not_lt.mpr hge)
    · exact h.waiting.injective t t' m m' p hcall hcall'

/-- **A batch is applied**, and the events of its mutations are due. -/
theorem Inv.apply (h : Inv k₀ log node) {db : Db}
    (hlen : responses.length = (node.batch log count).length)
    (hturn : InTurn log node (.apply count none)) :
    Inv k₀ log { node with
      db
      applied := node.applied + (node.batch log count).length
      calls := deliver node.applied responses node.calls } := by
  have hbatch := node.length_batch_le log count
  have hle := h.applied_le
  have hmuts : mutations (log.take (node.applied + (node.batch log count).length)) =
      node.mutations log ++ mutations (node.batch log count) := by
    rw [node.take_applied_add, StateMachine.mutations_append]
    rfl
  have hwaiting : Waiting log (node.applied + (node.batch log count).length)
      (deliver node.applied responses node.calls) := hlen ▸ h.waiting.deliver
  refine ⟨?_, ?_, hwaiting, ?_, h.tracks⟩
  · change node.applied + (node.batch log count).length ≤ log.length
    omega
  · rw [Node.mutations, hmuts, List.length_append]
    exact h.start_le.trans (Nat.le_add_right _ _)
  · rw [Node.mutations, hmuts]
    obtain ⟨due, hdues, hsent⟩ := h.stream
    refine ⟨_, h.dues_deliver hlen hturn hdues, ?_⟩
    rw [List.map_append, map_snd_positioned, List.map_append, ← List.append_assoc, hsent,
      List.drop_append_of_le_length h.start_le, List.map_append]

end Deliver

variable [SnapshotApply] {bin : Bincode}

/-- **Every step of a node that announces in turn keeps the invariant.** -/
theorem Inv.step (h : Inv k₀ log node) {a : NodeAction} {log' : List Entry} {node' : Node}
    (hturn : InTurn log node a) (hs : node.step bin log a = some (log', node')) :
    Inv k₀ log' node' := by
  cases a with
  | applyMutation t m =>
    simp only [Node.step] at hs
    split at hs
    · rename_i hcall
      cases hs
      refine h.setCall ?_ (by rintro m p id ⟨⟩) (by rintro m p ⟨⟩)
      rintro p m' ⟨id, hid⟩
      cases hcall.symm.trans hid
    · cases hs
  | commit t logId =>
    simp only [Node.step] at hs
    split at hs
    · rename_i m hcall
      cases hs
      exact h.commit hcall rfl
    · cases hs
  | apply count fault =>
    rcases StateMachine.apply_cases bin node.db (node.batch log count) fault with
      ⟨e, happly⟩ | ⟨state, db, -, happly, -⟩
    · simp only [Node.step, happly] at hs
      cases hs
      exact h
    · simp only [Node.step, happly] at hs
      cases hs
      exact h.apply (StateMachine.length_applyEntries state _) hturn
  | send t =>
    simp only [Node.step] at hs
    split at hs
    · rename_i m p id hcall
      cases hs
      refine h.send ⟨id, hcall⟩ ?_
      rintro t' p' m' ⟨id', hid'⟩
      exact hturn m p id hcall t' m' p' id' hid'
    · cases hs
  | fail t cause =>
    simp only [Node.step] at hs
    split at hs
    · cases hs
      refine h.setCall ?_ (by rintro m p id ⟨⟩) (by rintro m p ⟨⟩)
      rintro p m' ⟨id, hid⟩
      exact hturn m' p id hid
    · cases hs
  | subscribe s =>
    simp only [Node.step] at hs
    split at hs
    · cases hs
      exact h.setSubscriber (h.tracks_receiver hturn)
    · cases hs
  | tryRecv s =>
    simp only [Node.step] at hs
    split at hs
    · cases hs
    · rename_i sub hsub
      cases hs
      exact h.setSubscriber ((h.tracks s sub hsub).tryRecv _)

end Invariant

/-! ### Runs of the cluster -/

/-- What a step has to meet for the sake of one node. -/
def Guarded (n : ℕ) (w : World) : Action → Prop
  | .node n' a => n' = n → InTurn w.log (w.nodes n) a
  | .append _ => True

section Replicas

variable [SnapshotApply] {bin : Bincode} {log : List Entry} {node : Node}

/-- A step of a node only ever adds to the log. -/
theorem Node.log_of_step {a : NodeAction} {log' : List Entry} {node' : Node}
    (hs : node.step bin log a = some (log', node')) : ∃ es, log' = log ++ es := by
  cases a <;> simp only [Node.step] at hs <;> split at hs <;> cases hs <;>
    first | exact ⟨[], (List.append_nil _).symm⟩ | exact ⟨_, rfl⟩

/-- **A step of the cluster as one node sees it**: its own, or one that at most adds to the log. -/
theorem step_cases {w w' : World} {a : Action} (hs : step bin w a = some w') (n : ℕ) :
    (∃ b, a = .node n b ∧ (w.nodes n).step bin w.log b = some (w'.log, w'.nodes n)) ∨
      ∃ es, w'.log = w.log ++ es ∧ w'.nodes n = w.nodes n := by
  cases a with
  | append e =>
    cases hs
    exact .inr ⟨[e], rfl, rfl⟩
  | node n' b =>
    rcases hn : (w.nodes n').step bin w.log b with _ | ⟨log', node'⟩
    · simp only [step, hn] at hs
      cases hs
    · simp only [step, hn] at hs
      cases hs
      rcases eq_or_ne n' n with rfl | hne
      · have hself : Function.update w.nodes n' node' n' = node' := Function.update_self ..
        exact .inl ⟨b, rfl, hn.trans (congrArg (fun node => some (log', node)) hself.symm)⟩
      · obtain ⟨es, rfl⟩ := Node.log_of_step hn
        exact .inr ⟨es, rfl, Function.update_of_ne hne.symm ..⟩

/-- **A node's database holds what it has applied.** -/
structure Replica (bin : Bincode) (log : List Entry) (node : Node) : Prop where
  applied_le : node.applied ≤ log.length
  holds : StateMachine.Holds bin node.db (StateMachine.stateAfter (log.take node.applied))

theorem Replica.append (h : Replica bin log node) (es : List Entry) :
    Replica bin (log ++ es) node := by
  refine ⟨?_, ?_⟩
  · rw [List.length_append]
    exact h.applied_le.trans (Nat.le_add_right _ _)
  · rw [List.take_append_of_le_length h.applied_le]
    exact h.holds

theorem Replica.step (h : Replica bin log node) {a : NodeAction} {log' : List Entry} {node' : Node}
    (hs : node.step bin log a = some (log', node')) : Replica bin log' node' := by
  cases a with
  | apply count fault =>
    rcases StateMachine.apply_cases bin node.db (node.batch log count) fault with
      ⟨e, happly⟩ | ⟨state, db, hread, happly, hholds⟩
    · simp only [Node.step, happly] at hs
      cases hs
      exact h
    · obtain rfl := Except.ok.inj (h.holds.readState_eq.symm.trans hread)
      simp only [Node.step, happly] at hs
      cases hs
      have hbatch := node.length_batch_le log count
      have hle := h.applied_le
      refine ⟨?_, ?_⟩
      · change node.applied + (node.batch log count).length ≤ log.length
        omega
      · rw [node.take_applied_add, StateMachine.stateAfter_append]
        exact hholds
  | commit t logId =>
    simp only [Node.step] at hs
    split at hs <;> cases hs
    exact ⟨(h.append _).applied_le, (h.append _).holds⟩
  | _ =>
    simp only [Node.step] at hs
    split at hs <;> cases hs
    exact ⟨h.applied_le, h.holds⟩

/-- **What `get_topology` of a node returns** is the fold of the mutations the node has applied:
these are the mutations that its subscribers are to be told of. -/
theorem topology_of_run {dbs : ℕ → Db} {applied : ℕ → ℕ} {n : ℕ} {as : List Action} {w : World}
    (hstart : Replica bin log ((start log dbs applied).nodes n))
    (hrun : Transition.run (step bin) (start log dbs applied) as = some w) :
    StateMachine.topology bin (w.nodes n).db none =
      .ok (TopologySnapshot.new.applyAll ((w.nodes n).mutations w.log)) := by
  have hreplica : Replica bin w.log (w.nodes n) := by
    refine Transition.invariant (P := fun w : World => Replica bin w.log (w.nodes n))
      (fun w a w' h hs => ?_) hstart hrun
    rcases step_cases hs n with ⟨b, -, hb⟩ | ⟨es, hlog, hnode⟩
    · exact h.step hb
    · rw [hlog, hnode]
      exact h.append es
  rw [hreplica.holds.topology_eq, StateMachine.stateAfter, StateMachine.applyEntries_state]
  rfl

end Replicas

section Runs

variable {k₀ : ℕ} {log : List Entry} {node : Node}

/-- What a subscriber that has not lagged has seen. -/
theorem Inv.announced (h : Inv k₀ log node) {s : ℕ} {sub : Subscriber}
    (hsub : node.subscribers s = some sub) (hlag : sub.receiver.lagged = false) :
    Announced log node sub := by
  have htracks := h.tracks s sub hsub
  have hfollows := htracks.follows hlag
  have hexpected : expected log node sub =
      (((node.mutations log).drop k₀).map mutationToEvent).drop sub.receiver.start := by
    rw [expected, htracks.position_eq, ← List.map_drop, List.drop_drop]
  rw [Announced, hexpected]
  refine ⟨?_, fun hquiet hempty => ?_⟩
  · obtain ⟨due, -, hsent⟩ := h.stream
    rw [← hsent, List.drop_append_of_le_length htracks.start_le, hfollows.seen_eq]
    exact (List.take_prefix _ _).trans (List.prefix_append _ _)
  · have hdue : ¬Due node := by
      rintro ⟨t, m, p, id, hid⟩
      cases (hquiet t).symm.trans hid
    rw [hfollows.eq_of_empty hempty, h.sent_eq hdue]

variable [SnapshotApply] (bin : Bincode)

variable {bin} in
theorem Inv.step_world {n : ℕ} {w w' : World} {a : Action} (h : Inv k₀ w.log (w.nodes n))
    (hguard : Guarded n w a) (hs : Distributed.step bin w a = some w') :
    Inv k₀ w'.log (w'.nodes n) := by
  rcases step_cases hs n with ⟨b, rfl, hb⟩ | ⟨es, hlog, hnode⟩
  · exact h.step (hguard rfl) hb
  · rw [hlog, hnode]
    exact h.append es

/-- **A node that announces in turn is followed exactly.** In every run of a cluster that starts
with nodes somewhere in the log, in which the steps of a node meet the condition, a subscriber of
that node's engine that does not lag has seen one event for each mutation the node's state machine
has applied since, in that order. -/
theorem announced_of_run {log : List Entry} {dbs : ℕ → Db} {applied : ℕ → ℕ}
    (hstart : ∀ n, applied n ≤ log.length) {n : ℕ} {as : List Action} {w : World}
    (hmeets : Transition.Meets (step bin) (Guarded n) (start log dbs applied) as)
    (hrun : Transition.run (step bin) (start log dbs applied) as = some w) {s : ℕ}
    {sub : Subscriber} (hsub : (w.nodes n).subscribers s = some sub)
    (hlag : sub.receiver.lagged = false) : Announced w.log (w.nodes n) sub := by
  have hinv : Inv (mutations (log.take (applied n))).length w.log (w.nodes n) :=
    Transition.invariant_of_meets (P := fun w : World => Inv _ w.log (w.nodes n))
      (fun _ _ _ h hguard hs => h.step_world hguard hs) (inv_start (hstart n)) hmeets hrun
  exact hinv.announced hsub hlag

end Runs

section Scenarios

variable [SnapshotApply]

/-- A node after a batch that goes through, from a known state. -/
def Node.afterBatch (bin : Bincode) (node : Node) (log : List Entry) (count : ℕ)
    (state : StateMachine.PersistedState) : Node :=
  { node with
    db := { node.db with
      state := some (bin.state.serialize
        (StateMachine.applyEntries state (node.batch log count)).1) }
    applied := node.applied + (node.batch log count).length
    calls := deliver node.applied (StateMachine.applyEntries state (node.batch log count)).2
      node.calls }

theorem step_apply {bin : Bincode} {w : World} {n : ℕ} {state : StateMachine.PersistedState}
    (h : StateMachine.Holds bin (w.nodes n).db state) (count : ℕ) :
    step bin w (.node n (.apply count none)) =
      some ⟨w.log, Function.update w.nodes n ((w.nodes n).afterBatch bin w.log count state)⟩ := by
  simp only [step, Node.step, StateMachine.apply, h.readState_eq]
  rfl

end Scenarios

/-- A cluster that has just been set up. -/
def newCluster : World := start [] (fun _ => StateMachine.newReplica) (fun _ => 0)

theorem holds_newReplica : StateMachine.Holds Bincode.ofFormats StateMachine.newReplica
    StateMachine.PersistedState.default := rfl

/-- Two calls of one node, whose mutations are applied in one batch; the threads send their events
in the order given. -/
def twoCalls (first second : ℕ) : List Action :=
  [.node 0 (.subscribe 0), .node 0 (.applyMutation 5 (.addNode ⟨7, [], []⟩)),
    .node 0 (.applyMutation 6 (.removeNode 7)), .node 0 (.commit 5 ⟨⟨1, 0⟩, 1⟩),
    .node 0 (.commit 6 ⟨⟨1, 0⟩, 2⟩), .node 0 (.apply 2 none), .node 0 (.send first),
    .node 0 (.send second), .node 0 (.tryRecv 0), .node 0 (.tryRecv 0)]

theorem announced_of_run_inTurn :
    letI := SnapshotApply.documented
    ∃ w sub, Transition.run (step Bincode.ofFormats) newCluster (twoCalls 5 6) = some w ∧
      (w.nodes 0).subscribers 0 = some sub ∧
      sub.receiver.seen = [.nodeAdded ⟨7, [], []⟩, .nodeRemoved 7] ∧
      Announced w.log (w.nodes 0) sub := by
  let := SnapshotApply.documented
  have hrun : Transition.run (step Bincode.ofFormats) newCluster (twoCalls 5 6) = some _ :=
    (Transition.run_of_step rfl _).trans <| (Transition.run_of_step rfl _).trans <|
    (Transition.run_of_step rfl _).trans <| (Transition.run_of_step rfl _).trans <|
    (Transition.run_of_step rfl _).trans <|
    (Transition.run_of_step (step_apply holds_newReplica 2) _).trans rfl
  refine ⟨_, _, hrun, rfl, rfl, announced_of_run Bincode.ofFormats (fun _ => le_rfl) ?_ hrun
    (s := 0) rfl rfl⟩
  refine Transition.meets_cons (fun _ => ?_) rfl <| Transition.meets_cons (fun _ => trivial) rfl <|
    Transition.meets_cons (fun _ => trivial) rfl <| Transition.meets_cons (fun _ => trivial) rfl <|
    Transition.meets_cons (fun _ => trivial) rfl <|
    Transition.meets_cons (fun _ => ?_) (step_apply holds_newReplica 2) <|
    Transition.meets_cons (fun _ => ?_) rfl <| Transition.meets_cons (fun _ => ?_) rfl <|
    Transition.meets_cons (fun _ => trivial) rfl <|
    Transition.meets_cons (fun _ => trivial) rfl trivial
  · rintro ⟨t, m, p, id, ⟨⟩⟩
  · -- both mutations of the batch have a call that waits
    rintro (_ | _ | i) e m ⟨⟩ ⟨⟩
    · exact ⟨5, rfl⟩
    · exact ⟨6, rfl⟩
  · rintro m p id ⟨⟩ t' m' p' id' -
    exact Nat.zero_le p'
  · -- the other call has returned
    rintro m p id ⟨⟩ t' m' p' id' hid'
    by_cases h6 : t' = 6
    · subst h6
      cases hid'
      exact le_rfl
    by_cases h5 : t' = 5
    · subst h5
      cases hid'
    · simp [h5, h6, Node.setCall, Node.setSubscriber, Node.afterBatch, deliver, start] at hid'

/-! ### Mutations that are not announced as they are applied -/

/-- A mutation is submitted through node 0, and both nodes apply it; node 1 has a subscriber. -/
def elsewhere : List Action :=
  [.node 1 (.subscribe 0), .node 0 (.applyMutation 5 (.addNode ⟨7, [], []⟩)),
    .node 0 (.commit 5 ⟨⟨1, 0⟩, 1⟩), .node 0 (.apply 1 none), .node 0 (.send 5),
    .node 1 (.apply 1 none), .node 1 (.tryRecv 0)]

/-- A node that has applied what was submitted to another one. -/
theorem topology_of_run_elsewhere :
    letI := SnapshotApply.documented
    ∃ w, Transition.run (step Bincode.ofFormats) newCluster elsewhere = some w ∧
      StateMachine.topology Bincode.ofFormats (w.nodes 1).db none =
        .ok (TopologySnapshot.new.applyAll [.addNode ⟨7, [], []⟩]) := by
  let := SnapshotApply.documented
  have hrun : Transition.run (step Bincode.ofFormats) newCluster elsewhere = some _ :=
    (Transition.run_of_step rfl _).trans <| (Transition.run_of_step rfl _).trans <|
    (Transition.run_of_step rfl _).trans <|
    (Transition.run_of_step (step_apply holds_newReplica 1) _).trans <|
    (Transition.run_of_step rfl _).trans <|
    (Transition.run_of_step (step_apply holds_newReplica 1) _).trans rfl
  have hstart : Replica Bincode.ofFormats [] (newCluster.nodes 1) := ⟨le_rfl, holds_newReplica⟩
  exact ⟨_, hrun, topology_of_run hstart hrun⟩

/-- **Events are lost and out of order.** A node that applies a mutation submitted elsewhere tells
its subscribers nothing. A node whose calls announce their mutations in another order than they were
applied tells them that node 7 was removed and then added, while it has been added and then
removed. -/
theorem events_lost_and_disordered :
    letI := SnapshotApply.documented
    (∃ w sub, Transition.run (step Bincode.ofFormats) newCluster elsewhere = some w ∧
      (w.nodes 1).subscribers 0 = some sub ∧ sub.receiver.lagged = false ∧
      sub.receiver.seen = [] ∧ expected w.log (w.nodes 1) sub = [.nodeAdded ⟨7, [], []⟩] ∧
      ¬Announced w.log (w.nodes 1) sub) ∧
    ∃ w sub, Transition.run (step Bincode.ofFormats) newCluster (twoCalls 6 5) = some w ∧
      (w.nodes 0).subscribers 0 = some sub ∧ sub.receiver.lagged = false ∧
      sub.receiver.seen = [.nodeRemoved 7, .nodeAdded ⟨7, [], []⟩] ∧
      expected w.log (w.nodes 0) sub = [.nodeAdded ⟨7, [], []⟩, .nodeRemoved 7] ∧
      ¬Announced w.log (w.nodes 0) sub := by
  let := SnapshotApply.documented
  constructor
  · refine ⟨_, _, (Transition.run_of_step rfl _).trans <| (Transition.run_of_step rfl _).trans <|
      (Transition.run_of_step rfl _).trans <|
      (Transition.run_of_step (step_apply holds_newReplica 1) _).trans <|
      (Transition.run_of_step rfl _).trans <|
      (Transition.run_of_step (step_apply holds_newReplica 1) _).trans rfl,
      rfl, rfl, rfl, rfl, ?_⟩
    rintro ⟨-, hall⟩
    cases hall (fun _ => rfl) rfl
  · refine ⟨_, _, (Transition.run_of_step rfl _).trans <| (Transition.run_of_step rfl _).trans <|
      (Transition.run_of_step rfl _).trans <| (Transition.run_of_step rfl _).trans <|
      (Transition.run_of_step rfl _).trans <|
      (Transition.run_of_step (step_apply holds_newReplica 2) _).trans rfl,
      rfl, rfl, rfl, rfl, ?_⟩
    rintro ⟨hpre, -⟩
    exact absurd (List.prefix_iff_eq_take.mp hpre) (by decide)

end Distributed

end SonicBrew
