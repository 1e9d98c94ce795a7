import Mathlib.Logic.Function.Basic
import SonicBrew.Lib.Transition
import SonicBrew.SessionStore.Engine
import SonicBrew.SessionStore.RaftTypes

/-!
# The rebuild thread and the store

The rebuild thread subscribes to the store's events, builds a graph from the topology it finds,
and then polls its receiver: an event, or the news that events were dropped, makes it read the
topology and build again. It never looks at what an event says. Meanwhile any number of threads
apply mutations.

Everything here turns on the order of three writes. A call of `apply_mutation` holds the
engine's mutex while it logs its mutation, updates the snapshot, and *only then* sends the event.
So once a call has returned, the thread's receiver has something to read that was sent after the
update; and as long as it has, the thread is going to read the topology again. A dropped event
does no harm, since what is dropped is never the last one.

The steps of a call are separate actions, so that the thread can run between any two of them;
what the mutex rules out is that another call, a subscription or a read of the topology does. An
uninterrupted call is the call of the sequential model
(`SonicBrew.Rebuild.run_uninterrupted_ok`).
-/

namespace SonicBrew

namespace Rebuild

open RaftEngine (channelCapacity)

/-- How far a call of `apply_mutation` has come. -/
inductive CallPhase where
  /-- Before the mutex. -/
  | waiting
  /-- The mutex is held. -/
  | locked
  /-- The mutation is in the log. -/
  | persisted
  /-- The snapshot and the counter have moved. -/
  | updated
  /-- The event is out. -/
  | sent
  deriving DecidableEq, Repr

/-- A running call. -/
structure Call where
  mutation : Mutation
  phase : CallPhase

/-- What the rebuild thread is about to do. -/
inductive ThreadPhase where
  /-- To subscribe. -/
  | unsubscribed
  /-- To read the topology, in `rebuild_once`. -/
  | rebuilding
  /-- To come back from `build_graph`. -/
  | building
  /-- To poll: it is between iterations. -/
  | idle
  deriving DecidableEq, Repr

/-- The rebuild thread: where it is, its receiver, and the topology of its most recent call of
`build_graph`. -/
structure Thread where
  phase : ThreadPhase
  cursor : ℕ
  built : Option TopologySnapshot

/-- The engine, its mutex, the calls that are running by thread, and the rebuild thread. -/
structure World where
  engine : RaftEngine.EngineState
  lock : Option ℕ
  calls : ℕ → Option Call
  thread : Thread

/-- One step of one thread. -/
inductive Action where
  | call (t : ℕ) (m : Mutation)
  | lock (t : ℕ)
  | persist (t : ℕ) (fault : Option (RaftEngine.PersistStep × String))
  | update (t : ℕ)
  | send (t : ℕ)
  | unlock (t : ℕ)
  | subscribe
  | getTopology
  | built
  | tryRecv

/-- No call is running, and the rebuild thread has not been spawned. -/
def start (engine : RaftEngine.EngineState) : World :=
  ⟨engine, none, fun _ => none, ⟨.unsubscribed, 0, none⟩⟩

/-- Where a thread's call is now. -/
def World.setCall (w : World) (t : ℕ) (c : Option Call) : World :=
  { w with calls := Function.update w.calls t c }

section Steps

variable [SnapshotApply] (json : Codec Mutation)

/-- One step, if it is possible. -/
def step (w : World) : Action → Option World
  | .call t m =>
      match w.calls t with
      | none => some (w.setCall t (some ⟨m, .waiting⟩))
      | some _ => none
  | .lock t =>
      match w.calls t, w.lock with
      | some ⟨m, .waiting⟩, none => some { w.setCall t (some ⟨m, .locked⟩) with lock := some t }
      | _, _ => none
  | .persist t fault =>
      match w.calls t with
      | some ⟨m, .locked⟩ =>
          match RaftEngine.persist json w.engine.db w.engine.nextId m fault with
          | .ok db =>
              some { w.setCall t (some ⟨m, .persisted⟩) with engine := { w.engine with db } }
          -- an early return: the guard is dropped on the way out
          | .error _ => some { w.setCall t none with lock := none }
      | _ => none
  | .update t =>
      match w.calls t with
      | some ⟨m, .persisted⟩ =>
          some { w.setCall t (some ⟨m, .updated⟩) with
            engine := { w.engine with
              snapshot := w.engine.snapshot.apply m
              nextId := w.engine.nextId + 1 } }
      | _ => none
  | .send t =>
      match w.calls t with
      | some ⟨m, .updated⟩ =>
          some { w.setCall t (some ⟨m, .sent⟩) with
            engine := { w.engine with tx := w.engine.tx.send (mutationToEvent m) } }
      | _ => none
  | .unlock t =>
      match w.calls t with
      | some ⟨_, .sent⟩ => some { w.setCall t none with lock := none }
      | _ => none
  | .subscribe =>
      -- `subscribe` takes the mutex, so it waits for a running call
      match w.thread.phase, w.lock with
      | .unsubscribed, none =>
          some { w with thread :=
            { w.thread with phase := .rebuilding, cursor := w.engine.tx.subscribe } }
      | _, _ => none
  | .getTopology =>
      -- and so does `get_topology`
      match w.thread.phase, w.lock with
      | .rebuilding, none =>
          some { w with thread :=
            { w.thread with phase := .building, built := some w.engine.snapshot } }
      | _, _ => none
  | .built =>
      match w.thread.phase with
      | .building => some { w with thread := { w.thread with phase := .idle } }
      | _ => none
  | .tryRecv =>
      match w.thread.phase with
      | .idle =>
          match w.engine.tx.tryRecv channelCapacity w.thread.cursor with
          | (.empty, _) => some w
          | (.ok _, cursor) =>
              some { w with thread := { w.thread with phase := .rebuilding, cursor } }
          | (.lagged _, cursor) =>
              some { w with thread := { w.thread with phase := .rebuilding, cursor } }
      | _ => none

/-- What `get_topology` returns: it waits for the mutex. -/
def getTopology (w : World) : Option TopologySnapshot :=
  match w.lock with
  | none => some w.engine.snapshot
  | some _ => none

end Steps

/-! ### The mutex -/

/-- Whether a call is inside the section that the mutex protects. -/
def InSection : Option Call → Prop
  | none => False
  | some c => c.phase ≠ .waiting

/-- **Mutual exclusion**: the calls in the section are the holder of the mutex. -/
def Exclusive (w : World) : Prop := ∀ t, w.lock = some t ↔ InSection (w.calls t)

/-- One thread's call and the mutex change together, and nothing changes for the others. -/
theorem Exclusive.of_update {w : World} (h : Exclusive w) {t : ℕ} {lock : Option ℕ}
    {c : Option Call} {calls : ℕ → Option Call} (hcalls : calls = Function.update w.calls t c)
    (hself : lock = some t ↔ InSection c)
    (hother : ∀ t', t' ≠ t → (lock = some t' ↔ w.lock = some t'))
    {engine : RaftEngine.EngineState} {thread : Thread} :
    Exclusive ⟨engine, lock, calls, thread⟩ := by
  intro t'
  change lock = some t' ↔ InSection (calls t')
  rw [hcalls]
  by_cases ht : t' = t
  · rw [ht, Function.update_self]
    exact hself
  · rw [Function.update_of_ne ht, hother t' ht]
    exact h t'

/-! ### The invariant -/

/-- **The rebuild invariant.** The calls in the section are the holder of the mutex, and the
receiver has not run past the stream. And once the thread has read the topology, then if its
receiver is empty and no call has updated the snapshot without having sent its event, what it has
read is the current topology. -/
structure Inv (w : World) : Prop where
  exclusive : Exclusive w
  cursor_le : w.thread.cursor ≤ w.engine.tx.sent.length
  built_eq : w.thread.phase = .building ∨ w.thread.phase = .idle →
    w.engine.tx.Drained w.thread.cursor →
    (∀ t m, w.calls t ≠ some ⟨m, .updated⟩) → w.thread.built = some w.engine.snapshot

theorem inv_start (engine : RaftEngine.EngineState) : Inv (start engine) := by
  refine ⟨fun t => ?_, Nat.zero_le _, fun h => ?_⟩
  · exact ⟨fun h => absurd h (by simp [start]), fun h => absurd h (by simp [start, InSection])⟩
  · rcases h with h | h
    · exact absurd h (by simp [start])
    · exact absurd h (by simp [start])

/-- A thread that is about to read the topology has promised nothing yet. -/
theorem inv_of_rebuilding {w : World} (hex : Exclusive w)
    (hcur : w.thread.cursor ≤ w.engine.tx.sent.length) (hphase : w.thread.phase = .rebuilding) :
    Inv w := by
  refine ⟨hex, hcur, fun h => ?_⟩
  rw [hphase] at h
  rcases h with h | h
  · exact absurd h (by simp)
  · exact absurd h (by simp)

/-- A call moves without touching the snapshot or the stream, and not out of the phase in
which its event is due. -/
theorem Inv.of_quiet {w : World} (h : Inv w) {t : ℕ} {c : Option Call} {lock : Option ℕ}
    {engine : RaftEngine.EngineState} (hsnap : engine.snapshot = w.engine.snapshot)
    (htx : engine.tx = w.engine.tx) (hold : ∀ m, w.calls t ≠ some ⟨m, .updated⟩)
    (hself : lock = some t ↔ InSection c)
    (hother : ∀ t', t' ≠ t → (lock = some t' ↔ w.lock = some t')) :
    Inv ⟨engine, lock, Function.update w.calls t c, w.thread⟩ := by
  refine ⟨h.exclusive.of_update rfl hself hother, ?_, ?_⟩
  · change w.thread.cursor ≤ engine.tx.sent.length
    rw [htx]
    exact h.cursor_le
  · intro hphase hdrained hnone
    change w.thread.built = some engine.snapshot
    rw [hsnap]
    change engine.tx.Drained w.thread.cursor at hdrained
    rw [htx] at hdrained
    refine h.built_eq hphase hdrained fun t' m => ?_
    by_cases ht : t' = t
    · rw [ht]
      exact hold m
    · have hne := hnone t' m
      change Function.update w.calls t c t' ≠ _ at hne
      rwa [Function.update_of_ne ht] at hne

/-- The holder of the mutex is whoever is in the section. -/
theorem Inv.lock_eq {w : World} (h : Inv w) {t : ℕ} {c : Call} (hc : w.calls t = some c)
    (hp : c.phase ≠ .waiting) : w.lock = some t := by
  refine (h.exclusive t).mpr ?_
  rw [hc]
  exact hp

/-- Releasing the mutex is nothing to those who did not hold it. -/
theorem none_eq_some_iff_of_ne {w : World} {t : ℕ} (h : w.lock = some t) (t' : ℕ) (ht : t' ≠ t) :
    (none : Option ℕ) = some t' ↔ w.lock = some t' := by
  rw [h]
  constructor
  · intro hc
    exact absurd hc (by simp)
  · intro hc
    exact absurd (Option.some.inj hc).symm ht

section Invariant

variable [SnapshotApply] {json : Codec Mutation}

/-- **Every step of a call keeps the invariant.** -/
theorem Inv.step_call {w w' : World} (h : Inv w) {a : Action} {t : ℕ}
    (ha : (∃ m, a = .call t m) ∨ a = .lock t ∨ (∃ fault, a = .persist t fault) ∨ a = .update t ∨
      a = .send t ∨ a = .unlock t) (hs : step json w a = some w') : Inv w' := by
  rcases ha with ⟨m, rfl⟩ | rfl | ⟨fault, rfl⟩ | rfl | rfl | rfl
  · simp only [step] at hs
    split at hs
    · rename_i hc
      obtain rfl := Option.some.inj hs
      refine h.of_quiet rfl rfl (fun m' => by simp [hc]) ?_ fun _ _ => Iff.rfl
      rw [h.exclusive t, hc]
      simp [InSection]
    · simp at hs
  · simp only [step] at hs
    split at hs
    · rename_i m hc hl
      obtain rfl := Option.some.inj hs
      refine h.of_quiet rfl rfl (fun m' => by simp [hc]) (by simp [InSection]) fun t' ht => ?_
      rw [hl]
      simp [Ne.symm ht]
    · simp at hs
  · simp only [step] at hs
    split at hs
    · rename_i m hc
      have hlock := h.lock_eq hc (by simp)
      split at hs
      · obtain rfl := Option.some.inj hs
        refine h.of_quiet rfl rfl (fun m' => by simp [hc]) ?_ fun _ _ => Iff.rfl
        change w.lock = some t ↔ _
        simp [hlock, InSection]
      · obtain rfl := Option.some.inj hs
        exact h.of_quiet rfl rfl (fun m' => by simp [hc]) (by simp [InSection])
          (none_eq_some_iff_of_ne hlock)
    · simp at hs
  · -- the snapshot moves: until the event is out, nothing is promised
    simp only [step] at hs
    split at hs
    · rename_i m hc
      have hlock := h.lock_eq hc (by simp)
      obtain rfl := Option.some.inj hs
      refine ⟨h.exclusive.of_update rfl ?_ fun _ _ => Iff.rfl, h.cursor_le, ?_⟩
      · simp [hlock, InSection]
      · intro _ _ hnone
        have hself := hnone t m
        change Function.update w.calls t _ t ≠ _ at hself
        exact absurd (Function.update_self ..) hself
    · simp at hs
  · -- the event is out: the receiver is not empty
    simp only [step] at hs
    split at hs
    · rename_i m hc
      have hlock := h.lock_eq hc (by simp)
      obtain rfl := Option.some.inj hs
      refine ⟨h.exclusive.of_update rfl ?_ fun _ _ => Iff.rfl,
        Broadcast.le_length_send h.cursor_le _, ?_⟩
      · simp [hlock, InSection]
      · intro _ hdrained
        exact absurd hdrained (Broadcast.not_drained_send h.cursor_le _)
    · simp at hs
  · simp only [step] at hs
    split at hs
    · rename_i m hc
      have hlock := h.lock_eq hc (by simp)
      obtain rfl := Option.some.inj hs
      exact h.of_quiet rfl rfl (fun m' => by simp [hc]) (by simp [InSection])
        (none_eq_some_iff_of_ne hlock)
    · simp at hs

/-- **Every step of the rebuild thread keeps the invariant.** -/
theorem Inv.step_thread {w w' : World} (h : Inv w) {a : Action}
    (ha : a = .subscribe ∨ a = .getTopology ∨ a = .built ∨ a = .tryRecv)
    (hs : step json w a = some w') : Inv w' := by
  rcases ha with rfl | rfl | rfl | rfl
  · simp only [step] at hs
    split at hs
    · obtain rfl := Option.some.inj hs
      exact inv_of_rebuilding h.exclusive (le_refl _) rfl
    · simp at hs
  · simp only [step] at hs
    split at hs
    · obtain rfl := Option.some.inj hs
      exact ⟨h.exclusive, h.cursor_le, fun _ _ _ => rfl⟩
    · simp at hs
  · simp only [step] at hs
    split at hs
    · rename_i hphase
      obtain rfl := Option.some.inj hs
      exact ⟨h.exclusive, h.cursor_le, fun _ => h.built_eq (Or.inl hphase)⟩
    · simp at hs
  · -- something was received, or missed: the thread is about to read again
    have hcur : (w.engine.tx.tryRecv channelCapacity w.thread.cursor).2 ≤
        w.engine.tx.sent.length := Broadcast.le_length_tryRecv h.cursor_le
    simp only [step] at hs
    split at hs
    · split at hs
      · obtain rfl := Option.some.inj hs
        exact h
      · rename_i hr
        rw [hr] at hcur
        obtain rfl := Option.some.inj hs
        exact inv_of_rebuilding h.exclusive hcur rfl
      · rename_i hr
        rw [hr] at hcur
        obtain rfl := Option.some.inj hs
        exact inv_of_rebuilding h.exclusive hcur rfl
    · simp at hs

/-- **Every step keeps the invariant.** -/
theorem Inv.step {w w' : World} (h : Inv w) {a : Action} (hs : step json w a = some w') :
    Inv w' := by
  cases a with
  | call t m => exact h.step_call (t := t) (Or.inl ⟨m, rfl⟩) hs
  | lock t => exact h.step_call (t := t) (by simp) hs
  | persist t fault => exact h.step_call (t := t) (by simp) hs
  | update t => exact h.step_call (t := t) (by simp) hs
  | send t => exact h.step_call (t := t) (by simp) hs
  | unlock t => exact h.step_call (t := t) (by simp) hs
  | subscribe => exact h.step_thread (by simp) hs
  | getTopology => exact h.step_thread (by simp) hs
  | built => exact h.step_thread (by simp) hs
  | tryRecv => exact h.step_thread (by simp) hs

variable (json)

/-- **The last rebuild is of the current topology.** In every interleaving of any number of
calls with the rebuild thread, from an engine in any state: whenever the thread has completed its
initial rebuild, is between iterations and finds its receiver empty, the topology of its most
recent call of `build_graph` is the one `get_topology` returns. -/
theorem built_eq_getTopology {engine : RaftEngine.EngineState} {as : List Action} {w : World}
    (hrun : Transition.run (step json) (start engine) as = some w)
    (hidle : w.thread.phase = .idle)
    (hempty : (w.engine.tx.tryRecv channelCapacity w.thread.cursor).1 = .empty)
    {t : TopologySnapshot} (ht : getTopology w = some t) : w.thread.built = some t := by
  have hinv : Inv w :=
    Transition.invariant (fun _ _ _ h hs => Inv.step h hs) (inv_start engine) hrun
  have hdrained : w.engine.tx.Drained w.thread.cursor :=
    (Broadcast.tryRecv_eq_empty hinv.cursor_le (Prod.ext hempty rfl)).2
  -- the mutex is free, so no call is in the middle of anything
  rw [getTopology] at ht
  split at ht
  · rename_i hlock
    rw [← ht]
    refine hinv.built_eq (Or.inr hidle) hdrained fun t' m hc => ?_
    have hsome := hinv.lock_eq hc (by simp)
    rw [hlock] at hsome
    exact absurd hsome (by simp)
  · exact absurd ht (by simp)

/-! ### A call that is not interrupted -/

/-- **An uninterrupted call that persists** is `apply_mutation`. -/
theorem run_uninterrupted_ok {w : World} {t : ℕ} (hc : w.calls t = none) (hl : w.lock = none)
    (m : Mutation) {fault : Option (RaftEngine.PersistStep × String)} {db : RaftEngine.File}
    (hp : RaftEngine.persist json w.engine.db w.engine.nextId m fault = .ok db) :
    Transition.run (step json) w
        [.call t m, .lock t, .persist t fault, .update t, .send t, .unlock t] =
      some { w with engine := (RaftEngine.applyMutation json w.engine m fault).2 } := by
  have hback : Function.update w.calls t none = w.calls := by
    rw [← hc, Function.update_eq_self]
  simp only [Transition.run, step, hc, hl, hp, World.setCall, Function.update_self,
    Function.update_idem, Option.bind_some, RaftEngine.applyMutation, hback]

/-- **An uninterrupted call that does not** leaves everything as it was. -/
theorem run_uninterrupted_error {w : World} {t : ℕ} (hc : w.calls t = none) (hl : w.lock = none)
    (m : Mutation) {fault : Option (RaftEngine.PersistStep × String)} {err : StoreError}
    (hp : RaftEngine.persist json w.engine.db w.engine.nextId m fault = .error err) :
    Transition.run (step json) w [.call t m, .lock t, .persist t fault] = some w := by
  have hback : Function.update w.calls t none = w.calls := by
    rw [← hc, Function.update_eq_self]
  simp only [Transition.run, step, hc, hl, hp, World.setCall, Function.update_self,
    Function.update_idem, Option.bind_some, hback]
  rw [← hl]

end Invariant

/-- The initial rebuild of an empty topology, a call, and the rebuild it brings about – with the
thread polling in vain while the call is on its way. -/
def oneCall : List Action :=
  [.subscribe, .getTopology, .built, .call 0 (.addNode ⟨7, [], []⟩), .lock 0, .tryRecv,
    .persist 0 none, .update 0, .tryRecv, .send 0, .unlock 0, .tryRecv, .getTopology, .built]

theorem built_eq_getTopology_oneCall :
    letI := SnapshotApply.documented
    ∃ w, Transition.run (step Mutation.format.toCodec)
        (start ⟨TopologySnapshot.new, 0, Table.empty, Broadcast.channel⟩) oneCall = some w ∧
      w.thread.built = some ⟨[⟨7, [], []⟩], []⟩ :=
  letI := SnapshotApply.documented
  ⟨_, rfl, built_eq_getTopology Mutation.format.toCodec
    (show Transition.run (step Mutation.format.toCodec)
      (start ⟨TopologySnapshot.new, 0, Table.empty, Broadcast.channel⟩) oneCall = some _ from rfl)
    rfl rfl rfl⟩

end Rebuild

end SonicBrew
