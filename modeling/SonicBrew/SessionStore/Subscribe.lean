import Mathlib.Data.List.Range
import Mathlib.Logic.Function.Basic
import SonicBrew.Lib.Transition
import SonicBrew.SessionStore.Engine
import SonicBrew.SessionStore.RaftTypes

/-!
# What a subscriber of the single-node store sees

Any number of threads call `apply_mutation`, `subscribe` and `get_topology` of one engine. All
three take the engine's mutex. `apply_mutation` holds it from the moment it reads the next id until
its event is out, so the mutation is logged, applied and announced in one critical section; a
receiver, however, needs no mutex and may be asked for events between any two of these steps.

A call is taken to begin when it gets the mutex – before that it has done nothing – and to
return when it lets it go. What was applied, what the topology was when an event was sent, and
what the calls returned is recorded beside the engine
(`SonicBrew.Subscribe.World`); no step reads these records. Since the state of the running call is
part of the mutex (`SonicBrew.Subscribe.Holder`), there is nothing to prove about exclusion.
-/

namespace SonicBrew

namespace Subscribe

open RaftEngine (EngineState channelCapacity)

/-- How far the call in the critical section has come. -/
inductive Phase where
  /-- The mutex is held and the id is read. -/
  | locked
  /-- The mutation is in the log. -/
  | persisted
  /-- The snapshot and the counter have moved. -/
  | updated
  /-- The event is out. -/
  | sent
  deriving DecidableEq, Repr

/-- The call that holds the mutex. -/
structure Holder where
  thread : ℕ
  mutation : Mutation
  id : ℕ
  phase : Phase

/-- What a call has returned. -/
structure Answer where
  thread : ℕ
  mutation : Mutation
  result : Except StoreError ℕ

/-- A receiver of the engine's events, with how much had been applied and what the topology was
when it subscribed. -/
structure Subscriber where
  receiver : Broadcast.Receiver TopologyEvent
  position : ℕ
  since : TopologySnapshot

/-- The engine, its mutex and its subscribers; and, for the record, the mutations applied under
their ids, the topology at the moment of each event, and the answers. -/
structure World where
  engine : EngineState
  lock : Option Holder
  subscribers : ℕ → Option Subscriber
  applied : List (ℕ × Mutation)
  moments : List TopologySnapshot
  answers : List Answer

/-- One step of one thread. -/
inductive Action where
  | lock (t : ℕ) (m : Mutation)
  | persist (fault : Option (RaftEngine.PersistStep × String))
  | update
  | send
  | unlock
  | subscribe (s : ℕ)
  | getTopology
  | tryRecv (s : ℕ)

/-- An engine that has been opened: nobody has called or subscribed. -/
def start (snapshot : TopologySnapshot) (nextId : ℕ) (db : RaftEngine.File) : World :=
  ⟨⟨snapshot, nextId, db, Broadcast.channel⟩, none, fun _ => none, [], [], []⟩

/-- What `get_topology` returns: it waits for the mutex. -/
def getTopology (w : World) : Option TopologySnapshot :=
  match w.lock with
  | none => some w.engine.snapshot
  | some _ => none

/-- Where a subscriber is now. -/
def World.setSubscriber (w : World) (s : ℕ) (sub : Subscriber) : World :=
  { w with subscribers := Function.update w.subscribers s (some sub) }

section Steps

variable [SnapshotApply] (json : Codec Mutation)

/-- One step, if it is possible. -/
def step (w : World) : Action → Option World
  | .lock t m =>
      match w.lock with
      | none => some { w with lock := some ⟨t, m, w.engine.nextId, .locked⟩ }
      | some _ => none
  | .persist fault =>
      match w.lock with
      | some ⟨t, m, id, .locked⟩ =>
          match RaftEngine.persist json w.engine.db id m fault with
          | .ok db =>
              some { w with engine := { w.engine with db }, lock := some ⟨t, m, id, .persisted⟩ }
          -- an early return: the guard is dropped on the way out
          | .error e => some { w with lock := none, answers := w.answers ++ [⟨t, m, .error e⟩] }
      | _ => none
  | .update =>
      match w.lock with
      | some ⟨t, m, id, .persisted⟩ =>
          some { w with
            engine := { w.engine with snapshot := w.engine.snapshot.apply m, nextId := id + 1 }
            lock := some ⟨t, m, id, .updated⟩
            applied := w.applied ++ [(id, m)] }
      | _ => none
  | .send =>
      match w.lock with
      | some ⟨t, m, id, .updated⟩ =>
          some { w with
            engine := { w.engine with tx := w.engine.tx.send (mutationToEvent m) }
            lock := some ⟨t, m, id, .sent⟩
            moments := w.moments ++ [w.engine.snapshot] }
      | _ => none
  | .unlock =>
      match w.lock with
      | some ⟨t, m, id, .sent⟩ =>
          some { w with lock := none, answers := w.answers ++ [⟨t, m, .ok id⟩] }
      | _ => none
  | .subscribe s =>
      match w.lock, w.subscribers s with
      | none, none =>
          some (w.setSubscriber s ⟨w.engine.tx.receiver, w.applied.length, w.engine.snapshot⟩)
      | _, _ => none
  | .getTopology =>
      match getTopology w with
      | some _ => some w
      | none => none
  | .tryRecv s =>
      match w.subscribers s with
      | none => none
      | some sub =>
          some (w.setSubscriber s
            { sub with receiver := sub.receiver.recv channelCapacity w.engine.tx })

end Steps

section Sequential

variable [SnapshotApply] (json : Codec Mutation) {w : World}

/-- **An uninterrupted call** is the call of the sequential model: the engine and the answer are
those of `apply_mutation`. -/
theorem run_solo (hlock : w.lock = none) (t : ℕ) (m : Mutation)
    (fault : Option (RaftEngine.PersistStep × String)) :
    ∃ rest ∈ [[], [Action.update, .send, .unlock]], ∃ w',
      Transition.run (step json) w (.lock t m :: .persist fault :: rest) = some w' ∧
      w'.engine = (RaftEngine.applyMutation json w.engine m fault).2 ∧ w'.lock = none ∧
      w'.answers = w.answers ++ [⟨t, m, (RaftEngine.applyMutation json w.engine m fault).1⟩] := by
  rcases hp : RaftEngine.persist json w.engine.db w.engine.nextId m fault with e | db
  · refine ⟨[], by simp, { w with answers := w.answers ++ [⟨t, m, .error e⟩] }, ?_⟩
    simp only [Transition.run, step, hlock, hp, Option.bind_some, RaftEngine.applyMutation,
      and_self]
  · refine ⟨[.update, .send, .unlock], by simp,
      { w with
        engine := (RaftEngine.applyMutation json w.engine m fault).2
        applied := w.applied ++ [(w.engine.nextId, m)]
        moments := w.moments ++ [w.engine.snapshot.apply m]
        answers := w.answers ++ [⟨t, m, .ok w.engine.nextId⟩] }, ?_⟩
    simp only [Transition.run, step, hlock, hp, Option.bind_some, RaftEngine.applyMutation,
      and_self]

end Sequential

/-! ### What the records say -/

/-- The event of an applied mutation. -/
def event (a : ℕ × Mutation) : TopologyEvent := mutationToEvent a.2

/-- The mutation an event describes. -/
def described : TopologyEvent → Mutation
  | .nodeAdded node => .addNode node
  | .nodeRemoved id => .removeNode id
  | .linkAdded edge => .addLink edge
  | .linkRemoved id => .removeLink id

theorem described_event (a : ℕ × Mutation) : described (event a) = a.2 := by
  obtain ⟨id, m⟩ := a
  cases m <;> rfl

/-- The calls that have returned an id, with it. -/
def successes (answers : List Answer) : List (ℕ × Mutation) :=
  answers.filterMap fun a =>
    match a.result with
    | .ok id => some (id, a.mutation)
    | .error _ => none

/-- The topology at the moment of the last event a subscriber has seen, or of its subscription if
it has seen none. -/
def atLastEvent (w : World) (sub : Subscriber) : TopologySnapshot :=
  match sub.receiver.seen with
  | [] => sub.since
  | _ :: _ => w.moments.getD (sub.receiver.cursor - 1) sub.since

/-! ### The invariant -/

/-- The mutation that has been applied and whose event is still to be sent. -/
def due : Option Holder → List (ℕ × Mutation)
  | some ⟨_, m, id, .updated⟩ => [(id, m)]
  | _ => []

/-- The mutation that has been applied and whose call has still to return. -/
def unanswered : Option Holder → List (ℕ × Mutation)
  | some ⟨_, m, id, .updated⟩ => [(id, m)]
  | some ⟨_, m, id, .sent⟩ => [(id, m)]
  | _ => []

variable [SnapshotApply]

/-- The topology that applied mutations leave. -/
def after (t : TopologySnapshot) (applied : List (ℕ × Mutation)) : TopologySnapshot :=
  t.applyAll (applied.map Prod.snd)

theorem after_append (t : TopologySnapshot) (l l' : List (ℕ × Mutation)) :
    after t (l ++ l') = after (after t l) l' := by
  rw [after, List.map_append, TopologySnapshot.applyAll, List.foldl_append]
  rfl

/-- **A subscriber is on track**: it subscribed when everything applied had been announced, and as
long as it has not lagged it has been given the stream from there on. -/
structure Tracks (t₀ : TopologySnapshot) (w : World) (sub : Subscriber) : Prop where
  start_eq : sub.receiver.start = sub.position
  position_le : sub.position ≤ w.engine.tx.sent.length
  since_eq : sub.since = after t₀ (w.applied.take sub.position)
  follows : sub.receiver.lagged = false → sub.receiver.Follows w.engine.tx

/-- **The invariant of the engine**, opened with the topology `t₀` and the counter at `n₀`: the
counter, the snapshot, the stream of events and the answers are those of the mutations applied –
the last of which may not have been announced or answered yet. -/
structure Inv (t₀ : TopologySnapshot) (n₀ : ℕ) (w : World) : Prop where
  ids : w.applied.map Prod.fst = List.range' n₀ w.applied.length
  nextId_eq : w.engine.nextId = n₀ + w.applied.length
  snapshot_eq : w.engine.snapshot = after t₀ w.applied
  stream : w.engine.tx.sent ++ (due w.lock).map event = w.applied.map event
  moments_eq : w.moments =
    (List.range w.engine.tx.sent.length).map fun i => after t₀ (w.applied.take (i + 1))
  answered : successes w.answers ++ unanswered w.lock = w.applied
  holder_id : ∀ h, w.lock = some h → h.phase = .locked ∨ h.phase = .persisted →
    h.id = w.engine.nextId
  tracks : ∀ s sub, w.subscribers s = some sub → Tracks t₀ w sub

section Steps

variable {json : Codec Mutation} {t₀ : TopologySnapshot} {n₀ : ℕ} {w w' : World}

theorem inv_start (t₀ : TopologySnapshot) (n₀ : ℕ) (db : RaftEngine.File) :
    Inv t₀ n₀ (start t₀ n₀ db) where
  ids := rfl
  nextId_eq := rfl
  snapshot_eq := rfl
  stream := rfl
  moments_eq := rfl
  answered := rfl
  holder_id := by rintro h ⟨⟩
  tracks := by rintro s sub ⟨⟩

theorem Inv.sent_le (h : Inv t₀ n₀ w) : w.engine.tx.sent.length ≤ w.applied.length := by
  have hlen := congrArg List.length h.stream
  simp only [List.length_append, List.length_map] at hlen
  omega

/-- Everything that has been applied has been announced, unless a call is just about to. -/
theorem Inv.sent_eq (h : Inv t₀ n₀ w) (hdue : due w.lock = []) :
    w.engine.tx.sent = w.applied.map event := by
  have hstream := h.stream
  rwa [hdue, List.map_nil, List.append_nil] at hstream

/-- A step of the call that changes neither the topology nor the stream. -/
theorem Inv.of_quiet (h : Inv t₀ n₀ w) {db : RaftEngine.File} {lock : Option Holder}
    {answers : List Answer} (hdue : due lock = due w.lock)
    (hanswered : successes answers ++ unanswered lock = successes w.answers ++ unanswered w.lock)
    (hid : ∀ h, lock = some h → h.phase = .locked ∨ h.phase = .persisted →
      h.id = w.engine.nextId) :
    Inv t₀ n₀ { w with engine := { w.engine with db }, lock, answers } where
  ids := h.ids
  nextId_eq := h.nextId_eq
  snapshot_eq := h.snapshot_eq
  stream := by rw [hdue]; exact h.stream
  moments_eq := h.moments_eq
  answered := by rw [hanswered]; exact h.answered
  holder_id := hid
  tracks := fun s sub hsub =>
    ⟨(h.tracks s sub hsub).start_eq, (h.tracks s sub hsub).position_le,
      (h.tracks s sub hsub).since_eq, (h.tracks s sub hsub).follows⟩

/-- **A mutation is applied.** Its event is now due. -/
theorem Inv.update (h : Inv t₀ n₀ w) {t id : ℕ} {m : Mutation}
    (hlock : w.lock = some ⟨t, m, id, .persisted⟩) :
    Inv t₀ n₀ { w with
      engine := { w.engine with snapshot := w.engine.snapshot.apply m, nextId := id + 1 }
      lock := some ⟨t, m, id, .updated⟩
      applied := w.applied ++ [(id, m)] } := by
  have hid : id = n₀ + w.applied.length :=
    (h.holder_id _ hlock (Or.inr rfl)).trans h.nextId_eq
  have hsent : w.engine.tx.sent = w.applied.map event := h.sent_eq (by rw [hlock]; rfl)
  have hanswered : successes w.answers = w.applied := by
    have hall := h.answered
    rw [hlock] at hall
    exact (List.append_nil _).symm.trans hall
  have htake : ∀ n, n ≤ w.applied.length → (w.applied ++ [(id, m)]).take n = w.applied.take n :=
    fun n hn => List.take_append_of_le_length hn
  refine ⟨?_, ?_, ?_, ?_, ?_, ?_, ?_, ?_⟩
  · rw [List.map_append, h.ids, List.length_append, List.length_singleton, List.range'_1_concat,
      ← hid]
    rfl
  · rw [List.length_append, List.length_singleton, hid, Nat.add_assoc]
  · rw [after_append, ← h.snapshot_eq]
    rfl
  · rw [List.map_append, hsent]
    rfl
  · rw [h.moments_eq]
    refine List.map_congr_left fun i hi => ?_
    have hlt := List.mem_range.mp hi
    have hle := h.sent_le
    rw [htake (i + 1) (by omega)]
  · rw [hanswered]
    rfl
  · rintro _ ⟨⟩ (hcon | hcon) <;> cases hcon
  · intro s sub hsub
    have htracks := h.tracks s sub hsub
    refine ⟨htracks.start_eq, htracks.position_le, ?_, htracks.follows⟩
    rw [htake sub.position (htracks.position_le.trans h.sent_le)]
    exact htracks.since_eq

/-- **Its event is sent**, at the topology it has left. -/
theorem Inv.send (h : Inv t₀ n₀ w) {t id : ℕ} {m : Mutation}
    (hlock : w.lock = some ⟨t, m, id, .updated⟩) :
    Inv t₀ n₀ { w with
      engine := { w.engine with tx := w.engine.tx.send (mutationToEvent m) }
      lock := some ⟨t, m, id, .sent⟩
      moments := w.moments ++ [w.engine.snapshot] } := by
  have hstream : w.engine.tx.sent ++ [mutationToEvent m] = w.applied.map event := by
    have hall := h.stream
    rwa [hlock] at hall
  have hlen : w.engine.tx.sent.length + 1 = w.applied.length := by
    have hall := congrArg List.length hstream
    simpa only [List.length_append, List.length_singleton, List.length_map] using hall
  refine ⟨h.ids, h.nextId_eq, h.snapshot_eq, ?_, ?_, ?_, ?_, ?_⟩
  · rw [Broadcast.sent_send, hstream]
    exact List.append_nil _
  · rw [Broadcast.sent_send, List.length_append, List.length_singleton, List.range_succ,
      List.map_append, ← h.moments_eq, List.map_singleton, hlen, List.take_length, h.snapshot_eq]
  · have hall := h.answered
    rwa [hlock] at hall
  · rintro _ ⟨⟩ (hcon | hcon) <;> cases hcon
  · intro s sub hsub
    have htracks := h.tracks s sub hsub
    exact ⟨htracks.start_eq, Broadcast.le_length_send htracks.position_le _, htracks.since_eq,
      fun hlag => (htracks.follows hlag).send _⟩

/-- One subscriber changes. -/
theorem Inv.setSubscriber (h : Inv t₀ n₀ w) {s : ℕ} {sub : Subscriber} (hsub : Tracks t₀ w sub) :
    Inv t₀ n₀ (w.setSubscriber s sub) := by
  refine ⟨h.ids, h.nextId_eq, h.snapshot_eq, h.stream, h.moments_eq, h.answered, h.holder_id, ?_⟩
  intro s' sub' hs'
  change Function.update w.subscribers s (some sub) s' = some sub' at hs'
  rcases eq_or_ne s' s with rfl | hne
  · rw [Function.update_self] at hs'
    obtain rfl := Option.some.inj hs'
    exact ⟨hsub.start_eq, hsub.position_le, hsub.since_eq, hsub.follows⟩
  · rw [Function.update_of_ne hne] at hs'
    have hold := h.tracks s' sub' hs'
    exact ⟨hold.start_eq, hold.position_le, hold.since_eq, hold.follows⟩

/-- A new subscriber finds the mutex free, so nothing is due. -/
theorem Inv.tracks_receiver (h : Inv t₀ n₀ w) (hlock : w.lock = none) :
    Tracks t₀ w ⟨w.engine.tx.receiver, w.applied.length, w.engine.snapshot⟩ := by
  have hsent : w.engine.tx.sent = w.applied.map event := h.sent_eq (by rw [hlock]; rfl)
  have hlen : w.engine.tx.sent.length = w.applied.length := by rw [hsent, List.length_map]
  refine ⟨hlen, hlen.ge, ?_, fun _ => Broadcast.Receiver.follows_receiver _⟩
  rw [List.take_length]
  exact h.snapshot_eq

theorem Tracks.tryRecv {sub : Subscriber} (h : Tracks t₀ w sub) (cap : ℕ) :
    Tracks t₀ w { sub with receiver := sub.receiver.recv cap w.engine.tx } := by
  refine ⟨?_, h.position_le, h.since_eq, fun hlag => ?_⟩
  · rw [← h.start_eq]
    exact Broadcast.Receiver.start_recv ..
  · exact (h.follows (Broadcast.Receiver.lagged_of_recv hlag)).recv hlag

/-- **Every step keeps the invariant.** -/
theorem Inv.step (h : Inv t₀ n₀ w) {a : Action} (hs : Subscribe.step json w a = some w') :
    Inv t₀ n₀ w' := by
  cases a with
  | lock t m =>
    simp only [Subscribe.step] at hs
    split at hs
    · rename_i hlock
      obtain rfl := Option.some.inj hs
      refine h.of_quiet (by rw [hlock]; rfl) (by rw [hlock]; rfl) ?_
      rintro _ ⟨⟩ -
      rfl
    · cases hs
  | persist fault =>
    simp only [Subscribe.step] at hs
    split at hs
    · rename_i t m id hlock
      split at hs
      · obtain rfl := Option.some.inj hs
        refine h.of_quiet (by rw [hlock]; rfl) (by rw [hlock]; rfl) ?_
        have hid : id = w.engine.nextId := h.holder_id _ hlock (Or.inl rfl)
        rintro _ ⟨⟩ -
        exact hid
      · obtain rfl := Option.some.inj hs
        refine h.of_quiet (by rw [hlock]; rfl) ?_ (by rintro _ ⟨⟩)
        rw [hlock, successes, List.filterMap_append]
        exact List.append_nil _
    · cases hs
  | update =>
    simp only [Subscribe.step] at hs
    split at hs
    · rename_i t m id hlock
      obtain rfl := Option.some.inj hs
      exact h.update hlock
    · cases hs
  | send =>
    simp only [Subscribe.step] at hs
    split at hs
    · rename_i t m id hlock
      obtain rfl := Option.some.inj hs
      exact h.send hlock
    · cases hs
  | unlock =>
    simp only [Subscribe.step] at hs
    split at hs
    · rename_i t m id hlock
      obtain rfl := Option.some.inj hs
      refine h.of_quiet (by rw [hlock]; rfl) ?_ (by rintro _ ⟨⟩)
      rw [hlock, successes, List.filterMap_append]
      exact List.append_nil _
    · cases hs
  | subscribe s =>
    simp only [Subscribe.step] at hs
    split at hs
    · rename_i hlock _
      obtain rfl := Option.some.inj hs
      exact h.setSubscriber (h.tracks_receiver hlock)
    · cases hs
  | getTopology =>
    simp only [Subscribe.step] at hs
    split at hs
    · obtain rfl := Option.some.inj hs
      exact h
    · cases hs
  | tryRecv s =>
    simp only [Subscribe.step] at hs
    split at hs
    · cases hs
    · rename_i sub hsub
      obtain rfl := Option.some.inj hs
      exact h.setSubscriber ((h.tracks s sub hsub).tryRecv _)

/-! ### What a subscriber has seen -/

/-- A subscriber that has not lagged has seen the events of the first mutations applied after its
subscription. -/
theorem Inv.seen_eq (h : Inv t₀ n₀ w) {sub : Subscriber} (htracks : Tracks t₀ w sub)
    (hlag : sub.receiver.lagged = false) :
    sub.receiver.seen =
      ((w.applied.drop sub.position).take sub.receiver.seen.length).map event := by
  have hfollows := htracks.follows hlag
  have hle := hfollows.cursor_le
  rw [hfollows.cursor_eq, htracks.start_eq] at hle
  have hlen : sub.receiver.seen.length ≤ (w.engine.tx.sent.drop sub.position).length := by
    rw [List.length_drop]
    omega
  calc sub.receiver.seen
      = (w.engine.tx.sent.drop sub.position).take sub.receiver.seen.length := by
        rw [← htracks.start_eq]
        exact hfollows.seen_eq
    _ = ((w.engine.tx.sent ++ (due w.lock).map event).drop sub.position).take
          sub.receiver.seen.length := by
        rw [List.drop_append_of_le_length htracks.position_le, List.take_append_of_le_length hlen]
    _ = ((w.applied.drop sub.position).take sub.receiver.seen.length).map event := by
        rw [h.stream, ← List.map_drop, List.map_take]

/-- The topology when it subscribed, with the mutations it has been told of, is the one that the
mutations up to there have left. -/
theorem Inv.applyAll_described (h : Inv t₀ n₀ w) {sub : Subscriber} (htracks : Tracks t₀ w sub)
    (hlag : sub.receiver.lagged = false) :
    sub.since.applyAll (sub.receiver.seen.map described) =
      after t₀ (w.applied.take sub.receiver.cursor) := by
  have hmuts : sub.receiver.seen.map described =
      ((w.applied.drop sub.position).take sub.receiver.seen.length).map Prod.snd := by
    conv_lhs => rw [h.seen_eq htracks hlag]
    rw [List.map_map]
    exact List.map_congr_left fun a _ => described_event a
  have hcursor : sub.receiver.cursor = sub.position + sub.receiver.seen.length := by
    rw [← htracks.start_eq]
    exact (htracks.follows hlag).cursor_eq
  rw [hmuts, htracks.since_eq, hcursor, List.take_add, after_append]
  rfl

/-- The topology at its last event is that one, too. -/
theorem Inv.atLastEvent_eq (h : Inv t₀ n₀ w) {sub : Subscriber} (htracks : Tracks t₀ w sub)
    (hlag : sub.receiver.lagged = false) :
    atLastEvent w sub = after t₀ (w.applied.take sub.receiver.cursor) := by
  have hfollows := htracks.follows hlag
  have hcursor := hfollows.cursor_eq
  have hle := hfollows.cursor_le
  rw [htracks.start_eq] at hcursor
  cases hseen : sub.receiver.seen with
  | nil =>
    rw [hseen, List.length_nil, Nat.add_zero] at hcursor
    rw [atLastEvent, hseen, hcursor]
    exact htracks.since_eq
  | cons e es =>
    rw [hseen, List.length_cons] at hcursor
    have hpos : sub.receiver.cursor - 1 + 1 = sub.receiver.cursor := by omega
    have hlt : sub.receiver.cursor - 1 < w.engine.tx.sent.length := by omega
    rw [atLastEvent, hseen, h.moments_eq, List.getD_eq_getElem?_getD, List.getElem?_map,
      List.getElem?_range hlt, Option.map_some, Option.getD_some, hpos]

variable (json)

/-- **What a subscriber that does not lag sees.** In every interleaving of calls of
`apply_mutation`, `subscribe` and `get_topology` with receivers that are asked for events at any
time: the ids of the mutations applied increase, and what the calls have returned is exactly the
ids of these mutations, except for a call that still holds the mutex – a failed call has none. A
subscriber has seen the events of the first of the mutations applied since it subscribed, one each
and in that order, and of all of them when it finds its receiver empty and no call is on the way.
The mutations it was told of take the topology of the moment it subscribed to the topology of the
moment its last event was sent. -/
theorem subscriber_sees_applied {snapshot : TopologySnapshot} {nextId : ℕ} {db : RaftEngine.File}
    {as : List Action} {w : World}
    (hrun : Transition.run (step json) (start snapshot nextId db) as = some w) {s : ℕ}
    {sub : Subscriber} (hsub : w.subscribers s = some sub) (hlag : sub.receiver.lagged = false) :
    (w.applied.map Prod.fst).Pairwise (· < ·) ∧
    successes w.answers <+: w.applied ∧
    (w.lock = none → successes w.answers = w.applied) ∧
    sub.receiver.seen <+: (w.applied.drop sub.position).map event ∧
    (w.lock = none → (w.engine.tx.tryRecv channelCapacity sub.receiver.cursor).1 = .empty →
      sub.receiver.seen = (w.applied.drop sub.position).map event) ∧
    sub.since.applyAll (sub.receiver.seen.map described) = atLastEvent w sub := by
  have hinv : Inv snapshot nextId w :=
    Transition.invariant (fun _ _ _ h hs => Inv.step h hs) (inv_start snapshot nextId db) hrun
  have htracks := hinv.tracks s sub hsub
  refine ⟨?_, ⟨_, hinv.answered⟩, fun hlock => ?_, ?_, fun hlock hempty => ?_, ?_⟩
  · rw [hinv.ids]
    exact List.pairwise_lt_range'
  · have hall := hinv.answered
    rw [hlock] at hall
    exact (List.append_nil _).symm.trans hall
  · rw [hinv.seen_eq htracks hlag]
    exact (List.take_prefix _ _).map _
  · rw [(htracks.follows hlag).eq_of_empty hempty, htracks.start_eq,
      hinv.sent_eq (by rw [hlock]; rfl), List.map_drop]
  · rw [hinv.applyAll_described htracks hlag, hinv.atLastEvent_eq htracks hlag]

end Steps

/-- A subscriber, a call that the log refuses, and one that goes through; it asks for events on the
way. -/
def refusedThenApplied : List Action :=
  [.subscribe 0, .lock 1 (.removeNode 3), .persist (some (.commit, "disk full")),
    .lock 2 (.addNode ⟨7, [], []⟩), .persist none, .update, .tryRecv 0, .send, .tryRecv 0, .unlock]

omit [SnapshotApply] in
theorem subscriber_sees_applied_refused :
    letI := SnapshotApply.documented
    ∃ w, Transition.run (step Mutation.format.toCodec) (start TopologySnapshot.new 0 Table.empty)
        refusedThenApplied = some w ∧
      ∃ sub, w.subscribers 0 = some sub ∧ sub.receiver.lagged = false ∧
        sub.receiver.seen = [.nodeAdded ⟨7, [], []⟩] ∧
        successes w.answers = [(0, .addNode ⟨7, [], []⟩)] ∧
        sub.since.applyAll (sub.receiver.seen.map described) = atLastEvent w sub := by
  let := SnapshotApply.documented
  have hrun : Transition.run (step Mutation.format.toCodec)
      (start TopologySnapshot.new 0 Table.empty) refusedThenApplied = some _ := rfl
  exact ⟨_, hrun, _, rfl, rfl, rfl, rfl,
    (subscriber_sees_applied Mutation.format.toCodec (s := 0) hrun rfl rfl).2.2.2.2.2⟩

end Subscribe

end SonicBrew
