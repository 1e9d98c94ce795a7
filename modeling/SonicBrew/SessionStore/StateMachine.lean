import Mathlib.Data.List.Basic
import Mathlib.Data.List.Range
import SonicBrew.Lib.Fallible
import SonicBrew.SessionStore.RaftTypes

/-!
# The replicated state machine

Every node folds the committed log into a `SonicBrew.StateMachine.PersistedState`:
the topology, the last applied log id, the last membership and the counter that numbers
mutations. The state lives in one database row and is rewritten at the end of every batch
(`SonicBrew.StateMachine.apply`). A node that has fallen behind does not replay the log: it
installs a snapshot another node built, which carries the topology, the last log id and the
membership – *but not the counter*.

The topology and the raft pointers of a node that installed a snapshot are nevertheless those
of a node that applied the whole log (`SonicBrew.StateMachine.replicas_agree`), however the log
was cut into batches and wherever the snapshot was taken: nothing but the counter itself ever
reads the counter.

Every database call consults an oracle that may refuse it (`SonicBrew.ioStep`), and a write
transaction takes effect only if it reaches the end. Whatever a call does to the row is in one
lemma per operation, about a row that holds a known state
(`SonicBrew.StateMachine.Holds`); the rest is about the pure fold
`SonicBrew.StateMachine.applyEntries`.
-/

namespace SonicBrew

/-- A database call that the environment may refuse: it fails when `fault` is an error of
this very call. -/
def ioStep (fault : Option StorageError) (context : String) (verb : ErrorVerb) :
    Except StorageError Unit :=
  match fault with
  | none => .ok ()
  | some e => if e.context = context ∧ e.verb = verb then .error e else .ok ()

@[simp] theorem ioStep_none (context : String) (verb : ErrorVerb) :
    ioStep none context verb = .ok () := rfl

/-- Decode a row, with the caller's context on a failure. -/
def decodeRow {α : Type} (codec : Codec α) (context : String) (bytes : Bytes) :
    Except StorageError α :=
  match codec.deserialize bytes with
  | .ok a => .ok a
  | .error e => .error ⟨context, .read, e⟩

theorem decodeRow_serialize {α : Type} (codec : Codec α) (context : String) (a : α) :
    decodeRow codec context (codec.serialize a) = .ok a := by
  rw [decodeRow, codec.deserialize_serialize]

namespace StateMachine

/-- The row of the `STATE` table. -/
structure PersistedState where
  topology : TopologySnapshot
  lastApplied : Option LogId
  lastMembership : StoredMembership
  nextMutationId : ℕ
  deriving DecidableEq, Repr

/-- The state of a node that has applied nothing. -/
def PersistedState.default : PersistedState :=
  ⟨TopologySnapshot.new, none, StoredMembership.default, 0⟩

/-- What a snapshot says about itself. -/
structure SnapshotMeta where
  lastLogId : Option LogId
  lastMembership : StoredMembership
  snapshotId : String
  deriving DecidableEq, Repr

/-- The row of the `SNAPSHOT` table: the metadata (`meta`) and the encoded topology. -/
structure PersistedSnapshot where
  info : SnapshotMeta
  payload : Bytes
  deriving DecidableEq, Repr

/-- A snapshot as it is handed to the consensus library. -/
structure Snapshot where
  info : SnapshotMeta
  snapshot : Bytes
  deriving DecidableEq, Repr

/-- The encodings of the stored types. -/
structure Bincode where
  state : Codec PersistedState
  snapshot : Codec PersistedSnapshot
  topology : Codec TopologySnapshot

/-- The database: the only row of `STATE` and the only row of `SNAPSHOT`. -/
structure Db where
  state : Option Bytes
  snapshot : Option Bytes

/-- A database file that has just been created. -/
def Db.fresh : Db := ⟨none, none⟩

/-! ### The fold over the log -/

section Fold

variable [SnapshotApply]

/-- What applying one entry does to the state, and what it answers. -/
def applyEntry (state : PersistedState) (entry : Entry) : PersistedState × ClientWriteResponse :=
  -- the pointer moves for every entry, whatever its payload
  let state := { state with lastApplied := some entry.logId }
  match entry.payload with
  | .blank => (state, ClientWriteResponse.default)
  | .normal mutation =>
      ({ state with
          nextMutationId := state.nextMutationId + 1
          topology := state.topology.apply mutation },
        ⟨state.nextMutationId⟩)
  | .membership membership =>
      ({ state with lastMembership := ⟨some entry.logId, membership⟩ }, ClientWriteResponse.default)

/-- The loop of `apply` over a batch. -/
def applyEntries (state : PersistedState) : List Entry → PersistedState × List ClientWriteResponse
  | [] => (state, [])
  | entry :: entries =>
      let (state, response) := applyEntry state entry
      let (state, responses) := applyEntries state entries
      (state, response :: responses)

theorem applyEntries_append (state : PersistedState) (es es' : List Entry) :
    applyEntries state (es ++ es') =
      ((applyEntries (applyEntries state es).1 es').1,
        (applyEntries state es).2 ++ (applyEntries (applyEntries state es).1 es').2) := by
  induction es generalizing state with
  | nil => rfl
  | cons e es ih =>
    simp only [List.cons_append, applyEntries, ih]

end Fold

/-! ### The operations -/

section Operations

variable (bin : Bincode)

/-- `StateMachine::open`: a new database gets the default state. -/
def openDb (db : Db) (fault : Option StorageError) : Except StorageError Db := do
  ioStep fault "open redb" .write
  ioStep fault "begin_write table init" .write
  ioStep fault "open STATE" .write
  ioStep fault "get STATE" .read
  let txn ← match db.state with
    | some _ => pure db
    | none => do
        ioStep fault "serialize init state" .write
        let bytes := bin.state.serialize PersistedState.default
        ioStep fault "insert init STATE" .write
        pure { db with state := some bytes }
  ioStep fault "open SNAPSHOT" .write
  ioStep fault "commit table init" .write
  return txn

/-- `read_state`. -/
def readState (db : Db) (fault : Option StorageError) : Except StorageError PersistedState := do
  ioStep fault "begin_read STATE" .read
  ioStep fault "open_table STATE" .read
  ioStep fault "get STATE" .read
  match db.state with
  | none => .error ⟨"STATE row missing", .read, "STATE row missing"⟩
  | some bytes => decodeRow bin.state "deserialize STATE" bytes

/-- `write_state`. -/
def writeState (db : Db) (state : PersistedState) (fault : Option StorageError) :
    Except StorageError Db := do
  ioStep fault "serialize STATE" .write
  let bytes := bin.state.serialize state
  ioStep fault "begin_write STATE" .write
  ioStep fault "open_table STATE" .write
  ioStep fault "insert STATE" .write
  ioStep fault "commit STATE" .write
  return { db with state := some bytes }

/-- `read_snapshot`. -/
def readSnapshot (db : Db) (fault : Option StorageError) :
    Except StorageError (Option PersistedSnapshot) := do
  ioStep fault "begin_read SNAPSHOT" .read
  ioStep fault "open_table SNAPSHOT" .read
  ioStep fault "get SNAPSHOT" .read
  match db.snapshot with
  | none => return none
  | some bytes =>
      let snap ← decodeRow bin.snapshot "deserialize SNAPSHOT" bytes
      return some snap

/-- `write_snapshot`. -/
def writeSnapshot (db : Db) (snap : PersistedSnapshot) (fault : Option StorageError) :
    Except StorageError Db := do
  ioStep fault "serialize SNAPSHOT" .write
  let bytes := bin.snapshot.serialize snap
  ioStep fault "begin_write SNAPSHOT" .write
  ioStep fault "open_table SNAPSHOT" .write
  ioStep fault "insert SNAPSHOT" .write
  ioStep fault "commit SNAPSHOT" .write
  return { db with snapshot := some bytes }

/-- `StateMachineReader::topology`. -/
def topology (db : Db) (fault : Option StorageError) : Except StorageError TopologySnapshot := do
  ioStep fault "begin_read reader" .read
  ioStep fault "open_table STATE reader" .read
  ioStep fault "get STATE reader" .read
  match db.state with
  | none => return TopologySnapshot.new
  | some bytes =>
      let state ← decodeRow bin.state "deserialize STATE reader" bytes
      return state.topology

/-- `applied_state`. -/
def appliedState (db : Db) (fault : Option StorageError) :
    Except StorageError (Option LogId × StoredMembership) := do
  let state ← readState bin db fault
  return (state.lastApplied, state.lastMembership)

/-- `apply`: fold the batch into the state, and persist it before answering. -/
def apply [SnapshotApply] (db : Db) (entries : List Entry) (fault : Option StorageError) :
    Except StorageError (List ClientWriteResponse) × Db :=
  match readState bin db fault with
  | .error e => (.error e, db)
  | .ok state =>
      let (state, responses) := applyEntries state entries
      match writeState bin db state fault with
      | .error e => (.error e, db)
      | .ok db => (.ok responses, db)

/-- `install_snapshot`: the state is replaced by the snapshot's, with the counter at zero,
and then, in a second transaction, the snapshot is recorded. -/
def installSnapshot (db : Db) (info : SnapshotMeta) (payload : Bytes)
    (fault : Option StorageError) : Except StorageError Unit × Db :=
  match decodeRow bin.topology "deserialize install payload" payload with
  | .error e => (.error e, db)
  | .ok topology =>
      let state : PersistedState :=
        { topology
          lastApplied := info.lastLogId
          lastMembership := info.lastMembership
          nextMutationId := 0 }
      match writeState bin db state fault with
      | .error e => (.error e, db)
      | .ok db =>
          match writeSnapshot bin db ⟨info, payload⟩ fault with
          | .error e => (.error e, db)
          | .ok db => (.ok (), db)

/-- `get_current_snapshot`. -/
def getCurrentSnapshot (db : Db) (fault : Option StorageError) :
    Except StorageError (Option Snapshot) := do
  let snap ← readSnapshot bin db fault
  return snap.map fun persisted => ⟨persisted.info, persisted.payload⟩

/-- The locked read of `build_snapshot`. -/
def buildRead (db : Db) (fault : Option StorageError) : Except StorageError PersistedState := do
  ioStep fault "begin_read build_snapshot" .read
  ioStep fault "open_table STATE" .read
  ioStep fault "get STATE" .read
  match db.state with
  | none => .error ⟨"STATE missing", .read, "STATE row missing"⟩
  | some bytes => decodeRow bin.state "deserialize STATE" bytes

/-- The snapshot that `build_snapshot` makes of the state it has read. -/
def snapshotOf (state : PersistedState) : Snapshot :=
  let payload := bin.topology.serialize state.topology
  let index := ((state.lastApplied.map LogId.index).getD 0).toNat
  let size := payload.length
  { info :=
      { lastLogId := state.lastApplied
        lastMembership := state.lastMembership
        snapshotId := s!"{index}-{size}" }
    snapshot := payload }

/-- `build_snapshot`: read the state, encode the topology, record the snapshot. -/
def buildSnapshot (db : Db) (fault : Option StorageError) : Except StorageError Snapshot × Db :=
  match buildRead bin db fault with
  | .error e => (.error e, db)
  | .ok state =>
      match ioStep fault "serialize topology" .write with
      | .error e => (.error e, db)
      | .ok _ =>
          let snap := snapshotOf bin state
          match writeSnapshot bin db ⟨snap.info, snap.snapshot⟩ fault with
          | .error e => (.error e, db)
          | .ok db => (.ok snap, db)

end Operations

/-! ### What the fold computes -/

section Spec

/-- The mutation an entry carries. -/
def mutation? (entry : Entry) : Option Mutation :=
  match entry.payload with
  | .normal mutation => some mutation
  | _ => none

/-- The mutations of a log, in order. -/
def mutations (entries : List Entry) : List Mutation := entries.filterMap mutation?

/-- The membership a log leaves: that of its last membership entry, if there is one. -/
def membershipAfter (start : StoredMembership) (entries : List Entry) : StoredMembership :=
  entries.foldl
    (fun stored entry =>
      match entry.payload with
      | .membership membership => ⟨some entry.logId, membership⟩
      | _ => stored)
    start

theorem mutations_append (es es' : List Entry) :
    mutations (es ++ es') = mutations es ++ mutations es' := List.filterMap_append

variable [SnapshotApply]

/-- **The fold, field by field**: the mutations fold into the topology and are counted, the
pointer is the last entry's, and the membership the last one seen. -/
theorem applyEntries_state (state : PersistedState) (es : List Entry) :
    (applyEntries state es).1 =
      { topology := state.topology.applyAll (mutations es)
        lastApplied := (es.getLast?.map Entry.logId).or state.lastApplied
        lastMembership := membershipAfter state.lastMembership es
        nextMutationId := state.nextMutationId + (mutations es).length } := by
  induction es generalizing state with
  | nil => rfl
  | cons e es ih =>
    have hlast : ((e :: es).getLast?.map Entry.logId).or state.lastApplied =
        (es.getLast?.map Entry.logId).or (some e.logId) := by
      rw [List.getLast?_cons]
      cases es.getLast? <;> rfl
    rw [applyEntries, ih, hlast]
    obtain ⟨logId, payload⟩ := e
    cases payload with
    | blank => rfl
    | membership m => rfl
    | normal m =>
      simp only [applyEntry, mutations, mutation?, List.filterMap_cons, List.length_cons,
        TopologySnapshot.applyAll, List.foldl_cons, membershipAfter]
      congr 1
      omega

/-- The ids of the mutations among the entries of a batch that was answered so. -/
def mutationIds (entries : List Entry) (responses : List ClientWriteResponse) : List ℕ :=
  (entries.zip responses).filterMap fun p => (mutation? p.1).map fun _ => p.2.mutationId

/-- **The ids a batch hands out** are the next ones of the counter. -/
theorem mutationIds_applyEntries (state : PersistedState) (es : List Entry) :
    mutationIds es (applyEntries state es).2 =
      List.range' state.nextMutationId (mutations es).length := by
  induction es generalizing state with
  | nil => rfl
  | cons e es ih =>
    have hstep : (applyEntries state (e :: es)).2 =
        (applyEntry state e).2 :: (applyEntries (applyEntry state e).1 es).2 := rfl
    rw [mutationIds, hstep, List.zip_cons_cons, List.filterMap_cons]
    have hrest := ih (applyEntry state e).1
    rw [mutationIds] at hrest
    rw [hrest]
    obtain ⟨logId, payload⟩ := e
    cases payload with
    | blank => rfl
    | membership m => rfl
    | normal m => rfl

end Spec

/-! ### A row that holds a known state -/

section Rows

variable (bin : Bincode)

/-- **The `STATE` row holds a known state.** -/
def Holds (db : Db) (state : PersistedState) : Prop :=
  db.state = some (bin.state.serialize state)

variable {bin}

variable (bin) in
/-- A new node holds the default state. -/
theorem openDb_fresh :
    ∃ db, openDb bin Db.fresh none = .ok db ∧ Holds bin db PersistedState.default :=
  ⟨_, rfl, rfl⟩

theorem Holds.readState_eq {db : Db} {state : PersistedState} (h : Holds bin db state) :
    readState bin db none = .ok state := by
  simp only [readState, ioStep_none, ok_bind, show db.state = _ from h]
  exact decodeRow_serialize _ _ _

theorem Holds.topology_eq {db : Db} {state : PersistedState} (h : Holds bin db state) :
    topology bin db none = .ok state.topology := by
  simp only [topology, ioStep_none, ok_bind, show db.state = _ from h, decodeRow_serialize]
  rfl

theorem Holds.appliedState_eq {db : Db} {state : PersistedState} (h : Holds bin db state) :
    appliedState bin db none = .ok (state.lastApplied, state.lastMembership) := by
  rw [appliedState, h.readState_eq, ok_bind]
  rfl

/-- A refusal can only stop a read. -/
theorem readState_of_fault {db : Db} {state : PersistedState} {fault : Option StorageError}
    (h : readState bin db fault = .ok state) : readState bin db none = .ok state := by
  obtain ⟨_, -, h⟩ := bind_eq_ok.mp h
  obtain ⟨_, -, h⟩ := bind_eq_ok.mp h
  obtain ⟨_, -, h⟩ := bind_eq_ok.mp h
  exact h

/-- What a write of `STATE` that goes through leaves. -/
theorem holds_of_writeState {db db' : Db} {state : PersistedState} {fault : Option StorageError}
    (h : writeState bin db state fault = .ok db') : Holds bin db' state := by
  obtain ⟨_, -, h⟩ := bind_eq_ok.mp h
  obtain ⟨_, -, h⟩ := bind_eq_ok.mp h
  obtain ⟨_, -, h⟩ := bind_eq_ok.mp h
  obtain ⟨_, -, h⟩ := bind_eq_ok.mp h
  obtain ⟨_, -, h⟩ := bind_eq_ok.mp h
  obtain rfl := Except.ok.inj h
  rfl

variable (bin) in
/-- **The two outcomes of a batch**, whatever is refused: it is applied and answered, or nothing
happens. -/
theorem apply_cases [SnapshotApply] (db : Db) (es : List Entry) (fault : Option StorageError) :
    (∃ e, apply bin db es fault = (.error e, db)) ∨
      ∃ state db', readState bin db none = .ok state ∧
        apply bin db es fault = (.ok (applyEntries state es).2, db') ∧
        Holds bin db' (applyEntries state es).1 := by
  rcases hread : readState bin db fault with e | state
  · exact .inl ⟨e, by rw [apply, hread]⟩
  · rcases hwrite : writeState bin db (applyEntries state es).1 fault with e | db'
    · exact .inl ⟨e, by simp only [apply, hread, hwrite]⟩
    · exact .inr ⟨state, db', readState_of_fault hread, by simp only [apply, hread, hwrite],
        holds_of_writeState hwrite⟩

theorem length_applyEntries [SnapshotApply] (state : PersistedState) (es : List Entry) :
    (applyEntries state es).2.length = es.length := by
  induction es generalizing state with
  | nil => rfl
  | cons e es ih => exact congrArg (· + 1) (ih _)

/-- **Applying a batch** to a known state. -/
theorem Holds.apply_eq [SnapshotApply] {db : Db} {state : PersistedState}
    (h : Holds bin db state) (es : List Entry) :
    ∃ db', apply bin db es none = (.ok (applyEntries state es).2, db') ∧
      Holds bin db' (applyEntries state es).1 := by
  refine ⟨{ db with state := some (bin.state.serialize (applyEntries state es).1) }, ?_, rfl⟩
  rw [apply, h.readState_eq]
  rfl

theorem Holds.buildRead_eq {db : Db} {state : PersistedState} (h : Holds bin db state) :
    buildRead bin db none = .ok state := by
  simp only [buildRead, ioStep_none, ok_bind, show db.state = _ from h]
  exact decodeRow_serialize _ _ _

/-- **Building a snapshot** of a known state succeeds and leaves the state alone. -/
theorem Holds.buildSnapshot_eq {db : Db} {state : PersistedState} (h : Holds bin db state) :
    ∃ db', buildSnapshot bin db none = (.ok (snapshotOf bin state), db') ∧
      Holds bin db' state := by
  refine ⟨{ db with snapshot := some (bin.snapshot.serialize
    ⟨(snapshotOf bin state).info, (snapshotOf bin state).snapshot⟩) }, ?_, h⟩
  rw [buildSnapshot, h.buildRead_eq]
  rfl

/-- The state of a node that has installed a snapshot. -/
def installedState (info : SnapshotMeta) (topology : TopologySnapshot) : PersistedState :=
  ⟨topology, info.lastLogId, info.lastMembership, 0⟩

/-- **Installing a snapshot** succeeds on any database, whatever it held, as long as the
payload is a topology. -/
theorem installSnapshot_eq (db : Db) (info : SnapshotMeta) {payload : Bytes}
    {t : TopologySnapshot} (h : bin.topology.deserialize payload = .ok t) :
    ∃ db', installSnapshot bin db info payload none = (.ok (), db') ∧
      Holds bin db' (installedState info t) := by
  refine ⟨⟨some (bin.state.serialize (installedState info t)),
    some (bin.snapshot.serialize ⟨info, payload⟩)⟩, ?_, rfl⟩
  have hdec : decodeRow bin.topology "deserialize install payload" payload = .ok t := by
    rw [decodeRow, h]
  rw [installSnapshot, hdec]
  rfl

variable (bin) in
/-- A replica that installs the snapshot of a log has that log's state, with a counter that
starts again. -/
theorem installSnapshot_snapshotOf (db : Db) (state : PersistedState) :
    ∃ db', installSnapshot bin db (snapshotOf bin state).info (snapshotOf bin state).snapshot none =
        (.ok (), db') ∧ Holds bin db' { state with nextMutationId := 0 } :=
  installSnapshot_eq db (snapshotOf bin state).info (bin.topology.deserialize_serialize _)

/-- A payload that is no topology is refused, and nothing changes. -/
theorem installSnapshot_error (db : Db) (info : SnapshotMeta) {payload : Bytes} {cause : String}
    (h : bin.topology.deserialize payload = .error cause) :
    installSnapshot bin db info payload none =
      (.error ⟨"deserialize install payload", .read, cause⟩, db) := by
  rw [installSnapshot, decodeRow, h]

end Rows

/-! ### Replicas -/

section Replicas

variable [SnapshotApply] (bin : Bincode)

/-- A log applied in batches; the answers are collected in order. -/
def applyBatches (db : Db) : List (List Entry) → Except StorageError (List ClientWriteResponse) × Db
  | [] => (.ok [], db)
  | entries :: batches =>
      match apply bin db entries none with
      | (.error e, db) => (.error e, db)
      | (.ok responses, db) =>
          match applyBatches db batches with
          | (.error e, db) => (.error e, db)
          | (.ok responses', db) => (.ok (responses ++ responses'), db)

/-- The result of a call together with the database it leaves, if it succeeds. -/
def onSuccess {α : Type} (r : Except StorageError α × Db) : Except StorageError (α × Db) :=
  r.1.map fun a => (a, r.2)

/-- A replica that starts from nothing and applies a log. -/
def direct (batches : List (List Entry)) : Except StorageError (List ClientWriteResponse × Db) := do
  let db ← openDb bin Db.fresh none
  onSuccess (applyBatches bin db batches)

/-- A replica that takes a snapshot on its way through a log. -/
def leader (before after : List (List Entry)) : Except StorageError (Snapshot × Db) := do
  let (_, db) ← direct bin before
  let (snap, db) ← onSuccess (buildSnapshot bin db none)
  let (_, db) ← onSuccess (applyBatches bin db after)
  return (snap, db)

/-- A replica that installs a snapshot over whatever it has, and applies what follows. -/
def follower (db₀ : Db) (snap : Snapshot) (after : List (List Entry)) :
    Except StorageError Db := do
  let (_, db) ← onSuccess (installSnapshot bin db₀ snap.info snap.snapshot none)
  let (_, db) ← onSuccess (applyBatches bin db after)
  return db

/-- **What a replica that has applied `log` shows**: the last log id, the last membership,
and to a reader the fold of the mutations. -/
def Shows (db : Db) (log : List Entry) : Prop :=
  appliedState bin db none =
      .ok (log.getLast?.map Entry.logId, membershipAfter StoredMembership.default log) ∧
    topology bin db none = .ok (TopologySnapshot.new.applyAll (mutations log))

variable {bin}

/-- **Batches do not matter**: a log applied in batches leaves the state, and gives the
answers, of the log applied at once. -/
theorem Holds.applyBatches_eq {db : Db} {state : PersistedState} (h : Holds bin db state)
    (batches : List (List Entry)) :
    ∃ db', applyBatches bin db batches = (.ok (applyEntries state batches.flatten).2, db') ∧
      Holds bin db' (applyEntries state batches.flatten).1 := by
  induction batches generalizing db state with
  | nil => exact ⟨db, rfl, h⟩
  | cons es batches ih =>
    obtain ⟨db₁, hap, h₁⟩ := h.apply_eq es
    obtain ⟨db₂, hrest, h₂⟩ := ih h₁
    refine ⟨db₂, ?_, ?_⟩
    · rw [applyBatches, hap]
      simp only [hrest, List.flatten_cons, applyEntries_append]
    · rwa [List.flatten_cons, applyEntries_append]

/-- The state a log leaves on a new node. -/
def stateAfter (log : List Entry) : PersistedState := (applyEntries PersistedState.default log).1

theorem stateAfter_append (log es : List Entry) :
    stateAfter (log ++ es) = (applyEntries (stateAfter log) es).1 := by
  rw [stateAfter, applyEntries_append]
  rfl

/-- The counter is read by nothing but itself: with another one, a replica shows the same. -/
theorem Holds.shows {db : Db} {log : List Entry} {n : ℕ}
    (h : Holds bin db { stateAfter log with nextMutationId := n }) : Shows bin db log := by
  refine ⟨?_, ?_⟩
  · rw [h.appliedState_eq, stateAfter, applyEntries_state]
    simp only [PersistedState.default, Option.or_none]
  · rw [h.topology_eq, stateAfter, applyEntries_state]
    rfl

variable (bin) in
theorem direct_eq (batches : List (List Entry)) :
    ∃ db, direct bin batches = .ok ((applyEntries PersistedState.default batches.flatten).2, db) ∧
      Holds bin db (stateAfter batches.flatten) := by
  obtain ⟨new, hopen, hnew⟩ := openDb_fresh bin
  obtain ⟨db, hap, h⟩ := hnew.applyBatches_eq batches
  refine ⟨db, ?_, h⟩
  rw [direct, hopen, ok_bind, hap]
  rfl

variable (bin) in
theorem leader_eq (before after : List (List Entry)) :
    ∃ db, leader bin before after = .ok (snapshotOf bin (stateAfter before.flatten), db) ∧
      Holds bin db (stateAfter (before.flatten ++ after.flatten)) := by
  obtain ⟨db₁, hdirect, h₁⟩ := direct_eq bin before
  obtain ⟨db₂, hbuild, h₂⟩ := h₁.buildSnapshot_eq
  obtain ⟨db₃, hap, h₃⟩ := h₂.applyBatches_eq after
  refine ⟨db₃, ?_, ?_⟩
  · simp only [leader, hdirect, ok_bind, hbuild, onSuccess, Except.map, hap]
    rfl
  · rwa [stateAfter_append]

theorem applyEntries_reset (state : PersistedState) (n : ℕ) (es : List Entry) :
    (applyEntries { state with nextMutationId := n } es).1 =
      { (applyEntries state es).1 with nextMutationId := n + (mutations es).length } := by
  rw [applyEntries_state, applyEntries_state]

variable (bin) in
theorem follower_eq (db₀ : Db) (log : List Entry) (after : List (List Entry)) :
    ∃ db, follower bin db₀ (snapshotOf bin (stateAfter log)) after = .ok db ∧
      Holds bin db { stateAfter (log ++ after.flatten) with
        nextMutationId := (mutations after.flatten).length } := by
  obtain ⟨db₁, hinst, h₁⟩ := installSnapshot_snapshotOf bin db₀ (stateAfter log)
  obtain ⟨db₂, hap, h₂⟩ := h₁.applyBatches_eq after
  refine ⟨db₂, ?_, ?_⟩
  · simp only [follower, hinst, onSuccess, Except.map, ok_bind, hap]
    rfl
  · rw [applyEntries_reset, Nat.zero_add] at h₂
    rwa [stateAfter_append]

variable (bin)

/-- **Replicas agree, however they got there.** One replica applies the log in batches and
takes a snapshot on the way; a second one, in any state at all, installs that snapshot and
applies the rest; a third one applies the whole log from the start. All calls succeed, and all
three replicas end by showing the same: the log's last id, its last membership and the fold of
its mutations. -/
theorem replicas_agree (db₀ : Db) {before after after' whole : List (List Entry)}
    (hafter : after'.flatten = after.flatten)
    (hwhole : whole.flatten = before.flatten ++ after.flatten) :
    ∃ responses d l f snap,
      direct bin whole = .ok (responses, d) ∧
      leader bin before after = .ok (snap, l) ∧
      follower bin db₀ snap after' = .ok f ∧
      ∀ db ∈ [d, l, f], Shows bin db whole.flatten := by
  obtain ⟨d, hdirect, hd⟩ := direct_eq bin whole
  obtain ⟨l, hleader, hl⟩ := leader_eq bin before after
  obtain ⟨f, hfollower, hf⟩ := follower_eq bin db₀ before.flatten after'
  rw [hafter] at hf
  rw [← hwhole] at hl hf
  refine ⟨_, d, l, f, _, hdirect, hleader, hfollower, ?_⟩
  intro db hdb
  simp only [List.mem_cons, List.not_mem_nil, or_false] at hdb
  rcases hdb with rfl | rfl | rfl
  · exact hd.shows
  · exact hl.shows
  · exact hf.shows

end Replicas

/-! ### The stored layouts -/

section Formats

open Format

/-- A persisted state, field by field. -/
def PersistedState.format : Format PersistedState :=
  ((TopologySnapshot.format.prod LogId.format.option).prod
    (StoredMembership.format.prod nat)).map
    (fun s => ((s.topology, s.lastApplied), (s.lastMembership, s.nextMutationId)))
    (fun p => ⟨p.1.1, p.1.2, p.2.1, p.2.2⟩) fun _ => rfl

/-- A persisted snapshot, field by field. -/
def PersistedSnapshot.format : Format PersistedSnapshot :=
  ((LogId.format.option.prod StoredMembership.format).prod (string.prod (list u8))).map
    (fun s => ((s.info.lastLogId, s.info.lastMembership), (s.info.snapshotId, s.payload)))
    (fun p => ⟨⟨p.1.1, p.1.2, p.2.1⟩, p.2.2⟩) fun _ => rfl

/-- Encodings that round-trip exist. -/
def Bincode.ofFormats : Bincode :=
  ⟨PersistedState.format.toCodec, PersistedSnapshot.format.toCodec,
    TopologySnapshot.format.toCodec⟩

end Formats

/-- A replica that has applied nothing. -/
def newReplica : Db := ⟨some (Bincode.ofFormats.state.serialize PersistedState.default), none⟩

/-- The entry at an index that adds a node of that id. -/
def addNodeAt (index : UInt64) : Entry :=
  ⟨⟨⟨1, 1⟩, index⟩, .normal (.addNode ⟨index.toNat, [], []⟩)⟩

/-- A membership entry between two mutations, with the snapshot taken after the first. -/
theorem replicas_agree_three :
    letI := SnapshotApply.documented
    ∃ responses d l f snap,
      direct Bincode.ofFormats [[addNodeAt 1, ⟨⟨⟨1, 1⟩, 2⟩, .membership ⟨[[1]], []⟩⟩],
        [addNodeAt 3]] = .ok (responses, d) ∧
      leader Bincode.ofFormats [[addNodeAt 1]]
        [[⟨⟨⟨1, 1⟩, 2⟩, .membership ⟨[[1]], []⟩⟩], [addNodeAt 3]] = .ok (snap, l) ∧
      follower Bincode.ofFormats Db.fresh snap
        [[⟨⟨⟨1, 1⟩, 2⟩, .membership ⟨[[1]], []⟩⟩, addNodeAt 3]] = .ok f ∧
      ∀ db ∈ [d, l, f], Shows Bincode.ofFormats db
        [addNodeAt 1, ⟨⟨⟨1, 1⟩, 2⟩, .membership ⟨[[1]], []⟩⟩, addNodeAt 3] :=
  letI := SnapshotApply.documented
  replicas_agree Bincode.ofFormats Db.fresh rfl rfl

end StateMachine

end SonicBrew
