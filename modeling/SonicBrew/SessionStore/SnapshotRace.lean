import Mathlib.Data.Prod.Lex
import Mathlib.Order.WithBot
import SonicBrew.Lib.Publication
import SonicBrew.Lib.Transition
import SonicBrew.SessionStore.InstallCrash

/-!
# Snapshot builders beside the state machine

`build_snapshot` reads the `STATE` row under the database lock, lets the lock go, and takes it
again to write the `SNAPSHOT` row. `install_snapshot` writes the two rows one after the other.
Between the two steps of either the other calls run: the state machine applies entries or installs
a snapshot – one call at a time, since these methods take it exclusively – while any number of
builders, which have a handle on the database of their own, are somewhere between their read and
their write.

Seen from the `SNAPSHOT` row this is a board on which values of the last applied log id are
published (`SonicBrew.SnapshotRace.view`, `SonicBrew.Publication`). The id shown is never ahead
of the state, but a builder that was overtaken puts an old snapshot over a newer one
(`SonicBrew.SnapshotRace.snapshot_goes_back`).
-/

namespace SonicBrew

namespace SnapshotRace

open StateMachine

/-! ### The order of log ids -/

/-- Log ids are compared by term, then by node, then by index. -/
def rank (id : LogId) : ℕ ×ₗ ℕ ×ₗ ℕ :=
  toLex (id.leaderId.term.toNat, toLex (id.leaderId.nodeId.toNat, id.index.toNat))

/-- No log id comes before all of them. -/
def logRank : Option LogId → WithBot (ℕ ×ₗ ℕ ×ₗ ℕ)
  | none => ⊥
  | some id => rank id

/-! ### The interleaving -/

/-- The database, the snapshot that `install_snapshot` has still to record, and the state each
builder has read and not yet published. -/
structure World where
  db : Db
  installing : Option PersistedSnapshot
  builders : ℕ → Option PersistedState

/-- One locked step; `fault` is a refusal of the database. -/
inductive Action where
  | apply (entries : List Entry) (fault : Option StorageError)
  | installState (info : SnapshotMeta) (payload : Bytes) (fault : Option StorageError)
  | installSnapshot (fault : Option StorageError)
  | buildRead (b : ℕ) (fault : Option StorageError)
  | buildWrite (b : ℕ) (fault : Option StorageError)

/-- No call is running. -/
def start (db : Db) : World := ⟨db, none, fun _ => none⟩

/-- What a builder has in hand now. -/
def World.setBuilder (w : World) (b : ℕ) (state : Option PersistedState) : World :=
  { w with builders := Function.update w.builders b state }

variable [SnapshotApply] (bin : Bincode)

/-- One step, if it is possible. A call that meets a refusal is over. -/
def step (w : World) : Action → Option World
  | .apply entries fault =>
      match w.installing with
      | some _ => none
      | none => some { w with db := (StateMachine.apply bin w.db entries fault).2 }
  | .installState info payload fault =>
      match w.installing with
      | some _ => none
      | none =>
          match decodeRow bin.topology "deserialize install payload" payload with
          | .error _ => some w
          | .ok topology =>
              match writeState bin w.db (installedState info topology) fault with
              | .error _ => some w
              | .ok db => some { w with db, installing := some ⟨info, payload⟩ }
  | .installSnapshot fault =>
      match w.installing with
      | none => none
      | some snap =>
          match writeSnapshot bin w.db snap fault with
          | .error _ => some { w with installing := none }
          | .ok db => some { w with db, installing := none }
  | .buildRead b fault =>
      match w.builders b with
      | some _ => none
      | none =>
          match StateMachine.buildRead bin w.db fault with
          | .error _ => some w
          | .ok state => some (w.setBuilder b (some state))
  | .buildWrite b fault =>
      match w.builders b with
      | none => none
      | some state =>
          match ioStep fault "serialize topology" .write with
          | .error _ => some (w.setBuilder b none)
          | .ok _ =>
              let snap := snapshotOf bin state
              match writeSnapshot bin w.db ⟨snap.info, snap.snapshot⟩ fault with
              | .error _ => some (w.setBuilder b none)
              | .ok db => some { w.setBuilder b none with db }

/-! ### Steps without refusals -/

section Undisturbed

variable {bin} {db : Db} {state : PersistedState} {builders : ℕ → Option PersistedState}

theorem step_apply (h : Holds bin db state) (entries : List Entry) :
    step bin ⟨db, none, builders⟩ (.apply entries none) =
      some ⟨{ db with state := some (bin.state.serialize (applyEntries state entries).1) }, none,
        builders⟩ := by
  simp only [step, StateMachine.apply, h.readState_eq]
  rfl

theorem step_installState {info : SnapshotMeta} {payload : Bytes} {topology : TopologySnapshot}
    (h : bin.topology.deserialize payload = .ok topology) :
    step bin ⟨db, none, builders⟩ (.installState info payload none) =
      some ⟨halfInstalled bin db info topology, some ⟨info, payload⟩, builders⟩ := by
  simp only [step, decodeRow, h]
  rfl

theorem step_installSnapshot (snap : PersistedSnapshot) :
    step bin ⟨db, some snap, builders⟩ (.installSnapshot none) =
      some ⟨{ db with snapshot := some (bin.snapshot.serialize snap) }, none, builders⟩ := rfl

theorem step_buildRead {installing : Option PersistedSnapshot} {b : ℕ} (h : Holds bin db state)
    (hb : builders b = none) :
    step bin ⟨db, installing, builders⟩ (.buildRead b none) =
      some ⟨db, installing, Function.update builders b (some state)⟩ := by
  have hread : StateMachine.buildRead bin db none = .ok state := h.buildRead_eq
  simp only [step, hb, hread]
  rfl

theorem step_buildWrite {installing : Option PersistedSnapshot} {b : ℕ}
    (hb : builders b = some state) :
    step bin ⟨db, installing, builders⟩ (.buildWrite b none) =
      some ⟨{ db with snapshot := some (bin.snapshot.serialize
          ⟨(snapshotOf bin state).info, (snapshotOf bin state).snapshot⟩) },
        installing, Function.update builders b none⟩ := by
  simp only [step, hb]
  rfl

/-- **An install that nobody interrupts** is the install of the sequential model. -/
theorem solo_installSnapshot (db : Db) (info : SnapshotMeta) (payload : Bytes)
    (fault : Option StorageError) (builders : ℕ → Option PersistedState) :
    ∃ rest ∈ [[], [Action.installSnapshot fault]],
      Transition.run (step bin) ⟨db, none, builders⟩ (.installState info payload fault :: rest) =
        some ⟨(StateMachine.installSnapshot bin db info payload fault).2, none, builders⟩ := by
  rcases hdec : bin.topology.deserialize payload with cause | topology
  · refine ⟨[], by simp, ?_⟩
    simp only [Transition.run, step, StateMachine.installSnapshot, decodeRow, hdec,
      Option.bind_some]
  rw [installSnapshot_of_ok hdec]
  rcases hstate : writeState bin db (installedState info topology) fault with e | db₁
  · refine ⟨[], by simp, ?_⟩
    simp only [Transition.run, step, decodeRow, hdec, hstate, Option.bind_some]
  · refine ⟨[.installSnapshot fault], by simp, ?_⟩
    simp only [Transition.run, step, decodeRow, hdec, hstate, Option.bind_some]
    cases writeSnapshot bin db₁ ⟨info, payload⟩ fault <;> rfl

/-- **A build that nobody interrupts** is the build of the sequential model. -/
theorem solo_buildSnapshot (db : Db) (installing : Option PersistedSnapshot)
    (fault : Option StorageError) {b : ℕ} (hb : builders b = none) :
    ∃ rest ∈ [[], [Action.buildWrite b fault]],
      Transition.run (step bin) ⟨db, installing, builders⟩ (.buildRead b fault :: rest) =
        some ⟨(buildSnapshot bin db fault).2, installing, builders⟩ := by
  rcases hread : StateMachine.buildRead bin db fault with e | state
  · refine ⟨[], by simp, ?_⟩
    simp only [Transition.run, step, hb, buildSnapshot, hread, Option.bind_some]
  · have hdone : Function.update (Function.update builders b (some state)) b none = builders := by
      rw [Function.update_idem, ← hb, Function.update_eq_self]
    refine ⟨[.buildWrite b fault], by simp, ?_⟩
    simp only [Transition.run, step, hb, buildSnapshot, hread, World.setBuilder, Option.bind_some,
      Function.update_self, hdone]
    cases ioStep fault "serialize topology" .write with
    | error e => rfl
    | ok u =>
      cases writeSnapshot bin db ⟨(snapshotOf bin state).info, (snapshotOf bin state).snapshot⟩
        fault <;> rfl

end Undisturbed

/-! ### What is seen of it -/

/-- The last applied log id. -/
def appliedId (db : Db) : Option LogId :=
  match readState bin db none with
  | .ok state => state.lastApplied
  | .error _ => none

/-- The `last_log_id` of the snapshot that `get_current_snapshot` returns, if it returns one. -/
def snapshotId (db : Db) : Option (Option LogId) :=
  match getCurrentSnapshot bin db none with
  | .ok (some snap) => some snap.info.lastLogId
  | _ => none

/-- **The current snapshot has not gone back** from one database to the next. -/
def NotBehind (db db' : Db) : Prop :=
  ∀ id ∈ snapshotId bin db, ∃ id' ∈ snapshotId bin db', logRank id ≤ logRank id'

/-- **Log ids only advance**: what is applied or installed is not behind what has been applied. -/
def Advances (w : World) : Action → Prop
  | .apply entries _ => ∀ e ∈ entries, logRank (appliedId bin w.db) ≤ logRank (some e.logId)
  | .installState info _ _ => logRank (appliedId bin w.db) ≤ logRank info.lastLogId
  | _ => True

instance (w : World) (a : Action) : Decidable (Advances bin w a) := by
  cases a <;> unfold Advances <;> infer_instance

/-- The builder that writes `SNAPSHOT` in a step, or `none` for the state machine, and the log id
of what it writes; nothing if the write is refused. -/
def publishes (w : World) : Action → Option (Option ℕ × Option LogId)
  | .installSnapshot fault =>
      if Refuses snapshotCalls fault then none
      else w.installing.map fun snap => (none, snap.info.lastLogId)
  | .buildWrite b fault =>
      if Refuses ("serialize topology" :: snapshotCalls) fault then none
      else (w.builders b).map fun state => (some b, state.lastApplied)
  | _ => none

/-- **Nobody is overtaken**: when `SNAPSHOT` is written, every other builder that is between its
read and its write has read a state at least as new as what is written. -/
def Unraced (w : World) (a : Action) : Prop :=
  ∀ writer id, publishes w a = some (writer, id) →
    ∀ b state, some b ≠ writer → w.builders b = some state → logRank id ≤ logRank state.lastApplied

/-! ### The board -/

/-- The world as a board: the last applied id is the source, the writers are the state machine and
the builders. -/
def view (w : World) : Publication (Option ℕ) (WithBot (ℕ ×ₗ ℕ ×ₗ ℕ)) where
  source := logRank (appliedId bin w.db)
  pending
    | none => w.installing.map fun snap => logRank snap.info.lastLogId
    | some b => (w.builders b).map fun state => logRank state.lastApplied
  shown := (snapshotId bin w.db).map logRank

section Reads

variable {bin} {db : Db} {fault : Option StorageError} {state : PersistedState}

omit [SnapshotApply]

/-- A builder reads what the state machine reads. -/
theorem readState_of_buildRead (h : StateMachine.buildRead bin db fault = .ok state) :
    readState bin db none = .ok state := by
  obtain ⟨_, -, h⟩ := bind_eq_ok.mp h
  obtain ⟨_, -, h⟩ := bind_eq_ok.mp h
  obtain ⟨_, -, h⟩ := bind_eq_ok.mp h
  simp only [readState, ioStep_none, ok_bind]
  cases hrow : db.state with
  | none => simp only [hrow] at h; cases h
  | some bytes => simpa only [hrow] using h

theorem appliedId_of_readState (h : readState bin db none = .ok state) :
    appliedId bin db = state.lastApplied := by
  rw [appliedId, h]

theorem appliedId_of_holds (h : Holds bin db state) : appliedId bin db = state.lastApplied :=
  appliedId_of_readState h.readState_eq

theorem appliedId_recorded (db : Db) (state : PersistedState) :
    appliedId bin { db with state := some (bin.state.serialize state) } = state.lastApplied :=
  appliedId_of_holds rfl

theorem snapshotId_recorded (db : Db) (snap : PersistedSnapshot) :
    snapshotId bin { db with snapshot := some (bin.snapshot.serialize snap) } =
      some snap.info.lastLogId := by
  simp only [snapshotId, getCurrentSnapshot, readSnapshot, ioStep_none, ok_bind,
    decodeRow_serialize]
  rfl

end Reads

section Views

omit [SnapshotApply]

/-- What `install_snapshot` has still to record now. -/
def World.setInstalling (w : World) (snap : Option PersistedSnapshot) : World :=
  { w with installing := snap }

/-- The `STATE` row has been written. -/
def World.setState (w : World) (state : PersistedState) : World :=
  { w with db := { w.db with state := some (bin.state.serialize state) } }

/-- The `SNAPSHOT` row has been written. -/
def World.setSnapshot (w : World) (snap : PersistedSnapshot) : World :=
  { w with db := { w.db with snapshot := some (bin.snapshot.serialize snap) } }

theorem view_setState (w : World) (state : PersistedState) :
    view bin (w.setState bin state) = { view bin w with source := logRank state.lastApplied } :=
  Publication.ext (congrArg logRank (appliedId_recorded w.db state)) rfl rfl

theorem view_setSnapshot (w : World) (snap : PersistedSnapshot) :
    view bin (w.setSnapshot bin snap) =
      { view bin w with shown := some (logRank snap.info.lastLogId) } :=
  Publication.ext rfl rfl (congrArg (Option.map logRank) (snapshotId_recorded w.db snap))

theorem view_setBuilder (w : World) (b : ℕ) (state : Option PersistedState) :
    view bin (w.setBuilder b state) =
      { view bin w with
        pending := Function.update (view bin w).pending (some b)
          (state.map fun state => logRank state.lastApplied) } := by
  refine Publication.ext rfl (funext fun i => ?_) rfl
  dsimp only
  rcases eq_or_ne i (some b) with rfl | hi
  · simp only [view, World.setBuilder, Function.update_self]
  · rw [Function.update_of_ne hi]
    rcases i with _ | c
    · rfl
    · have hc : c ≠ b := fun hcon => hi (congrArg some hcon)
      simp only [view, World.setBuilder, Function.update_of_ne hc]

theorem view_setInstalling (w : World) (snap : Option PersistedSnapshot) :
    view bin (w.setInstalling snap) =
      { view bin w with
        pending := Function.update (view bin w).pending none
          (snap.map fun snap => logRank snap.info.lastLogId) } := by
  refine Publication.ext rfl (funext fun i => ?_) rfl
  dsimp only
  rcases i with _ | b
  · rw [Function.update_self]
    rfl
  · rw [Function.update_of_ne (by rintro ⟨⟩)]
    rfl

end Views

variable {bin}

/-! ### What a step can do -/

omit [SnapshotApply] in
/-- The two places where a builder's write can be refused. -/
theorem not_refuses_cons {fault : Option StorageError}
    (hser : ioStep fault "serialize topology" .write = .ok ())
    (hfault : ¬Refuses snapshotCalls fault) :
    ¬Refuses ("serialize topology" :: snapshotCalls) fault := by
  rcases fault with _ | e
  · exact hfault
  · rintro ⟨hverb, hmem⟩
    rcases List.mem_cons.mp hmem with hcontext | hmem
    · rw [ioStep, if_pos ⟨hcontext, hverb⟩] at hser
      cases hser
    · exact hfault ⟨hverb, hmem⟩

omit [SnapshotApply] in
theorem not_refuses_of_cons {fault : Option StorageError} {call : String} {calls : List String}
    (h : ¬Refuses (call :: calls) fault) : ¬Refuses calls fault := by
  rcases fault with _ | e
  · exact h
  · exact fun hcon => h ⟨hcon.1, List.mem_cons_of_mem call hcon.2⟩

section Steps

variable {w w' : World} {b : ℕ} {fault : Option StorageError}

theorem step_apply_cases {entries : List Entry}
    (h : step bin w (.apply entries fault) = some w') :
    w.installing = none ∧ (w' = w ∨ ∃ state, readState bin w.db none = .ok state ∧
      w' = w.setState bin (applyEntries state entries).1) := by
  rcases w with ⟨db, _ | snap, builders⟩
  · refine ⟨rfl, ?_⟩
    obtain rfl := Option.some.inj h
    rcases hread : readState bin db fault with e | state
    · left
      simp only [StateMachine.apply, hread]
    rcases hwrite : writeState bin db (applyEntries state entries).1 fault with e | db'
    · left
      simp only [StateMachine.apply, hread, hwrite]
    · right
      obtain rfl := of_writeState_ok hwrite
      refine ⟨state, readState_of_fault hread, ?_⟩
      simp only [StateMachine.apply, hread, hwrite, World.setState]
  · cases h

theorem step_installState_cases {info : SnapshotMeta} {payload : Bytes}
    (h : step bin w (.installState info payload fault) = some w') :
    w.installing = none ∧ (w' = w ∨ ∃ topology,
      w' = (w.setInstalling (some ⟨info, payload⟩)).setState bin
        (installedState info topology)) := by
  rcases hinst : w.installing with _ | snap
  · refine ⟨rfl, ?_⟩
    simp only [step, hinst] at h
    split at h
    · exact Or.inl (Option.some.inj h).symm
    · split at h
      · exact Or.inl (Option.some.inj h).symm
      · rename_i topology _ _ _ hwrite
        obtain rfl := of_writeState_ok hwrite
        exact Or.inr ⟨topology, (Option.some.inj h).symm⟩
  · simp [step, hinst] at h

theorem step_installSnapshot_cases (h : step bin w (.installSnapshot fault) = some w') :
    ∃ snap, w.installing = some snap ∧ (w' = w.setInstalling none ∨
      ¬Refuses snapshotCalls fault ∧ w' = (w.setInstalling none).setSnapshot bin snap) := by
  rcases hinst : w.installing with _ | snap
  · simp [step, hinst] at h
  · refine ⟨snap, rfl, ?_⟩
    simp only [step, hinst] at h
    split at h
    · exact Or.inl (Option.some.inj h).symm
    · rename_i hwrite
      obtain ⟨hfault, rfl⟩ := of_writeSnapshot_ok hwrite
      exact Or.inr ⟨hfault, (Option.some.inj h).symm⟩

theorem step_buildRead_cases (h : step bin w (.buildRead b fault) = some w') :
    w' = w ∨ ∃ state, readState bin w.db none = .ok state ∧ w' = w.setBuilder b (some state) := by
  simp only [step] at h
  split at h
  · cases h
  · split at h
    · exact Or.inl (Option.some.inj h).symm
    · rename_i state hread
      exact Or.inr ⟨state, readState_of_buildRead hread, (Option.some.inj h).symm⟩

theorem step_buildWrite_cases (h : step bin w (.buildWrite b fault) = some w') :
    ∃ state, w.builders b = some state ∧ (w' = w.setBuilder b none ∨
      ¬Refuses ("serialize topology" :: snapshotCalls) fault ∧
        w' = (w.setBuilder b none).setSnapshot bin
          ⟨(snapshotOf bin state).info, (snapshotOf bin state).snapshot⟩) := by
  rcases hb : w.builders b with _ | state
  · simp [step, hb] at h
  · refine ⟨state, rfl, ?_⟩
    simp only [step, hb] at h
    split at h
    · exact Or.inl (Option.some.inj h).symm
    · rename_i hser
      split at h
      · exact Or.inl (Option.some.inj h).symm
      · rename_i hwrite
        obtain ⟨hfault, rfl⟩ := of_writeSnapshot_ok hwrite
        exact Or.inr ⟨not_refuses_cons hser hfault, (Option.some.inj h).symm⟩

end Steps

/-- What a step publishes, on the board. -/
def Turn (w : World) (a : Action) (i : Option ℕ) (v : WithBot (ℕ ×ₗ ℕ ×ₗ ℕ)) : Prop :=
  ∃ id, publishes w a = some (i, id) ∧ v = logRank id

theorem logRank_le_applyEntries {state : PersistedState} {entries : List Entry}
    (h : ∀ e ∈ entries, logRank state.lastApplied ≤ logRank (some e.logId)) :
    logRank state.lastApplied ≤ logRank (applyEntries state entries).1.lastApplied := by
  rw [applyEntries_state]
  cases hlast : entries.getLast? with
  | none => exact le_rfl
  | some e => exact h e (List.mem_of_getLast? hlast)

theorem view_apply {w w' : World} {entries : List Entry} {fault : Option StorageError}
    (hadv : Advances bin w (.apply entries fault))
    (h : step bin w (.apply entries fault) = some w') :
    Publication.Step (Turn w (.apply entries fault)) (view bin w) (view bin w') := by
  obtain ⟨-, rfl | ⟨state, hread, rfl⟩⟩ := step_apply_cases h
  · exact .stay _
  · have happlied := appliedId_of_readState hread
    rw [view_setState]
    refine .advance ?_
    rw [Advances, happlied] at hadv
    simpa only [view, happlied] using logRank_le_applyEntries hadv

theorem view_installState {w w' : World} {info : SnapshotMeta} {payload : Bytes}
    {fault : Option StorageError} (hadv : Advances bin w (.installState info payload fault))
    (h : step bin w (.installState info payload fault) = some w') :
    Publication.Step (Turn w (.installState info payload fault)) (view bin w) (view bin w') := by
  obtain ⟨-, rfl | ⟨topology, rfl⟩⟩ := step_installState_cases h
  · exact .stay _
  · rw [view_setState, view_setInstalling]
    exact .announce none hadv

theorem view_installSnapshot {w w' : World} {fault : Option StorageError}
    (h : step bin w (.installSnapshot fault) = some w') :
    Publication.Step (Turn w (.installSnapshot fault)) (view bin w) (view bin w') := by
  obtain ⟨snap, hinst, rfl | ⟨hfault, rfl⟩⟩ := step_installSnapshot_cases h
  · rw [view_setInstalling]
    exact .drop none
  · rw [view_setSnapshot, view_setInstalling]
    refine .publish ?_ ⟨snap.info.lastLogId, ?_, rfl⟩
    · simp only [view, hinst]
      rfl
    · simp only [publishes, if_neg hfault, hinst]
      rfl

theorem view_buildRead {w w' : World} {b : ℕ} {fault : Option StorageError}
    (h : step bin w (.buildRead b fault) = some w') :
    Publication.Step (Turn w (.buildRead b fault)) (view bin w) (view bin w') := by
  obtain rfl | ⟨state, hread, rfl⟩ := step_buildRead_cases h
  · exact .stay _
  · have happlied := appliedId_of_readState hread
    rw [view_setBuilder, Option.map_some, ← happlied]
    exact .announce (some b) le_rfl

theorem view_buildWrite {w w' : World} {b : ℕ} {fault : Option StorageError}
    (h : step bin w (.buildWrite b fault) = some w') :
    Publication.Step (Turn w (.buildWrite b fault)) (view bin w) (view bin w') := by
  obtain ⟨state, hb, rfl | ⟨hfault, rfl⟩⟩ := step_buildWrite_cases h
  · rw [view_setBuilder]
    exact .drop (some b)
  · rw [view_setSnapshot, view_setBuilder]
    refine .publish ?_ ⟨state.lastApplied, ?_, rfl⟩
    · simp only [view, hb]
      rfl
    · simp only [publishes, if_neg hfault, hb]
      rfl

/-- **The board is what the calls do**: every step of the calls is one step of the board, and it
publishes what `SonicBrew.SnapshotRace.publishes` says. -/
theorem step_view {w w' : World} {a : Action} (hadv : Advances bin w a)
    (h : step bin w a = some w') : Publication.Step (Turn w a) (view bin w) (view bin w') := by
  cases a with
  | apply entries fault => exact view_apply hadv h
  | installState info payload fault => exact view_installState hadv h
  | installSnapshot fault => exact view_installSnapshot h
  | buildRead b fault => exact view_buildRead h
  | buildWrite b fault => exact view_buildWrite h

/-! ### What holds in every run -/

/-- The current snapshot, if there is one, is not ahead of the state. -/
def Sound (bin : Bincode) (db : Db) : Prop :=
  ∀ id ∈ snapshotId bin db, logRank id ≤ logRank (appliedId bin db)

omit [SnapshotApply] in
theorem bounded_start {db : Db} (h : Sound bin db) : (view bin (start db)).Bounded := by
  refine ⟨fun v hv => ?_, ?_⟩
  · obtain ⟨id, hid, rfl⟩ := Option.mem_map.mp hv
    exact h id hid
  · rintro (_ | b) u ⟨⟩

/-- **Whatever races**, a snapshot is never ahead of the state: a database that is found after a
restart is one that a run can start from. -/
theorem sound_run {db : Db} (h : Sound bin db) {as : List Action} {w : World}
    (hmeets : Transition.Meets (step bin) (Advances bin) (start db) as)
    (hrun : Transition.run (step bin) (start db) as = some w) : Sound bin w.db := by
  have hbounded : (view bin w).Bounded :=
    Transition.invariant_of_meets (P := fun w => (view bin w).Bounded)
      (fun _ _ _ hb hadv hstep => hb.step (step_view hadv hstep)) (bounded_start h) hmeets hrun
  intro id hid
  exact hbounded.shown_le _ (Option.mem_map_of_mem logRank hid)

/-- What `install_snapshot` has still to record is what it has put into `STATE`. -/
def Current (bin : Bincode) (w : World) : Prop :=
  ∀ snap ∈ w.installing, logRank (appliedId bin w.db) ≤ logRank snap.info.lastLogId

theorem Current.step {w w' : World} {a : Action} (h : Current bin w)
    (hstep : SnapshotRace.step bin w a = some w') : Current bin w' := by
  cases a with
  | apply entries fault =>
    obtain ⟨hidle, rfl | ⟨state, -, rfl⟩⟩ := step_apply_cases hstep
    · exact h
    · intro snap hsnap
      cases hidle.symm.trans hsnap
  | installState info payload fault =>
    obtain ⟨-, rfl | ⟨topology, rfl⟩⟩ := step_installState_cases hstep
    · exact h
    · rintro _ ⟨⟩
      exact (congrArg logRank (appliedId_recorded w.db _)).le
  | installSnapshot fault =>
    obtain ⟨snap, -, rfl | ⟨-, rfl⟩⟩ := step_installSnapshot_cases hstep <;> rintro _ ⟨⟩
  | buildRead b fault =>
    obtain rfl | ⟨state, -, rfl⟩ := step_buildRead_cases hstep <;> exact h
  | buildWrite b fault =>
    obtain ⟨state, -, rfl | ⟨-, rfl⟩⟩ := step_buildWrite_cases hstep <;> exact h

/-! ### Runs in which nobody is overtaken -/

omit [SnapshotApply] in
/-- What a call publishes is what it has in hand. -/
theorem mem_pending_of_publishes {w : World} {a : Action} {i : Option ℕ} {id : Option LogId}
    (h : publishes w a = some (i, id)) : logRank id ∈ (view bin w).pending i := by
  cases a with
  | installSnapshot fault =>
    simp only [publishes, Option.ite_none_left_eq_some, Option.map_eq_some_iff] at h
    obtain ⟨-, snap, hsnap, ⟨⟩⟩ := h
    exact Option.mem_map_of_mem (fun snap => logRank snap.info.lastLogId) hsnap
  | buildWrite b fault =>
    simp only [publishes, Option.ite_none_left_eq_some, Option.map_eq_some_iff] at h
    obtain ⟨-, state, hstate, ⟨⟩⟩ := h
    exact Option.mem_map_of_mem (fun state => logRank state.lastApplied) hstate
  | _ => cases h

/-- **The invariant** of such a run: what is still to be published is not behind what is shown. -/
structure Inv (bin : Bincode) (w : World) : Prop where
  ordered : (view bin w).Ordered
  current : Current bin w

omit [SnapshotApply] in
theorem inv_start {db : Db} (h : Sound bin db) : Inv bin (start db) := by
  refine ⟨⟨bounded_start h, ?_⟩, ?_⟩
  · rintro (_ | b) u ⟨⟩
  · rintro snap ⟨⟩

omit [SnapshotApply] in
/-- When nobody is overtaken, a call publishes in turn: the builders are behind nobody by
assumption, and a running `install_snapshot` because it holds the newest id there is. -/
theorem Inv.inTurn {w : World} {a : Action} (h : Inv bin w) (hunraced : Unraced w a)
    {i : Option ℕ} {v : WithBot (ℕ ×ₗ ℕ ×ₗ ℕ)} (hturn : Turn w a i v) :
    (view bin w).InTurn i v := by
  obtain ⟨id, hpub, rfl⟩ := hturn
  rintro (_ | b) hj u hu
  · obtain ⟨snap, hsnap, rfl⟩ := Option.mem_map.mp hu
    calc logRank id ≤ logRank (appliedId bin w.db) :=
          h.ordered.pending_le i _ (mem_pending_of_publishes hpub)
      _ ≤ logRank snap.info.lastLogId := h.current snap hsnap
  · obtain ⟨state, hstate, rfl⟩ := Option.mem_map.mp hu
    exact hunraced i id hpub b state hj hstate

theorem Inv.step {w w' : World} {a : Action} (h : Inv bin w) (hadv : Advances bin w a)
    (hunraced : Unraced w a) (hstep : SnapshotRace.step bin w a = some w') : Inv bin w' :=
  ⟨h.ordered.step ((step_view hadv hstep).mono fun _ _ => h.inTurn hunraced),
    h.current.step hstep⟩

/-- **The current snapshot never goes back** in a run in which nobody is overtaken: the
database that any number of builders and one state machine share starts with a snapshot that is
not ahead of its state, the log ids that are applied and installed only advance, and at every write
of `SNAPSHOT` no other builder holds an older state. -/
theorem snapshot_never_goes_back {db : Db} (h : Sound bin db) {before after : List Action}
    {w₁ w₂ : World}
    (hmeets : Transition.Meets (step bin) (fun w a => Advances bin w a ∧ Unraced w a) (start db)
      (before ++ after))
    (h₁ : Transition.run (step bin) (start db) before = some w₁)
    (h₂ : Transition.run (step bin) w₁ after = some w₂) : NotBehind bin w₁.db w₂.db := by
  obtain ⟨hbefore, hafter⟩ := Transition.meets_append hmeets h₁
  have hinv : Inv bin w₁ :=
    Transition.invariant_of_meets (fun _ _ _ hi hc => hi.step hc.1 hc.2) (inv_start h) hbefore h₁
  obtain ⟨-, hboard⟩ :=
    Transition.invariant_of_meets
      (P := fun w => Inv bin w ∧ (view bin w₁).NotBehind (view bin w))
      (fun _ _ _ hi hc hstep => ⟨hi.1.step hc.1 hc.2 hstep,
        hi.2.trans (hi.1.ordered.notBehind (step_view hc.1 hstep))⟩)
      ⟨hinv, .refl _⟩ hafter h₂
  intro id hid
  obtain ⟨v, hv, hle⟩ := hboard _ (Option.mem_map_of_mem logRank hid)
  obtain ⟨id', hid', rfl⟩ := Option.mem_map.mp hv
  exact ⟨id', hid', hle⟩

/-- The entry a new leader begins its term with, and the state it leaves on a new replica. -/
def firstEntry : Entry := ⟨⟨⟨1, 1⟩, 1⟩, .blank⟩

def firstState : PersistedState :=
  { PersistedState.default with lastApplied := some firstEntry.logId }

def firstReplica : Db := ⟨some (Bincode.ofFormats.state.serialize firstState), none⟩

/-- Builder 0 has read that state. -/
def firstBuilder : ℕ → Option PersistedState := Function.update (fun _ => none) 0 (some firstState)

/-- A snapshot at index 5. -/
def aheadSnapshot : Snapshot := snapshotOf Bincode.ofFormats aheadState

/-- A replica that has installed it. -/
def aheadReplica : Db :=
  installedPair Bincode.ofFormats aheadSnapshot.info aheadSnapshot.snapshot aheadState.topology

theorem apply_firstEntry :
    step Bincode.ofFormats (start newReplica) (.apply [firstEntry] none) =
      some (start firstReplica) :=
  step_apply (rfl : Holds Bincode.ofFormats newReplica PersistedState.default) _

theorem buildRead_firstReplica :
    step Bincode.ofFormats (start firstReplica) (.buildRead 0 none) =
      some ⟨firstReplica, none, firstBuilder⟩ :=
  step_buildRead rfl rfl

omit [SnapshotApply] in
theorem unraced_of_idle {w : World} (hw : w.builders = fun _ => none) (a : Action) :
    Unraced w a := by
  intro i id _ b state _ hstate
  rw [hw] at hstate
  cases hstate

/-- A replica that has built its snapshot. -/
def builtReplica : Db :=
  { firstReplica with snapshot := some (Bincode.ofFormats.snapshot.serialize
      ⟨(snapshotOf Bincode.ofFormats firstState).info,
        (snapshotOf Bincode.ofFormats firstState).snapshot⟩) }

theorem buildWrite_firstReplica :
    step Bincode.ofFormats ⟨firstReplica, none, firstBuilder⟩ (.buildWrite 0 none) =
      some (start builtReplica) := by
  have hidle : Function.update firstBuilder 0 none = fun _ => none :=
    (Function.update_idem ..).trans (Function.update_eq_self 0 _)
  rw [step_buildWrite (rfl : firstBuilder 0 = some firstState), hidle]
  rfl

omit [SnapshotApply] in
theorem unraced_firstBuilder (db : Db) :
    Unraced ⟨db, none, firstBuilder⟩ (.buildWrite 0 none) := by
  rintro i id hpub b state hb hstate
  obtain ⟨⟩ : some (some 0, firstState.lastApplied) = some (i, id) := hpub
  have hnone : firstBuilder b = none :=
    Function.update_of_ne (fun hcon => hb (congrArg some hcon)) _ _
  cases hnone.symm.trans hstate

omit [SnapshotApply] in
/-- The first snapshot is built. -/
theorem sound_run_built :
    letI := SnapshotApply.documented
    ∃ w, Transition.run (step Bincode.ofFormats) (start newReplica)
        [.apply [firstEntry] none, .buildRead 0 none, .buildWrite 0 none] = some w ∧
      Sound Bincode.ofFormats w.db := by
  let := SnapshotApply.documented
  have hrun := (Transition.run_of_step apply_firstEntry _).trans
    ((Transition.run_of_step buildRead_firstReplica _).trans
      (Transition.run_of_step buildWrite_firstReplica []))
  exact ⟨_, hrun, sound_run (fun id hid => by cases hid) (by decide +kernel) hrun⟩

omit [SnapshotApply] in
/-- A snapshot is built, and then a newer one is installed. -/
theorem snapshot_never_goes_back_inTurn :
    letI := SnapshotApply.documented
    ∃ w₁ w₂,
      Transition.run (step Bincode.ofFormats) (start newReplica)
        [.apply [firstEntry] none, .buildRead 0 none, .buildWrite 0 none] = some w₁ ∧
      Transition.run (step Bincode.ofFormats) w₁
        [.installState aheadSnapshot.info aheadSnapshot.snapshot none, .installSnapshot none] =
          some w₂ ∧
      NotBehind Bincode.ofFormats w₁.db w₂.db := by
  let := SnapshotApply.documented
  have hstate : step Bincode.ofFormats (start builtReplica)
      (.installState aheadSnapshot.info aheadSnapshot.snapshot none) = some _ :=
    step_installState (Codec.deserialize_serialize _ aheadState.topology)
  have h₁ := (Transition.run_of_step apply_firstEntry _).trans
    ((Transition.run_of_step buildRead_firstReplica _).trans
      (Transition.run_of_step buildWrite_firstReplica []))
  have h₂ := (Transition.run_of_step hstate _).trans
    (Transition.run_of_step (step_installSnapshot _) [])
  refine ⟨_, _, h₁, h₂, snapshot_never_goes_back (fun id hid => by cases hid) ?_ h₁ h₂⟩
  exact Transition.meets_cons ⟨by decide +kernel, unraced_of_idle rfl _⟩ apply_firstEntry
    (Transition.meets_cons ⟨trivial, unraced_of_idle rfl _⟩ buildRead_firstReplica
      (Transition.meets_cons ⟨trivial, unraced_firstBuilder _⟩ buildWrite_firstReplica
        (Transition.meets_cons ⟨by decide +kernel, unraced_of_idle rfl _⟩ hstate
          (Transition.meets_cons ⟨trivial, unraced_of_idle rfl _⟩ (step_installSnapshot _)
            trivial))))

/-! ### A builder that is overtaken -/

omit [SnapshotApply] in
theorem notBehind_iff {db db' : Db} {id id' : Option LogId} (h : snapshotId bin db = some id)
    (h' : snapshotId bin db' = some id') : NotBehind bin db db' ↔ logRank id ≤ logRank id' := by
  rw [NotBehind, h, h']
  simp only [Option.mem_some_iff, forall_eq', exists_eq_left']

/-- A publication shows its own id, and leaves the other builders where they are. -/
theorem snapshotId_of_publishes {w w' : World} {a : Action} {i : Option ℕ} {id : Option LogId}
    (h : step bin w a = some w') (hpub : publishes w a = some (i, id)) :
    snapshotId bin w'.db = some id ∧ ∀ b, some b ≠ i → w'.builders b = w.builders b := by
  cases a with
  | installSnapshot fault =>
    simp only [publishes, Option.ite_none_left_eq_some, Option.map_eq_some_iff] at hpub
    obtain ⟨hfault, snap, hsnap, ⟨⟩⟩ := hpub
    simp only [step, hsnap, writeSnapshot_ok bin w.db snap hfault] at h
    cases h
    exact ⟨snapshotId_recorded w.db snap, fun _ _ => rfl⟩
  | buildWrite b fault =>
    simp only [publishes, Option.ite_none_left_eq_some, Option.map_eq_some_iff] at hpub
    obtain ⟨hfault, state, hstate, ⟨⟩⟩ := hpub
    have hser := ioStep_of_not_refuses hfault List.mem_cons_self
    simp only [step, hstate, hser, writeSnapshot_ok bin w.db _ (not_refuses_of_cons hfault)] at h
    cases h
    refine ⟨snapshotId_recorded w.db _, fun c hc => ?_⟩
    exact Function.update_of_ne (fun hcon => hc (congrArg some hcon)) _ _
  | _ => cases hpub

/-- **A builder that is overtaken takes the snapshot back**: whoever writes `SNAPSHOT` while a
builder holds an older state, that builder's write puts its older log id in the place of the one
that is shown. -/
theorem goes_back_of_overtaken {w w' : World} {a : Action} {i : Option ℕ} {id : Option LogId}
    (h : step bin w a = some w') (hpub : publishes w a = some (i, id)) {b : ℕ} (hb : some b ≠ i)
    {state : PersistedState} (hstate : w.builders b = some state)
    (hlt : ¬logRank id ≤ logRank state.lastApplied) :
    ∃ w'', step bin w' (.buildWrite b none) = some w'' ∧ snapshotId bin w'.db = some id ∧
      snapshotId bin w''.db = some state.lastApplied ∧ ¬NotBehind bin w'.db w''.db := by
  obtain ⟨hshown, hothers⟩ := snapshotId_of_publishes h hpub
  have hmine : w'.builders b = some state := (hothers b hb).trans hstate
  refine ⟨_, step_buildWrite hmine, hshown, snapshotId_recorded w'.db _, ?_⟩
  rwa [notBehind_iff hshown (snapshotId_recorded w'.db _)]

omit [SnapshotApply] in
/-- The builder that has read the first state is overtaken by a snapshot that is installed. -/
theorem goes_back_of_overtaken_builder :
    letI := SnapshotApply.documented
    ∃ w' w'', step Bincode.ofFormats
        ⟨halfInstalled Bincode.ofFormats firstReplica aheadSnapshot.info aheadState.topology,
          some ⟨aheadSnapshot.info, aheadSnapshot.snapshot⟩, firstBuilder⟩ (.installSnapshot none) =
        some w' ∧ step Bincode.ofFormats w' (.buildWrite 0 none) = some w'' ∧
      snapshotId Bincode.ofFormats w'.db = some (some ⟨⟨1, 1⟩, 5⟩) ∧
      snapshotId Bincode.ofFormats w''.db = some (some ⟨⟨1, 1⟩, 1⟩) := by
  let := SnapshotApply.documented
  have hsnap := @step_installSnapshot _ Bincode.ofFormats
    (halfInstalled Bincode.ofFormats firstReplica aheadSnapshot.info aheadState.topology)
    firstBuilder ⟨aheadSnapshot.info, aheadSnapshot.snapshot⟩
  obtain ⟨w'', hwrite, hshown, hback, -⟩ := goes_back_of_overtaken hsnap (i := none) rfl
    (b := 0) (by simp) (rfl : _ = some firstState) (by decide)
  exact ⟨_, w'', hsnap, hwrite, hshown, hback⟩

omit [SnapshotApply] in
/-- **A builder that is overtaken.** It has read a state at index 1; the state machine installs a
snapshot at index 5, in both rows; then the builder writes, and the current snapshot is the one at
index 1 again. -/
theorem snapshot_goes_back :
    letI := SnapshotApply.documented
    let before : List Action := [.apply [firstEntry] none, .buildRead 0 none,
      .installState aheadSnapshot.info aheadSnapshot.snapshot none, .installSnapshot none]
    Transition.Meets (step Bincode.ofFormats) (Advances Bincode.ofFormats) (start newReplica)
        (before ++ [.buildWrite 0 none]) ∧
      ∃ w₁ w₂, Transition.run (step Bincode.ofFormats) (start newReplica) before = some w₁ ∧
        Transition.run (step Bincode.ofFormats) w₁ [.buildWrite 0 none] = some w₂ ∧
        snapshotId Bincode.ofFormats w₁.db = some (some ⟨⟨1, 1⟩, 5⟩) ∧
        snapshotId Bincode.ofFormats w₂.db = some (some ⟨⟨1, 1⟩, 1⟩) ∧
        ¬NotBehind Bincode.ofFormats w₁.db w₂.db := by
  let := SnapshotApply.documented
  intro before
  have hstate : step Bincode.ofFormats ⟨firstReplica, none, firstBuilder⟩
      (.installState aheadSnapshot.info aheadSnapshot.snapshot none) = some _ :=
    step_installState (Codec.deserialize_serialize _ aheadState.topology)
  have h₁ := (Transition.run_of_step apply_firstEntry _).trans
    ((Transition.run_of_step buildRead_firstReplica _).trans
      ((Transition.run_of_step hstate _).trans
        (Transition.run_of_step (step_installSnapshot _) [])))
  have hwrite : step Bincode.ofFormats ⟨aheadReplica, none, firstBuilder⟩ (.buildWrite 0 none) =
      some _ := step_buildWrite (rfl : firstBuilder 0 = some firstState)
  have hshown₁ : snapshotId Bincode.ofFormats aheadReplica = some aheadState.lastApplied :=
    snapshotId_recorded aheadReplica _
  have hshown₂ := @snapshotId_recorded Bincode.ofFormats aheadReplica
    ⟨(snapshotOf Bincode.ofFormats firstState).info,
      (snapshotOf Bincode.ofFormats firstState).snapshot⟩
  exact ⟨by decide +kernel, _, _, h₁, Transition.run_of_step hwrite [], hshown₁, hshown₂,
    fun hback => absurd ((notBehind_iff hshown₁ hshown₂).mp hback) (by decide)⟩

end SnapshotRace

end SonicBrew
