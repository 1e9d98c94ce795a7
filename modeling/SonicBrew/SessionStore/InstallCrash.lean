import SonicBrew.SessionStore.StateMachine

/-!
# Installing a snapshot, and stopping on the way

`install_snapshot` replaces the `STATE` row and then records the snapshot in the `SNAPSHOT` row,
each in a transaction of its own. A transaction is atomic, but two of them are not: between the
two commits the database has the new state and the old snapshot, and a process that dies there,
or a refusal of the second transaction, leaves it so.

A stop is either a refusal, which the call reports, or the death of the process after some of the
commits (`SonicBrew.StateMachine.Stop`). What it leaves is compared with the two pairs of rows
that belong together, the old and the new one.
-/

namespace SonicBrew

namespace StateMachine

variable (bin : Bincode)

/-- The databases that are on disk one after the other during `install_snapshot`: the one it
finds, and one more with each commit. -/
def installCommits (db : Db) (info : SnapshotMeta) (payload : Bytes)
    (fault : Option StorageError) : List Db :=
  match decodeRow bin.topology "deserialize install payload" payload with
  | .error _ => [db]
  | .ok topology =>
      match writeState bin db (installedState info topology) fault with
      | .error _ => [db]
      | .ok db₁ =>
          match writeSnapshot bin db₁ ⟨info, payload⟩ fault with
          | .error _ => [db, db₁]
          | .ok db₂ => [db, db₁, db₂]

/-- The last of them is the database that the call leaves. -/
theorem getLast_installCommits (db : Db) (info : SnapshotMeta) (payload : Bytes)
    (fault : Option StorageError) :
    (installCommits bin db info payload fault).getLast? =
      some (installSnapshot bin db info payload fault).2 := by
  rw [installCommits, installSnapshot]
  cases hdec : decodeRow bin.topology "deserialize install payload" payload with
  | error e => rfl
  | ok topology =>
    cases hstate : writeState bin db (installedState info topology) fault with
    | error e =>
      have hstate' : writeState bin db ⟨topology, info.lastLogId, info.lastMembership, 0⟩ fault =
          .error e := hstate
      simp only [hstate, hstate']
      rfl
    | ok db₁ =>
      have hstate' : writeState bin db ⟨topology, info.lastLogId, info.lastMembership, 0⟩ fault =
          .ok db₁ := hstate
      simp only [hstate, hstate']
      cases writeSnapshot bin db₁ ⟨info, payload⟩ fault <;> rfl

/-- How a call ends: it returns, having met a refusal or not, or the process dies after so many
of its commits. -/
inductive Stop where
  | returns (fault : Option StorageError)
  | dies (commits : ℕ)

/-- The database that is found when the file is opened again. -/
def afterStop (db : Db) (info : SnapshotMeta) (payload : Bytes) : Stop → Db
  | .returns fault => (installSnapshot bin db info payload fault).2
  | .dies commits =>
      (((installCommits bin db info payload none).take (commits + 1)).getLast?).getD db

/-- The pair of rows that belongs to an installed snapshot. -/
def installedPair (info : SnapshotMeta) (payload : Bytes) (topology : TopologySnapshot) : Db :=
  ⟨some (bin.state.serialize (installedState info topology)),
    some (bin.snapshot.serialize ⟨info, payload⟩)⟩

/-- **All or nothing**: opened again, the database has the old pair of rows or the new one; and
after an error it has the old one. -/
def AllOrNothing (db : Db) (info : SnapshotMeta) (payload : Bytes) (stop : Stop) : Prop :=
  (∃ db', openDb bin (afterStop bin db info payload stop) none = .ok db' ∧
    (db' = db ∨ ∃ topology, bin.topology.deserialize payload = .ok topology ∧
      db' = installedPair bin info payload topology)) ∧
  ∀ fault e, stop = .returns fault → (installSnapshot bin db info payload fault).1 = .error e →
    afterStop bin db info payload stop = db

/-- The calls of the first transaction. -/
def stateCalls : List String :=
  ["serialize STATE", "begin_write STATE", "open_table STATE", "insert STATE", "commit STATE"]

/-- The calls of the second one. -/
def snapshotCalls : List String :=
  ["serialize SNAPSHOT", "begin_write SNAPSHOT", "open_table SNAPSHOT", "insert SNAPSHOT",
    "commit SNAPSHOT"]

/-- One of these calls is refused. -/
def Refuses (calls : List String) : Option StorageError → Prop
  | none => False
  | some e => e.verb = .write ∧ e.context ∈ calls

instance decidableRefuses (calls : List String) : ∀ fault, Decidable (Refuses calls fault)
  | none => inferInstanceAs (Decidable False)
  | some e => inferInstanceAs (Decidable (e.verb = .write ∧ e.context ∈ calls))

/-- The stop falls between the two commits. -/
def Between : Stop → Prop
  | .returns fault => Refuses snapshotCalls fault
  | .dies commits => commits = 1

/-! ### What the two transactions do under a refusal -/

theorem ioStep_of_not_refuses {fault : Option StorageError} {calls : List String}
    {context : String} (h : ¬Refuses calls fault) (hc : context ∈ calls) :
    ioStep fault context .write = .ok () := by
  rcases fault with _ | e
  · rfl
  · rw [ioStep, if_neg]
    rintro ⟨rfl, hverb⟩
    exact h ⟨hverb, hc⟩

/-- A write of `STATE` that is not refused. -/
theorem writeState_ok (db : Db) (state : PersistedState) {fault : Option StorageError}
    (h : ¬Refuses stateCalls fault) :
    writeState bin db state fault = .ok { db with state := some (bin.state.serialize state) } := by
  simp only [writeState, ioStep_of_not_refuses h (by decide : "serialize STATE" ∈ _),
    ioStep_of_not_refuses h (by decide : "begin_write STATE" ∈ _),
    ioStep_of_not_refuses h (by decide : "open_table STATE" ∈ _),
    ioStep_of_not_refuses h (by decide : "insert STATE" ∈ _),
    ioStep_of_not_refuses h (by decide : "commit STATE" ∈ _), ok_bind]
  rfl

theorem writeState_error (db : Db) (state : PersistedState) {fault : Option StorageError}
    (h : Refuses stateCalls fault) : ∃ e, writeState bin db state fault = .error e := by
  rcases fault with _ | ⟨context, verb, source⟩
  · exact h.elim
  · obtain ⟨rfl, hmem⟩ : verb = .write ∧ context ∈ stateCalls := h
    simp only [stateCalls, List.mem_cons, List.not_mem_nil, or_false] at hmem
    rcases hmem with rfl | rfl | rfl | rfl | rfl <;> exact ⟨_, rfl⟩

/-- A write of `SNAPSHOT` that is not refused. -/
theorem writeSnapshot_ok (db : Db) (snap : PersistedSnapshot) {fault : Option StorageError}
    (h : ¬Refuses snapshotCalls fault) :
    writeSnapshot bin db snap fault =
      .ok { db with snapshot := some (bin.snapshot.serialize snap) } := by
  simp only [writeSnapshot, ioStep_of_not_refuses h (by decide : "serialize SNAPSHOT" ∈ _),
    ioStep_of_not_refuses h (by decide : "begin_write SNAPSHOT" ∈ _),
    ioStep_of_not_refuses h (by decide : "open_table SNAPSHOT" ∈ _),
    ioStep_of_not_refuses h (by decide : "insert SNAPSHOT" ∈ _),
    ioStep_of_not_refuses h (by decide : "commit SNAPSHOT" ∈ _), ok_bind]
  rfl

theorem writeSnapshot_error (db : Db) (snap : PersistedSnapshot) {fault : Option StorageError}
    (h : Refuses snapshotCalls fault) : ∃ e, writeSnapshot bin db snap fault = .error e := by
  rcases fault with _ | ⟨context, verb, source⟩
  · exact h.elim
  · obtain ⟨rfl, hmem⟩ : verb = .write ∧ context ∈ snapshotCalls := h
    simp only [snapshotCalls, List.mem_cons, List.not_mem_nil, or_false] at hmem
    rcases hmem with rfl | rfl | rfl | rfl | rfl <;> exact ⟨_, rfl⟩

variable {bin} in
/-- A write of `STATE` that succeeds has written it, and nothing else. -/
theorem of_writeState_ok {db db' : Db} {state : PersistedState} {fault : Option StorageError}
    (h : writeState bin db state fault = .ok db') :
    db' = { db with state := some (bin.state.serialize state) } := by
  by_cases hfault : Refuses stateCalls fault
  · obtain ⟨e, he⟩ := writeState_error bin db state hfault
    cases he.symm.trans h
  · exact (Except.ok.inj ((writeState_ok bin db state hfault).symm.trans h)).symm

variable {bin} in
/-- A write of `SNAPSHOT` that succeeds was not refused, and has written nothing else. -/
theorem of_writeSnapshot_ok {db db' : Db} {snap : PersistedSnapshot}
    {fault : Option StorageError} (h : writeSnapshot bin db snap fault = .ok db') :
    ¬Refuses snapshotCalls fault ∧
      db' = { db with snapshot := some (bin.snapshot.serialize snap) } := by
  by_cases hfault : Refuses snapshotCalls fault
  · obtain ⟨e, he⟩ := writeSnapshot_error bin db snap hfault
    cases he.symm.trans h
  · exact ⟨hfault, (Except.ok.inj ((writeSnapshot_ok bin db snap hfault).symm.trans h)).symm⟩

/-- The two transactions have no call in common. -/
theorem not_refuses_stateCalls {fault : Option StorageError} (h : Refuses snapshotCalls fault) :
    ¬Refuses stateCalls fault := by
  rcases fault with _ | e
  · exact h.elim
  · rintro ⟨-, hcon⟩
    have hdisjoint : ∀ context ∈ snapshotCalls, context ∉ stateCalls := by decide
    exact hdisjoint _ h.2 hcon

/-! ### The database at every stop -/

section Stops

variable {bin} {db : Db} {info : SnapshotMeta} {payload : Bytes} {topology : TopologySnapshot}

/-- The database between the two commits: the new state beside the old snapshot. -/
def halfInstalled (bin : Bincode) (db : Db) (info : SnapshotMeta) (topology : TopologySnapshot) :
    Db :=
  { db with state := some (bin.state.serialize (installedState info topology)) }

/-- A payload that is no topology stops the call before the first transaction. -/
theorem afterStop_of_error {cause : String} (h : bin.topology.deserialize payload = .error cause)
    (stop : Stop) : afterStop bin db info payload stop = db := by
  have hdec : decodeRow bin.topology "deserialize install payload" payload =
      .error ⟨"deserialize install payload", .read, cause⟩ := by
    rw [decodeRow, h]
  cases stop with
  | returns fault => rw [afterStop, installSnapshot, hdec]
  | dies commits =>
    simp only [afterStop, installCommits, hdec, List.take_succ_cons, List.take_nil]
    rfl

/-- What the call does to a payload that is a topology, in terms of its two transactions. -/
theorem installSnapshot_of_ok (h : bin.topology.deserialize payload = .ok topology)
    (fault : Option StorageError) :
    installSnapshot bin db info payload fault =
      match writeState bin db (installedState info topology) fault with
      | .error e => (.error e, db)
      | .ok db₁ =>
          match writeSnapshot bin db₁ ⟨info, payload⟩ fault with
          | .error e => (.error e, db₁)
          | .ok db₂ => (.ok (), db₂) := by
  rw [installSnapshot, decodeRow, h]
  rfl

theorem installSnapshot_stateCalls (h : bin.topology.deserialize payload = .ok topology)
    {fault : Option StorageError} (hstate : Refuses stateCalls fault) :
    (installSnapshot bin db info payload fault).2 = db := by
  obtain ⟨e, he⟩ := writeState_error bin db (installedState info topology) hstate
  rw [installSnapshot_of_ok h, he]

theorem installSnapshot_snapshotCalls (h : bin.topology.deserialize payload = .ok topology)
    {fault : Option StorageError} (hsnap : Refuses snapshotCalls fault) :
    ∃ e, installSnapshot bin db info payload fault =
      (.error e, halfInstalled bin db info topology) := by
  have hstate : writeState bin db (installedState info topology) fault =
      .ok (halfInstalled bin db info topology) :=
    writeState_ok bin db _ (not_refuses_stateCalls hsnap)
  obtain ⟨e, he⟩ :=
    writeSnapshot_error bin (halfInstalled bin db info topology) ⟨info, payload⟩ hsnap
  refine ⟨e, ?_⟩
  rw [installSnapshot_of_ok h, hstate]
  simp only [he]

/-- With neither transaction refused the new pair is in place. -/
theorem installSnapshot_done (h : bin.topology.deserialize payload = .ok topology)
    {fault : Option StorageError} (hstate : ¬Refuses stateCalls fault)
    (hsnap : ¬Refuses snapshotCalls fault) :
    installSnapshot bin db info payload fault =
      (.ok (), installedPair bin info payload topology) := by
  rw [installSnapshot_of_ok h, writeState_ok bin db _ hstate]
  simp only [writeSnapshot_ok bin _ _ hsnap]
  rfl

/-- The three databases of an undisturbed call. -/
theorem installCommits_none (h : bin.topology.deserialize payload = .ok topology) :
    installCommits bin db info payload none =
      [db, halfInstalled bin db info topology, installedPair bin info payload topology] := by
  rw [installCommits, decodeRow, h]
  rfl

/-- **A stop between the two commits** leaves the new state beside the old snapshot. -/
theorem afterStop_between (h : bin.topology.deserialize payload = .ok topology) {stop : Stop}
    (hstop : Between stop) :
    afterStop bin db info payload stop = halfInstalled bin db info topology := by
  rcases stop with fault | commits
  · obtain ⟨e, he⟩ := installSnapshot_snapshotCalls h hstop
    rw [afterStop, he]
  · obtain rfl : commits = 1 := hstop
    rw [afterStop, installCommits_none h]
    rfl

/-- **Any other stop** leaves the old pair or the new one, and an error the old one. -/
theorem afterStop_of_not_between (h : bin.topology.deserialize payload = .ok topology)
    {stop : Stop} (hstop : ¬Between stop) :
    (afterStop bin db info payload stop = db ∨
      afterStop bin db info payload stop = installedPair bin info payload topology) ∧
    ∀ fault e, stop = .returns fault → (installSnapshot bin db info payload fault).1 = .error e →
      afterStop bin db info payload stop = db := by
  rcases stop with fault | commits
  · by_cases hstate : Refuses stateCalls fault
    · have hdb : afterStop bin db info payload (.returns fault) = db :=
        installSnapshot_stateCalls h hstate
      exact ⟨.inl hdb, fun _ _ _ _ => hdb⟩
    · have hdone : installSnapshot bin db info payload fault =
          (.ok (), installedPair bin info payload topology) :=
        installSnapshot_done h hstate hstop
      refine ⟨.inr (by rw [afterStop, hdone]), ?_⟩
      rintro _ e ⟨⟩ herr
      rw [hdone] at herr
      cases herr
  · refine ⟨?_, fun _ _ hcon => by cases hcon⟩
    rcases commits with _ | _ | commits
    · left
      rw [afterStop, installCommits_none h]
      rfl
    · exact absurd rfl hstop
    · right
      -- all commits are made: what is on disk is what the call leaves
      have hall : (installCommits bin db info payload none).take (commits + 2 + 1) =
          installCommits bin db info payload none := by
        rw [installCommits_none h]
        simp only [List.take_succ_cons, List.take_nil]
      rw [afterStop, hall, getLast_installCommits,
        installSnapshot_done h (by decide : ¬Refuses _ none) (by decide : ¬Refuses _ none)]
      rfl

end Stops

/-! ### When an install is atomic -/

/-- A database with a state is opened as it is. -/
theorem openDb_of_state {db : Db} {row : Bytes} (h : db.state = some row) :
    openDb bin db none = .ok db := by
  simp only [openDb, ioStep_none, ok_bind, h]
  rfl

theorem halfInstalled_eq_old {db : Db} {info : SnapshotMeta} {topology : TopologySnapshot} :
    halfInstalled bin db info topology = db ↔
      db.state = some (bin.state.serialize (installedState info topology)) := by
  constructor
  · intro h
    exact (congrArg Db.state h).symm
  · intro h
    rw [halfInstalled, ← h]

theorem halfInstalled_eq_new {db : Db} {info : SnapshotMeta} {payload : Bytes}
    {topology : TopologySnapshot} :
    halfInstalled bin db info topology = installedPair bin info payload topology ↔
      db.snapshot = some (bin.snapshot.serialize ⟨info, payload⟩) := by
  constructor
  · intro h
    exact congrArg Db.snapshot h
  · intro h
    rw [halfInstalled, h, installedPair]

/-- **When an install is all or nothing.** For every database with a state, every snapshot and
every stop: exactly when the stop does not fall between the two commits of an install that gets
that far, unless the half that was written changes nothing – the state was the snapshot's
already – or, when no error was reported, the other half was in place. -/
theorem install_all_or_nothing_iff {db : Db} {row : Bytes} (h : db.state = some row)
    (info : SnapshotMeta) (payload : Bytes) (stop : Stop) :
    AllOrNothing bin db info payload stop ↔
      (Between stop → ∀ topology, bin.topology.deserialize payload = .ok topology →
        db.state = some (bin.state.serialize (installedState info topology)) ∨
          (stop = .dies 1 ∧ db.snapshot = some (bin.snapshot.serialize ⟨info, payload⟩))) := by
  rcases hdec : bin.topology.deserialize payload with cause | topology
  · have hdb : afterStop bin db info payload stop = db := afterStop_of_error hdec stop
    refine ⟨fun _ _ _ hcon => (by cases hcon), fun _ => ⟨⟨db, ?_, .inl rfl⟩, fun _ _ _ _ => hdb⟩⟩
    rw [hdb, openDb_of_state bin h]
  by_cases hstop : Between stop
  · have hhalf : afterStop bin db info payload stop = halfInstalled bin db info topology :=
      afterStop_between hdec hstop
    have hopen : openDb bin (halfInstalled bin db info topology) none = .ok _ :=
      openDb_of_state bin rfl
    constructor
    · rintro ⟨⟨db', hdb', hpair⟩, herr⟩ - _ ⟨⟩
      rcases stop with fault | commits
      · left
        rw [← halfInstalled_eq_old, ← hhalf]
        obtain ⟨e, he⟩ := installSnapshot_snapshotCalls hdec hstop
        exact herr fault e rfl (by rw [he])
      · obtain rfl : commits = 1 := hstop
        rw [hhalf, hopen] at hdb'
        cases hdb'
        rcases hpair with hold | ⟨topology', htopology, hnew⟩
        · exact .inl ((halfInstalled_eq_old bin).mp hold)
        · rw [hdec] at htopology
          cases htopology
          exact .inr ⟨rfl, (halfInstalled_eq_new bin).mp hnew⟩
    · intro hrows
      rcases hrows hstop topology rfl with hstate | ⟨rfl, hsnap⟩
      · rw [← halfInstalled_eq_old] at hstate
        exact ⟨⟨_, by rw [hhalf, hopen], .inl hstate⟩, fun _ _ _ _ => hhalf.trans hstate⟩
      · have hnew : halfInstalled bin db info topology = installedPair bin info payload topology :=
          (halfInstalled_eq_new bin).mpr hsnap
        exact ⟨⟨_, by rw [hhalf, hopen], .inr ⟨topology, hdec, hnew⟩⟩,
          fun _ _ hcon => by cases hcon⟩
  · obtain ⟨hpair, herr⟩ := @afterStop_of_not_between bin db info _ _ hdec _ hstop
    refine ⟨fun _ hcon => absurd hcon hstop, fun _ => ⟨?_, herr⟩⟩
    rcases hpair with hold | hnew
    · exact ⟨db, by rw [hold, openDb_of_state bin h], .inl rfl⟩
    · exact ⟨_, by rw [hnew]; exact openDb_of_state bin rfl, .inr ⟨topology, hdec, rfl⟩⟩

/-- The state of a replica that is five entries ahead. -/
def aheadState : PersistedState :=
  ⟨⟨[⟨7, [], []⟩], []⟩, some ⟨⟨1, 1⟩, 5⟩, StoredMembership.default, 3⟩

/-- Dying after the first commit, and after the second one. -/
theorem install_all_or_nothing_iff_dies :
    let snap := snapshotOf Bincode.ofFormats aheadState
    ¬AllOrNothing Bincode.ofFormats newReplica snap.info snap.snapshot (.dies 1) ∧
      AllOrNothing Bincode.ofFormats newReplica snap.info snap.snapshot (.dies 2) := by
  refine ⟨fun h => ?_, (install_all_or_nothing_iff _ rfl _ _ _).mpr fun hcon => ?_⟩
  · rcases (install_all_or_nothing_iff _ rfl _ _ _).mp h rfl aheadState.topology
      (Codec.deserialize_serialize _ _) with hstate | ⟨-, hsnap⟩
    · have hrow := Codec.serialize_injective _ (Option.some.inj hstate)
      exact absurd (congrArg PersistedState.topology hrow) (by decide)
    · cases hsnap
  · exact absurd hcon (by decide : ¬(2 = 1))

/-- **An install that was torn.** A new replica installs the snapshot of one that is five entries
ahead. It dies between the two commits: reopened it has the new state and no snapshot. The disk
fills up at the second commit: the call reports the error, and the state has been replaced. -/
theorem install_torn :
    let snap := snapshotOf Bincode.ofFormats aheadState
    let full : StorageError := ⟨"commit SNAPSHOT", .write, "disk full"⟩
    let torn := afterStop Bincode.ofFormats newReplica snap.info snap.snapshot (.dies 1)
    (openDb Bincode.ofFormats torn none = .ok torn ∧
      readState Bincode.ofFormats torn none = .ok { aheadState with nextMutationId := 0 } ∧
      readSnapshot Bincode.ofFormats torn none = .ok none) ∧
    installSnapshot Bincode.ofFormats newReplica snap.info snap.snapshot (some full) =
      (.error full, torn) ∧
    ¬AllOrNothing Bincode.ofFormats newReplica snap.info snap.snapshot (.dies 1) ∧
    ¬AllOrNothing Bincode.ofFormats newReplica snap.info snap.snapshot (.returns (some full)) := by
  intro snap full torn
  have hdec : Bincode.ofFormats.topology.deserialize snap.snapshot = .ok aheadState.topology :=
    Codec.deserialize_serialize _ _
  have htorn : torn = halfInstalled Bincode.ofFormats newReplica snap.info aheadState.topology :=
    afterStop_between hdec rfl
  have hnew : readState Bincode.ofFormats torn none =
      .ok { aheadState with nextMutationId := 0 } := by
    rw [htorn]
    exact Holds.readState_eq rfl
  have hchanged : torn ≠ newReplica := by
    intro hcon
    rw [hcon, Holds.readState_eq (rfl : Holds _ newReplica PersistedState.default)] at hnew
    exact absurd (congrArg PersistedState.topology (Except.ok.inj hnew)) (by decide)
  have hopen : openDb Bincode.ofFormats torn none = .ok torn := by
    rw [htorn]
    exact openDb_of_state _ rfl
  have hfull : installSnapshot Bincode.ofFormats newReplica snap.info snap.snapshot (some full) =
      (.error full, torn) := by
    rw [htorn, installSnapshot_of_ok hdec]
    rfl
  refine ⟨⟨hopen, hnew, by rw [htorn]; rfl⟩, hfull, ?_, ?_⟩
  · rintro ⟨⟨db', hdb', hpair⟩, -⟩
    obtain rfl : torn = db' := Except.ok.inj (hopen.symm.trans hdb')
    rcases hpair with hold | ⟨topology, -, hpair⟩
    · exact hchanged hold
    · rw [htorn] at hpair
      exact absurd (congrArg Db.snapshot hpair) (by rintro ⟨⟩)
  · rintro ⟨-, herr⟩
    have hold := herr _ full rfl (by rw [hfull])
    rw [afterStop, hfull] at hold
    exact hchanged hold

end StateMachine

end SonicBrew
