import SonicBrew.Lib.Text
import SonicBrew.SessionStore.SnapshotRace

/-!
# The names of snapshots

`build_snapshot` names a snapshot after the index of the last entry that was applied and the length
of the encoded topology. On one replica the index alone would do: the committed log is applied in
order, so that between two states with the same last entry nothing has happened
(`SonicBrew.SnapshotIds.Traced`). But before the first entry there is no index, and
`build_snapshot` takes zero for it – which is where the log begins, with the entry that sets up the
cluster. A snapshot from before that entry and one from right after it have the same name if the
topology is empty in both, and differ in their log id and, if the entry is a membership, in that as
well. All other snapshots are told apart by their names (`SonicBrew.SnapshotIds.distinguished_iff`).
-/

namespace SonicBrew

namespace SnapshotIds

open StateMachine SnapshotRace

/-! ### What a run builds -/

/-- The empty topology is the only one that is encoded in so few bytes. -/
def EmptyShortest (codec : Codec TopologySnapshot) : Prop :=
  ∀ t, (codec.serialize t).length = (codec.serialize .new).length → t = .new

/-- How far a state has come in the log: zero if nothing was applied. -/
def applied (state : PersistedState) : ℕ := state.lastApplied.elim 0 fun id => id.index.toNat + 1

/-- **Snapshots with one name are one snapshot.** -/
def Distinguished (snaps : List Snapshot) : Prop :=
  ∀ s ∈ snaps, ∀ t ∈ snaps, s.info.snapshotId = t.info.snapshotId →
    s.info.lastLogId = t.info.lastLogId ∧ s.info.lastMembership = t.info.lastMembership ∧
      s.snapshot = t.snapshot

/-- One of the states is from before the log, and one from after an entry at index zero that has
left the topology empty. -/
def Ambiguous (states : List PersistedState) : Prop :=
  ∃ s ∈ states, ∃ t ∈ states, s.lastApplied = none ∧
    (∃ id, t.lastApplied = some id ∧ id.index = 0) ∧ t.topology = .new

section Runs

variable (bin : Bincode)

/-- **A committed log is applied**: what comes to the state machine is what comes next in the log,
and no snapshot is installed over it. -/
def Committed (w : World) : Action → Prop
  | .apply entries _ => ∀ id ∈ appliedId bin w.db, ∀ e ∈ entries, id.index.toNat < e.index
  | .installState _ _ _ => False
  | _ => True

/-- The state of which a builder returns a snapshot in a step. -/
def builtFrom (w : World) : Action → List PersistedState
  | .buildWrite b fault =>
      match w.builders b with
      | none => []
      | some state =>
          match ioStep fault "serialize topology" .write with
          | .error _ => []
          | .ok _ =>
              let snap := snapshotOf bin state
              match writeSnapshot bin w.db ⟨snap.info, snap.snapshot⟩ fault with
              | .error _ => []
              | .ok _ => [state]
  | _ => []

/-- A state that a snapshot was built of, that a builder has in hand, or that is in the database. -/
def Known (w : World) (seen : List PersistedState) (s : PersistedState) : Prop :=
  s ∈ seen ∨ (∃ b, w.builders b = some s) ∨ Holds bin w.db s

/-- **What is true of the states so far**: the one in the database has come furthest, how far a
state has come says which state it is, and before the log there is but one. -/
structure Traced (w : World) (seen : List PersistedState) : Prop where
  idle : w.installing = none
  current : ∃ state, Holds bin w.db state ∧ ∀ s, Known bin w seen s → applied s ≤ applied state
  injective : ∀ s t, Known bin w seen s → Known bin w seen t → applied s = applied t → s = t
  initial : ∀ s, Known bin w seen s → s.lastApplied = none → s = .default

end Runs

variable {bin : Bincode} {w w' : World} {seen : List PersistedState}

/-! ### One step -/

theorem holds_inj {db : Db} {s t : PersistedState} (hs : Holds bin db s) (ht : Holds bin db t) :
    s = t := bin.state.serialize_injective (Option.some.inj (hs.symm.trans ht))

theorem traced_start {db : Db} (h : Holds bin db .default) : Traced bin (start db) [] := by
  have hknown : ∀ s, Known bin (start db) [] s → s = .default := by
    rintro s (hs | ⟨b, hb⟩ | hs)
    · exact absurd hs List.not_mem_nil
    · cases hb
    · exact holds_inj hs h
  refine ⟨rfl, ⟨.default, h, fun s hs => (hknown s hs ▸ le_rfl)⟩, fun s t hs ht _ => ?_,
    fun s hs _ => hknown s hs⟩
  rw [hknown s hs, hknown t ht]

/-- A step that makes no new state. -/
theorem Traced.of_known {seen' : List PersistedState} (h : Traced bin w seen)
    (hidle : w'.installing = none) (hstate : w'.db.state = w.db.state)
    (hknown : ∀ s, Known bin w' seen' s → Known bin w seen s) : Traced bin w' seen' := by
  obtain ⟨state, hholds, hle⟩ := h.current
  refine ⟨hidle, ⟨state, hstate.trans hholds, fun s hs => hle s (hknown s hs)⟩, ?_, ?_⟩
  · exact fun s t hs ht heq => h.injective s t (hknown s hs) (hknown t ht) heq
  · exact fun s hs hnone => h.initial s (hknown s hs) hnone

/-- The last entry of a batch that is applied in order has come further. -/
theorem applied_lt_applyEntries [SnapshotApply] {state : PersistedState} {entries : List Entry}
    (hne : entries ≠ []) (h : ∀ id ∈ state.lastApplied, ∀ e ∈ entries, id.index.toNat < e.index) :
    applied state < applied (applyEntries state entries).1 := by
  have hlast : (applyEntries state entries).1.lastApplied = some (entries.getLast hne).logId := by
    rw [applyEntries_state, List.getLast?_eq_some_getLast hne]
    rfl
  rw [applied, applied, hlast, Option.elim_some]
  cases hstate : state.lastApplied with
  | none => exact Nat.succ_pos _
  | some id => exact Nat.succ_lt_succ (h id hstate _ (List.getLast_mem hne))

/-- A new state, which has come further than all before it. -/
theorem Traced.extend {state next : PersistedState} (h : Traced bin w seen)
    (hholds : Holds bin w.db state) (hlt : applied state < applied next) :
    Traced bin { w with db := { w.db with state := some (bin.state.serialize next) } } seen := by
  have hle : ∀ s, Known bin w seen s → applied s ≤ applied state := by
    obtain ⟨current, hcurrent, hle⟩ := h.current
    obtain rfl := holds_inj hholds hcurrent
    exact hle
  have hknown : ∀ s, Known bin { w with db := { w.db with
      state := some (bin.state.serialize next) } } seen s →
        s = next ∨ Known bin w seen s ∧ applied s ≤ applied state := by
    rintro s (hs | hs | hs)
    · exact Or.inr ⟨Or.inl hs, hle s (Or.inl hs)⟩
    · exact Or.inr ⟨Or.inr (Or.inl hs), hle s (Or.inr (Or.inl hs))⟩
    · exact Or.inl (holds_inj hs rfl)
  refine ⟨h.idle, ⟨next, rfl, fun s hs => ?_⟩, fun s t hs ht heq => ?_, fun s hs hnone => ?_⟩
  · rcases hknown s hs with rfl | ⟨-, hs⟩
    · exact le_rfl
    · exact hs.trans hlt.le
  · rcases hknown s hs with rfl | ⟨hs, hsle⟩ <;> rcases hknown t ht with rfl | ⟨ht, htle⟩
    · rfl
    · omega
    · omega
    · exact h.injective s t hs ht heq
  · rcases hknown s hs with rfl | ⟨hs, -⟩
    · have hzero : applied s = 0 := by rw [applied, hnone, Option.elim_none]
      omega
    · exact h.initial s hs hnone

theorem Traced.apply [SnapshotApply] {entries : List Entry} {fault : Option StorageError}
    (h : Traced bin w seen) (hcommitted : Committed bin w (.apply entries fault))
    (hstep : step bin w (.apply entries fault) = some w') : Traced bin w' seen := by
  obtain ⟨-, rfl | ⟨read, hread, rfl⟩⟩ := step_apply_cases hstep
  · exact h
  obtain ⟨state, hholds, -⟩ := h.current
  obtain rfl : state = read := Except.ok.inj (hholds.readState_eq.symm.trans hread)
  by_cases hne : entries = []
  · -- nothing is applied, and the row is written again
    subst hne
    refine h.of_known h.idle hholds.symm fun s hs => ?_
    exact hs.imp_right (Or.imp_right hholds.trans)
  · refine h.extend hholds (applied_lt_applyEntries hne fun id hid => hcommitted id ?_)
    rw [appliedId_of_holds hholds]
    exact hid

theorem builders_setBuilder (w : World) (b : ℕ) (state : Option PersistedState) :
    (w.setBuilder b state).builders = Function.update w.builders b state := rfl

theorem Traced.buildRead [SnapshotApply] {b : ℕ} {fault : Option StorageError}
    (h : Traced bin w seen) (hstep : step bin w (.buildRead b fault) = some w') :
    Traced bin w' seen := by
  obtain rfl | ⟨read, hread, rfl⟩ := step_buildRead_cases hstep
  · exact h
  obtain ⟨state, hholds, -⟩ := h.current
  obtain rfl : state = read := Except.ok.inj (hholds.readState_eq.symm.trans hread)
  refine h.of_known h.idle rfl ?_
  rintro s (hs | ⟨c, hc⟩ | hs)
  · exact Or.inl hs
  · by_cases hcb : c = b
    · rw [hcb, builders_setBuilder, Function.update_self] at hc
      obtain rfl := Option.some.inj hc
      exact Or.inr (Or.inr hholds)
    · rw [builders_setBuilder, Function.update_of_ne hcb] at hc
      exact Or.inr (Or.inl ⟨c, hc⟩)
  · exact Or.inr (Or.inr hs)

/-- A builder is done, and the state it had in hand may have become a snapshot. -/
theorem Traced.finish {b : ℕ} {state : PersistedState} {db : Db} {built : List PersistedState}
    (h : Traced bin w seen) (hb : w.builders b = some state) (hstate : db.state = w.db.state)
    (hbuilt : built = [] ∨ built = [state]) :
    Traced bin { w.setBuilder b none with db } (seen ++ built) := by
  refine h.of_known h.idle hstate ?_
  rintro s (hs | ⟨c, hc⟩ | hs)
  · rcases List.mem_append.mp hs with hs | hs
    · exact Or.inl hs
    · rcases hbuilt with rfl | rfl
      · exact absurd hs List.not_mem_nil
      · rw [List.mem_singleton.mp hs]
        exact Or.inr (Or.inl ⟨b, hb⟩)
  · by_cases hcb : c = b
    · rw [hcb, builders_setBuilder, Function.update_self] at hc
      cases hc
    · rw [builders_setBuilder, Function.update_of_ne hcb] at hc
      exact Or.inr (Or.inl ⟨c, hc⟩)
  · exact Or.inr (Or.inr (hstate.symm.trans hs))

theorem builtFrom_buildWrite {b : ℕ} {state : PersistedState} (hb : w.builders b = some state)
    (fault : Option StorageError) :
    builtFrom bin w (.buildWrite b fault) = [] ∨
      builtFrom bin w (.buildWrite b fault) = [state] := by
  simp only [builtFrom, hb]
  split
  · exact Or.inl rfl
  · split
    · exact Or.inl rfl
    · exact Or.inr rfl

theorem Traced.buildWrite [SnapshotApply] {b : ℕ} {fault : Option StorageError}
    (h : Traced bin w seen) (hstep : step bin w (.buildWrite b fault) = some w') :
    Traced bin w' (seen ++ builtFrom bin w (.buildWrite b fault)) := by
  obtain ⟨state, hb, rfl | ⟨-, rfl⟩⟩ := step_buildWrite_cases hstep
  · exact h.finish hb rfl (builtFrom_buildWrite hb fault)
  · exact h.finish hb rfl (builtFrom_buildWrite hb fault)

theorem Traced.step [SnapshotApply] {a : Action} (h : Traced bin w seen)
    (hcommitted : Committed bin w a) (hstep : SnapshotRace.step bin w a = some w') :
    Traced bin w' (seen ++ builtFrom bin w a) := by
  cases a with
  | apply entries fault =>
    have hseen : seen ++ builtFrom bin w (.apply entries fault) = seen := List.append_nil seen
    rw [hseen]
    exact h.apply hcommitted hstep
  | installState info payload fault => exact hcommitted.elim
  | installSnapshot fault =>
    obtain ⟨snap, hinst, -⟩ := step_installSnapshot_cases hstep
    cases h.idle.symm.trans hinst
  | buildRead b fault =>
    have hseen : seen ++ builtFrom bin w (.buildRead b fault) = seen := List.append_nil seen
    rw [hseen]
    exact h.buildRead hstep
  | buildWrite b fault => exact h.buildWrite hstep

/-! ### Names -/

/-- The index and the length can be read off the name. -/
theorem snapshotId_inj {s t : PersistedState}
    (h : (snapshotOf bin s).info.snapshotId = (snapshotOf bin t).info.snapshotId) :
    (s.lastApplied.map LogId.index).getD 0 = (t.lastApplied.map LogId.index).getD 0 ∧
      (snapshotOf bin s).snapshot.length = (snapshotOf bin t).snapshot.length := by
  have hname : ∀ state, (snapshotOf bin state).info.snapshotId.toList =
      Nat.toDigits 10 ((state.lastApplied.map LogId.index).getD 0).toNat ++
        '-' :: Nat.toDigits 10 (snapshotOf bin state).snapshot.length := by
    intro state
    simp only [snapshotOf, String.toList_append, toString, Nat.toList_repr, List.append_assoc]
    rfl
  have hlist := (hname s).symm.trans ((congrArg String.toList h).trans (hname t))
  obtain ⟨hindex, hlen⟩ := Text.toDigits_pair_inj (by decide) hlist
  exact ⟨UInt64.toNat_inj.mp hindex, hlen⟩

/-- Two states with one index have come equally far, unless one of them is from before the log. -/
theorem applied_eq_or_of_index {s t : PersistedState}
    (h : (s.lastApplied.map LogId.index).getD 0 = (t.lastApplied.map LogId.index).getD 0) :
    applied s = applied t ∨
      s.lastApplied = none ∧ (∃ id, t.lastApplied = some id ∧ id.index = 0) ∨
      t.lastApplied = none ∧ (∃ id, s.lastApplied = some id ∧ id.index = 0) := by
  rw [applied, applied]
  cases hs : s.lastApplied with
  | none =>
    cases ht : t.lastApplied with
    | none => exact Or.inl rfl
    | some id =>
      rw [hs, ht] at h
      exact Or.inr (Or.inl ⟨rfl, id, rfl, h.symm⟩)
  | some id =>
    cases ht : t.lastApplied with
    | none =>
      rw [hs, ht] at h
      exact Or.inr (Or.inr ⟨rfl, id, rfl, h⟩)
    | some id' =>
      rw [hs, ht] at h
      exact Or.inl (congrArg (fun i => i.toNat + 1) h)

/-- **Names tell the snapshots of a run apart** exactly if it has not made one of nothing and one of
the entry at index zero with an empty topology. The replica starts with nothing applied. -/
theorem distinguished_iff [SnapshotApply] (hempty : EmptyShortest bin.topology) {db : Db}
    (hdb : Holds bin db .default) {actions : List Action}
    (hcommitted : Transition.Meets (step bin) (Committed bin) (start db) actions)
    (hrun : Transition.run (step bin) (start db) actions = some w) :
    Distinguished ((Transition.observed (step bin) (builtFrom bin) (start db) actions).map
        (snapshotOf bin)) ↔
      ¬Ambiguous (Transition.observed (step bin) (builtFrom bin) (start db) actions) := by
  have htraced := Transition.invariant_observed (fun _ _ _ _ h hc hstep => Traced.step h hc hstep)
    (traced_start hdb) hcommitted hrun
  rw [List.nil_append] at htraced
  generalize Transition.observed (step bin) (builtFrom bin) (start db) actions = states at htraced ⊢
  have hnew : ∀ s ∈ states, s.lastApplied = none → s.topology = .new := by
    intro s hs hnone
    rw [htraced.initial s (Or.inl hs) hnone]
    rfl
  refine ⟨?_, ?_⟩
  · rintro hdist ⟨s, hs, t, ht, hnone, ⟨id, hid, hzero⟩, htopology⟩
    have hname : (snapshotOf bin s).info.snapshotId = (snapshotOf bin t).info.snapshotId := by
      simp only [snapshotOf, hnew s hs hnone, htopology, hnone, hid, Option.map_none,
        Option.map_some, Option.getD_none, Option.getD_some, hzero]
    have hlast := (hdist _ (List.mem_map_of_mem hs) _ (List.mem_map_of_mem ht) hname).1
    cases hnone.symm.trans (hlast.trans hid)
  · intro hamb s' hs' t' ht' hname
    obtain ⟨s, hs, rfl⟩ := List.mem_map.mp hs'
    obtain ⟨t, ht, rfl⟩ := List.mem_map.mp ht'
    obtain ⟨hindex, hlen⟩ := snapshotId_inj hname
    rcases applied_eq_or_of_index hindex with heq | ⟨hnone, hzero⟩ | ⟨hnone, hzero⟩
    · rw [htraced.injective s t (Or.inl hs) (Or.inl ht) heq]
      exact ⟨rfl, rfl, rfl⟩
    · have htopology : t.topology = .new := hempty _ (by rw [← hnew s hs hnone]; exact hlen.symm)
      exact absurd ⟨s, hs, t, ht, hnone, hzero, htopology⟩ hamb
    · have htopology : s.topology = .new := hempty _ (by rw [← hnew t ht hnone]; exact hlen)
      exact absurd ⟨t, ht, s, hs, hnone, hzero, htopology⟩ hamb

/-! ### The first entry of a cluster -/

theorem emptyShortest_ofFormats : EmptyShortest Bincode.ofFormats.topology := by
  intro t h
  have hlen : ((Format.list NodeSnapshot.format).put t.nodes).length +
      ((Format.list SnapshotEdge.format).put t.edges).length = 2 := by
    have hnew : (Bincode.ofFormats.topology.serialize .new).length = 1 + 1 :=
      List.length_append.trans (congrArg₂ (· + ·) (Format.length_put_list_nil NodeSnapshot.format)
        (Format.length_put_list_nil SnapshotEdge.format))
    exact List.length_append.symm.trans (h.trans hnew)
  have hnodes := Format.one_le_length_put_list NodeSnapshot.format t.nodes
  have hedges := Format.one_le_length_put_list SnapshotEdge.format t.edges
  have hnode : ∀ n, NodeSnapshot.format.put n ≠ [] := fun n hn =>
    Format.putNat_ne_nil n.id (List.append_eq_nil_iff.mp (List.append_eq_nil_iff.mp hn).1).1
  have hedge : ∀ e, SnapshotEdge.format.put e ≠ [] := fun e he =>
    Format.putNat_ne_nil e.src.1 (List.append_eq_nil_iff.mp (List.append_eq_nil_iff.mp he).1).1
  have hnil : t.nodes = [] := Format.eq_nil_of_length_put_list hnode (by omega)
  have hnil' : t.edges = [] := Format.eq_nil_of_length_put_list hedge (by omega)
  calc t = ⟨t.nodes, t.edges⟩ := rfl
    _ = .new := by rw [hnil, hnil']; rfl

/-- One build, from a state in which no builder is at work. -/
theorem build_once [SnapshotApply] {db : Db} {state : PersistedState} (h : Holds bin db state)
    (rest : List Action) :
    let build := Action.buildRead 0 none :: .buildWrite 0 none :: rest
    ∃ db', Holds bin db' state ∧
      (Transition.Meets (step bin) (Committed bin) (start db') rest →
        Transition.Meets (step bin) (Committed bin) (start db) build) ∧
      Transition.run (step bin) (start db) build = Transition.run (step bin) (start db') rest ∧
      Transition.observed (step bin) (builtFrom bin) (start db) build =
        state :: Transition.observed (step bin) (builtFrom bin) (start db') rest := by
  intro build
  let builders : ℕ → Option PersistedState := Function.update (fun _ => none) 0 (some state)
  have hidle : Function.update builders 0 none = fun _ => none :=
    (Function.update_idem ..).trans (Function.update_eq_self 0 _)
  have hread : step bin (start db) (.buildRead 0 none) = some ⟨db, none, builders⟩ :=
    step_buildRead h rfl
  let built : Db :=
    { db with snapshot := some (bin.snapshot.serialize
        ⟨(snapshotOf bin state).info, (snapshotOf bin state).snapshot⟩) }
  have hwrite : step bin ⟨db, none, builders⟩ (.buildWrite 0 none) = some (start built) := by
    rw [step_buildWrite (rfl : builders 0 = some state), hidle]
    rfl
  refine ⟨built, h, fun hrest => ?_, ?_, ?_⟩
  · exact Transition.meets_cons trivial hread (Transition.meets_cons trivial hwrite hrest)
  · exact (Transition.run_of_step hread _).trans (Transition.run_of_step hwrite _)
  · exact (Transition.observed_of_step hread _).trans (Transition.observed_of_step hwrite _)

/-- A snapshot is built before and after a batch is applied. -/
def around (entries : List Entry) : List Action :=
  [.buildRead 0 none, .buildWrite 0 none, .apply entries none, .buildRead 0 none,
    .buildWrite 0 none]

theorem run_around [SnapshotApply] {db : Db} (h : Holds bin db .default) (entries : List Entry) :
    Transition.Meets (step bin) (Committed bin) (start db) (around entries) ∧
      (∃ w, Transition.run (step bin) (start db) (around entries) = some w) ∧
      Transition.observed (step bin) (builtFrom bin) (start db) (around entries) =
        [.default, (applyEntries .default entries).1] := by
  obtain ⟨db₁, h₁, hmeets₁, hrun₁, hobs₁⟩ :=
    build_once h [.apply entries none, .buildRead 0 none, .buildWrite 0 none]
  let next : Db := { db₁ with
    state := some (bin.state.serialize (applyEntries .default entries).1) }
  have happly : step bin (start db₁) (.apply entries none) = some (start next) :=
    step_apply h₁ entries
  obtain ⟨db₂, -, hmeets₂, hrun₂, hobs₂⟩ :=
    build_once (rfl : Holds bin next (applyEntries .default entries).1) []
  refine ⟨hmeets₁ (Transition.meets_cons ?_ happly (hmeets₂ trivial)), ⟨start db₂, ?_⟩, ?_⟩
  · intro id hid
    cases (appliedId_of_holds h₁).symm.trans hid
  · exact hrun₁.trans ((Transition.run_of_step happly _).trans hrun₂)
  · refine hobs₁.trans (congrArg _ ((Transition.observed_of_step happly _).trans ?_))
    exact hobs₂

/-- A snapshot from before the log and one of index 1. -/
theorem distinguished_iff_firstEntry :
    letI := SnapshotApply.documented
    Distinguished ((Transition.observed (step Bincode.ofFormats) (builtFrom Bincode.ofFormats)
      (start newReplica) (around [firstEntry])).map (snapshotOf Bincode.ofFormats)) := by
  let := SnapshotApply.documented
  have hdb : Holds Bincode.ofFormats newReplica .default := rfl
  obtain ⟨hmeets, ⟨w, hrun⟩, hobs⟩ := run_around hdb [firstEntry]
  refine (distinguished_iff emptyShortest_ofFormats hdb hmeets hrun).mpr ?_
  rw [hobs]
  rintro ⟨s, -, t, ht, -, ⟨id, hid, hzero⟩, -⟩
  rcases List.mem_pair.mp ht with rfl | rfl
  · cases hid
  · obtain rfl : firstEntry.logId = id := Option.some.inj hid
    exact absurd hzero (by decide)

/-- The entry that sets up a cluster of one node: the log begins with it. -/
def clusterEntry : Entry := ⟨⟨⟨0, 0⟩, 0⟩, .membership ⟨[[1]], []⟩⟩

/-- **Two snapshots, one name.** A replica builds a snapshot before its cluster is set up and
another one after. Both are called by index `0` and the length of the encoded empty topology. The
first is of nothing; the second has a log id and a membership. -/
theorem snapshotId_clusterEntry :
    letI := SnapshotApply.documented
    ∃ w s t,
      Transition.Meets (step Bincode.ofFormats) (Committed Bincode.ofFormats) (start newReplica)
        (around [clusterEntry]) ∧
      Transition.run (step Bincode.ofFormats) (start newReplica) (around [clusterEntry]) = some w ∧
      (Transition.observed (step Bincode.ofFormats) (builtFrom Bincode.ofFormats)
        (start newReplica) (around [clusterEntry])).map (snapshotOf Bincode.ofFormats) = [s, t] ∧
      s.info.snapshotId = t.info.snapshotId ∧
      s.info.lastLogId = none ∧ t.info.lastLogId = some ⟨⟨0, 0⟩, 0⟩ ∧
      s.info.lastMembership ≠ t.info.lastMembership := by
  let := SnapshotApply.documented
  obtain ⟨hmeets, ⟨w, hrun⟩, hobs⟩ :=
    run_around (rfl : Holds Bincode.ofFormats newReplica .default) [clusterEntry]
  exact ⟨w, _, _, hmeets, hrun, congrArg (List.map (snapshotOf Bincode.ofFormats)) hobs, rfl, rfl,
    rfl, by decide⟩

end SnapshotIds

end SonicBrew
