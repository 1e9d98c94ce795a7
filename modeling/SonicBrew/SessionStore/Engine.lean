import Mathlib.Data.List.Range
import SonicBrew.Lib.Broadcast
import SonicBrew.Lib.Fallible
import SonicBrew.Lib.Table
import SonicBrew.Lib.Wire
import SonicBrew.Topology

/-!
# The single-node session store

`RaftEngine` keeps the live topology in memory and a write-ahead log of the mutations
that produced it in a table keyed by mutation id. A mutation is committed to the log
*before* the snapshot moves, so a failure anywhere on the way leaves no trace, and a
process that dies is rebuilt by replaying the log.

Replay does not read the keys: it counts rows, and the count becomes the next id
(`SonicBrew.RaftEngine.replay`). That the next id is then above every logged
key – so that the next insertion appends instead of overwriting – is not a fact about
one call; it holds because the keys have been `0, …, n - 1` all along. The invariant
that says so is `SonicBrew.RaftEngine.Consistent`: the log is the write-ahead
log of some list of mutations, and the counter and the snapshot are that list's length
and fold.

Every step of the code that can be refused – serialization, and each call into the
database – consults an oracle (`SonicBrew.attempt`), so a run ranges over all failures.
A transaction is a copy of the table that only a successful commit makes the table, which
is the atomicity the engine relies on.
-/

namespace SonicBrew

/-- The errors of the session store. -/
inductive StoreError where
  | unimplemented (msg : String)
  | persistence (msg : String)
  | invalidMutation (msg : String)
  deriving DecidableEq, Repr

/-- A call that the environment may refuse: it fails at `step` when `fault` says so,
with the cause that `fault` carries behind the caller's own context. -/
def attempt {σ : Type} [DecidableEq σ] (fault : Option (σ × String)) (step : σ)
    (context : String) : Except StoreError Unit :=
  match fault with
  | none => .ok ()
  | some (s, cause) => if s = step then .error (.persistence s!"{context}: {cause}") else .ok ()

@[simp] theorem attempt_none {σ : Type} [DecidableEq σ] (step : σ) (context : String) :
    attempt none step context = .ok () := rfl

namespace RaftEngine

/-- The database file: the `MUTATIONS` table, from mutation ids to serialized mutations. -/
abbrev File : Type := Table ℕ Bytes

/-- The state behind the engine's mutex. -/
structure EngineState where
  snapshot : TopologySnapshot
  nextId : ℕ
  db : File
  tx : Broadcast TopologyEvent

/-- How many events the engine's channel keeps. -/
def channelCapacity : ℕ := 64

/-- The points at which persisting a mutation can fail. -/
inductive PersistStep where
  | serialize
  | beginWrite
  | openTable
  | insert
  | commit
  deriving DecidableEq, Repr

/-- The points at which opening an engine can fail. -/
inductive OpenStep where
  | openRedb
  | beginWrite
  | createTable
  | commitTable
  | beginRead
  | openTable
  | iterTable
  | readEntry (row : ℕ)
  deriving DecidableEq, Repr

/-! ### The log of a list of mutations -/

section Log

variable (json : Codec Mutation)

/-- Append one mutation to the log: the transaction `txn` becomes the table only if the
commit goes through. -/
def persist (db : File) (id : ℕ) (m : Mutation) (fault : Option (PersistStep × String)) :
    Except StoreError File := do
  attempt fault .serialize s!"serialize mutation {id}"
  let bytes := json.serialize m
  attempt fault .beginWrite "begin write"
  attempt fault .openTable "open table"
  let txn := db.insert id bytes
  attempt fault .insert s!"insert mutation {id}"
  attempt fault .commit s!"commit mutation {id}"
  return txn

/-- The mutations a file logs, in key order. -/
def loggedMutations (file : File) : Except String (List Mutation) :=
  file.rows.mapM fun r => json.deserialize r.2

/-- The rows a list of mutations leaves in the log, each under its position counted
from `k`. -/
def walRows (k : ℕ) (ms : List Mutation) : List (ℕ × Bytes) :=
  (ms.zipIdx k).map fun p => (p.2, json.serialize p.1)

/-- **The log invariant**: the file is the write-ahead log of `ms`. -/
def Logs (file : File) (ms : List Mutation) : Prop := file.rows = walRows json 0 ms

/-- **A call that persists inserts the mutation under its id.** -/
theorem persist_eq_ok {db db' : File} {id : ℕ} {m : Mutation}
    {fault : Option (PersistStep × String)} (h : persist json db id m fault = .ok db') :
    db' = db.insert id (json.serialize m) := by
  -- one refusal point after the other: only the run through all of them returns
  obtain ⟨-, -, h⟩ := bind_eq_ok.mp h
  obtain ⟨-, -, h⟩ := bind_eq_ok.mp h
  obtain ⟨-, -, h⟩ := bind_eq_ok.mp h
  obtain ⟨-, -, h⟩ := bind_eq_ok.mp h
  obtain ⟨-, -, h⟩ := bind_eq_ok.mp h
  exact (Except.ok.inj h).symm

theorem walRows_cons (k : ℕ) (m : Mutation) (ms : List Mutation) :
    walRows json k (m :: ms) = (k, json.serialize m) :: walRows json (k + 1) ms := by
  rw [walRows, List.zipIdx_cons, List.map_cons]
  rfl

theorem walRows_append (ms : List Mutation) (m : Mutation) :
    walRows json 0 (ms ++ [m]) = walRows json 0 ms ++ [(ms.length, json.serialize m)] := by
  simp [walRows, List.zipIdx_append]

theorem map_fst_walRows (ms : List Mutation) :
    (walRows json 0 ms).map Prod.fst = List.range ms.length := by
  rw [walRows, List.map_map]
  change ms.zipIdx.map Prod.snd = _
  rw [List.zipIdx_map_snd, List.range_eq_range']

theorem mapM_walRows (k : ℕ) (ms : List Mutation) :
    ((walRows json k ms).mapM fun r => json.deserialize r.2) = .ok ms := by
  induction ms generalizing k with
  | nil => rfl
  | cons m ms ih =>
    rw [walRows_cons, List.mapM_cons, json.deserialize_serialize, ih]
    rfl

variable {json}

/-- A log of `n` mutations has the keys `0, …, n - 1`. -/
theorem Logs.keys_eq {file : File} {ms : List Mutation} (h : Logs json file ms) :
    file.keys = List.range ms.length := by
  rw [Table.keys, h, map_fst_walRows]

/-- **Appending to the log.** The counter is above every key, so the insertion appends. -/
theorem Logs.insert {file : File} {ms : List Mutation} (h : Logs json file ms) (m : Mutation) :
    Logs json (file.insert ms.length (json.serialize m)) (ms ++ [m]) := by
  have hlt : ∀ r ∈ file.rows, r.1 < ms.length := by
    intro r hr
    have hmem : r.1 ∈ file.keys := List.mem_map_of_mem hr
    rw [h.keys_eq] at hmem
    exact List.mem_range.mp hmem
  rw [Logs, Table.rows_insert_of_lt _ hlt, h, walRows_append]

theorem Logs.loggedMutations_eq {file : File} {ms : List Mutation} (h : Logs json file ms) :
    loggedMutations json file = .ok ms := by
  rw [loggedMutations, h, mapM_walRows]

end Log

/-! ### The operations of the engine -/

section Operations

variable [SnapshotApply] (json : Codec Mutation)

/-- `RaftEngine::apply_mutation`: persist first, then move the snapshot and the counter,
then tell the subscribers. -/
def applyMutation (e : EngineState) (m : Mutation) (fault : Option (PersistStep × String)) :
    Except StoreError ℕ × EngineState :=
  let id := e.nextId
  match persist json e.db id m fault with
  | .error err => (.error err, e)
  | .ok db =>
      (.ok id,
        { snapshot := e.snapshot.apply m
          nextId := id + 1
          db := db
          tx := e.tx.send (mutationToEvent m) })

/-- The replay loop of `RaftEngine::open`: keys are ignored, rows are counted. -/
def replay (fault : Option (OpenStep × String)) :
    List (ℕ × Bytes) → TopologySnapshot → ℕ → Except StoreError (TopologySnapshot × ℕ)
  | [], snapshot, nextId => .ok (snapshot, nextId)
  | (_, bytes) :: rows, snapshot, nextId => do
      attempt fault (.readEntry nextId) "read entry"
      match json.deserialize bytes with
      | .error e => .error (.persistence s!"deserialize mutation: {e}")
      | .ok m => replay fault rows (snapshot.apply m) (nextId + 1)

/-- `RaftEngine::open` on a database file. -/
def openFile (file : File) (fault : Option (OpenStep × String)) :
    Except StoreError EngineState := do
  attempt fault .openRedb "open redb"
  attempt fault .beginWrite "begin write"
  attempt fault .createTable "create table"
  attempt fault .commitTable "commit table create"
  attempt fault .beginRead "begin read"
  attempt fault .openTable "open table"
  attempt fault .iterTable "iter table"
  let (snapshot, nextId) ← replay json fault file.rows TopologySnapshot.new 0
  return { snapshot, nextId, db := file, tx := Broadcast.channel }

/-- **The two outcomes of `apply_mutation`**: either it returns the counter and everything
has moved by one mutation, or it returns an error and nothing has. -/
theorem applyMutation_cases (e : EngineState) (m : Mutation)
    (fault : Option (PersistStep × String)) :
    (∃ err, applyMutation json e m fault = (.error err, e)) ∨
      applyMutation json e m fault =
        (.ok e.nextId,
          { snapshot := e.snapshot.apply m
            nextId := e.nextId + 1
            db := e.db.insert e.nextId (json.serialize m)
            tx := e.tx.send (mutationToEvent m) }) := by
  rcases hp : persist json e.db e.nextId m fault with err | db
  · exact Or.inl ⟨err, by rw [applyMutation, hp]⟩
  · refine Or.inr ?_
    rw [applyMutation, hp, persist_eq_ok json hp]

/-- **A failed call leaves no trace.** -/
theorem applyMutation_error {e : EngineState} {m : Mutation}
    {fault : Option (PersistStep × String)} {err : StoreError}
    (h : (applyMutation json e m fault).1 = .error err) :
    (applyMutation json e m fault).2 = e := by
  rcases applyMutation_cases json e m fault with ⟨err', h'⟩ | h'
  · rw [h']
  · rw [h'] at h
    exact absurd h (by simp)

/-- **Replaying the log of `ms`** folds `ms` into the snapshot and counts its length,
unless a row cannot be read. -/
theorem replay_walRows {fault : Option (OpenStep × String)} {ms : List Mutation}
    {t : TopologySnapshot} {n k : ℕ} {r : TopologySnapshot × ℕ}
    (h : replay json fault (walRows json k ms) t n = .ok r) :
    r = (t.applyAll ms, n + ms.length) := by
  induction ms generalizing t n k with
  | nil => exact (Except.ok.inj h).symm
  | cons m ms ih =>
    rw [walRows_cons, replay] at h
    obtain ⟨-, -, h⟩ := bind_eq_ok.mp h
    rw [json.deserialize_serialize] at h
    rw [ih h, List.length_cons, Nat.add_right_comm, Nat.add_assoc]
    rfl

theorem replay_walRows_none (ms : List Mutation) (t : TopologySnapshot) (n k : ℕ) :
    replay json none (walRows json k ms) t n = .ok (t.applyAll ms, n + ms.length) := by
  induction ms generalizing t n k with
  | nil => rfl
  | cons m ms ih =>
    rw [walRows_cons, replay, attempt_none, ok_bind, json.deserialize_serialize]
    change replay json none (walRows json (k + 1) ms) (t.apply m) (n + 1) = _
    rw [ih, List.length_cons, Nat.add_right_comm, Nat.add_assoc]
    rfl

/-- **Opening the log of `ms`**: whatever engine comes out has folded `ms`, counted its
length and kept the file; and without a refusal one does come out. -/
theorem openFile_eq_ok {file : File} {ms : List Mutation} (hlog : Logs json file ms)
    {fault : Option (OpenStep × String)} {e : EngineState} (h : openFile json file fault = .ok e) :
    e.snapshot = TopologySnapshot.new.applyAll ms ∧ e.nextId = ms.length ∧ e.db = file := by
  obtain ⟨-, -, h⟩ := bind_eq_ok.mp h
  obtain ⟨-, -, h⟩ := bind_eq_ok.mp h
  obtain ⟨-, -, h⟩ := bind_eq_ok.mp h
  obtain ⟨-, -, h⟩ := bind_eq_ok.mp h
  obtain ⟨-, -, h⟩ := bind_eq_ok.mp h
  obtain ⟨-, -, h⟩ := bind_eq_ok.mp h
  obtain ⟨-, -, h⟩ := bind_eq_ok.mp h
  obtain ⟨r, hr, h⟩ := bind_eq_ok.mp h
  rw [hlog] at hr
  obtain rfl := replay_walRows json hr
  obtain rfl := Except.ok.inj h
  exact ⟨rfl, Nat.zero_add _, rfl⟩

theorem exists_openFile {file : File} {ms : List Mutation} (hlog : Logs json file ms) :
    ∃ e, openFile json file none = .ok e := by
  refine ⟨⟨TopologySnapshot.new.applyAll ms, 0 + ms.length, file, Broadcast.channel⟩, ?_⟩
  simp only [openFile, attempt_none, ok_bind]
  rw [hlog, replay_walRows_none]
  rfl

/-! ### Runs -/

/-- The process: an open engine, or only the file a dead one left. -/
inductive Process where
  | running (e : EngineState)
  | down (file : File)

/-- The file of a process, which outlives it. -/
def Process.file : Process → File
  | .running e => e.db
  | .down file => file

/-- A step of a run: a call, with the refusal it meets if any; a crash; an attempt to
open the file again. -/
inductive Op where
  | applyMutation (m : Mutation) (fault : Option (PersistStep × String))
  | crash
  | reopen (fault : Option (OpenStep × String))

/-- A process and the ids its successful calls have returned so far, over all its
lives. -/
structure World where
  process : Process
  returned : List ℕ

/-- One step. A call needs an open engine, and a file is opened only once its last
engine is gone; a step that does not apply changes nothing. -/
def step (w : World) (op : Op) : World :=
  match op, w.process with
  | .applyMutation m fault, .running e =>
      match applyMutation json e m fault with
      | (.ok id, e') => ⟨.running e', w.returned ++ [id]⟩
      | (.error _, e') => ⟨.running e', w.returned⟩
  | .crash, .running e => ⟨.down e.db, w.returned⟩
  | .reopen fault, .down file =>
      match openFile json file fault with
      | .ok e => ⟨.running e, w.returned⟩
      | .error _ => w
  | _, _ => w

/-- A run from a file on which nothing has been logged. -/
def run (ops : List Op) : World := ops.foldl (step json) ⟨.down Table.empty, []⟩

/-- **The invariant of a run**: the file logs some list of mutations, exactly its
positions have been returned, and an open engine holds its fold and its length. -/
def Consistent (w : World) : Prop :=
  ∃ ms, Logs json w.process.file ms ∧ w.returned = List.range ms.length ∧
    ∀ e, w.process = .running e →
      e.snapshot = TopologySnapshot.new.applyAll ms ∧ e.nextId = ms.length

variable {json}

/-- **Every step keeps the invariant.** -/
theorem Consistent.step {w : World} (h : Consistent json w) (op : Op) :
    Consistent json (step json w op) := by
  obtain ⟨ms, hlog, hret, hrun⟩ := h
  obtain ⟨p, ret⟩ := w
  cases op with
  | applyMutation m fault =>
    cases p with
    | down file => exact ⟨ms, hlog, hret, hrun⟩
    | running e =>
      obtain ⟨hsnap, hid⟩ := hrun e rfl
      rcases applyMutation_cases json e m fault with ⟨err, hc⟩ | hc
      · simp only [RaftEngine.step, hc]
        exact ⟨ms, hlog, hret, hrun⟩
      · -- the mutation went through: it is logged, folded and counted
        simp only [RaftEngine.step, hc]
        refine ⟨ms ++ [m], ?_, ?_, ?_⟩
        · rw [hid]
          exact hlog.insert m
        · simp only at hret
          rw [hret, hid, List.length_append, List.length_singleton, List.range_succ]
        · intro e' he'
          obtain rfl := Process.running.inj he'
          refine ⟨?_, by simp [hid]⟩
          rw [hsnap, TopologySnapshot.applyAll, TopologySnapshot.applyAll, List.foldl_append]
          rfl
  | crash =>
    cases p with
    | down file => exact ⟨ms, hlog, hret, hrun⟩
    | running e => exact ⟨ms, hlog, hret, fun e' he' => by simp [RaftEngine.step] at he'⟩
  | reopen fault =>
    cases p with
    | running e => exact ⟨ms, hlog, hret, hrun⟩
    | down file =>
      rcases ho : openFile json file fault with err | e
      · simp only [RaftEngine.step, ho]
        exact ⟨ms, hlog, hret, hrun⟩
      · obtain ⟨hsnap, hid, hdb⟩ := openFile_eq_ok json hlog ho
        simp only [RaftEngine.step, ho]
        refine ⟨ms, ?_, hret, fun e' he' => ?_⟩
        · simp only [Process.file] at hlog ⊢
          rwa [hdb]
        · obtain rfl := Process.running.inj he'
          exact ⟨hsnap, hid⟩

variable (json) in
/-- **Every run keeps the invariant.** -/
theorem consistent_run (ops : List Op) : Consistent json (run json ops) := by
  have hinit : Consistent json ⟨.down Table.empty, []⟩ :=
    ⟨[], rfl, rfl, fun e he => by simp at he⟩
  rw [run]
  generalize (⟨.down Table.empty, []⟩ : World) = w at hinit
  induction ops generalizing w with
  | nil => exact hinit
  | cons op ops ih => exact ih _ (hinit.step op)

variable (json)

/-- **The session store over any run of calls, failures, crashes and reopenings.** An open
engine's log has exactly the keys below its counter, its snapshot is the fold of the logged
mutations in key order, and a call that fails changes nothing; over all lives of the process
the successful calls have returned `0, 1, 2, …`; and a file can always be opened again, into
an engine whose counter is the number of ids returned so far. -/
theorem run_log_snapshot_ids (ops : List Op) :
    (∀ e, (run json ops).process = .running e →
      e.db.keys = List.range e.nextId ∧
      (loggedMutations json e.db).map TopologySnapshot.new.applyAll = .ok e.snapshot ∧
      (run json ops).returned = List.range e.nextId ∧
      ∀ m fault err, (applyMutation json e m fault).1 = .error err →
        (applyMutation json e m fault).2 = e) ∧
    (run json ops).returned = List.range (run json ops).returned.length ∧
    ∃ e, openFile json (run json ops).process.file none = .ok e ∧
      e.nextId = (run json ops).returned.length ∧
      ∀ e₀, (run json ops).process = .running e₀ →
        e.snapshot = e₀.snapshot ∧ e.nextId = e₀.nextId ∧ e.db = e₀.db := by
  obtain ⟨ms, hlog, hret, hrun⟩ := consistent_run json ops
  have hlen : (run json ops).returned.length = ms.length := by rw [hret, List.length_range]
  refine ⟨fun e he => ?_, by rw [hlen, hret], ?_⟩
  · obtain ⟨hsnap, hid⟩ := hrun e he
    rw [he, Process.file] at hlog
    refine ⟨by rw [hlog.keys_eq, hid], ?_, by rw [hret, hid], fun m fault err => ?_⟩
    · rw [hlog.loggedMutations_eq, hsnap]
      rfl
    · exact applyMutation_error json
  · obtain ⟨e, ho⟩ := exists_openFile json hlog
    obtain ⟨hsnap, hid, hdb⟩ := openFile_eq_ok json hlog ho
    refine ⟨e, ho, by rw [hid, hlen], fun e₀ he₀ => ?_⟩
    obtain ⟨hsnap₀, hid₀⟩ := hrun e₀ he₀
    refine ⟨by rw [hsnap, hsnap₀], by rw [hid, hid₀], ?_⟩
    rw [hdb, he₀]
    rfl

end Operations

end RaftEngine

end SonicBrew
