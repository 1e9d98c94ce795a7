import Mathlib.Data.List.Basic
import SonicBrew.Lib.Fallible
import SonicBrew.Lib.Table
import SonicBrew.SessionStore.RaftTypes

/-!
# The replicated log

`RaftLogStore` keeps the entries of the replicated log in a table keyed by index, and the
last committed log id in a table with a single row. The consensus library appends, cuts off
a suffix (`truncate`), drops a prefix (`purge`), and on start-up asks for the state of the
log (`get_log_state`).

What the library expects of the log is a list of entries and the id of the last purge,
`SonicBrew.RaftLogStore.AbstractLog`; its answer to “what is the state of the
log” is `SonicBrew.RaftLogStore.AbstractLog.logState`. Under the library's calling
rules (`SonicBrew.RaftLogStore.AbstractLog.Allowed`) the table of entries *is* that
list (`SonicBrew.RaftLogStore.refines_run`): an append goes above every key, and the two
removals are filters.

The state the store reports is another matter. The store has no row for the last purge: it
takes the committed id in its place, by reading the committed row – which was written as an
*optional* log id – as a log id. So a purge leaves no trace in the answer
(`SonicBrew.RaftLogStore.getLogState_run`).
-/

namespace SonicBrew

/-- The answer of `get_log_state`. -/
structure LogState where
  lastPurgedLogId : Option LogId
  lastLogId : Option LogId
  deriving DecidableEq, Repr

namespace RaftLogStore

/-- The key of the only row of `COMMITTED`. -/
def singleRowKey : ℕ := 0

/-- The database: the `LOGS` and the `COMMITTED` table. -/
structure Db where
  logs : Table ℕ Bytes
  committed : Table ℕ Bytes

/-- A database whose tables have just been created. -/
def Db.fresh : Db := ⟨Table.empty, Table.empty⟩

section Operations

variable (codec : Codec Entry)

/-- Decode a stored entry. -/
def readEntry (bytes : Bytes) : Except StorageError Entry :=
  match codec.deserialize bytes with
  | .ok e => .ok e
  | .error e => .error ⟨"deserialize entry", .read, e⟩

/-- `append`: the entries are inserted one after the other, in one transaction. -/
def append (db : Db) (entries : List Entry) : Db :=
  { db with logs := entries.foldl (fun t e => t.insert e.index (codec.serialize e)) db.logs }

/-- `truncate`: the keys from the given index on are collected and then removed. -/
def truncate (db : Db) (logId : LogId) : Db :=
  let keysToDelete := (db.logs.rows.filter fun r => logId.index.toNat ≤ r.1).map Prod.fst
  { db with logs := db.logs.removeAll keysToDelete }

/-- `purge`: the keys up to the given index are collected and then removed. -/
def purge (db : Db) (logId : LogId) : Db :=
  let keysToDelete := (db.logs.rows.filter fun r => r.1 ≤ logId.index.toNat).map Prod.fst
  { db with logs := db.logs.removeAll keysToDelete }

/-- `save_committed`: the optional log id is written with its tag. -/
def saveCommitted (db : Db) (committed : Option LogId) : Db :=
  { db with committed := db.committed.insert singleRowKey (LogId.format.option.put committed) }

/-- `read_committed`: the row is read as an optional log id. -/
def readCommitted (db : Db) : Except StorageError (Option LogId) :=
  match db.committed.get singleRowKey with
  | none => .ok none
  | some bytes =>
      match LogId.format.option.decode bytes with
      | .ok c => .ok c
      | .error e => .error ⟨"deserialize committed", .read, e⟩

/-- `open` on a file that exists: the tables are there already. -/
def reopen (db : Db) : Db := db

/-- The scan of `get_log_state` for the last entry. -/
def scanLast : List (ℕ × Bytes) → Option LogId → Except StorageError (Option LogId)
  | [], last => .ok last
  | (_, bytes) :: rows, _ => do
      let e ← readEntry codec bytes
      scanLast rows (some e.logId)

/-- The committed row read as a log id: what `get_log_state` makes of it. -/
def decodePurged (bytes : Bytes) : Except StorageError LogId :=
  match LogId.format.decode bytes with
  | .ok l => .ok l
  | .error e => .error ⟨"deserialize committed", .read, e⟩

/-- `get_log_state`. -/
def getLogState (db : Db) : Except StorageError LogState := do
  let lastLogId ← scanLast codec db.logs.rows none
  match db.committed.get singleRowKey with
  | none => return ⟨none, lastLogId⟩
  | some bytes =>
      let lastPurged ← decodePurged bytes
      return ⟨some lastPurged, lastLogId⟩

/-- A call of the consensus library, or a restart. -/
inductive Op where
  | append (entries : List Entry)
  | truncate (logId : LogId)
  | purge (logId : LogId)
  | saveCommitted (committed : Option LogId)
  | reopen

/-- One call on the database. -/
def step (db : Db) : Op → Db
  | .append entries => append codec db entries
  | .truncate logId => truncate db logId
  | .purge logId => purge db logId
  | .saveCommitted committed => saveCommitted db committed
  | .reopen => reopen db

/-- A run from a fresh database. -/
def run (ops : List Op) : Db := ops.foldl (step codec) Db.fresh

end Operations

/-! ### What the consensus library expects -/

/-- **The log as the consensus library sees it**: the stored entries, the id of the latest
purge, and the value of the latest `save_committed`. -/
structure AbstractLog where
  entries : List Entry
  lastPurged : Option LogId
  saved : Option (Option LogId)

namespace AbstractLog

/-- The log of a new node. -/
def fresh : AbstractLog := ⟨[], none, none⟩

/-- One call on the abstract log. -/
def step (a : AbstractLog) : Op → AbstractLog
  | .append entries => { a with entries := a.entries ++ entries }
  | .truncate logId => { a with entries := a.entries.filter fun e => e.index < logId.index.toNat }
  | .purge logId =>
      { a with entries := a.entries.filter fun e => logId.index.toNat < e.index
               lastPurged := some logId }
  | .saveCommitted committed => { a with saved := some committed }
  | .reopen => a

/-- A run from the log of a new node. -/
def run (ops : List Op) : AbstractLog := ops.foldl step fresh

/-- The id of the last stored entry. -/
def lastStored (a : AbstractLog) : Option LogId := a.entries.getLast?.map Entry.logId

/-- **The state of the log**, as the library's contract has it. -/
def logState (a : AbstractLog) : LogState := ⟨a.lastPurged, a.lastStored.or a.lastPurged⟩

/-- Entries whose indices continue a log that ends at the given index. -/
def Contiguous : Option ℕ → List Entry → Prop
  | _, [] => True
  | none, e :: es => Contiguous (some e.index) es
  | some i, e :: es => e.index = i + 1 ∧ Contiguous (some e.index) es

/-- A log id that names a stored entry, or a place where no entry is stored. -/
def Names (a : AbstractLog) (logId : LogId) : Prop :=
  ∀ e ∈ a.entries, e.index = logId.index.toNat → e.logId = logId

/-- **The library's calling rules**: an append continues the log, or the last purge if the
log is empty; a removal names a stored entry or one that is gone. -/
def Allowed (a : AbstractLog) : Op → Prop
  | .append entries =>
      Contiguous ((a.lastStored.or a.lastPurged).map fun l => l.index.toNat) entries
  | .truncate logId => a.Names logId
  | .purge logId => a.Names logId
  | .saveCommitted _ => True
  | .reopen => True

/-- A run that follows the rules. -/
def Follows : AbstractLog → List Op → Prop
  | _, [] => True
  | a, op :: ops => a.Allowed op ∧ Follows (a.step op) ops

theorem Contiguous.of_some {i : ℕ} {es : List Entry} (h : Contiguous (some i) es) :
    Contiguous none es := by
  cases es with
  | nil => trivial
  | cons e es => exact h.2

end AbstractLog

/-! ### The table of entries is the abstract log -/

section Refinement

variable (codec : Codec Entry)

/-- The row of an entry. -/
def entryRow (e : Entry) : ℕ × Bytes := (e.index, codec.serialize e)

/-- **The refinement relation**: the rows of the table are the entries of the log, and the
committed row holds the last value saved. -/
structure Refines (db : Db) (a : AbstractLog) : Prop where
  /-- The table of entries. -/
  logs : db.logs.rows = a.entries.map (entryRow codec)
  /-- The committed row. -/
  committed : db.committed.get singleRowKey = a.saved.map LogId.format.option.put

variable {codec}

variable (codec) in
theorem refines_fresh : Refines codec Db.fresh AbstractLog.fresh := ⟨rfl, rfl⟩

/-- The last stored entry has the greatest index. -/
theorem index_le_getLast {t : Table ℕ Bytes} {es : List Entry} {e : Entry}
    (h : t.rows = (es ++ [e]).map (entryRow codec)) {r : ℕ × Bytes} (hr : r ∈ t.rows) :
    r.1 ≤ e.index := by
  have hs := t.sorted
  rw [h, List.map_append, List.pairwise_append] at hs
  rw [h, List.map_append, List.mem_append] at hr
  rcases hr with hr | hr
  · exact (hs.2.2 r hr (entryRow codec e) (by simp)).le
  · obtain rfl : r = entryRow codec e := by simpa using hr
    exact le_refl _

/-- **Appending contiguous entries**: each is above every key, so the table grows at its
end. The induction is on the entries, with the log they continue growing along. -/
theorem rows_append {es es' : List Entry} {t : Table ℕ Bytes}
    (h : t.rows = es.map (entryRow codec))
    (hc : AbstractLog.Contiguous (es.getLast?.map Entry.index) es') :
    (es'.foldl (fun t e => t.insert e.index (codec.serialize e)) t).rows =
      (es ++ es').map (entryRow codec) := by
  induction es' generalizing es t with
  | nil => simpa using h
  | cons e es' ih =>
    have hlt : ∀ r ∈ t.rows, r.1 < e.index := by
      intro r hr
      rcases List.eq_nil_or_concat' es with rfl | ⟨init, l, rfl⟩
      · rw [h] at hr
        simp at hr
      · have hle := index_le_getLast h hr
        rw [List.getLast?_concat] at hc
        have he : e.index = l.index + 1 := hc.1
        omega
    have hrest : AbstractLog.Contiguous (some e.index) es' := by
      rcases hl : es.getLast?.map Entry.index with _ | i
      · rw [hl] at hc
        exact hc
      · rw [hl] at hc
        exact hc.2
    have hins : (t.insert e.index (codec.serialize e)).rows =
        (es ++ [e]).map (entryRow codec) := by
      rw [Table.rows_insert_of_lt _ hlt, h, List.map_append]
      rfl
    have hih := ih hins (by rw [List.getLast?_concat]; exact hrest)
    rw [List.append_assoc, List.singleton_append] at hih
    exact hih

/-- **One call refines one call**, if what is appended continues the log. An empty log continues
at the last purge, which the table does not constrain. -/
theorem Refines.step_of_continues {db : Db} {a : AbstractLog} (h : Refines codec db a) {op : Op}
    (hop : ∀ es, op = .append es →
      AbstractLog.Contiguous ((a.lastStored.or a.lastPurged).map fun l => l.index.toNat) es) :
    Refines codec (step codec db op) (a.step op) := by
  cases op with
  | append es =>
    refine ⟨rows_append h.logs ?_, h.committed⟩
    have hcont := hop es rfl
    simp only [AbstractLog.lastStored] at hcont
    rcases hl : a.entries.getLast? with _ | l
    · rw [hl] at hcont
      rcases hp : a.lastPurged with _ | p
      · rw [hp] at hcont
        exact hcont
      · rw [hp] at hcont
        exact hcont.of_some
    · rw [hl] at hcont
      exact hcont
  | truncate id =>
    refine ⟨?_, h.committed⟩
    change (db.logs.removeAll _).rows = _
    rw [Table.rows_removeAll_filter _ fun k => id.index.toNat ≤ k, h.logs, List.filter_map]
    refine congrArg _ (List.filter_congr fun e _ => ?_)
    change (!decide (id.index.toNat ≤ e.index)) = decide (e.index < id.index.toNat)
    rw [← decide_not]
    exact decide_eq_decide.mpr not_le
  | purge id =>
    refine ⟨?_, h.committed⟩
    change (db.logs.removeAll _).rows = _
    rw [Table.rows_removeAll_filter _ fun k => k ≤ id.index.toNat, h.logs, List.filter_map]
    refine congrArg _ (List.filter_congr fun e _ => ?_)
    change (!decide (e.index ≤ id.index.toNat)) = decide (id.index.toNat < e.index)
    rw [← decide_not]
    exact decide_eq_decide.mpr not_le
  | saveCommitted c => exact ⟨h.logs, Table.get_insert_self _ _ _⟩
  | reopen => exact h

theorem Refines.step {db : Db} {a : AbstractLog} (h : Refines codec db a) {op : Op}
    (hop : a.Allowed op) : Refines codec (step codec db op) (a.step op) := by
  refine h.step_of_continues ?_
  rintro es rfl
  exact hop

/-- **Every run that follows the rules refines its abstract run.** -/
theorem refines_run {ops : List Op} (h : AbstractLog.fresh.Follows ops) :
    Refines codec (run codec ops) (AbstractLog.run ops) := by
  rw [run, AbstractLog.run]
  have hinit := refines_fresh codec
  generalize Db.fresh = db at hinit
  generalize AbstractLog.fresh = a at hinit h
  induction ops generalizing db a with
  | nil => exact hinit
  | cons op ops ih => exact ih _ _ (hinit.step h.1) h.2

/-! ### The reported state -/

/-- The scan finds the id of the last row. -/
theorem scanLast_map (es : List Entry) (last : Option LogId) :
    scanLast codec (es.map (entryRow codec)) last =
      .ok ((es.getLast?.map Entry.logId).or last) := by
  induction es generalizing last with
  | nil => rfl
  | cons e es ih =>
    have hread : readEntry codec (codec.serialize e) = .ok e := by
      rw [readEntry, codec.deserialize_serialize]
    rw [List.map_cons, entryRow, scanLast, hread, ok_bind, ih]
    cases es with
    | nil => rfl
    | cons e' es => rw [List.getLast?_cons_cons, List.getLast?_cons]; rfl

/-- **What the store reports**, read off a database that refines an abstract log: the last
stored entry, and the committed row in place of the last purge. -/
theorem Refines.getLogState_eq {db : Db} {a : AbstractLog} (h : Refines codec db a) :
    getLogState codec db =
      match a.saved with
      | none => .ok ⟨none, a.lastStored⟩
      | some c =>
          (decodePurged (LogId.format.option.put c)).map fun p => ⟨some p, a.lastStored⟩ := by
  rw [getLogState, h.logs, scanLast_map, ok_bind, Option.or_none, h.committed]
  cases a.saved with
  | none => rfl
  | some c =>
    simp only [Option.map_some]
    cases decodePurged (LogId.format.option.put c) <;> rfl

variable (codec)

/-- **The state the store reports, over every run that follows the rules.** The last log id
is that of the last stored entry, and nothing when no entry is stored, whatever was purged;
the last purged id is not taken from the purges but from the committed row. A run that never
saved a committed id therefore reports no purge, and after a save the report is what the row
of the latest one decodes to as a log id. -/
theorem getLogState_run {ops : List Op} (h : AbstractLog.fresh.Follows ops) :
    getLogState codec (run codec ops) =
      match (AbstractLog.run ops).saved with
      | none => .ok ⟨none, (AbstractLog.run ops).lastStored⟩
      | some c =>
          (decodePurged (LogId.format.option.put c)).map fun p =>
            ⟨some p, (AbstractLog.run ops).lastStored⟩ :=
  (refines_run h).getLogState_eq

end Refinement

/-- The first entry of a log. -/
def firstEntry : Entry := ⟨⟨⟨1, 1⟩, 0⟩, .blank⟩

/-- A log of one entry that has been purged. -/
def purgedRun : List Op := [.append [firstEntry], .purge firstEntry.logId]

theorem follows_purgedRun : AbstractLog.fresh.Follows purgedRun := by
  refine ⟨trivial, ?_, trivial⟩
  intro e he _
  obtain rfl : e = firstEntry := by simpa [AbstractLog.step, AbstractLog.fresh] using he
  rfl

theorem getLogState_purgedRun :
    getLogState Entry.format.toCodec (run Entry.format.toCodec purgedRun) = .ok ⟨none, none⟩ :=
  getLogState_run Entry.format.toCodec follows_purgedRun

/-- **A purge is not reported.** The log has been emptied by a purge, which the contract
answers with the id of the purge twice over; the store answers with nothing. -/
theorem getLogState_forgets_purge :
    AbstractLog.fresh.Follows purgedRun ∧
      (AbstractLog.run purgedRun).logState =
        ⟨some firstEntry.logId, some firstEntry.logId⟩ ∧
      getLogState Entry.format.toCodec (run Entry.format.toCodec purgedRun) ≠
        .ok (AbstractLog.run purgedRun).logState := by
  have hstate : (AbstractLog.run purgedRun).logState =
      ⟨some firstEntry.logId, some firstEntry.logId⟩ := by decide
  refine ⟨follows_purgedRun, hstate, ?_⟩
  rw [hstate, (refines_run follows_purgedRun).getLogState_eq]
  intro h
  exact absurd (congrArg LogState.lastPurgedLogId (Except.ok.inj h)) (by decide)

end RaftLogStore

end SonicBrew
