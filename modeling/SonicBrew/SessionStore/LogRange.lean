import Mathlib.Logic.Function.Basic
import SonicBrew.SessionStore.LogStore

/-!
# The log as a list, and its readers

Between the last purge and the last append the log is a stretch of consecutive indices, and the
table of entries is the list of them: an append continues the list, `truncate` cuts it at an
index that goes too, and `purge` drops its front up to an index that goes too. A read of a range
of indices walks the rows of the table in key order and decodes them, so it is the part of the
list that lies in the range.

The store and the readers made from it read the same database: a reader holds a second pointer
to it (`SonicBrew.LogReader`), and sees every later change.
-/

namespace SonicBrew

/-- An end of a range. -/
inductive Bound where
  | included (v : UInt64)
  | excluded (v : UInt64)
  | unbounded
  deriving DecidableEq, Repr

namespace Bound

/-- A start of a range lets a key in. -/
def allowsFrom : Bound → ℕ → Bool
  | .included v, k => v.toNat ≤ k
  | .excluded v, k => v.toNat < k
  | .unbounded, _ => true

/-- An end of a range lets a key in. -/
def allowsTo : Bound → ℕ → Bool
  | .included v, k => k ≤ v.toNat
  | .excluded v, k => k < v.toNat
  | .unbounded, _ => true

end Bound

/-- Whether a key lies in a range. -/
def inRange (start stop : Bound) (k : ℕ) : Bool := start.allowsFrom k && stop.allowsTo k

namespace RaftLogStore

variable (codec : Codec Entry)

/-- The entries of a list of rows, up to the first that cannot be decoded. -/
def readRows : List (ℕ × Bytes) → Except StorageError (List Entry)
  | [] => .ok []
  | (_, bytes) :: rows => do
      let entry ← readEntry codec bytes
      let entries ← readRows rows
      return entry :: entries

/-- The rows in a range, decoded: the common body of the two `try_get_log_entries`. -/
def readRange (db : Db) (start stop : Bound) : Except StorageError (List Entry) :=
  readRows codec (db.logs.rows.filter fun r => inRange start stop r.1)

end RaftLogStore

/-! ### Pointers to a database -/

/-- The databases in memory, by address. -/
abbrev Databases : Type := ℕ → RaftLogStore.Db

/-- A store: a pointer to its database. -/
structure RaftLogStore where
  db : ℕ

/-- A reader: another one. -/
structure LogReader where
  db : ℕ

namespace RaftLogStore

variable (codec : Codec Entry)

/-- A call on the database of the store. -/
def call (store : RaftLogStore) (dbs : Databases) (op : Op) : Databases :=
  Function.update dbs store.db (step codec (dbs store.db) op)

/-- A sequence of calls. -/
def calls (store : RaftLogStore) (dbs : Databases) (ops : List Op) : Databases :=
  ops.foldl (store.call codec) dbs

/-- `get_log_reader`. -/
def getLogReader (store : RaftLogStore) : LogReader := ⟨store.db⟩

/-- `RaftLogStore::try_get_log_entries`. -/
def tryGetLogEntries (store : RaftLogStore) (dbs : Databases) (start stop : Bound) :
    Except StorageError (List Entry) :=
  readRange codec (dbs store.db) start stop

/-- `RaftLogStore::limited_get_log_entries`. -/
def limitedGetLogEntries (store : RaftLogStore) (dbs : Databases) (start stop : UInt64) :
    Except StorageError (List Entry) :=
  store.tryGetLogEntries codec dbs (.included start) (.excluded stop)

end RaftLogStore

namespace LogReader

variable (codec : Codec Entry)

/-- `LogReader::try_get_log_entries`. -/
def tryGetLogEntries (reader : LogReader) (dbs : Databases) (start stop : Bound) :
    Except StorageError (List Entry) :=
  RaftLogStore.readRange codec (dbs reader.db) start stop

/-- `LogReader::limited_get_log_entries`. -/
def limitedGetLogEntries (reader : LogReader) (dbs : Databases) (start stop : UInt64) :
    Except StorageError (List Entry) :=
  reader.tryGetLogEntries codec dbs (.included start) (.excluded stop)

end LogReader

namespace RaftLogStore

/-! ### The rules, and the list -/

namespace AbstractLog

/-- The index is that of a stored entry. -/
def Stores (a : AbstractLog) (index : ℕ) : Prop := ∃ e ∈ a.entries, e.index = index

/-- **The library's rules for the log alone**: an append continues right after the last stored or
last purged index, and a removal is at a stored index. -/
def Permits (a : AbstractLog) : Op → Prop
  | .append entries =>
      Contiguous ((a.lastStored.or a.lastPurged).map fun l => l.index.toNat) entries
  | .truncate logId => a.Stores logId.index.toNat
  | .purge logId => a.Stores logId.index.toNat
  | .saveCommitted _ => True
  | .reopen => True

/-- A run that keeps the rules. -/
def Keeps : AbstractLog → List Op → Prop
  | _, [] => True
  | a, op :: ops => a.Permits op ∧ Keeps (a.step op) ops

/-- **The indices run from `lo` on without a gap.** -/
def RunsFrom (lo : ℕ) (es : List Entry) : Prop := es.map Entry.index = List.range' lo es.length

theorem RunsFrom.cons_iff {lo : ℕ} {e : Entry} {es : List Entry} :
    RunsFrom lo (e :: es) ↔ e.index = lo ∧ RunsFrom (lo + 1) es := by
  rw [RunsFrom, List.map_cons, List.length_cons, List.range'_succ, List.cons.injEq]
  rfl

theorem Contiguous.runsFrom {i : ℕ} {es : List Entry} (h : Contiguous (some i) es) :
    RunsFrom (i + 1) es := by
  induction es generalizing i with
  | nil => rfl
  | cons e es ih =>
    obtain ⟨he, hes⟩ := h
    rw [he] at hes
    exact RunsFrom.cons_iff.mpr ⟨he, ih hes⟩

/-- Whatever they continue, the appended entries are without a gap. -/
theorem Contiguous.exists_runsFrom {start : Option ℕ} {es : List Entry} (h : Contiguous start es) :
    ∃ lo, RunsFrom lo es := by
  rcases start with _ | i
  · cases es with
    | nil => exact ⟨0, rfl⟩
    | cons e es => exact ⟨e.index, RunsFrom.cons_iff.mpr ⟨rfl, h.runsFrom⟩⟩
  · exact ⟨i + 1, h.runsFrom⟩

theorem RunsFrom.append {lo : ℕ} {es es' : List Entry} (h : RunsFrom lo es)
    (h' : RunsFrom (lo + es.length) es') : RunsFrom lo (es ++ es') := by
  rw [RunsFrom] at *
  rw [List.map_append, h, h', List.length_append, List.range'_append_1]

/-- **Cutting a stretch of indices** at `i`: what is below `i` is a front of it, and what is
from `i` on is the rest. -/
theorem RunsFrom.filter_lt {lo : ℕ} {es : List Entry} (h : RunsFrom lo es) (i : ℕ) :
    es.filter (fun e => e.index < i) = es.take (i - lo) := by
  induction es generalizing lo with
  | nil => rw [List.take_nil, List.filter_nil]
  | cons e es ih =>
    obtain ⟨he, hes⟩ := RunsFrom.cons_iff.mp h
    by_cases hlt : e.index < i
    · obtain ⟨n, hn⟩ : ∃ n, i - lo = n + 1 := ⟨i - lo - 1, by omega⟩
      rw [List.filter_cons_of_pos (by simpa using hlt), ih hes, hn, List.take_succ_cons]
      congr 2
      omega
    · rw [List.filter_cons_of_neg (by simpa using hlt), ih hes]
      rw [show i - (lo + 1) = 0 by omega, show i - lo = 0 by omega, List.take_zero, List.take_zero]

theorem RunsFrom.filter_ge {lo : ℕ} {es : List Entry} (h : RunsFrom lo es) (i : ℕ) :
    es.filter (fun e => i < e.index) = es.drop (i + 1 - lo) := by
  induction es generalizing lo with
  | nil => rw [List.drop_nil, List.filter_nil]
  | cons e es ih =>
    obtain ⟨he, hes⟩ := RunsFrom.cons_iff.mp h
    by_cases hlt : i < e.index
    · rw [List.filter_cons_of_pos (by simpa using hlt), ih hes]
      rw [show i + 1 - (lo + 1) = 0 by omega, show i + 1 - lo = 0 by omega, List.drop_zero,
        List.drop_zero]
    · obtain ⟨n, hn⟩ : ∃ n, i + 1 - lo = n + 1 := ⟨i - lo, by omega⟩
      rw [List.filter_cons_of_neg (by simpa using hlt), ih hes, hn, List.drop_succ_cons]
      congr 1
      omega

theorem RunsFrom.take {lo : ℕ} {es : List Entry} (h : RunsFrom lo es) (n : ℕ) :
    RunsFrom lo (es.take n) := by
  rw [RunsFrom] at *
  rcases Nat.le_total n es.length with hle | hle
  · rw [List.map_take, h, List.take_range'_of_length_ge hle, List.length_take_of_le hle]
  · rw [List.take_of_length_le hle, h]

theorem RunsFrom.drop {lo : ℕ} {es : List Entry} (h : RunsFrom lo es) (n : ℕ) :
    RunsFrom (lo + n) (es.drop n) := by
  rw [RunsFrom] at *
  rw [List.map_drop, h, List.drop_range', Nat.mul_one, List.length_drop]

/-- The last index of a stretch. -/
theorem RunsFrom.getLast {lo : ℕ} {es : List Entry} (h : RunsFrom lo es) {e : Entry}
    (he : es.getLast? = some e) : e.index + 1 = lo + es.length := by
  induction es generalizing lo with
  | nil => cases he
  | cons e' es ih =>
    obtain ⟨he', hes⟩ := RunsFrom.cons_iff.mp h
    rw [List.length_cons]
    cases es with
    | nil =>
      obtain rfl : e' = e := Option.some.inj he
      rw [List.length_nil]
      omega
    | cons e'' es =>
      rw [List.getLast?_cons_cons] at he
      have := ih hes he
      omega

/-- **Every call leaves the log without a gap**, whatever is removed. -/
theorem exists_runsFrom_step {a : AbstractLog} (h : ∃ lo, RunsFrom lo a.entries) {op : Op}
    (hop : a.Permits op) : ∃ lo, RunsFrom lo (a.step op).entries := by
  obtain ⟨lo, hlo⟩ := h
  cases op with
  | append es =>
    simp only [Permits, lastStored] at hop
    rcases hl : a.entries.getLast? with _ | e
    · obtain ⟨lo', hlo'⟩ := hop.exists_runsFrom
      have hnil : a.entries = [] := List.getLast?_eq_none_iff.mp hl
      refine ⟨lo', ?_⟩
      change RunsFrom lo' (a.entries ++ es)
      rw [hnil]
      exact hlo'
    · rw [hl] at hop
      have hlast := hlo.getLast hl
      have hes : RunsFrom (e.index + 1) es := Contiguous.runsFrom hop
      rw [hlast] at hes
      exact ⟨lo, hlo.append hes⟩
  | truncate id =>
    refine ⟨lo, ?_⟩
    change RunsFrom lo (a.entries.filter fun e => e.index < id.index.toNat)
    rw [hlo.filter_lt]
    exact hlo.take _
  | purge id =>
    refine ⟨lo + (id.index.toNat + 1 - lo), ?_⟩
    change RunsFrom _ (a.entries.filter fun e => id.index.toNat < e.index)
    rw [hlo.filter_ge]
    exact hlo.drop _
  | saveCommitted c => exact ⟨lo, hlo⟩
  | reopen => exact ⟨lo, hlo⟩

end AbstractLog

/-! ### Reads -/

section Reads

variable {codec : Codec Entry}

theorem readRows_map (es : List Entry) : readRows codec (es.map (entryRow codec)) = .ok es := by
  induction es with
  | nil => rfl
  | cons e es ih =>
    have hread : readEntry codec (codec.serialize e) = .ok e := by
      rw [readEntry, codec.deserialize_serialize]
    rw [List.map_cons, entryRow, readRows, hread, ok_bind, ih]
    rfl

/-- **A read of a range** returns the entries whose index lies in it. -/
theorem Refines.readRange_eq {db : Db} {a : AbstractLog} (h : Refines codec db a)
    (start stop : Bound) :
    readRange codec db start stop = .ok (a.entries.filter fun e => inRange start stop e.index) := by
  rw [readRange, h.logs, List.filter_map]
  exact readRows_map _

theorem Refines.run_of_keeps {ops : List Op} {db : Db} {a : AbstractLog} (h : Refines codec db a)
    (hlo : ∃ lo, AbstractLog.RunsFrom lo a.entries) (hops : a.Keeps ops) :
    Refines codec (ops.foldl (RaftLogStore.step codec) db) (ops.foldl AbstractLog.step a) ∧
      ∃ lo, AbstractLog.RunsFrom lo (ops.foldl AbstractLog.step a).entries := by
  induction ops generalizing db a with
  | nil => exact ⟨h, hlo⟩
  | cons op ops ih =>
    obtain ⟨hop, hops⟩ := hops
    refine ih (h.step_of_continues ?_) (AbstractLog.exists_runsFrom_step hlo hop) hops
    rintro es rfl
    exact hop

theorem AbstractLog.keeps_append {a : AbstractLog} {ops ops' : List Op} :
    a.Keeps (ops ++ ops') ↔ a.Keeps ops ∧ (ops.foldl AbstractLog.step a).Keeps ops' := by
  induction ops generalizing a with
  | nil => simp [AbstractLog.Keeps]
  | cons op ops ih =>
    simp only [List.cons_append, AbstractLog.Keeps, ih, and_assoc, List.foldl_cons]

theorem calls_self (store : RaftLogStore) (dbs : Databases) (ops : List Op) :
    store.calls codec dbs ops store.db = ops.foldl (RaftLogStore.step codec) (dbs store.db) := by
  rw [calls]
  induction ops generalizing dbs with
  | nil => rfl
  | cons op ops ih =>
    rw [List.foldl_cons, List.foldl_cons, ih, call, Function.update_self]

variable (codec)

/-- **The log store over every run that keeps the rules.** The table of entries is a list of
entries with consecutive indices, each under its own; a read of a range, by the store or by a
reader made from it, returns the entries with an index in the range, in order; and truncating at
an index and appending replaces the list from that index on. -/
theorem log_is_list (store : RaftLogStore) (dbs : Databases) (hfresh : dbs store.db = Db.fresh)
    {ops : List Op} (hops : AbstractLog.fresh.Keeps ops) :
    let entries := (AbstractLog.run ops).entries
    let after := store.calls codec dbs ops
    ∃ lo, entries.map Entry.index = List.range' lo entries.length ∧
      (after store.db).logs.rows = entries.map (fun e => (e.index, codec.serialize e)) ∧
      (∀ start stop,
        store.tryGetLogEntries codec after start stop =
          .ok (entries.filter fun e => inRange start stop e.index) ∧
        store.getLogReader.tryGetLogEntries codec after start stop =
          .ok (entries.filter fun e => inRange start stop e.index)) ∧
      ∀ logId es, AbstractLog.fresh.Keeps (ops ++ [.truncate logId, .append es]) →
        (store.calls codec dbs (ops ++ [.truncate logId, .append es]) store.db).logs.rows =
          (entries.take (logId.index.toNat - lo) ++ es).map
            fun e => (e.index, codec.serialize e) := by
  intro entries after
  have hstart : Refines codec (dbs store.db) AbstractLog.fresh := hfresh ▸ refines_fresh codec
  have hempty : ∃ lo, AbstractLog.RunsFrom lo AbstractLog.fresh.entries := ⟨0, rfl⟩
  obtain ⟨hrefines, lo, hlo⟩ := hstart.run_of_keeps hempty hops
  rw [← calls_self] at hrefines
  refine ⟨lo, hlo, hrefines.logs, fun start stop => ⟨hrefines.readRange_eq start stop,
    hrefines.readRange_eq start stop⟩, fun logId es hreplace => ?_⟩
  obtain ⟨-, htail⟩ := AbstractLog.keeps_append.mp hreplace
  rw [calls_self, List.foldl_append, ← calls_self]
  rw [((hrefines.run_of_keeps ⟨lo, hlo⟩ htail).1).logs]
  -- what is below the index is the front of the list
  have hcut : entries.filter (fun e => e.index < logId.index.toNat) =
      entries.take (logId.index.toNat - lo) := hlo.filter_lt _
  change ((entries.filter fun e => e.index < logId.index.toNat) ++ es).map (entryRow codec) = _
  rw [hcut]
  rfl

end Reads

/-- Three entries, the first of them purged, and the last replaced. -/
def replacedRun : List Op :=
  [.append [firstEntry, ⟨⟨⟨1, 1⟩, 1⟩, .blank⟩, ⟨⟨⟨1, 1⟩, 2⟩, .blank⟩], .purge firstEntry.logId]

theorem log_is_list_replaced :
    (RaftLogStore.calls Entry.format.toCodec ⟨0⟩ (fun _ => Db.fresh)
      (replacedRun ++ [.truncate ⟨⟨1, 1⟩, 2⟩, .append [⟨⟨⟨2, 1⟩, 2⟩, .blank⟩]]) 0).logs.keys =
      [1, 2] := by
  have hfirst : AbstractLog.fresh.Keeps replacedRun :=
    ⟨⟨rfl, rfl, trivial⟩, ⟨firstEntry, List.mem_cons_self, rfl⟩, trivial⟩
  have hall : AbstractLog.fresh.Keeps
      (replacedRun ++ [.truncate ⟨⟨1, 1⟩, 2⟩, .append [⟨⟨⟨2, 1⟩, 2⟩, .blank⟩]]) :=
    ⟨⟨rfl, rfl, trivial⟩, ⟨firstEntry, List.mem_cons_self, rfl⟩,
      ⟨⟨⟨⟨1, 1⟩, 2⟩, .blank⟩, by decide, rfl⟩, ⟨rfl, trivial⟩, trivial⟩
  obtain ⟨lo, hlo, -, -, hreplace⟩ :=
    log_is_list Entry.format.toCodec ⟨0⟩ (fun _ => Db.fresh) rfl hfirst
  obtain rfl : lo = 1 := (List.cons.inj hlo).1.symm
  rw [Table.keys, hreplace _ _ hall]
  rfl

end RaftLogStore

end SonicBrew
