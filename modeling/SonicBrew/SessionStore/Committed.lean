import SonicBrew.SessionStore.LogStore

/-!
# The committed row and its two readers

`save_committed` writes an *optional* log id: a tag byte, and the id behind it. `read_committed`
reads it back as one. `get_log_state` reads the same row as a log id, so it takes the tag for the
first byte of the term, and every byte of the id for the one after it.

Two byte strings decide everything. A row that says “nothing” is a single byte, too short for a
log id. A row that says “this id” is read as the id whose bytes are one place off; that is the
same id only if all of its bytes are equal to the tag
(`SonicBrew.RaftLogStore.saved_state_iff`).
-/

namespace SonicBrew

theorem LogId.tight_format : LogId.format.Tight :=
  ((Format.tight_u64.prod Format.tight_u64).prod Format.tight_u64).map _ fun _ => rfl

/-- A list that is itself with one element pushed in front and one dropped at the end repeats
that element. -/
theorem eq_replicate_of_shift {α : Type} {x y : α} {l : List α} (h : x :: l = l ++ [y]) :
    l = List.replicate l.length x := by
  induction l generalizing x with
  | nil => rfl
  | cons z l ih =>
    obtain ⟨rfl, hl⟩ := List.cons.inj h
    rw [List.length_cons, List.replicate_succ, ← ih hl]

namespace RaftLogStore

/-! ### Any state of the store -/

section States

variable (codec : Codec Entry)

/-- Every row of the log is an entry, under whatever key. -/
def RowsDecode (db : Db) : Prop := ∀ r ∈ db.logs.rows, ∃ e, r.2 = codec.serialize e

variable {codec}

theorem RowsDecode.append {db : Db} (h : RowsDecode codec db) (es : List Entry) :
    RowsDecode codec (append codec db es) := by
  obtain ⟨logs, committed⟩ := db
  induction es generalizing logs with
  | nil => exact h
  | cons e es ih =>
    refine ih (logs.insert e.index (codec.serialize e)) fun r hr => ?_
    rcases Table.mem_insertRow hr with rfl | hr
    · exact ⟨e, rfl⟩
    · exact h r hr

theorem RowsDecode.removeAll {db : Db} (h : RowsDecode codec db) (ks : List ℕ) :
    RowsDecode codec { db with logs := db.logs.removeAll ks } := by
  intro r hr
  rw [Table.rows_removeAll] at hr
  exact h r (List.mem_of_mem_filter hr)

/-- **Whatever calls are made, the rows of the log are entries.** -/
theorem rowsDecode_run (ops : List Op) : RowsDecode codec (run codec ops) := by
  rw [run]
  have hfresh : RowsDecode codec Db.fresh := fun r hr => absurd hr List.not_mem_nil
  generalize Db.fresh = db at hfresh
  induction ops generalizing db with
  | nil => exact hfresh
  | cons op ops ih =>
    refine ih _ ?_
    cases op with
    | append es => exact hfresh.append es
    | truncate id => exact hfresh.removeAll _
    | purge id => exact hfresh.removeAll _
    | saveCommitted c => exact hfresh
    | reopen => exact hfresh

/-- The scan for the last entry goes through. -/
theorem RowsDecode.scanLast {db : Db} (h : RowsDecode codec db) :
    ∃ last, scanLast codec db.logs.rows none = .ok last := by
  rw [RowsDecode] at h
  generalize (none : Option LogId) = start
  generalize db.logs.rows = rows at h
  induction rows generalizing start with
  | nil => exact ⟨start, rfl⟩
  | cons r rows ih =>
    obtain ⟨k, bytes⟩ := r
    obtain ⟨e, rfl⟩ := h (k, bytes) List.mem_cons_self
    have hread : readEntry codec (codec.serialize e) = .ok e := by
      rw [readEntry, codec.deserialize_serialize]
    rw [RaftLogStore.scanLast, hread, ok_bind]
    exact ih _ fun r hr => h r (List.mem_cons_of_mem _ hr)

end States

/-! ### The two readings of the row -/

theorem readCommitted_saveCommitted (db : Db) (c : Option LogId) :
    readCommitted (saveCommitted db c) = .ok c := by
  simp only [readCommitted, saveCommitted, Table.get_insert_self, Format.decode_put]

/-- **What `get_log_state` makes of a row that was just saved.** -/
theorem getLogState_saveCommitted (codec : Codec Entry) (ops : List Op) (c : Option LogId) :
    ∃ last, getLogState codec (saveCommitted (run codec ops) c) =
      (decodePurged (LogId.format.option.put c)).map fun p => ⟨some p, last⟩ := by
  have hrows : RowsDecode codec (run codec ops) := rowsDecode_run ops
  obtain ⟨last, hlast⟩ := hrows.scanLast
  refine ⟨last, ?_⟩
  simp only [getLogState, saveCommitted, hlast, ok_bind, Table.get_insert_self]
  cases decodePurged (LogId.format.option.put c) <;> rfl

/-- The log id all of whose bytes are 1. -/
def onesId : LogId := ⟨⟨0x0101010101010101, 0x0101010101010101⟩, 0x0101010101010101⟩

/-- **One place off**: a tagged id is read as the same id only if every byte of it is the
tag. -/
theorem decodePurged_tagged_iff {l : LogId} :
    decodePurged (LogId.format.option.put (some l)) = .ok l ↔ l = onesId := by
  constructor
  · intro h
    have hdecode : LogId.format.decode (1 :: LogId.format.put l) = .ok l := by
      simp only [decodePurged] at h
      split at h
      · rename_i l' hl'
        rw [← Except.ok.inj h]
        exact Except.ok.inj h ▸ hl'
      · cases h
    obtain ⟨rest, hrest⟩ := LogId.tight_format.of_decode hdecode
    -- the row is one byte longer than the id that is read off it
    obtain ⟨y, rfl⟩ : ∃ y, rest = [y] := by
      apply List.length_eq_one_iff.mp
      have hlen := congrArg List.length hrest
      rw [List.length_cons, List.length_append] at hlen
      omega
    have hones : LogId.format.put l = LogId.format.put onesId := by
      rw [eq_replicate_of_shift hrest]
      rfl
    have hput := LogId.format.decode_put l
    rw [hones, LogId.format.decode_put] at hput
    exact (Except.ok.inj hput).symm
  · rintro rfl
    rfl

/-- **When the two readings of a saved value agree.** After any calls on the store, a saved
value can be read as the state of the log, and the id that is read is the one saved, exactly if
it is the id all of whose bytes are 1. -/
theorem saved_state_iff (codec : Codec Entry) (ops : List Op) (c : Option LogId) :
    (∃ state, getLogState codec (saveCommitted (run codec ops) c) = .ok state ∧
      ∀ l, state.lastPurgedLogId = some l →
        readCommitted (saveCommitted (run codec ops) c) = .ok (some l)) ↔
      c = some onesId := by
  obtain ⟨last, hstate⟩ := getLogState_saveCommitted codec ops c
  rw [hstate, readCommitted_saveCommitted]
  constructor
  · rintro ⟨state, hok, hagree⟩
    cases hp : decodePurged (LogId.format.option.put c) with
    | error e =>
      rw [hp] at hok
      cases hok
    | ok p =>
      rw [hp] at hok
      obtain rfl := Except.ok.inj hok
      obtain rfl : c = some p := Except.ok.inj (hagree p rfl)
      rw [decodePurged_tagged_iff.mp hp]
  · rintro rfl
    rw [decodePurged_tagged_iff.mpr rfl]
    refine ⟨_, rfl, ?_⟩
    intro l hl
    exact congrArg Except.ok hl

/-- A saved “nothing” makes `get_log_state` fail, and a saved id comes out as another one. -/
theorem saved_state_diverges :
    getLogState Entry.format.toCodec (saveCommitted Db.fresh none) =
      .error ⟨"deserialize committed", .read, "io error: unexpected end of file"⟩ ∧
    readCommitted (saveCommitted Db.fresh (some ⟨⟨2, 1⟩, 5⟩)) = .ok (some ⟨⟨2, 1⟩, 5⟩) ∧
    getLogState Entry.format.toCodec (saveCommitted Db.fresh (some ⟨⟨2, 1⟩, 5⟩)) =
      .ok ⟨some ⟨⟨513, 256⟩, 1280⟩, none⟩ :=
  ⟨rfl, rfl, rfl⟩

end RaftLogStore

end SonicBrew
