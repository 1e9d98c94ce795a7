import SonicBrew.GwPulse.Cursor

/-!
# The reader without its checks

The reader of tagged fields is modelled twice. `SonicBrew.GwPulse.TagReader` has no position outside
of its buffer, and nothing that could panic; `SonicBrew.GwPulse.TagCursor` has both, and never uses
them. On a buffer that fits the memory they are the same
(`SonicBrew.GwPulse.TagCursor.refines_read`), so that what is known of the one – that it reads back
what was written, say – holds of the other.

The proof goes along the two definitions: calls that correspond can be put one behind the other on
both sides (`SonicBrew.GwPulse.TagCursor.Refines.bind`), and a check that is passed can be left out.
-/

namespace SonicBrew

namespace GwPulse

open Format (be32 ofBe32 be64 ofBe64)

namespace TagCursor

variable {α β : Type}

/-- The buffer leaves half of the addresses free. The language keeps to this. -/
def InMemory (buf : Slice) : Prop := 2 * buf.bytes.length < UInt64.size

/-- **The call with its checks does what the call without them does.** -/
def Refines (m : Checked Cursor PulseError α) (r : Reading TagReader PulseError α) : Prop :=
  ∀ (buf : Slice) (t : TagReader), InMemory buf → t.buf = buf.bytes →
    m ⟨buf, t.pos⟩ = some ((r t).1, ⟨buf, (r t).2.pos⟩) ∧ (r t).2.buf = t.buf

theorem refines_pure (a : α) : Refines (pure a) (pure a) := fun _ _ _ _ => ⟨rfl, rfl⟩

theorem refines_fail (e : PulseError) : Refines (.fail e : Checked Cursor PulseError α) (.fail e) :=
  fun _ _ _ _ => ⟨rfl, rfl⟩

theorem Refines.bind {m : Checked Cursor PulseError α} {r : Reading TagReader PulseError α}
    {f : α → Checked Cursor PulseError β} {g : α → Reading TagReader PulseError β}
    (hm : Refines m r) (hf : ∀ a, (∃ t t', r t = (.ok a, t')) → Refines (f a) (g a)) :
    Refines (m >>= f) (r >>= g) := by
  intro buf t hmem hbuf
  obtain ⟨heq, hsame⟩ := hm buf t hmem hbuf
  rcases hr : r t with ⟨e | a, t'⟩
  · rw [hr] at heq hsame
    rw [Reading.bind_of_error hr, Checked.bind_of_error heq]
    exact ⟨rfl, hsame⟩
  · rw [hr] at heq hsame
    obtain ⟨heq', hsame'⟩ := hf a ⟨t, t', hr⟩ buf t' hmem (hsame.trans hbuf)
    rw [Reading.bind_of_ok hr, Checked.bind_of_ok heq]
    exact ⟨heq', hsame'.trans hsame⟩

theorem Refines.ite {p : Prop} [Decidable p] {m m' : Checked Cursor PulseError α}
    {r r' : Reading TagReader PulseError α} (h : Refines m r) (h' : ¬p → Refines m' r') :
    Refines (if p then m else m') (if p then r else r') := by
  by_cases hp : p
  · rw [if_pos hp, if_pos hp]
    exact h
  · rw [if_neg hp, if_neg hp]
    exact h' hp

/-- A check that is passed. -/
theorem refines_orPanic_bind {o : Option α} {a : α} (ho : o = some a)
    {f : α → Checked Cursor PulseError β} {r : Reading TagReader PulseError β}
    (h : Refines (f a) r) : Refines (.orPanic o >>= f) r := by
  subst ho
  exact h

theorem pos_advance {t : TagReader} {n : ℕ} (h : t.pos + n ≤ t.buf.length) :
    (t.advance n).pos = t.pos + n := Nat.min_eq_left h

theorem refines_take {n : ℕ} (hn : n ≤ maxLen) : Refines (take n) (TagReader.take n) := by
  intro buf t hmem hbuf
  have hpos : t.pos ≤ buf.bytes.length := hbuf ▸ t.pos_le
  have hmax : 2 * maxLen < UInt64.size := by decide
  have hmem' : 2 * buf.bytes.length < UInt64.size := hmem
  have hsum : addWord t.pos n = some (t.pos + n) := if_pos (by omega)
  rw [take, TagReader.take, hbuf]
  simp only [hsum]
  by_cases hlen : buf.bytes.length < t.pos + n
  · rw [if_pos hlen, if_pos hlen]
    exact ⟨rfl, hbuf⟩
  · have hle : t.pos + n ≤ buf.bytes.length := Nat.not_lt.mp hlen
    have hadvance : (t.advance n).pos = t.pos + n := pos_advance (hbuf ▸ hle)
    rw [if_neg hlen, if_neg hlen, Slice.range_of_le hle]
    dsimp only
    rw [hadvance]
    exact ⟨rfl, hbuf⟩

theorem refines_takeByte : Refines takeByte TagReader.takeByte := by
  refine (refines_take (by decide)).bind fun bytes ⟨_, _, h⟩ => ?_
  obtain ⟨byte, rfl⟩ := List.length_eq_one_iff.mp (TagReader.length_of_take h)
  exact refines_pure byte

theorem refines_peekByte : Refines peekByte TagReader.peekByte := by
  intro buf t _ hbuf
  rw [peekByte, TagReader.peekByte, hbuf]
  dsimp only
  cases buf.bytes[t.pos]? with
  | none => exact ⟨rfl, hbuf⟩
  | some byte => exact ⟨rfl, hbuf⟩

theorem refines_expectTag (tag : UInt8) : Refines (expectTag tag) (TagReader.expectTag tag) :=
  refines_takeByte.bind fun _ _ => (refines_fail _).ite fun _ => refines_pure ()

/-- All four bytes of four. -/
theorem fourBytes_of_length {bytes : Bytes} (h : bytes.length = 4) :
    fourBytes bytes 0 = some bytes := by
  rw [exists_fourBytes (by omega), List.drop_zero, ← h, List.take_length]

theorem refines_readWord (tag : UInt8) : Refines (readWord tag)
    (TagReader.expectTag tag >>= fun _ =>
      TagReader.take 4 >>= fun bytes => pure (ofBe32 bytes)) := by
  refine (refines_expectTag tag).bind fun _ _ => (refines_take (by decide)).bind ?_
  rintro bytes ⟨_, _, h⟩
  exact refines_orPanic_bind (fourBytes_of_length (TagReader.length_of_take h)) (refines_pure _)

theorem refines_readBoolean : Refines readBoolean TagReader.readBoolean :=
  refines_takeByte.bind fun _ _ => (refines_pure true).ite fun _ =>
    (refines_pure false).ite fun _ => refines_fail _

theorem refines_scanString : Refines scanString TagReader.scanString := by
  intro buf t _ hbuf
  have hpos : t.pos ≤ buf.bytes.length := hbuf ▸ t.pos_le
  have hrest : buf.rangeFrom t.pos = some (buf.bytes.drop t.pos) := if_pos hpos
  rw [TagReader.scanString, hbuf]
  rcases hfind : (buf.bytes.drop t.pos).findIdx? (· = 0) with _ | nul
  · simp only [scanString, hrest, hfind, Option.bind_eq_bind, Option.bind_some]
    exact ⟨trivial, hbuf⟩
  · obtain ⟨hnul, -, -⟩ := List.findIdx?_eq_some_iff_getElem.mp hfind
    rw [List.length_drop] at hnul
    have hlt : t.pos + nul < buf.bytes.length := by omega
    have hstop : addWord t.pos nul = some (t.pos + nul) := addWord_of_le hlt.le
    have hnext : addWord (t.pos + nul) 1 = some (t.pos + nul + 1) := addWord_of_le hlt
    have hadvance : (t.advance (nul + 1)).pos = t.pos + nul + 1 := pos_advance (hbuf ▸ hlt)
    simp only [scanString, hrest, hfind, hstop, Slice.range_of_le hlt.le, hnext,
      Option.bind_eq_bind, Option.bind_some, Option.pure_def]
    by_cases hlen : maxLen < nul
    · rw [if_pos hlen, if_pos hlen]
      exact ⟨rfl, hbuf⟩
    · rw [if_neg hlen, if_neg hlen]
      cases fromUtf8 ((buf.bytes.drop t.pos).take nul) with
      | none => exact ⟨rfl, hbuf⟩
      | some s =>
        dsimp only
        rw [hadvance]
        exact ⟨rfl, hbuf⟩

theorem refines_readString : Refines readString TagReader.readString :=
  refines_takeByte.bind fun _ _ => (refines_pure none).ite fun _ =>
    (refines_scanString.bind fun s _ => refines_pure (some s)).ite fun _ => refines_fail _

theorem refines_readArbitrary : Refines readArbitrary TagReader.readArbitrary := by
  refine (refines_expectTag tagArbitrary).bind fun _ _ => (refines_take (by decide)).bind ?_
  rintro lenBytes ⟨_, _, h⟩
  refine refines_orPanic_bind (fourBytes_of_length (TagReader.length_of_take h)) ?_
  exact (refines_fail _).ite fun hlen => refines_take (Nat.not_lt.mp hlen)

theorem refines_readU64 : Refines readU64 TagReader.readU64 := by
  refine (refines_expectTag tagU64).bind fun _ _ => (refines_take (by decide)).bind ?_
  rintro bytes ⟨_, _, h⟩
  exact refines_orPanic_bind (if_pos (TagReader.length_of_take h)) (refines_pure _)

theorem refines_readValue : Refines readValue TagReader.readValue := by
  refine (refines_readWord tagU32).bind fun len _ => (refines_fail _).ite fun _ => ?_
  refine refines_readArbitrary.bind fun blob _ => (refines_fail _).ite fun _ => ?_
  cases fromUtf8 blob with
  | none => exact refines_fail _
  | some value => exact refines_pure value

theorem refines_readProperty : Refines readProperty TagReader.readProperty := by
  refine refines_peekByte.bind fun byte _ => Refines.ite ?_ fun _ => Refines.ite ?_ fun _ => ?_
  · exact refines_readString.bind fun key _ => refines_readValue.bind fun value _ => refines_pure _
  · exact (refines_take (by decide)).bind fun _ _ => refines_pure none
  · exact refines_fail _

/-- The loop with a limit that is not reached, and the loop that is known to end. -/
theorem refines_readProperties {buf : Slice} (hmem : InMemory buf) {limit : ℕ} {t : TagReader}
    (hbuf : t.buf = buf.bytes) (hlimit : t.remaining < limit) :
    readProperties limit ⟨buf, t.pos⟩ =
        some ((TagReader.readProperties t).1, ⟨buf, (TagReader.readProperties t).2.pos⟩) ∧
      (TagReader.readProperties t).2.buf = t.buf := by
  induction limit generalizing t with
  | zero => exact absurd hlimit (Nat.not_lt_zero _)
  | succ limit ih =>
    obtain ⟨heq, hsame⟩ := refines_readProperty buf t hmem hbuf
    rw [readProperties, TagReader.readProperties]
    split
    · rename_i e t' ht
      rw [ht] at heq hsame
      rw [Checked.bind_of_error heq]
      exact ⟨rfl, hsame⟩
    · rename_i t' ht
      rw [ht] at heq hsame
      rw [Checked.bind_of_ok heq]
      exact ⟨rfl, hsame⟩
    · rename_i property t' ht
      rw [ht] at heq hsame
      have hlt := TagReader.remaining_of_readProperty ht
      obtain ⟨hrest, hsame'⟩ := ih (hsame.trans hbuf) (hlt.trans_le (Nat.le_of_lt_succ hlimit))
      rw [Checked.bind_of_ok heq]
      dsimp only at hrest ⊢
      rcases hproperties : TagReader.readProperties t' with ⟨e | properties, t''⟩
      · rw [hproperties] at hrest hsame'
        rw [Checked.bind_of_error hrest]
        exact ⟨rfl, hsame'.trans hsame⟩
      · rw [hproperties] at hrest hsame'
        rw [Checked.bind_of_ok hrest]
        exact ⟨rfl, hsame'.trans hsame⟩

theorem refines_readProplist : Refines readProplist TagReader.readProplist := by
  refine (refines_expectTag tagProplist).bind fun _ _ buf t hmem hbuf => ?_
  refine refines_readProperties hmem hbuf ?_
  show t.buf.length - t.pos < buf.bytes.length + 1
  rw [hbuf]
  omega

theorem refines_readSampleSpec : Refines readSampleSpec TagReader.readSampleSpec := by
  refine (refines_expectTag tagSampleSpec).bind fun _ _ => (refines_take (by decide)).bind ?_
  rintro bytes ⟨_, _, h⟩
  have hlen := TagReader.length_of_take h
  have hrate : fourBytes bytes 2 = some (bytes.drop 2) := by
    rw [exists_fourBytes (by omega), List.take_of_length_le (by rw [List.length_drop]; omega)]
  have hget : ∀ i < 2, bytes[i]? = some (bytes.getD i 0) := fun i hi => by
    rw [List.getD_eq_getElem?_getD, List.getElem?_eq_getElem (show i < bytes.length by omega),
      Option.getD_some]
  refine refines_orPanic_bind hrate (refines_orPanic_bind (hget 1 (by decide)) ?_)
  exact refines_orPanic_bind (hget 0 (by decide)) (refines_pure _)

theorem refines_readCvolume : Refines readCvolume TagReader.readCvolume := by
  refine (refines_expectTag tagCvolume).bind fun _ _ => refines_takeByte.bind fun count _ => ?_
  have hcount := count.toNat_lt
  have hmax : 256 * 4 ≤ maxLen := by decide
  refine (refines_fail _).ite fun _ => (refines_take (by omega)).bind ?_
  rintro bytes ⟨_, _, h⟩
  rw [mapM_fourBytes (TagReader.length_of_take h)]
  exact refines_pure _

theorem refines_readChannelMap : Refines readChannelMap TagReader.readChannelMap := by
  refine (refines_expectTag tagChannelMap).bind fun _ _ => refines_takeByte.bind fun count _ => ?_
  have hcount := count.toNat_lt
  have hmax : 256 ≤ maxLen := by decide
  exact refines_take (by omega)

/-- **The reader with its checks is the reader without them**, on a buffer that fits the memory. -/
theorem refines_read (k : Kind) : Refines (read k) k.read := by
  cases k with
  | u8 =>
    refine Refines.bind ?_ fun _ _ => refines_pure _
    exact (refines_expectTag tagU8).bind fun _ _ => refines_takeByte
  | u32 => exact (refines_readWord tagU32).bind fun _ _ => refines_pure _
  | u64 => exact refines_readU64.bind fun _ _ => refines_pure _
  | boolean => exact refines_readBoolean.bind fun _ _ => refines_pure _
  | string => exact refines_readString.bind fun _ _ => refines_pure _
  | arbitrary => exact refines_readArbitrary.bind fun _ _ => refines_pure _
  | proplist => exact refines_readProplist.bind fun _ _ => refines_pure _
  | sampleSpec => exact refines_readSampleSpec.bind fun _ _ => refines_pure _
  | channelMap => exact refines_readChannelMap.bind fun _ _ => refines_pure _
  | volume => exact (refines_readWord tagVolume).bind fun _ _ => refines_pure _
  | cvolume => exact refines_readCvolume.bind fun _ _ => refines_pure _

end TagCursor

end GwPulse

end SonicBrew
