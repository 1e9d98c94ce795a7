import SonicBrew.GwPulse.Fields
import SonicBrew.Lib.Cursor
import SonicBrew.Lib.Machine
import SonicBrew.Lib.Transition

/-!
# The reader's accesses

The bytes that the reader of tagged fields moves along come from a peer that is not trusted, and a
caller may read on after an error, from wherever the error has left the reader. This module takes
the reader as it is written, with every index, range and sum that could panic
(`SonicBrew.GwPulse.TagCursor`), and shows that none does: whatever is in the buffer and whatever is
called, the position stays in the buffer and does not move back, a field that is returned has moved
it by the size of this field, and the loop over a list of properties ends after no more of them than
there are bytes (`SonicBrew.GwPulse.TagCursor.calls_bounded`).
-/

namespace SonicBrew

namespace GwPulse

open Format (be32 ofBe32 be64 ofBe64)

/-! ### The reader, with its checks -/

namespace TagCursor

/-- `TagReader::new`. -/
def new (buf : Slice) : Cursor := ⟨buf, 0⟩

/-- `offset`. -/
def offset : Checked Cursor PulseError ℕ := fun c => some (.ok c.pos, c)

/-- `remaining`: a difference of machine words. -/
def remaining : Checked Cursor PulseError ℕ := fun c =>
  if c.pos ≤ c.buf.bytes.length then some (.ok (c.buf.bytes.length - c.pos), c) else none

/-- `is_empty`. -/
def isEmpty : Checked Cursor PulseError Bool := do
  let n ← remaining
  return n = 0

/-- `take`. -/
def take (n : ℕ) : Checked Cursor PulseError Bytes := fun c =>
  match addWord c.pos n with
  | none => some (.error .oversized, c)
  | some stop =>
      if c.buf.bytes.length < stop then some (.error .truncated, c)
      else do
        let bytes ← c.buf.range c.pos stop
        return (.ok bytes, { c with pos := stop })

/-- `take(1)?[0]`, which is also `read_u8_raw`. -/
def takeByte : Checked Cursor PulseError UInt8 := do
  let bytes ← take 1
  .orPanic bytes[0]?

/-- `peek_byte`. -/
def peekByte : Checked Cursor PulseError UInt8 := fun c =>
  match c.buf.bytes[c.pos]? with
  | some byte => some (.ok byte, c)
  | none => some (.error .truncated, c)

/-- `expect_tag`. -/
def expectTag (expected : UInt8) : Checked Cursor PulseError Unit := do
  let byte ← takeByte
  if byte ≠ expected then .fail (.invalidTag byte) else return ()

/-- `[bytes[i], bytes[i + 1], bytes[i + 2], bytes[i + 3]]`. -/
def fourBytes (bytes : Bytes) (i : ℕ) : Option Bytes := do
  return [← bytes[i]?, ← bytes[i + 1]?, ← bytes[i + 2]?, ← bytes[i + 3]?]

/-- `read_u32`, and `read_volume` with another tag. -/
def readWord (tag : UInt8) : Checked Cursor PulseError UInt32 := do
  expectTag tag
  let bytes ← take 4
  let word ← .orPanic (fourBytes bytes 0)
  return ofBe32 word

def readU32 : Checked Cursor PulseError UInt32 := readWord tagU32

def readVolume : Checked Cursor PulseError UInt32 := readWord tagVolume

def readU8 : Checked Cursor PulseError UInt8 := do
  expectTag tagU8
  takeByte

def readBoolean : Checked Cursor PulseError Bool := do
  let byte ← takeByte
  if byte = tagBooleanTrue then return true
  else if byte = tagBooleanFalse then return false
  else .fail (.invalidTag byte)

/-- The text up to the next zero byte. -/
def scanString : Checked Cursor PulseError String := fun c => do
  let rest ← c.buf.rangeFrom c.pos
  match rest.findIdx? (· = 0) with
  | none => some (.error .truncated, c)
  | some nul => do
      let stop ← addWord c.pos nul
      let bytes ← c.buf.range c.pos stop
      if maxLen < nul then some (.error .oversized, c)
      else
        match fromUtf8 bytes with
        | none => some (.error .invalidUtf8, c)
        | some s => do
            let next ← addWord stop 1
            return (.ok s, { c with pos := next })

def readString : Checked Cursor PulseError (Option String) := do
  let byte ← takeByte
  if byte = tagStringNull then return none
  else if byte = tagString then do
    let s ← scanString
    return some s
  else .fail (.invalidTag byte)

def readArbitrary : Checked Cursor PulseError Bytes := do
  expectTag tagArbitrary
  let lenBytes ← take 4
  let word ← .orPanic (fourBytes lenBytes 0)
  let len := ofBe32 word
  if maxLen < len.toNat then .fail .oversized else take len.toNat

/-- `copy_from_slice` panics if the lengths differ. -/
def readU64 : Checked Cursor PulseError UInt64 := do
  expectTag tagU64
  let bytes ← take 8
  let raw ← .orPanic (if bytes.length = 8 then some bytes else none)
  return ofBe64 raw

/-- The value of a property. -/
def readValue : Checked Cursor PulseError String := do
  let len ← readU32
  if maxLen < len.toNat then .fail .oversized
  else do
    let blob ← readArbitrary
    if blob.length ≠ len.toNat then .fail .truncated
    else
      match fromUtf8 blob with
      | none => .fail .invalidUtf8
      | some value => return value

/-- The body of the loop of `read_proplist`: a property, or the end of the list. -/
def readProperty : Checked Cursor PulseError (Option (String × String)) := do
  let byte ← peekByte
  if byte = tagString then do
    let key ← readString
    let value ← readValue
    return some (key.getD "", value)
  else if byte = tagStringNull then do
    let _ ← take 1
    return none
  else .fail (.invalidTag byte)

/-- The loop of `read_proplist`, as long as it makes fewer turns than the limit. -/
def readProperties : ℕ → Checked Cursor PulseError (List (String × String))
  | 0 => fun _ => none
  | limit + 1 => do
      match ← readProperty with
      | none => return []
      | some property =>
          let properties ← readProperties limit
          return property :: properties

/-- `read_proplist`. The loop has no limit, and none is reached that is greater than the number of
bytes. -/
def readProplist : Checked Cursor PulseError (List (String × String)) := do
  expectTag tagProplist
  fun c => readProperties (c.buf.bytes.length + 1) c

def readSampleSpec : Checked Cursor PulseError (UInt32 × UInt8 × UInt8) := do
  expectTag tagSampleSpec
  let bytes ← take 6
  let rate ← .orPanic (fourBytes bytes 2)
  let channels ← .orPanic bytes[1]?
  let format ← .orPanic bytes[0]?
  return (ofBe32 rate, channels, format)

def readCvolume : Checked Cursor PulseError (List UInt32) := do
  expectTag tagCvolume
  let count ← takeByte
  let count := count.toNat
  if maxLen < count then .fail .oversized
  else do
    let bytes ← take (count * 4)
    .orPanic ((List.range count).mapM fun i => (fourBytes bytes (i * 4)).map ofBe32)

def readChannelMap : Checked Cursor PulseError Bytes := do
  expectTag tagChannelMap
  let count ← takeByte
  take count.toNat

def skipChannelMap : Checked Cursor PulseError Unit := do
  let _ ← readChannelMap
  return ()

/-- The call that reads a field of a kind. -/
def read : Kind → Checked Cursor PulseError Field
  | .u8 => do return .u8 (← readU8)
  | .u32 => do return .u32 (← readU32)
  | .u64 => do return .u64 (← readU64)
  | .boolean => do return .boolean (← readBoolean)
  | .string => do return (← readString).elim .stringNull .string
  | .arbitrary => do return .arbitrary (← readArbitrary)
  | .proplist => do return .proplist (← readProplist)
  | .sampleSpec => do
      let spec ← readSampleSpec
      return .sampleSpec spec.1 spec.2.1 spec.2.2
  | .channelMap => do return .channelMap (← readChannelMap)
  | .volume => do return .volume (← readVolume)
  | .cvolume => do return .cvolume (← readCvolume)

/-! ### The accesses are in bounds -/

open Checked (Bounded bounded_pure bounded_fail bounded_orPanic bounded_orPanic_bind)

variable {c : Cursor}

/-- **`take` gives the next bytes, or nothing.** -/
theorem bounded_take (hc : c.InBounds) (n : ℕ) :
    Bounded (take n) c fun bytes c' =>
      bytes = (c.buf.bytes.drop c.pos).take n ∧ bytes.length = n ∧ c'.pos = c.pos + n := by
  rcases hsum : addWord c.pos n with _ | stop
  · refine ⟨.error .oversized, c, by rw [take, hsum], rfl, le_rfl, hc, fun a ha => ?_⟩
    cases ha
  · obtain rfl : c.pos + n = stop := by
      rw [addWord] at hsum
      split at hsum
      · exact Option.some.inj hsum
      · cases hsum
    by_cases hlen : c.buf.bytes.length < c.pos + n
    · refine ⟨.error .truncated, c, ?_, rfl, le_rfl, hc, fun a ha => by cases ha⟩
      rw [take, hsum]
      exact if_pos hlen
    · have hle : c.pos + n ≤ c.buf.bytes.length := Nat.not_lt.mp hlen
      refine ⟨.ok ((c.buf.bytes.drop c.pos).take n), ⟨c.buf, c.pos + n⟩, ?_, rfl,
        Nat.le_add_right _ _, hle, fun bytes hbytes => ?_⟩
      · rw [take, hsum]
        simp only [if_neg hlen, Slice.range_of_le hle]
        rfl
      · obtain rfl := Except.ok.inj hbytes
        refine ⟨rfl, ?_, rfl⟩
        rw [List.length_take, List.length_drop]
        omega

/-- A byte, and where it was. -/
theorem bounded_takeByte (hc : c.InBounds) :
    Bounded takeByte c fun byte c' => c.buf.bytes[c.pos]? = some byte ∧ c'.pos = c.pos + 1 := by
  refine (bounded_take hc 1).bind ?_
  rintro bytes c' - hin ⟨hbytes, hlen, hpos⟩
  obtain ⟨byte, rfl⟩ := List.length_eq_one_iff.mp hlen
  have hget : c.buf.bytes[c.pos]? = some byte := by
    have hhead := congrArg List.head? hbytes
    rw [List.head?_take, if_neg (by decide), List.head?_drop] at hhead
    exact hhead.symm
  exact bounded_orPanic hin rfl ⟨hget, hpos⟩

theorem bounded_peekByte (hc : c.InBounds) :
    Bounded peekByte c fun byte c' => c.buf.bytes[c.pos]? = some byte ∧ c' = c := by
  rcases hget : c.buf.bytes[c.pos]? with _ | byte
  · refine ⟨.error .truncated, c, by rw [peekByte, hget], rfl, le_rfl, hc, fun a ha => ?_⟩
    cases ha
  · refine ⟨.ok byte, c, by rw [peekByte, hget], rfl, le_rfl, hc, fun a ha => ?_⟩
    exact ⟨congrArg some (Except.ok.inj ha), rfl⟩

theorem bounded_expectTag (hc : c.InBounds) (tag : UInt8) :
    Bounded (expectTag tag) c fun _ c' => c'.pos = c.pos + 1 := by
  refine (bounded_takeByte hc).bind fun byte c' _ hin h => ?_
  split
  · exact bounded_fail hin _
  · exact bounded_pure hin h.2

/-- Four bytes that are there. -/
theorem exists_fourBytes {bytes : Bytes} {i : ℕ} (h : i + 4 ≤ bytes.length) :
    fourBytes bytes i = some ((bytes.drop i).take 4) := by
  have h0 : i < bytes.length := by omega
  have h1 : i + 1 < bytes.length := by omega
  have h2 : i + 2 < bytes.length := by omega
  have h3 : i + 3 < bytes.length := by omega
  simp only [fourBytes, List.getElem?_eq_getElem h0, List.getElem?_eq_getElem h1,
    List.getElem?_eq_getElem h2, List.getElem?_eq_getElem h3, Option.bind_eq_bind,
    Option.bind_some, Option.pure_def]
  rw [List.drop_eq_getElem_cons h0, List.drop_eq_getElem_cons h1, List.drop_eq_getElem_cons h2,
    List.drop_eq_getElem_cons h3]
  rfl

theorem bounded_readWord (hc : c.InBounds) (tag : UInt8) :
    Bounded (readWord tag) c fun _ c' => c'.pos = c.pos + 5 := by
  refine (bounded_expectTag hc tag).bind fun _ c₁ _ hin₁ h₁ => ?_
  refine (bounded_take hin₁ 4).bind fun bytes c₂ _ hin₂ ⟨_, hlen, hpos⟩ => ?_
  exact bounded_orPanic_bind (exists_fourBytes (by omega)) (bounded_pure hin₂ (by omega))

theorem bounded_readU8 (hc : c.InBounds) : Bounded readU8 c fun _ c' => c'.pos = c.pos + 2 := by
  refine (bounded_expectTag hc tagU8).bind fun _ c₁ _ hin₁ h₁ => ?_
  exact (bounded_takeByte hin₁).mono fun _ c₂ _ h₂ => by omega

theorem bounded_readBoolean (hc : c.InBounds) :
    Bounded readBoolean c fun _ c' => c'.pos = c.pos + 1 := by
  refine (bounded_takeByte hc).bind fun byte c₁ _ hin₁ h₁ => ?_
  split
  · exact bounded_pure hin₁ h₁.2
  · split
    · exact bounded_pure hin₁ h₁.2
    · exact bounded_fail hin₁ _

/-- **The scan stays in the buffer**: the zero byte that it finds is there. -/
theorem bounded_scanString (hc : c.InBounds) :
    Bounded scanString c fun s c' => c'.pos = c.pos + ((utf8 s).length + 1) := by
  have hrest : c.buf.rangeFrom c.pos = some (c.buf.bytes.drop c.pos) := if_pos hc
  rcases hfind : (c.buf.bytes.drop c.pos).findIdx? (· = 0) with _ | nul
  · refine ⟨.error .truncated, c, ?_, rfl, le_rfl, hc, fun a ha => by cases ha⟩
    simp only [scanString, hrest, Option.bind_eq_bind, Option.bind_some, hfind]
  · obtain ⟨hnul, -, -⟩ := List.findIdx?_eq_some_iff_getElem.mp hfind
    rw [List.length_drop] at hnul
    have hlt : c.pos + nul < c.buf.bytes.length := by omega
    have hstop : addWord c.pos nul = some (c.pos + nul) := addWord_of_le hlt.le
    have hnext : addWord (c.pos + nul) 1 = some (c.pos + nul + 1) := addWord_of_le hlt
    have hbytes := Slice.range_of_le hlt.le
    have heq : scanString c =
        if maxLen < nul then some (.error .oversized, c)
        else
          match fromUtf8 ((c.buf.bytes.drop c.pos).take nul) with
          | none => some (.error .invalidUtf8, c)
          | some s => some (.ok s, ⟨c.buf, c.pos + nul + 1⟩) := by
      simp only [scanString, hrest, hfind, hstop, hbytes, hnext, Option.bind_eq_bind,
        Option.bind_some, Option.pure_def]
    by_cases hlen : maxLen < nul
    · rw [if_pos hlen] at heq
      exact ⟨_, c, heq, rfl, le_rfl, hc, fun a ha => by cases ha⟩
    · rw [if_neg hlen] at heq
      rcases hutf8 : fromUtf8 ((c.buf.bytes.drop c.pos).take nul) with _ | s
      · rw [hutf8] at heq
        exact ⟨_, c, heq, rfl, le_rfl, hc, fun a ha => by cases ha⟩
      · rw [hutf8] at heq
        refine ⟨_, _, heq, rfl, by dsimp only; omega, hlt, fun t ht => ?_⟩
        obtain rfl := Except.ok.inj ht
        rw [utf8_of_fromUtf8 hutf8, List.length_take, List.length_drop]
        dsimp only
        omega

/-- A text, or the tag that says that there is none. -/
theorem bounded_readString (hc : c.InBounds) :
    Bounded readString c fun s c' =>
      c'.pos = c.pos + (s.elim Field.stringNull Field.string).bytes.length ∧
        (s = none → c.buf.bytes[c.pos]? = some tagStringNull) := by
  refine (bounded_takeByte hc).bind fun byte c₁ _ hin₁ ⟨hbyte, hpos⟩ => ?_
  split
  · rename_i hnull
    exact bounded_pure hin₁ ⟨hpos, fun _ => hnull ▸ hbyte⟩
  · split
    · refine ((bounded_scanString hin₁).mono fun s c₂ _ h₂ => ?_).map
      refine ⟨?_, fun h => by cases h⟩
      simp only [Option.elim_some, Field.bytes, List.length_cons, List.length_append,
        List.length_nil]
      omega
    · exact bounded_fail hin₁ _

theorem bounded_readArbitrary (hc : c.InBounds) :
    Bounded readArbitrary c fun data c' => c'.pos = c.pos + (5 + data.length) := by
  refine (bounded_expectTag hc tagArbitrary).bind fun _ c₁ _ hin₁ h₁ => ?_
  refine (bounded_take hin₁ 4).bind fun lenBytes c₂ _ hin₂ ⟨_, hlen, hpos⟩ => ?_
  refine bounded_orPanic_bind (exists_fourBytes (by omega)) ?_
  dsimp only
  split
  · exact bounded_fail hin₂ _
  · refine (bounded_take hin₂ _).mono fun data c₃ _ ⟨_, hdata, hpos₃⟩ => ?_
    omega

theorem bounded_readU64 (hc : c.InBounds) : Bounded readU64 c fun _ c' => c'.pos = c.pos + 9 := by
  refine (bounded_expectTag hc tagU64).bind fun _ c₁ _ hin₁ h₁ => ?_
  refine (bounded_take hin₁ 8).bind fun bytes c₂ _ hin₂ ⟨_, hlen, hpos⟩ => ?_
  exact bounded_orPanic_bind (if_pos hlen) (bounded_pure hin₂ (by omega))

theorem bounded_readValue (hc : c.InBounds) :
    Bounded readValue c fun value c' => c'.pos = c.pos + (TagReader.valueBytes value).length := by
  refine (bounded_readWord hc tagU32).bind fun len c₁ _ hin₁ h₁ => ?_
  split
  · exact bounded_fail hin₁ _
  · refine (bounded_readArbitrary hin₁).bind fun blob c₂ _ hin₂ h₂ => ?_
    split
    · exact bounded_fail hin₂ _
    · rcases hutf8 : fromUtf8 blob with _ | value
      · exact bounded_fail hin₂ _
      · refine bounded_pure hin₂ ?_
        simp only [TagReader.valueBytes, List.length_append, List.length_cons, Format.length_be32,
          utf8_of_fromUtf8 hutf8]
        omega

/-- **One turn of the loop**: a property takes the bytes of this property, and the end one byte. -/
theorem bounded_readProperty (hc : c.InBounds) :
    Bounded readProperty c fun property c' =>
      c'.pos = c.pos +
        property.elim 1 fun property => (TagReader.propertyBytes property).length := by
  refine (bounded_peekByte hc).bind ?_
  rintro byte c' - - ⟨hbyte, rfl⟩
  split
  · rename_i htag
    refine (bounded_readString hc).bind fun key c₁ _ hin₁ ⟨h₁, hnone⟩ => ?_
    refine ((bounded_readValue hin₁).mono fun value c₂ _ h₂ => ?_).map
    cases key with
    | none =>
      -- the byte that was seen is the tag of a text
      rw [hbyte, htag] at hnone
      exact absurd (hnone rfl) (by decide)
    | some key =>
      simp only [Option.elim_some, TagReader.propertyBytes, List.length_append, Option.getD_some]
      simp only [Option.elim_some, Field.bytes] at h₁
      rw [h₂, h₁, Nat.add_assoc]
  · split
    · exact (bounded_take hc 1).bind fun _ c₁ _ hin₁ h₁ => bounded_pure hin₁ h₁.2.2
    · exact bounded_fail hc _

/-- A turn of the loop that gives a property takes a byte at least. -/
theorem remaining_lt_of_property {c₁ : Cursor} {property : String × String}
    (hbuf : c₁.buf = c.buf) (hin : c₁.InBounds)
    (hpos : c₁.pos = c.pos + (some property).elim 1 fun property =>
      (TagReader.propertyBytes property).length) :
    c₁.buf.bytes.length - c₁.pos < c.buf.bytes.length - c.pos := by
  have hle : c₁.pos ≤ c₁.buf.bytes.length := hin
  rw [Option.elim_some, TagReader.propertyBytes, List.length_append, List.length_cons] at hpos
  rw [hbuf] at hle ⊢
  omega

/-- **The loop ends**: every turn but the last takes a byte at least, so there are no more
properties than bytes. -/
theorem bounded_readProperties (limit : ℕ) (hc : c.InBounds)
    (hlimit : c.buf.bytes.length - c.pos < limit) :
    Bounded (readProperties limit) c fun properties c' =>
      c'.pos = c.pos + ((properties.flatMap TagReader.propertyBytes).length + 1) := by
  induction limit generalizing c with
  | zero => exact absurd hlimit (Nat.not_lt_zero _)
  | succ limit ih =>
    refine (bounded_readProperty hc).bind fun property c₁ hbuf hin₁ h₁ => ?_
    cases property with
    | none => exact bounded_pure hin₁ h₁
    | some property =>
      have hleft : c₁.buf.bytes.length - c₁.pos < limit :=
        lt_of_lt_of_le (remaining_lt_of_property hbuf hin₁ h₁) (Nat.le_of_lt_succ hlimit)
      refine ((ih hin₁ hleft).mono fun properties c₂ _ h₂ => ?_).map
      rw [Option.elim_some] at h₁
      rw [List.flatMap_cons, List.length_append]
      omega

/-- Any limit will do that is greater than the number of bytes that are left. -/
theorem readProperties_eq_of_lt {m n : ℕ} (hc : c.InBounds)
    (hm : c.buf.bytes.length - c.pos < m) (hn : c.buf.bytes.length - c.pos < n) :
    readProperties m c = readProperties n c := by
  induction m generalizing n c with
  | zero => exact absurd hm (Nat.not_lt_zero _)
  | succ m ih =>
    obtain ⟨n, rfl⟩ := Nat.exists_eq_add_one_of_ne_zero (Nat.ne_zero_of_lt hn)
    obtain ⟨result, c₁, heq, hbuf, -, hin₁, hvalue⟩ := bounded_readProperty hc
    rw [readProperties, readProperties]
    cases result with
    | error e => rw [Checked.bind_of_error heq, Checked.bind_of_error heq]
    | ok property =>
      rw [Checked.bind_of_ok heq, Checked.bind_of_ok heq]
      cases property with
      | none => rfl
      | some property =>
        have hlt := remaining_lt_of_property hbuf hin₁ (hvalue _ rfl)
        have hrest := ih hin₁ (hlt.trans_le (Nat.le_of_lt_succ hm))
          (hlt.trans_le (Nat.le_of_lt_succ hn))
        exact Checked.bind_congr hrest _

theorem bounded_readProplist (hc : c.InBounds) :
    Bounded readProplist c fun pairs c' =>
      c'.pos = c.pos + (Field.proplist pairs).bytes.length := by
  refine (bounded_expectTag hc tagProplist).bind fun _ c₁ _ hin₁ h₁ => ?_
  refine (bounded_readProperties (c₁.buf.bytes.length + 1) hin₁ (by omega)).mono
    fun pairs c₂ _ h₂ => ?_
  simp only [Field.bytes, List.length_cons, List.length_append, List.length_nil]
  omega

theorem bounded_readSampleSpec (hc : c.InBounds) :
    Bounded readSampleSpec c fun _ c' => c'.pos = c.pos + 7 := by
  refine (bounded_expectTag hc tagSampleSpec).bind fun _ c₁ _ hin₁ h₁ => ?_
  refine (bounded_take hin₁ 6).bind fun bytes c₂ _ hin₂ ⟨_, hlen, hpos⟩ => ?_
  refine bounded_orPanic_bind (exists_fourBytes (by omega)) ?_
  refine bounded_orPanic_bind (List.getElem?_eq_getElem (show 1 < bytes.length by omega)) ?_
  refine bounded_orPanic_bind (List.getElem?_eq_getElem (show 0 < bytes.length by omega)) ?_
  exact bounded_pure hin₂ (by omega)

/-- The volumes are where they are looked for. -/
theorem mapM_fourBytes {bytes : Bytes} {count : ℕ} (h : bytes.length = count * 4) :
    (List.range count).mapM (fun i => (fourBytes bytes (i * 4)).map ofBe32) =
      some ((blocks 4 count bytes).map ofBe32) := by
  rw [blocks, List.map_map]
  refine Machine.mapM_eq_some_map fun i hi => ?_
  rw [List.mem_range] at hi
  rw [exists_fourBytes (by omega)]
  rfl

theorem bounded_readCvolume (hc : c.InBounds) :
    Bounded readCvolume c fun volumes c' => c'.pos = c.pos + (2 + volumes.length * 4) := by
  refine (bounded_expectTag hc tagCvolume).bind fun _ c₁ _ hin₁ h₁ => ?_
  refine (bounded_takeByte hin₁).bind fun count c₂ _ hin₂ h₂ => ?_
  dsimp only
  split
  · exact bounded_fail hin₂ _
  · refine (bounded_take hin₂ _).bind fun bytes c₃ _ hin₃ ⟨_, hlen, hpos⟩ => ?_
    refine bounded_orPanic hin₃ (mapM_fourBytes hlen) ?_
    rw [List.length_map, blocks, List.length_map, List.length_range]
    omega

theorem bounded_readChannelMap (hc : c.InBounds) :
    Bounded readChannelMap c fun positions c' => c'.pos = c.pos + (2 + positions.length) := by
  refine (bounded_expectTag hc tagChannelMap).bind fun _ c₁ _ hin₁ h₁ => ?_
  refine (bounded_takeByte hin₁).bind fun count c₂ _ hin₂ h₂ => ?_
  exact (bounded_take hin₂ _).mono fun positions c₃ _ ⟨_, hlen, hpos⟩ => by omega

/-- **A field that is read has moved the position by its size.** -/
theorem bounded_read (hc : c.InBounds) (k : Kind) :
    Bounded (read k) c fun f c' => c'.pos = c.pos + f.bytes.length := by
  cases k with
  | u8 => exact (bounded_readU8 hc).map
  | u32 => exact ((bounded_readWord hc tagU32).mono fun _ _ _ h => by simpa [Field.bytes]).map
  | u64 => exact ((bounded_readU64 hc).mono fun _ _ _ h => by simpa [Field.bytes]).map
  | boolean => exact (bounded_readBoolean hc).map
  | string => exact ((bounded_readString hc).mono fun _ _ _ h => h.1).map
  | arbitrary =>
    refine ((bounded_readArbitrary hc).mono fun data c' _ h => ?_).map
    simp only [Field.bytes, List.length_cons, List.length_append, Format.length_be32]
    omega
  | proplist => exact (bounded_readProplist hc).map
  | sampleSpec => exact ((bounded_readSampleSpec hc).mono fun _ _ _ h => by simpa [Field.bytes]).map
  | channelMap =>
    refine ((bounded_readChannelMap hc).mono fun positions c' _ h => ?_).map
    simp only [Field.bytes, List.length_cons]
    omega
  | volume => exact ((bounded_readWord hc tagVolume).mono fun _ _ _ h => by simpa [Field.bytes]).map
  | cvolume =>
    refine ((bounded_readCvolume hc).mono fun volumes c' _ h => ?_).map
    have hwords : (volumes.flatMap be32).length = volumes.length * 4 :=
      length_flatMap_of_forall Format.length_be32 volumes
    simp only [Field.bytes, List.length_cons, hwords]
    omega

/-! ### Any calls -/

/-- A call of the reader. -/
inductive Call where
  | read (k : Kind)
  | skipChannelMap
  | offset
  | remaining
  | isEmpty

/-- What it returns. -/
inductive Answer where
  | field (f : Field)
  | skipped
  | offset (n : ℕ)
  | remaining (n : ℕ)
  | isEmpty (b : Bool)

def Call.run : Call → Checked Cursor PulseError Answer
  | .read k => do return .field (← TagCursor.read k)
  | .skipChannelMap => do
      let _ ← TagCursor.skipChannelMap
      return .skipped
  | .offset => do return .offset (← TagCursor.offset)
  | .remaining => do return .remaining (← TagCursor.remaining)
  | .isEmpty => do return .isEmpty (← TagCursor.isEmpty)

/-- **The position has moved by the size of what was returned**, or of the map that was skipped. -/
def Answer.Advances (c : Cursor) : Answer → Cursor → Prop
  | .field f, c' => c'.pos = c.pos + f.bytes.length
  | .skipped, c' => ∃ positions, readChannelMap c = some (.ok positions, c') ∧
      c'.pos = c.pos + (Field.channelMap positions).bytes.length
  | .offset n, c' => c' = c ∧ n = c.pos
  | .remaining n, c' => c' = c ∧ c.pos + n = c.buf.bytes.length
  | .isEmpty b, c' => c' = c ∧ (b = true ↔ c.pos = c.buf.bytes.length)

/-- The cursor after a call, whatever the call has returned. -/
def step (c : Cursor) (call : Call) : Option Cursor := (call.run c).map Prod.snd

theorem bounded_remaining (hc : c.InBounds) :
    Bounded remaining c fun n c' => c' = c ∧ c.pos + n = c.buf.bytes.length := by
  have hle : c.pos ≤ c.buf.bytes.length := hc
  refine ⟨_, c, if_pos hle, rfl, le_rfl, hc, fun n hn => ⟨rfl, ?_⟩⟩
  obtain rfl := Except.ok.inj hn
  omega

theorem bounded_run (hc : c.InBounds) (call : Call) :
    Bounded call.run c fun answer c' => answer.Advances c c' := by
  cases call with
  | read k => exact (bounded_read hc k).map
  | skipChannelMap =>
    obtain ⟨result, c', heq, hbuf, hle, hin, hvalue⟩ := bounded_readChannelMap hc
    cases result with
    | error e =>
      refine ⟨.error e, c', ?_, hbuf, hle, hin, fun a ha => by cases ha⟩
      exact Checked.bind_of_error (Checked.bind_of_error heq _) _
    | ok positions =>
      refine ⟨.ok .skipped, c', ?_, hbuf, hle, hin, fun a ha => ?_⟩
      · exact Checked.bind_of_ok (Checked.bind_of_ok heq _) _
      · obtain rfl := Except.ok.inj ha
        refine ⟨positions, heq, ?_⟩
        have hpos := hvalue positions rfl
        simp only [Field.bytes, List.length_cons]
        omega
  | offset =>
    have hoffset : Bounded offset c fun n c' => c' = c ∧ n = c.pos :=
      ⟨.ok c.pos, c, rfl, rfl, le_rfl, hc, fun n hn => ⟨rfl, (Except.ok.inj hn).symm⟩⟩
    exact hoffset.map
  | remaining => exact (bounded_remaining hc).map
  | isEmpty =>
    refine Bounded.map ((bounded_remaining hc).bind fun n c' _ hin h => ?_)
    obtain ⟨rfl, hn⟩ := h
    refine bounded_pure hin ⟨rfl, ?_⟩
    rw [decide_eq_true_iff]
    omega

/-- One call after the other. -/
theorem exists_run (hc : c.InBounds) (calls : List Call) :
    ∃ c', Transition.run step c calls = some c' ∧ c'.buf = c.buf ∧ c'.InBounds := by
  induction calls generalizing c with
  | nil => exact ⟨c, rfl, rfl, hc⟩
  | cons call calls ih =>
    obtain ⟨result, c₁, heq, hbuf, -, hin, -⟩ := bounded_run hc call
    obtain ⟨c', hrun, hbuf', hin'⟩ := ih hin
    have hstep : step c call = some c₁ := by rw [step, heq, Option.map_some]
    exact ⟨c', (Transition.run_of_step hstep calls).trans hrun, hbuf'.trans hbuf, hin'⟩

/-- **Whatever is in the buffer and whatever is called**, no call panics; the position stays in the
buffer and does not move back, whatever the calls return, and a call that returns a value moves it
by the size of this value; and the loop over properties makes no more turns than there are bytes
left, and one. -/
theorem calls_bounded (buf : Slice) (calls : List Call) :
    (∃ c, Transition.run step (new buf) calls = some c ∧ c.buf = buf ∧ c.InBounds) ∧
    (∀ done call left, calls = done ++ call :: left →
      ∃ c result c', Transition.run step (new buf) done = some c ∧
        call.run c = some (result, c') ∧ c'.buf = buf ∧ c.pos ≤ c'.pos ∧
        c'.pos ≤ buf.bytes.length ∧ ∀ answer, result = .ok answer → answer.Advances c c') ∧
    ∀ c : Cursor, c.InBounds → ∃ outcome, ∀ limit, c.buf.bytes.length - c.pos < limit →
      readProperties limit c = some outcome := by
  have hnew : (new buf).InBounds := Nat.zero_le _
  refine ⟨exists_run hnew calls, fun done call left _ => ?_, fun c hc => ?_⟩
  · obtain ⟨c, hrun, hbuf, hin⟩ := exists_run hnew done
    obtain ⟨result, c', heq, hbuf', hle, hin', hvalue⟩ := bounded_run hin call
    have hsame : c'.buf = buf := hbuf'.trans hbuf
    exact ⟨c, result, c', hrun, heq, hsame, hle, hsame ▸ hin', hvalue⟩
  · obtain ⟨result, c', heq, -⟩ := bounded_readProperties _ hc (Nat.lt_succ_self _)
    exact ⟨(result, c'), fun limit hlimit =>
      (readProperties_eq_of_lt hc hlimit (Nat.lt_succ_self _)).trans heq⟩

end TagCursor

end GwPulse

end SonicBrew
