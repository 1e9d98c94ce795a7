import SonicBrew.Lib.Blocks
import SonicBrew.Lib.Reading

/-!
# Tagged fields

The body of a message to the sound server is a sequence of typed fields, each behind a byte that
says what it is. Their framings differ: a truth value is its tag alone, numbers have a fixed
size, a text ends at the first zero byte, a blob says how long it is, a list of properties says
so twice for every value and ends with the tag of an absent text, and the maps and volumes of
channels begin with a count.

The writer (`SonicBrew.GwPulse.TagWriter`) appends to a buffer and panics – the model returns
`none` – when a length does not fit its field. The reader (`SonicBrew.GwPulse.TagReader`) moves
along a buffer, and a failed read leaves it where the failure happened. It never moves back, which
is why the loop over a list of properties ends.
-/

namespace SonicBrew

namespace GwPulse

open Format (be32 ofBe32 be64 ofBe64)

/-- `MAX_LEN`: four mebibytes. -/
def maxLen : ℕ := 4 * 1024 * 1024

/-- The length of what keeps to this limit fits four bytes. -/
theorem maxLen_lt : maxLen < 2 ^ 32 := by decide

/-- The errors of the wire codec. -/
inductive PulseError where
  | truncated
  | invalidTag (byte : UInt8)
  | invalidSampleFormat (byte : UInt8)
  | oversized
  | invalidUtf8
  deriving DecidableEq, Repr

/-! ### The tags -/

/-- `'L'` -/
def tagU32 : UInt8 := 0x4C

/-- `'B'` -/
def tagU8 : UInt8 := 0x42

/-- `'1'` -/
def tagBooleanTrue : UInt8 := 0x31

/-- `'0'` -/
def tagBooleanFalse : UInt8 := 0x30

/-- `'t'` -/
def tagString : UInt8 := 0x74

/-- `'N'` -/
def tagStringNull : UInt8 := 0x4E

/-- `'x'` -/
def tagArbitrary : UInt8 := 0x78

/-- `'R'` -/
def tagU64 : UInt8 := 0x52

/-- `'P'` -/
def tagProplist : UInt8 := 0x50

/-- `'v'` -/
def tagVolume : UInt8 := 0x76

/-- `'a'` -/
def tagSampleSpec : UInt8 := 0x61

/-- `'m'` -/
def tagChannelMap : UInt8 := 0x6D

/-- `'v'`, the tag of a single volume -/
def tagCvolume : UInt8 := 0x76

/-! ### The writer -/

/-- A buffer that fields are appended to. -/
structure TagWriter where
  buf : Bytes
  deriving DecidableEq, Repr

namespace TagWriter

def new : TagWriter := ⟨[]⟩

/-- Bytes behind those that are there. -/
def push (w : TagWriter) (b : Bytes) : TagWriter := ⟨w.buf ++ b⟩

theorem push_push (w : TagWriter) (b b' : Bytes) : (w.push b).push b' = w.push (b ++ b') :=
  congrArg TagWriter.mk (List.append_assoc _ _ _)

theorem push_nil (w : TagWriter) : w.push [] = w := congrArg TagWriter.mk (List.append_nil _)

def u32 (w : TagWriter) (value : UInt32) : TagWriter := w.push (tagU32 :: be32 value)

def u8 (w : TagWriter) (value : UInt8) : TagWriter := w.push [tagU8, value]

def boolean (w : TagWriter) (value : Bool) : TagWriter :=
  w.push [if value then tagBooleanTrue else tagBooleanFalse]

/-- No length: the text and a zero byte. -/
def string (w : TagWriter) (value : String) : TagWriter :=
  w.push (tagString :: (utf8 value ++ [0]))

def stringNull (w : TagWriter) : TagWriter := w.push [tagStringNull]

/-- The length has to fit four bytes. -/
def arbitrary (w : TagWriter) (data : Bytes) : Option TagWriter :=
  if data.length < 2 ^ 32 then
    some (w.push (tagArbitrary :: (be32 (UInt32.ofNat data.length) ++ data)))
  else none

def u64 (w : TagWriter) (value : UInt64) : TagWriter := w.push (tagU64 :: be64 value)

/-- The loop of `proplist`: a key, and the value with its length in front of it twice. -/
def properties (w : TagWriter) : List (String × String) → Option TagWriter
  | [] => some w
  | (key, value) :: pairs =>
      if (utf8 value).length < 2 ^ 32 then do
        let w := w.string key
        let w := w.u32 (UInt32.ofNat (utf8 value).length)
        let w ← w.arbitrary (utf8 value)
        properties w pairs
      else none

def proplist (w : TagWriter) (pairs : List (String × String)) : Option TagWriter := do
  let w := w.push [tagProplist]
  let w ← w.properties pairs
  return w.stringNull

/-- Format, channels, rate. -/
def sampleSpec (w : TagWriter) (sampleRate : UInt32) (channels format : UInt8) : TagWriter :=
  w.push (tagSampleSpec :: format :: channels :: be32 sampleRate)

/-- The count has to fit a byte. -/
def channelMap (w : TagWriter) (positions : Bytes) : Option TagWriter :=
  if positions.length < 256 then
    some (w.push (tagChannelMap :: UInt8.ofNat positions.length :: positions))
  else none

def volume (w : TagWriter) (value : UInt32) : TagWriter := w.push (tagVolume :: be32 value)

/-- Count and volumes without tags of their own. -/
def cvolume (w : TagWriter) (volumes : List UInt32) : Option TagWriter :=
  if volumes.length < 256 then
    some (w.push (tagCvolume :: UInt8.ofNat volumes.length :: volumes.flatMap be32))
  else none

def intoBytes (w : TagWriter) : Bytes := w.buf

end TagWriter

/-! ### The reader -/

/-- A buffer and a position in it. -/
@[ext] structure TagReader where
  buf : Bytes
  pos : ℕ
  pos_le : pos ≤ buf.length

namespace TagReader

def new (buf : Bytes) : TagReader := ⟨buf, 0, Nat.zero_le _⟩

def offset (r : TagReader) : ℕ := r.pos

def remaining (r : TagReader) : ℕ := r.buf.length - r.pos

def isEmpty (r : TagReader) : Bool := r.remaining = 0

/-- The position moves on, to the end of the buffer at most. -/
def advance (n : ℕ) (r : TagReader) : TagReader :=
  ⟨r.buf, min (r.pos + n) r.buf.length, min_le_right _ _⟩

instance : Input TagReader where
  ahead r := r.buf.drop r.pos
  advance := advance
  ahead_advance n r := by
    change r.buf.drop (min (r.pos + n) r.buf.length) = (r.buf.drop r.pos).drop n
    rw [List.drop_drop]
    rcases le_total (r.pos + n) r.buf.length with h | h
    · rw [min_eq_left h]
    · rw [min_eq_right h, List.drop_length, List.drop_eq_nil_of_le h]
  advance_zero r := TagReader.ext rfl (min_eq_left r.pos_le)
  advance_advance m n r := by
    refine TagReader.ext rfl ?_
    change min (min (r.pos + m) r.buf.length + n) r.buf.length = min (r.pos + (m + n)) r.buf.length
    omega

/-- The next `n` bytes. -/
def take (n : ℕ) : Reading TagReader PulseError Bytes := fun r =>
  if r.buf.length < r.pos + n then (.error .truncated, r)
  else (.ok ((r.buf.drop r.pos).take n), r.advance n)

/-- `take(1)?[0]`, which is also `read_u8_raw`. -/
def takeByte : Reading TagReader PulseError UInt8 := do
  let bytes ← take 1
  return bytes.headD 0

def peekByte : Reading TagReader PulseError UInt8 := fun r =>
  match r.buf[r.pos]? with
  | some byte => (.ok byte, r)
  | none => (.error .truncated, r)

def expectTag (expected : UInt8) : Reading TagReader PulseError Unit := do
  let byte ← takeByte
  if byte ≠ expected then .fail (.invalidTag byte) else return ()

def readU32 : Reading TagReader PulseError UInt32 := do
  expectTag tagU32
  let bytes ← take 4
  return ofBe32 bytes

def readU8 : Reading TagReader PulseError UInt8 := do
  expectTag tagU8
  takeByte

def readBoolean : Reading TagReader PulseError Bool := do
  let byte ← takeByte
  if byte = tagBooleanTrue then return true
  else if byte = tagBooleanFalse then return false
  else .fail (.invalidTag byte)

/-- The text up to the next zero byte. -/
def scanString : Reading TagReader PulseError String := fun r =>
  let rest := r.buf.drop r.pos
  match rest.findIdx? (· = 0) with
  | none => (.error .truncated, r)
  | some nul =>
      if maxLen < nul then (.error .oversized, r)
      else
        match fromUtf8 (rest.take nul) with
        | none => (.error .invalidUtf8, r)
        | some s => (.ok s, r.advance (nul + 1))

def readString : Reading TagReader PulseError (Option String) := do
  let byte ← takeByte
  if byte = tagStringNull then return none
  else if byte = tagString then do
    let s ← scanString
    return some s
  else .fail (.invalidTag byte)

def readArbitrary : Reading TagReader PulseError Bytes := do
  expectTag tagArbitrary
  let lenBytes ← take 4
  let len := ofBe32 lenBytes
  if maxLen < len.toNat then .fail .oversized else take len.toNat

def readU64 : Reading TagReader PulseError UInt64 := do
  expectTag tagU64
  let bytes ← take 8
  return ofBe64 bytes

/-- The value of a property: a length, and a blob of this length that is a text. -/
def readValue : Reading TagReader PulseError String := do
  let len ← readU32
  if maxLen < len.toNat then .fail .oversized
  else do
    let blob ← readArbitrary
    if blob.length ≠ len.toNat then .fail .truncated
    else
      match fromUtf8 blob with
      | none => .fail .invalidUtf8
      | some value => return value

/-- The body of the loop of `read_proplist`: a property, or the end of the list. -/
def readProperty : Reading TagReader PulseError (Option (String × String)) := do
  let byte ← peekByte
  if byte = tagString then do
    let key ← readString
    let value ← readValue
    return some (key.getD "", value)
  else if byte = tagStringNull then do
    let _ ← take 1
    return none
  else .fail (.invalidTag byte)

/-! ### Readers move forward -/

/-- A reader keeps the buffer and does not move back. -/
def Forward {α : Type} (m : Reading TagReader PulseError α) : Prop :=
  ∀ r, (m r).2.buf = r.buf ∧ r.pos ≤ (m r).2.pos

section Forward

variable {α β : Type}

theorem forward_pure (a : α) : Forward (pure a) := fun _ => ⟨rfl, le_rfl⟩

theorem forward_fail (e : PulseError) : Forward (.fail e : Reading TagReader PulseError α) :=
  fun _ => ⟨rfl, le_rfl⟩

theorem Forward.bind {m : Reading TagReader PulseError α} {f : α → Reading TagReader PulseError β}
    (hm : Forward m) (hf : ∀ a, Forward (f a)) : Forward (m >>= f) := by
  intro r
  have hr := hm r
  rcases hres : m r with ⟨e | a, r'⟩
  · rw [hres] at hr
    rw [Reading.bind_of_error hres]
    exact hr
  · rw [hres] at hr
    rw [Reading.bind_of_ok hres]
    exact ⟨(hf a r').1.trans hr.1, hr.2.trans (hf a r').2⟩

theorem le_pos_advance (n : ℕ) (r : TagReader) : r.pos ≤ (r.advance n).pos :=
  le_min (Nat.le_add_right _ _) r.pos_le

theorem forward_take (n : ℕ) : Forward (take n) := by
  intro r
  rw [take]
  split
  · exact ⟨rfl, le_rfl⟩
  · exact ⟨rfl, le_pos_advance n r⟩

theorem forward_takeByte : Forward takeByte := (forward_take 1).bind fun _ => forward_pure _

theorem forward_expectTag (tag : UInt8) : Forward (expectTag tag) := by
  refine forward_takeByte.bind fun byte => ?_
  split
  · exact forward_fail _
  · exact forward_pure _

theorem forward_readU32 : Forward readU32 :=
  (forward_expectTag _).bind fun _ => (forward_take 4).bind fun _ => forward_pure _

theorem forward_readArbitrary : Forward readArbitrary := by
  refine (forward_expectTag _).bind fun _ => (forward_take 4).bind fun bytes => ?_
  dsimp only
  split
  · exact forward_fail _
  · exact forward_take _

theorem forward_scanString : Forward scanString := by
  intro r
  rw [scanString]
  split
  · exact ⟨rfl, le_rfl⟩
  · split
    · exact ⟨rfl, le_rfl⟩
    · split
      · exact ⟨rfl, le_rfl⟩
      · exact ⟨rfl, le_pos_advance _ r⟩

theorem forward_readValue : Forward readValue := by
  refine forward_readU32.bind fun len => ?_
  split
  · exact forward_fail _
  · refine forward_readArbitrary.bind fun blob => ?_
    split
    · exact forward_fail _
    · split
      · exact forward_fail _
      · exact forward_pure _

end Forward

/-- A byte that is taken is one byte less to come. -/
theorem takeByte_eq_ok {r r' : TagReader} {byte : UInt8} (h : takeByte r = (.ok byte, r')) :
    r'.buf = r.buf ∧ r.pos < r.buf.length ∧ r.pos < r'.pos := by
  obtain ⟨bytes, htake, -⟩ := Reading.map_eq_ok h
  rw [take] at htake
  split at htake
  · cases htake
  · obtain ⟨-, rfl⟩ := Prod.mk.inj htake
    refine ⟨rfl, by omega, ?_⟩
    change r.pos < min (r.pos + 1) r.buf.length
    omega

/-- A text that is there takes its tag at least. -/
theorem readString_eq_ok {r r' : TagReader} {s : Option String}
    (h : readString r = (.ok s, r')) : r'.buf = r.buf ∧ r.pos < r.buf.length ∧ r.pos < r'.pos := by
  obtain ⟨byte, r₁, hbyte, hrest⟩ := Reading.bind_eq_ok h
  obtain ⟨hbuf, hlt, hmove⟩ := takeByte_eq_ok hbyte
  have hforward : Forward (if byte = tagStringNull then pure none
      else if byte = tagString then do
        let s ← scanString
        return some s
      else .fail (.invalidTag byte) : Reading TagReader PulseError (Option String)) := by
    split
    · exact forward_pure _
    · split
      · exact forward_scanString.bind fun _ => forward_pure _
      · exact forward_fail _
  have hafter := hforward r₁
  rw [hrest] at hafter
  exact ⟨hafter.1.trans hbuf, hlt, hmove.trans_le hafter.2⟩

/-- **The loop of `read_proplist` makes progress.** -/
theorem remaining_of_readProperty {r r' : TagReader} {property : String × String}
    (h : readProperty r = (.ok (some property), r')) : r'.remaining < r.remaining := by
  obtain ⟨byte, r₀, hpeek, hbranch⟩ := Reading.bind_eq_ok h
  obtain rfl : r₀ = r := by
    rw [peekByte] at hpeek
    split at hpeek <;> exact (Prod.mk.inj hpeek).2.symm
  split at hbranch
  · -- the key moves the position, and the value does not move it back
    obtain ⟨key, r₁, hkey, hrest⟩ := Reading.bind_eq_ok hbranch
    obtain ⟨value, hvalue, -⟩ := Reading.map_eq_ok hrest
    obtain ⟨hbuf, hlt, hmove⟩ := readString_eq_ok hkey
    have hafter := forward_readValue r₁
    rw [hvalue] at hafter
    rw [remaining, remaining, hafter.1, hbuf]
    have hpos := hafter.2
    dsimp only at hpos
    omega
  · split at hbranch
    · obtain ⟨_, -, hnone⟩ := Reading.map_eq_ok hbranch
      cases hnone
    · cases hbranch

/-- The loop of `read_proplist`. -/
def readProperties (r : TagReader) : Except PulseError (List (String × String)) × TagReader :=
  match _ : readProperty r with
  | (.error e, r') => (.error e, r')
  | (.ok none, r') => (.ok [], r')
  | (.ok (some property), r') =>
      match readProperties r' with
      | (.error e, r'') => (.error e, r'')
      | (.ok properties, r'') => (.ok (property :: properties), r'')
termination_by r.remaining
decreasing_by exact remaining_of_readProperty ‹_›

def readProplist : Reading TagReader PulseError (List (String × String)) := do
  expectTag tagProplist
  readProperties

def readSampleSpec : Reading TagReader PulseError (UInt32 × UInt8 × UInt8) := do
  expectTag tagSampleSpec
  let bytes ← take 6
  return (ofBe32 (bytes.drop 2), bytes.getD 1 0, bytes.getD 0 0)

def readVolume : Reading TagReader PulseError UInt32 := do
  expectTag tagVolume
  let bytes ← take 4
  return ofBe32 bytes

def readCvolume : Reading TagReader PulseError (List UInt32) := do
  expectTag tagCvolume
  let count ← takeByte
  let count := count.toNat
  if maxLen < count then .fail .oversized
  else do
    let bytes ← take (count * 4)
    return (blocks 4 count bytes).map ofBe32

def readChannelMap : Reading TagReader PulseError Bytes := do
  expectTag tagChannelMap
  let count ← takeByte
  take count.toNat

end TagReader

end GwPulse

end SonicBrew
