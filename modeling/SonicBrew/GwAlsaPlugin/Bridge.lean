import Mathlib.Data.List.SplitLengths
import SonicBrew.AudioCore
import SonicBrew.Lib.Reading

/-!
# The bridge of the ALSA plugin

The plugin talks to the server over a socket. It offers a setup – direction, channels, rate – in
five words, the server echoes them, and from then on the socket carries samples and nothing else:
there are no frames, no lengths, no marks. How many samples the plugin hands over at a time is
its own affair, and how many the server asks for is the server's.

So two things have to be right. The handshake must be read exactly as it is meant
(`SonicBrew.GwAlsaPlugin.readHandshake_eq_ok`), and the samples must come out as they went in
however the two sides cut them up (`SonicBrew.GwAlsaPlugin.yields_recvFrames`).
-/

namespace SonicBrew

namespace GwAlsaPlugin

open Format (le32 ofLe32)

/-- `BRIDGE_MAGIC` -/
def bridgeMagic : UInt32 := 0x53424E52

/-- `BRIDGE_PROTO_VERSION` -/
def bridgeProtoVersion : UInt32 := 1

/-- `MAX_CHANNELS` -/
def maxChannels : UInt32 := 1024

/-- `MAX_RATE` -/
def maxRate : UInt32 := 768000

/-- The direction of a stream. -/
inductive StreamDir where
  | playback
  | capture
  deriving DecidableEq, Repr

namespace StreamDir

/-- The number of a direction on the wire. -/
def toU32 : StreamDir → UInt32
  | .playback => 0
  | .capture => 1

def fromU32 (v : UInt32) : Option StreamDir :=
  if v = 0 then some .playback else if v = 1 then some .capture else none

theorem fromU32_eq_some {v : UInt32} {dir : StreamDir} : fromU32 v = some dir ↔ v = dir.toU32 := by
  constructor
  · intro h
    rw [fromU32] at h
    split at h
    · cases h
      assumption
    · split at h
      · cases h
        assumption
      · cases h
  · rintro rfl
    cases dir <;> rfl

end StreamDir

/-- The five words of a handshake. -/
structure Handshake where
  magic : UInt32
  version : UInt32
  streamDir : StreamDir
  channels : UInt32
  rate : UInt32
  deriving DecidableEq, Repr

/-- What the plugin offers. -/
def Handshake.new (streamDir : StreamDir) (channels rate : UInt32) : Handshake :=
  ⟨bridgeMagic, bridgeProtoVersion, streamDir, channels, rate⟩

/-- A failure of the socket: it ends before a read is complete. -/
inductive IoError where
  | unexpectedEof
  deriving DecidableEq, Repr

inductive HandshakeError where
  | io (e : IoError)
  | badMagic (magic : UInt32)
  | unsupportedVersion (version : UInt32)
  | invalid (what : String)
  deriving DecidableEq, Repr

inductive OpenError where
  | io (e : IoError)
  | handshake (e : HandshakeError)
  | mismatch (offered echoed : Handshake)
  deriving DecidableEq, Repr

/-- The words of a handshake, in the order of the wire. -/
def Handshake.words (hs : Handshake) : List UInt32 :=
  [hs.magic, hs.version, hs.streamDir.toU32, hs.channels, hs.rate]

/-- The bytes that `write_handshake` sends. -/
def writeHandshake (hs : Handshake) : Bytes := hs.words.flatMap le32

/-- The `i`-th word of a handshake that has come in. -/
def word (buf : Bytes) (i : ℕ) : UInt32 := ofLe32 (block 4 i buf)

/-- The checks of `read_handshake`, in their order. -/
def checkHandshake (buf : Bytes) : Except HandshakeError Handshake :=
  if word buf 0 ≠ bridgeMagic then .error (.badMagic (word buf 0))
  else if word buf 1 ≠ bridgeProtoVersion then .error (.unsupportedVersion (word buf 1))
  else
    match StreamDir.fromU32 (word buf 2) with
    | none => .error (.invalid "stream_dir")
    | some streamDir =>
        if word buf 3 = 0 ∨ maxChannels < word buf 3 then .error (.invalid "channels")
        else if word buf 4 = 0 ∨ maxRate < word buf 4 then .error (.invalid "rate")
        else .ok ⟨word buf 0, word buf 1, streamDir, word buf 3, word buf 4⟩

def readHandshake : Reading Bytes HandshakeError Handshake := do
  let buf ← readExact 20 (.io .unexpectedEof)
  Reading.ofExcept (checkHandshake buf)

/-- The bytes that `send_frames` sends. -/
def sendFrames (samples : List F32) : Bytes := sampleBytes samples

/-- Receive exactly `n` samples. -/
def recvFramesInto (n : ℕ) : Reading Bytes IoError (List F32) := do
  let bytes ← readExact (n * 4) .unexpectedEof
  return samplesOf bytes

/-- What `connect` makes of the bytes that come back, once the offer is sent. -/
def connect (dir : StreamDir) (channels rate : UInt32) : Reading Bytes OpenError Handshake := do
  let offered := Handshake.new dir channels rate
  let echoed ← readHandshake.mapError .handshake
  if echoed.streamDir ≠ offered.streamDir ∨ echoed.channels ≠ offered.channels ∨
      echoed.rate ≠ offered.rate then .fail (.mismatch offered echoed)
  else return echoed

/-! ### The handshake -/

/-- **A valid handshake**: this protocol, and a setup that is in range. -/
structure Handshake.Valid (hs : Handshake) : Prop where
  magic : hs.magic = bridgeMagic
  version : hs.version = bridgeProtoVersion
  channels : 1 ≤ hs.channels ∧ hs.channels ≤ maxChannels
  rate : 1 ≤ hs.rate ∧ hs.rate ≤ maxRate

/-- **A block whose words are all in range.** -/
structure InRange (buf : Bytes) : Prop where
  magic : word buf 0 = bridgeMagic
  version : word buf 1 = bridgeProtoVersion
  streamDir : word buf 2 = 0 ∨ word buf 2 = 1
  channels : 1 ≤ word buf 3 ∧ word buf 3 ≤ maxChannels
  rate : 1 ≤ word buf 4 ∧ word buf 4 ≤ maxRate

theorem not_zero_or_lt {x bound : UInt32} : ¬(x = 0 ∨ bound < x) ↔ 1 ≤ x ∧ x ≤ bound := by
  rw [not_or, UInt32.not_lt, ← UInt32.toNat_inj, UInt32.le_iff_toNat_le, UInt32.le_iff_toNat_le]
  change ¬x.toNat = 0 ∧ _ ↔ 1 ≤ x.toNat ∧ _
  omega

/-- The words of a block. -/
def wordsOf (buf : Bytes) : List UInt32 :=
  [word buf 0, word buf 1, word buf 2, word buf 3, word buf 4]

theorem wordsOf_eq_blocks (buf : Bytes) : wordsOf buf = (blocks 4 5 buf).map ofLe32 := rfl

theorem words_eq_iff {hs : Handshake} {buf : Bytes} :
    hs.words = wordsOf buf ↔
      hs.magic = word buf 0 ∧ hs.version = word buf 1 ∧ hs.streamDir.toU32 = word buf 2 ∧
        hs.channels = word buf 3 ∧ hs.rate = word buf 4 := by
  simp only [Handshake.words, wordsOf, List.cons.injEq, and_true]

/-- **The checks pass exactly what has the words of a valid handshake.** -/
theorem checkHandshake_eq_ok {buf : Bytes} {hs : Handshake} :
    checkHandshake buf = .ok hs ↔ hs.Valid ∧ hs.words = wordsOf buf := by
  rw [checkHandshake, check_eq_ok, check_eq_ok, not_not, not_not]
  constructor
  · rintro ⟨hmagic, hversion, hrest⟩
    split at hrest
    · cases hrest
    · rename_i dir hdir
      rw [check_eq_ok, check_eq_ok, not_zero_or_lt, not_zero_or_lt] at hrest
      obtain ⟨hchannels, hrate, heq⟩ := hrest
      obtain rfl := Except.ok.inj heq
      rw [StreamDir.fromU32_eq_some] at hdir
      refine ⟨⟨hmagic, hversion, hchannels, hrate⟩, ?_⟩
      rw [wordsOf, hdir]
      rfl
  · rintro ⟨hvalid, hwords⟩
    obtain ⟨hmagic, hversion, hdir, hchannels, hrate⟩ := words_eq_iff.mp hwords
    rw [← hmagic, ← hversion, StreamDir.fromU32_eq_some.mpr hdir.symm, ← hchannels, ← hrate]
    refine ⟨hvalid.magic, hvalid.version, ?_⟩
    dsimp only
    rw [check_eq_ok, check_eq_ok, not_zero_or_lt, not_zero_or_lt]
    exact ⟨hvalid.channels, hvalid.rate, rfl⟩

theorem inRange_iff {buf : Bytes} :
    InRange buf ↔ ∃ hs : Handshake, hs.Valid ∧ hs.words = wordsOf buf := by
  constructor
  · intro h
    obtain ⟨dir, hdir⟩ : ∃ dir : StreamDir, dir.toU32 = word buf 2 := by
      rcases h.streamDir with hzero | hone
      · exact ⟨.playback, hzero.symm⟩
      · exact ⟨.capture, hone.symm⟩
    refine ⟨⟨word buf 0, word buf 1, dir, word buf 3, word buf 4⟩,
      ⟨h.magic, h.version, h.channels, h.rate⟩, ?_⟩
    rw [Handshake.words, hdir, wordsOf]
  · rintro ⟨hs, hvalid, hwords⟩
    obtain ⟨hmagic, hversion, hdir, hchannels, hrate⟩ := words_eq_iff.mp hwords
    refine ⟨hmagic ▸ hvalid.magic, hversion ▸ hvalid.version, ?_, hchannels ▸ hvalid.channels,
      hrate ▸ hvalid.rate⟩
    rw [← hdir]
    cases hs.streamDir with
    | playback => exact Or.inl rfl
    | capture => exact Or.inr rfl

@[simp] theorem length_writeHandshake (hs : Handshake) : (writeHandshake hs).length = 20 :=
  length_flatMap_of_forall Format.length_le32 hs.words

/-- Twenty bytes have the words of a handshake exactly if they are what is sent for it. -/
theorem words_eq_wordsOf {buf : Bytes} (h : buf.length = 20) (hs : Handshake) :
    hs.words = wordsOf buf ↔ buf = writeHandshake hs := by
  rw [wordsOf_eq_blocks]
  constructor
  · intro hwords
    rw [writeHandshake, hwords]
    exact (flatMap_map_blocks (fun _ => Format.le32_ofLe32) h).symm
  · rintro rfl
    exact (map_blocks_flatMap Format.length_le32 Format.ofLe32_le32 hs.words).symm

theorem readHandshake_of_le {stream : Bytes} (h : 20 ≤ stream.length) :
    readHandshake stream = (checkHandshake (stream.take 20), stream.drop 20) := by
  have hread : readExact 20 (HandshakeError.io .unexpectedEof) stream =
      (.ok (stream.take 20), stream.drop 20) := if_neg (not_lt.mpr h)
  rw [readHandshake, Reading.bind_of_ok hread]
  rfl

theorem readHandshake_of_lt {stream : Bytes} (h : stream.length < 20) :
    readHandshake stream = (.error (.io .unexpectedEof), []) := by
  have hread : readExact 20 (HandshakeError.io .unexpectedEof) stream =
      (.error (.io .unexpectedEof), []) := if_pos h
  rw [readHandshake, Reading.bind_of_error hread]

/-- **A handshake is read from the bytes that are sent for it, and from no others.** -/
theorem readHandshake_eq_ok {stream : Bytes} {hs : Handshake} :
    (readHandshake stream).1 = .ok hs ↔ hs.Valid ∧ stream.take 20 = writeHandshake hs := by
  rcases lt_or_ge stream.length 20 with hshort | hlong
  · rw [readHandshake_of_lt hshort]
    refine ⟨fun h => (by cases h), fun ⟨_, htake⟩ => ?_⟩
    have hlen := congrArg List.length htake
    rw [List.length_take, length_writeHandshake] at hlen
    omega
  · have hlen : (stream.take 20).length = 20 := List.length_take_of_le hlong
    rw [readHandshake_of_le hlong, checkHandshake_eq_ok, words_eq_wordsOf hlen]

theorem readHandshake_accepts_iff {stream : Bytes} :
    (∃ hs, (readHandshake stream).1 = .ok hs) ↔ 20 ≤ stream.length ∧ InRange (stream.take 20) := by
  rcases lt_or_ge stream.length 20 with hshort | hlong
  · rw [readHandshake_of_lt hshort]
    refine ⟨fun ⟨hs, h⟩ => (by cases h), fun h => ?_⟩
    omega
  · rw [readHandshake_of_le hlong, inRange_iff]
    simp only [checkHandshake_eq_ok, hlong, true_and]

/-- **An echo is accepted exactly if it is the offer, and the offer is in range.** -/
theorem connect_accepts_iff {dir : StreamDir} {channels rate : UInt32} {incoming : Bytes} :
    (∃ agreed, (connect dir channels rate incoming).1 = .ok agreed) ↔
      InRange (incoming.take 20) ∧
        incoming.take 20 = writeHandshake (.new dir channels rate) := by
  constructor
  · rintro ⟨agreed, h⟩
    obtain ⟨echoed, rest, hread, hcheck⟩ := Reading.bind_eq_ok (Prod.ext h rfl)
    obtain ⟨hvalid, htake⟩ :=
      readHandshake_eq_ok.mp (congrArg Prod.fst (Reading.mapError_eq_ok hread))
    split at hcheck
    · cases hcheck
    · rename_i hsame
      -- magic and version are not compared again: the checks leave no choice for them
      obtain rfl : echoed = .new dir channels rate := by
        obtain ⟨magic, version, dir', channels', rate'⟩ := echoed
        obtain ⟨rfl, rfl, -, -⟩ := hvalid
        simp only [Handshake.new, ne_eq, not_or, not_not] at hsame
        obtain ⟨rfl, rfl, rfl⟩ := hsame
        rfl
      refine ⟨?_, htake⟩
      rw [htake, inRange_iff]
      exact ⟨_, hvalid, (words_eq_wordsOf (length_writeHandshake _) _).mpr rfl⟩
  · rintro ⟨hrange, htake⟩
    have hwords := (words_eq_wordsOf (by rw [htake, length_writeHandshake])
      (Handshake.new dir channels rate)).mpr htake
    obtain ⟨-, -, -, hchannels, hrate⟩ := words_eq_iff.mp hwords
    have hvalid : (Handshake.new dir channels rate).Valid :=
      ⟨rfl, rfl, hchannels ▸ hrange.channels, hrate ▸ hrange.rate⟩
    have hread :
        readHandshake incoming = (.ok (.new dir channels rate), (readHandshake incoming).2) :=
      Prod.ext (readHandshake_eq_ok.mpr ⟨hvalid, htake⟩) rfl
    refine ⟨.new dir channels rate, ?_⟩
    rw [connect, Reading.bind_of_ok (Reading.mapError_of_ok hread _)]
    simp [Reading.pure_apply]

/-! ### The samples -/

theorem yields_recvFramesInto (samples : List F32) :
    Reading.Yields (recvFramesInto samples.length) (sampleBytes samples) samples := by
  have hread := (Reading.yields_readExact (length_sampleBytes samples) IoError.unexpectedEof).map
    samplesOf
  rwa [samplesOf_sampleBytes] at hread

theorem recvFramesInto_of_lt {n : ℕ} {stream : Bytes} (h : stream.length < n * 4) :
    recvFramesInto n stream = (.error .unexpectedEof, []) := by
  have hread : readExact (n * 4) IoError.unexpectedEof stream = (.error .unexpectedEof, []) :=
    if_pos h
  exact Reading.bind_of_error hread _

theorem recvFramesInto_of_le {n : ℕ} {stream : Bytes} (h : n * 4 ≤ stream.length) :
    recvFramesInto n stream = (.ok (samplesOf (stream.take (n * 4))), stream.drop (n * 4)) := by
  have hread : readExact (n * 4) IoError.unexpectedEof stream =
      (.ok (stream.take (n * 4)), stream.drop (n * 4)) := if_neg (Nat.not_lt.mpr h)
  exact Reading.bind_of_ok hread _

/-- **The samples come out as they went in**, in portions of the sizes that the receiver asks
for. -/
theorem yields_recvFrames {sizes : List ℕ} {samples : List F32} (h : sizes.sum = samples.length) :
    Reading.Yields (Reading.sequence (sizes.map recvFramesInto)) (sampleBytes samples)
      (sizes.splitLengths samples) := by
  have hsizes : (sizes.splitLengths samples).map List.length = sizes :=
    List.map_splitLengths_length samples sizes h.le
  have hbytes : (sizes.splitLengths samples).flatMap sampleBytes = sampleBytes samples := by
    rw [← sampleBytes_flatten, List.flatten_splitLengths samples sizes h.ge]
  have hyields := Reading.Yields.sequence
    fun portion (_ : portion ∈ sizes.splitLengths samples) => yields_recvFramesInto portion
  rw [hbytes, ← Function.comp_def, ← List.map_map, hsizes] at hyields
  exact hyields

/-- **The bridge.** What the plugin writes – a valid handshake and any transfers – is read as this
handshake and these samples, whatever portions the server reads them in; `read_handshake` accepts
the blocks whose words are all in range; and `connect` accepts an echo that is such a block and is
the offer. -/
theorem bridge_exact :
    (∀ (hs : Handshake) (transfers : List (List F32)) (sizes : List ℕ), hs.Valid →
      sizes.sum = transfers.flatten.length →
        ∃ payload portions,
          readHandshake (writeHandshake hs ++ transfers.flatMap sendFrames) = (.ok hs, payload) ∧
          Reading.sequence (sizes.map recvFramesInto) payload = (.ok portions, []) ∧
          portions.map List.length = sizes ∧ portions.flatten = transfers.flatten) ∧
    (∀ stream : Bytes, (∃ hs, (readHandshake stream).1 = .ok hs) ↔
      20 ≤ stream.length ∧ InRange (stream.take 20)) ∧
    ∀ (dir : StreamDir) (channels rate : UInt32) (incoming : Bytes),
      (∃ agreed, (connect dir channels rate incoming).1 = .ok agreed) ↔
        InRange (incoming.take 20) ∧
          incoming.take 20 = writeHandshake (.new dir channels rate) := by
  refine ⟨fun hs transfers sizes hvalid hsum => ?_, fun stream => readHandshake_accepts_iff,
    fun dir channels rate incoming => connect_accepts_iff⟩
  have hpayload := (yields_recvFrames hsum).eq_nil
  have htake : (writeHandshake hs ++ sampleBytes transfers.flatten).take 20 = writeHandshake hs :=
    List.take_left' (length_writeHandshake hs)
  refine ⟨sampleBytes transfers.flatten, sizes.splitLengths transfers.flatten, ?_, hpayload,
    List.map_splitLengths_length _ sizes hsum.le, List.flatten_splitLengths _ sizes hsum.ge⟩
  rw [show transfers.flatMap sendFrames = sampleBytes transfers.flatten from
    (sampleBytes_flatten transfers).symm]
  refine Prod.ext (readHandshake_eq_ok.mpr ⟨hvalid, htake⟩) ?_
  rw [readHandshake_of_le (by rw [List.length_append, length_writeHandshake]; omega)]
  exact List.drop_left' (length_writeHandshake hs)

/-- Three transfers, read in two portions. -/
theorem bridge_exact_two_portions :
    ∃ payload portions,
      readHandshake (writeHandshake (.new .playback 2 48000) ++
        [[⟨1⟩, ⟨2⟩], [], [⟨0x7FC00000⟩, ⟨4⟩]].flatMap sendFrames) =
          (.ok (.new .playback 2 48000), payload) ∧
      Reading.sequence ([1, 3].map recvFramesInto) payload = (.ok portions, []) ∧
      portions.map List.length = [1, 3] ∧
      portions.flatten = [[⟨1⟩, ⟨2⟩], [], [⟨0x7FC00000⟩, ⟨4⟩]].flatten :=
  bridge_exact.1 _ _ _ ⟨rfl, rfl, by decide, by decide⟩ (by decide)

end GwAlsaPlugin

end SonicBrew
