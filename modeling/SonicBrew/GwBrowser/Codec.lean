import SonicBrew.AudioCore

/-!
# Messages of a browser

A browser sends and receives frames of audio as binary messages: a tag that says how the samples
are coded, the number of channels, the rate, and the samples (`SonicBrew.GwBrowser.encodeFrame`,
`SonicBrew.GwBrowser.decodeFrame`). Anyone may send such a message, so what is accepted is fixed
to the byte: `SonicBrew.GwBrowser.Accepted` says which messages are, and each of them is *the*
message of the frame that it decodes to.

This is the build without the Opus codec, which rejects every message that has its tag.
-/

namespace SonicBrew

namespace GwBrowser

open Format (le32 ofLe32)

/-- `HEADER_LEN` -/
def headerLen : ℕ := 6

/-- `TAG_PCM`: plain samples. -/
def tagPcm : UInt8 := 0

/-- `TAG_OPUS`: a packet of the Opus codec. -/
def tagOpus : UInt8 := 1

/-- The errors of the gateway, as far as messages are concerned. -/
inductive GatewayError where
  | badFrame (message : String)
  deriving DecidableEq, Repr

/-- The shape that every frame must have. -/
structure FrameSpec where
  channels : UInt16
  sampleRate : UInt32
  deriving DecidableEq, Repr

/-- The message of a frame. The number of channels has to fit a byte. -/
def encodeFrame (frame : AudioFrame) : Except GatewayError Bytes :=
  if frame.channels.toNat < 256 then
    .ok (tagPcm :: UInt8.ofNat frame.channels.toNat ::
      (le32 frame.sampleRate ++ sampleBytes frame.samples))
  else .error (.badFrame "channel count overloads header byte")

def decodePcm (payload : Bytes) (channels : UInt8) (sampleRate : UInt32) (spec : FrameSpec) :
    Except GatewayError AudioFrame :=
  let stride := channels.toNat * 4
  if channels = 0 then .error (.badFrame "pcm frame has zero channels")
  else if channels.toNat ≠ spec.channels.toNat then
    .error (.badFrame ("channel mismatch: header=" ++ toString channels.toNat ++ " expected=" ++
      toString spec.channels.toNat))
  else if sampleRate ≠ spec.sampleRate then
    .error (.badFrame ("sample-rate mismatch: header=" ++ toString sampleRate.toNat ++
      " expected=" ++ toString spec.sampleRate.toNat))
  else if payload = [] then .error (.badFrame "pcm payload is empty")
  else if payload.length % stride ≠ 0 then
    .error (.badFrame ("pcm payload length " ++ toString payload.length ++
      " is not a multiple of " ++ toString stride))
  else .ok (.fromPlanar spec.channels spec.sampleRate (samplesOf payload))

/-- The Opus codec is not there. -/
def decodeOpus (_payload : Bytes) (_channels : UInt8) (_sampleRate : UInt32) (_spec : FrameSpec) :
    Except GatewayError AudioFrame :=
  .error (.badFrame "opus codec not enabled (build with the `opus` feature)")

def decodeFrame (bytes : Bytes) (spec : FrameSpec) : Except GatewayError AudioFrame :=
  if bytes.length < headerLen then .error (.badFrame "header shorter than 6 bytes")
  else
    let tag := bytes.getD 0 0
    let channels := bytes.getD 1 0
    let sampleRate := ofLe32 ((bytes.drop 2).take 4)
    let payload := bytes.drop headerLen
    if tag = tagPcm then decodePcm payload channels sampleRate spec
    else if tag = tagOpus then decodeOpus payload channels sampleRate spec
    else .error (.badFrame ("unknown codec tag " ++ toString tag.toNat))

/-! ### What is accepted -/

/-- **The accepted messages**: a whole header that says plain samples, at least one channel, as many
as expected and at the expected rate, and then a sample at least and as many for every channel. -/
structure Accepted (spec : FrameSpec) (bytes : Bytes) : Prop where
  header : headerLen ≤ bytes.length
  tag : bytes.getD 0 0 = tagPcm
  channels_ne_zero : bytes.getD 1 0 ≠ 0
  channels : (bytes.getD 1 0).toNat = spec.channels.toNat
  sampleRate : ofLe32 ((bytes.drop 2).take 4) = spec.sampleRate
  payload_ne_nil : bytes.drop headerLen ≠ []
  payload : (bytes.drop headerLen).length % (4 * spec.channels.toNat) = 0

/-- What a message decodes to if it decodes. -/
def decoded (spec : FrameSpec) (bytes : Bytes) : AudioFrame :=
  ⟨spec.channels, spec.sampleRate, samplesOf (bytes.drop headerLen)⟩

theorem decodePcm_eq_ok {payload : Bytes} {channels : UInt8} {sampleRate : UInt32}
    {spec : FrameSpec} {frame : AudioFrame} :
    decodePcm payload channels sampleRate spec = .ok frame ↔
      channels ≠ 0 ∧ channels.toNat = spec.channels.toNat ∧ sampleRate = spec.sampleRate ∧
        payload ≠ [] ∧ payload.length % (channels.toNat * 4) = 0 ∧
          frame = ⟨spec.channels, spec.sampleRate, samplesOf payload⟩ := by
  simp only [decodePcm, check_eq_ok, ne_eq, not_not, AudioFrame.fromPlanar, Except.ok.injEq,
    eq_comm (b := frame)]

theorem decodeFrame_eq_ok {bytes : Bytes} {spec : FrameSpec} {frame : AudioFrame} :
    decodeFrame bytes spec = .ok frame ↔ Accepted spec bytes ∧ frame = decoded spec bytes := by
  rw [decodeFrame, check_eq_ok, not_lt]
  dsimp only
  constructor
  · rintro ⟨hheader, hframe⟩
    split at hframe
    · rename_i htag
      obtain ⟨hzero, hchannels, hrate, hne, hlen, rfl⟩ := decodePcm_eq_ok.mp hframe
      rw [hchannels, Nat.mul_comm] at hlen
      exact ⟨⟨hheader, htag, hzero, hchannels, hrate, hne, hlen⟩, rfl⟩
    · -- Opus, and tags that are not known, are refused
      split at hframe
      · cases hframe
      · cases hframe
  · rintro ⟨h, rfl⟩
    have hlen := h.payload
    rw [← h.channels, Nat.mul_comm] at hlen
    refine ⟨h.header, ?_⟩
    rw [if_pos h.tag]
    exact decodePcm_eq_ok.mpr
      ⟨h.channels_ne_zero, h.channels, h.sampleRate, h.payload_ne_nil, hlen, rfl⟩

/-- The parts of a message that is long enough. -/
theorem header_append_payload {bytes : Bytes} (h : headerLen ≤ bytes.length) :
    bytes =
      bytes.getD 0 0 :: bytes.getD 1 0 :: ((bytes.drop 2).take 4 ++ bytes.drop headerLen) := by
  match bytes, h with
  | tag :: channels :: rest, _ =>
    exact congrArg (tag :: channels :: ·) (List.take_append_drop 4 rest).symm

/-- **A message that is accepted is the message of its frame.** -/
theorem encodeFrame_decoded {spec : FrameSpec} {bytes : Bytes} (h : Accepted spec bytes) :
    encodeFrame (decoded spec bytes) = .ok bytes := by
  -- the channels were read from a byte, so they go back into one
  have hbyte : spec.channels.toNat < 256 := by
    rw [← h.channels]
    exact UInt8.toNat_lt _
  have hchannels : UInt8.ofNat spec.channels.toNat = bytes.getD 1 0 := by
    rw [← h.channels, UInt8.ofNat_toNat]
  have hrate : le32 spec.sampleRate = (bytes.drop 2).take 4 := by
    rw [← h.sampleRate]
    refine Format.le32_ofLe32 ?_
    have hheader : 6 ≤ bytes.length := h.header
    rw [List.length_take, List.length_drop]
    omega
  have hpayload : sampleBytes (samplesOf (bytes.drop headerLen)) = bytes.drop headerLen :=
    sampleBytes_samplesOf (Nat.mod_eq_zero_of_dvd
      ((Nat.dvd_mul_right 4 _).trans (Nat.dvd_of_mod_eq_zero h.payload)))
  refine (if_pos hbyte).trans (congrArg Except.ok ?_)
  dsimp only [decoded]
  rw [hchannels, hrate, hpayload, ← h.tag]
  exact (header_append_payload h.header).symm

/-- A frame of the expected shape: at least one channel and at most 255, a sample at least, and as
many for every channel. -/
structure Sendable (spec : FrameSpec) (frame : AudioFrame) : Prop where
  channels_pos : 1 ≤ frame.channels.toNat
  channels_le : frame.channels.toNat ≤ 255
  channels : frame.channels = spec.channels
  sampleRate : frame.sampleRate = spec.sampleRate
  samples_ne_nil : frame.samples ≠ []
  samples : frame.samples.length % frame.channels.toNat = 0

/-- **The message of a frame of the expected shape is accepted, and decodes to the frame.** -/
theorem decodeFrame_encodeFrame {spec : FrameSpec} {frame : AudioFrame} (h : Sendable spec frame) :
    ∃ bytes, encodeFrame frame = .ok bytes ∧ decodeFrame bytes spec = .ok frame := by
  obtain ⟨channels, rate, samples⟩ := frame
  obtain ⟨hpos, hle, rfl, rfl, hne, hlen⟩ := h
  dsimp only at hpos hle hne hlen
  have hbyte : (UInt8.ofNat spec.channels.toNat).toNat = spec.channels.toNat := by
    rw [UInt8.toNat_ofNat']
    omega
  have hrest : (tagPcm :: UInt8.ofNat spec.channels.toNat ::
      (le32 spec.sampleRate ++ sampleBytes samples)).drop headerLen = sampleBytes samples :=
    List.drop_left' (Format.length_le32 _)
  have hrate : ((tagPcm :: UInt8.ofNat spec.channels.toNat ::
      (le32 spec.sampleRate ++ sampleBytes samples)).drop 2).take 4 = le32 spec.sampleRate :=
    List.take_left' (Format.length_le32 _)
  refine ⟨_, if_pos (Nat.lt_succ_of_le hle), decodeFrame_eq_ok.mpr ⟨?_, ?_⟩⟩
  · refine ⟨?_, rfl, fun hzero => ?_, hbyte, ?_, ?_, ?_⟩
    · rw [headerLen, List.length_cons, List.length_cons, List.length_append, Format.length_le32]
      omega
    · have hzero : (UInt8.ofNat spec.channels.toNat).toNat = 0 := congrArg UInt8.toNat hzero
      omega
    · rw [hrate, Format.ofLe32_le32]
    · rw [hrest]
      intro hnil
      have hzero := congrArg List.length hnil
      rw [length_sampleBytes, List.length_nil] at hzero
      exact hne (List.eq_nil_of_length_eq_zero (by omega))
    · rw [hrest, length_sampleBytes, Nat.mul_comm, Nat.mul_mod_mul_left, hlen]
  · rw [decoded, hrest, samplesOf_sampleBytes]

/-- **The format is exact.** A message is accepted exactly if it is one of those described; an
accepted message is, byte for byte, the message of the frame that it decodes to; and a frame of
the expected shape is what its message decodes to. -/
theorem decodeFrame_exact (spec : FrameSpec) :
    (∀ bytes, (∃ frame, decodeFrame bytes spec = .ok frame) ↔ Accepted spec bytes) ∧
    (∀ bytes frame, decodeFrame bytes spec = .ok frame → encodeFrame frame = .ok bytes) ∧
    ∀ frame, Sendable spec frame →
      ∃ bytes, encodeFrame frame = .ok bytes ∧ decodeFrame bytes spec = .ok frame := by
  refine ⟨fun bytes => ⟨?_, fun h => ⟨_, decodeFrame_eq_ok.mpr ⟨h, rfl⟩⟩⟩, ?_,
    fun frame => decodeFrame_encodeFrame⟩
  · rintro ⟨frame, hframe⟩
    exact (decodeFrame_eq_ok.mp hframe).1
  · rintro bytes frame hframe
    obtain ⟨haccepted, rfl⟩ := decodeFrame_eq_ok.mp hframe
    exact encodeFrame_decoded haccepted

/-- Two channels of one sample each, the second of which is not a number. -/
theorem decodeFrame_exact_nan :
    ∃ bytes, encodeFrame ⟨2, 48000, [⟨0x3F800000⟩, ⟨0x7FC00001⟩]⟩ = .ok bytes ∧
      decodeFrame bytes ⟨2, 48000⟩ = .ok ⟨2, 48000, [⟨0x3F800000⟩, ⟨0x7FC00001⟩]⟩ :=
  (decodeFrame_exact ⟨2, 48000⟩).2.2 _
    ⟨by decide, by decide, rfl, rfl, List.cons_ne_nil _ _, by decide⟩

end GwBrowser

end SonicBrew
