import SonicBrew.GwPulse.Requests

/-!
# Opening a playback stream

The request that opens a stream is the longest one of the client: sample spec, channel map, the
name of the sink, the metrics of the buffer, the volume, a block of flags for each version of the
protocol, and a list of properties that holds the name of the stream
(`SonicBrew.GwPulse.playbackFields`). Two of its fields are texts of the caller, and they do not
travel in the same way: the name is a value in a list of properties, with its length in front of
it, while the name of the sink ends at the first zero byte – and a text of the caller may hold
one.

The server reads the fields in the order of the protocol (`SonicBrew.GwPulse.playbackOrder`). It
finds what the caller meant exactly if neither text is too long and the name of the sink has no
zero byte in it (`SonicBrew.GwPulse.understood_iff`). Otherwise what follows the zero byte is read
as the next fields.
-/

namespace SonicBrew

namespace GwPulse

open Format (be32 ofBe32 be64 ofBe64)

/-- `PA_COMMAND_REPLY` -/
def commandReply : UInt32 := 2

/-- `PA_COMMAND_CREATE_PLAYBACK_STREAM` -/
def commandCreatePlaybackStream : UInt32 := 3

/-- `PA_SAMPLE_FLOAT32LE` -/
def sampleFloat32le : UInt8 := 5

/-- `PA_VOLUME_NORM` -/
def volumeNorm : UInt32 := 0x10000

/-- The calls of the writer in `create_playback_stream`, one by one. -/
def playbackFields (name : String) (sink : Option String) (rate : UInt32) (channels : UInt8) :
    List Field :=
  [.sampleSpec rate channels sampleFloat32le,
    .channelMap ((List.range channels.toNat).map UInt8.ofNat),
    -- sink_index: default
    .u32 0xFFFFFFFF,
    sink.elim .stringNull .string,
    -- maxlength, corked, tlength, prebuf, minreq, syncid
    .u32 0xFFFFFFFF, .boolean false, .u32 0xFFFFFFFF, .u32 0xFFFFFFFF, .u32 0xFFFFFFFF, .u32 0,
    .cvolume (List.replicate channels.toNat volumeNorm),
    -- version 12: seven flags
    .boolean false, .boolean false, .boolean false, .boolean false, .boolean false, .boolean false,
    .boolean false,
    -- version 13: muted, adjust_latency, properties
    .boolean false, .boolean false,
    .proplist [("media.name", name), ("application.name", "sonicbrew gw-pulse")],
    -- version 14: volume_set, early_requests
    .boolean true, .boolean false,
    -- version 15: muted_set, dont_inhibit_auto_suspend, fail_on_suspend
    .boolean false, .boolean false, .boolean false,
    -- version 17: relative_volume; version 18: passthrough; version 21: n_formats
    .boolean false, .boolean false, .u8 0]

/-- **The order of the protocol**: what the server reads, whatever the client has written. -/
def playbackOrder : List Kind :=
  [.sampleSpec, .channelMap, .u32, .string, .u32, .boolean, .u32, .u32, .u32, .u32, .cvolume,
    .boolean, .boolean, .boolean, .boolean, .boolean, .boolean, .boolean,
    .boolean, .boolean, .proplist, .boolean, .boolean, .boolean, .boolean, .boolean,
    .boolean, .boolean, .u8]

/-- The index of the stream, from the reply to the request. -/
def streamIndex (frame : Frame) : Except PulseDaemonError UInt32 :=
  if frame.command ≠ commandReply then
    .error (.protocol ("CREATE_PLAYBACK_STREAM: expected REPLY, got " ++
      toString frame.command.toNat))
  else (TagReader.readU32 (.new frame.payload)).1.mapError .codec

/-- Open a playback stream; the result is its index. `none` is a panic. -/
def PulseDaemon.createPlaybackStream (d : PulseDaemon) (name : String) (sink : Option String)
    (rate : UInt32) (channels : UInt8) (expired : ℕ → Bool) :
    Option (Except PulseDaemonError UInt32 × PulseDaemon) :=
  if d.serverVersion < 13 then
    some (.error (.protocol "playback streams need protocol >= 13"), d)
  else do
    let w ← writeAll .new (playbackFields name sink rate channels)
    let outcome ← d.request commandCreatePlaybackStream w.intoBytes expired
    return (outcome.1 >>= streamIndex, outcome.2)

/-! ### What the server reads -/

variable (name : String) (sink : Option String) (rate : UInt32) (channels : UInt8)

theorem kinds_playbackFields :
    (playbackFields name sink rate channels).map Field.kind = playbackOrder := by
  cases sink <;> rfl

/-- The texts of the caller keep to the limits. -/
def TextsFit : Prop :=
  (utf8 name).length ≤ maxLen ∧ ∀ s, sink = some s → TagReader.NulFree s ∧ (utf8 s).length ≤ maxLen

/-- All other fields keep to the limits anyway. -/
theorem fits_playbackFields_iff :
    (∀ f ∈ playbackFields name sink rate channels, f.Fits) ↔ TextsFit name sink := by
  have hchannels : channels.toNat ≤ 255 := Nat.le_of_lt_succ channels.toNat_lt
  have hkey : TagReader.NulFree "media.name" ∧ (utf8 "media.name").length ≤ maxLen := by decide
  have hclient : TagReader.PropertyFits ("application.name", "sonicbrew gw-pulse") := by decide
  have hname : Field.Fits (.proplist
      [("media.name", name), ("application.name", "sonicbrew gw-pulse")]) ↔
        (utf8 name).length ≤ maxLen := by
    rw [TagReader.PropertyFits] at hclient
    simp [Field.Fits, TagReader.PropertyFits, hkey, hclient]
  have hsink : Field.Fits (sink.elim .stringNull .string) ↔
      ∀ s, sink = some s → TagReader.NulFree s ∧ (utf8 s).length ≤ maxLen := by
    cases sink <;> simp [Field.Fits]
  rw [playbackFields, TextsFit]
  simp only [List.forall_mem_cons, hname, hsink]
  simp [Field.Fits, hchannels, and_comm]

/-- Texts that keep to the limits leave the request short enough to be framed. -/
theorem length_playbackFields (h : TextsFit name sink) :
    ((playbackFields name sink rate channels).flatMap Field.bytes).length ≤ 2 * maxLen + 2000 := by
  obtain ⟨hname, hsink⟩ := h
  have hchannels : channels.toNat < 256 := channels.toNat_lt
  have hkeys : (utf8 "media.name").length = 10 ∧ (utf8 "application.name").length = 16 ∧
      (utf8 "sonicbrew gw-pulse").length = 18 := by decide
  have htext : (Field.bytes (sink.elim .stringNull .string)).length ≤ 2 + maxLen := by
    cases sink with
    | none =>
      simp only [Option.elim_none, Field.bytes, List.length_singleton]
      omega
    | some s =>
      have hs := (hsink s rfl).2
      simp only [Option.elim_some, Field.bytes, List.length_cons, List.length_append,
        List.length_nil]
      omega
  -- the sink keeps its bound, and the lengths of all other fields are sums of numbers
  simp only [playbackFields, List.flatMap_cons, List.flatMap_nil, List.length_append]
  generalize (Field.bytes (sink.elim .stringNull .string)).length = text at htext ⊢
  simp only [Field.bytes, TagReader.propertyBytes, TagReader.valueBytes, List.flatMap_cons,
    List.flatMap_nil, List.length_append, List.length_cons, List.length_nil, List.length_map,
    List.length_range, Format.length_be32, length_flatMap_of_forall Format.length_be32,
    List.length_replicate, hkeys, ← Nat.add_assoc]
  omega

/-- **The request is understood**: the call sends a frame whose body, read field by field in the
order of the protocol, holds the rate, the channels, the sink and the name that were given, the
constants in between, and nothing else. -/
def Understood (d : PulseDaemon) (expired : ℕ → Bool) : Prop :=
  ∃ result d' body, d.createPlaybackStream name sink rate channels expired = some (result, d') ∧
    d'.outgoing = d.outgoing ++
      describe 0xFFFFFFFF 0 0 (Frame.body ⟨commandCreatePlaybackStream, d.nextTag, body⟩) ∧
    ∃ r, readAll playbackOrder (.new body) = (.ok (playbackFields name sink rate channels), r) ∧
      r.isEmpty = true

/-- **Opening a playback stream is understood exactly if the texts keep to the limits.** -/
theorem understood_iff (d : PulseDaemon) (expired : ℕ → Bool) (hversion : 13 ≤ d.serverVersion) :
    Understood name sink rate channels d expired ↔
      (utf8 name).length ≤ maxLen ∧
        ∀ s, sink = some s → TagReader.NulFree s ∧ (utf8 s).length ≤ maxLen := by
  constructor
  · rintro ⟨-, -, body, -, -, r, hread, -⟩
    exact (fits_playbackFields_iff name sink rate channels).mp (fits_of_readAll hread)
  · intro htexts
    have hfits := (fits_playbackFields_iff name sink rate channels).mpr htexts
    have hread := readAll_bytes hfits
    rw [kinds_playbackFields] at hread
    have hlen : 10 + ((playbackFields name sink rate channels).flatMap Field.bytes).length <
        2 ^ 32 := by
      have hbody := length_playbackFields name sink rate channels htexts
      have hmax : 2 * maxLen + 2010 < 2 ^ 32 := by decide
      omega
    have hcall : ¬d.serverVersion < 13 := UInt32.not_lt.mpr hversion
    obtain ⟨outcome, hrequest, hsent⟩ : ∃ outcome,
        d.request commandCreatePlaybackStream
          ((playbackFields name sink rate channels).flatMap Field.bytes) expired = some outcome ∧
        outcome.2.outgoing = _ := ⟨_, d.request_of_lt commandCreatePlaybackStream expired hlen, rfl⟩
    refine ⟨outcome.1 >>= streamIndex, outcome.2, _, ?_, hsent, hread⟩
    rw [PulseDaemon.createPlaybackStream, if_neg hcall, writeAll_of_fits .new hfits]
    exact Option.bind_eq_some_iff.mpr ⟨_, rfl, Option.bind_eq_some_iff.mpr ⟨outcome, hrequest, rfl⟩⟩

/-- A name may hold a zero byte. -/
theorem understood_iff_stereo :
    Understood "take\x001" (some "alsa_output") 48000 2 ⟨[], [], 3, 35⟩ (fun _ => false) :=
  (understood_iff "take\x001" (some "alsa_output") 48000 2 ⟨[], [], 3, 35⟩ (fun _ => false)
    (by decide)).mpr ⟨by decide, by rintro s ⟨⟩; decide⟩

/-- **What follows a zero byte in the name of the sink is read as the next field**: the server is
given another sink, and a length of the buffer that the caller of the library has chosen. -/
theorem sink_read_as_maxlength :
    (∃ w, writeAll .new (playbackFields "take" (some "hw\x00L\x00\x00\x00\x00") 48000 2) = some w ∧
      (readAll (playbackOrder.take 5) (.new w.intoBytes)).1 =
        .ok [.sampleSpec 48000 2 5, .channelMap [0, 1], .u32 0xFFFFFFFF, .string "hw", .u32 0]) ∧
    ¬Understood "take" (some "hw\x00L\x00\x00\x00\x00") 48000 2 ⟨[], [], 3, 35⟩ fun _ => false := by
  refine ⟨⟨_, rfl, by decide +kernel⟩, ?_⟩
  rintro ⟨-, -, body, -, -, r, hread, -⟩
  have htexts := (fits_playbackFields_iff _ _ _ _).mp (fits_of_readAll hread)
  exact absurd (htexts.2 _ rfl).1 (by decide)

end GwPulse

end SonicBrew
