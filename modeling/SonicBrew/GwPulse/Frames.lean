import SonicBrew.GwPulse.Fields

/-!
# Control frames

Messages to and from the sound server travel as frames on one stream: a descriptor of twenty
bytes that says how long the body is, and a body whose first two fields are the command and the
tag (`SonicBrew.GwPulse.writeFrame`, `SonicBrew.GwPulse.readFrame`). Nothing but the declared
length separates one frame from the next, so a reader that takes a byte too many or too few
never finds the boundary again.

A stream is what is still to come of it; when it ends in the middle of a frame the read fails,
and so does a read that runs into the timeout of the socket. All frames that are not too long are
read back as they were written, and a read stays within the frame that the descriptor declares,
whatever the stream holds.
-/

namespace SonicBrew

namespace GwPulse

open Format (be32 ofBe32 be64 ofBe64)

/-- `HEADER_LEN`: the size of a descriptor. -/
def headerLen : ℕ := 20

/-- The descriptor of a frame, and the first word of its body when that is there. -/
structure PacketHeader where
  length : UInt32
  channel : UInt32
  offset : UInt64
  flags : UInt32
  opcode : UInt32
  deriving DecidableEq, Repr

namespace PacketHeader

def parse (buf : Bytes) : Except PulseError PacketHeader :=
  if buf.length < headerLen then .error .truncated
  else .ok
    { length := ofBe32 (buf.take 4)
      channel := ofBe32 ((buf.drop 4).take 4)
      offset := ofBe64 ((buf.drop 8).take 8)
      flags := ofBe32 ((buf.drop 16).take 4)
      opcode := if headerLen + 4 ≤ buf.length then ofBe32 ((buf.drop 20).take 4) else 0 }

def isValid (h : PacketHeader) : Bool := 0 < h.length.toNat && h.length.toNat ≤ maxLen

theorem isValid_iff (h : PacketHeader) :
    h.isValid = true ↔ h.length.toNat ≠ 0 ∧ h.length.toNat ≤ maxLen := by
  rw [isValid, Bool.and_eq_true, decide_eq_true_iff, decide_eq_true_iff, Nat.pos_iff_ne_zero]

end PacketHeader

/-- The errors of the client. -/
inductive PulseDaemonError where
  | io (message : String)
  | protocol (message : String)
  | codec (e : PulseError)
  | server (code : UInt32) (message : String)
  deriving DecidableEq, Repr

/-- How an error of the codec is printed for a programmer. -/
def PulseError.debug : PulseError → String
  | .truncated => "Truncated"
  | .invalidTag byte => "InvalidTag(" ++ toString byte.toNat ++ ")"
  | .invalidSampleFormat byte => "InvalidSampleFormat(" ++ toString byte.toNat ++ ")"
  | .oversized => "Oversized"
  | .invalidUtf8 => "InvalidUtf8"

/-- A frame: command, tag, and the fields after them. -/
structure Frame where
  command : UInt32
  tag : UInt32
  payload : Bytes
  deriving DecidableEq, Repr

/-! ### Writing -/

/-- The body of a frame. -/
def Frame.body (f : Frame) : Bytes :=
  (tagU32 :: be32 f.command) ++ ((tagU32 :: be32 f.tag) ++ f.payload)

/-- A descriptor in front of a body. The length has to fit four bytes. -/
def describe (channel : UInt32) (offset : UInt64) (flags : UInt32) (body : Bytes) : Bytes :=
  be32 (UInt32.ofNat body.length) ++ (be32 channel ++ (be64 offset ++ be32 flags)) ++ body

/-- What `write_frame` puts on the stream; `none` is its panic. -/
def writeFrame (command tag : UInt32) (tagstruct : Bytes) : Option Bytes :=
  let payload := Frame.body ⟨command, tag, tagstruct⟩
  if payload.length < 2 ^ 32 then some (describe 0xFFFFFFFF 0 0 payload) else none

/-! ### Reading -/

/-- The stream ends before a read is complete. -/
def unexpectedEof : PulseDaemonError := .io "failed to fill whole buffer"

/-- What the reader has not come to yet. -/
def rest : Reading TagReader PulseDaemonError Bytes := fun reader =>
  (.ok (reader.buf.drop (min reader.offset reader.buf.length)), reader)

/-- The command and the tag come off the front of the body. -/
def splitBody : Reading TagReader PulseDaemonError Frame := do
  let command ← TagReader.readU32.mapError fun e => .protocol ("reply command field: " ++ e.debug)
  let tag ← TagReader.readU32.mapError fun e => .protocol ("reply tag field: " ++ e.debug)
  let payload ← rest
  return ⟨command, tag, payload⟩

def readFrame : Reading Bytes PulseDaemonError Frame := do
  let descriptor ← readExact headerLen unexpectedEof
  let header ← Reading.ofExcept ((PacketHeader.parse descriptor).mapError .codec)
  if !header.isValid then
    .fail (.protocol ("invalid frame length " ++ toString header.length.toNat))
  else do
    let body ← readExact header.length.toNat unexpectedEof
    Reading.ofExcept (splitBody (.new body)).1

/-! ### The round trip -/

theorem Frame.length_body (f : Frame) : f.body.length = 10 + f.payload.length := by
  simp only [Frame.body, List.length_append, List.length_cons, Format.length_be32]
  omega

theorem parse_descriptor (length channel : UInt32) (offset : UInt64) (flags : UInt32) :
    PacketHeader.parse (be32 length ++ (be32 channel ++ (be64 offset ++ be32 flags))) =
      .ok ⟨length, channel, offset, flags, 0⟩ := by
  have hlen : (be32 length ++ (be32 channel ++ (be64 offset ++ be32 flags))).length = 20 := by
    simp
  rw [PacketHeader.parse, if_neg (by rw [hlen]; decide), if_neg (by rw [hlen]; decide)]
  simp [List.drop_append, List.drop_of_length_le, List.take_of_length_le]

theorem rest_of_ahead {reader : TagReader} {payload : Bytes}
    (h : Input.ahead reader = payload) : rest reader = (.ok payload, reader) := by
  rw [rest, ← h, TagReader.offset, min_eq_left reader.pos_le]
  rfl

theorem splitBody_body (f : Frame) : (splitBody (.new f.body)).1 = .ok f := by
  have hcommand := (TagReader.yields_readU32 f.command).mapError
    fun e => PulseDaemonError.protocol ("reply command field: " ++ e.debug)
  have htag := (TagReader.yields_readU32 f.tag).mapError
    fun e => PulseDaemonError.protocol ("reply tag field: " ++ e.debug)
  have hfirst := hcommand (.new f.body) _ rfl
  have hahead : Input.ahead (Input.advance (tagU32 :: be32 f.command).length
      (TagReader.new f.body)) = (tagU32 :: be32 f.tag) ++ f.payload := by
    rw [Input.ahead_advance]
    exact List.drop_left
  have hsecond := htag _ _ hahead
  have hpayload := congrArg (List.drop (tagU32 :: be32 f.tag).length) hahead
  rw [List.drop_left, ← Input.ahead_advance] at hpayload
  rw [splitBody, Reading.bind_of_ok hfirst, Reading.bind_of_ok hsecond,
    Reading.bind_of_ok (rest_of_ahead hpayload)]
  rfl

/-- **A frame is read back from its own bytes**, whatever its descriptor says besides the
length. -/
theorem yields_readFrame (channel : UInt32) (offset : UInt64) (flags : UInt32) {f : Frame}
    (h : 10 + f.payload.length ≤ maxLen) :
    Reading.Yields readFrame (describe channel offset flags f.body) f := by
  have hbody : f.body.length ≤ maxLen := by
    rw [f.length_body]
    exact h
  have hword : (UInt32.ofNat f.body.length).toNat = f.body.length :=
    TagReader.toNat_ofNat_of_le hbody
  refine Reading.Yields.bind (Reading.yields_readExact (by simp [headerLen]) _) ?_
  rw [parse_descriptor]
  have hvalid :
      PacketHeader.isValid ⟨UInt32.ofNat f.body.length, channel, offset, flags, 0⟩ = true := by
    rw [PacketHeader.isValid_iff, hword]
    have := f.length_body
    omega
  refine Reading.Yields.bind (b := []) (Reading.yields_pure _) ?_
  rw [hvalid, if_neg (by decide), hword]
  -- the body is read as a whole, and then taken apart
  refine (Reading.yields_readExact rfl unexpectedEof).bind_nil ?_
  rw [splitBody_body]
  exact Reading.yields_pure f

/-- Frames, one behind the other. -/
def writeFrames : List Frame → Option Bytes
  | [] => some []
  | f :: frames => do
      let bytes ← writeFrame f.command f.tag f.payload
      let rest ← writeFrames frames
      return bytes ++ rest

/-- So many frames off the stream. -/
def readFrames (n : ℕ) : Reading Bytes PulseDaemonError (List Frame) :=
  Reading.sequence (List.replicate n readFrame)

theorem writeFrame_of_lt {f : Frame} (h : 10 + f.payload.length < 2 ^ 32) :
    writeFrame f.command f.tag f.payload = some (describe 0xFFFFFFFF 0 0 f.body) := by
  rw [← f.length_body] at h
  exact if_pos h

theorem writeFrames_of_le {frames : List Frame} (h : ∀ f ∈ frames, 10 + f.payload.length ≤ maxLen) :
    writeFrames frames = some (frames.flatMap fun f => describe 0xFFFFFFFF 0 0 f.body) := by
  induction frames with
  | nil => rfl
  | cons f frames ih =>
    rw [writeFrames, writeFrame_of_lt (lt_of_le_of_lt (h f List.mem_cons_self) maxLen_lt),
      ih fun g hg => h g (List.mem_cons_of_mem f hg)]
    rfl

theorem yields_readFrames {frames : List Frame} (h : ∀ f ∈ frames, 10 + f.payload.length ≤ maxLen) :
    Reading.Yields (readFrames frames.length)
      (frames.flatMap fun f => describe 0xFFFFFFFF 0 0 f.body) frames := by
  have hyields := Reading.Yields.sequence fun f hf => yields_readFrame 0xFFFFFFFF 0 0 (h f hf)
  rwa [List.map_const'] at hyields

/-! ### Any stream -/

/-- The length that the first descriptor on a stream declares. -/
def declaredLength (stream : Bytes) : ℕ := (ofBe32 (stream.take 4)).toNat

theorem parse_take {stream : Bytes} (h : headerLen ≤ stream.length) :
    ∃ header, PacketHeader.parse (stream.take headerLen) = .ok header ∧
      header.length.toNat = declaredLength stream := by
  have hlen : (stream.take headerLen).length = headerLen := List.length_take_of_le h
  refine ⟨_, if_neg (by omega), ?_⟩
  rw [declaredLength, List.take_take]
  rfl

/-- A stream that ends in the descriptor. -/
theorem readFrame_of_short {stream : Bytes} (h : stream.length < headerLen) :
    readFrame stream = (.error unexpectedEof, []) := by
  have hread : readExact headerLen unexpectedEof stream = (.error unexpectedEof, []) := if_pos h
  rw [readFrame, Reading.bind_of_error hread]

/-- What is read after the descriptor. -/
theorem readFrame_of_descriptor {stream : Bytes} (h : headerLen ≤ stream.length) :
    readFrame stream =
      if declaredLength stream = 0 ∨ maxLen < declaredLength stream then
        (.error (.protocol ("invalid frame length " ++ toString (declaredLength stream))),
          stream.drop headerLen)
      else (readExact (declaredLength stream) unexpectedEof >>= fun body =>
        Reading.ofExcept (splitBody (.new body)).1) (stream.drop headerLen) := by
  obtain ⟨header, hparse, hdeclared⟩ := parse_take h
  have hread : readExact headerLen unexpectedEof stream =
      (.ok (stream.take headerLen), stream.drop headerLen) := if_neg (not_lt.mpr h)
  have hheader : (Reading.ofExcept ((PacketHeader.parse (stream.take headerLen)).mapError .codec) :
      Reading Bytes PulseDaemonError PacketHeader) (stream.drop headerLen) =
        (.ok header, stream.drop headerLen) := by
    rw [hparse]
    rfl
  rw [readFrame, Reading.bind_of_ok hread, Reading.bind_of_ok hheader, hdeclared]
  have hvalid := header.isValid_iff
  rw [hdeclared] at hvalid
  by_cases hbad : declaredLength stream = 0 ∨ maxLen < declaredLength stream
  · have hinvalid : header.isValid = false := by
      rw [← Bool.not_eq_true, hvalid]
      omega
    rw [if_pos hbad, hinvalid]
    rfl
  · have hgood : header.isValid = true := hvalid.mpr (by omega)
    rw [if_neg hbad, hgood]
    rfl

/-- **A read stays within the declared frame.** -/
theorem readFrame_within (stream : Bytes) :
    ∃ k ≤ headerLen + declaredLength stream, (readFrame stream).2 = stream.drop k := by
  rcases lt_or_ge stream.length headerLen with hshort | hlong
  · refine ⟨stream.length, by omega, ?_⟩
    rw [readFrame_of_short hshort, List.drop_length]
  · rw [readFrame_of_descriptor hlong]
    split
    · exact ⟨headerLen, Nat.le_add_right _ _, rfl⟩
    · obtain ⟨k, hk, hdrop⟩ := readExact_within (declaredLength stream) unexpectedEof
        (stream.drop headerLen)
      refine ⟨headerLen + k, by omega, ?_⟩
      rw [← List.drop_drop, ← hdrop]
      exact Reading.bind_ofExcept_snd _ _ _

/-- **Nothing is accepted whose declared length is out of range.** -/
theorem readFrame_of_out_of_range {stream : Bytes}
    (h : declaredLength stream = 0 ∨ maxLen < declaredLength stream) :
    ∃ e, (readFrame stream).1 = .error e := by
  rcases lt_or_ge stream.length headerLen with hshort | hlong
  · exact ⟨unexpectedEof, by rw [readFrame_of_short hshort]⟩
  · exact ⟨_, by rw [readFrame_of_descriptor hlong, if_pos h]⟩

/-- **Frames on one stream.** They are read back as they were written, in order and without a
byte left over; and no read goes past the frame that is declared, or accepts a frame that declares
no body or one that is too long. -/
theorem readFrames_writeFrames :
    (∀ frames : List Frame, (∀ f ∈ frames, 10 + f.payload.length ≤ maxLen) →
      ∃ stream, writeFrames frames = some stream ∧
        readFrames frames.length stream = (.ok frames, [])) ∧
    ∀ stream : Bytes,
      (∃ k ≤ headerLen + declaredLength stream, (readFrame stream).2 = stream.drop k) ∧
      (declaredLength stream = 0 ∨ maxLen < declaredLength stream →
        ∃ e, (readFrame stream).1 = .error e) := by
  refine ⟨fun frames h => ?_, fun stream => ⟨readFrame_within stream, readFrame_of_out_of_range⟩⟩
  exact ⟨_, writeFrames_of_le h, (yields_readFrames h).eq_nil⟩

theorem readFrames_writeFrames_two :
    ∃ stream, writeFrames [⟨8, 1, [0x4C, 0, 0, 0, 35]⟩, ⟨9, 2, []⟩] = some stream ∧
      readFrames 2 stream = (.ok [⟨8, 1, [0x4C, 0, 0, 0, 35]⟩, ⟨9, 2, []⟩], []) :=
  readFrames_writeFrames.1 _ (by decide)

end GwPulse

end SonicBrew
