import Mathlib.Data.Rat.Defs
import SonicBrew.NetRtp.Codec

/-!
# Payloads and the UDP transport

What goes into a packet and what comes out of one: the payload type and the clock of the
sending side, the sequence number and the payload on the receiving side, and the samples of a
payload.

A sample is a sixteen-bit integer divided by a power of two. Single precision holds all of these
quotients exactly, so here they are rationals.

What the receiving side relies on is stated once, as a stream of datagrams that are packets with
consecutive sequence numbers (`SonicBrew.NetRtp.Sender`); a `UdpTransport` that sends payload
after payload is one (`SonicBrew.NetRtp.UdpTransport.sender`).
-/

namespace SonicBrew

namespace NetRtp

open Format (beNat)

/-! ### Payloads -/

/-- How samples are coded. -/
inductive Codec where
  | pcmL16
  | pcmL24
  | opus
  | custom (n : UInt8)
  deriving DecidableEq, Repr

/-- `codec_to_payload_type`. -/
def codecToPayloadType (codec : Codec) (channels : UInt16) : UInt8 :=
  match codec with
  | .pcmL16 => if channels ≥ 2 then 10 else 11
  | .pcmL24 => 96
  | .opus => 97
  | .custom n => n

/-- `bytes_per_sample`. -/
def bytesPerSample : Codec → ℕ
  | .pcmL16 => 2
  | .pcmL24 => 3
  | .opus => 1
  | .custom _ => 1

/-- `timestamp_advance`: the frames of a payload. -/
def timestampAdvance (len : ℕ) (codec : Codec) (channels : UInt16) : UInt32 :=
  let bps := bytesPerSample codec
  let ch := max channels.toNat 1
  UInt32.ofNat (len / (bps * ch))

/-- A block of samples, channel after channel. -/
structure AudioFrame where
  channels : UInt16
  sampleRate : UInt32
  samples : List ℚ
  deriving DecidableEq

/-- `decode_pcm`: samples of `width` bytes, the channels in turn, to one block a channel. -/
def decodePcm (bytes : Bytes) (channels : UInt16) (decodeDiv : ℚ) (width : ℕ)
    (unpack : Bytes → ℤ) : List ℚ :=
  let ch := channels.toNat
  if ch = 0 then []
  else
    let numFrames := bytes.length / width / ch
    (List.range ch).flatMap fun c =>
      (List.range numFrames).map fun i =>
        let idx := (i * ch + c) * width
        unpack ((bytes.drop idx).take width) / decodeDiv

/-- `decode_l16`. -/
def decodeL16 (bytes : Bytes) (channels : UInt16) : List ℚ :=
  decodePcm bytes channels 32768 2 fun chunk => (UInt16.ofNat (beNat chunk)).toInt16.toInt

/-! ### The transport -/

/-- The longest datagram that UDP carries over IPv4. -/
def maxDatagram : ℕ := 65507

/-- The size of the receive buffer. -/
def recvBuffer : ℕ := 65535

/-- The clock of the sending side. The socket is not part of it. -/
structure UdpTransport where
  seq : UInt16
  timestamp : UInt32
  ssrc : UInt32
  channels : UInt16
  deriving DecidableEq, Repr

namespace UdpTransport

/-- `bind`: stereo, and the clock at zero. -/
def bind (ssrc : UInt32) : UdpTransport := ⟨0, 0, ssrc, 2⟩

/-- The packet that the next `send_rtp` makes of a payload. -/
def nextPacket (t : UdpTransport) (payload : Bytes) (codec : Codec) : RtpPacket :=
  ⟨RtpHeader.new (codecToPayloadType codec t.channels) t.seq t.timestamp t.ssrc, payload⟩

/-- `send_rtp`: the clock moves before the socket is asked, and the socket may refuse. -/
def sendRtp (t : UdpTransport) (payload : Bytes) (codec : Codec) (fault : Option String) :
    Except TransportError Bytes × UdpTransport :=
  let bytes := (t.nextPacket payload codec).encode
  let t := { t with
    seq := t.seq + 1
    timestamp := t.timestamp + timestampAdvance payload.length codec t.channels }
  match fault with
  | none => (.ok bytes, t)
  | some e => (.error (.network e), t)

/-- `recv_rtp_with_seq`, on what the socket returns. -/
def recvRtpWithSeq (datagram : Except String Bytes) : Except TransportError (UInt16 × Bytes) :=
  match datagram with
  | .error e => .error (.network e)
  | .ok bytes => do
      let packet ← RtpPacket.parse (bytes.take recvBuffer)
      return (packet.header.seq, packet.payload)

end UdpTransport

/-! ### Streams of packets -/

/-- **A sender**: its `k`-th datagram is a packet with sequence number `k`, wrapped. -/
structure Sender where
  datagram : ℕ → Bytes
  packet : ℕ → RtpPacket
  parse_datagram : ∀ k, RtpPacket.parse (datagram k) = .ok (packet k)
  seq_packet : ∀ k, (packet k).header.seq = UInt16.ofNat k
  length_datagram : ∀ k, (datagram k).length ≤ maxDatagram

namespace UdpTransport

/-- The header of a packet that is sent is one that can be read back. -/
theorem fits_nextPacket (t : UdpTransport) (payload : Bytes) (codec : Codec) :
    (t.nextPacket payload codec).header.Fits := by
  have hmask (b : UInt8) : (b &&& 0x7F).toNat < 128 := by
    rw [show (b &&& 0x7F).toNat = b.toNat % 128 from toNat_and_mask b (w := 7) (by decide)]
    exact Nat.mod_lt _ (by decide)
  exact ⟨rfl, (by decide : (0 : UInt8).toNat < 16), hmask _⟩

variable (codec : Codec) (payload : ℕ → Bytes)

/-- The transport after `k` calls of `send_rtp`, whether or not they went through. -/
def after (t : UdpTransport) : ℕ → UdpTransport
  | 0 => t
  | k + 1 => ((t.after k).sendRtp (payload k) codec none).2

theorem seq_after {t : UdpTransport} (ht : t.seq = 0) (k : ℕ) :
    (t.after codec payload k).seq = UInt16.ofNat k := by
  induction k with
  | zero => exact ht
  | succ k ih =>
    change (t.after codec payload k).seq + 1 = _
    rw [ih, UInt16.ofNat_add]
    rfl

/-- **A transport that sends payload after payload is a sender.** -/
def sender (t : UdpTransport) (ht : t.seq = 0)
    (hlen : ∀ k, rtpHeaderLen + (payload k).length ≤ maxDatagram) : Sender where
  datagram k := ((t.after codec payload k).nextPacket (payload k) codec).encode
  packet k := (t.after codec payload k).nextPacket (payload k) codec
  parse_datagram k := RtpPacket.parse_encode (fits_nextPacket _ _ _) rfl
  seq_packet k := seq_after codec payload ht k
  length_datagram k := by
    rw [RtpPacket.encode, List.length_append, RtpHeader.length_encode]
    exact hlen k

end UdpTransport

end NetRtp

end SonicBrew
