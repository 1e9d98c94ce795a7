import Mathlib.Algebra.Group.Prod
import Mathlib.Data.UInt
import SonicBrew.Lib.Stamping
import SonicBrew.NetRtp.Netmap
import SonicBrew.NetRtp.Pcm

/-!
# The clock of a sender

Both transports stamp their packets from a clock of their own, a sequence number and a timestamp.
`send_rtp` makes the header, moves the clock on, and only then hands the packet over: to a socket,
or to a slot of the send ring. In this they are one machine, which either gives the packet of its
clock or refuses (`SonicBrew.NetRtp.UdpTransport.sent_eq`,
`SonicBrew.NetRtp.NetmapTransport.sent_eq`); what is in the slot afterwards is the packet, byte for
byte (`SonicBrew.NetRtp.Inner.packetAt_stage`).

So as long as every call goes through, the `n`-th packet has the number `n` and the time of all
frames before it, and the transports do not differ (`SonicBrew.NetRtp.sendRtp_numbered`). But a call
that is refused has moved the clock as well, and the receiver sees a gap
(`SonicBrew.NetRtp.sendRtp_consecutive_iff`).
-/

namespace SonicBrew

namespace NetRtp

/-! ### Calls and clocks -/

/-- A call of `send_rtp`, and what the system answers in it. -/
structure SendCall (A : Type) where
  payload : Bytes
  codec : Codec
  answer : A

variable {A : Type}

namespace SendCall

/-- The frames of the payload. -/
def frames (channels : UInt16) (c : SendCall A) : ℕ :=
  c.payload.length / (bytesPerSample c.codec * max channels.toNat 1)

/-- What the call moves the clock by. -/
def ticks (channels : UInt16) (c : SendCall A) : UInt16 × UInt32 :=
  (1, timestampAdvance c.payload.length c.codec channels)

/-- The packet of a call at a time of the clock. -/
def packet (channels : UInt16) (ssrc : UInt32) (c : SendCall A) (clock : UInt16 × UInt32) :
    RtpPacket :=
  UdpTransport.nextPacket ⟨clock.1, clock.2, ssrc, channels⟩ c.payload c.codec

end SendCall

/-- The time of the clock that is in the header of a packet. -/
def stampOf (bytes : Bytes) : UInt16 × UInt32 :=
  ((RtpHeader.read bytes).seq, (RtpHeader.read bytes).timestamp)

/-- **Packets in sequence**: each has the number after the one before, and is later by the frames of
that one. -/
def Consecutive (channels : UInt16) (sent : List (SendCall A × Bytes)) : Prop :=
  sent.IsChain fun p q => stampOf q.2 = stampOf p.2 + p.1.ticks channels

instance (channels : UInt16) (sent : List (SendCall A × Bytes)) :
    Decidable (Consecutive channels sent) :=
  inferInstanceAs (Decidable (List.IsChain _ sent))

/-- **Refused calls cancel**: between two that go through, their number is a multiple of `2 ^ 16`
and that of their frames a multiple of `2 ^ 32`. -/
def Balanced (channels : UInt16) (attempts : List (SendCall A × Bool)) : Prop :=
  ∀ pre a mid b post, attempts = pre ++ (a, true) :: (mid ++ (b, true) :: post) →
    (∀ m ∈ mid, m.2 = false) →
      UInt16.size ∣ mid.length ∧ UInt32.size ∣ (mid.map fun m => m.1.frames channels).sum

/-! ### The UDP transport -/

namespace UdpTransport

/-- `with_channels`. -/
def withChannels (t : UdpTransport) (channels : UInt16) : UdpTransport :=
  { t with channels := channels }

def clock (t : UdpTransport) : UInt16 × UInt32 := (t.seq, t.timestamp)

/-- A call of `send_rtp` on a socket that may refuse it. -/
def send (t : UdpTransport) (c : SendCall (Option String)) : UdpTransport :=
  (t.sendRtp c.payload c.codec c.answer).2

def ready (_ : UdpTransport) (c : SendCall (Option String)) : Bool := c.answer.isNone

/-- What the socket is given in a call, if it takes it. -/
def handed (t : UdpTransport) (c : SendCall (Option String)) : Option Bytes :=
  (t.sendRtp c.payload c.codec c.answer).1.toOption

/-- The packets of a run. -/
def sent (t : UdpTransport) (calls : List (SendCall (Option String))) :
    List (SendCall (Option String) × Bytes) :=
  Stamping.emitted send handed t calls

end UdpTransport

/-! ### The netmap transport -/

/-- `NetmapTransport`: a port, if it is open, and a clock like that of the other transport. -/
structure NetmapTransport where
  inner : Option Inner
  seq : UInt16
  timestamp : UInt32
  ssrc : UInt32
  channels : UInt16
  deriving DecidableEq

/-- The packet in a slot of the send ring. -/
def Inner.packetAt (inner : Inner) (i : UInt32) : Option Bytes := do
  let slot ← inner.tx.slots[i.toNat]?
  let buf ← inner.buffers[slot.bufIdx.toNat]?
  return buf.take slot.len.toNat

/-- Every slot of the send ring refers to a buffer. This is for the kernel to see to. -/
def Inner.Backed (inner : Inner) : Prop :=
  ∀ slot ∈ inner.tx.slots, slot.bufIdx.toNat < inner.buffers.length

namespace NetmapTransport

/-- `open`: stereo, and the clock at zero. -/
def openPort (port : Inner) (ssrc : UInt32) : NetmapTransport := ⟨some port, 0, 0, ssrc, 2⟩

def clock (t : NetmapTransport) : UInt16 × UInt32 := (t.seq, t.timestamp)

/-- The bytes that the next `send_rtp` makes of a payload. -/
def nextBytes (t : NetmapTransport) (payload : Bytes) (codec : Codec) : Bytes :=
  RtpPacket.encode
    ⟨RtpHeader.new (codecToPayloadType codec t.channels) t.seq t.timestamp t.ssrc, payload⟩

/-- `send_rtp`: the clock moves, the packet is written into a slot, and the kernel is told. -/
def sendRtp (t : NetmapTransport) (payload : Bytes) (codec : Codec)
    (ioctl : Except String UInt32) : Except TransportError Unit × NetmapTransport :=
  let bytes := t.nextBytes payload codec
  let t := { t with
    seq := t.seq + 1
    timestamp := t.timestamp + timestampAdvance payload.length codec t.channels }
  match sendRaw t.inner bytes with
  | (.error e, inner) => (.error e, { t with inner := inner })
  | (.ok staged, inner) =>
      if staged < bytes.length then
        (.error (.network ("TX ring slot too small for the RTP packet (" ++ toString staged ++
          " of " ++ toString bytes.length ++ " bytes staged)")), { t with inner := inner })
      else
        let (result, inner) := txsync inner ioctl
        (result, { t with inner := inner })

/-- A call of `send_rtp` on a kernel that may refuse the sync. -/
def send (t : NetmapTransport) (c : SendCall (Except String UInt32)) : NetmapTransport :=
  (t.sendRtp c.payload c.codec c.answer).2

/-- The port is open, the packet fits a slot, and there is a slot at `head`. -/
def ready (t : NetmapTransport) (c : SendCall (Except String UInt32)) : Bool :=
  match t.inner with
  | none => false
  | some inner =>
      decide (inner.tx.Fits (t.nextBytes c.payload c.codec) ∧ inner.tx.head < inner.tx.numSlots)

/-- What is in the slot at `head` after a call that has written it. -/
def handed (t : NetmapTransport) (c : SendCall (Except String UInt32)) : Option Bytes := do
  let inner ← t.inner
  match sendRaw (some inner) (t.nextBytes c.payload c.codec) with
  | (.ok _, some staged) => staged.packetAt inner.tx.head
  | _ => none

/-- The packets of a run. -/
def sent (t : NetmapTransport) (calls : List (SendCall (Except String UInt32))) :
    List (SendCall (Except String UInt32) × Bytes) :=
  Stamping.emitted send handed t calls

/-- All calls of a run return `Ok`. -/
def Succeeds (t : NetmapTransport) : List (SendCall (Except String UInt32)) → Prop
  | [] => True
  | c :: cs => (t.sendRtp c.payload c.codec c.answer).1 = .ok () ∧ (t.send c).Succeeds cs

instance (inner : Inner) : Decidable inner.Backed :=
  inferInstanceAs (Decidable (∀ slot ∈ inner.tx.slots, slot.bufIdx.toNat < inner.buffers.length))

/-- The slots of the port refer to buffers. -/
def Backed (t : NetmapTransport) : Prop := ∀ inner ∈ t.inner, inner.Backed

end NetmapTransport

/-! ### Stamps -/

/-- **A packet carries the time at which it was made.** -/
theorem stampOf_packet (channels : UInt16) (ssrc : UInt32) (c : SendCall A)
    (clock : UInt16 × UInt32) : stampOf (c.packet channels ssrc clock).encode = clock := by
  have hfits : (c.packet channels ssrc clock).header.Fits := UdpTransport.fits_nextPacket _ _ _
  rw [stampOf, RtpPacket.encode, RtpHeader.read_encode hfits]
  rfl

theorem total_ticks (channels : UInt16) (attempts : List (SendCall A × Bool)) :
    Stamping.total (SendCall.ticks channels) attempts =
      (UInt16.ofNat attempts.length,
        UInt32.ofNat (attempts.map fun a => a.1.frames channels).sum) := by
  induction attempts with
  | nil => rfl
  | cons a rest ih =>
    rw [Stamping.total_cons, ih, List.length_cons, List.map_cons, List.sum_cons, Nat.add_comm,
      UInt16.ofNat_add, UInt32.ofNat_add]
    rfl

theorem balanced_ticks_iff (channels : UInt16) (attempts : List (SendCall A × Bool)) :
    Stamping.Balanced (SendCall.ticks channels) attempts ↔ Balanced channels attempts := by
  have htotal : ∀ mid : List (SendCall A × Bool),
      Stamping.total (SendCall.ticks channels) mid = 0 ↔
        UInt16.size ∣ mid.length ∧ UInt32.size ∣ (mid.map fun m => m.1.frames channels).sum := by
    intro mid
    rw [total_ticks, Prod.mk_eq_zero, UInt16.ofNat_eq_iff_mod_eq_toNat,
      UInt32.ofNat_eq_iff_mod_eq_toNat, Nat.dvd_iff_mod_eq_zero, Nat.dvd_iff_mod_eq_zero]
    rfl
  constructor
  · intro h pre a mid b post heq hmid
    exact (htotal mid).mp (h pre a _ heq mid b post rfl hmid)
  · rintro h pre a _ heq mid b post rfl hmid
    exact (htotal mid).mpr (h pre a mid b post heq hmid)

/-- The packets of stamped calls. -/
def packetsOf (channels : UInt16) (ssrc : UInt32)
    (stamped : List (SendCall A × (UInt16 × UInt32))) : List (SendCall A × Bytes) :=
  stamped.map fun p => (p.1, (p.1.packet channels ssrc p.2).encode)

/-- **Packets are in sequence exactly if refused calls cancel.** -/
theorem consecutive_packetsOf_iff (channels : UInt16) (ssrc : UInt32) (clock : UInt16 × UInt32)
    (attempts : List (SendCall A × Bool)) :
    Consecutive channels
        (packetsOf channels ssrc (Stamping.sent (SendCall.ticks channels) clock attempts)) ↔
      Balanced channels attempts := by
  rw [← balanced_ticks_iff, ← Stamping.consecutive_sent_iff clock, Consecutive, packetsOf,
    List.isChain_map]
  simp only [stampOf_packet]
  rfl

/-- **The `n`-th of packets that are all sent.** -/
theorem getElem?_packetsOf {attempts : List (SendCall A × Bool)} {calls : List (SendCall A)}
    (hcalls : attempts.map Prod.fst = calls) (hall : ∀ a ∈ attempts, a.2 = true)
    (channels : UInt16) (ssrc : UInt32) (n : ℕ) :
    (packetsOf channels ssrc (Stamping.sent (SendCall.ticks channels) 0 attempts))[n]? =
      calls[n]?.map fun c => (c, (c.packet channels ssrc (UInt16.ofNat n,
        UInt32.ofNat ((calls.take n).map (SendCall.frames channels)).sum)).encode) := by
  subst hcalls
  rw [packetsOf, List.getElem?_map, Stamping.getElem?_sent hall, List.getElem?_map, Option.map_map,
    Option.map_map]
  refine Option.map_congr fun a ha => ?_
  obtain ⟨hlt, -⟩ := List.getElem?_eq_some_iff.mp (Option.mem_def.mp ha)
  have hlen : (attempts.take n).length = n := List.length_take_of_le hlt.le
  show (a.1, (a.1.packet channels ssrc (0 + Stamping.total _ (attempts.take n))).encode) = _
  rw [zero_add, total_ticks, hlen, ← List.map_take, List.map_map]
  rfl

/-! ### What the transports do -/

namespace UdpTransport

variable (t : UdpTransport) (c : SendCall (Option String))

theorem send_eq : t.send c = { t with
    seq := t.seq + 1
    timestamp := t.timestamp + timestampAdvance c.payload.length c.codec t.channels } := by
  obtain ⟨payload, codec, _ | e⟩ := c
  · rfl
  · rfl

theorem handed_eq : t.handed c =
    if t.ready c then some (c.packet t.channels t.ssrc t.clock).encode else none := by
  obtain ⟨payload, codec, _ | e⟩ := c
  · rfl
  · rfl

/-- **The packets of a run** are those of the clock, less the refused ones. -/
theorem sent_eq (calls : List (SendCall (Option String))) :
    t.sent calls = packetsOf t.channels t.ssrc
      (Stamping.sent (SendCall.ticks t.channels) t.clock
        (Stamping.attempts send ready t calls)) := by
  refine Stamping.emitted_eq (fun s => s.channels = t.channels ∧ s.ssrc = t.ssrc) clock
    (fun c k => (c.packet t.channels t.ssrc k).encode) ?_ ?_ ?_ ⟨rfl, rfl⟩ calls
  · rintro s c ⟨hchannels, hssrc⟩
    rw [send_eq]
    exact ⟨hchannels, hssrc⟩
  · rintro s c ⟨hchannels, -⟩
    rw [send_eq, ← hchannels]
    rfl
  · rintro s c ⟨hchannels, hssrc⟩
    rw [handed_eq, hchannels, hssrc]

end UdpTransport

/-- **The slot at `head` holds the packet** that was written into it. -/
theorem Inner.packetAt_stage {inner : Inner} (hbacked : inner.Backed) {packet : Bytes}
    (hfits : inner.tx.Fits packet) (hhead : inner.tx.head < inner.tx.numSlots) :
    (inner.stage hhead packet).packetAt inner.tx.head = some packet := by
  have hslot : inner.tx.head.toNat < inner.tx.slots.length := by
    rw [inner.tx.length_slots]
    exact UInt32.lt_iff_toNat_lt.mp hhead
  have hbuf := hbacked _ (List.getElem_mem hslot)
  have hlen : (UInt16.ofNat packet.length).toNat = packet.length := by
    rw [UInt16.toNat_ofNat']
    exact Nat.mod_eq_of_lt (Nat.lt_succ_of_le hfits.1)
  simp only [packetAt, stage, Ring.advance, List.get_eq_getElem, List.getElem?_modify_eq,
    List.getElem?_eq_getElem hslot, List.getElem?_eq_getElem hbuf, Option.map_eq_map,
    Option.map_some, Option.bind_eq_bind, Option.bind_some, hlen, List.take_left]
  rfl

theorem Inner.Backed.stage {inner : Inner} (h : inner.Backed) (packet : Bytes)
    (hhead : inner.tx.head < inner.tx.numSlots) : (inner.stage hhead packet).Backed := by
  intro slot hslot
  -- a slot keeps its buffer
  obtain ⟨i, hi⟩ := List.mem_iff_getElem?.mp hslot
  have hsame : ∃ old ∈ inner.tx.slots, slot.bufIdx = old.bufIdx := by
    simp only [Inner.stage, Ring.advance, List.getElem?_modify, Option.map_eq_map,
      Option.map_eq_some_iff] at hi
    obtain ⟨old, hold, rfl⟩ := hi
    refine ⟨old, List.mem_of_getElem? hold, ?_⟩
    split
    · rfl
    · rfl
  obtain ⟨old, hold, hidx⟩ := hsame
  rw [hidx]
  show _ < (inner.buffers.modify _ _).length
  rw [List.length_modify]
  exact h old hold

namespace NetmapTransport

/-- **A packet that does not fit, or a ring without a slot at `head`, changes nothing.** -/
theorem sendRaw_of_not_ready {inner : Inner} {packet : Bytes}
    (h : ¬(inner.tx.Fits packet ∧ inner.tx.head < inner.tx.numSlots)) :
    ∃ e, sendRaw (some inner) packet = (.error e, some inner) := by
  by_cases hfits : inner.tx.Fits packet
  · have hhead : inner.tx.head ≥ inner.tx.numSlots :=
      UInt32.not_lt.mp fun hlt => h ⟨hfits, hlt⟩
    rw [sendRaw]
    rw [if_neg (Nat.not_lt.mpr hfits.1), if_neg (Nat.not_lt.mpr hfits.2), dif_pos hhead]
    split
    · exact ⟨_, rfl⟩
    · exact ⟨_, rfl⟩
  · exact sendRaw_of_not_fits hfits

/-- The clock after a call, and the port. -/
def ticked (t : NetmapTransport) (c : SendCall (Except String UInt32)) (inner : Option Inner) :
    NetmapTransport where
  inner := inner
  seq := t.seq + 1
  timestamp := t.timestamp + timestampAdvance c.payload.length c.codec t.channels
  ssrc := t.ssrc
  channels := t.channels

variable {t : NetmapTransport} {c : SendCall (Except String UInt32)}

/-- **A call that is refused** moves the clock and nothing else. -/
theorem sendRtp_of_not_ready (h : t.ready c = false) :
    (∃ e, t.sendRtp c.payload c.codec c.answer = (.error e, t.ticked c t.inner)) ∧
      t.handed c = none := by
  cases hinner : t.inner with
  | none =>
    simp only [sendRtp, handed, hinner, sendRaw]
    exact ⟨⟨_, rfl⟩, rfl⟩
  | some inner =>
    simp only [ready, hinner, decide_eq_false_iff_not] at h
    obtain ⟨e, hraw⟩ := sendRaw_of_not_ready h
    simp only [sendRtp, handed, hinner, Option.bind_eq_bind, Option.bind_some, hraw, and_true]
    exact ⟨e, rfl⟩

/-- **A call that goes through** writes the packet and syncs. -/
theorem sendRtp_of_ready (hbacked : t.Backed) (h : t.ready c = true) :
    (∃ result inner, t.sendRtp c.payload c.codec c.answer = (result, t.ticked c (some inner)) ∧
      inner.Backed) ∧ t.handed c = some (t.nextBytes c.payload c.codec) := by
  cases hinner : t.inner with
  | none =>
    simp only [ready, hinner] at h
    exact absurd h Bool.false_ne_true
  | some inner =>
    simp only [ready, hinner, decide_eq_true_eq] at h
    obtain ⟨hfits, hhead⟩ := h
    have hstage := (hbacked inner hinner).stage (t.nextBytes c.payload c.codec) hhead
    have hpacket := Inner.packetAt_stage (hbacked inner hinner) hfits hhead
    simp only [sendRtp, handed, hinner, Option.bind_eq_bind, Option.bind_some,
      sendRaw_of_fits hfits hhead, if_neg (Nat.lt_irrefl _)]
    refine ⟨?_, hpacket⟩
    cases c.answer with
    | error e => exact ⟨_, _, rfl, hstage⟩
    | ok tail => exact ⟨_, _, rfl, hstage⟩

/-- **What a call leaves behind**, refused or not. -/
theorem send_eq (hbacked : t.Backed) (c : SendCall (Except String UInt32)) :
    ∃ inner : Option Inner, (∀ port ∈ inner, port.Backed) ∧ t.send c = t.ticked c inner := by
  cases h : t.ready c with
  | false =>
    obtain ⟨⟨e, hsend⟩, -⟩ := sendRtp_of_not_ready h
    exact ⟨t.inner, hbacked, congrArg Prod.snd hsend⟩
  | true =>
    obtain ⟨⟨result, inner, hsend, hinner⟩, -⟩ := sendRtp_of_ready hbacked h
    refine ⟨some inner, fun port hport => ?_, congrArg Prod.snd hsend⟩
    obtain rfl := Option.some.inj hport
    exact hinner

/-- **The packets of a run** are those of the clock, less the refused ones. -/
theorem sent_eq (hbacked : t.Backed) (calls : List (SendCall (Except String UInt32))) :
    t.sent calls = packetsOf t.channels t.ssrc
      (Stamping.sent (SendCall.ticks t.channels) t.clock
        (Stamping.attempts send ready t calls)) := by
  refine Stamping.emitted_eq
    (fun s => s.Backed ∧ s.channels = t.channels ∧ s.ssrc = t.ssrc) clock
    (fun c k => (c.packet t.channels t.ssrc k).encode) ?_ ?_ ?_ ⟨hbacked, rfl, rfl⟩ calls
  · rintro s c ⟨hs, hchannels, hssrc⟩
    obtain ⟨inner, hinner, hsend⟩ := send_eq hs c
    rw [hsend]
    exact ⟨hinner, hchannels, hssrc⟩
  · rintro s c ⟨hs, hchannels, -⟩
    obtain ⟨inner, -, hsend⟩ := send_eq hs c
    rw [hsend, ← hchannels]
    rfl
  · rintro s c ⟨hs, hchannels, hssrc⟩
    rw [← hchannels, ← hssrc]
    cases h : s.ready c with
    | false => exact (sendRtp_of_not_ready h).2
    | true => exact (sendRtp_of_ready hs h).2

/-- A run without errors is one in which every call is ready. -/
theorem Succeeds.ready {t : NetmapTransport} {calls : List (SendCall (Except String UInt32))}
    (h : t.Succeeds calls) : ∀ a ∈ Stamping.attempts send NetmapTransport.ready t calls,
      a.2 = true := by
  induction calls generalizing t with
  | nil => exact fun a ha => absurd ha List.not_mem_nil
  | cons c calls ih =>
    refine List.forall_mem_cons.mpr ⟨?_, ih h.2⟩
    show t.ready c = true
    rw [← Bool.not_eq_false]
    intro hready
    obtain ⟨⟨e, hsend⟩, -⟩ := sendRtp_of_not_ready hready
    have hresult := h.1
    rw [hsend] at hresult
    cases hresult

end NetmapTransport

/-! ### Calls that are refused -/

/-- **The packets that are sent are in sequence exactly if the refused calls between any two of
them cancel.** -/
theorem sendRtp_consecutive_iff (udp : UdpTransport) (udpCalls : List (SendCall (Option String)))
    (netmap : NetmapTransport) (netmapCalls : List (SendCall (Except String UInt32)))
    (hbacked : netmap.Backed) :
    (Consecutive udp.channels (udp.sent udpCalls) ↔
      Balanced udp.channels
        (Stamping.attempts UdpTransport.send UdpTransport.ready udp udpCalls)) ∧
    (Consecutive netmap.channels (netmap.sent netmapCalls) ↔
      Balanced netmap.channels
        (Stamping.attempts NetmapTransport.send NetmapTransport.ready netmap netmapCalls)) := by
  constructor
  · rw [udp.sent_eq]
    exact consecutive_packetsOf_iff _ _ _ _
  · rw [NetmapTransport.sent_eq hbacked]
    exact consecutive_packetsOf_iff _ _ _ _

/-- A port with three slots, all but one released for sending. -/
def threeSlots : Inner where
  tx := ⟨3, 64, 0, 0, 2, [⟨0, 0⟩, ⟨1, 0⟩, ⟨2, 0⟩], rfl⟩
  rx := ⟨2, 64, 0, 0, 1, [⟨3, 0⟩, ⟨4, 0⟩], rfl⟩
  buffers := List.replicate 5 (List.replicate 64 0)

theorem sendRtp_consecutive_iff_two :
    threeSlots.Backed ∧
      Consecutive 2 ((NetmapTransport.openPort threeSlots 7).sent
        [⟨[0, 1, 0, 2], .pcmL16, .ok 2⟩, ⟨[0, 3, 0, 4], .pcmL16, .ok 0⟩]) := by
  have hbacked : threeSlots.Backed := by decide
  have hport : (NetmapTransport.openPort threeSlots 7).Backed := by
    intro inner hinner
    obtain rfl := Option.some.inj hinner
    exact hbacked
  refine ⟨hbacked, (sendRtp_consecutive_iff (UdpTransport.bind 7) [] _ _ hport).2.mpr ?_⟩
  exact (balanced_ticks_iff 2 _).mp (Stamping.balanced_of_forall (by decide))

/-- **A socket that refuses the second of three packets**: the third has the number after next. -/
theorem sendRtp_skips :
    let sent := (UdpTransport.bind 7).sent
      [⟨[0, 1, 0, 2], .pcmL16, none⟩, ⟨[0, 3, 0, 4], .pcmL16, some "Connection refused"⟩,
        ⟨[0, 5, 0, 6], .pcmL16, none⟩]
    sent.map (fun p => stampOf p.2) = [(0, 0), (2, 2)] ∧ ¬Consecutive 2 sent := by
  refine ⟨by decide, by decide⟩

/-! ### Calls that all go through -/

section Numbered

variable {α : Type}

/-- The calls that send blocks of samples as L16. -/
def l16Calls (quantise : ℚ → α → ℤ) (channels : UInt16) (signals : List (List α × A)) :
    List (SendCall A) :=
  signals.map fun x => ⟨encodeL16 quantise x.1 channels, .pcmL16, x.2⟩

/-- **Packets by number**: the `n`-th has the number `n`, wrapped, and the time of all frames before
it. -/
def Numbered (channels : UInt16) (signals : List (List α)) (datagrams : List Bytes) : Prop :=
  datagrams.length = signals.length ∧ ∀ n bytes, datagrams[n]? = some bytes →
    stampOf bytes = (UInt16.ofNat n,
      UInt32.ofNat ((signals.take n).map fun x => x.length / channels.toNat).sum)

/-- The frames of a payload are those of the block. -/
theorem frames_encodeL16 (quantise : ℚ → α → ℤ) (channels : UInt16) (x : List α) (a : A) :
    SendCall.frames channels ⟨encodeL16 quantise x channels, .pcmL16, a⟩ =
      x.length / channels.toNat := by
  show (encodeL16 quantise x channels).length / (2 * max channels.toNat 1) = _
  rw [encodeL16, length_encodePcm length_packL16]
  obtain hzero | hpos := Nat.eq_zero_or_pos channels.toNat
  · rw [hzero, Nat.div_zero, Nat.zero_mul, Nat.zero_div]
  · rw [Nat.max_eq_left hpos, Nat.mul_comm 2, Nat.mul_div_cancel _ (by omega)]

/-- The `n`-th packet of a stream of blocks. -/
def l16Datagram (quantise : ℚ → α → ℤ) (channels : UInt16) (ssrc : UInt32)
    (signals : List (List α)) (n : ℕ) (x : List α) : Bytes :=
  (SendCall.packet channels ssrc (⟨encodeL16 quantise x channels, .pcmL16, ()⟩ : SendCall Unit)
    (UInt16.ofNat n,
      UInt32.ofNat ((signals.take n).map fun x => x.length / channels.toNat).sum)).encode

/-- **The datagrams of a run in which no call is refused**, whichever transport it is. -/
theorem getElem?_l16 (quantise : ℚ → α → ℤ) (channels : UInt16) (ssrc : UInt32)
    {signals : List (List α × A)} {attempts : List (SendCall A × Bool)}
    (hcalls : attempts.map Prod.fst = l16Calls quantise channels signals)
    (hall : ∀ a ∈ attempts, a.2 = true) (n : ℕ) :
    ((packetsOf channels ssrc
        (Stamping.sent (SendCall.ticks channels) 0 attempts)).map Prod.snd)[n]? =
      (signals.map Prod.fst)[n]?.map
        (l16Datagram quantise channels ssrc (signals.map Prod.fst) n) := by
  have hframes : ((l16Calls quantise channels signals).take n).map (SendCall.frames channels) =
      ((signals.map Prod.fst).take n).map fun x => x.length / channels.toNat := by
    rw [l16Calls, ← List.map_take, ← List.map_take, List.map_map, List.map_map]
    exact List.map_congr_left fun x _ => frames_encodeL16 quantise channels x.1 x.2
  rw [List.getElem?_map, getElem?_packetsOf hcalls hall, hframes, l16Calls, List.getElem?_map,
    List.getElem?_map, Option.map_map, Option.map_map, Option.map_map]
  rfl

theorem numbered_of_getElem? {quantise : ℚ → α → ℤ} {channels : UInt16} {ssrc : UInt32}
    {signals : List (List α)} {datagrams : List Bytes}
    (h : ∀ n, datagrams[n]? = signals[n]?.map (l16Datagram quantise channels ssrc signals n)) :
    Numbered channels signals datagrams := by
  refine ⟨?_, fun n bytes hbytes => ?_⟩
  · refine le_antisymm (List.getElem?_eq_none_iff.mp ?_) (List.getElem?_eq_none_iff.mp ?_)
    · rw [h, List.getElem?_eq_none le_rfl, Option.map_none]
    · rw [← Option.map_eq_none_iff, ← h, List.getElem?_eq_none le_rfl]
  · rw [h, Option.map_eq_some_iff] at hbytes
    obtain ⟨x, -, rfl⟩ := hbytes
    exact stampOf_packet _ _ _ _

/-- What a socket that refuses nothing is handed. -/
theorem UdpTransport.getElem?_sent_l16 (quantise : ℚ → α → ℤ) (channels : UInt16) (ssrc : UInt32)
    (signals : List (List α)) (n : ℕ) :
    ((((UdpTransport.bind ssrc).withChannels channels).sent
      (l16Calls quantise channels (signals.map (·, none)))).map Prod.snd)[n]? =
        signals[n]?.map (l16Datagram quantise channels ssrc signals n) := by
  have hready : ∀ t : UdpTransport, ∀ c ∈ l16Calls quantise channels (signals.map (·, none)),
      t.ready c = true := by
    intro t c hc
    rw [l16Calls, List.map_map] at hc
    obtain ⟨x, -, rfl⟩ := List.mem_map.mp hc
    rfl
  have hfst : (signals.map fun x => (x, (none : Option String))).map Prod.fst = signals := by
    rw [List.map_map]
    exact List.map_id' signals
  have hall : ∀ a ∈ Stamping.attempts UdpTransport.send UdpTransport.ready
      ((UdpTransport.bind ssrc).withChannels channels)
      (l16Calls quantise channels (signals.map (·, none))), a.2 = true :=
    Stamping.forall_attempts hready _
  have h := getElem?_l16 quantise channels ssrc (Stamping.map_fst_attempts _ _) hall n
  rw [hfst] at h
  rw [UdpTransport.sent_eq]
  exact h

/-- **Streams of blocks of samples.** As long as every call goes through, either transport numbers
its packets and gives them the time of the frames before, and the bytes in the slots of the one are
those that the other hands to its socket. -/
theorem sendRtp_numbered (quantise : ℚ → α → ℤ) (channels : UInt16) (ssrc : UInt32) :
    (∀ signals : List (List α),
      Numbered channels signals ((((UdpTransport.bind ssrc).withChannels channels).sent
        (l16Calls quantise channels (signals.map (·, none)))).map Prod.snd)) ∧
    ∀ (port : Inner) (signals : List (List α × Except String UInt32)),
      let netmap := { NetmapTransport.openPort port ssrc with channels := channels }
      port.Backed → netmap.Succeeds (l16Calls quantise channels signals) →
        Numbered channels (signals.map Prod.fst)
          ((netmap.sent (l16Calls quantise channels signals)).map Prod.snd) ∧
        (netmap.sent (l16Calls quantise channels signals)).map Prod.snd =
          (((UdpTransport.bind ssrc).withChannels channels).sent
            (l16Calls quantise channels (signals.map fun x => (x.1, none)))).map Prod.snd := by
  have hudp := UdpTransport.getElem?_sent_l16 quantise channels ssrc
  refine ⟨fun signals => numbered_of_getElem? (hudp signals), ?_⟩
  intro port signals netmap hbacked hok
  have hport : netmap.Backed := by
    intro inner hinner
    obtain rfl := Option.some.inj hinner
    exact hbacked
  have hnetmap : ∀ n, ((netmap.sent (l16Calls quantise channels signals)).map Prod.snd)[n]? =
      (signals.map Prod.fst)[n]?.map
        (l16Datagram quantise channels ssrc (signals.map Prod.fst) n) := by
    intro n
    rw [NetmapTransport.sent_eq hport]
    exact getElem?_l16 quantise channels ssrc (Stamping.map_fst_attempts _ _) hok.ready n
  refine ⟨numbered_of_getElem? hnetmap, List.ext_getElem? fun n => ?_⟩
  have hsame := hudp (signals.map Prod.fst) n
  rw [List.map_map] at hsame
  rw [hnetmap]
  exact hsame.symm

end Numbered

/-- Two packets of one stereo frame each, with integers as samples. -/
theorem sendRtp_numbered_two :
    let signals : List (List ℤ × Except String UInt32) := [([1, 2], .ok 2), ([3, 4], .ok 0)]
    let netmap := NetmapTransport.openPort threeSlots 7
    threeSlots.Backed ∧ netmap.Succeeds (l16Calls (fun _ s => s) 2 signals) ∧
      Numbered 2 (signals.map Prod.fst)
        ((netmap.sent (l16Calls (fun _ s => s) 2 signals)).map Prod.snd) := by
  have hbacked : threeSlots.Backed := by decide
  have hok : (NetmapTransport.openPort threeSlots 7).Succeeds (l16Calls (fun _ s => s) 2
      [([1, 2], .ok 2), ([3, 4], .ok 0)]) := ⟨rfl, rfl, trivial⟩
  exact ⟨hbacked, hok, ((sendRtp_numbered (fun _ s => s) 2 7).2 threeSlots _ hbacked hok).1⟩

end NetRtp

end SonicBrew
