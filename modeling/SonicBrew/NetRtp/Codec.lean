import Mathlib.Data.Bool.Basic
import Mathlib.Data.List.GetD
import SonicBrew.Lib.Fallible
import SonicBrew.Lib.Wire

/-!
# RTP packets

A packet on the wire is a twelve-byte header, a list of contributing sources (CSRCs) and the
payload. The header packs its version, its flags, the number of CSRCs and the payload type into
two bytes; the sequence number, the timestamp and the source follow, most significant byte first.

Reading and writing are not symmetric. The parser skips the CSRC list that the header announces
and keeps only its length; the encoder writes the length back but no list. So a packet without
CSRCs survives the round trip in both directions, while one with CSRCs, parsed and encoded again,
announces a list that is not there, and its next reader takes the first bytes of the payload for
it.
-/

namespace SonicBrew

namespace NetRtp

open Format (beBytes beNat)

/-- The errors of a transport. -/
inductive TransportError where
  | unimplemented (what : String)
  | network (msg : String)
  deriving DecidableEq, Repr

/-- `RTP_VERSION`. -/
def rtpVersion : UInt8 := 2

/-- `RTP_HEADER_LEN`: the length of a header without CSRCs. -/
def rtpHeaderLen : ℕ := 12

/-- The fixed header. -/
structure RtpHeader where
  version : UInt8
  padding : Bool
  extension : Bool
  csrcCount : UInt8
  marker : Bool
  payloadType : UInt8
  seq : UInt16
  timestamp : UInt32
  ssrc : UInt32
  deriving DecidableEq, Repr

/-- A header and everything after the CSRC list. -/
structure RtpPacket where
  header : RtpHeader
  payload : Bytes
  deriving DecidableEq, Repr

namespace RtpHeader

/-- The header of a fresh packet: no flags, no CSRCs. -/
def new (payloadType : UInt8) (seq : UInt16) (timestamp ssrc : UInt32) : RtpHeader where
  version := rtpVersion
  padding := false
  extension := false
  csrcCount := 0
  marker := false
  payloadType := payloadType &&& 0x7F
  seq
  timestamp
  ssrc

/-- The fields of a header, at their places. -/
def read (buf : Bytes) : RtpHeader :=
  let at_ (i : ℕ) : UInt8 := buf.getD i 0
  { version := (at_ 0 >>> 6) &&& 0x03
    padding := (at_ 0 >>> 5) &&& 0x01 ≠ 0
    extension := (at_ 0 >>> 4) &&& 0x01 ≠ 0
    csrcCount := at_ 0 &&& 0x0F
    marker := (at_ 1 >>> 7) &&& 0x01 ≠ 0
    payloadType := at_ 1 &&& 0x7F
    seq := UInt16.ofNat (beNat [at_ 2, at_ 3])
    timestamp := UInt32.ofNat (beNat [at_ 4, at_ 5, at_ 6, at_ 7])
    ssrc := UInt32.ofNat (beNat [at_ 8, at_ 9, at_ 10, at_ 11]) }

/-- `RtpHeader::parse`: the fields, once there are enough bytes and the version is right. -/
def parse (buf : Bytes) : Except TransportError RtpHeader :=
  let len := buf.length
  if len < rtpHeaderLen then
    .error (.network s!"RTP header truncated: got {len} bytes, need at least {rtpHeaderLen}")
  else
    let version := (read buf).version
    if version ≠ rtpVersion then
      .error (.network s!"bad RTP version: got {version}, expected {rtpVersion}")
    else .ok (read buf)

/-- The first byte: version, padding, extension, number of CSRCs. -/
def byte0 (h : RtpHeader) : UInt8 :=
  (rtpVersion <<< 6) ||| (h.padding.toUInt8 <<< 5) ||| (h.extension.toUInt8 <<< 4) |||
    (h.csrcCount &&& 0x0F)

/-- The second byte: marker and payload type. -/
def byte1 (h : RtpHeader) : UInt8 := (h.marker.toUInt8 <<< 7) ||| (h.payloadType &&& 0x7F)

/-- `RtpHeader::encode`: twelve bytes, whatever the number of CSRCs. -/
def encode (h : RtpHeader) : Bytes :=
  [h.byte0, h.byte1] ++ beBytes 2 h.seq.toNat ++ beBytes 4 h.timestamp.toNat ++
    beBytes 4 h.ssrc.toNat

/-- The length of a header on the wire, its CSRCs included. -/
def encodedLen (h : RtpHeader) : ℕ := rtpHeaderLen + 4 * h.csrcCount.toNat

end RtpHeader

namespace RtpPacket

/-- `RtpPacket::encode`. -/
def encode (p : RtpPacket) : Bytes := p.header.encode ++ p.payload

/-- `RtpPacket::parse`. -/
def parse (buf : Bytes) : Except TransportError RtpPacket := do
  let header ← RtpHeader.parse buf
  let headerLen := header.encodedLen
  let len := buf.length
  if len < headerLen then
    .error (.network
      s!"RTP packet shorter than its header: got {len} bytes, header claims {headerLen}")
  else
    return { header, payload := buf.drop headerLen }

end RtpPacket

/-! ### Bits of a byte -/

section Bits

/-- Bits `k` to `k + w - 1` of a byte, as the code cuts them out. -/
theorem toNat_shiftRight_and (b : UInt8) {k w : ℕ} (hk : k < 8) (hw : w ≤ 8) :
    ((b >>> UInt8.ofNat k) &&& UInt8.ofNat (2 ^ w - 1)).toNat = b.toNat / 2 ^ k % 2 ^ w := by
  have hpow : 2 ^ w ≤ 2 ^ 8 := Nat.pow_le_pow_right (by decide) hw
  have hmask : (UInt8.ofNat (2 ^ w - 1)).toNat = 2 ^ w - 1 := by
    rw [UInt8.toNat_ofNat']
    omega
  have hshift : (UInt8.ofNat k).toNat % 8 = k := by
    rw [UInt8.toNat_ofNat']
    omega
  rw [UInt8.toNat_and, UInt8.toNat_shiftRight, hmask, hshift, Nat.shiftRight_eq_div_pow,
    Nat.and_two_pow_sub_one_eq_mod]

/-- A flag that is read off one bit is that bit. -/
theorem toNat_flag (b : UInt8) {k : ℕ} (hk : k < 8) :
    (decide ((b >>> UInt8.ofNat k) &&& 0x01 ≠ 0)).toNat = b.toNat / 2 ^ k % 2 := by
  have hbit : ((b >>> UInt8.ofNat k) &&& 0x01).toNat = b.toNat / 2 ^ k % 2 :=
    toNat_shiftRight_and b hk (w := 1) (by decide)
  by_cases h0 : (b >>> UInt8.ofNat k) &&& 0x01 = 0
  · rw [decide_eq_false (not_not.mpr h0), ← hbit, h0]
    rfl
  · have hne : ((b >>> UInt8.ofNat k) &&& 0x01).toNat ≠ 0 := fun h => h0 (UInt8.toNat_inj.mp h)
    rw [decide_eq_true h0]
    change 1 = _
    omega

/-- The low bits of a byte are its remainder. -/
theorem toNat_and_mask (b : UInt8) {w : ℕ} (hw : w ≤ 8) :
    (b &&& UInt8.ofNat (2 ^ w - 1)).toNat = b.toNat % 2 ^ w := by
  have h := toNat_shiftRight_and b (k := 0) (by decide) hw
  rw [pow_zero, Nat.div_one] at h
  exact h

theorem and_mask (b : UInt8) {w : ℕ} (hw : w ≤ 8) :
    b &&& UInt8.ofNat (2 ^ w - 1) = UInt8.ofNat (b.toNat % 2 ^ w) := by
  apply UInt8.toNat_inj.mp
  have hb : b.toNat < 256 := b.toNat_lt
  have hle : b.toNat % 2 ^ w ≤ b.toNat := Nat.mod_le _ _
  rw [toNat_and_mask b hw, UInt8.toNat_ofNat']
  omega

end Bits

namespace RtpHeader

/-- The first byte, as a number. -/
theorem toNat_byte0 (h : RtpHeader) :
    h.byte0.toNat =
      128 + 32 * h.padding.toNat + 16 * h.extension.toNat + h.csrcCount.toNat % 16 := by
  have hbits : ∀ (p x : Bool) (c : Fin 16),
      ((rtpVersion <<< 6) ||| (p.toUInt8 <<< 5) ||| (x.toUInt8 <<< 4) ||| UInt8.ofNat c).toNat =
        128 + 32 * p.toNat + 16 * x.toNat + c := by decide
  have hmask : h.csrcCount &&& 0x0F = UInt8.ofNat (h.csrcCount.toNat % 16) :=
    and_mask h.csrcCount (w := 4) (by decide)
  rw [byte0, hmask]
  exact hbits h.padding h.extension ⟨_, Nat.mod_lt _ (by decide)⟩

/-- The second byte, as a number. -/
theorem toNat_byte1 (h : RtpHeader) :
    h.byte1.toNat = 128 * h.marker.toNat + h.payloadType.toNat % 128 := by
  have hbits : ∀ (m : Bool) (t : Fin 128),
      ((m.toUInt8 <<< 7) ||| UInt8.ofNat t).toNat = 128 * m.toNat + t := by decide +kernel
  have hmask : h.payloadType &&& 0x7F = UInt8.ofNat (h.payloadType.toNat % 128) :=
    and_mask h.payloadType (w := 7) (by decide)
  rw [byte1, hmask]
  exact hbits h.marker ⟨_, Nat.mod_lt _ (by decide)⟩

/-! ### The fields as numbers -/

theorem toNat_version_read (buf : Bytes) :
    (read buf).version.toNat = (buf.getD 0 0).toNat / 64 := by
  have h : (read buf).version.toNat = (buf.getD 0 0).toNat / 2 ^ 6 % 2 ^ 2 :=
    toNat_shiftRight_and _ (k := 6) (w := 2) (by decide) (by decide)
  have hb : (buf.getD 0 0).toNat < 256 := UInt8.toNat_lt _
  omega

theorem toNat_padding_read (buf : Bytes) :
    (read buf).padding.toNat = (buf.getD 0 0).toNat / 32 % 2 :=
  toNat_flag _ (k := 5) (by decide)

theorem toNat_extension_read (buf : Bytes) :
    (read buf).extension.toNat = (buf.getD 0 0).toNat / 16 % 2 :=
  toNat_flag _ (k := 4) (by decide)

theorem toNat_csrcCount_read (buf : Bytes) :
    (read buf).csrcCount.toNat = (buf.getD 0 0).toNat % 16 :=
  toNat_and_mask _ (w := 4) (by decide)

theorem toNat_marker_read (buf : Bytes) :
    (read buf).marker.toNat = (buf.getD 1 0).toNat / 128 % 2 :=
  toNat_flag _ (k := 7) (by decide)

theorem toNat_payloadType_read (buf : Bytes) :
    (read buf).payloadType.toNat = (buf.getD 1 0).toNat % 128 :=
  toNat_and_mask _ (w := 7) (by decide)

/-! ### Encoding what was read -/

@[simp] theorem length_encode (h : RtpHeader) : h.encode.length = rtpHeaderLen := by
  simp [encode, rtpHeaderLen]

theorem byte0_read {buf : Bytes} (hv : (buf.getD 0 0).toNat / 64 = 2) :
    (read buf).byte0 = buf.getD 0 0 := by
  apply UInt8.toNat_inj.mp
  rw [toNat_byte0, toNat_padding_read, toNat_extension_read, toNat_csrcCount_read]
  omega

theorem byte1_read (buf : Bytes) : (read buf).byte1 = buf.getD 1 0 := by
  apply UInt8.toNat_inj.mp
  have hb : (buf.getD 1 0).toNat < 256 := UInt8.toNat_lt _
  rw [toNat_byte1, toNat_marker_read, toNat_payloadType_read]
  omega

/-- The first `n` bytes, one by one. -/
theorem map_getD_range {buf : Bytes} {n : ℕ} (h : n ≤ buf.length) :
    (List.range n).map (buf.getD · 0) = buf.take n := by
  apply List.ext_getElem
  · simp [h]
  · intro i hi _
    have hlt : i < buf.length := by
      simp only [List.length_map, List.length_range] at hi
      omega
    simp only [List.getElem_map, List.getElem_range, List.getElem_take]
    exact List.getD_eq_getElem _ _ hlt

/-- **A header that was read encodes to the bytes it was read from.** -/
theorem encode_read {buf : Bytes} (hlen : rtpHeaderLen ≤ buf.length)
    (hv : (buf.getD 0 0).toNat / 64 = 2) : (read buf).encode = buf.take rtpHeaderLen := by
  have hseq (x y : UInt8) : beBytes 2 (UInt16.ofNat (beNat [x, y])).toNat = [x, y] := by
    have hlt : beNat [x, y] < 256 ^ 2 := Format.beNat_lt [x, y]
    rw [UInt16.toNat_ofNat', Nat.mod_eq_of_lt (by omega)]
    exact Format.beBytes_beNat [x, y]
  have hword (x y z w : UInt8) :
      beBytes 4 (UInt32.ofNat (beNat [x, y, z, w])).toNat = [x, y, z, w] := by
    have hlt : beNat [x, y, z, w] < 256 ^ 4 := Format.beNat_lt [x, y, z, w]
    rw [UInt32.toNat_ofNat', Nat.mod_eq_of_lt (by omega)]
    exact Format.beBytes_beNat [x, y, z, w]
  rw [← map_getD_range hlen, encode, byte0_read hv, byte1_read]
  simp only [read, hseq, hword]
  rfl

/-! ### Reading what was encoded -/

/-- A header that fits its twelve bytes: the version is the only one there is, the count has
four bits and the payload type seven. -/
structure Fits (h : RtpHeader) : Prop where
  version : h.version = rtpVersion
  csrcCount : h.csrcCount.toNat < 16
  payloadType : h.payloadType.toNat < 128

/-- **Reading undoes encoding**, whatever follows the header. -/
theorem read_encode {h : RtpHeader} (hfits : h.Fits) (rest : Bytes) :
    read (h.encode ++ rest) = h := by
  have hbool : Function.Injective Bool.toNat := Function.LeftInverse.injective Bool.ofNat_toNat
  have hp : h.padding.toNat ≤ 1 := Bool.toNat_le _
  have hx : h.extension.toNat ≤ 1 := Bool.toNat_le _
  have hm : h.marker.toNat ≤ 1 := Bool.toNat_le _
  have hc := hfits.csrcCount
  have ht := hfits.payloadType
  have h0 : (h.encode ++ rest).getD 0 0 = h.byte0 := rfl
  have h1 : (h.encode ++ rest).getD 1 0 = h.byte1 := rfl
  have b0 := toNat_byte0 h
  have b1 := toNat_byte1 h
  have hversion : (read (h.encode ++ rest)).version = h.version := by
    apply UInt8.toNat_inj.mp
    rw [toNat_version_read, h0, hfits.version]
    change _ = 2
    omega
  have hpadding : (read (h.encode ++ rest)).padding = h.padding := by
    apply hbool
    rw [toNat_padding_read, h0]
    omega
  have hextension : (read (h.encode ++ rest)).extension = h.extension := by
    apply hbool
    rw [toNat_extension_read, h0]
    omega
  have hcsrc : (read (h.encode ++ rest)).csrcCount = h.csrcCount := by
    apply UInt8.toNat_inj.mp
    rw [toNat_csrcCount_read, h0]
    omega
  have hmarker : (read (h.encode ++ rest)).marker = h.marker := by
    apply hbool
    rw [toNat_marker_read, h1]
    omega
  have htype : (read (h.encode ++ rest)).payloadType = h.payloadType := by
    apply UInt8.toNat_inj.mp
    rw [toNat_payloadType_read, h1]
    omega
  have hseq : (read (h.encode ++ rest)).seq = h.seq := by
    change UInt16.ofNat (beNat (beBytes 2 h.seq.toNat)) = h.seq
    have hlt := h.seq.toNat_lt
    rw [Format.beNat_beBytes, Nat.mod_eq_of_lt (by omega), UInt16.ofNat_toNat]
  have htimestamp : (read (h.encode ++ rest)).timestamp = h.timestamp :=
    Format.ofBe32_be32 h.timestamp
  have hssrc : (read (h.encode ++ rest)).ssrc = h.ssrc := Format.ofBe32_be32 h.ssrc
  obtain ⟨⟩ := h
  simp only [read, mk.injEq] at *
  exact ⟨hversion, hpadding, hextension, hcsrc, hmarker, htype, hseq, htimestamp, hssrc⟩

end RtpHeader

/-! ### What is accepted -/

/-- The number of CSRCs that the first byte of a packet announces. -/
def csrcsOf (buf : Bytes) : ℕ := (buf.getD 0 0).toNat % 16

/-- **What a packet has to satisfy**: there is a whole header, its two top bits say version 2,
and the CSRC list that it announces is there. -/
structure Accepted (buf : Bytes) : Prop where
  header : rtpHeaderLen ≤ buf.length
  version : (buf.getD 0 0).toNat / 64 = 2
  csrcs : rtpHeaderLen + 4 * csrcsOf buf ≤ buf.length

theorem RtpHeader.parse_eq_ok_iff {buf : Bytes} {h : RtpHeader} :
    RtpHeader.parse buf = .ok h ↔
      rtpHeaderLen ≤ buf.length ∧ (buf.getD 0 0).toNat / 64 = 2 ∧ h = RtpHeader.read buf := by
  have hv : (read buf).version = rtpVersion ↔ (buf.getD 0 0).toNat / 64 = 2 := by
    rw [← UInt8.toNat_inj, toNat_version_read]
    rfl
  by_cases hlen : buf.length < rtpHeaderLen
  · rw [RtpHeader.parse, if_pos hlen]
    constructor
    · intro h
      cases h
    · rintro ⟨hle, -, -⟩
      omega
  · rw [RtpHeader.parse, if_neg hlen]
    by_cases hversion : (read buf).version = rtpVersion
    · rw [if_neg (not_not.mpr hversion), Except.ok.injEq, eq_comm]
      exact ⟨fun heq => ⟨not_lt.mp hlen, hv.mp hversion, heq⟩, fun h => h.2.2⟩
    · rw [if_pos hversion]
      constructor
      · intro h
        cases h
      · rintro ⟨-, htop, -⟩
        exact absurd (hv.mpr htop) hversion

theorem RtpHeader.encodedLen_read (buf : Bytes) :
    (RtpHeader.read buf).encodedLen = rtpHeaderLen + 4 * csrcsOf buf := by
  rw [encodedLen, toNat_csrcCount_read, csrcsOf]

namespace RtpPacket

/-- **What the parser accepts, and what it makes of it.** -/
theorem parse_eq_ok_iff {buf : Bytes} {p : RtpPacket} :
    parse buf = .ok p ↔
      Accepted buf ∧ p = ⟨RtpHeader.read buf, buf.drop (rtpHeaderLen + 4 * csrcsOf buf)⟩ := by
  rw [parse, bind_eq_ok]
  constructor
  · rintro ⟨h, hparse, hrest⟩
    obtain ⟨hlen, hversion, rfl⟩ := RtpHeader.parse_eq_ok_iff.mp hparse
    simp only [RtpHeader.encodedLen_read] at hrest
    by_cases hshort : buf.length < rtpHeaderLen + 4 * csrcsOf buf
    · rw [if_pos hshort] at hrest
      cases hrest
    · rw [if_neg hshort] at hrest
      exact ⟨⟨hlen, hversion, not_lt.mp hshort⟩, (Except.ok.inj hrest).symm⟩
  · rintro ⟨hacc, rfl⟩
    refine ⟨_, RtpHeader.parse_eq_ok_iff.mpr ⟨hacc.header, hacc.version, rfl⟩, ?_⟩
    simp only [RtpHeader.encodedLen_read, if_neg (not_lt.mpr hacc.csrcs)]
    rfl

theorem exists_parse_iff {buf : Bytes} : (∃ p, parse buf = .ok p) ↔ Accepted buf := by
  constructor
  · rintro ⟨p, hp⟩
    exact (parse_eq_ok_iff.mp hp).1
  · intro hacc
    exact ⟨_, parse_eq_ok_iff.mpr ⟨hacc, rfl⟩⟩

/-- **Parsing an encoded packet**: the header comes back, and as many words of the payload as
the header announces CSRCs are taken for them. -/
theorem parse_encode_eq_ok_iff {p q : RtpPacket} (hfits : p.header.Fits) :
    parse p.encode = .ok q ↔
      4 * p.header.csrcCount.toNat ≤ p.payload.length ∧
        q = ⟨p.header, p.payload.drop (4 * p.header.csrcCount.toNat)⟩ := by
  have hread : RtpHeader.read p.encode = p.header := RtpHeader.read_encode hfits p.payload
  have hcsrcs : csrcsOf p.encode = p.header.csrcCount.toNat := by
    rw [csrcsOf, ← RtpHeader.toNat_csrcCount_read, hread]
  have hversion : (p.encode.getD 0 0).toNat / 64 = 2 := by
    rw [← RtpHeader.toNat_version_read, hread, hfits.version]
    rfl
  have hlen : p.encode.length = rtpHeaderLen + p.payload.length := by
    rw [encode, List.length_append, RtpHeader.length_encode]
  have hdrop : p.encode.drop (rtpHeaderLen + 4 * p.header.csrcCount.toNat) =
      p.payload.drop (4 * p.header.csrcCount.toNat) := by
    rw [encode, ← RtpHeader.length_encode p.header, List.drop_append]
    simp
  rw [parse_eq_ok_iff, hread, hcsrcs, hdrop]
  constructor
  · rintro ⟨hacc, rfl⟩
    have hle := hacc.csrcs
    rw [hcsrcs, hlen] at hle
    exact ⟨by omega, rfl⟩
  · rintro ⟨hle, rfl⟩
    exact ⟨⟨by omega, hversion, by omega⟩, rfl⟩

theorem fits_of_parse {buf : Bytes} {p : RtpPacket} (h : parse buf = .ok p) : p.header.Fits := by
  obtain ⟨hacc, rfl⟩ := parse_eq_ok_iff.mp h
  refine ⟨UInt8.toNat_inj.mp ?_, ?_, ?_⟩
  · rw [RtpHeader.toNat_version_read, hacc.version]
    rfl
  · rw [RtpHeader.toNat_csrcCount_read]
    exact Nat.mod_lt _ (by decide)
  · rw [RtpHeader.toNat_payloadType_read]
    exact Nat.mod_lt _ (by decide)

/-- Without CSRCs, encoding undoes parsing. -/
theorem encode_of_parse {buf : Bytes} {p : RtpPacket} (h : parse buf = .ok p)
    (hcsrcs : csrcsOf buf = 0) : p.encode = buf := by
  obtain ⟨hacc, rfl⟩ := parse_eq_ok_iff.mp h
  rw [encode, RtpHeader.encode_read hacc.header hacc.version, hcsrcs]
  exact List.take_append_drop _ _

/-- Without CSRCs, parsing undoes encoding. -/
theorem parse_encode {p : RtpPacket} (hfits : p.header.Fits) (hcsrcs : p.header.csrcCount = 0) :
    parse p.encode = .ok p := by
  rw [parse_encode_eq_ok_iff hfits, hcsrcs]
  exact ⟨Nat.zero_le _, rfl⟩

end RtpPacket

/-! ### The round trips -/

/-- **The packet format, exactly.** A byte string is accepted when it has a whole header, its
version bits are 2 and the announced CSRC list is there, and the payload is what follows the
list; without CSRCs, encoding and parsing undo each other in both directions. -/
theorem parse_encode_exact :
    (∀ b : Bytes, (∃ p, RtpPacket.parse b = .ok p) ↔
      12 ≤ b.length ∧ (b.getD 0 0).toNat / 64 = 2 ∧
        12 + 4 * ((b.getD 0 0).toNat % 16) ≤ b.length) ∧
    (∀ (b : Bytes) (p : RtpPacket), RtpPacket.parse b = .ok p →
      p.payload = b.drop (12 + 4 * ((b.getD 0 0).toNat % 16))) ∧
    (∀ p : RtpPacket, p.header.version = 2 → p.header.csrcCount = 0 →
      p.header.payloadType < 128 → RtpPacket.parse p.encode = .ok p) ∧
    ∀ (b : Bytes) (p : RtpPacket), RtpPacket.parse b = .ok p →
      (b.getD 0 0).toNat % 16 = 0 → p.encode = b := by
  refine ⟨fun b => ?_, fun b p hparse => ?_, fun p hversion hcsrcs htype => ?_,
    fun b p hparse hcsrcs => RtpPacket.encode_of_parse hparse hcsrcs⟩
  · rw [RtpPacket.exists_parse_iff]
    constructor
    · rintro ⟨hlen, hversion, hcsrcs⟩
      exact ⟨hlen, hversion, hcsrcs⟩
    · rintro ⟨hlen, hversion, hcsrcs⟩
      exact ⟨hlen, hversion, hcsrcs⟩
  · obtain ⟨-, rfl⟩ := RtpPacket.parse_eq_ok_iff.mp hparse
    rfl
  · have hzero : p.header.csrcCount.toNat < 16 := by
      rw [hcsrcs]
      decide
    exact RtpPacket.parse_encode ⟨hversion, hzero, UInt8.lt_iff_toNat_lt.mp htype⟩ hcsrcs

/-- Two samples of a mono stream, with the marker set. -/
def markedPacket : RtpPacket :=
  ⟨{ RtpHeader.new 11 65535 0xFFFFFF00 0xC0FFEE with marker := true }, [0x7F, 0xFF, 0x80, 0x00]⟩

theorem parse_encode_exact_marked : RtpPacket.parse markedPacket.encode = .ok markedPacket :=
  parse_encode_exact.2.2.1 markedPacket rfl rfl (by decide)

/-- **A parsed packet survives being encoded and parsed again exactly if it had no CSRCs.**
Otherwise the encoder announces CSRCs without writing any, and the parser takes them out of the
payload: either there is not enough of it, or what is left of it is shorter. -/
theorem reencode_iff {b : Bytes} {p : RtpPacket} (hparse : RtpPacket.parse b = .ok p) :
    RtpPacket.parse p.encode = .ok p ↔ csrcsOf b = 0 := by
  have hfits := RtpPacket.fits_of_parse hparse
  have hcount : p.header.csrcCount.toNat = csrcsOf b := by
    obtain ⟨-, rfl⟩ := RtpPacket.parse_eq_ok_iff.mp hparse
    rw [RtpHeader.toNat_csrcCount_read, csrcsOf]
  rw [RtpPacket.parse_encode_eq_ok_iff hfits, hcount]
  constructor
  · rintro ⟨hle, hp⟩
    have hpayload : p.payload = p.payload.drop (4 * csrcsOf b) := congrArg RtpPacket.payload hp
    have hlen := congrArg List.length hpayload
    rw [List.length_drop] at hlen
    omega
  · intro hzero
    rw [hzero]
    exact ⟨Nat.zero_le _, rfl⟩

theorem reencode_iff_marked :
    RtpPacket.parse markedPacket.encode = .ok markedPacket ↔ csrcsOf markedPacket.encode = 0 :=
  reencode_iff (RtpPacket.parse_encode ⟨rfl, by decide, by decide⟩ rfl)

/-- A packet of a mixer: its header announces one CSRC, and four bytes of payload follow it. -/
def mixedPacket : Bytes :=
  [0x81, 0x0A, 0, 7, 0, 0, 0, 96, 0, 0, 0, 5] ++ [0xAA, 0xBB, 0xCC, 0xDD] ++ [1, 2, 3, 4]

/-- Encoded and parsed again, the mixer's packet has lost its payload; without a payload it is
not even accepted. -/
theorem reencode_loses_payload :
    (∃ p q, RtpPacket.parse mixedPacket = .ok p ∧ RtpPacket.parse p.encode = .ok q ∧
      p.payload = [1, 2, 3, 4] ∧ q.payload = []) ∧
    ∃ p, RtpPacket.parse (mixedPacket.take 16) = .ok p ∧
      RtpPacket.parse p.encode = .error (.network
        "RTP packet shorter than its header: got 12 bytes, header claims 16") :=
  ⟨⟨_, _, rfl, rfl, rfl, rfl⟩, _, rfl, rfl⟩

end NetRtp

end SonicBrew
