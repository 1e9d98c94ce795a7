import Mathlib.Data.Nat.Bitwise
import Mathlib.Data.Rat.Floor
import SonicBrew.Lib.Blocks
import SonicBrew.Lib.Rounding
import SonicBrew.NetRtp.Transport

/-!
# Samples on the wire

The samples of a payload are integers of two or three bytes, the high byte first, the channels in
turn. The encoder takes a block of samples, channel after channel; it clamps each of them, scales
it, rounds it, and packs it. The decoder unpacks and divides.

The two layouts undo each other whatever the samples are and however they are packed
(`SonicBrew.NetRtp.decodePcm_encodePcm`), so a block comes back with each sample on its own way
through the integers. There, packing is two's complement in either width, although the code does
the three-byte one by hand (`SonicBrew.NetRtp.packL24_eq_beInt`,
`SonicBrew.NetRtp.unpackL24_eq_ofBeInt`), and what remains is the rounding, and the scale that is
one less on the way up than on the way down (`SonicBrew.NetRtp.pcm_roundTrip`).

The encoder only hands its samples to `clamp`, `*` and `round`, so it is given here for any type of
samples with an operation in their place; the exact one is `SonicBrew.NetRtp.quantise`.
-/

namespace SonicBrew

namespace NetRtp

open Format (beNat beBytes beInt ofBeInt)

/-! ### Encoding -/

/-- `L16_FULL_SCALE`. -/
def l16FullScale : ℚ := 32767

/-- `L24_FULL_SCALE`. -/
def l24FullScale : ℚ := 8388607

/-- `L24_DECODE_DIV`. -/
def l24DecodeDiv : ℚ := 8388608

/-- `clamp(-1.0, 1.0)`. -/
def clamp (s : ℚ) : ℚ := max (-1) (min s 1)

/-- `(s.clamp(-1.0, 1.0) * full_scale).round() as i32`. Both scales are far below what would
saturate. -/
def quantise (fullScale s : ℚ) : ℤ := roundHalfAway (clamp s * fullScale)

section Encode

variable {α : Type} (quantise : ℚ → α → ℤ)

/-- `encode_pcm`: blocks of one channel each, to samples with the channels in turn. -/
def encodePcm (frames : List α) (channels : UInt16) (fullScale : ℚ) (pack : ℤ → Bytes) : Bytes :=
  let ch := channels.toNat
  if ch = 0 then []
  else
    let numFrames := frames.length / ch
    (List.range numFrames).flatMap fun i =>
      (List.range ch).flatMap fun c =>
        match frames[c * numFrames + i]? with
        | some s => pack (quantise fullScale s)
        -- the index is always in range
        | none => []

/-- The packing of `encode_l16`: `(s as i16).to_be_bytes()`. -/
def packL16 (s : ℤ) : Bytes := beBytes 2 (Int16.ofInt s).toUInt16.toNat

/-- The packing of `encode_l24`. -/
def packL24 (s : ℤ) : Bytes :=
  let s := Int32.ofInt s
  [((s >>> 16) &&& 0xFF).toUInt32.toUInt8, ((s >>> 8) &&& 0xFF).toUInt32.toUInt8,
    (s &&& 0xFF).toUInt32.toUInt8]

/-- `encode_l16`. -/
def encodeL16 (frames : List α) (channels : UInt16) : Bytes :=
  encodePcm quantise frames channels l16FullScale packL16

/-- `encode_l24`. -/
def encodeL24 (frames : List α) (channels : UInt16) : Bytes :=
  encodePcm quantise frames channels l24FullScale packL24

end Encode

/-- The unpacking of `decode_l16`. -/
def unpackL16 (chunk : Bytes) : ℤ := (UInt16.ofNat (beNat chunk)).toInt16.toInt

/-- The unpacking of `decode_l24`: the bits of an unsigned value, and the high ones as well if the
sign bit is set. -/
def unpackL24 (chunk : Bytes) : ℤ :=
  let raw := ((chunk.getD 0 0).toUInt32 <<< 16) ||| ((chunk.getD 1 0).toUInt32 <<< 8) |||
    (chunk.getD 2 0).toUInt32
  (if raw &&& 0x00800000 ≠ 0 then raw ||| 0xFF000000 else raw).toInt32.toInt

/-- `decode_l24`. -/
def decodeL24 (bytes : Bytes) (channels : UInt16) : List ℚ :=
  decodePcm bytes channels l24DecodeDiv 3 unpackL24

/-! ### The layout -/

section Layout

variable {α : Type} {quantise : ℚ → α → ℤ} {frames : List α} {channels : UInt16}
  {fullScale decodeDiv : ℚ} {width : ℕ} {pack : ℤ → Bytes} {unpack : Bytes → ℤ}

/-- A sample of the block, packed. -/
def packed (quantise : ℚ → α → ℤ) (fullScale : ℚ) (pack : ℤ → Bytes) : Option α → Bytes
  | some s => pack (quantise fullScale s)
  | none => []

theorem encodePcm_eq (h : channels.toNat ≠ 0) :
    encodePcm quantise frames channels fullScale pack =
      (List.range (frames.length / channels.toNat)).flatMap fun i =>
        (List.range channels.toNat).flatMap fun c =>
          packed quantise fullScale pack
            frames[c * (frames.length / channels.toNat) + i]? := by
  rw [encodePcm, if_neg h]
  rfl

/-- Every index of the encoder is in range. -/
theorem length_packed (hpack : ∀ s, (pack s).length = width) {ch i c : ℕ}
    (hi : i < frames.length / ch) (hc : c < ch) :
    (packed quantise fullScale pack frames[c * (frames.length / ch) + i]?).length = width := by
  have hrow : (c + 1) * (frames.length / ch) ≤ frames.length :=
    Nat.le_trans (Nat.mul_le_mul_right _ hc) (Nat.mul_div_le frames.length ch)
  rw [Nat.succ_mul] at hrow
  rw [List.getElem?_eq_getElem (show c * (frames.length / ch) + i < frames.length by omega)]
  exact hpack _

/-- **A payload has the samples of the whole frames of a block.** -/
theorem length_encodePcm (hpack : ∀ s, (pack s).length = width) :
    (encodePcm quantise frames channels fullScale pack).length =
      frames.length / channels.toNat * (channels.toNat * width) := by
  by_cases h : channels.toNat = 0
  · rw [encodePcm, if_pos h, h, Nat.zero_mul, Nat.mul_zero, List.length_nil]
  · rw [encodePcm_eq h]
    exact length_flatMap_range fun i hi =>
      length_flatMap_range fun c hc => length_packed hpack hi hc

/-- **Each sample of a block comes back at its place**, on its own way through the bytes. -/
theorem decodePcm_encodePcm (hpack : ∀ s, (pack s).length = width) (hwidth : 0 < width)
    (hch : channels.toNat ≠ 0) (hlen : frames.length % channels.toNat = 0) :
    decodePcm (encodePcm quantise frames channels fullScale pack) channels decodeDiv width unpack =
      frames.map fun s => (unpack (pack (quantise fullScale s)) : ℚ) / decodeDiv := by
  have hpos : 0 < channels.toNat := Nat.pos_of_ne_zero hch
  have hframes : (encodePcm quantise frames channels fullScale pack).length / width /
      channels.toNat = frames.length / channels.toNat := by
    rw [length_encodePcm hpack, Nat.div_div_eq_div_mul, Nat.mul_comm width,
      Nat.mul_div_cancel _ (Nat.mul_pos hpos hwidth)]
  have hmul : frames.length = channels.toNat * (frames.length / channels.toNat) := by
    have hsplit := Nat.div_add_mod frames.length channels.toNat
    omega
  rw [decodePcm, if_neg hch, hframes]
  refine Eq.trans ?_ (flatMap_range_getElem?
    (f := fun s => (unpack (packed quantise fullScale pack s) : ℚ) / decodeDiv)
    (fun _ => rfl) hmul)
  have hwidths : ∀ i < frames.length / channels.toNat, ∀ c < channels.toNat,
      (packed quantise fullScale pack
        frames[c * (frames.length / channels.toNat) + i]?).length = width :=
    fun i hi c hc => length_packed hpack hi hc
  refine List.flatMap_congr fun c hc => List.map_congr_left fun i hi => ?_
  have hblock := block_flatMap_flatMap_range hwidths (List.mem_range.mp hi) (List.mem_range.mp hc)
  rw [← encodePcm_eq hch] at hblock
  exact congrArg (fun b => (unpack b : ℚ) / decodeDiv) hblock

end Layout

/-! ### The integers -/

theorem length_packL16 (s : ℤ) : (packL16 s).length = 2 := Format.length_beBytes 2 _

theorem length_packL24 (s : ℤ) : (packL24 s).length = 3 := rfl

theorem packL16_eq_beInt (s : ℤ) : packL16 s = beInt 2 s := by
  have hbits : (Int16.ofInt s).toUInt16.toNat = (s % (2 ^ 16 : ℕ)).toNat :=
    BitVec.toNat_ofInt s
  rw [packL16, hbits]
  rfl

theorem unpackL16_eq_ofBeInt {chunk : Bytes} (h : chunk.length = 2) :
    unpackL16 chunk = ofBeInt chunk := by
  have hlt : beNat chunk < 256 ^ 2 := h ▸ Format.beNat_lt chunk
  have hword : (UInt16.ofNat (beNat chunk)).toNat = beNat chunk := by
    rw [UInt16.toNat_ofNat']
    exact Nat.mod_eq_of_lt (by omega)
  have hint (x : UInt16) : x.toInt16.toInt = (x.toNat : ℤ).bmod (2 ^ 16) :=
    BitVec.toInt_eq_toNat_bmod x.toBitVec
  rw [unpackL16, hint, hword, ofBeInt, h]
  rfl

/-- The byte that `& 0xFF` leaves. -/
theorem toNat_lowByte (x : Int32) :
    ((x &&& 0xFF).toUInt32.toUInt8).toNat = (x.toInt % 256).toNat := by
  have hbits : x.toUInt32.toNat = (x.toInt % (2 ^ 32 : ℕ)).toNat := by
    rw [← BitVec.toNat_ofInt, Int32.toInt, BitVec.ofInt_toInt]
    rfl
  have hand : (x &&& 0xFF).toUInt32.toNat = x.toUInt32.toNat % 2 ^ 8 :=
    (UInt32.toNat_and x.toUInt32 0xFF).trans (Nat.and_two_pow_sub_one_eq_mod _ 8)
  rw [UInt32.toNat_toUInt8, hand, hbits]
  omega

theorem lowByte_eq {x : Int32} {n : ℕ} (h : (x.toInt % 256).toNat = n % 256) :
    (x &&& 0xFF).toUInt32.toUInt8 = UInt8.ofNat n := by
  rw [← UInt8.toNat_inj, toNat_lowByte, h, UInt8.toNat_ofNat']

theorem toInt_shiftRight (x n : Int32) {k : ℕ} (h : (n.toBitVec.smod 32).toNat = k) :
    (x >>> n).toInt = x.toInt / 2 ^ k := by
  rw [Int32.toInt, Int32.toBitVec_shiftRight, BitVec.sshiftRight', BitVec.toInt_sshiftRight,
    Int.shiftRight_eq_div_pow, h]
  rfl

/-- **Shifts and masks are three bytes of two's complement.** -/
theorem packL24_eq_beInt {s : ℤ} (hle : -(2 ^ 31) ≤ s) (hlt : s < 2 ^ 31) :
    packL24 s = beInt 3 s := by
  have hs : (Int32.ofInt s).toInt = s := Int32.toInt_ofInt_of_le hle hlt
  have hbytes : beInt 3 s = [UInt8.ofNat ((s % 16777216).toNat / 256 / 256),
      UInt8.ofNat ((s % 16777216).toNat / 256), UInt8.ofNat (s % 16777216).toNat] := rfl
  have hhigh : (((Int32.ofInt s) >>> 16).toInt % 256).toNat =
      (s % 16777216).toNat / 256 / 256 % 256 := by
    rw [toInt_shiftRight _ 16 (k := 16) rfl, hs]
    omega
  have hmiddle : (((Int32.ofInt s) >>> 8).toInt % 256).toNat =
      (s % 16777216).toNat / 256 % 256 := by
    rw [toInt_shiftRight _ 8 (k := 8) rfl, hs]
    omega
  have hlow : ((Int32.ofInt s).toInt % 256).toNat = (s % 16777216).toNat % 256 := by
    rw [hs]
    omega
  rw [packL24, hbytes, lowByte_eq hhigh, lowByte_eq hmiddle, lowByte_eq hlow]

theorem or_eq_add {a b i : ℕ} (hb : b < 2 ^ i) : a * 2 ^ i ||| b = a * 2 ^ i + b := by
  rw [← Nat.shiftLeft_eq, Nat.shiftLeft_add_eq_or_of_lt hb]

/-- Three bytes, each shifted to its place. -/
theorem toNat_raw (a b c : UInt8) :
    ((a.toUInt32 <<< 16) ||| (b.toUInt32 <<< 8) ||| c.toUInt32).toNat = beNat [a, b, c] := by
  have ha := a.toNat_lt
  have hb := b.toNat_lt
  have hc : c.toNat < 2 ^ 8 := c.toNat_lt
  have hsixteen : (a.toUInt32 <<< 16).toNat = a.toNat * 2 ^ 16 := by
    rw [UInt32.toNat_shiftLeft, UInt8.toNat_toUInt32, Nat.shiftLeft_eq]
    show a.toNat * 2 ^ 16 % 2 ^ 32 = _
    exact Nat.mod_eq_of_lt (by omega)
  have height : (b.toUInt32 <<< 8).toNat = b.toNat * 2 ^ 8 := by
    rw [UInt32.toNat_shiftLeft, UInt8.toNat_toUInt32, Nat.shiftLeft_eq]
    show b.toNat * 2 ^ 8 % 2 ^ 32 = _
    exact Nat.mod_eq_of_lt (by omega)
  have hhigh : a.toNat * 2 ^ 16 ||| b.toNat * 2 ^ 8 = (a.toNat * 2 ^ 8 + b.toNat) * 2 ^ 8 := by
    rw [or_eq_add (by omega)]
    omega
  have hbe : beNat [a, b, c] = (a.toNat * 2 ^ 8 + b.toNat) * 2 ^ 8 + c.toNat := by
    show c.toNat + 256 * (b.toNat + 256 * (a.toNat + 256 * 0)) = _
    omega
  rw [hbe, ← or_eq_add hc, ← hhigh, UInt32.toNat_or, UInt32.toNat_or, hsixteen, height,
    UInt8.toNat_toUInt32]

/-- **Sign extension is two's complement.** -/
theorem unpackL24_eq_ofBeInt {chunk : Bytes} (h : chunk.length = 3) :
    unpackL24 chunk = ofBeInt chunk := by
  obtain ⟨a, b, c, rfl⟩ := List.length_eq_three.mp h
  have hlt : beNat [a, b, c] < 256 ^ 3 := Format.beNat_lt [a, b, c]
  have hint (x : UInt32) : x.toInt32.toInt = (x.toNat : ℤ).bmod (2 ^ 32) :=
    BitVec.toInt_eq_toNat_bmod x.toBitVec
  rw [unpackL24]
  simp only [List.getD_cons_zero, List.getD_cons_succ]
  generalize hraw : (a.toUInt32 <<< 16) ||| (b.toUInt32 <<< 8) ||| c.toUInt32 = raw
  have hnat : raw.toNat = beNat [a, b, c] := hraw ▸ toNat_raw a b c
  have hand : (raw &&& 0x00800000).toNat = 2 ^ 23 * (raw.toNat.testBit 23).toNat := by
    rw [UInt32.toNat_and, Nat.and_comm]
    exact Nat.two_pow_and _ 23
  rw [← hnat] at hlt
  rw [ofBeInt, ← hnat, List.length_cons, List.length_cons, List.length_singleton]
  by_cases hhalf : 2 ^ 23 ≤ raw.toNat
  · have hset : raw &&& 0x00800000 ≠ 0 := by
      intro hzero
      rw [hzero, Nat.testBit_of_two_pow_le_and_two_pow_add_one_gt hhalf (by omega)] at hand
      exact absurd hand (by decide)
    have hextended : (raw ||| 0xFF000000).toNat = 255 * 2 ^ 24 + raw.toNat := by
      have hlow : raw.toNat < 2 ^ 24 := by omega
      rw [UInt32.toNat_or, Nat.or_comm]
      exact or_eq_add (a := 255) hlow
    rw [if_pos hset, hint, hextended, Int.bmod_def, Int.bmod_def]
    omega
  · have hclear : raw &&& 0x00800000 = 0 := by
      rw [← UInt32.toNat_inj, hand, Nat.testBit_lt_two_pow (by omega)]
      rfl
    rw [if_neg (not_not.mpr hclear), hint, Int.bmod_def, Int.bmod_def]
    omega

theorem unpackL16_packL16 {v : ℤ} (hle : -(2 ^ 15) ≤ v) (hlt : v < 2 ^ 15) :
    unpackL16 (packL16 v) = v := by
  rw [packL16_eq_beInt, unpackL16_eq_ofBeInt (Format.length_beInt 2 v)]
  exact Format.ofBeInt_beInt (by omega) (by omega)

theorem unpackL24_packL24 {v : ℤ} (hle : -(2 ^ 23) ≤ v) (hlt : v < 2 ^ 23) :
    unpackL24 (packL24 v) = v := by
  rw [packL24_eq_beInt (by omega) (by omega), unpackL24_eq_ofBeInt (Format.length_beInt 3 v)]
  exact Format.ofBeInt_beInt (by omega) (by omega)

/-! ### There and back -/

theorem abs_clamp_le (s : ℚ) : |clamp s| ≤ 1 :=
  abs_le.mpr ⟨le_max_left _ _, max_le (by norm_num) (min_le_right _ _)⟩

theorem clamp_of_abs_le {s : ℚ} (h : |s| ≤ 1) : clamp s = s := by
  obtain ⟨hle, hge⟩ := abs_le.mp h
  rw [clamp, min_eq_left hge, max_eq_right hle]

theorem quantise_clamp (fullScale s : ℚ) : quantise fullScale (clamp s) = quantise fullScale s := by
  rw [quantise, quantise, clamp_of_abs_le (abs_clamp_le s)]

theorem abs_quantise_le {n : ℤ} (hn : 0 ≤ n) (s : ℚ) : |quantise n s| ≤ n := by
  refine abs_roundHalfAway_le ?_
  have hn' : (0 : ℚ) ≤ n := Int.cast_nonneg hn
  rw [abs_mul, abs_of_nonneg hn']
  exact mul_le_of_le_one_left hn' (abs_clamp_le s)

/-- **What comes back of a block of samples**: as many, at the same places, those between `-1` and
`1` within a tolerance, and the others as if they had been clamped before. -/
structure ComesBack (tolerance : ℚ) (trip : List ℚ → List ℚ) (x : List ℚ) : Prop where
  length_eq : (trip x).length = x.length
  near : ∀ (p : ℕ) (hx : p < x.length) (hy : p < (trip x).length),
    |x[p]| ≤ 1 → |(trip x)[p] - x[p]| ≤ tolerance
  clamped : trip x = trip (x.map clamp)

section Trip

variable {channels : UInt16} {N : ℤ} {fullScale decodeDiv tolerance : ℚ} {width : ℕ}
  {pack : ℤ → Bytes} {unpack : Bytes → ℤ}

/-- **Integers below `N`, packed and unpacked**: the block comes back up to the rounding and the
difference of the scales. -/
theorem comesBack_of_unpack_pack (hpack : ∀ s, (pack s).length = width) (hwidth : 0 < width)
    (hback : ∀ v, |v| ≤ N - 1 → unpack (pack v) = v) (hN : 1 ≤ N)
    (hscale : fullScale = (N - 1 : ℤ)) (hdiv : decodeDiv = N) (htolerance : tolerance = 3 / 2 / N)
    (hch : channels.toNat ≠ 0) {x : List ℚ} (hlen : x.length % channels.toNat = 0) :
    ComesBack tolerance (fun x => decodePcm
      (encodePcm quantise x channels fullScale pack) channels decodeDiv width unpack) x := by
  subst hscale hdiv htolerance
  have htrip : ∀ y : List ℚ, y.length % channels.toNat = 0 → decodePcm
      (encodePcm quantise y channels ((N - 1 : ℤ) : ℚ) pack) channels N width unpack =
        y.map fun s => (quantise ((N - 1 : ℤ) : ℚ) s : ℚ) / N := by
    intro y hy
    rw [decodePcm_encodePcm hpack hwidth hch hy]
    refine List.map_congr_left fun s _ => ?_
    rw [hback _ (abs_quantise_le (by omega) s)]
  have hmap : (x.map clamp).length % channels.toNat = 0 := by rwa [List.length_map]
  refine ⟨?_, fun p hx hy hs => ?_, ?_⟩
  · rw [htrip x hlen, List.length_map]
  · simp only [htrip x hlen, List.getElem_map]
    have hpos : (0 : ℚ) < N := by exact_mod_cast hN
    rw [quantise, clamp_of_abs_le hs, Int.cast_sub, Int.cast_one]
    exact abs_roundHalfAway_mul_div_sub_le hs hpos
  · rw [htrip x hlen, htrip _ hmap, List.map_map]
    refine List.map_congr_left fun s _ => ?_
    rw [Function.comp_apply, quantise_clamp]

/-- Blocks of samples through L16. -/
theorem comesBack_l16 (hch : 1 ≤ channels.toNat) {x : List ℚ}
    (hlen : x.length % channels.toNat = 0) :
    ComesBack (1.5 / 2 ^ 15) (fun x => decodeL16 (encodeL16 quantise x channels) channels) x := by
  have hback : ∀ v : ℤ, |v| ≤ 32768 - 1 → unpackL16 (packL16 v) = v := by
    intro v hv
    obtain ⟨hle, hge⟩ := abs_le.mp hv
    exact unpackL16_packL16 (by omega) (by omega)
  exact comesBack_of_unpack_pack length_packL16 (by decide) hback (by decide)
    (by norm_num [l16FullScale]) (by norm_num) (by norm_num) (by omega) hlen

end Trip

/-- **Blocks of samples through L16 and L24.** Length and layout are kept, a sample is off by at
most one and a half of the smallest steps, and the integers between are kept exactly, sign and
all. -/
theorem pcm_roundTrip {channels : UInt16} (hch : 1 ≤ channels.toNat) {x : List ℚ}
    (hlen : x.length % channels.toNat = 0) :
    ComesBack (1.5 / 2 ^ 15) (fun x => decodeL16 (encodeL16 quantise x channels) channels) x ∧
    ComesBack (1.5 / 2 ^ 23) (fun x => decodeL24 (encodeL24 quantise x channels) channels) x ∧
    (∀ v : ℤ, -(2 ^ 15) ≤ v → v < 2 ^ 15 → unpackL16 (packL16 v) = v) ∧
    ∀ v : ℤ, -(2 ^ 23) ≤ v → v < 2 ^ 23 → unpackL24 (packL24 v) = v := by
  have hne : channels.toNat ≠ 0 := by omega
  refine ⟨comesBack_l16 hch hlen, ?_, fun v => unpackL16_packL16, fun v => unpackL24_packL24⟩
  have hback : ∀ v : ℤ, |v| ≤ 8388608 - 1 → unpackL24 (packL24 v) = v := by
    intro v hv
    obtain ⟨hle, hge⟩ := abs_le.mp hv
    exact unpackL24_packL24 (by omega) (by omega)
  exact comesBack_of_unpack_pack length_packL24 (by decide) hback (by decide)
    (by norm_num [l24FullScale]) (by norm_num [l24DecodeDiv]) (by norm_num) hne hlen

/-- Two channels, and a sample that is too large. -/
theorem pcm_roundTrip_stereo :
    ([1 / 2, -1, 3, 0] : List ℚ).length % (2 : UInt16).toNat = 0 ∧
      ComesBack (1.5 / 2 ^ 15) (fun x => decodeL16 (encodeL16 quantise x 2) 2) [1 / 2, -1, 3, 0] ∧
      ComesBack (1.5 / 2 ^ 23) (fun x => decodeL24 (encodeL24 quantise x 2) 2) [1 / 2, -1, 3, 0] ∧
      unpackL16 (packL16 (-32768)) = -32768 ∧ unpackL24 (packL24 (-8388608)) = -8388608 := by
  have hch : 1 ≤ (2 : UInt16).toNat := by decide
  have hlen : ([1 / 2, -1, 3, 0] : List ℚ).length % (2 : UInt16).toNat = 0 := by decide
  obtain ⟨hl16, hl24, hint16, hint24⟩ := pcm_roundTrip hch hlen
  exact ⟨hlen, hl16, hl24, hint16 _ (by decide) (by decide), hint24 _ (by decide) (by decide)⟩

end NetRtp

end SonicBrew
