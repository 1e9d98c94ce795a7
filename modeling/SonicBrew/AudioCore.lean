import SonicBrew.Lib.Blocks
import SonicBrew.Lib.Wire

/-!
# Samples and frames

What all parts of the server share about audio. A sample is a single-precision number; most of the
code only moves samples about, and they are kept as bit patterns (`SonicBrew.F32`), so that a
copy of a signal is the same signal also where it is not a number. A frame is a number of
channels, a rate and the samples, one channel after the other (`SonicBrew.AudioFrame`).

On a wire a sample is four bytes, least significant first.
-/

namespace SonicBrew

open Format (le32 ofLe32)

/-- A single-precision number, as its bits. -/
structure F32 where
  bits : UInt32
  deriving DecidableEq, Repr

namespace F32

def toLeBytes (x : F32) : Bytes := le32 x.bits

def fromLeBytes (b : Bytes) : F32 := ⟨ofLe32 b⟩

@[simp] theorem length_toLeBytes (x : F32) : x.toLeBytes.length = 4 := Format.length_le32 x.bits

@[simp] theorem fromLeBytes_toLeBytes (x : F32) : fromLeBytes x.toLeBytes = x :=
  congrArg F32.mk (Format.ofLe32_le32 x.bits)

theorem toLeBytes_fromLeBytes {b : Bytes} (h : b.length = 4) : (fromLeBytes b).toLeBytes = b :=
  Format.le32_ofLe32 h

end F32

/-! ### Samples on a wire -/

/-- The bytes of a signal. -/
def sampleBytes (samples : List F32) : Bytes := samples.flatMap F32.toLeBytes

/-- The samples in a byte string, four bytes each; bytes beyond the last four are left out. -/
def samplesOf (b : Bytes) : List F32 := (blocks 4 (b.length / 4) b).map F32.fromLeBytes

@[simp] theorem length_sampleBytes (samples : List F32) :
    (sampleBytes samples).length = samples.length * 4 :=
  length_flatMap_of_forall F32.length_toLeBytes samples

theorem sampleBytes_flatten (signals : List (List F32)) :
    sampleBytes signals.flatten = signals.flatMap sampleBytes := by
  rw [← List.flatMap_id, sampleBytes, List.flatMap_assoc]
  rfl

theorem length_samplesOf (b : Bytes) : (samplesOf b).length = b.length / 4 := by
  rw [samplesOf, blocks, List.length_map, List.length_map, List.length_range]

/-- **A signal is read back from its bytes.** -/
theorem samplesOf_sampleBytes (samples : List F32) : samplesOf (sampleBytes samples) = samples := by
  rw [samplesOf, length_sampleBytes, Nat.mul_div_cancel _ (by decide : 0 < 4)]
  exact map_blocks_flatMap F32.length_toLeBytes F32.fromLeBytes_toLeBytes samples

/-- **Whole samples have the bytes that they were read from.** -/
theorem sampleBytes_samplesOf {b : Bytes} (h : b.length % 4 = 0) :
    sampleBytes (samplesOf b) = b :=
  flatMap_map_blocks (fun _ => F32.toLeBytes_fromLeBytes) (by omega)

/-! ### Frames -/

/-- A frame of audio: the samples of the first channel, then those of the second, and so on. -/
structure AudioFrame where
  channels : UInt16
  sampleRate : UInt32
  samples : List F32
  deriving DecidableEq, Repr

/-- A frame is made of its samples as they are. -/
def AudioFrame.fromPlanar (channels : UInt16) (sampleRate : UInt32) (samples : List F32) :
    AudioFrame := ⟨channels, sampleRate, samples⟩

/-- The samples of one channel. -/
def AudioFrame.channel (f : AudioFrame) (c : ℕ) : List F32 :=
  block (f.samples.length / f.channels.toNat) c f.samples

end SonicBrew
