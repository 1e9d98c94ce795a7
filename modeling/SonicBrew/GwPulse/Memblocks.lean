import Mathlib.Logic.Function.Iterate
import SonicBrew.AudioCore
import SonicBrew.GwPulse.Frames

/-!
# Audio between the control frames

Samples travel on the same stream as the control frames, in memblocks: the descriptor of a
memblock has the channel of a playback stream where that of a control frame has all ones, and the
body is nothing but samples. Whoever does not want a frame skips it by the length that is declared
(`SonicBrew.GwPulse.skipFrame`), and finds the next frame only if that is the length of the body.

The length is declared in four bytes. `write_frame` panics when the body is too long for that.
`write_memblock` keeps the last four bytes of the length, so that after a memblock of 2 ^ 30
samples or more the reader takes samples for a descriptor. It is in the right place after any mix of
frames exactly if there is no such memblock (`SonicBrew.GwPulse.synchronised_iff`), and then reads
any control frame that it comes to (`SonicBrew.GwPulse.readFrame_of_synchronised`).
-/

namespace SonicBrew

namespace GwPulse

open Format (be32 ofBe32 be64)

/-- What `write_memblock` puts on the stream. -/
def writeMemblock (channel : UInt32) (samples : List F32) : Bytes :=
  describe channel 0 0 (sampleBytes samples)

/-- One call that writes to the stream. -/
inductive Write where
  | memblock (channel : UInt32) (samples : List F32)
  | frame (f : Frame)

/-- What it writes; `none` is the panic of `write_frame`. -/
def Write.bytes : Write → Option Bytes
  | .memblock channel samples => some (writeMemblock channel samples)
  | .frame f => writeFrame f.command f.tag f.payload

/-- What comes after the descriptor. -/
def Write.body : Write → Bytes
  | .memblock _ samples => sampleBytes samples
  | .frame f => f.body

/-- Any mix of calls. -/
def writeStream : List Write → Option Bytes
  | [] => some []
  | w :: writes => do
      let bytes ← w.bytes
      let rest ← writeStream writes
      return bytes ++ rest

/-- A reader that goes by the declared length. -/
def skipFrame (stream : Bytes) : Bytes := stream.drop (headerLen + declaredLength stream)

/-- **The reader is in the right place**: having skipped some of what was written, it has before it
what was written after that. -/
def Synchronised (writes : List Write) (stream : Bytes) : Prop :=
  ∀ done left, writes = done ++ left → writeStream left = some (skipFrame^[done.length] stream)

/-! ### One frame -/

section Describe

variable (channel : UInt32) (offset : UInt64) (flags : UInt32) (body stream : Bytes)

theorem length_describe :
    (describe channel offset flags body).length = headerLen + body.length := by
  simp only [describe, List.length_append, Format.length_be32, Format.length_be64, headerLen]

theorem declaredLength_describe :
    declaredLength (describe channel offset flags body ++ stream) = body.length % UInt32.size := by
  have hfirst : (describe channel offset flags body ++ stream).take 4 =
      be32 (UInt32.ofNat body.length) := by
    rw [describe, List.append_assoc, List.append_assoc]
    exact List.take_left' (Format.length_be32 _)
  rw [declaredLength, hfirst, Format.ofBe32_be32, UInt32.toNat_ofNat']

/-- What is left of a frame that is skipped: nothing, or the end of its body. -/
theorem skipFrame_describe :
    skipFrame (describe channel offset flags body ++ stream) =
      body.drop (body.length % UInt32.size) ++ stream := by
  have hdescriptor :
      (be32 (UInt32.ofNat body.length) ++ (be32 channel ++ (be64 offset ++ be32 flags))).length =
        headerLen := by
    simp [headerLen]
  rw [skipFrame, declaredLength_describe, ← List.drop_drop, describe, List.append_assoc,
    List.drop_left' hdescriptor, List.drop_append_of_le_length (Nat.mod_le _ _)]

/-- **A frame is skipped** exactly if its length fits. -/
theorem skipFrame_describe_eq_iff :
    skipFrame (describe channel offset flags body ++ stream) = stream ↔
      body.length < UInt32.size := by
  rw [skipFrame_describe]
  constructor
  · intro h
    have hlen := congrArg List.length h
    rw [List.length_append, List.length_drop] at hlen
    have hmod : body.length % UInt32.size < UInt32.size := Nat.mod_lt _ (by decide)
    have hle := Nat.mod_le body.length UInt32.size
    omega
  · intro h
    rw [Nat.mod_eq_of_lt h, List.drop_length, List.nil_append]

end Describe

/-- Every call writes a descriptor and a body. -/
theorem Write.bytes_eq {w : Write} {bytes : Bytes} (h : w.bytes = some bytes) :
    ∃ channel, bytes = describe channel 0 0 w.body := by
  cases w with
  | memblock channel samples => exact ⟨channel, (Option.some.inj h).symm⟩
  | frame f =>
    rw [Write.bytes, writeFrame] at h
    split at h
    · exact ⟨_, (Option.some.inj h).symm⟩
    · cases h

/-- A control frame that is written is not too long. -/
theorem length_body_of_frame {f : Frame} {bytes : Bytes} (h : (Write.frame f).bytes = some bytes) :
    (Write.frame f).body.length < UInt32.size := by
  rw [Write.bytes, writeFrame] at h
  split at h
  · rename_i hlt
    exact hlt
  · cases h

/-! ### Any mix -/

theorem writeStream_cons {w : Write} {writes : List Write} {stream : Bytes}
    (h : writeStream (w :: writes) = some stream) :
    ∃ bytes rest, w.bytes = some bytes ∧ writeStream writes = some rest ∧
      stream = bytes ++ rest := by
  obtain ⟨bytes, hbytes, h⟩ := Option.bind_eq_some_iff.mp h
  obtain ⟨rest, hrest, h⟩ := Option.bind_eq_some_iff.mp h
  exact ⟨bytes, rest, hbytes, hrest, (Option.some.inj h).symm⟩

theorem bytes_of_mem {w : Write} {writes : List Write} {stream : Bytes}
    (h : writeStream writes = some stream) (hw : w ∈ writes) : ∃ bytes, w.bytes = some bytes := by
  induction writes generalizing stream with
  | nil => exact absurd hw List.not_mem_nil
  | cons w' writes ih =>
    obtain ⟨bytes, rest, hbytes, hrest, -⟩ := writeStream_cons h
    rcases List.mem_cons.mp hw with rfl | hw
    · exact ⟨bytes, hbytes⟩
    · exact ih hrest hw

/-- The reader is in the right place after the first call, and from there on. -/
theorem synchronised_cons {w : Write} {writes : List Write} {bytes rest : Bytes}
    (hbytes : w.bytes = some bytes) (hrest : writeStream writes = some rest) :
    Synchronised (w :: writes) (bytes ++ rest) ↔
      skipFrame (bytes ++ rest) = rest ∧ Synchronised writes rest := by
  constructor
  · intro h
    have hfirst : rest = skipFrame (bytes ++ rest) :=
      Option.some.inj (hrest.symm.trans (h [w] writes rfl))
    refine ⟨hfirst.symm, fun done left heq => ?_⟩
    have hdone := h (w :: done) left (by rw [heq]; rfl)
    rwa [List.length_cons, Function.iterate_succ_apply, ← hfirst] at hdone
  · rintro ⟨hfirst, h⟩ (_ | ⟨w', done⟩) left heq
    · rw [← (show w :: writes = left from heq), writeStream, hbytes, hrest]
      rfl
    · rw [List.length_cons, Function.iterate_succ_apply, hfirst]
      exact h done left (List.cons.inj heq).2

theorem synchronised_iff_body {writes : List Write} {stream : Bytes}
    (h : writeStream writes = some stream) :
    Synchronised writes stream ↔ ∀ w ∈ writes, w.body.length < UInt32.size := by
  induction writes generalizing stream with
  | nil =>
    refine iff_of_true (fun done left heq => ?_) fun _ hw => absurd hw List.not_mem_nil
    obtain ⟨rfl, rfl⟩ := List.append_eq_nil_iff.mp heq.symm
    exact h
  | cons w writes ih =>
    obtain ⟨bytes, rest, hbytes, hrest, rfl⟩ := writeStream_cons h
    obtain ⟨channel, rfl⟩ := Write.bytes_eq hbytes
    rw [synchronised_cons hbytes hrest, skipFrame_describe_eq_iff, ih hrest, List.forall_mem_cons]

/-- **Memblocks and control frames on one stream.** A memblock declares the length of its body, and
a reader that skips by declared lengths is always in the right place, exactly if no memblock is too
long for the four bytes of the length. -/
theorem synchronised_iff {writes : List Write} {stream : Bytes}
    (h : writeStream writes = some stream) :
    ((∀ channel samples, .memblock channel samples ∈ writes →
        (writeMemblock channel samples).length =
          headerLen + declaredLength (writeMemblock channel samples)) ∧
      Synchronised writes stream) ↔
    ∀ channel samples, .memblock channel samples ∈ writes → samples.length * 4 < UInt32.size := by
  constructor
  · rintro ⟨-, hsync⟩ channel samples hmem
    have hbody := (synchronised_iff_body h).mp hsync _ hmem
    rwa [Write.body, length_sampleBytes] at hbody
  · intro hshort
    refine ⟨fun channel samples hmem => ?_, (synchronised_iff_body h).mpr fun w hw => ?_⟩
    · have hdeclared := declaredLength_describe channel 0 0 (sampleBytes samples) []
      rw [List.append_nil, length_sampleBytes, Nat.mod_eq_of_lt (hshort channel samples hmem)]
        at hdeclared
      rw [writeMemblock, hdeclared, length_describe, length_sampleBytes]
    · cases w with
      | memblock channel samples =>
        rw [Write.body, length_sampleBytes]
        exact hshort channel samples hw
      | frame f =>
        obtain ⟨bytes, hbytes⟩ := bytes_of_mem h hw
        exact length_body_of_frame hbytes

/-- Samples between two control frames. -/
theorem synchronised_iff_three :
    ∃ stream, writeStream [.frame ⟨8, 1, []⟩, .memblock 0 [⟨0⟩, ⟨0x3F800000⟩], .frame ⟨9, 2, []⟩] =
        some stream ∧
      Synchronised [.frame ⟨8, 1, []⟩, .memblock 0 [⟨0⟩, ⟨0x3F800000⟩], .frame ⟨9, 2, []⟩]
        stream := by
  refine ⟨_, rfl, ((synchronised_iff rfl).mpr fun channel samples hmem => ?_).2⟩
  obtain ⟨-, rfl⟩ : channel = 0 ∧ samples = [⟨0⟩, ⟨0x3F800000⟩] := by simpa using hmem
  decide

/-- **A memblock of 2 ^ 30 samples** declares that it has none, and a reader that skips it is at its
first sample. -/
theorem writeMemblock_long :
    declaredLength (writeMemblock 0 (List.replicate (2 ^ 30) ⟨0⟩)) = 0 ∧
      (writeMemblock 0 (List.replicate (2 ^ 30) ⟨0⟩)).length = headerLen + UInt32.size ∧
      skipFrame (writeMemblock 0 (List.replicate (2 ^ 30) ⟨0⟩)) =
        sampleBytes (List.replicate (2 ^ 30) ⟨0⟩) := by
  have hlen : (sampleBytes (List.replicate (2 ^ 30) ⟨0⟩)).length = UInt32.size := by
    rw [length_sampleBytes, List.length_replicate]
    decide
  have hdeclared := declaredLength_describe 0 0 0 (sampleBytes (List.replicate (2 ^ 30) ⟨0⟩)) []
  have hskip := skipFrame_describe 0 0 0 (sampleBytes (List.replicate (2 ^ 30) ⟨0⟩)) []
  rw [List.append_nil, hlen, Nat.mod_self] at hdeclared hskip
  rw [List.drop_zero, List.append_nil] at hskip
  refine ⟨hdeclared, ?_, hskip⟩
  rw [writeMemblock, length_describe, hlen]

/-- **A control frame is read where the reader finds it**, after whatever else was written. -/
theorem readFrame_of_synchronised {done left : List Write} {f : Frame} {stream : Bytes}
    (hsync : Synchronised (done ++ .frame f :: left) stream)
    (hlen : 10 + f.payload.length ≤ maxLen) :
    ∃ rest, writeStream left = some rest ∧
      readFrame (skipFrame^[done.length] stream) = (.ok f, rest) := by
  obtain ⟨bytes, rest, hbytes, hrest, heq⟩ := writeStream_cons (hsync done (.frame f :: left) rfl)
  obtain ⟨channel, rfl⟩ := Write.bytes_eq hbytes
  refine ⟨rest, hrest, ?_⟩
  have hread := yields_readFrame channel 0 0 hlen _ rest heq
  refine hread.trans (congrArg (Prod.mk _) ?_)
  show (skipFrame^[done.length] stream).drop _ = rest
  rw [heq]
  exact List.drop_left

/-- The frame behind another one and some samples. -/
theorem readFrame_of_synchronised_second :
    ∃ stream, writeStream [.frame ⟨8, 1, []⟩, .memblock 0 [⟨0⟩], .frame ⟨9, 2, []⟩] = some stream ∧
      readFrame (skipFrame (skipFrame stream)) = (.ok ⟨9, 2, []⟩, []) := by
  have hsync : Synchronised ([.frame ⟨8, 1, []⟩, .memblock 0 [⟨0⟩]] ++ [.frame ⟨9, 2, []⟩]) _ :=
    (synchronised_iff_body rfl).mpr (by decide)
  obtain ⟨rest, hrest, hread⟩ := readFrame_of_synchronised hsync (by decide)
  obtain rfl := Option.some.inj hrest
  exact ⟨_, rfl, hread⟩

end GwPulse

end SonicBrew
