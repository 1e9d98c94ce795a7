import SonicBrew.GwAlsaPlugin.Bridge
import SonicBrew.Lib.Cursor
import SonicBrew.Lib.Machine
import SonicBrew.Lib.Memory

/-!
# The transfers of the ALSA plugin

libasound hands the plugin an interleaved buffer as one area for each channel: all begin at one
address, and a channel's samples are `step` bits apart from the bit `first` on. A transfer moves
frames between such a buffer and the bridge. `gather_interleaved` and `scatter_interleaved` compute
the address of every sample from the area of its channel; for an interleaved buffer these are the
addresses of a plain array, one sample after the other (`SonicBrew.GwAlsaPlugin.sampleAddr_eq`). So
a transfer copies the bytes of its frames and touches no others
(`SonicBrew.GwAlsaPlugin.scatterInterleaved_eq`, `SonicBrew.GwAlsaPlugin.gatherInterleaved_eq`).

A transfer moves all its frames or fails (`SonicBrew.GwAlsaPlugin.Moves`). The position that
libasound asks for is counted in `hw_frames`, by the transfers that have succeeded.

Accesses outside the slices, and arithmetic that does not fit a machine word, stop the model; that
they do not occur is part of the results.
-/

namespace SonicBrew

namespace GwAlsaPlugin

/-- `snd_pcm_channel_area_t`; `first` and `step` are in bits. -/
structure SndPcmChannelArea where
  addr : UInt64
  first : UInt32
  step : UInt32
  deriving DecidableEq, Repr

/-- `SND_PCM_STREAM_PLAYBACK` -/
def sndPcmStreamPlayback : Int32 := 0

/-- `EIO` -/
def eio : Int64 := 5

/-! ### Samples in the areas -/

/-- The address of a channel's sample. -/
def sampleAddr (area : SndPcmChannelArea) (offset : UInt64) (frame : ℕ) : Option ℕ := do
  let position ← addWord offset.toNat frame
  let distance ← mulWord position area.step.toNat
  let bits ← addWord area.first.toNat distance
  addWord area.addr.toNat (bits / 8)

/-- The place of a sample in the scratch buffer. -/
def sampleIndex (channels frame ch : ℕ) : Option ℕ := do
  let start ← mulWord frame channels
  addWord start ch

section Copies

variable (areas : List SndPcmChannelArea) (offset : UInt64) (channels : ℕ)

/-- One round of `gather_interleaved`. -/
def gatherSample (mem : Memory) (samples : List F32) (frame ch : ℕ) : Option (List F32) := do
  let area ← areas[ch]?
  let src ← sampleAddr area offset frame
  let idx ← sampleIndex channels frame ch
  if idx < samples.length then return samples.set idx (F32.fromLeBytes (mem.load src 4)) else none

/-- Copy channel areas to interleaved scratch. -/
def gatherInterleaved (size : UInt64) (mem : Memory) (samples : List F32) : Option (List F32) :=
  (List.range size.toNat).foldlM (fun samples frame =>
    (List.range channels).foldlM (fun samples ch =>
      gatherSample areas offset channels mem samples frame ch) samples) samples

/-- One round of `scatter_interleaved`. -/
def scatterSample (samples : List F32) (mem : Memory) (frame ch : ℕ) : Option Memory := do
  let area ← areas[ch]?
  let dst ← sampleAddr area offset frame
  let idx ← sampleIndex channels frame ch
  let sample ← samples[idx]?
  return mem.store dst sample.toLeBytes

/-- Copy interleaved scratch to channel areas. -/
def scatterInterleaved (size : UInt64) (samples : List F32) (mem : Memory) : Option Memory :=
  (List.range size.toNat).foldlM (fun mem frame =>
    (List.range channels).foldlM (fun mem ch =>
      scatterSample areas offset channels samples mem frame ch) mem) mem

end Copies

/-! ### Transfers -/

/-- What makes a transfer fail. -/
inductive TransferError where
  | invalidInput (text : String)
  | send
  | recv (e : IoError)
  deriving DecidableEq, Repr

/-- The state of the plugin, without what is only libasound's. -/
structure SonicbrewPcm where
  channels : ℕ
  hwFrames : UInt64
  samples : List F32

/-- The plugin, the memory and the two directions of the socket: what has arrived and was not read,
and what was sent. -/
structure World where
  pcm : SonicbrewPcm
  mem : Memory
  incoming : Bytes
  outgoing : Bytes

/-- A call of `transfer`, what arrives before the socket gives up, and after how many bytes it
refuses to send more. -/
structure Call where
  areas : List SndPcmChannelArea
  offset : UInt64
  size : UInt64
  arrives : Bytes
  refuses : Option ℕ

/-- `Vec::resize` -/
def resize (samples : List F32) (count : ℕ) (x : F32) : List F32 :=
  samples.take count ++ List.replicate (count - samples.length) x

/-- `write_all`: whether it succeeds, and what has been sent. -/
def writeAll (outgoing bytes : Bytes) (refuses : Option ℕ) : Bool × Bytes :=
  match refuses with
  | none => (true, outgoing ++ bytes)
  | some n =>
      if n < bytes.length then (false, outgoing ++ bytes.take n) else (true, outgoing ++ bytes)

/-- Move `size` frames between the areas and the socket. -/
def transferFrames (w : World) (stream : Int32) (call : Call) :
    Option (Except TransferError UInt64 × World) :=
  let count := call.size.toNat * w.pcm.channels
  if count < UInt64.size then
    let samples := resize w.pcm.samples count ⟨0⟩
    if stream = sndPcmStreamPlayback then do
      let samples ← gatherInterleaved call.areas call.offset w.pcm.channels call.size w.mem samples
      let (sent, outgoing) := writeAll w.outgoing (sendFrames samples) call.refuses
      if sent then
        return (.ok call.size,
          { w with
            pcm := { w.pcm with samples, hwFrames := w.pcm.hwFrames + call.size }
            outgoing })
      else return (.error .send, { w with pcm := { w.pcm with samples }, outgoing })
    else
      match recvFramesInto count (w.incoming ++ call.arrives) with
      | (.error e, incoming) =>
          some (.error (.recv e), { w with pcm := { w.pcm with samples }, incoming })
      | (.ok samples, incoming) => do
          let mem ← scatterInterleaved call.areas call.offset w.pcm.channels call.size samples w.mem
          return (.ok call.size,
            { w with
              pcm := { w.pcm with samples, hwFrames := w.pcm.hwFrames + call.size }
              mem
              incoming })
  else some (.error (.invalidInput "frame count overflow"), w)

/-- The `transfer` callback. -/
def cbTransfer (stream : Int32) (w : World) (call : Call) : Option (World × Int64) := do
  let (result, w) ← transferFrames w stream call
  match result with
  | .ok n => return (w, n.toInt64)
  | .error _ => return (w, -eio)

/-- The `pointer` callback. -/
def cbPointer (pcm : SonicbrewPcm) (bufferSize : UInt64) : Int64 :=
  if bufferSize = 0 then 0 else (pcm.hwFrames % bufferSize).toInt64

/-! ### Interleaved areas -/

/-- **The areas of an interleaved buffer.** It lies in memory, and its bits can be counted by a
machine word: no address space is so large that they could not. -/
structure Interleaved (areas : List SndPcmChannelArea) (base channels bufferSize : ℕ) : Prop where
  channels_pos : 0 < channels
  area : ∀ ch < channels, ∃ area, areas[ch]? = some area ∧ area.addr.toNat = base ∧
    area.first.toNat = 32 * ch ∧ area.step.toNat = 32 * channels
  bytes_le : base + bufferSize * channels * 4 ≤ UInt64.size
  bits_le : bufferSize * channels * 32 ≤ UInt64.size

/-- Where a frame begins. -/
def frameAddr (base channels frame : ℕ) : ℕ := base + frame * channels * 4

section Regions

variable {areas : List SndPcmChannelArea} {base channels bufferSize : ℕ} {offset size : UInt64}
  {mem : Memory} {samples : List F32}

/-- **The samples are a plain array**: the one of a frame and a channel is at the place that these
have when all samples are counted. -/
theorem sampleAddr_eq (h : Interleaved areas base channels bufferSize)
    (hfit : offset.toNat + size.toNat ≤ bufferSize) {frame ch : ℕ} (hframe : frame < size.toNat)
    (hch : ch < channels) :
    ∃ area, areas[ch]? = some area ∧ sampleAddr area offset frame =
      some (frameAddr base channels offset.toNat + (frame * channels + ch) * 4) := by
  obtain ⟨area, harea, haddr, hfirst, hstep⟩ := h.area ch hch
  have hplace : (offset.toNat + frame) * channels + ch < bufferSize * channels :=
    mul_add_lt_mul (by omega) hch
  have hbits : (offset.toNat + frame) * (32 * channels) =
      (offset.toNat + frame) * channels * 32 := by
    rw [Nat.mul_comm 32, Nat.mul_assoc]
  have hbytes := h.bytes_le
  have hcount := h.bits_le
  have hframes : offset.toNat + frame ≤ (offset.toNat + frame) * channels :=
    Nat.le_mul_of_pos_right _ h.channels_pos
  have hposition := addWord_of_lt (i := offset.toNat) (j := frame) (by omega)
  have hdistance := mulWord_of_lt (i := offset.toNat + frame) (j := 32 * channels) (by omega)
  have hsum :=
    addWord_of_lt (i := 32 * ch) (j := (offset.toNat + frame) * (32 * channels)) (by omega)
  refine ⟨area, harea, ?_⟩
  simp only [sampleAddr, hposition, hstep, hdistance, hfirst, hsum, haddr, Option.bind_eq_bind,
    Option.bind_some]
  have hsplit : (offset.toNat + frame) * channels = offset.toNat * channels + frame * channels :=
    Nat.add_mul ..
  rw [addWord_of_lt (by omega), frameAddr, Option.some.injEq]
  omega

theorem sampleIndex_eq (h : Interleaved areas base channels bufferSize)
    (hfit : offset.toNat + size.toNat ≤ bufferSize) {frame ch : ℕ} (hframe : frame < size.toNat)
    (hch : ch < channels) : sampleIndex channels frame ch = some (frame * channels + ch) := by
  have hplace : frame * channels + ch < bufferSize * channels := mul_add_lt_mul (by omega) hch
  have hcount := h.bits_le
  rw [sampleIndex, mulWord_of_lt (by omega), Option.bind_eq_bind, Option.bind_some,
    addWord_of_lt (by omega)]

/-- One more sample is stored behind the others. -/
theorem scatterSample_eq (h : Interleaved areas base channels bufferSize)
    (hfit : offset.toNat + size.toNat ≤ bufferSize)
    (hlen : samples.length = size.toNat * channels) {frame ch : ℕ} (hframe : frame < size.toNat)
    (hch : ch < channels) :
    scatterSample areas offset channels samples
        (mem.store (frameAddr base channels offset.toNat)
          (sampleBytes (samples.take (frame * channels + ch)))) frame ch =
      some (mem.store (frameAddr base channels offset.toNat)
        (sampleBytes (samples.take (frame * channels + ch + 1)))) := by
  obtain ⟨area, harea, haddr⟩ := sampleAddr_eq h hfit hframe hch
  have hidx : frame * channels + ch < samples.length := hlen ▸ mul_add_lt_mul hframe hch
  have hbytes : sampleBytes (samples.take (frame * channels + ch + 1)) =
      sampleBytes (samples.take (frame * channels + ch)) ++
        (samples[frame * channels + ch]).toLeBytes := by
    rw [List.take_succ_eq_append_getElem hidx, sampleBytes, List.flatMap_append,
      List.flatMap_singleton]
    rfl
  simp only [scatterSample, harea, haddr, sampleIndex_eq h hfit hframe hch,
    List.getElem?_eq_getElem hidx, Option.bind_eq_bind, Option.bind_some, Option.pure_def]
  rw [hbytes, Memory.store_append, length_sampleBytes, List.length_take, Nat.min_eq_left hidx.le]

/-- **Scattering is one store**: the bytes of the samples, from the first frame on. -/
theorem scatterInterleaved_eq (h : Interleaved areas base channels bufferSize)
    (hfit : offset.toNat + size.toNat ≤ bufferSize)
    (hlen : samples.length = size.toNat * channels) (mem : Memory) :
    scatterInterleaved areas offset channels size samples mem =
      some (mem.store (frameAddr base channels offset.toNat) (sampleBytes samples)) := by
  obtain ⟨mem', hmem', hstored⟩ := Machine.foldlM_range_range_of_invariant
    (fun k mem' => mem' = mem.store (frameAddr base channels offset.toNat)
      (sampleBytes (samples.take k)))
    (fun frame ch _ hframe hch hmem => ⟨_, hmem ▸ scatterSample_eq h hfit hlen hframe hch, rfl⟩)
    (mem.store_nil _).symm
  rw [scatterInterleaved, hmem', hstored, ← hlen, List.take_length]

/-- The scratch buffer after so many samples. -/
def gathered (mem : Memory) (start : ℕ) (samples : List F32) (k : ℕ) : List F32 :=
  (List.range k).map (fun i => F32.fromLeBytes (mem.load (start + i * 4) 4)) ++ samples.drop k

theorem set_gathered {start k : ℕ} (hk : k < samples.length) :
    (gathered mem start samples k).set k (F32.fromLeBytes (mem.load (start + k * 4) 4)) =
      gathered mem start samples (k + 1) := by
  have hfront : ((List.range k).map
      fun i => F32.fromLeBytes (mem.load (start + i * 4) 4)).length = k := by
    rw [List.length_map, List.length_range]
  rw [gathered, gathered, List.set_append_right _ _ hfront.le, hfront, Nat.sub_self,
    List.drop_eq_getElem_cons hk, List.set_cons_zero, List.range_succ, List.map_append,
    List.map_singleton, List.append_assoc, List.singleton_append]

theorem gatherSample_eq (h : Interleaved areas base channels bufferSize)
    (hfit : offset.toNat + size.toNat ≤ bufferSize)
    (hlen : samples.length = size.toNat * channels) {frame ch : ℕ} (hframe : frame < size.toNat)
    (hch : ch < channels) :
    gatherSample areas offset channels mem
        (gathered mem (frameAddr base channels offset.toNat) samples (frame * channels + ch))
        frame ch =
      some (gathered mem (frameAddr base channels offset.toNat) samples
        (frame * channels + ch + 1)) := by
  obtain ⟨area, harea, haddr⟩ := sampleAddr_eq h hfit hframe hch
  have hidx : frame * channels + ch < samples.length := hlen ▸ mul_add_lt_mul hframe hch
  have hroom : frame * channels + ch < (gathered mem (frameAddr base channels offset.toNat) samples
      (frame * channels + ch)).length := by
    rw [gathered, List.length_append, List.length_map, List.length_range, List.length_drop]
    omega
  simp only [gatherSample, harea, haddr, sampleIndex_eq h hfit hframe hch, Option.bind_eq_bind,
    Option.bind_some, Option.pure_def, if_pos hroom]
  rw [set_gathered hidx]

/-- **Gathering is one load**, whatever the scratch buffer held. -/
theorem gatherInterleaved_eq (h : Interleaved areas base channels bufferSize)
    (hfit : offset.toNat + size.toNat ≤ bufferSize)
    (hlen : samples.length = size.toNat * channels) (mem : Memory) :
    gatherInterleaved areas offset channels size mem samples =
      some (samplesOf (mem.load (frameAddr base channels offset.toNat)
        (size.toNat * channels * 4))) := by
  obtain ⟨samples', hsamples', hgathered⟩ := Machine.foldlM_range_range_of_invariant
    (fun k samples' => samples' = gathered mem (frameAddr base channels offset.toNat) samples k)
    (fun frame ch _ hframe hch hs => ⟨_, hs ▸ gatherSample_eq h hfit hlen hframe hch, rfl⟩)
    (rfl : samples = _)
  rw [gatherInterleaved, hsamples', hgathered, gathered, ← hlen, List.drop_length, List.append_nil,
    samplesOf, Memory.length_load, Nat.mul_div_cancel _ (by decide : 0 < 4), blocks, List.map_map]
  refine congrArg some (List.map_congr_left fun i hi => ?_)
  exact congrArg F32.fromLeBytes (mem.block_load (List.mem_range.mp hi) _ 4).symm

end Regions

/-! ### What a transfer moves -/

theorem length_resize (samples : List F32) (count : ℕ) (x : F32) :
    (resize samples count x).length = count := by
  rw [resize, List.length_append, List.length_take, List.length_replicate]
  omega

/-- A transfer that has moved its frames returns how many they are, and counts them; one that has
failed returns `-EIO`, and counts none. -/
def Counts (w : World) (call : Call) (w' : World) (r : Int64) : Bool → Prop
  | true => r = call.size.toInt64 ∧ w'.pcm.hwFrames = w.pcm.hwFrames + call.size
  | false => r = -eio ∧ w'.pcm.hwFrames = w.pcm.hwFrames

/-- **What a call of `transfer` does.** Playback sends the bytes of the frames as they are in
memory, as many as the socket takes. Capture puts the bytes that have arrived where the frames are,
if there are enough; if not they are lost. -/
def Moves (stream : Int32) (base : ℕ) (w : World) (call : Call) (w' : World) (r : Int64) : Prop :=
  let start := frameAddr base w.pcm.channels call.offset.toNat
  let n := call.size.toNat * w.pcm.channels * 4
  let arrived := w.incoming ++ call.arrives
  w'.pcm.channels = w.pcm.channels ∧
    if stream = sndPcmStreamPlayback then
      let (sent, outgoing) := writeAll w.outgoing (w.mem.load start n) call.refuses
      w'.mem = w.mem ∧ w'.incoming = w.incoming ∧ w'.outgoing = outgoing ∧ Counts w call w' r sent
    else if n ≤ arrived.length then
      w'.mem = w.mem.store start (arrived.take n) ∧ w'.incoming = arrived.drop n ∧
        w'.outgoing = w.outgoing ∧ Counts w call w' r true
    else w'.mem = w.mem ∧ w'.incoming = [] ∧ w'.outgoing = w.outgoing ∧ Counts w call w' r false

section Moves

variable {base bufferSize : ℕ} {w w' : World} {stream : Int32} {call : Call} {r : Int64}

/-- **A transfer succeeds and is counted, or fails and is not.** -/
theorem Moves.exists_counts (h : Moves stream base w call w' r) :
    ∃ moved, Counts w call w' r moved := by
  obtain ⟨-, h⟩ := h
  split at h
  · exact ⟨_, h.2.2.2⟩
  · split at h
    · exact ⟨_, h.2.2.2⟩
    · exact ⟨_, h.2.2.2⟩

theorem count_lt (h : Interleaved call.areas base w.pcm.channels bufferSize)
    (hfit : call.offset.toNat + call.size.toNat ≤ bufferSize) :
    call.size.toNat * w.pcm.channels < UInt64.size := by
  have hbits := h.bits_le
  have hle : call.size.toNat * w.pcm.channels ≤ bufferSize * w.pcm.channels :=
    Nat.mul_le_mul_right _ (by omega)
  have hpos : 0 < UInt64.size := by decide
  omega

theorem exists_moves_playback (h : Interleaved call.areas base w.pcm.channels bufferSize)
    (hfit : call.offset.toNat + call.size.toNat ≤ bufferSize) :
    ∃ w' r, cbTransfer sndPcmStreamPlayback w call = some (w', r) ∧
      Moves sndPcmStreamPlayback base w call w' r := by
  have hsend : ∀ bytes : Bytes, bytes.length = call.size.toNat * w.pcm.channels * 4 →
      sendFrames (samplesOf bytes) = bytes :=
    fun bytes hbytes => sampleBytes_samplesOf (by rw [hbytes]; omega)
  have hgather := gatherInterleaved_eq h hfit
    (length_resize w.pcm.samples (call.size.toNat * w.pcm.channels) ⟨0⟩) w.mem
  simp only [cbTransfer, transferFrames, Moves, if_pos (count_lt h hfit), if_true, hgather,
    Option.bind_eq_bind, Option.bind_some, Option.pure_def, hsend _ (Memory.length_load ..)]
  rcases writeAll w.outgoing _ call.refuses with ⟨_ | _, outgoing⟩
  · exact ⟨_, _, rfl, rfl, rfl, rfl, rfl, rfl, rfl⟩
  · exact ⟨_, _, rfl, rfl, rfl, rfl, rfl, rfl, rfl⟩

theorem exists_moves_capture (h : Interleaved call.areas base w.pcm.channels bufferSize)
    (hfit : call.offset.toNat + call.size.toNat ≤ bufferSize)
    (hstream : stream ≠ sndPcmStreamPlayback) :
    ∃ w' r, cbTransfer stream w call = some (w', r) ∧ Moves stream base w call w' r := by
  simp only [cbTransfer, transferFrames, Moves, if_pos (count_lt h hfit), if_neg hstream]
  generalize w.incoming ++ call.arrives = arrived
  by_cases hall : call.size.toNat * w.pcm.channels * 4 ≤ arrived.length
  · have htake := List.length_take_of_le hall
    have hbytes := sampleBytes_samplesOf (b := arrived.take _) (by rw [htake]; omega)
    have hlen := length_samplesOf (arrived.take (call.size.toNat * w.pcm.channels * 4))
    rw [htake, Nat.mul_div_cancel _ (by decide : 0 < 4)] at hlen
    simp only [recvFramesInto_of_le hall, if_pos hall, scatterInterleaved_eq h hfit hlen, hbytes,
      Option.bind_eq_bind, Option.bind_some, Option.pure_def]
    exact ⟨_, _, rfl, rfl, rfl, rfl, rfl, rfl, rfl⟩
  · simp only [recvFramesInto_of_lt (not_le.mp hall), if_neg hall]
    exact ⟨_, _, rfl, rfl, rfl, rfl, rfl, rfl, rfl⟩

end Moves

/-! ### The position -/

/-- The frames that a call of `transfer` says it has moved: none if it returns an error number. -/
def framesOf (returned : Int64) : ℕ := returned.toInt.toNat

/-- The plugin as `open_pcm` leaves it. -/
def opened (channels : ℕ) (mem : Memory) (incoming outgoing : Bytes) : World :=
  ⟨⟨channels, 0, []⟩, mem, incoming, outgoing⟩

/-- The call is about frames of an interleaved buffer. -/
def Call.Within (channels bufferSize : ℕ) (call : Call) : Prop :=
  (∃ base, Interleaved call.areas base channels bufferSize) ∧
    call.offset.toNat + call.size.toNat ≤ bufferSize

theorem toInt_toInt64 {n : UInt64} (h : n.toNat * 2 < UInt64.size) :
    n.toInt64.toInt = n.toNat := by
  have hlt : 2 * n.toBitVec.toNat < 2 ^ 64 := by
    rw [UInt64.toNat_toBitVec, Nat.mul_comm]
    exact h
  exact BitVec.toInt_eq_toNat_of_lt hlt

/-- A buffer in memory has fewer frames than a signed word can count. -/
theorem Interleaved.bufferSize_lt {areas : List SndPcmChannelArea} {base channels bufferSize : ℕ}
    (h : Interleaved areas base channels bufferSize) : bufferSize * 2 < UInt64.size := by
  have hbits := h.bits_le
  have hle : bufferSize ≤ bufferSize * channels := Nat.le_mul_of_pos_right _ h.channels_pos
  have hpos : 0 < UInt64.size := by decide
  omega

/-- The call is about frames of an interleaved buffer, and moves them. -/
def MovesWithin (stream : Int32) (channels bufferSize : ℕ) (w : World) (call : Call) (w' : World)
    (r : Int64) : Prop :=
  ∃ base, Interleaved call.areas base channels bufferSize ∧
    call.offset.toNat + call.size.toNat ≤ bufferSize ∧ w.pcm.channels = channels ∧
    Moves stream base w call w' r

section Position

variable {channels bufferSize : ℕ} {stream : Int32}

theorem exists_movesWithin {w : World} {call : Call} (hw : w.pcm.channels = channels)
    (hcall : call.Within channels bufferSize) :
    ∃ w' r, cbTransfer stream w call = some (w', r) ∧
      MovesWithin stream channels bufferSize w call w' r ∧ w'.pcm.channels = channels := by
  subst hw
  obtain ⟨⟨base, h⟩, hfit⟩ := hcall
  have hmoves : ∃ w' r,
      cbTransfer stream w call = some (w', r) ∧ Moves stream base w call w' r := by
    by_cases hstream : stream = sndPcmStreamPlayback
    · exact hstream ▸ exists_moves_playback h hfit
    · exact exists_moves_capture h hfit hstream
  obtain ⟨w', r, hr, hmoves⟩ := hmoves
  exact ⟨w', r, hr, ⟨base, h, hfit, rfl, hmoves⟩, hmoves.1⟩

/-- A call adds to the frames counted what it says it has moved; the count is a word that wraps
around. -/
theorem MovesWithin.adds {w w' : World} {call : Call} {r : Int64}
    (h : MovesWithin stream channels bufferSize w call w' r) :
    w'.pcm.hwFrames.toNat = (w.pcm.hwFrames.toNat + framesOf r) % UInt64.size ∧
      framesOf r ≤ bufferSize := by
  obtain ⟨base, hareas, hfit, -, hmoves⟩ := h
  obtain ⟨_ | _, rfl, hframes⟩ := hmoves.exists_counts
  · rw [hframes]
    exact ⟨(Nat.mod_eq_of_lt (UInt64.toNat_lt_size _)).symm, Nat.zero_le _⟩
  · have hsize : framesOf call.size.toInt64 = call.size.toNat := by
      have hlt := hareas.bufferSize_lt
      rw [framesOf, toInt_toInt64 (by omega), Int.toNat_natCast]
    rw [hframes, hsize]
    exact ⟨UInt64.toNat_add .., by omega⟩

theorem hwFrames_of_trace {w w' : World} {calls : List Call} {returned : List Int64}
    (h : Machine.Trace (MovesWithin stream channels bufferSize) w calls returned w') :
    w'.pcm.hwFrames.toNat =
      (w.pcm.hwFrames.toNat + (returned.map framesOf).sum) % UInt64.size := by
  induction h with
  | nil w => exact (Nat.mod_eq_of_lt (UInt64.toNat_lt_size _)).symm
  | cons head _ ih =>
    rw [ih, head.adds.1, Nat.mod_add_mod, List.map_cons, List.sum_cons, Nat.add_assoc]

/-- The position in the buffer, if it fits a signed word. -/
theorem toInt_cbPointer {pcm : SonicbrewPcm} {size : UInt64} (hzero : size = 0 → pcm.hwFrames = 0)
    (hsmall : pcm.hwFrames = 0 ∨ size.toNat * 2 < UInt64.size) :
    (cbPointer pcm size).toInt = (pcm.hwFrames.toNat % size.toNat : ℕ) := by
  rw [cbPointer]
  split
  · rename_i hsize
    rw [hzero hsize, hsize]
    rfl
  · rename_i hsize
    have hpos : 0 < size.toNat :=
      Nat.pos_of_ne_zero fun h => hsize (UInt64.toNat_inj.mp h)
    have hlt : (pcm.hwFrames % size).toNat * 2 < UInt64.size := by
      rw [UInt64.toNat_mod]
      rcases hsmall with h | h
      · rw [h, UInt64.toNat_zero, Nat.zero_mod]
        decide
      · have hmod := Nat.mod_lt pcm.hwFrames.toNat hpos
        omega
    rw [toInt_toInt64 hlt, UInt64.toNat_mod]

/-- **What transfers do, and what the pointer callback returns** after them. -/
theorem exists_run_trace {size : UInt64} {w : World} (hw : w.pcm.channels = channels)
    (hzero : w.pcm.hwFrames = 0) {calls : List Call}
    (hcalls : ∀ call ∈ calls, call.Within channels size.toNat) :
    ∃ w' returned, Machine.runAll (cbTransfer stream) w calls = some (w', returned) ∧
      Machine.Trace (MovesWithin stream channels size.toNat) w calls returned w' ∧
      ((returned.map framesOf).sum < UInt64.size →
        (cbPointer w'.pcm size).toInt = ((returned.map framesOf).sum % size.toNat : ℕ)) := by
  obtain ⟨w', _, returned, hrun, htrace, rfl, -⟩ :=
    Machine.runAll_of_simulates (MovesWithin stream channels size.toNat)
      (R := fun w t => w = t ∧ w.pcm.channels = channels) (P := Call.Within channels size.toNat)
      (by
        rintro w _ call ⟨rfl, hw⟩ hcall
        obtain ⟨w', r, hr, hmoves, hw'⟩ := exists_movesWithin hw hcall
        exact ⟨w', w', r, hr, hmoves, rfl, hw'⟩) ⟨rfl, hw⟩ hcalls
  refine ⟨w', returned, hrun, htrace, fun hlt => ?_⟩
  have hcount := hwFrames_of_trace htrace
  rw [hzero, UInt64.toNat_zero, Nat.zero_add, Nat.mod_eq_of_lt hlt] at hcount
  rw [← hcount]
  refine toInt_cbPointer (fun hsize => ?_) ?_
  · -- a buffer of no frames: every call has moved none
    have hnone : ∀ r ∈ returned, framesOf r ≤ size.toNat := htrace.forall_output (·.adds.2)
    rw [hsize] at hnone
    refine UInt64.toNat_inj.mp (hcount.trans (List.sum_eq_zero_iff_forall_eq_nat.mpr ?_))
    intro n hn
    obtain ⟨r, hr, rfl⟩ := List.mem_map.mp hn
    exact Nat.le_zero.mp (hnone r hr)
  · cases calls with
    | nil =>
      cases htrace
      exact Or.inl hzero
    | cons call calls =>
      obtain ⟨⟨base, h⟩, -⟩ := hcalls call List.mem_cons_self
      exact Or.inr h.bufferSize_lt

end Position

/-- **Transfers are exact.** In an interleaved buffer `scatter_interleaved` writes the bytes of its
frames and no others, and `gather_interleaved` reads them back. Every transfer of a run moves the
bytes of its frames and returns its size, or fails with `-EIO`; and after any transfers, of which
some may have failed, the pointer callback returns where the frames that were moved end in the
buffer. -/
theorem transfers_exact (channels : ℕ) (bufferSize : UInt64) :
    (∀ (areas : List SndPcmChannelArea) (base : ℕ) (offset size : UInt64) (samples : List F32)
      (mem : Memory), Interleaved areas base channels bufferSize.toNat →
        offset.toNat + size.toNat ≤ bufferSize.toNat → samples.length = size.toNat * channels →
          ∃ mem', scatterInterleaved areas offset channels size samples mem = some mem' ∧
            (∀ i x, (sampleBytes samples)[i]? = some x →
              mem' (frameAddr base channels offset.toNat + i) = x) ∧
            (∀ a, a < frameAddr base channels offset.toNat ∨
              frameAddr base channels (offset.toNat + size.toNat) ≤ a → mem' a = mem a) ∧
            ∀ scratch : List F32, scratch.length = size.toNat * channels →
              gatherInterleaved areas offset channels size mem' scratch = some samples) ∧
    ∀ (stream : Int32) (mem : Memory) (incoming outgoing : Bytes) (calls : List Call),
      (∀ call ∈ calls, call.Within channels bufferSize.toNat) →
        ∃ w returned,
          Machine.runAll (cbTransfer stream) (opened channels mem incoming outgoing) calls =
            some (w, returned) ∧
          Machine.Trace (MovesWithin stream channels bufferSize.toNat)
            (opened channels mem incoming outgoing) calls returned w ∧
          ((returned.map framesOf).sum < UInt64.size →
            (cbPointer w.pcm bufferSize).toInt =
              ((returned.map framesOf).sum % bufferSize.toNat : ℕ)) := by
  refine ⟨fun areas base offset size samples mem h hfit hlen => ?_,
    fun stream mem incoming outgoing calls hcalls => exists_run_trace rfl rfl hcalls⟩
  have hbytes : (sampleBytes samples).length = size.toNat * channels * 4 := by
    rw [length_sampleBytes, hlen]
  refine ⟨_, scatterInterleaved_eq h hfit hlen mem, fun i x hx => mem.store_apply_add hx _,
    fun a ha => ?_, fun scratch hscratch => ?_⟩
  · refine mem.store_apply_of_outside (ha.imp_right fun hle => ?_)
    rw [frameAddr, Nat.add_mul, Nat.add_mul, ← Nat.add_assoc] at hle
    rw [hbytes]
    exact hle
  · rw [gatherInterleaved_eq h hfit hscratch, ← hbytes, Memory.load_store, samplesOf_sampleBytes]

/-- The areas of a stereo buffer. -/
def stereoAreas : List SndPcmChannelArea := [⟨4096, 0, 64⟩, ⟨4096, 32, 64⟩]

theorem interleaved_stereoAreas : Interleaved stereoAreas 4096 2 4 := by
  refine ⟨by decide, fun ch hch => ?_, by decide, by decide⟩
  obtain rfl | rfl : ch = 0 ∨ ch = 1 := by omega
  · exact ⟨_, rfl, rfl, rfl, rfl⟩
  · exact ⟨_, rfl, rfl, rfl, rfl⟩

/-- Two frames are captured, then the connection is silent, then three frames arrive. -/
def captures : List Call :=
  [⟨stereoAreas, 1, 2, List.replicate 16 7, none⟩, ⟨stereoAreas, 3, 1, [], none⟩,
    ⟨stereoAreas, 0, 3, List.replicate 24 8, none⟩]

theorem within_captures : ∀ call ∈ captures, call.Within 2 4 := by
  have hareas : ∀ call ∈ captures, call.areas = stereoAreas := by decide
  have hfit : ∀ call ∈ captures, call.offset.toNat + call.size.toNat ≤ 4 := by decide
  intro call hcall
  exact ⟨⟨4096, hareas call hcall ▸ interleaved_stereoAreas⟩, hfit call hcall⟩

/-- A buffer of four stereo frames: two frames are scattered into its middle and gathered again; and
after the captures, five frames in all, the position is at the second frame. -/
theorem transfers_exact_stereo :
    (∃ mem' : Memory,
      scatterInterleaved stereoAreas 1 2 2 [⟨1⟩, ⟨2⟩, ⟨3⟩, ⟨4⟩] (fun _ => 0) = some mem' ∧
        (∀ a, a < 4104 ∨ 4120 ≤ a → mem' a = 0) ∧
        gatherInterleaved stereoAreas 1 2 2 mem' [⟨0⟩, ⟨0⟩, ⟨0⟩, ⟨0⟩] =
          some [⟨1⟩, ⟨2⟩, ⟨3⟩, ⟨4⟩]) ∧
    ∃ w, Machine.runAll (cbTransfer 1) (opened 2 (fun _ => 0) [] []) captures =
        some (w, [2, -5, 3]) ∧ (cbPointer w.pcm 4).toInt = 1 := by
  have hexact := transfers_exact 2 4
  refine ⟨?_, ?_⟩
  · obtain ⟨mem', hscatter, -, hframe, hgather⟩ :=
      hexact.1 stereoAreas 4096 1 2 [⟨1⟩, ⟨2⟩, ⟨3⟩, ⟨4⟩] (fun _ => 0) interleaved_stereoAreas
        (by decide) rfl
    exact ⟨mem', hscatter, hframe, hgather _ rfl⟩
  · obtain ⟨w, returned, hrun, -, hpointer⟩ :=
      hexact.2 1 (fun _ => 0) [] [] captures within_captures
    have hreturned : some returned = some [2, -5, 3] :=
      (congrArg (Option.map Prod.snd) hrun).symm.trans (by decide)
    obtain rfl := Option.some.inj hreturned
    exact ⟨w, hrun, hpointer (by decide)⟩

end GwAlsaPlugin

end SonicBrew
