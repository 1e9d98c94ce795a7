import SonicBrew.AudioEngine.ChannelMap
import SonicBrew.AudioEngine.FileSource
import SonicBrew.Lib.Machine

/-!
# Playing a file

`FileSource` plays its buffer, a block at a time. It keeps the position in the buffer, which comes
round to the beginning when it loops; and when it does not, the flag that the end has been reached.

The position and the flag are what is left of one number, how many frames have been delivered
(`SonicBrew.FileSource.Delivered`). A block is the part of the signal that begins there, so all
blocks together are the signal (`SonicBrew.FileSource.processAll_playback`), which is the buffer
again and again, or the buffer and then silence.
-/

namespace SonicBrew

open Machine

namespace FileSource

/-- The sample that is written to the place `i` of a channel. -/
def sampleAt (self : FileSource) (stride c i : ℕ) : Option F32 :=
  let localPos := self.readPos + i
  let bufOffset := c * stride
  if localPos < stride then self.samples[bufOffset + localPos]?
  else if self.looping then self.samples[bufOffset + localPos % stride]?
  else some .zero

/-- The position after a block. -/
def advance (self : FileSource) (stride perCh : ℕ) : FileSource :=
  if self.looping then { self with readPos := (self.readPos + perCh) % stride }
  else
    let readPos := self.readPos + perCh
    { self with readPos := readPos, ended := self.ended || readPos ≥ stride }

/-- `process`. -/
def process (self : FileSource) : List AudioFrame → Option (FileSource × List AudioFrame)
  | [] => some (self, [])
  | out :: others =>
      let ch := self.channels.toNat
      let n := out.samples.length
      let frame := AudioFrame.fromPlanar self.channels self.sampleRate
      let silence := frame (out.samples.map fun _ => .zero)
      let stride := self.samples.length / ch
      if ch = 0 ∨ n = 0 ∨ self.samples = [] ∨ self.ended then some (self, silence :: others)
      else if stride = 0 then some (self, silence :: others)
      else do
        let perCh := n / ch
        let lanes ← (List.range ch).mapM fun c => (List.range perCh).mapM (self.sampleAt stride c)
        return (self.advance stride perCh,
          frame (lanes.flatten ++ out.samples.drop (ch * perCh)) :: others)

/-! ### The signal -/

/-- **What a source is to play**: the buffer of the channel, from the beginning again if it loops,
and silence behind it if not. -/
def playback (source : FileSource) (c k : ℕ) : F32 :=
  (source.channel c).getD (if source.looping then k % source.totalFrames else k) .zero

/-- The frames that a call asks for. -/
def asked (channels : UInt16) (outFrames : List AudioFrame) : ℕ :=
  match outFrames with
  | [] => 0
  | out :: _ => out.samples.length / channels.toNat

/-- The samples of a channel in the first of some frames. -/
def heard (c : ℕ) (outFrames : List AudioFrame) : List F32 :=
  match outFrames with
  | [] => []
  | out :: _ => out.channel c

/-- **The state of a source that has delivered `t` frames.** -/
structure Delivered (source : FileSource) (s : FileSource) (t : ℕ) : Prop where
  samples : s.samples = source.samples
  channels : s.channels = source.channels
  sampleRate : s.sampleRate = source.sampleRate
  looping : s.looping = source.looping
  ended : s.ended = (!source.looping && decide (source.totalFrames ≤ t))
  readPos : s.ended = false → s.readPos = if source.looping then t % source.totalFrames else t

section Delivered

variable {source s : FileSource} {t c k : ℕ}

theorem totalFrames_eq (hch : 0 < source.channels.toNat) :
    source.totalFrames = source.samples.length / source.channels.toNat :=
  totalFrames_new source.samples source.sampleRate source.looping hch

/-- The buffer has the samples of every channel. -/
theorem succ_mul_totalFrames_le (hc : c < source.channels.toNat) :
    (c + 1) * source.totalFrames ≤ source.samples.length := by
  rw [totalFrames_eq (Nat.zero_lt_of_lt hc)]
  exact (Nat.mul_le_mul_right _ hc).trans (Nat.mul_div_le _ _)

theorem length_channel (hc : c < source.channels.toNat) :
    (source.channel c).length = source.totalFrames := length_block (succ_mul_totalFrames_le hc)

/-- A sample of the buffer, as one of its channel. -/
theorem getElem?_samples (hc : c < source.channels.toNat) (hk : k < source.totalFrames) :
    source.samples[c * source.totalFrames + k]? = some ((source.channel c).getD k .zero) := by
  have hfit := succ_mul_totalFrames_le hc
  rw [Nat.succ_mul] at hfit
  rw [channel, getD_block hk, List.getD_eq_getElem?_getD,
    List.getElem?_eq_getElem (by omega), Option.getD_some]

/-- **The sample that is written is the next one of the signal.** -/
theorem Delivered.sampleAt (h : Delivered source s t) (hlive : s.ended = false)
    (hT : 0 < source.totalFrames) (hc : c < source.channels.toNat) (i : ℕ) :
    s.sampleAt source.totalFrames c i = some (playback source c (t + i)) := by
  have hpos := h.readPos hlive
  rw [FileSource.sampleAt, h.samples, h.looping, hpos, playback]
  cases source.looping with
  | true =>
    -- the position is where the signal is in the buffer, whether it has come round or not
    have hround : (t % source.totalFrames + i) % source.totalFrames =
        (t + i) % source.totalFrames := Nat.mod_add_mod t source.totalFrames i
    have hread := getElem?_samples hc (Nat.mod_lt (t + i) hT)
    simp only [if_true]
    split
    · rename_i hlt
      rw [← hround, Nat.mod_eq_of_lt hlt] at hread
      rw [hread, ← hround, Nat.mod_eq_of_lt hlt]
    · rw [hround, hread]
  | false =>
    simp only [Bool.false_eq_true, if_false]
    split
    · rename_i hlt
      exact getElem?_samples hc hlt
    · rename_i hover
      rw [List.getD_eq_default _ _ (by rw [length_channel hc]; omega)]

/-- **The position after a block** is that many frames further. -/
theorem Delivered.advance (h : Delivered source s t) (hlive : s.ended = false) (n : ℕ) :
    Delivered source (s.advance source.totalFrames n) (t + n) := by
  have hpos := h.readPos hlive
  have hlooping := h.looping
  rw [FileSource.advance]
  cases hloop : source.looping with
  | true =>
    rw [hloop] at hlooping hpos
    rw [if_pos hlooping]
    refine ⟨h.samples, h.channels, h.sampleRate, h.looping, ?_, fun _ => ?_⟩
    · rw [hloop]
      exact hlive
    · rw [hloop, if_pos rfl]
      show (s.readPos + n) % source.totalFrames = _
      rw [hpos, if_pos rfl, Nat.mod_add_mod]
  | false =>
    rw [hloop] at hlooping hpos
    rw [if_neg (by rw [hlooping]; exact Bool.false_ne_true)]
    have hpos : s.readPos = t := hpos
    refine ⟨h.samples, h.channels, h.sampleRate, h.looping, ?_, fun _ => ?_⟩
    · rw [hloop]
      show (s.ended || decide (s.readPos + n ≥ source.totalFrames)) = _
      rw [hlive, hpos]
      rfl
    · rw [hloop]
      exact congrArg (· + n) hpos

/-- Beyond the end of a source that does not loop there is silence. -/
theorem Delivered.playback_eq_zero (h : Delivered source s t) (hended : s.ended = true)
    (hc : c < source.channels.toNat) (i : ℕ) : playback source c (t + i) = .zero := by
  have hover := h.ended
  rw [hended, eq_comm, Bool.and_eq_true, Bool.not_eq_true', decide_eq_true_eq] at hover
  rw [playback, hover.1, if_neg Bool.false_ne_true,
    List.getD_eq_default _ _ (by rw [length_channel hc]; omega)]

/-- **At the end nothing moves any more**, and the frames are counted all the same. -/
theorem Delivered.add_of_ended (h : Delivered source s t) (hended : s.ended = true) (n : ℕ) :
    Delivered source s (t + n) := by
  have hover := h.ended
  rw [hended, eq_comm, Bool.and_eq_true, Bool.not_eq_true', decide_eq_true_eq] at hover
  refine ⟨h.samples, h.channels, h.sampleRate, h.looping, ?_, fun hlive => ?_⟩
  · rw [hended, hover.1, Bool.not_false, Bool.true_and, eq_comm, decide_eq_true_eq]
    omega
  · rw [hended] at hlive
    exact absurd hlive Bool.true_eq_false.mp

/-! ### Calls -/

/-- The channels of a frame that is put together from them. -/
theorem channel_fromPlanar_flatMap {channels : UInt16} {sampleRate : UInt32} {n : ℕ}
    {g : ℕ → List F32} (hg : ∀ c < channels.toNat, (g c).length = n) (hc : c < channels.toNat) :
    (AudioFrame.fromPlanar channels sampleRate ((List.range channels.toNat).flatMap g)).channel c =
      g c := by
  show block (((List.range channels.toNat).flatMap g).length / channels.toNat) c
    ((List.range channels.toNat).flatMap g) = g c
  rw [length_flatMap_range hg, Nat.mul_div_cancel_left _ (Nat.zero_lt_of_lt hc),
    block_flatMap_range hg hc]

/-- A frame of silence is silent in every channel. -/
theorem channel_silence {out : List F32} {channels : UInt16} {sampleRate : UInt32}
    (hc : c < channels.toNat) :
    (AudioFrame.fromPlanar channels sampleRate (out.map fun _ => F32.zero)).channel c =
      List.replicate (out.length / channels.toNat) .zero := by
  have hfit : (c + 1) * (out.length / channels.toNat) ≤ out.length :=
    (Nat.mul_le_mul_right _ hc).trans (Nat.mul_div_le _ _)
  rw [Nat.succ_mul] at hfit
  show block ((out.map fun _ => F32.zero).length / channels.toNat) c
    (out.map fun _ => F32.zero) = _
  rw [List.length_map, List.map_const', block, List.drop_replicate, List.take_replicate,
    Nat.min_eq_left (by omega)]

/-- **A block of all channels**, while the end has not been reached. -/
theorem Delivered.mapM_sampleAt (h : Delivered source s t) (hlive : s.ended = false)
    (hT : 0 < source.totalFrames) (n : ℕ) :
    ((List.range source.channels.toNat).mapM fun c =>
      (List.range n).mapM (s.sampleAt source.totalFrames c)) =
        some ((List.range source.channels.toNat).map fun c =>
          (List.range n).map fun i => playback source c (t + i)) := by
  refine mapM_eq_some_map fun c hc => mapM_eq_some_map fun i _ => ?_
  exact h.sampleAt hlive hT (List.mem_range.mp hc) i

/-- **One call** delivers the next frames of the signal, all that it asks for. -/
theorem Delivered.process (h : Delivered source s t) (hT : 0 < source.totalFrames)
    (hch : 0 < source.channels.toNat) {outFrames : List AudioFrame}
    (hfull : ∀ out ∈ outFrames.head?, source.channels.toNat ∣ out.samples.length) :
    ∃ s' outs, s.process outFrames = some (s', outs) ∧
      (∀ c < source.channels.toNat, heard c outs =
        (List.range (asked source.channels outFrames)).map fun i => playback source c (t + i)) ∧
      Delivered source s' (t + asked source.channels outFrames) := by
  cases outFrames with
  | nil => exact ⟨s, [], rfl, fun _ _ => rfl, h⟩
  | cons out others =>
    have hstride : source.samples.length / source.channels.toNat = source.totalFrames :=
      (totalFrames_eq hch).symm
    have hne : source.samples ≠ [] := fun hnil => by
      rw [← hstride, hnil, List.length_nil, Nat.zero_div] at hT
      exact Nat.lt_irrefl 0 hT
    generalize hn : out.samples.length / source.channels.toNat = n
    have hlen : out.samples.length = source.channels.toNat * n := by
      rw [← hn, Nat.mul_div_cancel' (hfull out rfl)]
    have hasked : asked source.channels (out :: others) = n := hn
    rw [FileSource.process, h.samples, h.channels, h.sampleRate, hasked]
    dsimp only
    rw [hstride, hn]
    split
    · rename_i hsilent
      obtain hzero | hempty | hnil | hended := hsilent
      · exact absurd hzero hch.ne'
      · -- there is no room for a sample
        obtain rfl : n = 0 := by rw [← hn, hempty, Nat.zero_div]
        refine ⟨s, _, rfl, fun c hc => ?_, h⟩
        show (AudioFrame.fromPlanar _ _ _).channel c = _
        rw [channel_silence hc, hempty, Nat.zero_div]
        rfl
      · exact absurd hnil hne
      · refine ⟨s, _, rfl, fun c hc => ?_, h.add_of_ended hended n⟩
        show (AudioFrame.fromPlanar _ _ _).channel c = _
        rw [channel_silence hc, hn, List.map_congr_left fun i _ => h.playback_eq_zero hended hc i,
          List.map_const', List.length_range]
    · rename_i hlive
      rw [not_or, not_or, not_or] at hlive
      have hlive : s.ended = false := Bool.eq_false_iff.mpr hlive.2.2.2
      rw [if_neg hT.ne', h.mapM_sampleAt hlive hT]
      refine ⟨_, _, rfl, fun c hc => ?_, h.advance hlive n⟩
      show (AudioFrame.fromPlanar _ _ _).channel c = _
      rw [List.drop_eq_nil_of_le (Nat.le_of_eq hlen), List.append_nil, ← List.flatMap_def]
      refine channel_fromPlanar_flatMap (n := n) (fun c _ => ?_) hc
      rw [List.length_map, List.length_range]

/-- **All calls together deliver the signal**, from where the first of them began. -/
theorem trace_playback {ch : ℕ} {asked : List AudioFrame → ℕ} {calls outs : List (List AudioFrame)}
    {u : ℕ} (h : Trace (fun t frames t' out => t' = t + asked frames ∧
      ∀ c < ch, heard c out = (List.range (asked frames)).map fun i => playback source c (t + i))
      t calls outs u) :
    u = t + (calls.map asked).sum ∧
      ∀ c < ch, outs.flatMap (heard c) =
        (List.range (calls.map asked).sum).map fun i => playback source c (t + i) := by
  induction h with
  | nil t => exact ⟨rfl, fun _ _ => rfl⟩
  | @cons t t₁ u frames out calls outs head tail ih =>
    obtain ⟨rfl, hout⟩ := head
    refine ⟨?_, fun c hc => ?_⟩
    · rw [ih.1, List.map_cons, List.sum_cons, Nat.add_assoc]
    · rw [List.flatMap_cons, hout c hc, ih.2 c hc, List.map_cons, List.sum_cons, List.range_add,
        List.map_append, List.map_map]
      refine congrArg _ (List.map_congr_left fun i _ => ?_)
      rw [Function.comp_apply, Nat.add_assoc]

end Delivered

/-- A new source has delivered nothing. -/
theorem delivered_new {samples : List F32} {channels : UInt16} (hne : samples ≠ [])
    (hch : 0 < channels.toNat) (sampleRate : UInt32) (looping : Bool)
    (hT : 0 < (new samples channels sampleRate looping).totalFrames) :
    Delivered (new samples channels sampleRate looping) (new samples channels sampleRate looping)
      0 := by
  refine ⟨rfl, rfl, rfl, rfl, ?_, fun _ => ?_⟩
  · have hsome : samples.isEmpty = false := List.isEmpty_eq_false_iff.mpr hne
    have hchannels : (channels == 0) = false := by
      rw [beq_eq_false_iff_ne]
      rintro rfl
      exact Nat.lt_irrefl 0 hch
    rw [decide_eq_false (by omega), Bool.and_false]
    show (samples.isEmpty || channels == 0) = false
    rw [hsome, hchannels]
    rfl
  · rw [Nat.zero_mod, ite_self]
    rfl

/-- **Playing a file.** However the calls cut it into blocks, each channel of a source with whole
frames is heard as it is to be played, and the source says that it has ended exactly if it does not
loop and all its frames have been delivered. -/
theorem processAll_playback (samples : List F32) (channels : UInt16) (sampleRate : UInt32)
    (looping : Bool) (hne : samples ≠ []) (hwhole : channels.toNat ∣ samples.length)
    (calls : List (List AudioFrame))
    (hfull : ∀ frames ∈ calls, ∀ out ∈ frames.head?, channels.toNat ∣ out.samples.length) :
    let source := FileSource.new samples channels sampleRate looping
    let delivered := (calls.map (asked channels)).sum
    ∃ source' outs, runAll process source calls = some (source', outs) ∧
      (∀ c < channels.toNat, outs.flatMap (heard c) =
        (List.range delivered).map (playback source c)) ∧
      (source'.ended = true ↔ looping = false ∧ source.totalFrames ≤ delivered) := by
  intro source delivered
  have hpos : 0 < samples.length := List.length_pos_of_ne_nil hne
  have hch : 0 < channels.toNat := Nat.pos_of_dvd_of_pos hwhole hpos
  have htotal : source.totalFrames = samples.length / channels.toNat := totalFrames_eq hch
  have hT : 0 < source.totalFrames := by
    rw [htotal]
    exact Nat.div_pos (Nat.le_of_dvd hpos hwhole) hch
  obtain ⟨source', u, outs, hrun, htrace, h'⟩ :=
    runAll_of_simulates (fun t frames t' out => t' = t + asked channels frames ∧
        ∀ c < channels.toNat, heard c out =
          (List.range (asked channels frames)).map fun i => playback source c (t + i))
      (R := Delivered source)
      (P := fun frames => ∀ out ∈ frames.head?, channels.toNat ∣ out.samples.length)
      (fun h hfull => by
        obtain ⟨s', outs, hstep, hheard, h'⟩ := h.process hT hch hfull
        exact ⟨s', _, outs, hstep, ⟨rfl, hheard⟩, h'⟩)
      (delivered_new hne hch sampleRate looping hT) hfull
  obtain ⟨rfl, houts⟩ := trace_playback htrace
  refine ⟨source', outs, hrun, fun c hc => ?_, ?_⟩
  · rw [houts c hc]
    refine List.map_congr_left fun i _ => ?_
    rw [Nat.zero_add]
  · rw [h'.ended, Bool.and_eq_true, Bool.not_eq_true', decide_eq_true_eq, Nat.zero_add]
    rfl

/-- Two frames of two channels, once and then in a loop: blocks of one and two frames. -/
theorem processAll_playback_stereo :
    let blocks := [[AudioFrame.fromPlanar 2 48000 [⟨0⟩, ⟨0⟩]],
      [.fromPlanar 2 48000 [⟨0⟩, ⟨0⟩, ⟨0⟩, ⟨0⟩]]]
    ([⟨1⟩, ⟨2⟩, ⟨3⟩, ⟨4⟩] : List F32) ≠ [] ∧
    (2 : UInt16).toNat ∣ ([⟨1⟩, ⟨2⟩, ⟨3⟩, ⟨4⟩] : List F32).length ∧
    (∀ frames ∈ blocks, ∀ out ∈ frames.head?, (2 : UInt16).toNat ∣ out.samples.length) ∧
    (∃ source' outs, runAll process (.new [⟨1⟩, ⟨2⟩, ⟨3⟩, ⟨4⟩] 2 48000 false) blocks =
        some (source', outs) ∧ source'.ended = true ∧
      outs.flatMap (heard 1) = [⟨3⟩, ⟨4⟩, ⟨0⟩]) ∧
    ∃ source' outs, runAll process (.new [⟨1⟩, ⟨2⟩, ⟨3⟩, ⟨4⟩] 2 48000 true) blocks =
        some (source', outs) ∧
      outs.flatMap (heard 1) = [⟨3⟩, ⟨4⟩, ⟨3⟩] := by
  intro blocks
  have hne : ([⟨1⟩, ⟨2⟩, ⟨3⟩, ⟨4⟩] : List F32) ≠ [] := List.cons_ne_nil _ _
  have hwhole : (2 : UInt16).toNat ∣ ([⟨1⟩, ⟨2⟩, ⟨3⟩, ⟨4⟩] : List F32).length := ⟨2, rfl⟩
  have hfull : ∀ frames ∈ blocks, ∀ out ∈ frames.head?,
      (2 : UInt16).toNat ∣ out.samples.length := by decide
  refine ⟨hne, hwhole, hfull, ?_, ?_⟩
  · obtain ⟨source', outs, hrun, houts, hended⟩ :=
      processAll_playback _ 2 48000 false hne hwhole blocks hfull
    exact ⟨source', outs, hrun, hended.mpr (by decide), (houts 1 (by decide)).trans (by decide)⟩
  · obtain ⟨source', outs, hrun, houts, -⟩ :=
      processAll_playback _ 2 48000 true hne hwhole blocks hfull
    exact ⟨source', outs, hrun, (houts 1 (by decide)).trans (by decide)⟩

end FileSource

end SonicBrew
