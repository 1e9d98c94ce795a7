import Mathlib.Data.List.Forall2
import SonicBrew.AudioCore
import SonicBrew.Lib.Fallible

/-!
# Loading a file

A file is decoded once, when its node is made, into one buffer for the whole of it. The buffer is
planar: all samples of the first channel, then all of the second, and so on. So are the frames that
the decoder returns; but a planar buffer for the whole file is *not* the frames one after the other,
as the samples of a channel in the second frame have to come before those of the next channel in
the first.

`load_file_source` puts the frames one after the other. What the decoder returns is a parameter
(`SonicBrew.Decoder`), and the result is right for every content of the frames exactly if there is
at most one channel, or at most one frame with anything in it
(`SonicBrew.loadFileSource_planar_iff`).
-/

namespace SonicBrew

/-! ### The decoder -/

/-- `CodecError`. -/
inductive CodecError where
  | io (msg : String)
  | format (msg : String)
  | decode (msg : String)
  deriving DecidableEq, Repr

/-- What a decoder knows of a stream when it has opened it. -/
structure StreamInfo where
  channels : UInt16
  sampleRate : UInt32
  deriving DecidableEq, Repr

/-- **A decoder**, by what its calls return: the information about the stream, then frame after
frame, and in the end no more frames or an error. -/
structure Decoder where
  info : Except CodecError StreamInfo
  frames : List AudioFrame
  failure : Option CodecError

/-! ### The node -/

/-- `FileSource`, without the description of its port. -/
structure FileSource where
  samples : List F32
  channels : UInt16
  sampleRate : UInt32
  looping : Bool
  readPos : ℕ
  ended : Bool
  deriving DecidableEq, Repr

namespace FileSource

/-- `FileSource::new`. -/
def new (samples : List F32) (channels : UInt16) (sampleRate : UInt32) (looping : Bool) :
    FileSource where
  samples := samples
  channels := channels
  sampleRate := sampleRate
  looping := looping
  readPos := 0
  ended := samples.isEmpty || channels == 0

/-- `total_frames`: the samples of each channel. -/
def totalFrames (s : FileSource) : ℕ := s.samples.length / (max s.channels 1).toNat

/-- The samples of one channel. -/
def channel (s : FileSource) (c : ℕ) : List F32 := block s.totalFrames c s.samples

end FileSource

/-- The loop over the frames. -/
def readFrames (failure : Option CodecError) :
    List AudioFrame → List F32 → Except CodecError (List F32)
  | [], samples =>
      match failure with
      | none => .ok samples
      | some e => .error e
  | frame :: frames, samples => readFrames failure frames (samples ++ frame.samples)

/-- `load_file_source`, on what opening the file returns. -/
def loadFileSource (opened : Except CodecError Decoder) (looping : Bool) :
    Except CodecError FileSource := do
  let decoder ← opened
  let info ← decoder.info
  let samples ← readFrames decoder.failure decoder.frames []
  if samples.isEmpty then .error (.decode "empty stream: zero frames decoded")
  else .ok (.new samples info.channels info.sampleRate looping)

theorem readFrames_none (frames : List AudioFrame) (samples : List F32) :
    readFrames none frames samples = .ok (samples ++ frames.flatMap AudioFrame.samples) := by
  induction frames generalizing samples with
  | nil => rw [readFrames, List.flatMap_nil, List.append_nil]
  | cons frame frames ih => rw [readFrames, ih, List.flatMap_cons, List.append_assoc]

theorem exists_ne_nil_of_mem_flatMap {frames : List AudioFrame} {x : F32}
    (h : x ∈ frames.flatMap AudioFrame.samples) : ∃ f ∈ frames, f.samples ≠ [] := by
  obtain ⟨f, hf, hx⟩ := List.mem_flatMap.mp h
  exact ⟨f, hf, List.ne_nil_of_mem hx⟩

/-- **The buffer is the samples of the frames one after the other.** -/
theorem loadFileSource_eq {frames : List AudioFrame} (h : ∃ f ∈ frames, f.samples ≠ [])
    (info : StreamInfo) (looping : Bool) :
    loadFileSource (.ok ⟨.ok info, frames, none⟩) looping =
      .ok (.new (frames.flatMap AudioFrame.samples) info.channels info.sampleRate looping) := by
  have hne : (frames.flatMap AudioFrame.samples).isEmpty = false := by
    obtain ⟨f, hf, hsamples⟩ := h
    rw [List.isEmpty_eq_false_iff, Ne, List.flatMap_eq_nil_iff]
    exact fun hall => hsamples (hall f hf)
  simp only [loadFileSource, ok_bind, readFrames_none, List.nil_append, hne]
  rfl

/-! ### Frames of given lengths -/

/-- Planar frames with so many channels, and so many samples a channel. -/
def Shaped (channels : UInt16) (frames : List AudioFrame) (lengths : List ℕ) : Prop :=
  List.Forall₂ (fun f k => f.channels = channels ∧ f.samples.length = channels.toNat * k) frames
    lengths

section Shaped

variable {channels : UInt16} {frames : List AudioFrame} {lengths : List ℕ}

theorem Shaped.length_samples (h : Shaped channels frames lengths) :
    (frames.flatMap AudioFrame.samples).length = channels.toNat * lengths.sum := by
  induction h with
  | nil => rfl
  | cons hf _ ih =>
    rw [List.flatMap_cons, List.length_append, hf.2, ih, List.sum_cons, Nat.mul_add]

/-- Frames of length zero are empty. -/
theorem Shaped.samples_eq_nil (h : Shaped channels frames lengths)
    (hzero : lengths.countP (0 < ·) = 0) : ∀ f ∈ frames, f.samples = [] := by
  rw [List.countP_eq_zero] at hzero
  induction h with
  | nil => exact fun _ hf => absurd hf List.not_mem_nil
  | @cons f k frames lengths hf _ ih =>
    obtain ⟨hk, hrest⟩ := List.forall_mem_cons.mp hzero
    have hk : k = 0 := by simpa using hk
    refine List.forall_mem_cons.mpr ⟨?_, ih hrest⟩
    rw [← List.length_eq_zero_iff, hf.2, hk, Nat.mul_zero]

theorem channel_of_samples_eq_nil {f : AudioFrame} (h : f.samples = []) (c : ℕ) :
    f.channel c = [] := by
  rw [AudioFrame.channel, block, h, List.drop_nil, List.take_nil]

/-- **If only one frame has anything in it, it is all there is.** -/
theorem Shaped.exists_only (h : Shaped channels frames lengths)
    (hone : lengths.countP (0 < ·) ≤ 1) (hsome : ∃ f ∈ frames, f.samples ≠ []) :
    ∃ f ∈ frames, frames.flatMap AudioFrame.samples = f.samples ∧
      ∀ c, frames.flatMap (·.channel c) = f.channel c := by
  induction h with
  | nil =>
    obtain ⟨f, hf, -⟩ := hsome
    exact absurd hf List.not_mem_nil
  | @cons f k frames lengths hf hrest ih =>
    by_cases hempty : f.samples = []
    · -- the frame that is not empty comes later
      have hlater : ∃ g ∈ frames, g.samples ≠ [] := by
        obtain ⟨g, hg, hne⟩ := hsome
        obtain rfl | hg := List.mem_cons.mp hg
        · exact absurd hempty hne
        · exact ⟨g, hg, hne⟩
      have hle : lengths.countP (0 < ·) ≤ 1 :=
        (List.sublist_cons_self k lengths).countP_le.trans hone
      obtain ⟨g, hg, hsamples, hchannel⟩ := ih hle hlater
      refine ⟨g, List.mem_cons_of_mem f hg, ?_, fun c => ?_⟩
      · rw [List.flatMap_cons, hempty, hsamples, List.nil_append]
      · rw [List.flatMap_cons, channel_of_samples_eq_nil hempty, hchannel, List.nil_append]
    · -- it is this one, and the others are empty
      have hk : 0 < k := by
        refine Nat.pos_of_ne_zero fun hk => hempty ?_
        rw [← List.length_eq_zero_iff, hf.2, hk, Nat.mul_zero]
      have hzero : lengths.countP (0 < ·) = 0 := by
        rw [List.countP_cons_of_pos (by simpa using hk)] at hone
        omega
      have hnil := Shaped.samples_eq_nil hrest hzero
      refine ⟨f, List.mem_cons_self, ?_, fun c => ?_⟩
      · rw [List.flatMap_cons, List.flatMap_eq_nil_iff.mpr hnil, List.append_nil]
      · rw [List.flatMap_cons, List.flatMap_eq_nil_iff.mpr fun g hg =>
          channel_of_samples_eq_nil (hnil g hg) c, List.append_nil]

/-- There are samples only where there are channels. -/
theorem Shaped.channels_pos (h : Shaped channels frames lengths)
    (hsome : ∃ f ∈ frames, f.samples ≠ []) : 0 < channels.toNat := by
  refine Nat.pos_of_ne_zero fun hzero => ?_
  obtain ⟨f, hf, hne⟩ := hsome
  have hlen := h.length_samples
  rw [hzero, Nat.zero_mul, List.length_eq_zero_iff, List.flatMap_eq_nil_iff] at hlen
  exact hne (hlen f hf)

theorem Shaped.of_mem (h : Shaped channels frames lengths) {f : AudioFrame} (hf : f ∈ frames) :
    f.channels = channels := by
  induction h with
  | nil => exact absurd hf List.not_mem_nil
  | cons hg _ ih =>
    obtain rfl | hf := List.mem_cons.mp hf
    · exact hg.1
    · exact ih hf

end Shaped

/-! ### The buffer -/

section Buffer

variable {channels : UInt16} (samples : List F32) (sampleRate : UInt32) (looping : Bool)

theorem totalFrames_new (h : 0 < channels.toNat) :
    (FileSource.new samples channels sampleRate looping).totalFrames =
      samples.length / channels.toNat := by
  have hmax : max channels 1 = channels := by
    rw [UInt16.max_def]
    split
    · rename_i hle
      exact UInt16.le_antisymm (UInt16.le_iff_toNat_le.mpr h) hle
    · rfl
  rw [FileSource.totalFrames]
  dsimp only [FileSource.new]
  rw [hmax]

/-- A channel of a buffer, as of a frame with the same samples. -/
theorem channel_new (h : 0 < channels.toNat) (c : ℕ) :
    (FileSource.new samples channels sampleRate looping).channel c =
      (AudioFrame.fromPlanar channels sampleRate samples).channel c := by
  rw [FileSource.channel, totalFrames_new samples sampleRate looping h]
  rfl

end Buffer

/-- The only channel of a frame is all of it. -/
theorem channel_of_mono {f : AudioFrame} (h : f.channels.toNat = 1) : f.channel 0 = f.samples := by
  rw [AudioFrame.channel, h, Nat.div_one, block_zero, List.take_length]

/-- A frame with one sample value in its first channel and another in all others. -/
def twoTone (channels : UInt16) (sampleRate : UInt32) (a b : F32) (k : ℕ) : AudioFrame :=
  .fromPlanar channels sampleRate
    (List.replicate k a ++ List.replicate ((channels.toNat - 1) * k) b)

section TwoTone

variable {channels : UInt16} {sampleRate : UInt32} {a b : F32}

theorem length_twoTone (h : 0 < channels.toNat) (k : ℕ) :
    (twoTone channels sampleRate a b k).samples.length = channels.toNat * k := by
  have hk : k ≤ channels.toNat * k := Nat.le_mul_of_pos_left k h
  show (List.replicate k a ++ List.replicate ((channels.toNat - 1) * k) b).length = _
  rw [List.length_append, List.length_replicate, List.length_replicate, Nat.sub_mul, Nat.one_mul]
  omega

theorem shaped_twoTone (h : 0 < channels.toNat) (lengths : List ℕ) :
    Shaped channels (lengths.map (twoTone channels sampleRate a b)) lengths := by
  rw [Shaped, List.forall₂_map_left_iff, List.forall₂_same]
  exact fun k _ => ⟨rfl, length_twoTone h k⟩

theorem channel_twoTone (h : 0 < channels.toNat) (k : ℕ) :
    (twoTone channels sampleRate a b k).channel 0 = List.replicate k a := by
  have hdiv : channels.toNat * k / (twoTone channels sampleRate a b k).channels.toNat = k :=
    Nat.mul_div_cancel_left k h
  rw [AudioFrame.channel, length_twoTone h, hdiv, block_zero]
  exact List.take_left' List.length_replicate

/-- **The first samples are all of the first channel** only if no frame but one has any. -/
theorem countP_le_one_of_take (h : 1 < channels.toNat) (hab : b ≠ a) {lengths : List ℕ}
    (hall : ∀ x ∈ ((lengths.map (twoTone channels sampleRate a b)).flatMap
      AudioFrame.samples).take lengths.sum, x = a) :
    lengths.countP (0 < ·) ≤ 1 := by
  induction lengths with
  | nil => exact Nat.zero_le 1
  | cons k lengths ih =>
    rw [List.map_cons, List.flatMap_cons, List.sum_cons] at hall
    rcases Nat.eq_zero_or_pos k with rfl | hk
    · have hnil : (twoTone channels sampleRate a b 0).samples = [] := by
        rw [← List.length_eq_zero_iff, length_twoTone (by omega), Nat.mul_zero]
      rw [hnil, List.nil_append, Nat.zero_add] at hall
      rw [List.countP_cons_of_neg (by decide)]
      exact ih hall
    · -- the first sample behind the first channel is of the second, if it is looked at
      have hzero : ¬0 < lengths.sum := by
        intro hsum
        refine hab (hall b ?_)
        obtain ⟨m, hm⟩ : ∃ m, (channels.toNat - 1) * k = m + 1 :=
          Nat.exists_eq_add_one.mpr (Nat.mul_pos (by omega) hk)
        obtain ⟨n, hn⟩ : ∃ n, lengths.sum = n + 1 := Nat.exists_eq_add_one.mpr hsum
        have htake : ∀ rest : List F32,
            ((List.replicate k a ++ List.replicate (m + 1) b) ++ rest).take (k + (n + 1)) =
              List.replicate k a ++ (List.replicate (m + 1) b ++ rest).take (n + 1) := by
          intro rest
          have hadd := @List.take_length_add_append _ (List.replicate k a)
            (List.replicate (m + 1) b ++ rest) (n + 1)
          rwa [List.length_replicate, ← List.append_assoc] at hadd
        rw [twoTone, hm, hn]
        exact htake _ ▸ List.mem_append_right _ List.mem_cons_self
      rw [List.sum_pos_iff_exists_pos_nat] at hzero
      have hcount : lengths.countP (0 < ·) = 0 := by
        rw [List.countP_eq_zero]
        intro x hx hpos
        exact hzero ⟨x, hx, of_decide_eq_true hpos⟩
      rw [List.countP_cons_of_pos (by simpa using hk), hcount]

end TwoTone

/-- **With one channel, or one frame that is not empty, the frames in a row are planar.** -/
theorem channel_fromPlanar {channels : UInt16} {frames : List AudioFrame} {lengths : List ℕ}
    (hshaped : Shaped channels frames lengths) (hsome : ∃ f ∈ frames, f.samples ≠ [])
    (hcond : channels ≤ 1 ∨ lengths.countP (0 < ·) ≤ 1) (sampleRate : UInt32) {c : ℕ}
    (hc : c < channels.toNat) :
    (AudioFrame.fromPlanar channels sampleRate (frames.flatMap AudioFrame.samples)).channel c =
      frames.flatMap (·.channel c) := by
  rcases hcond with hmono | hone
  · have hle : channels.toNat ≤ 1 := UInt16.le_iff_toNat_le.mp hmono
    have hch : channels.toNat = 1 := by omega
    obtain rfl : c = 0 := by omega
    rw [channel_of_mono hch]
    refine (List.flatMap_congr fun f hf => channel_of_mono ?_).symm
    rw [hshaped.of_mem hf, hch]
  · obtain ⟨f, hf, hsamples, hchannel⟩ := hshaped.exists_only hone hsome
    rw [hchannel, hsamples, AudioFrame.channel, AudioFrame.channel, hshaped.of_mem hf]
    rfl

/-- **Loading joins the channels of the frames, whatever is in them, exactly if** there is at most
one channel or at most one frame that is not empty. -/
theorem loadFileSource_planar_iff (channels : UInt16) (sampleRate : UInt32) (looping : Bool)
    (lengths : List ℕ) :
    (∀ frames, Shaped channels frames lengths → (∃ f ∈ frames, f.samples ≠ []) →
      ∃ source, loadFileSource (.ok ⟨.ok ⟨channels, sampleRate⟩, frames, none⟩) looping =
          .ok source ∧
        source.channels = channels ∧
        source.samples.length = channels.toNat * source.totalFrames ∧
        ∀ c < channels.toNat, source.channel c = frames.flatMap (·.channel c)) ↔
      channels ≤ 1 ∨ lengths.countP (0 < ·) ≤ 1 := by
  constructor
  · intro h
    refine or_iff_not_imp_left.mpr fun hmany => ?_
    have hch : 1 < channels.toNat := UInt16.lt_iff_toNat_lt.mp (UInt16.not_le.mp hmany)
    have hpos : 0 < channels.toNat := by omega
    -- frames that tell the first channel from the others
    have hshaped : Shaped channels (lengths.map (twoTone channels sampleRate ⟨0⟩ ⟨1⟩)) lengths :=
      shaped_twoTone hpos lengths
    have hall : ∀ x ∈ ((lengths.map (twoTone channels sampleRate ⟨0⟩ ⟨1⟩)).flatMap
        AudioFrame.samples).take lengths.sum, x = ⟨0⟩ := by
      intro x hx
      have hsome := exists_ne_nil_of_mem_flatMap (List.mem_of_mem_take hx)
      obtain ⟨source, hload, -, -, hchannel⟩ := h _ hshaped hsome
      rw [loadFileSource_eq hsome] at hload
      obtain rfl := Except.ok.inj hload
      have hfirst := hchannel 0 hpos
      rw [channel_new _ _ _ hpos, AudioFrame.channel, AudioFrame.fromPlanar,
        hshaped.length_samples, Nat.mul_div_cancel_left _ hpos, block_zero] at hfirst
      rw [hfirst] at hx
      obtain ⟨f, hf, hxf⟩ := List.mem_flatMap.mp hx
      obtain ⟨k, -, rfl⟩ := List.mem_map.mp hf
      rw [channel_twoTone hpos] at hxf
      exact List.eq_of_mem_replicate hxf
    exact countP_le_one_of_take hch (by decide) hall
  · intro hcond frames hshaped hsome
    have hpos := hshaped.channels_pos hsome
    refine ⟨_, loadFileSource_eq hsome _ _, rfl, ?_, fun c hc => ?_⟩
    · rw [totalFrames_new _ _ _ hpos, hshaped.length_samples, Nat.mul_div_cancel_left _ hpos]
      exact hshaped.length_samples
    · rw [channel_new _ _ _ hpos]
      exact channel_fromPlanar hshaped hsome hcond sampleRate hc

/-- **Two stereo frames of one sample a channel**: the first channel of the buffer is the first
frame. -/
theorem loadFileSource_stereo :
    ∃ source, loadFileSource (.ok ⟨.ok ⟨2, 48000⟩,
        [.fromPlanar 2 48000 [⟨1⟩, ⟨2⟩], .fromPlanar 2 48000 [⟨3⟩, ⟨4⟩]], none⟩) false =
          .ok source ∧
      source.channel 0 = [⟨1⟩, ⟨2⟩] ∧
      [AudioFrame.fromPlanar 2 48000 [⟨1⟩, ⟨2⟩], .fromPlanar 2 48000 [⟨3⟩, ⟨4⟩]].flatMap
        (·.channel 0) = [⟨1⟩, ⟨3⟩] :=
  ⟨_, rfl, by decide, by decide⟩

end SonicBrew
