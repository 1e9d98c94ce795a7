import SonicBrew.AudioEngine.Nodes
import SonicBrew.Lib.Blocks
import SonicBrew.Lib.Layout

/-!
# Routing the channels of a frame

`ChannelMapNode` exchanges, mutes, scales or mixes the first two channels of a frame. Frames are
planar throughout the graph: one channel after the other. The loops of this node go through the
frame as if the channels took turns, and treat the first two of every `ch` samples as one moment of
the two channels. Mixing down to mono differs from its description in another way: both channels
get the average, and the second is not muted.

What a mode is to do with two samples of one moment is `SonicBrew.ChannelMode.intended`, and
`SonicBrew.onChannels` does this to the channels of a planar frame. For each mode the node does
the same to every frame of a given size only in few cases
(`SonicBrew.ChannelMapNode.process_iff`), most of them frames of one sample a channel; the general
reason is that the two layouts differ (`SonicBrew.Layout.agree_iff`).

The arithmetic of the machine is a parameter. All that is known of it is what an average of two
samples needs in order not to be zero always.
-/

namespace SonicBrew

open Layout

namespace F32

def zero : F32 := ⟨0⟩

def half : F32 := ⟨0x3F000000⟩

def one : F32 := ⟨0x3F800000⟩

def two : F32 := ⟨0x40000000⟩

/-- `FRAC_PI_4`. -/
def fracPi4 : F32 := ⟨0x3F490FDB⟩

theorem zero_ne_one : zero ≠ one := by decide

end F32

/-! ### Loops over a frame -/

/-- One round of a loop: the samples at `f * ch` and `f * ch + 1`. -/
def atFrame (body : F32 → F32 → F32 × F32) (ch : ℕ) (samples : List F32) (f : ℕ) : List F32 :=
  let out := body (samples.getD (f * ch) .zero) (samples.getD (f * ch + 1) .zero)
  (samples.set (f * ch) out.1).set (f * ch + 1) out.2

/-- `for f in 0..frames`. -/
def eachFrame (body : F32 → F32 → F32 × F32) (ch frames : ℕ) (samples : List F32) : List F32 :=
  (List.range frames).foldl (atFrame body ch) samples

/-- An operation on the first two channels of `k` samples each. The other channels stay. -/
def onChannels (body : F32 → F32 → F32 × F32) (k : ℕ) (samples : List F32) : List F32 :=
  let left := block k 0 samples
  let right := block k 1 samples
  List.zipWith (fun l r => (body l r).1) left right ++
    List.zipWith (fun l r => (body l r).2) left right ++ samples.drop (2 * k)

section Positions

variable {body : F32 → F32 → F32 × F32} {ch k : ℕ} {samples : List F32}

theorem eachFrame_succ (m : ℕ) (samples : List F32) :
    eachFrame body ch (m + 1) samples = atFrame body ch (eachFrame body ch m samples) m := by
  rw [eachFrame, List.range_succ, List.foldl_append]
  rfl

theorem length_eachFrame (m : ℕ) (samples : List F32) :
    (eachFrame body ch m samples).length = samples.length := by
  induction m with
  | zero => rfl
  | succ m ih => rw [eachFrame_succ, atFrame, List.length_set, List.length_set, ih]

/-- **The loop, position by position.** After some frames the samples before are those of
`SonicBrew.Layout.frameWise`, and the others are as they were. -/
theorem getD_eachFrame (hch : 2 ≤ ch) {m : ℕ} (hm : ch * m ≤ samples.length) (p : ℕ) :
    (eachFrame body ch m samples).getD p .zero =
      if p < ch * m then frameWise body ch (samples.getD · .zero) p else samples.getD p .zero := by
  induction m generalizing p with
  | zero => rfl
  | succ m ih =>
    rw [Nat.mul_succ] at hm
    -- the round reads and writes the first two samples of its frame, which nobody has touched
    have hdone : ∀ q, ch * m ≤ q →
        (eachFrame body ch m samples).getD q .zero = samples.getD q .zero := fun q hq => by
      rw [ih (by omega), if_neg (by omega)]
    have hlen : (eachFrame body ch m samples).length = samples.length := length_eachFrame m samples
    rw [eachFrame_succ, atFrame, Nat.mul_comm m ch, hdone _ (Nat.le_refl _),
      hdone _ (Nat.le_succ _), getD_set (by rw [List.length_set]; omega), getD_set (by omega),
      ih (by omega), Nat.mul_succ]
    by_cases hsecond : ch * m + 1 = p
    · subst hsecond
      rw [if_pos rfl, if_pos (by omega), frameWise_second body _ m hch]
    by_cases hfirst : ch * m = p
    · subst hfirst
      rw [if_neg (by omega), if_pos rfl, if_pos (by omega), frameWise_first body _ m]
    rw [if_neg hsecond, if_neg hfirst]
    rcases Nat.lt_or_ge p (ch * m) with hlt | hge
    · rw [if_pos hlt, if_pos (by omega)]
    · -- the other samples of the frame, and what comes after it
      obtain ⟨j, rfl⟩ := Nat.exists_eq_add_of_le hge
      rw [if_neg (by omega)]
      split
      · rw [frameWise_other body _ m (show 2 ≤ j by omega) (by omega)]
      · rfl

/-- What is behind the frames stays there. -/
theorem eachFrame_append (hch : 2 ≤ ch) {m : ℕ} (hm : ch * m ≤ samples.length)
    (rest : List F32) :
    eachFrame body ch m (samples ++ rest) = eachFrame body ch m samples ++ rest := by
  induction m with
  | zero => rfl
  | succ m ih =>
    rw [Nat.mul_succ] at hm
    have hlen : (eachFrame body ch m samples).length = samples.length := length_eachFrame m samples
    have hfirst : m * ch < (eachFrame body ch m samples).length := by
      rw [Nat.mul_comm]
      omega
    have hsecond : m * ch + 1 < (eachFrame body ch m samples).length := by
      rw [Nat.mul_comm]
      omega
    rw [eachFrame_succ, eachFrame_succ, ih (by omega), atFrame, atFrame,
      List.getD_append _ _ _ _ hfirst, List.getD_append _ _ _ _ hsecond,
      List.set_append_left _ _ hfirst,
      List.set_append_left _ _ (by rw [List.length_set]; exact hsecond)]

theorem length_onChannels (hlen : 2 * k ≤ samples.length) :
    (onChannels body k samples).length = samples.length := by
  rw [onChannels]
  simp only [List.length_append, List.length_zipWith, List.length_drop]
  rw [length_block (by omega), length_block (by omega)]
  omega

/-- **The channels, position by position.** -/
theorem getD_onChannels (hlen : 2 * k ≤ samples.length) (p : ℕ) :
    (onChannels body k samples).getD p .zero = channelWise body k (samples.getD · .zero) p := by
  have hleft : (block k 0 samples).length = k := length_block (by omega)
  have hright : (block k 1 samples).length = k := length_block (by omega)
  have hzip : ∀ f : F32 → F32 → F32,
      (List.zipWith f (block k 0 samples) (block k 1 samples)).length = k := fun f => by
    rw [List.length_zipWith, hleft, hright, Nat.min_self]
  have hsample : ∀ (f : F32 → F32 → F32) (j : ℕ), j < k →
      (List.zipWith f (block k 0 samples) (block k 1 samples)).getD j .zero =
        f (samples.getD j .zero) (samples.getD (k + j) .zero) := fun f j hj => by
    rw [getD_zipWith f (by omega) (by omega), getD_block hj _ _, getD_block hj _ _, Nat.zero_mul,
      Nat.zero_add, Nat.one_mul]
  rw [onChannels, channelWise]
  -- the left channel, the right one, and what is behind them
  rcases Nat.lt_or_ge p k with hp | hp
  · rw [if_pos hp, List.append_assoc, List.getD_append _ _ _ _ (by rw [hzip]; exact hp),
      hsample _ p hp]
  rw [if_neg (by omega), List.append_assoc,
    List.getD_append_right _ _ _ _ (by rw [hzip]; exact hp), hzip]
  rcases Nat.lt_or_ge p (2 * k) with hp' | hp'
  · rw [if_pos hp', List.getD_append _ _ _ _ (by rw [hzip]; omega), hsample _ (p - k) (by omega),
      Nat.add_sub_cancel' hp]
  · rw [if_neg (by omega), List.getD_append_right _ _ _ _ (by rw [hzip]; omega), hzip,
      List.getD_eq_getElem?_getD, List.getElem?_drop, ← List.getD_eq_getElem?_getD,
      show 2 * k + (p - k - k) = p by omega]

variable {intended : F32 → F32 → F32 × F32}

/-- **The loop does to every frame what is intended** exactly if the two layouts agree. -/
theorem eachFrame_iff (hch : 2 ≤ ch) :
    (∀ samples, samples.length = ch * k →
      eachFrame body ch k samples = onChannels intended k samples) ↔
      ∀ x : ℕ → F32, ∀ p < ch * k, frameWise body ch x p = channelWise intended k x p := by
  have htwo : 2 * k ≤ ch * k := Nat.mul_le_mul_right k hch
  have hposition : ∀ samples : List F32, samples.length = ch * k → ∀ p < ch * k,
      ((eachFrame body ch k samples).getD p .zero = (onChannels intended k samples).getD p .zero ↔
        frameWise body ch (samples.getD · .zero) p =
          channelWise intended k (samples.getD · .zero) p) := by
    intro samples hlen p hp
    rw [getD_eachFrame hch (by omega), if_pos hp, getD_onChannels (by omega)]
  constructor
  · intro h x p hp
    -- the block as a list, which has the same samples where it matters
    have hlen : ((List.range (ch * k)).map x).length = ch * k := by
      rw [List.length_map, List.length_range]
    have hx : ∀ q < ch * k, x q = ((List.range (ch * k)).map x).getD q .zero := by
      intro q hq
      rw [List.getD_eq_getElem _ _ (by omega), List.getElem_map, List.getElem_range]
    rw [frameWise_congr body hch hx hp, channelWise_congr intended hch hx hp,
      ← hposition _ hlen p hp, h _ hlen]
  · intro h samples hlen
    refine ext_getD .zero ?_ fun p hp => ?_
    · rw [length_eachFrame, length_onChannels (by omega)]
    · rw [length_eachFrame, hlen] at hp
      exact (hposition samples hlen p hp).mpr (h _ p hp)

/-- A mode that does not treat the samples one by one is right only where there is one moment. -/
theorem eachFrame_iff_le_one {body : F32 → F32 → F32 × F32} (hch : 2 ≤ ch)
    (h : ∀ u, ¬Samplewise body u) :
    (∀ samples, samples.length = ch * k →
      eachFrame body ch k samples = onChannels body k samples) ↔ k ≤ 1 := by
  rw [eachFrame_iff hch, agree_iff hch]
  exact or_iff_left fun ⟨u, hu, _⟩ => h u hu

theorem onChannels_passthrough {samples : List F32} (hlen : 2 * k ≤ samples.length) :
    onChannels (fun l r => (l, r)) k samples = samples := by
  refine ext_getD .zero (length_onChannels hlen) fun p _ => ?_
  rw [getD_onChannels hlen, channelWise]
  dsimp only
  rw [ite_self, ite_self]

/-- **Panning**: right where both gains do the same to every sample, and nothing if there are
other channels. -/
theorem eachFrame_pan_iff {f g : F32 → F32} (hch : 2 ≤ ch) :
    (∀ samples, samples.length = ch * k →
      eachFrame (fun l r => (f l, g r)) ch k samples =
        onChannels (fun l r => (f l, g r)) k samples) ↔
      k ≤ 1 ∨ (∀ a, f a = g a) ∧ (ch = 2 ∨ ∀ a, f a = a) := by
  rw [eachFrame_iff hch, agree_iff hch]
  refine or_congr_right ⟨?_, fun ⟨hfg, hall⟩ => ⟨f, fun l r => ?_, hall⟩⟩
  · rintro ⟨u, hu, hall⟩
    have hf : ∀ a, f a = u a := fun a => congrArg Prod.fst (hu a a)
    have hg : ∀ a, g a = u a := fun a => congrArg Prod.snd (hu a a)
    refine ⟨fun a => (hf a).trans (hg a).symm, hall.imp_right fun hid a => ?_⟩
    rw [hf, hid]
  · rw [hfg r]

end Positions

/-! ### Arithmetic -/

/-- **The arithmetic of single precision**, as far as it is used. -/
class F32Arith where
  add : F32 → F32 → F32
  mul : F32 → F32 → F32
  sinCos : F32 → F32 × F32
  add_one_one : add .one .one = .two
  mul_two_half : mul .two .half = .one

section Arith

variable [F32Arith]

open F32Arith

/-- The sine and the cosine of a pan position. -/
def panGains (position : F32) : F32 × F32 := sinCos (mul (add position .one) .fracPi4)

/-- The average of two samples. -/
def average (l r : F32) : F32 := mul (add l r) .half

theorem average_one_one : average .one .one = .one := by
  rw [average, add_one_one, mul_two_half]

/-! ### The node -/

/-- What the body of the loop makes of the two samples that it looks at. -/
def ChannelMode.body (mode : ChannelMode) (l r : F32) : F32 × F32 :=
  match mode with
  | .passthrough => (l, r)
  | .swap => (r, l)
  | .muteLeft => (.zero, r)
  | .muteRight => (l, .zero)
  | .pan position => (mul l (panGains position).2, mul r (panGains position).1)
  | .monoToStereo => (l, l)
  | .stereoToMono => (average l r, average l r)

/-- The `match` on the mode. No mode does anything to a frame of one channel. -/
def ChannelMode.route (mode : ChannelMode) (ch frames : ℕ) (samples : List F32) : List F32 :=
  match mode with
  | .passthrough => samples
  | _ => if ch ≥ 2 then eachFrame mode.body ch frames samples else samples

/-- `ChannelMapNode`, without the descriptions of its ports. -/
structure ChannelMapNode where
  mode : ChannelMode

/-- `process`. -/
def ChannelMapNode.process (node : ChannelMapNode) (inFrames outFrames : List AudioFrame) :
    List AudioFrame :=
  match inFrames, outFrames with
  | inp :: _, out :: others =>
      let n := min inp.samples.length out.samples.length
      let samples := inp.samples.take n ++ out.samples.drop n
      let ch := inp.channels.toNat
      if ch = 0 ∨ n = 0 then { out with samples := samples } :: others
      else { out with samples := node.mode.route ch (n / ch) samples } :: others
  | _, _ => outFrames

/-! ### What the modes are for -/

/-- What a mode is to make of the first two channels at one moment. -/
def ChannelMode.intended (mode : ChannelMode) (l r : F32) : F32 × F32 :=
  match mode with
  | .passthrough => (l, r)
  | .swap => (r, l)
  | .muteLeft => (.zero, r)
  | .muteRight => (l, .zero)
  | .pan position => (mul l (panGains position).2, mul r (panGains position).1)
  | .monoToStereo => (l, l)
  | .stereoToMono => (average l r, .zero)

/-- When a mode is right for all frames of `ch` channels with `k` samples each. -/
def ChannelMode.Agrees (mode : ChannelMode) (ch k : ℕ) : Prop :=
  match mode with
  | .passthrough => True
  | .pan position =>
      k ≤ 1 ∨ (∀ a, mul a (panGains position).2 = mul a (panGains position).1) ∧
        (ch = 2 ∨ ∀ a, mul a (panGains position).2 = a)
  | .stereoToMono => k = 0
  | _ => k ≤ 1

/-! ### The modes -/

section Modes

variable {ch k : ℕ}

/-- **Mixing down**: the second channel is not muted. -/
theorem eachFrame_stereoToMono_iff (hch : 2 ≤ ch) :
    (∀ samples, samples.length = ch * k →
      eachFrame (fun l r => (average l r, average l r)) ch k samples =
        onChannels (fun l r => (average l r, .zero)) k samples) ↔ k = 0 := by
  rw [eachFrame_iff hch]
  constructor
  · intro h
    refine Nat.eq_zero_of_not_pos fun hpos => ?_
    have htwo : 2 * k ≤ ch * k := Nat.mul_le_mul_right k hch
    -- a frame of ones stays as it is, and its second channel should be silent
    have hone := h (fun _ => .one) k (by omega)
    simp only [frameWise, channelWise, average_one_one, ite_self] at hone
    rw [if_neg (Nat.lt_irrefl k), if_pos (by omega)] at hone
    exact absurd hone (by decide)
  · rintro rfl x p hp
    exact absurd hp (Nat.not_lt_zero p)

/-- **Every mode**, on the samples of a planar frame. -/
theorem route_iff (mode : ChannelMode) (hch : 2 ≤ ch) :
    (∀ samples, samples.length = ch * k →
      mode.route ch k samples = onChannels mode.intended k samples) ↔ mode.Agrees ch k := by
  have htwo : 2 * k ≤ ch * k := Nat.mul_le_mul_right k hch
  cases mode with
  | passthrough =>
    refine iff_of_true (fun samples hlen => ?_) trivial
    exact (onChannels_passthrough (show 2 * k ≤ samples.length by omega)).symm
  | swap =>
    simp only [ChannelMode.route, if_pos hch]
    exact eachFrame_iff_le_one hch fun u hu => absurd (hu.fst_eq .zero .zero .one) F32.zero_ne_one
  | muteLeft =>
    simp only [ChannelMode.route, if_pos hch]
    exact eachFrame_iff_le_one hch fun u hu => absurd (hu.fst_eq_snd .one) F32.zero_ne_one
  | muteRight =>
    simp only [ChannelMode.route, if_pos hch]
    exact eachFrame_iff_le_one hch fun u hu => absurd (hu.fst_eq_snd .one) F32.zero_ne_one.symm
  | pan position =>
    simp only [ChannelMode.route, if_pos hch]
    exact eachFrame_pan_iff hch
  | monoToStereo =>
    simp only [ChannelMode.route, if_pos hch]
    exact eachFrame_iff_le_one hch fun u hu => absurd (hu.snd_eq .zero .one .zero) F32.zero_ne_one
  | stereoToMono =>
    simp only [ChannelMode.route, if_pos hch]
    exact eachFrame_stereoToMono_iff hch

theorem ChannelMode.route_zero (mode : ChannelMode) (samples : List F32) :
    mode.route ch 0 samples = samples := by
  cases mode <;> simp only [ChannelMode.route, eachFrame, List.range_zero, List.foldl_nil, ite_self]

/-- What is behind the frame stays there. -/
theorem ChannelMode.route_append (mode : ChannelMode) (hch : 2 ≤ ch) {samples : List F32}
    (hlen : ch * k ≤ samples.length) (rest : List F32) :
    mode.route ch k (samples ++ rest) = mode.route ch k samples ++ rest := by
  cases mode <;> simp only [ChannelMode.route, if_pos hch, eachFrame_append hch hlen]

end Modes

namespace ChannelMapNode

/-- **One call** of `process`, with a planar frame of at least two channels and enough room. -/
theorem process_eq (mode : ChannelMode) {inp out : AudioFrame} {k : ℕ} (ins outs : List AudioFrame)
    (hch : 2 ≤ inp.channels.toNat) (hlen : inp.samples.length = inp.channels.toNat * k)
    (hroom : inp.samples.length ≤ out.samples.length) :
    process ⟨mode⟩ (inp :: ins) (out :: outs) =
      { out with
        samples := mode.route inp.channels.toNat k inp.samples ++
          out.samples.drop inp.samples.length } :: outs := by
  have hdiv : inp.samples.length / inp.channels.toNat = k := by
    rw [hlen, Nat.mul_div_cancel_left k (by omega)]
  rw [process]
  dsimp only
  rw [Nat.min_eq_left hroom, List.take_length, hdiv, mode.route_append hch (by omega)]
  split
  · -- an empty frame: the loop does not run
    rename_i hempty
    have hzero : inp.samples.length = 0 := by omega
    obtain rfl : k = 0 := by rw [← hdiv, hzero, Nat.zero_div]
    rw [mode.route_zero]
  · rfl

/-- **The node acts on the channels of every planar frame with at least two channels**, given the
number of samples, in these cases only. -/
theorem process_iff (mode : ChannelMode) {channels : UInt16} (hch : 2 ≤ channels) (k : ℕ) :
    (∀ (inp out : AudioFrame) (ins outs : List AudioFrame), inp.channels = channels →
      inp.samples.length = channels.toNat * k → inp.samples.length ≤ out.samples.length →
        process ⟨mode⟩ (inp :: ins) (out :: outs) =
          { out with
            samples := onChannels mode.intended k inp.samples ++
              out.samples.drop inp.samples.length } :: outs) ↔
      mode.Agrees channels.toNat k := by
  have hch : 2 ≤ channels.toNat := UInt16.le_iff_toNat_le.mp hch
  rw [← route_iff mode hch]
  constructor
  · intro h samples hlen
    have heq := h ⟨channels, 0, samples⟩ ⟨channels, 0, samples⟩ [] [] rfl hlen (Nat.le_refl _)
    rw [process_eq mode [] [] hch hlen (Nat.le_refl _)] at heq
    obtain ⟨hframe, -⟩ := List.cons.inj heq
    exact List.append_cancel_right (congrArg AudioFrame.samples hframe)
  · rintro h inp out ins outs rfl hlen hroom
    rw [process_eq mode ins outs hch hlen hroom, h inp.samples hlen]

end ChannelMapNode

end Arith

/-- An arithmetic with one sum and one product. -/
@[reducible] def F32Arith.coarse : F32Arith where
  add _ _ := .two
  mul _ _ := .one
  sinCos _ := (.zero, .one)
  add_one_one := rfl
  mul_two_half := rfl

theorem ChannelMapNode.process_iff_swap :
    (2 : UInt16) ≤ 2 ∧
      (∀ (inp out : AudioFrame) (ins outs : List AudioFrame), inp.channels = 2 →
        inp.samples.length = (2 : UInt16).toNat * 1 → inp.samples.length ≤ out.samples.length →
          @ChannelMapNode.process .coarse ⟨.swap⟩ (inp :: ins) (out :: outs) =
            { out with
              samples := onChannels (@ChannelMode.intended .coarse .swap) 1 inp.samples ++
                out.samples.drop inp.samples.length } :: outs) :=
  ⟨by decide, (@process_iff .coarse .swap 2 (by decide) 1).mpr (Nat.le_refl 1)⟩

/-- **A stereo frame of two samples a channel**: what comes out are the samples of each channel in
reverse, and not the channels exchanged. -/
theorem ChannelMapNode.process_swap :
    @ChannelMapNode.process .coarse ⟨.swap⟩
        [.fromPlanar 2 48000 [⟨1⟩, ⟨2⟩, ⟨3⟩, ⟨4⟩]]
        [.fromPlanar 2 48000 [.zero, .zero, .zero, .zero]] =
      [.fromPlanar 2 48000 [⟨2⟩, ⟨1⟩, ⟨4⟩, ⟨3⟩]] ∧
    onChannels (@ChannelMode.intended .coarse .swap) 2 [⟨1⟩, ⟨2⟩, ⟨3⟩, ⟨4⟩] =
      [⟨3⟩, ⟨4⟩, ⟨1⟩, ⟨2⟩] := by
  decide

end SonicBrew
