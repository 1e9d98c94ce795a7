import Mathlib.Data.Rat.Floor
import SonicBrew.AudioEngine.Process
import SonicBrew.Lib.DelayLine
import SonicBrew.Lib.Rounding

/-!
# Delays that move

`ChorusNode` and `FlangerNode` read a ring at a position behind the cursor that an oscillator moves
to and fro, between two slots as a rule. The chorus writes the sample before it reads, the flanger
reads before it writes and feeds back what it has read; the lengths of their rings are rounded in
different ways.

None of this can be heard. For every oscillator with values between `-1` and `1` both read the two
values around the moment they look at (`SonicBrew.modulated_interpolated`), as the ring is long
enough for the older one and the younger one has been written. The oscillator is a parameter here:
how phases are added and what their sines are (`SonicBrew.PhaseArith`), so that its values may be
any.
-/

namespace SonicBrew

open Lanes Machine DelayLine

/-! ### The oscillator -/

/-- **How phases are added, and the sine of each.** -/
structure PhaseArith (φ : Type) where
  zero : φ
  twoPi : φ
  /-- `TWO_PI * rate / sr` -/
  increment : ℚ → UInt32 → φ
  add : φ → φ → φ
  sub : φ → φ → φ
  ge : φ → φ → Bool
  sin : φ → ℚ

namespace PhaseArith

variable {φ : Type} (osc : PhaseArith φ)

/-- The phase at the next sample. -/
def advance (phase inc : φ) : φ :=
  let phase := osc.add phase inc
  if osc.ge phase osc.twoPi then osc.sub phase osc.twoPi else phase

/-- The phase after so many samples. -/
def phase (inc : φ) : ℕ → φ
  | 0 => osc.zero
  | n + 1 => osc.advance (phase inc n) inc

/-- The values of the oscillator. -/
def lfo (inc : φ) (n : ℕ) : ℚ := osc.sin (osc.phase inc n)

/-- Phases that count the samples: an oscillator with any values. -/
def counting (values : ℕ → ℚ) : PhaseArith ℕ where
  zero := 0
  twoPi := 0
  increment _ _ := 1
  add a b := a + b
  sub a b := a - b
  ge _ _ := false
  sin := values

end PhaseArith

/-! ### Reading between two slots -/

/-- The read of both nodes, `d` samples behind the cursor. -/
def fractionalRead (buf : List ℚ) (wp : ℕ) (d : ℚ) : Option ℚ := do
  let cap := buf.length
  let readPos := remEuclid (wp - d) cap
  let idx0 := ⌊readPos⌋₊
  let idx1 := (idx0 + 1) % cap
  let frac := readPos - idx0
  let older ← buf[idx0]?
  let younger ← buf[idx1]?
  return older * (1 - frac) + younger * frac

/-- The values around a moment in the past. -/
def around (line : DelayLine ℚ) (d : ℚ) : ℚ :=
  line.back ⌈d⌉₊ * (1 - (⌈d⌉₊ - d)) + line.back (⌈d⌉₊ - 1) * (⌈d⌉₊ - d)

section Read

variable {line : DelayLine ℚ} {d : ℚ}

/-- **The two slots that are read.** -/
theorem fractionalRead_eq {buf : List ℚ} (hd : 2 ≤ d) (hlen : buf.length = line.slots.length)
    (hfit : ⌈d⌉₊ ≤ line.slots.length)
    (hold : buf[line.position ⌈d⌉₊]? = some (line.back ⌈d⌉₊))
    (hyoung : buf[line.position (⌈d⌉₊ - 1)]? = some (line.back (⌈d⌉₊ - 1))) :
    fractionalRead buf line.cursor d = some (around line d) := by
  obtain ⟨hfloor, hfrac⟩ := line.floor_remEuclid (show 0 < d by linarith) hfit
  have hceil := two_le_ceil hd
  have hnext : (line.position ⌈d⌉₊ + 1) % line.slots.length = line.position (⌈d⌉₊ - 1) := by
    have h := line.position_succ_mod (a := ⌈d⌉₊ - 1) (by omega)
    rwa [show ⌈d⌉₊ - 1 + 1 = ⌈d⌉₊ by omega] at h
  simp only [fractionalRead, hlen, hfloor, hnext, hold, hyoung, hfrac, Option.bind_eq_bind,
    Option.bind_some, Option.pure_def, around]

/-- Before the write. -/
theorem fractionalRead_slots (hd : 2 ≤ d) (hfit : ⌈d⌉₊ ≤ line.slots.length) :
    fractionalRead line.slots line.cursor d = some (around line d) :=
  fractionalRead_eq hd rfl hfit (line.getElem?_position _) (line.getElem?_position _)

/-- After the write, in a ring with one more slot. -/
theorem fractionalRead_set (x : ℚ) (hd : 2 ≤ d) (hfit : ⌈d⌉₊ + 1 ≤ line.slots.length) :
    fractionalRead (line.slots.set line.cursor x) line.cursor d = some (around line d) := by
  have hceil := two_le_ceil hd
  exact fractionalRead_eq hd List.length_set (by omega)
    (getElem?_set_position x (by omega) (by omega))
    (getElem?_set_position x (by omega) (by omega))

/-- **What is read is the signal in between.** -/
theorem around_eq_interpolated {w : ℕ → ℚ} {n : ℕ} (h : line.Holds w n) (hd : 2 ≤ d)
    (hfit : ⌈d⌉₊ ≤ line.slots.length) : around line d = interpolated d w n := by
  have hceil := two_le_ceil hd
  rw [around, h _ (by omega) hfit, h _ (by omega) (by omega), interpolated]

end Read

/-! ### One channel -/

/-- What the channels of a node have in common. A chorus is a sweep without feedback. -/
structure Sweep (φ : Type) where
  center : ℚ
  depth : ℚ
  feedback : ℚ
  mix : ℚ
  inc : φ

namespace Sweep

variable {φ : Type} (p : Sweep φ) (osc : PhaseArith φ)

/-- The delay for a value of the oscillator. -/
def delay (lfo : ℚ) : ℚ := p.center + p.depth * lfo

/-- What a channel does with a sample. -/
def step (t : DelayLine ℚ × φ) (x : ℚ) : (DelayLine ℚ × φ) × ℚ :=
  let wet := around t.1 (p.delay (osc.sin t.2))
  ((t.1.push (x + wet * p.feedback), osc.advance t.2 p.inc), x * (1 - p.mix) + wet * p.mix)

/-- **The ring is long enough** for all that the oscillator can ask for. -/
structure Fits (cap : ℕ) : Prop where
  two_le : ∀ lfo : ℚ, |lfo| ≤ 1 → 2 ≤ p.delay lfo
  ceil_le : ∀ lfo : ℚ, |lfo| ≤ 1 → ⌈p.delay lfo⌉₊ ≤ cap

/-- The values that a channel writes. -/
def written (t : DelayLine ℚ × φ) (x : ℕ → ℚ) (n : ℕ) : ℚ :=
  let t := trajectory (p.step osc) t x n
  x n + around t.1 (p.delay (osc.sin t.2)) * p.feedback

variable {cap : ℕ}

/-- **At every moment the ring holds what has been written**, and the oscillator has moved on. -/
theorem holds_trajectory (hcap : 0 < cap) (x : ℕ → ℚ) (n : ℕ) :
    (trajectory (p.step osc) (.silent cap hcap, osc.zero) x n).1.Holds
        (p.written osc (.silent cap hcap, osc.zero) x) n ∧
      (trajectory (p.step osc) (.silent cap hcap, osc.zero) x n).1.slots.length = cap ∧
      (trajectory (p.step osc) (.silent cap hcap, osc.zero) x n).2 = osc.phase p.inc n := by
  induction n with
  | zero => exact ⟨holds_silent cap hcap _, List.length_replicate, rfl⟩
  | succ n ih =>
    obtain ⟨hholds, hlen, hphase⟩ := ih
    refine ⟨hholds.push, (length_push _ _).trans hlen, ?_⟩
    rw [PhaseArith.phase, ← hphase]
    rfl

variable {p osc}

/-- **The wet sample** is the signal of the values written, at the delay of the moment. -/
theorem around_trajectory (hfits : p.Fits cap) (hsin : ∀ q, |osc.sin q| ≤ 1) (hcap : 0 < cap)
    (x : ℕ → ℚ) (n : ℕ) :
    let t := trajectory (p.step osc) (.silent cap hcap, osc.zero) x n
    around t.1 (p.delay (osc.sin t.2)) =
      interpolated (p.delay (osc.lfo p.inc n))
        (p.written osc (.silent cap hcap, osc.zero) x) n := by
  intro t
  obtain ⟨hholds, hlen, hphase⟩ := p.holds_trajectory osc hcap x n
  rw [PhaseArith.lfo, ← hphase]
  exact around_eq_interpolated hholds (hfits.two_le _ (hsin _))
    ((hfits.ceil_le _ (hsin _)).trans_eq hlen.symm)

/-- **The values written**: the sample, and part of what is read. -/
theorem written_eq (hfits : p.Fits cap) (hsin : ∀ q, |osc.sin q| ≤ 1) (hcap : 0 < cap)
    (x : ℕ → ℚ) (n : ℕ) :
    p.written osc (.silent cap hcap, osc.zero) x n =
      x n + p.feedback * interpolated (p.delay (osc.lfo p.inc n))
        (p.written osc (.silent cap hcap, osc.zero) x) n := by
  rw [← around_trajectory hfits hsin hcap x n, mul_comm p.feedback]
  rfl

theorem response_eq (hfits : p.Fits cap) (hsin : ∀ q, |osc.sin q| ≤ 1) (hcap : 0 < cap)
    (x : ℕ → ℚ) (n : ℕ) :
    response (p.step osc) (.silent cap hcap, osc.zero) x n =
      x n * (1 - p.mix) + interpolated (p.delay (osc.lfo p.inc n))
        (p.written osc (.silent cap hcap, osc.zero) x) n * p.mix := by
  rw [← around_trajectory hfits hsin hcap x n]
  rfl

/-- **The delays of an oscillator whose centre is a millisecond above its depth**, at a rate of at
least 2000 samples a second. -/
theorem delay_mem {center depth sr lfo : ℚ} (hcenter : p.center = center * 0.001 * sr)
    (hdepth : p.depth = depth * 0.001 * sr) (h0 : 0 ≤ depth) (h1 : depth + 1 ≤ center)
    (hsr : 2000 ≤ sr) (hlfo : |lfo| ≤ 1) :
    2 ≤ p.delay lfo ∧ p.delay lfo ≤ (center + depth) * 0.001 * sr := by
  obtain ⟨hlow, hhigh⟩ := abs_le.mp hlfo
  have hdelay : p.delay lfo = (center + depth * lfo) * (0.001 * sr) := by
    rw [delay, hcenter, hdepth]
    ring
  have hms : 2 ≤ 0.001 * sr := by linarith
  have hfrom : 1 ≤ center + depth * lfo := by nlinarith
  have hto : center + depth * lfo ≤ center + depth := by nlinarith
  rw [hdelay, mul_assoc]
  exact ⟨by nlinarith, mul_le_mul_of_nonneg_right hto (by linarith)⟩

theorem Fits.mono {k : ℕ} (h : p.Fits k) (hle : k ≤ cap) : p.Fits cap :=
  ⟨h.two_le, fun lfo hlfo => (h.ceil_le lfo hlfo).trans hle⟩

end Sweep

/-! ### The rings of a node -/

/-- What a node keeps for each channel. -/
structure Rings (φ : Type) where
  buffers : List (List ℚ)
  writePos : List ℕ
  lfoPhase : List φ
  deriving DecidableEq, Repr

namespace Rings

variable {φ : Type}

/-- All rings empty, all cursors and phases at their start. -/
def silent (osc : PhaseArith φ) (ch len : ℕ) : Rings φ where
  buffers := List.replicate ch (List.replicate len 0)
  writePos := List.replicate ch 0
  lfoPhase := List.replicate ch osc.zero

/-- The channel `c` has this ring and this phase. -/
structure Lane (r : Rings φ) (c : ℕ) (t : DelayLine ℚ × φ) : Prop where
  buffers : r.buffers[c]? = some t.1.slots
  writePos : r.writePos[c]? = some t.1.cursor
  lfoPhase : r.lfoPhase[c]? = some t.2

/-- Another ring and phase in one channel. -/
def withLane (r : Rings φ) (c : ℕ) (t : DelayLine ℚ × φ) : Rings φ where
  buffers := r.buffers.set c t.1.slots
  writePos := r.writePos.set c t.1.cursor
  lfoPhase := r.lfoPhase.set c t.2

variable {r : Rings φ} {c : ℕ} {t : DelayLine ℚ × φ}

theorem Lane.withLane (h : r.Lane c t) (u : DelayLine ℚ × φ) : (r.withLane c u).Lane c u where
  buffers := getElem?_set_of_getElem? h.buffers _
  writePos := getElem?_set_of_getElem? h.writePos _
  lfoPhase := getElem?_set_of_getElem? h.lfoPhase _

theorem Lane.withLane_of_ne (h : r.Lane c t) {c' : ℕ} (hne : c ≠ c') (u : DelayLine ℚ × φ) :
    (r.withLane c' u).Lane c t where
  buffers := getElem?_set_of_ne hne h.buffers _
  writePos := getElem?_set_of_ne hne h.writePos _
  lfoPhase := getElem?_set_of_ne hne h.lfoPhase _

theorem lane_silent (osc : PhaseArith φ) {ch len : ℕ} (hlen : 0 < len) (hc : c < ch) :
    (silent osc ch len).Lane c (.silent len hlen, osc.zero) :=
  ⟨List.getElem?_replicate_of_lt hc, List.getElem?_replicate_of_lt hc,
    List.getElem?_replicate_of_lt hc⟩

end Rings

/-! ### Chorus -/

/-- `ChorusNode`, without the descriptions of its ports. -/
structure ChorusNode (φ : Type) extends Rings φ where
  mix : ℚ
  centerSamples : ℚ
  depthSamples : ℚ
  phaseInc : φ
  deriving DecidableEq, Repr

namespace ChorusNode

variable {φ : Type} (osc : PhaseArith φ)

/-- `ChorusNode::new`. A ring that is longer than memory is not modelled: it would not be made. -/
def new (rateHz depthMs centerDelayMs mix : ℚ) (sampleRate : UInt32) (channels : UInt16) :
    ChorusNode φ :=
  let rate := clamp rateHz 0.05 10
  let depth := max depthMs 0
  let center := max (max centerDelayMs 5) (depth + 1)
  let sr : ℚ := sampleRate.toNat
  let bufferLen := (roundHalfAway ((center + depth + 1) * 0.001 * sr)).toNat
  { toRings := .silent osc (max channels 1).toNat (max bufferLen 2)
    mix := clamp mix 0 1
    centerSamples := center * 0.001 * sr
    depthSamples := depth * 0.001 * sr
    phaseInc := osc.increment rate sampleRate }

/-- `process_sample`. -/
def processSample (self : ChorusNode φ) (x : ℚ) (ch : ℕ) : Option (ChorusNode φ × ℚ) := do
  let buf ← self.buffers[ch]?
  let cap := buf.length
  let wp ← self.writePos[ch]?
  let buf ← store buf wp x
  let phase ← self.lfoPhase[ch]?
  let lfo := osc.sin phase
  let currentDelay := self.centerSamples + self.depthSamples * lfo
  let wet ← fractionalRead buf wp currentDelay
  return ({ self with
    buffers := self.buffers.set ch buf
    writePos := self.writePos.set ch ((wp + 1) % cap)
    lfoPhase := self.lfoPhase.set ch (osc.advance phase self.phaseInc) },
    x * (1 - self.mix) + wet * self.mix)

/-- `process`. -/
def process : ChorusNode φ → ProcessCall ℚ → Option (ChorusNode φ × List (ExactFrame ℚ)) :=
  processPlanar (processSample osc)

/-- A chorus does not feed back. -/
def sweep (self : ChorusNode φ) : Sweep φ :=
  ⟨self.centerSamples, self.depthSamples, 0, self.mix, self.phaseInc⟩

/-- Another ring and phase in one channel. -/
def withLane (self : ChorusNode φ) (c : ℕ) (t : DelayLine ℚ × φ) : ChorusNode φ :=
  { self with toRings := self.toRings.withLane c t }

variable {osc} {node : ChorusNode φ} {c : ℕ} {t : DelayLine ℚ × φ}

/-- **The sample is written first**, and the ring is so long that it is not in the way. -/
theorem processSample_eq {k : ℕ} (hlane : node.toRings.Lane c t) (hfits : node.sweep.Fits k)
    (hle : k + 1 ≤ t.1.slots.length) (hsin : ∀ q, |osc.sin q| ≤ 1) (x : ℚ) :
    processSample osc node x c =
      some (node.withLane c (node.sweep.step osc t x).1, (node.sweep.step osc t x).2) := by
  obtain ⟨line, phase⟩ := t
  have hcursor : line.slots[line.cursor]? = some _ := List.getElem?_eq_getElem line.cursor_lt
  have hread : fractionalRead (line.slots.set line.cursor x) line.cursor
      (node.centerSamples + node.depthSamples * osc.sin phase) = some (around line _) :=
    fractionalRead_set x (hfits.two_le _ (hsin phase))
      ((Nat.succ_le_succ (hfits.ceil_le _ (hsin phase))).trans hle)
  have hwritten : (node.sweep.step osc (line, phase) x).1 =
      (line.push x, osc.advance phase node.phaseInc) := by
    have hzero : x + around line (node.sweep.delay (osc.sin phase)) * 0 = x := by ring
    exact congrArg (fun v => (line.push v, osc.advance phase node.phaseInc)) hzero
  simp only [processSample, hlane.buffers, hlane.writePos, hlane.lfoPhase,
    store_of_getElem? hcursor, hread, hwritten, Option.bind_eq_bind, Option.bind_some,
    Option.pure_def]
  rfl

/-- **The channels are apart**, and each of them is a sweep. -/
theorem bank {p : Sweep φ} {k cap : ℕ} (hfits : p.Fits k) (hle : k + 1 ≤ cap)
    (hsin : ∀ q, |osc.sin q| ≤ 1) :
    Bank (fun (node : ChorusNode φ) c t =>
        node.toRings.Lane c t ∧ node.sweep = p ∧ t.1.slots.length = cap)
      (fun _ => True) (processSample osc) fun t x u y => p.step osc t x = (u, y) := by
  refine .of_step fun {node c t} x h => ?_
  obtain ⟨hlane, rfl, rfl⟩ := h
  exact ⟨_, processSample_eq hlane hfits hle hsin x,
    ⟨hlane.withLane _, rfl, length_push _ _⟩,
    fun _ _ hne hd => ⟨hd.1.withLane_of_ne hne _, hd.2⟩⟩

/-! The ring has room for a millisecond more than the longest delay, which is at least two
samples. -/

section New

variable (osc) (rateHz depthMs centerDelayMs mix : ℚ) {sampleRate : UInt32} (channels : UInt16)

theorem fits_new (hrate : 2000 ≤ sampleRate) :
    let node := new osc rateHz depthMs centerDelayMs mix sampleRate channels
    ∃ k, node.sweep.Fits k ∧ node.toRings = .silent osc (max channels 1).toNat (k + 1) := by
  intro node
  have hsr : (2000 : ℚ) ≤ sampleRate.toNat := by
    exact_mod_cast UInt32.le_iff_toNat_le.mp hrate
  set depth := max depthMs 0 with hdepth
  set center := max (max centerDelayMs 5) (depth + 1) with hcenter
  set length := (center + depth + 1) * 0.001 * (sampleRate.toNat : ℚ) with hlength
  have hdelay : ∀ lfo : ℚ, |lfo| ≤ 1 →
      2 ≤ node.sweep.delay lfo ∧
        node.sweep.delay lfo ≤ (center + depth) * 0.001 * sampleRate.toNat := fun lfo hlfo =>
    Sweep.delay_mem rfl rfl (le_max_right _ _) (le_max_right _ _) hsr hlfo
  -- rounding loses half a sample, and there are two
  have hround : length - 1 / 2 ≤ (max (roundHalfAway length).toNat 2 : ℕ) := by
    have hnear := (abs_le.mp (abs_roundHalfAway_sub_le length)).1
    have hnat : ((roundHalfAway length : ℤ) : ℚ) ≤ ((roundHalfAway length).toNat : ℕ) := by
      exact_mod_cast Int.self_le_toNat (roundHalfAway length)
    have hmax : ((roundHalfAway length).toNat : ℚ) ≤ (max (roundHalfAway length).toNat 2 : ℕ) := by
      exact_mod_cast le_max_left _ _
    linarith
  refine ⟨max (roundHalfAway length).toNat 2 - 1,
    ⟨fun lfo hlfo => (hdelay lfo hlfo).1, fun lfo hlfo => ?_⟩, ?_⟩
  · obtain ⟨htwo, hle⟩ := hdelay lfo hlfo
    have hceil : (⌈node.sweep.delay lfo⌉₊ : ℚ) < (max (roundHalfAway length).toNat 2 : ℕ) := by
      have hlt := Nat.ceil_lt_add_one (show 0 ≤ node.sweep.delay lfo by linarith)
      linarith
    have := Nat.cast_lt.mp hceil
    omega
  · rw [Nat.sub_add_cancel (by omega)]
    rfl

end New

/-- **The chorus reads its input**, at the delay of the moment. -/
theorem processAll_interpolated (hsin : ∀ q, |osc.sin q| ≤ 1)
    (rateHz depthMs centerDelayMs mix : ℚ) {sampleRate : UInt32} (hrate : 2000 ≤ sampleRate)
    (channels : UInt16) {calls : List (ProcessCall ℚ)}
    (hfit : ∀ call ∈ calls, call.channels ≤ (max channels 1).toNat) :
    let node := new osc rateHz depthMs centerDelayMs mix sampleRate channels
    ∃ node' outs, runAll (process osc) node calls = some (node', outs) ∧
      ∀ c < (max channels 1).toNat,
        produced c calls outs = (List.range (received c calls).length).map fun n =>
          signal (received c calls) n * (1 - node.mix) +
            interpolated (node.centerSamples + node.depthSamples * osc.lfo node.phaseInc n)
              (signal (received c calls)) n * node.mix := by
  intro node
  obtain ⟨k, hfits, hrings⟩ :=
    fits_new osc rateHz depthMs centerDelayMs mix channels hrate
  have hk : 0 < k + 1 := Nat.succ_pos k
  have hlane : ∀ c < (max channels 1).toNat, node.toRings.Lane c (.silent (k + 1) hk, osc.zero) ∧
      node.sweep = node.sweep ∧ (silent (K := ℚ) (k + 1) hk).slots.length = k + 1 := fun c hc =>
    ⟨hrings ▸ Rings.lane_silent osc hk hc, rfl, List.length_replicate⟩
  obtain ⟨node', outs, hrun, hchannels⟩ :=
    processAll_response (bank hfits le_rfl hsin) hlane hfit
  refine ⟨node', outs, hrun, fun c hc => ?_⟩
  have hfits := hfits.mono (Nat.le_succ k)
  -- without feedback the values written are the samples
  have hwritten : node.sweep.written osc (.silent (k + 1) hk, osc.zero)
      (signal (received c calls)) = signal (received c calls) := by
    funext n
    rw [Sweep.written_eq hfits hsin]
    exact (congrArg (_ + ·) (zero_mul _)).trans (add_zero _)
  rw [(hchannels c hc).1]
  refine List.map_congr_left fun n _ => ?_
  rw [Sweep.response_eq hfits hsin, hwritten]
  rfl

end ChorusNode

/-! ### Flanger -/

/-- `FlangerNode`, without the descriptions of its ports. -/
structure FlangerNode (φ : Type) extends Rings φ where
  feedback : ℚ
  mix : ℚ
  centerSamples : ℚ
  depthSamples : ℚ
  phaseInc : φ
  deriving DecidableEq, Repr

namespace FlangerNode

variable {φ : Type} (osc : PhaseArith φ)

/-- `FEEDBACK_CEIL`. -/
def feedbackCeil : ℚ := 0.9

/-- `FlangerNode::new`. A ring that is longer than memory is not modelled: it would not be made. -/
def new (rateHz depthMs centerDelayMs feedback mix : ℚ) (sampleRate : UInt32) (channels : UInt16) :
    FlangerNode φ :=
  let rate := clamp rateHz 0.05 10
  let depth := max depthMs 0
  let center := max (max centerDelayMs 1) (depth + 1)
  let sr : ℚ := sampleRate.toNat
  let bufferLen := ⌊(center + depth) * 0.001 * sr + 1⌋₊
  { toRings := .silent osc (max channels 1).toNat (max bufferLen 4)
    feedback := clamp feedback 0 feedbackCeil
    mix := clamp mix 0 1
    centerSamples := center * 0.001 * sr
    depthSamples := depth * 0.001 * sr
    phaseInc := osc.increment rate sampleRate }

/-- `process_sample`. -/
def processSample (self : FlangerNode φ) (x : ℚ) (ch : ℕ) : Option (FlangerNode φ × ℚ) := do
  let buf ← self.buffers[ch]?
  let cap := buf.length
  let wp ← self.writePos[ch]?
  let phase ← self.lfoPhase[ch]?
  let lfo := osc.sin phase
  let currentDelay := self.centerSamples + self.depthSamples * lfo
  let wet ← fractionalRead buf wp currentDelay
  let buf ← store buf wp (x + wet * self.feedback)
  return ({ self with
    buffers := self.buffers.set ch buf
    writePos := self.writePos.set ch ((wp + 1) % cap)
    lfoPhase := self.lfoPhase.set ch (osc.advance phase self.phaseInc) },
    x * (1 - self.mix) + wet * self.mix)

/-- `process`. -/
def process : FlangerNode φ → ProcessCall ℚ → Option (FlangerNode φ × List (ExactFrame ℚ)) :=
  processPlanar (processSample osc)

def sweep (self : FlangerNode φ) : Sweep φ :=
  ⟨self.centerSamples, self.depthSamples, self.feedback, self.mix, self.phaseInc⟩

/-- Another ring and phase in one channel. -/
def withLane (self : FlangerNode φ) (c : ℕ) (t : DelayLine ℚ × φ) : FlangerNode φ :=
  { self with toRings := self.toRings.withLane c t }

variable {osc} {node : FlangerNode φ} {c : ℕ} {t : DelayLine ℚ × φ}

/-- **The ring is read first.** The oldest value in it may be needed. -/
theorem processSample_eq (hlane : node.toRings.Lane c t)
    (hfits : node.sweep.Fits t.1.slots.length) (hsin : ∀ q, |osc.sin q| ≤ 1) (x : ℚ) :
    processSample osc node x c =
      some (node.withLane c (node.sweep.step osc t x).1, (node.sweep.step osc t x).2) := by
  obtain ⟨line, phase⟩ := t
  have hcursor : line.slots[line.cursor]? = some _ := List.getElem?_eq_getElem line.cursor_lt
  have hread : fractionalRead line.slots line.cursor
      (node.centerSamples + node.depthSamples * osc.sin phase) = some (around line _) :=
    fractionalRead_slots (hfits.two_le _ (hsin phase)) (hfits.ceil_le _ (hsin phase))
  simp only [processSample, hlane.buffers, hlane.writePos, hlane.lfoPhase,
    store_of_getElem? hcursor, hread, Option.bind_eq_bind, Option.bind_some, Option.pure_def]
  rfl

/-- **The channels are apart**, and each of them is a sweep. -/
theorem bank {p : Sweep φ} {cap : ℕ} (hfits : p.Fits cap) (hsin : ∀ q, |osc.sin q| ≤ 1) :
    Bank (fun (node : FlangerNode φ) c t =>
        node.toRings.Lane c t ∧ node.sweep = p ∧ t.1.slots.length = cap)
      (fun _ => True) (processSample osc) fun t x u y => p.step osc t x = (u, y) := by
  refine .of_step fun {node c t} x h => ?_
  obtain ⟨hlane, rfl, rfl⟩ := h
  exact ⟨_, processSample_eq hlane hfits hsin x, ⟨hlane.withLane _, rfl, length_push _ _⟩,
    fun _ _ hne hd => ⟨hd.1.withLane_of_ne hne _, hd.2⟩⟩

/-! The ring has one slot more than the whole part of the longest delay. -/

section New

variable (osc) (rateHz depthMs centerDelayMs feedback mix : ℚ) {sampleRate : UInt32}
  (channels : UInt16)

theorem fits_new (hrate : 2000 ≤ sampleRate) :
    let node := new osc rateHz depthMs centerDelayMs feedback mix sampleRate channels
    ∃ cap, 0 < cap ∧ node.sweep.Fits cap ∧
      node.toRings = .silent osc (max channels 1).toNat cap := by
  intro node
  have hsr : (2000 : ℚ) ≤ sampleRate.toNat := by
    exact_mod_cast UInt32.le_iff_toNat_le.mp hrate
  set depth := max depthMs 0 with hdepth
  set center := max (max centerDelayMs 1) (depth + 1) with hcenter
  set longest := (center + depth) * 0.001 * (sampleRate.toNat : ℚ) with hlongest
  have hdelay : ∀ lfo : ℚ, |lfo| ≤ 1 →
      2 ≤ node.sweep.delay lfo ∧ node.sweep.delay lfo ≤ longest := fun lfo hlfo =>
    Sweep.delay_mem rfl rfl (le_max_right _ _) (le_max_right _ _) hsr hlfo
  refine ⟨max ⌊longest + 1⌋₊ 4, by omega,
    ⟨fun lfo hlfo => (hdelay lfo hlfo).1, fun lfo hlfo => ?_⟩, rfl⟩
  rw [Nat.ceil_le]
  have hfloor : longest + 1 < ⌊longest + 1⌋₊ + 1 := Nat.lt_floor_add_one _
  have hmax : (⌊longest + 1⌋₊ : ℚ) ≤ (max ⌊longest + 1⌋₊ 4 : ℕ) := by
    exact_mod_cast le_max_left _ _
  linarith [(hdelay lfo hlfo).2]

end New

/-- **The flanger reads what it has written**, at the delay of the moment; and what it writes is
bounded if the input is. -/
theorem processAll_interpolated (hsin : ∀ q, |osc.sin q| ≤ 1)
    (rateHz depthMs centerDelayMs feedback mix : ℚ) {sampleRate : UInt32}
    (hrate : 2000 ≤ sampleRate) (channels : UInt16) {calls : List (ProcessCall ℚ)}
    (hfit : ∀ call ∈ calls, call.channels ≤ (max channels 1).toNat) :
    let node := new osc rateHz depthMs centerDelayMs feedback mix sampleRate channels
    ∃ node' outs, runAll (process osc) node calls = some (node', outs) ∧
      ∀ c < (max channels 1).toNat, ∃ w : ℕ → ℚ,
        let wet := fun n =>
          interpolated (node.centerSamples + node.depthSamples * osc.lfo node.phaseInc n) w n
        (∀ n, w n = signal (received c calls) n + node.feedback * wet n) ∧
        produced c calls outs = (List.range (received c calls).length).map (fun n =>
          signal (received c calls) n * (1 - node.mix) + wet n * node.mix) ∧
        ∀ B, (∀ n, |signal (received c calls) n| ≤ B) → ∀ n, |w n| ≤ B / (1 - node.feedback) := by
  intro node
  obtain ⟨cap, hcap, hfits, hrings⟩ :=
    fits_new osc rateHz depthMs centerDelayMs feedback mix channels hrate
  have hf0 : 0 ≤ node.feedback := le_clamp _ _ _
  have hf1 : node.feedback < 1 :=
    (clamp_le (by norm_num [feedbackCeil]) _).trans_lt (by norm_num [feedbackCeil])
  have hlane : ∀ c < (max channels 1).toNat, node.toRings.Lane c (.silent cap hcap, osc.zero) ∧
      node.sweep = node.sweep ∧ (silent (K := ℚ) cap hcap).slots.length = cap := fun c hc =>
    ⟨hrings ▸ Rings.lane_silent osc hcap hc, rfl, List.length_replicate⟩
  obtain ⟨node', outs, hrun, hchannels⟩ := processAll_response (bank hfits hsin) hlane hfit
  refine ⟨node', outs, hrun, fun c hc => ?_⟩
  have hw := Sweep.written_eq hfits hsin hcap (signal (received c calls))
  refine ⟨_, hw, ?_, fun B hB => abs_le_div_one_sub hf0 hf1 hw hB fun n C =>
    abs_interpolated_le (hfits.two_le _ (hsin _))⟩
  rw [(hchannels c hc).1]
  exact List.map_congr_left fun n _ => Sweep.response_eq hfits hsin hcap _ n

end FlangerNode

/-- **Chorus and flanger read between the two moments around their delay**, whatever the oscillator
does: of the input in the one case, and of the input with feedback in the other. No index is out of
range, and the values with feedback are bounded if the input is. -/
theorem modulated_interpolated {φ : Type} (osc : PhaseArith φ) (hsin : ∀ q, |osc.sin q| ≤ 1)
    (rateHz depthMs centerDelayMs feedback mix : ℚ) {sampleRate : UInt32}
    (hrate : 2000 ≤ sampleRate) (channels : UInt16) {calls : List (ProcessCall ℚ)}
    (hfit : ∀ call ∈ calls, call.channels ≤ (max channels 1).toNat) :
    (let node := ChorusNode.new osc rateHz depthMs centerDelayMs mix sampleRate channels
      ∃ node' outs, runAll (ChorusNode.process osc) node calls = some (node', outs) ∧
        ∀ c < (max channels 1).toNat,
          produced c calls outs = (List.range (received c calls).length).map fun n =>
            signal (received c calls) n * (1 - node.mix) +
              interpolated (node.centerSamples + node.depthSamples * osc.lfo node.phaseInc n)
                (signal (received c calls)) n * node.mix) ∧
    let node := FlangerNode.new osc rateHz depthMs centerDelayMs feedback mix sampleRate channels
    ∃ node' outs, runAll (FlangerNode.process osc) node calls = some (node', outs) ∧
      ∀ c < (max channels 1).toNat, ∃ w : ℕ → ℚ,
        let wet := fun n =>
          interpolated (node.centerSamples + node.depthSamples * osc.lfo node.phaseInc n) w n
        (∀ n, w n = signal (received c calls) n + node.feedback * wet n) ∧
        produced c calls outs = (List.range (received c calls).length).map (fun n =>
          signal (received c calls) n * (1 - node.mix) + wet n * node.mix) ∧
        ∀ B, (∀ n, |signal (received c calls) n| ≤ B) → ∀ n, |w n| ≤ B / (1 - node.feedback) :=
  ⟨ChorusNode.processAll_interpolated hsin rateHz depthMs centerDelayMs mix hrate channels hfit,
    FlangerNode.processAll_interpolated hsin rateHz depthMs centerDelayMs feedback mix hrate
      channels hfit⟩

/-- An oscillator that jumps between its extremes. -/
def PhaseArith.jumping : PhaseArith ℕ := counting fun n => (-1) ^ n

theorem modulated_interpolated_jumping :
    (∀ q, |PhaseArith.jumping.sin q| ≤ 1) ∧ (2000 : UInt32) ≤ 48000 ∧
      (∀ call ∈ [ProcessCall.mono [(1 : ℚ), 0], .mono [0]],
        call.channels ≤ (max (1 : UInt16) 1).toNat) ∧
      (∃ node' outs, runAll (ChorusNode.process .jumping) (.new .jumping 1 2 5 (1 / 2) 48000 1)
        [.mono [1, 0], .mono [0]] = some (node', outs)) ∧
      ∃ node' outs, runAll (FlangerNode.process .jumping)
        (.new .jumping 1 2 5 (1 / 2) (1 / 2) 48000 1) [.mono [1, 0], .mono [0]] =
          some (node', outs) := by
  have hsin : ∀ q, |PhaseArith.jumping.sin q| ≤ 1 := fun q => (abs_neg_one_pow q).le
  have hfit : ∀ call ∈ [ProcessCall.mono [(1 : ℚ), 0], .mono [0]],
      call.channels ≤ (max (1 : UInt16) 1).toNat := by decide
  obtain ⟨⟨chorus, outs, hchorus, -⟩, flanger, outs', hflanger, -⟩ :=
    modulated_interpolated .jumping hsin 1 2 5 (1 / 2) (1 / 2)
      (show (2000 : UInt32) ≤ 48000 by decide) 1 hfit
  exact ⟨hsin, by decide, hfit, ⟨chorus, outs, hchorus⟩, flanger, outs', hflanger⟩

end SonicBrew
