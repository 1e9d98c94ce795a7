import SonicBrew.AudioEngine.Cookbook

/-!
# Noise gate

`NoiseGateNode` follows the size of its input, opens while it is above a threshold and for some
samples after that, and lets the gain move towards open or closed. All it smooths moves by a part of
the way (`SonicBrew.NoiseGateNode.approach`), so the gain stays between the two.

The counter of the hold is a countdown that every loud sample starts again. What it comes to is a
window (`SonicBrew.NoiseGateNode.processAll_gated`): the gate is open exactly if the envelope was
above the threshold at this sample or at one of those before, as far back as the hold goes.
-/

namespace SonicBrew

open Lanes Machine

/-- `NoiseGateNode`, without the descriptions of its ports. -/
structure NoiseGateNode (K : Type) where
  threshold : K
  attackCoef : K
  releaseCoef : K
  holdSamples : ℕ
  envelope : List K
  holdCounter : List ℕ
  gain : List K
  deriving DecidableEq, Repr

namespace NoiseGateNode

section Model

variable {K : Type} [Field K] [LinearOrder K]

/-- `time_constant`. -/
def timeConstant (math : Elementary K) (ms : K) (sampleRate : UInt32) : K :=
  if ms ≤ 0 then 1
  else
    let samples := ms * 0.001 * (sampleRate.toNat : K)
    1 - math.exp (-1 / samples)

/-- The node with these parameters, and all channels closed. -/
def closed (threshold attackCoef releaseCoef : K) (holdSamples : ℕ) (channels : UInt16) :
    NoiseGateNode K :=
  let ch := channels.toNat
  { threshold := threshold
    attackCoef := attackCoef
    releaseCoef := releaseCoef
    holdSamples := holdSamples
    envelope := List.replicate ch 0
    holdCounter := List.replicate ch 0
    gain := List.replicate ch 0 }

/-- `NoiseGateNode::new`. The cast to a word takes what is too large for the largest. -/
def new [FloorSemiring K] (math : Elementary K) (thresholdDb attackMs holdMs releaseMs : K)
    (sampleRate : UInt32) (channels : UInt16) : NoiseGateNode K :=
  closed (math.powf 10.0 (thresholdDb / 20.0)) (timeConstant math attackMs sampleRate)
    (timeConstant math releaseMs sampleRate)
    (min ⌊holdMs * 0.001 * (sampleRate.toNat : K)⌋₊ (UInt64.size - 1)) channels

/-- The step from a smoothed value towards where it goes: up with the one coefficient, down with the
other. -/
def approach (attackCoef releaseCoef value goal : K) : K :=
  let coef := if goal > value then attackCoef else releaseCoef
  value + coef * (goal - value)

/-- The logic of the gate: the target, and what is left of the hold. -/
def target (threshold : K) (holdSamples : ℕ) (env : K) (holdCounter : ℕ) : K × ℕ :=
  if env > threshold then (1, holdSamples)
  else if holdCounter > 0 then (1, holdCounter - 1)
  else (0, holdCounter)

/-- `process_sample`. -/
def processSample (self : NoiseGateNode K) (x : K) (ch : ℕ) : Option (NoiseGateNode K × K) := do
  let absX := |x|
  let env ← self.envelope[ch]?
  let env := approach self.attackCoef self.releaseCoef env absX
  let holdCounter ← self.holdCounter[ch]?
  let (target, holdCounter) := target self.threshold self.holdSamples env holdCounter
  let g ← self.gain[ch]?
  let g := approach self.attackCoef self.releaseCoef g target
  return ({ self with
    envelope := self.envelope.set ch env
    holdCounter := self.holdCounter.set ch holdCounter
    gain := self.gain.set ch g }, x * g)

/-- `process`. -/
def process :
    NoiseGateNode K → ProcessCall K → Option (NoiseGateNode K × List (ExactFrame K)) :=
  processPlanar processSample

end Model

/-! ### One channel -/

/-- What a channel remembers. -/
structure Gate (K : Type) where
  envelope : K
  holdCounter : ℕ
  gain : K
  deriving DecidableEq, Repr

section Lane

variable {K : Type} [Field K] [LinearOrder K] (threshold attack release : K) (hold : ℕ)

/-- What it does with a sample. -/
def step (s : Gate K) (x : K) : Gate K × K :=
  let env := approach attack release s.envelope |x|
  let next := target threshold hold env s.holdCounter
  let g := approach attack release s.gain next.1
  (⟨env, next.2, g⟩, x * g)

/-- The channel `c` of a node with these parameters is in this state. -/
structure Lane (node : NoiseGateNode K) (c : ℕ) (s : Gate K) : Prop where
  threshold : node.threshold = threshold
  attackCoef : node.attackCoef = attack
  releaseCoef : node.releaseCoef = release
  holdSamples : node.holdSamples = hold
  envelope : node.envelope[c]? = some s.envelope
  holdCounter : node.holdCounter[c]? = some s.holdCounter
  gain : node.gain[c]? = some s.gain

/-- The node with another state of one channel. -/
def withLane (node : NoiseGateNode K) (c : ℕ) (s : Gate K) : NoiseGateNode K :=
  { node with
    envelope := node.envelope.set c s.envelope
    holdCounter := node.holdCounter.set c s.holdCounter
    gain := node.gain.set c s.gain }

variable {threshold attack release : K} {hold c : ℕ} {node : NoiseGateNode K} {s : Gate K}

theorem processSample_eq (h : Lane threshold attack release hold node c s) (x : K) :
    processSample node x c =
      some (node.withLane c (step threshold attack release hold s x).1,
        (step threshold attack release hold s x).2) := by
  obtain ⟨rfl, rfl, rfl, rfl, henvelope, hcounter, hgain⟩ := h
  simp only [processSample, henvelope, hcounter, hgain, Option.bind_eq_bind, Option.bind_some,
    Option.pure_def]
  rfl

omit [Field K] [LinearOrder K] in
theorem Lane.withLane (h : Lane threshold attack release hold node c s) (s' : Gate K) :
    Lane threshold attack release hold (node.withLane c s') c s' where
  threshold := h.threshold
  attackCoef := h.attackCoef
  releaseCoef := h.releaseCoef
  holdSamples := h.holdSamples
  envelope := getElem?_set_of_getElem? h.envelope _
  holdCounter := getElem?_set_of_getElem? h.holdCounter _
  gain := getElem?_set_of_getElem? h.gain _

omit [Field K] [LinearOrder K] in
theorem Lane.withLane_of_ne (h : Lane threshold attack release hold node c s) {c' : ℕ}
    (hne : c ≠ c') (s' : Gate K) :
    Lane threshold attack release hold (node.withLane c' s') c s where
  threshold := h.threshold
  attackCoef := h.attackCoef
  releaseCoef := h.releaseCoef
  holdSamples := h.holdSamples
  envelope := getElem?_set_of_ne hne h.envelope _
  holdCounter := getElem?_set_of_ne hne h.holdCounter _
  gain := getElem?_set_of_ne hne h.gain _

/-- **The channels are apart.** -/
theorem bank : Bank (Lane threshold attack release hold) (fun _ => True) processSample
    fun t x u y => step threshold attack release hold t x = (u, y) :=
  .of_step fun x h => ⟨_, processSample_eq h x, h.withLane _,
    fun _ _ hne hd => hd.withLane_of_ne hne _⟩

end Lane

/-! ### Gain and hold -/

section Gate

variable {K : Type} [Field K] [LinearOrder K]

/-- A channel that is closed and has heard nothing. -/
def Gate.silent : Gate K := ⟨0, 0, 0⟩

theorem target_fst (threshold : K) (hold : ℕ) (env : K) (holdCounter : ℕ) :
    (target threshold hold env holdCounter).1 =
      if threshold < env ∨ 0 < holdCounter then 1 else 0 := by
  rw [target]
  split
  · rename_i hopen
    exact (if_pos (.inl hopen)).symm
  · rename_i hquiet
    split
    · rename_i hheld
      exact (if_pos (.inr hheld)).symm
    · rename_i hover
      exact (if_neg (not_or.mpr ⟨hquiet, hover⟩)).symm

/-- The hold is a countdown that a loud sample starts again. -/
theorem target_snd (threshold : K) (hold : ℕ) (env : K) (holdCounter : ℕ) :
    (target threshold hold env holdCounter).2 =
      if threshold < env then hold else holdCounter - 1 := by
  rw [target]
  split
  · rfl
  · split
    · rfl
    · rename_i hover
      show holdCounter = holdCounter - 1
      omega

variable (threshold attack release : K) (hold : ℕ) (x : ℕ → K)

/-- **The target is a window over the envelope.** -/
theorem target_trajectory_iff (n : ℕ) :
    (threshold < (trajectory (step threshold attack release hold) .silent x (n + 1)).envelope ∨
      0 < (trajectory (step threshold attack release hold) .silent x n).holdCounter) ↔
      ∃ m ≤ n, n ≤ m + hold ∧
        threshold < (trajectory (step threshold attack release hold) .silent x (m + 1)).envelope :=
  or_pos_countdown_iff
    (C := fun n => (trajectory (step threshold attack release hold) .silent x n).holdCounter)
    (P := fun n => threshold <
      (trajectory (step threshold attack release hold) .silent x (n + 1)).envelope)
    rfl (fun _ => target_snd threshold hold _ _) n

variable {threshold attack release hold x} [IsStrictOrderedRing K]

/-- A part of the way between two values is between them. -/
theorem approach_mem {value goal : K} (ha : attack ∈ Set.Ioc 0 1) (hr : release ∈ Set.Ioc 0 1)
    (hvalue : value ∈ Set.Icc 0 1) (hgoal : goal ∈ Set.Icc 0 1) :
    approach attack release value goal ∈ Set.Icc 0 1 := by
  obtain ⟨coef, hcoef, heq⟩ : ∃ coef ∈ Set.Ioc (0 : K) 1,
      approach attack release value goal = value * (1 - coef) + goal * coef := by
    refine ⟨if goal > value then attack else release, ?_, ?_⟩
    · split
      · exact ha
      · exact hr
    · rw [approach]
      ring
  have hrest : 0 ≤ 1 - coef := sub_nonneg.mpr hcoef.2
  rw [heq]
  constructor
  · exact add_nonneg (mul_nonneg hvalue.1 hrest) (mul_nonneg hgoal.1 hcoef.1.le)
  · calc value * (1 - coef) + goal * coef ≤ 1 * (1 - coef) + 1 * coef :=
        add_le_add (mul_le_mul_of_nonneg_right hvalue.2 hrest)
          (mul_le_mul_of_nonneg_right hgoal.2 hcoef.1.le)
      _ = 1 := by ring

theorem target_mem (env : K) (holdCounter : ℕ) :
    (target threshold hold env holdCounter).1 ∈ Set.Icc 0 1 := by
  rw [target_fst]
  split
  · exact ⟨zero_le_one, le_rfl⟩
  · exact ⟨le_rfl, zero_le_one⟩

/-- **The gain is always between closed and open.** -/
theorem gain_trajectory_mem (ha : attack ∈ Set.Ioc 0 1) (hr : release ∈ Set.Ioc 0 1) (n : ℕ) :
    (trajectory (step threshold attack release hold) .silent x n).gain ∈ Set.Icc 0 1 := by
  induction n with
  | zero => exact ⟨le_rfl, zero_le_one⟩
  | succ n ih => exact approach_mem ha hr ih (target_mem _ _)

end Gate

/-- **The gate.** For all parameters and all sequences of calls, no index is out of range, and each
channel goes through states of its own in which the gain is between zero and one, so that nothing
gets louder; and the target of the gain is one if the envelope is above the threshold, or was at one
of the last samples of the hold, and zero if not. -/
theorem processAll_gated {K : Type} [Field K] [LinearOrder K] [IsStrictOrderedRing K]
    (threshold : K) {attack release : K} (ha : attack ∈ Set.Ioc 0 1) (hr : release ∈ Set.Ioc 0 1)
    (hold : ℕ) (channels : UInt16) (calls : List (ProcessCall K))
    (hfit : ∀ call ∈ calls, call.channels ≤ channels.toNat) :
    ∃ node' outs, runAll process (closed threshold attack release hold channels) calls =
        some (node', outs) ∧
      ∀ c < channels.toNat,
        let x := signal (received c calls)
        let s := trajectory (step threshold attack release hold) .silent x
        let goal := fun n => (target threshold hold (s (n + 1)).envelope (s n).holdCounter).1
        let loud := fun n => ∃ m ≤ n, n ≤ m + hold ∧ threshold < (s (m + 1)).envelope
        Lane threshold attack release hold node' c (s (received c calls).length) ∧
        (∀ n, (s (n + 1)).envelope = approach attack release (s n).envelope |x n|) ∧
        (∀ n, (s (n + 1)).gain = approach attack release (s n).gain (goal n)) ∧
        (∀ n, (s n).gain ∈ Set.Icc 0 1) ∧
        (∀ n, (goal n = 1 ↔ loud n) ∧ (goal n = 0 ↔ ¬loud n)) ∧
        produced c calls outs = (List.range (received c calls).length).map
          (fun n => x n * (s (n + 1)).gain) ∧
        ∀ n, |x n * (s (n + 1)).gain| ≤ |x n| := by
  have hlane : ∀ c < channels.toNat, Lane threshold attack release hold
      (closed threshold attack release hold channels) c .silent := fun c hc =>
    ⟨rfl, rfl, rfl, rfl, List.getElem?_replicate_of_lt hc, List.getElem?_replicate_of_lt hc,
      List.getElem?_replicate_of_lt hc⟩
  obtain ⟨node', outs, hrun, hchannels⟩ := processAll_response bank hlane hfit
  refine ⟨node', outs, hrun, fun c hc => ?_⟩
  intro x s goal loud
  have hgain : ∀ n, (s n).gain ∈ Set.Icc 0 1 := gain_trajectory_mem ha hr
  have hgoal : ∀ n, goal n =
      if threshold < (s (n + 1)).envelope ∨ 0 < (s n).holdCounter then 1 else 0 := fun n =>
    target_fst threshold hold _ _
  have hloud : ∀ n, (threshold < (s (n + 1)).envelope ∨ 0 < (s n).holdCounter) ↔ loud n :=
    target_trajectory_iff threshold attack release hold x
  refine ⟨(hchannels c hc).2, fun _ => rfl, fun _ => rfl, hgain, fun n => ?_, (hchannels c hc).1,
    fun n => ?_⟩
  · rw [← hloud, hgoal]
    split
    · rename_i hopen
      simp [hopen]
    · rename_i hclosed
      simp [hclosed]
  · rw [abs_mul, abs_of_nonneg (hgain _).1]
    exact mul_le_of_le_one_right (abs_nonneg _) (hgain _).2

/-- A loud sample and two quiet ones, in two blocks, with a hold of one sample. -/
theorem processAll_gated_hold :
    (1 : ℚ) ∈ Set.Ioc 0 1 ∧
    (∀ call ∈ [ProcessCall.mono [(1 : ℚ), 1 / 4], .mono [1 / 4]],
      call.channels ≤ (1 : UInt16).toNat) ∧
    ∃ node' outs, runAll process (closed (1 / 2) 1 1 1 1) [.mono [1, 1 / 4], .mono [1 / 4]] =
        some (node', outs) ∧
      produced 0 [.mono [1, 1 / 4], .mono [1 / 4]] outs = [(1 : ℚ), 1 / 4, 0] := by
  have hone : (1 : ℚ) ∈ Set.Ioc 0 1 := ⟨one_pos, le_rfl⟩
  have hfit : ∀ call ∈ [ProcessCall.mono [(1 : ℚ), 1 / 4], .mono [1 / 4]],
      call.channels ≤ (1 : UInt16).toNat := by decide
  obtain ⟨node', outs, hrun, hchannels⟩ := processAll_gated (1 / 2) hone hone 1 1 _ hfit
  obtain ⟨-, -, -, -, -, hproduced, -⟩ := hchannels 0 (by decide)
  refine ⟨hone, hfit, node', outs, hrun, ?_⟩
  rw [hproduced]
  decide +kernel

/-- **Every node that the constructor makes has such coefficients**, over the real numbers and at
any sample rate that is one. -/
theorem timeConstant_mem (ms : ℝ) {sampleRate : UInt32} (hrate : 0 < sampleRate.toNat) :
    timeConstant Elementary.real ms sampleRate ∈ Set.Ioc 0 1 := by
  rw [timeConstant]
  split
  · exact ⟨one_pos, le_rfl⟩
  · rename_i hms
    have hsamples : 0 < ms * 0.001 * (sampleRate.toNat : ℝ) :=
      mul_pos (mul_pos (not_le.mp hms) (by norm_num)) (Nat.cast_pos.mpr hrate)
    have hexp : Real.exp (-1 / (ms * 0.001 * (sampleRate.toNat : ℝ))) < 1 :=
      Real.exp_lt_one_iff.mpr (div_neg_of_neg_of_pos (by norm_num) hsamples)
    exact ⟨sub_pos.mpr hexp, sub_le_self _ (Real.exp_pos _).le⟩

end NoiseGateNode

end SonicBrew
