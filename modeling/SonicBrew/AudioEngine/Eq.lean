import Mathlib.Algebra.Field.Basic
import Mathlib.Tactic.Ring
import SonicBrew.AudioEngine.Nodes
import SonicBrew.AudioEngine.Process

/-!
# Equaliser

`EqNode` is a filter of the second order. Its five coefficients are computed once
(`SonicBrew.computeCoeffs`), and each channel keeps two registers, in which the past inputs and
outputs are mixed up. For any coefficients the output is what the filter is known by: a sum of the
last three inputs and the last two outputs (`SonicBrew.EqNode.processAll_recurrence`).

The formulas need functions that only real numbers have; here they are a parameter.
-/

namespace SonicBrew

open Lanes Machine

/-! ### Coefficients -/

/-- `Coeffs`. -/
structure Coeffs (K : Type) where
  b0 : K
  b1 : K
  b2 : K
  a1 : K
  a2 : K
  deriving DecidableEq, Repr

/-- What the formulas give, before `a0` is divided out. -/
structure RawCoeffs (K : Type) where
  b0 : K
  b1 : K
  b2 : K
  a0 : K
  a1 : K
  a2 : K
  deriving DecidableEq, Repr

section Coeffs

variable {K : Type} [Field K]

/-- The `match` of `compute_coeffs`, with `(a * a).sqrt()` as `sq`. -/
def rawCoeffs (ft : FilterType) (cos alpha a sq : K) : RawCoeffs K :=
  match ft with
  | .lowPass => ⟨(1 - cos) / 2, 1 - cos, (1 - cos) / 2, 1 + alpha, -2 * cos, 1 - alpha⟩
  | .highPass => ⟨(1 + cos) / 2, -(1 + cos), (1 + cos) / 2, 1 + alpha, -2 * cos, 1 - alpha⟩
  | .bandPass => ⟨alpha, 0, -alpha, 1 + alpha, -2 * cos, 1 - alpha⟩
  | .peaking =>
      ⟨1 + alpha * a, -2 * cos, 1 - alpha * a, 1 + alpha / a, -2 * cos, 1 - alpha / a⟩
  | .lowShelf =>
      ⟨a * ((a + 1) - (a - 1) * cos + 2 * sq * alpha),
        2 * a * ((a - 1) - (a + 1) * cos),
        a * ((a + 1) - (a - 1) * cos - 2 * sq * alpha),
        (a + 1) + (a - 1) * cos + 2 * sq * alpha,
        -2 * ((a - 1) + (a + 1) * cos),
        (a + 1) + (a - 1) * cos - 2 * sq * alpha⟩
  | .highShelf =>
      ⟨a * ((a + 1) + (a - 1) * cos + 2 * sq * alpha),
        -2 * a * ((a - 1) + (a + 1) * cos),
        a * ((a + 1) + (a - 1) * cos - 2 * sq * alpha),
        (a + 1) - (a - 1) * cos + 2 * sq * alpha,
        2 * ((a - 1) - (a + 1) * cos),
        (a + 1) - (a - 1) * cos - 2 * sq * alpha⟩

/-- The coefficients, with `a0` divided out. -/
def RawCoeffs.normalise (r : RawCoeffs K) : Coeffs K :=
  ⟨r.b0 / r.a0, r.b1 / r.a0, r.b2 / r.a0, r.a1 / r.a0, r.a2 / r.a0⟩

/-- `w0`: the angle of a frequency. -/
def angularFreq (std : Elementary K) (freq : K) (sampleRate : UInt32) : K :=
  2 * std.pi * freq / sampleRate.toNat

/-- `a`: the amplitude of a gain in decibels. -/
def gainAmplitude (std : Elementary K) (gainDb : K) : K := std.powf 10 (gainDb / 40)

/-- `compute_coeffs`. A division by zero has no result here; in the code it has one that is not a
number. -/
def computeCoeffs [DecidableEq K] (std : Elementary K) (ft : FilterType) (freq gainDb q : K)
    (sampleRate : UInt32) : Option (Coeffs K) :=
  let sr : K := sampleRate.toNat
  let w0 := angularFreq std freq sampleRate
  let alpha := std.sin w0 / (2 * q)
  let a := gainAmplitude std gainDb
  let raw := rawCoeffs ft (std.cos w0) alpha a (std.sqrt (a * a))
  if sr = 0 ∨ q = 0 ∨ raw.a0 = 0 then none else some raw.normalise

end Coeffs

/-! ### The node -/

/-- `EqNode`, without the descriptions of its ports. -/
structure EqNode (K : Type) where
  coeffs : Coeffs K
  z1 : List K
  z2 : List K
  deriving DecidableEq, Repr

namespace EqNode

variable {K : Type}

/-- A node with these coefficients, and silent registers. -/
def ofCoeffs [Zero K] (coeffs : Coeffs K) (channels : UInt16) : EqNode K where
  coeffs := coeffs
  z1 := List.replicate channels.toNat 0
  z2 := List.replicate channels.toNat 0

/-- `EqNode::new`. -/
def new [Field K] [DecidableEq K] (std : Elementary K) (filterType : FilterType)
    (freq gainDb q : K) (sampleRate : UInt32) (channels : UInt16) : Option (EqNode K) :=
  (computeCoeffs std filterType freq gainDb q sampleRate).map (ofCoeffs · channels)

variable [CommRing K]

/-- `process_sample`. -/
def processSample (self : EqNode K) (x : K) (ch : ℕ) : Option (EqNode K × K) := do
  let c := self.coeffs
  let y := c.b0 * x + (← self.z1[ch]?)
  let z1 ← store self.z1 ch (c.b1 * x - c.a1 * y + (← self.z2[ch]?))
  let z2 ← store self.z2 ch (c.b2 * x - c.a2 * y)
  return ({ self with z1 := z1, z2 := z2 }, y)

/-- `process`. -/
def process : EqNode K → ProcessCall K → Option (EqNode K × List (ExactFrame K)) :=
  processPlanar processSample

/-! ### One channel -/

/-- What a channel does with a sample. -/
def step (c : Coeffs K) (z : K × K) (x : K) : (K × K) × K :=
  let y := c.b0 * x + z.1
  ((c.b1 * x - c.a1 * y + z.2, c.b2 * x - c.a2 * y), y)

/-- The channel has these registers. -/
structure Lane (c : Coeffs K) (node : EqNode K) (ch : ℕ) (z : K × K) : Prop where
  coeffs : node.coeffs = c
  z1 : node.z1[ch]? = some z.1
  z2 : node.z2[ch]? = some z.2

/-- **The channels are apart.** -/
theorem bank (c : Coeffs K) :
    Bank (Lane c) (fun _ => True) processSample fun t x u y => step c t x = (u, y) := by
  refine .of_step fun {node ch z} x h => ?_
  obtain ⟨rfl, h1, h2⟩ := h
  refine ⟨⟨node.coeffs, node.z1.set ch (step node.coeffs z x).1.1,
    node.z2.set ch (step node.coeffs z x).1.2⟩, ?_, ⟨rfl, ?_, ?_⟩, fun d u hne hd => ⟨rfl, ?_, ?_⟩⟩
  · simp only [processSample, h1, h2, store_of_getElem? h1, store_of_getElem? h2,
      Option.bind_eq_bind, Option.bind_some, Option.pure_def]
    rfl
  · exact getElem?_set_of_getElem? h1 _
  · exact getElem?_set_of_getElem? h2 _
  · exact getElem?_set_of_ne hne hd.z1 _
  · exact getElem?_set_of_ne hne hd.z2 _

/-! ### The registers -/

variable (c : Coeffs K) (x : ℕ → K)

/-- **What is in the registers**: all that the past has to say about the next two outputs. -/
theorem trajectory_eq (n : ℕ) :
    trajectory (step c) (0, 0) x n =
      (c.b1 * delayed 1 x n - c.a1 * delayed 1 (response (step c) (0, 0) x) n +
          (c.b2 * delayed 2 x n - c.a2 * delayed 2 (response (step c) (0, 0) x) n),
        c.b2 * delayed 1 x n - c.a2 * delayed 1 (response (step c) (0, 0) x) n) := by
  induction n with
  | zero => simp only [trajectory, delayed_zero, mul_zero, sub_zero, add_zero]
  | succ n ih =>
    have hz2 : (trajectory (step c) (0, 0) x n).2 =
        c.b2 * delayed 1 x n - c.a2 * delayed 1 (response (step c) (0, 0) x) n :=
      congrArg Prod.snd ih
    rw [delayed_one_succ, delayed_one_succ, delayed_succ, delayed_succ, ← hz2]
    rfl

/-- **The filter equation.** -/
theorem response_eq (n : ℕ) :
    response (step c) (0, 0) x n =
      c.b0 * x n + c.b1 * delayed 1 x n + c.b2 * delayed 2 x n -
        c.a1 * delayed 1 (response (step c) (0, 0) x) n -
        c.a2 * delayed 2 (response (step c) (0, 0) x) n := by
  have hz1 := congrArg Prod.fst (trajectory_eq c x n)
  have hy : response (step c) (0, 0) x n =
      c.b0 * x n + (trajectory (step c) (0, 0) x n).1 := rfl
  rw [hy, hz1]
  ring

/-- **The output of every channel follows the filter equation**, with the inputs and outputs of this
channel only, in however many blocks they come. -/
theorem processAll_recurrence (channels : UInt16) {calls : List (ProcessCall K)}
    (hfit : ∀ call ∈ calls, call.channels ≤ channels.toNat) :
    ∃ node' outs, runAll process (ofCoeffs c channels) calls = some (node', outs) ∧
      ∀ ch < channels.toNat, ∃ y : ℕ → K,
        produced ch calls outs = (List.range (received ch calls).length).map y ∧
        ∀ n, y n =
          c.b0 * signal (received ch calls) n + c.b1 * delayed 1 (signal (received ch calls)) n +
            c.b2 * delayed 2 (signal (received ch calls)) n -
            c.a1 * delayed 1 y n - c.a2 * delayed 2 y n := by
  have hlane : ∀ ch < channels.toNat, Lane c (ofCoeffs c channels) ch (0, 0) := fun ch hch =>
    ⟨rfl, List.getElem?_replicate_of_lt hch, List.getElem?_replicate_of_lt hch⟩
  obtain ⟨node', outs, hrun, hchannels⟩ := processAll_response (bank c) hlane hfit
  exact ⟨node', outs, hrun, fun ch hch => ⟨_, (hchannels ch hch).1, response_eq c _⟩⟩

/-- An impulse through a filter with two poles, in two blocks. -/
theorem processAll_recurrence_impulse :
    (∀ call ∈ [ProcessCall.mono [(1 : ℚ), 0], .mono [0]], call.channels ≤ (1 : UInt16).toNat) ∧
    ∃ node' outs, runAll process (ofCoeffs ⟨1, 0, 0, -1, 1 / 2⟩ 1) [.mono [(1 : ℚ), 0], .mono [0]] =
        some (node', outs) ∧
      ∃ y : ℕ → ℚ, produced 0 [.mono [1, 0], .mono [0]] outs = (List.range 3).map y ∧
        ∀ n, y n = 1 * signal [1, 0, 0] n + 0 * delayed 1 (signal [1, 0, 0]) n +
          0 * delayed 2 (signal [1, 0, 0]) n - -1 * delayed 1 y n - 1 / 2 * delayed 2 y n := by
  have hfit : ∀ call ∈ [ProcessCall.mono [(1 : ℚ), 0], .mono [0]],
      call.channels ≤ (1 : UInt16).toNat := by decide
  obtain ⟨node', outs, hrun, hchannels⟩ :=
    processAll_recurrence (⟨1, 0, 0, -1, 1 / 2⟩ : Coeffs ℚ) 1 hfit
  obtain ⟨y, hproduced, hy⟩ := hchannels 0 (by decide)
  exact ⟨hfit, node', outs, hrun, y, hproduced, hy⟩

end EqNode

end SonicBrew
