import Mathlib.Data.Rat.Floor
import Mathlib.Data.Set.Card
import SonicBrew.AudioEngine.Process
import SonicBrew.Lib.Rounding

/-!
# Fewer bits and fewer samples

`BitcrusherNode` repeats a sample for as long as its counter is not at a multiple of the hold, and
rounds what it repeats to one of the levels that so many bits can tell apart.

The counter is gone in the result (`SonicBrew.BitcrusherNode.processAll_quantised`): sample `n` of a
channel comes from the last multiple of the hold up to `n`. Rounding to a level is what it is for a
ruler with equal steps (`SonicBrew.Quantises`): nothing else than the levels comes out, in the order
of what goes in and at most half a step away.
-/

namespace SonicBrew

open Lanes Machine

/-- **Levels at equal distances** from `-1` to `1`. -/
def level (levels k : ℕ) : ℚ := -1 + 2 * k / (levels - 1)

/-- **A function that rounds to so many levels**: they are all it gives, it keeps the order, the
levels lie symmetrically and are kept, and no sample in range is moved by more than half a step. -/
structure Quantises (levels : ℕ) (q : ℚ → ℚ) : Prop where
  range_eq : Set.range q = level levels '' Set.Iio levels
  card : (Set.range q).ncard = levels
  mono : Monotone q
  symmetric : ∀ y ∈ Set.range q, -y ∈ Set.range q
  idempotent : ∀ x, q (q x) = q x
  near : ∀ x, |x| ≤ 1 → |q x - x| ≤ 1 / (levels - 1)

/-! ### The levels -/

/-- The second stage of `process_sample`: normalise, round, and map back. -/
def quantise (bits : ℕ) (held : ℚ) : ℚ :=
  let levels := 1 <<< bits
  let denom : ℚ := (levels - 1 : ℕ)
  let norm := (clamp held (-1) 1 + 1) * 0.5
  let quantized := roundHalfAway (norm * denom) / denom
  quantized * 2 - 1

section Levels

variable {N : ℕ}

/-- The position of a sample on a ruler whose last mark is `N`. -/
def place (N : ℕ) (x : ℚ) : ℚ := (clamp x (-1) 1 + 1) * 0.5 * N

/-- The number of the level that the sample is rounded to. -/
def levelIndex (N : ℕ) (x : ℚ) : ℕ := (roundHalfAway (place N x)).toNat

theorem clamp_of_abs_le {x : ℚ} (h : |x| ≤ 1) : clamp x (-1) 1 = x := by
  obtain ⟨hlow, hhigh⟩ := abs_le.mp h
  rw [clamp, min_eq_left hhigh, max_eq_right hlow]

theorem clamp_mono : Monotone fun x : ℚ => clamp x (-1) 1 := fun _ _ h =>
  max_le_max_left _ (min_le_min_right _ h)

theorem level_succ (N k : ℕ) : level (N + 1) k = 2 * k / N - 1 := by
  rw [level, Nat.cast_add_one, add_sub_cancel_right]
  ring

theorem place_mono : Monotone (place N) := fun x y h => by
  have hclamp := clamp_mono h
  dsimp only at hclamp
  rw [place, place]
  gcongr

/-- What a sample is rounded to is between the ends of the ruler. -/
theorem roundHalfAway_place_mem (N : ℕ) (x : ℚ) :
    0 ≤ roundHalfAway (place N x) ∧ roundHalfAway (place N x) ≤ N := by
  have hlow : ((0 : ℤ) : ℚ) ≤ place N x := by
    have hclamp := le_clamp x (-1) 1
    rw [place, Int.cast_zero]
    exact mul_nonneg (mul_nonneg (by linarith) (by norm_num)) (Nat.cast_nonneg N)
  have hhigh : place N x ≤ ((N : ℤ) : ℚ) := by
    have hclamp : clamp x (-1) 1 ≤ 1 := clamp_le (by norm_num) x
    rw [place, Int.cast_natCast]
    exact mul_le_of_le_one_left (Nat.cast_nonneg N) (by norm_num; linarith)
  have hbelow := roundHalfAway_mono hlow
  have habove := roundHalfAway_mono hhigh
  rw [roundHalfAway_intCast] at hbelow habove
  exact ⟨hbelow, habove⟩

theorem levelIndex_le (N : ℕ) (x : ℚ) : levelIndex N x ≤ N := by
  rw [levelIndex, Int.toNat_le]
  exact (roundHalfAway_place_mem N x).2

/-- The number of the level, as a number. -/
theorem cast_levelIndex (N : ℕ) (x : ℚ) : (levelIndex N x : ℚ) = roundHalfAway (place N x) := by
  have hnat : ((levelIndex N x : ℕ) : ℤ) = roundHalfAway (place N x) :=
    Int.toNat_of_nonneg (roundHalfAway_place_mem N x).1
  rw [← hnat, Int.cast_natCast]

theorem levelIndex_mono : Monotone (levelIndex N) := fun _ _ h =>
  Int.toNat_le_toNat (roundHalfAway_mono (place_mono h))

theorem abs_level_le (hN : 0 < N) {k : ℕ} (hk : k ≤ N) : |level (N + 1) k| ≤ 1 := by
  have hN' : (0 : ℚ) < N := Nat.cast_pos.mpr hN
  have hk' : (k : ℚ) / N ≤ 1 := (div_le_one hN').mpr (Nat.cast_le.mpr hk)
  have hk0 : 0 ≤ (k : ℚ) / N := by positivity
  rw [level_succ, mul_div_assoc, abs_le]
  constructor <;> linarith

/-- A level is rounded to itself. -/
theorem levelIndex_level (hN : 0 < N) {k : ℕ} (hk : k ≤ N) :
    levelIndex N (level (N + 1) k) = k := by
  have hN' : (N : ℚ) ≠ 0 := Nat.cast_ne_zero.mpr hN.ne'
  have hplace : place N (level (N + 1) k) = ((k : ℤ) : ℚ) := by
    rw [place, clamp_of_abs_le (abs_level_le hN hk), level_succ, Int.cast_natCast]
    field_simp
    norm_num
    ring
  rw [levelIndex, hplace, roundHalfAway_intCast, Int.toNat_natCast]

theorem level_mono : Monotone (level (N + 1)) := fun k l h => by
  rw [level_succ, level_succ]
  gcongr

theorem neg_level (hN : 0 < N) {k : ℕ} (hk : k ≤ N) :
    -level (N + 1) k = level (N + 1) (N - k) := by
  have hN' : (N : ℚ) ≠ 0 := Nat.cast_ne_zero.mpr hN.ne'
  rw [level_succ, level_succ, Nat.cast_sub hk]
  field_simp
  ring

/-- A sample in range is moved by at most half a step. -/
theorem abs_level_levelIndex_sub_le (hN : 0 < N) {x : ℚ} (hx : |x| ≤ 1) :
    |level (N + 1) (levelIndex N x) - x| ≤ 1 / N := by
  have hN' : (0 : ℚ) < N := Nat.cast_pos.mpr hN
  have hround := abs_roundHalfAway_sub_le (place N x)
  rw [← cast_levelIndex] at hround
  have hsplit : level (N + 1) (levelIndex N x) - x = 2 * (levelIndex N x - place N x) / N := by
    rw [level_succ, place, clamp_of_abs_le hx]
    field_simp
    norm_num
    ring
  rw [hsplit, abs_div, abs_mul, abs_two, abs_of_pos hN']
  exact div_le_div_of_nonneg_right (by linarith) hN'.le

/-- **The ruler**: rounding to the nearest level is all that is asked of it. -/
theorem quantises_level (hN : 0 < N) :
    Quantises (N + 1) fun x => level (N + 1) (levelIndex N x) := by
  have hrange : (Set.range fun x => level (N + 1) (levelIndex N x)) =
      level (N + 1) '' Set.Iio (N + 1) := by
    ext y
    constructor
    · rintro ⟨x, rfl⟩
      exact ⟨levelIndex N x, Nat.lt_succ_of_le (levelIndex_le N x), rfl⟩
    · rintro ⟨k, hk, rfl⟩
      exact ⟨level (N + 1) k, congrArg (level (N + 1)) (levelIndex_level hN (Nat.le_of_lt_succ hk))⟩
  have hinj : Set.InjOn (level (N + 1)) (Set.Iio (N + 1)) := fun k hk l hl h => by
    rw [← levelIndex_level hN (Nat.le_of_lt_succ hk), h,
      levelIndex_level hN (Nat.le_of_lt_succ hl)]
  refine ⟨hrange, ?_, level_mono.comp levelIndex_mono, ?_, fun x => ?_, fun x hx => ?_⟩
  · rw [hrange, hinj.ncard_image, ← Finset.coe_range, Set.ncard_coe_finset, Finset.card_range]
  · rintro _ ⟨x, rfl⟩
    rw [neg_level hN (levelIndex_le N x), hrange]
    exact ⟨N - levelIndex N x, Nat.lt_succ_of_le (Nat.sub_le _ _), rfl⟩
  · exact congrArg (level (N + 1)) (levelIndex_level hN (levelIndex_le N x))
  · rw [Nat.cast_add_one, add_sub_cancel_right]
    exact abs_level_levelIndex_sub_le hN hx

/-- **The second stage of the node** rounds to as many levels as the bits can tell apart. -/
theorem quantises_quantise {bits : ℕ} (hbits : 1 ≤ bits) :
    Quantises (2 ^ bits) (quantise bits) := by
  have hpow : 2 ≤ 2 ^ bits := Nat.le_self_pow (by omega) 2
  obtain ⟨N, hN⟩ : ∃ N, 2 ^ bits = N + 1 := ⟨2 ^ bits - 1, by omega⟩
  have heq : quantise bits = fun x => level (N + 1) (levelIndex N x) := by
    funext x
    rw [level_succ, cast_levelIndex, quantise, Nat.one_shiftLeft, hN, Nat.add_sub_cancel]
    show (roundHalfAway (place N x) : ℚ) / N * 2 - 1 = _
    ring
  rw [heq, hN]
  exact quantises_level (by omega)

end Levels

/-! ### The node -/

/-- `BitcrusherNode`, without the descriptions of its ports. Its constructor is the only way to get
one, and keeps the two parameters in their ranges. -/
structure BitcrusherNode where
  bits : ℕ
  holdFactor : ℕ
  heldSamples : List ℚ
  counters : List ℕ
  bits_mem : bits ∈ Set.Icc 1 16
  holdFactor_mem : holdFactor ∈ Set.Icc 1 256

namespace BitcrusherNode

/-- `BitcrusherNode::new`. -/
def new (bits : UInt32) (holdFactor : ℕ) (channels : UInt16) : BitcrusherNode :=
  let ch := (max channels 1).toNat
  { bits := clamp bits.toNat 1 16
    holdFactor := clamp holdFactor 1 256
    heldSamples := List.replicate ch 0
    counters := List.replicate ch 0
    bits_mem := ⟨le_clamp _ _ _, clamp_le (by decide) _⟩
    holdFactor_mem := ⟨le_clamp _ _ _, clamp_le (by decide) _⟩ }

/-- `process_sample`. The counter is a machine word. -/
def processSample (self : BitcrusherNode) (x : ℚ) (ch : ℕ) : Option (BitcrusherNode × ℚ) := do
  let counter ← self.counters[ch]?
  let heldSamples ←
    if counter % self.holdFactor = 0 then store self.heldSamples ch x else some self.heldSamples
  let held ← heldSamples[ch]?
  return ({ self with
    heldSamples := heldSamples
    counters := self.counters.set ch ((counter + 1) % UInt64.size) }, quantise self.bits held)

/-- `process`. -/
def process : BitcrusherNode → ProcessCall ℚ → Option (BitcrusherNode × List (ExactFrame ℚ)) :=
  processPlanar processSample

/-! ### One channel -/

/-- What a channel does with a sample: it keeps what it repeats, and counts. -/
def step (bits hold : ℕ) (s : ℚ × ℕ) (x : ℚ) : (ℚ × ℕ) × ℚ :=
  let held := if s.2 % hold = 0 then x else s.1
  ((held, (s.2 + 1) % UInt64.size), quantise bits held)

/-- The channel `c` repeats this sample and has counted so far. -/
structure Lane (bits hold : ℕ) (node : BitcrusherNode) (c : ℕ) (s : ℚ × ℕ) : Prop where
  heldSamples : node.heldSamples[c]? = some s.1
  counters : node.counters[c]? = some s.2
  bits : node.bits = bits
  holdFactor : node.holdFactor = hold

/-- The node with another state of one channel. -/
def withLane (node : BitcrusherNode) (c : ℕ) (s : ℚ × ℕ) : BitcrusherNode :=
  { node with
    heldSamples := node.heldSamples.set c s.1
    counters := node.counters.set c s.2 }

section Lane

variable {bits hold c : ℕ} {node : BitcrusherNode} {s : ℚ × ℕ}

theorem processSample_eq (h : Lane bits hold node c s) (x : ℚ) :
    processSample node x c =
      some (node.withLane c (step bits hold s x).1, (step bits hold s x).2) := by
  obtain ⟨hheld, hcounters, rfl, rfl⟩ := h
  simp only [processSample, step, hcounters, Option.bind_eq_bind, Option.bind_some]
  split
  · simp only [store_of_getElem? hheld, getElem?_set_of_getElem? hheld, Option.bind_some,
      Option.pure_def]
    rfl
  -- to store nothing is to store what is there
  · have hkeep : node.heldSamples.set c s.1 = node.heldSamples := by
      obtain ⟨hc, hget⟩ := List.getElem?_eq_some_iff.mp hheld
      rw [← hget, List.set_getElem_self]
    simp only [hheld, Option.bind_some, Option.pure_def, withLane, hkeep]

theorem Lane.withLane (h : Lane bits hold node c s) (s' : ℚ × ℕ) :
    Lane bits hold (node.withLane c s') c s' where
  heldSamples := getElem?_set_of_getElem? h.heldSamples _
  counters := getElem?_set_of_getElem? h.counters _
  bits := h.bits
  holdFactor := h.holdFactor

theorem Lane.withLane_of_ne (h : Lane bits hold node c s) {c' : ℕ} (hne : c ≠ c') (s' : ℚ × ℕ) :
    Lane bits hold (node.withLane c' s') c s where
  heldSamples := getElem?_set_of_ne hne h.heldSamples _
  counters := getElem?_set_of_ne hne h.counters _
  bits := h.bits
  holdFactor := h.holdFactor

/-- **The channels are apart.** -/
theorem bank (bits hold : ℕ) :
    Bank (Lane bits hold) (fun _ => True) processSample fun t x u y =>
      step bits hold t x = (u, y) :=
  .of_step fun x h => ⟨_, processSample_eq h x, h.withLane _,
    fun _ _ hne hd => hd.withLane_of_ne hne _⟩

end Lane

/-! ### What is repeated -/

section Hold

variable (bits hold : ℕ) (x : ℕ → ℚ)

/-- **After sample `n`** the channel repeats the one at the last multiple of the hold, as long as
the counter has not come round. -/
theorem trajectory_succ_eq (n : ℕ) (hn : n < UInt64.size) :
    trajectory (step bits hold) (0, 0) x (n + 1) =
      (x (n / hold * hold), (n + 1) % UInt64.size) := by
  induction n with
  | zero =>
    rw [Nat.zero_div, Nat.zero_mul]
    rfl
  | succ n ih =>
    rw [trajectory, ih (Nat.lt_of_succ_lt hn), Nat.mod_eq_of_lt hn, step]
    dsimp only
    split
    · rename_i hmultiple
      rw [Nat.div_mul_cancel (Nat.dvd_of_mod_eq_zero hmultiple)]
    · rename_i hbetween
      rw [Nat.succ_div_of_not_dvd fun hdvd => hbetween (Nat.mod_eq_zero_of_dvd hdvd)]

theorem response_eq {n : ℕ} (hn : n < UInt64.size) :
    response (step bits hold) (0, 0) x n = quantise bits (x (n / hold * hold)) := by
  -- what comes out is what is repeated from here on
  have hheld := congrArg (fun s => quantise bits s.1) (trajectory_succ_eq bits hold x n hn)
  exact hheld

end Hold

/-- **Fewer bits and fewer samples.** For all parameters and all sequences of calls, no index is out
of range; sample `n` of a channel is the rounding of the sample at the last multiple of the hold;
and rounding is to the levels that the bits can tell apart. -/
theorem processAll_quantised (bits : UInt32) (holdFactor : ℕ) (channels : UInt16)
    (calls : List (ProcessCall ℚ))
    (hfit : ∀ call ∈ calls, call.channels ≤ (max channels 1).toNat)
    (hshort : ∀ c, (received c calls).length < UInt64.size) :
    let node := new bits holdFactor channels
    Quantises (2 ^ node.bits) (quantise node.bits) ∧
    ∃ node' outs, runAll process node calls = some (node', outs) ∧
      ∀ c < (max channels 1).toNat,
        produced c calls outs = (List.range (received c calls).length).map fun n =>
          quantise node.bits
            (signal (received c calls) (n / node.holdFactor * node.holdFactor)) := by
  intro node
  have hlane : ∀ c < (max channels 1).toNat, Lane node.bits node.holdFactor node c (0, 0) :=
    fun c hc => ⟨List.getElem?_replicate_of_lt hc, List.getElem?_replicate_of_lt hc, rfl, rfl⟩
  obtain ⟨node', outs, hrun, hchannels⟩ := processAll_response (bank _ _) hlane hfit
  refine ⟨quantises_quantise node.bits_mem.1, node', outs, hrun, fun c hc => ?_⟩
  rw [(hchannels c hc).1]
  refine List.map_congr_left fun n hn => ?_
  exact response_eq _ _ _ ((List.mem_range.mp hn).trans (hshort c))

/-- Two bits, and every second sample, in blocks of three and one. -/
theorem processAll_quantised_twoBits :
    (∀ call ∈ [ProcessCall.mono [(1 : ℚ), 0, -1], .mono [1 / 2]],
      call.channels ≤ (max (1 : UInt16) 1).toNat) ∧
    (∀ c, (received c [ProcessCall.mono [(1 : ℚ), 0, -1], .mono [1 / 2]]).length < UInt64.size) ∧
    ∃ node' outs, runAll process (new 2 2 1) [.mono [1, 0, -1], .mono [1 / 2]] =
        some (node', outs) ∧
      produced 0 [.mono [1, 0, -1], .mono [1 / 2]] outs = [1, 1, -1, -1] := by
  have hfit : ∀ call ∈ [ProcessCall.mono [(1 : ℚ), 0, -1], .mono [1 / 2]],
      call.channels ≤ (max (1 : UInt16) 1).toNat := by decide
  have hshort : ∀ c, (received c [ProcessCall.mono [(1 : ℚ), 0, -1], .mono [1 / 2]]).length <
      UInt64.size := by
    intro c
    cases c with
    | zero => exact (by decide : 4 < UInt64.size)
    | succ c =>
      rw [show received (c + 1) [ProcessCall.mono [(1 : ℚ), 0, -1], .mono [1 / 2]] = [] from
        received_mono_succ c [[1, 0, -1], [1 / 2]]]
      exact Nat.zero_lt_succ _
  obtain ⟨-, node', outs, hrun, hchannels⟩ := processAll_quantised 2 2 1 _ hfit hshort
  refine ⟨hfit, hshort, node', outs, hrun, ?_⟩
  rw [hchannels 0 (by decide)]
  decide +kernel

end BitcrusherNode

end SonicBrew
