import SonicBrew.AudioEngine.Nodes
import SonicBrew.AudioEngine.Process
import SonicBrew.Lib.Xorshift

/-!
# Noise

`NoiseSource` has no input. Every sample comes from one step of a xorshift generator, as it is for
white noise, and through a bank of filters, one for each channel, for pink noise.

All that the noise depends on is the state of the generator. A step takes no two states to the same
one (`SonicBrew.NoiseSource.xorshift64_injective`), so the states go round in a circle, from the
first one on; and as the seed is never zero, none of them is
(`SonicBrew.NoiseSource.rngState_periodic`). However often `process` is called, and with whatever
frames, it takes one such step for each sample that it writes, and stops nowhere
(`SonicBrew.NoiseSource.processAll_rngState`).
-/

namespace SonicBrew

open Machine

/-- `NoiseSource`, without the description of its port. -/
structure NoiseSource (K : Type) where
  color : NoiseColor
  amp : K
  rngState : UInt64
  channels : UInt16
  /-- The filters, seven numbers for each channel. -/
  pink : List K
  deriving DecidableEq

namespace NoiseSource

/-- The generator. -/
def xorshift64 (rngState : UInt64) : UInt64 :=
  let rngState := rngState ^^^ rngState <<< 13
  let rngState := rngState ^^^ rngState >>> 7
  rngState ^^^ rngState <<< 17

/-- `u32::MAX`. -/
def u32Max : UInt32 := 0xFFFFFFFF

variable {K : Type} [Field K]

/-- `NoiseSource::new`: zero is no seed. -/
def new (color : NoiseColor) (amp : K) (seed : UInt64) (channels : UInt16) : NoiseSource K where
  color := color
  amp := amp
  rngState := if seed = 0 then 1 else seed
  channels := channels
  pink := List.replicate (7 * channels.toNat) 0

/-- `next_rand`. -/
def nextRand (node : NoiseSource K) : NoiseSource K × K :=
  let rngState := xorshift64 node.rngState
  let lo := rngState.toUInt32
  ({ node with rngState := rngState }, (lo.toNat : K) / (u32Max.toNat : K) * 2.0 - 1.0)

/-- One of the filters. -/
def filter (pink : List K) (i : ℕ) (decay gain white : K) : Option (List K) := do
  let b ← pink[i]?
  store pink i (decay * b + white * gain)

/-- The branch of `gen_sample` for pink noise. -/
def genPink (pink : List K) (ch : ℕ) (white : K) : Option (List K × K) := do
  let base := ch * 7
  let s ← filter pink base 0.99886 0.0555179 white
  let s ← filter s (base + 1) 0.99332 0.0750759 white
  let s ← filter s (base + 2) 0.96900 0.1538520 white
  let s ← filter s (base + 3) 0.86650 0.3104856 white
  let s ← filter s (base + 4) 0.55000 0.5329522 white
  let b5 ← s[base + 5]?
  let s ← store s (base + 5) (-0.7616 * b5 - white * 0.0168980)
  let b0 ← s[base]?
  let b1 ← s[base + 1]?
  let b2 ← s[base + 2]?
  let b3 ← s[base + 3]?
  let b4 ← s[base + 4]?
  let b5 ← s[base + 5]?
  let b6 ← s[base + 6]?
  let pink := (b0 + b1 + b2 + b3 + b4 + b5 + b6 + white * 0.5362) * 0.11
  let s ← store s (base + 6) (white * 0.115926)
  return (s, pink)

/-- `gen_sample`. -/
def genSample (node : NoiseSource K) (ch : ℕ) : Option (NoiseSource K × K) :=
  let (node, white) := node.nextRand
  match node.color with
  | .white => some (node, white * node.amp)
  | .pink => do
      let (s, pink) ← genPink node.pink ch white
      return ({ node with pink := s }, pink * node.amp)

/-- One round of the loops of `process`, on the node and the samples of the frame. -/
def processSample (perCh : ℕ) (state : NoiseSource K × List K) (c i : ℕ) :
    Option (NoiseSource K × List K) := do
  let (node, v) ← genSample state.1 c
  let samples ← store state.2 (c * perCh + i) v
  return (node, samples)

/-- `process`, which reads no frame. -/
def process (node : NoiseSource K) (outFrames : List (ExactFrame K)) :
    Option (NoiseSource K × List (ExactFrame K)) :=
  match outFrames with
  | [] => some (node, [])
  | out :: others =>
      let ch := node.channels.toNat
      let n := out.samples.length
      if ch = 0 ∨ n = 0 then some (node, out :: others)
      else do
        let perCh := n / ch
        let (node, samples) ← (List.range ch).foldlM (fun state c =>
          (List.range perCh).foldlM (fun state i => processSample perCh state c i) state)
          (node, out.samples)
        return (node, { out with samples, channels := node.channels } :: others)

/-! ### The generator -/

/-- **A step of the generator loses nothing.** -/
theorem xorshift64_injective : Function.Injective xorshift64 := by
  intro s t h
  have hbits := congrArg UInt64.toBitVec h
  simp only [xorshift64, UInt64.toBitVec_xor, UInt64.toBitVec_shiftLeft,
    UInt64.toBitVec_shiftRight] at hbits
  refine UInt64.toBitVec_inj.mp ?_
  refine Xorshift.xor_shiftLeft_injective (k := 13) (by decide) ?_
  refine Xorshift.xor_shiftRight_injective (k := 7) (by decide) ?_
  exact Xorshift.xor_shiftLeft_injective (k := 17) (by decide) hbits

theorem xorshift64_zero : xorshift64 0 = 0 := by decide

theorem rngState_new_ne_zero (color : NoiseColor) (amp : K) (seed : UInt64) (channels : UInt16) :
    (new color amp seed channels).rngState ≠ 0 := by
  rw [new]
  dsimp only
  split
  · decide
  · assumption

/-- So many steps of `next_rand`. -/
def afterRands (node : NoiseSource K) (n : ℕ) : NoiseSource K :=
  (fun node => (nextRand node).1)^[n] node

theorem rngState_afterRands (node : NoiseSource K) (n : ℕ) :
    (node.afterRands n).rngState = xorshift64^[n] node.rngState := by
  induction n with
  | zero => rfl
  | succ n ih =>
    rw [afterRands, Function.iterate_succ_apply', Function.iterate_succ_apply', ← ih]
    rfl

instance finiteUInt64 : Finite UInt64 :=
  Finite.of_injective UInt64.toFin fun _ _ => UInt64.toFin_inj.mp

/-- **The state of the generator is never zero, and comes back**: no two states have the same
successor, and the states from any seed repeat from the first one on. -/
theorem rngState_periodic (color : NoiseColor) (amp : K) (seed : UInt64) (channels : UInt16) :
    (∀ n, ((new color amp seed channels).afterRands n).rngState ≠ 0) ∧
    Function.Injective xorshift64 ∧
    (∀ node : NoiseSource K, (nextRand node).1.rngState = xorshift64 node.rngState) ∧
    ∃ p > 0, ∀ n, ((new color amp seed channels).afterRands (n + p)).rngState =
      ((new color amp seed channels).afterRands n).rngState := by
  refine ⟨fun n => ?_, xorshift64_injective, fun _ => rfl, ?_⟩
  · rw [rngState_afterRands]
    exact Xorshift.iterate_ne xorshift64_injective xorshift64_zero
      (rngState_new_ne_zero color amp seed channels) n
  · obtain ⟨p, hp, hperiod⟩ :=
      Xorshift.exists_period xorshift64_injective (new color amp seed channels).rngState
    refine ⟨p, hp, fun n => ?_⟩
    rw [rngState_afterRands, rngState_afterRands, hperiod]

/-! ### Whole runs -/

/-- There is a filter for every channel. -/
def Filtered (node : NoiseSource K) : Prop := node.pink.length = 7 * node.channels.toNat

/-- A node of so many channels whose generator is in a certain state. -/
structure At (channels : UInt16) (node : NoiseSource K) (rngState : UInt64) : Prop where
  filtered : node.Filtered
  channels_eq : node.channels = channels
  rngState_eq : node.rngState = rngState

theorem at_new (color : NoiseColor) (amp : K) (seed : UInt64) (channels : UInt16) :
    At channels (new color amp seed channels) (new color amp seed channels).rngState :=
  ⟨List.length_replicate, rfl, rfl⟩

omit [Field K] in
/-- A read that is in range. -/
theorem exists_read {β : Type} {Q : β → Prop} {s : List K} {i : ℕ} (h : i < s.length)
    {f : K → Option β} (hf : ∀ b, ∃ r, f b = some r ∧ Q r) : ∃ r, (s[i]? >>= f) = some r ∧ Q r := by
  rw [List.getElem?_eq_getElem h]
  exact hf _

omit [Field K] in
theorem store_of_lt {s : List K} {i n : ℕ} (h : i < n) (hlen : s.length = n) (v : K) :
    ∃ s', store s i v = some s' ∧ s'.length = n :=
  ⟨s.set i v, store_of_getElem? (List.getElem?_eq_getElem (hlen ▸ h)) v,
    List.length_set.trans hlen⟩

theorem filter_of_lt {s : List K} {i n : ℕ} (h : i < n) (hlen : s.length = n)
    (decay gain white : K) :
    ∃ s', filter s i decay gain white = some s' ∧ s'.length = n :=
  exists_read (hlen ▸ h) fun _ => store_of_lt h hlen _

/-- No index is out of range. -/
theorem genPink_of_lt {pink : List K} {ch : ℕ} (h : ch * 7 + 6 < pink.length) (white : K) :
    ∃ r, genPink pink ch white = some r ∧ r.1.length = pink.length := by
  rw [genPink]
  refine exists_bind (filter_of_lt (by omega) rfl _ _ _) fun s hs => ?_
  refine exists_bind (filter_of_lt (by omega) hs _ _ _) fun s hs => ?_
  refine exists_bind (filter_of_lt (by omega) hs _ _ _) fun s hs => ?_
  refine exists_bind (filter_of_lt (by omega) hs _ _ _) fun s hs => ?_
  refine exists_bind (filter_of_lt (by omega) hs _ _ _) fun s hs => ?_
  refine exists_read (by omega) fun b5 => ?_
  refine exists_bind (store_of_lt (by omega) hs _) fun s hs => ?_
  refine exists_read (by omega) fun b0 => ?_
  refine exists_read (by omega) fun b1 => ?_
  refine exists_read (by omega) fun b2 => ?_
  refine exists_read (by omega) fun b3 => ?_
  refine exists_read (by omega) fun b4 => ?_
  refine exists_read (by omega) fun b5 => ?_
  refine exists_read (by omega) fun b6 => ?_
  exact exists_bind (store_of_lt (by omega) hs _) fun s hs => ⟨_, rfl, hs⟩

/-- **A sample is one step of the generator**, and stops nowhere. -/
theorem At.genSample {channels : UInt16} {node : NoiseSource K} {rngState : UInt64}
    (h : At channels node rngState) {ch : ℕ} (hch : ch < channels.toNat) :
    ∃ node' v, NoiseSource.genSample node ch = some (node', v) ∧
      At channels node' (xorshift64 rngState) := by
  obtain ⟨color, amp, rngState, channels, pink⟩ := node
  obtain ⟨hfiltered, rfl, rfl⟩ := h
  cases color with
  | white => exact ⟨_, _, rfl, hfiltered, rfl, rfl⟩
  | pink =>
    change pink.length = 7 * channels.toNat at hfiltered
    dsimp only at hch
    have hbank : ch * 7 + 6 < pink.length := by omega
    obtain ⟨⟨s, v⟩, hpink, hlen⟩ :=
      genPink_of_lt hbank (nextRand ⟨.pink, amp, rngState, channels, pink⟩).2
    refine ⟨⟨.pink, amp, xorshift64 rngState, channels, s⟩, v * amp, ?_, hlen.trans hfiltered, rfl,
      rfl⟩
    exact Option.bind_eq_some_iff.mpr ⟨(s, v), hpink, rfl⟩

/-- How many samples a call writes. -/
def written (channels : UInt16) (outFrames : List (ExactFrame K)) : ℕ :=
  match outFrames with
  | [] => 0
  | out :: _ => channels.toNat * (out.samples.length / channels.toNat)

/-- **A call fills its first frame**: the samples that it writes are the first ones, and nothing
else of the frames has changed but the number of channels. -/
def Fills (channels : UInt16) : List (ExactFrame K) → List (ExactFrame K) → Prop
  | [], outs => outs = []
  | out :: others, outs => ∃ samples ch, outs = { out with samples, channels := ch } :: others ∧
      samples.length = out.samples.length ∧
      samples.drop (written channels (out :: others)) =
        out.samples.drop (written channels (out :: others))

/-- The two loops: after `k` rounds the generator has taken `k` steps, and the samples from there on
are as they were. -/
theorem At.fill {channels : UInt16} {node : NoiseSource K} {rngState : UInt64}
    (h : At channels node rngState) {samples : List K} {perCh : ℕ}
    (hroom : channels.toNat * perCh ≤ samples.length) :
    ∃ state, (List.range channels.toNat).foldlM (fun state c => (List.range perCh).foldlM
        (fun state i => processSample perCh state c i) state) (node, samples) = some state ∧
      At channels state.1 (xorshift64^[channels.toNat * perCh] rngState) ∧
      state.2.length = samples.length ∧
      state.2.drop (channels.toNat * perCh) = samples.drop (channels.toNat * perCh) := by
  refine foldlM_range_range_of_invariant (fun k (state : NoiseSource K × List K) =>
    At channels state.1 (xorshift64^[k] rngState) ∧ state.2.length = samples.length ∧
      state.2.drop k = samples.drop k) (fun c i state hc hi hstate => ?_) ⟨h, rfl, rfl⟩
  obtain ⟨hat, hlen, hdrop⟩ := hstate
  obtain ⟨node', v, hgen, hat'⟩ := hat.genSample hc
  have hplace : c * perCh + i < state.2.length :=
    hlen.symm ▸ (mul_add_lt_mul hc hi).trans_le hroom
  refine ⟨(node', state.2.set (c * perCh + i) v), ?_, ?_, List.length_set.trans hlen, ?_⟩
  · simp only [processSample, hgen, store, if_pos hplace, Option.bind_eq_bind, Option.bind_some,
      Option.pure_def]
  · rwa [Function.iterate_succ_apply']
  · rw [List.drop_set_of_lt (Nat.lt_succ_self _)]
    simpa only [List.drop_drop] using congrArg (List.drop 1) hdrop

/-- **A call of `process`** takes one step for each sample that it writes. -/
theorem At.process {channels : UInt16} {node : NoiseSource K} {rngState : UInt64}
    (h : At channels node rngState) (outFrames : List (ExactFrame K)) :
    ∃ node' outs, NoiseSource.process node outFrames = some (node', outs) ∧
      Fills channels outFrames outs ∧
      At channels node' (xorshift64^[written channels outFrames] rngState) := by
  cases outFrames with
  | nil => exact ⟨node, [], rfl, rfl, h⟩
  | cons out others =>
    obtain rfl := h.channels_eq
    rw [NoiseSource.process]
    dsimp only
    split
    · rename_i hnone
      refine ⟨node, out :: others, rfl, ⟨_, _, rfl, rfl, rfl⟩, ?_⟩
      have hzero : written node.channels (out :: others) = 0 := by
        rw [written]
        rcases hnone with hch | hn
        · rw [hch, Nat.zero_mul]
        · rw [hn, Nat.zero_div, Nat.mul_zero]
      rw [hzero]
      exact h
    · obtain ⟨⟨node', samples⟩, hloops, hat, hlen, hdrop⟩ :=
        h.fill (Nat.mul_div_le out.samples.length node.channels.toNat)
      rw [hloops]
      exact ⟨node', _, rfl, ⟨samples, _, rfl, hlen, hdrop⟩, hat⟩

/-- **Any calls of `process`.** None of them stops, each fills its frame, the generator has taken
one step for each sample written, and its state is not zero. -/
theorem processAll_rngState (color : NoiseColor) (amp : K) (seed : UInt64) (channels : UInt16)
    (calls : List (List (ExactFrame K))) :
    ∃ node outs, runAll process (new color amp seed channels) calls = some (node, outs) ∧
      List.Forall₂ (Fills channels) calls outs ∧
      node.rngState = ((new color amp seed channels).afterRands
        (calls.map (written channels)).sum).rngState ∧
      node.rngState ≠ 0 := by
  have hrun : ∀ {node : NoiseSource K} {rngState : UInt64}, At channels node rngState →
      ∃ node' outs, runAll process node calls = some (node', outs) ∧
        List.Forall₂ (Fills channels) calls outs ∧
        At channels node' (xorshift64^[(calls.map (written channels)).sum] rngState) := by
    induction calls with
    | nil => exact fun {node _} h => ⟨node, [], rfl, .nil, h⟩
    | cons call calls ih =>
      intro node rngState h
      obtain ⟨node₁, out, hcall, hfills, h₁⟩ := h.process call
      obtain ⟨node₂, outs, hcalls, hall, h₂⟩ := ih h₁
      refine ⟨node₂, out :: outs, ?_, .cons hfills hall, ?_⟩
      · simp only [runAll, hcall, hcalls, Option.bind_eq_bind, Option.bind_some, Option.pure_def]
      · rwa [List.map_cons, List.sum_cons, Nat.add_comm, Function.iterate_add_apply]
  obtain ⟨node, outs, hcalls, hall, hat⟩ := hrun (at_new color amp seed channels)
  refine ⟨node, outs, hcalls, hall, ?_, ?_⟩
  · rw [hat.rngState_eq, rngState_afterRands]
  · rw [hat.rngState_eq]
    exact Xorshift.iterate_ne xorshift64_injective xorshift64_zero
      (rngState_new_ne_zero color amp seed channels) _

end NoiseSource

end SonicBrew
