import Mathlib.Data.Rat.Floor
import SonicBrew.AudioEngine.Process
import SonicBrew.Lib.DelayLine

/-!
# Echo

`DelayNode` writes every sample to a ring, together with a part of what was written some time ago,
and mixes what it writes with the sample. The cursor, the remainders and the blocks are gone in
the result (`SonicBrew.DelayNode.processAll_echo`): the values written are the input and, with
the factor of the feedback, themselves a while ago; and since the factor is below one, they are
bounded if the input is.
-/

namespace SonicBrew

open Lanes Machine

/-- `DelayNode`, without the descriptions of its ports. -/
structure DelayNode where
  buffer : List (List ℚ)
  writePos : List ℕ
  delaySamples : ℕ
  feedback : ℚ
  mix : ℚ
  deriving DecidableEq, Repr

namespace DelayNode

/-- `FEEDBACK_CEIL`. -/
def feedbackCeil : ℚ := 0.99

/-- `DelayNode::new`. -/
def new (maxDelaySamples delaySamples : ℕ) (feedback mix : ℚ) (channels : UInt16) : DelayNode :=
  let cap := max maxDelaySamples 1
  let ch := (max channels 1).toNat
  { buffer := List.replicate ch (List.replicate cap 0)
    writePos := List.replicate ch 0
    delaySamples := clamp delaySamples 1 cap
    feedback := clamp feedback 0 feedbackCeil
    mix := clamp mix 0 1 }

/-- `process_sample`. -/
def processSample (self : DelayNode) (x : ℚ) (ch : ℕ) : Option (DelayNode × ℚ) := do
  let buf ← self.buffer[ch]?
  let cap := buf.length
  let wp ← self.writePos[ch]?
  let behind ← checkedSub (wp + cap) self.delaySamples
  let delayed ← buf[behind % cap]?
  let wet := x + delayed * self.feedback
  let buf ← store buf wp wet
  let dry := x * (1 - self.mix)
  return ({ self with
    buffer := self.buffer.set ch buf
    writePos := self.writePos.set ch ((wp + 1) % cap) }, dry + wet * self.mix)

/-- `process`. -/
def process : DelayNode → ProcessCall ℚ → Option (DelayNode × List (ExactFrame ℚ)) :=
  processPlanar processSample

/-! ### One channel -/

/-- What a channel does with a sample. -/
def step (d : ℕ) (f m : ℚ) (line : DelayLine ℚ) (x : ℚ) : DelayLine ℚ × ℚ :=
  let wet := x + line.back d * f
  (line.push wet, x * (1 - m) + wet * m)

/-- The channel `c` has this ring. -/
structure Lane (d : ℕ) (f m : ℚ) (node : DelayNode) (c : ℕ) (line : DelayLine ℚ) : Prop where
  buffer : node.buffer[c]? = some line.slots
  writePos : node.writePos[c]? = some line.cursor
  delaySamples : node.delaySamples = d
  feedback : node.feedback = f
  mix : node.mix = m
  le_length : d ≤ line.slots.length

/-- The node with another ring in one channel. -/
def withLine (node : DelayNode) (c : ℕ) (line : DelayLine ℚ) : DelayNode :=
  { node with
    buffer := node.buffer.set c line.slots
    writePos := node.writePos.set c line.cursor }

section Lane

variable {d : ℕ} {f m : ℚ} {node : DelayNode} {c : ℕ} {line : DelayLine ℚ}

theorem processSample_eq (h : Lane d f m node c line) (x : ℚ) :
    processSample node x c =
      some (node.withLine c (step d f m line x).1, (step d f m line x).2) := by
  obtain ⟨hbuffer, hwritePos, rfl, rfl, rfl, hle⟩ := h
  have hback : line.slots[(line.cursor + line.slots.length - node.delaySamples) %
      line.slots.length]? = some (line.back node.delaySamples) := line.getElem?_position _
  have hcursor : line.slots[line.cursor]? = some _ := List.getElem?_eq_getElem line.cursor_lt
  simp only [processSample, hbuffer, hwritePos, checkedSub_of_le (Nat.le_add_left_of_le hle),
    hback, store_of_getElem? hcursor, Option.bind_eq_bind, Option.bind_some, Option.pure_def]
  rfl

/-- A step changes the ring of its channel. -/
theorem Lane.withLine (h : Lane d f m node c line) {line' : DelayLine ℚ}
    (hlen : line'.slots.length = line.slots.length) :
    Lane d f m (node.withLine c line') c line' where
  buffer := getElem?_set_of_getElem? h.buffer _
  writePos := getElem?_set_of_getElem? h.writePos _
  delaySamples := h.delaySamples
  feedback := h.feedback
  mix := h.mix
  le_length := hlen ▸ h.le_length

theorem Lane.withLine_of_ne (h : Lane d f m node c line) {c' : ℕ} (hne : c ≠ c')
    (line' : DelayLine ℚ) : Lane d f m (node.withLine c' line') c line where
  buffer := getElem?_set_of_ne hne h.buffer _
  writePos := getElem?_set_of_ne hne h.writePos _
  delaySamples := h.delaySamples
  feedback := h.feedback
  mix := h.mix
  le_length := h.le_length

end Lane

/-- **The channels are apart.** -/
theorem bank (d : ℕ) (f m : ℚ) :
    Bank (Lane d f m) (fun _ => True) processSample fun t x u y => step d f m t x = (u, y) :=
  .of_step fun x h => ⟨_, processSample_eq h x, h.withLine (DelayLine.length_push _ _),
    fun _ _ hne hd => hd.withLine_of_ne hne _⟩

/-! ### The values written -/

section Echo

variable {d cap : ℕ} {f m : ℚ}

/-- The values that a channel writes. -/
def written (d : ℕ) (f m : ℚ) (line : DelayLine ℚ) (x : ℕ → ℚ) (n : ℕ) : ℚ :=
  x n + (trajectory (step d f m) line x n).back d * f

/-- **At every moment the ring holds what has been written.** -/
theorem holds_trajectory (hcap : 0 < cap) (x : ℕ → ℚ) (n : ℕ) :
    (trajectory (step d f m) (.silent cap hcap) x n).Holds
        (written d f m (.silent cap hcap) x) n ∧
      (trajectory (step d f m) (.silent cap hcap) x n).slots.length = cap := by
  induction n with
  | zero => exact ⟨DelayLine.holds_silent cap hcap _, List.length_replicate⟩
  | succ n ih => exact ⟨ih.1.push, (DelayLine.length_push _ _).trans ih.2⟩

/-- **What is written is the input and, `d` samples late, itself.** -/
theorem written_eq (hd : 1 ≤ d) (hcap : d ≤ cap) (x : ℕ → ℚ) (n : ℕ) :
    written d f m (.silent cap (by omega)) x n =
      x n + f * delayed d (written d f m (.silent cap (by omega)) x) n := by
  obtain ⟨hholds, hlen⟩ := holds_trajectory (d := d) (f := f) (m := m) (show 0 < cap by omega) x n
  rw [← hholds d hd (by omega), mul_comm f]
  rfl

end Echo

/-- **The echo.** For all parameters and all sequences of calls, no index is out of range; what
comes out of a channel is the input and what was written, mixed; and what is written is the input
and itself a while ago, and so bounded. -/
theorem processAll_echo (maxDelaySamples delaySamples : ℕ) (feedback mix : ℚ) (channels : UInt16)
    (calls : List (ProcessCall ℚ))
    (hfit : ∀ call ∈ calls, call.channels ≤ (max channels 1).toNat) :
    let node := new maxDelaySamples delaySamples feedback mix channels
    ∃ node' outs, runAll process node calls = some (node', outs) ∧
      ∀ c < (max channels 1).toNat, ∃ w : ℕ → ℚ,
        (∀ n, w n =
          signal (received c calls) n + node.feedback * delayed node.delaySamples w n) ∧
        produced c calls outs = (List.range (received c calls).length).map
          (fun n => (1 - node.mix) * signal (received c calls) n + node.mix * w n) ∧
        ∀ B, (∀ n, |signal (received c calls) n| ≤ B) → ∀ n, |w n| ≤ B / (1 - node.feedback) := by
  intro node
  have hcap : 0 < max maxDelaySamples 1 := by omega
  have hd : 1 ≤ node.delaySamples := le_clamp _ _ _
  have hd' : node.delaySamples ≤ max maxDelaySamples 1 := clamp_le hcap _
  have hf0 : 0 ≤ node.feedback := le_clamp _ _ _
  have hf1 : node.feedback < 1 :=
    (clamp_le (by norm_num [feedbackCeil]) _).trans_lt (by norm_num [feedbackCeil])
  have hlane : ∀ c < (max channels 1).toNat,
      Lane node.delaySamples node.feedback node.mix node c (.silent _ hcap) := fun c hc =>
    ⟨List.getElem?_replicate_of_lt hc, List.getElem?_replicate_of_lt hc, rfl, rfl, rfl,
      hd'.trans_eq List.length_replicate.symm⟩
  obtain ⟨node', outs, hrun, hchannels⟩ := processAll_response (bank _ _ _) hlane hfit
  refine ⟨node', outs, hrun, fun c hc => ?_⟩
  have hw := written_eq (f := node.feedback) (m := node.mix) hd hd' (signal (received c calls))
  refine ⟨_, hw, ?_, fun B hB =>
    abs_le_div_one_sub hf0 hf1 hw hB fun _ _ => abs_delayed_le hd⟩
  rw [(hchannels c hc).1]
  refine List.map_congr_left fun n _ => ?_
  rw [mul_comm (1 - node.mix), mul_comm node.mix]
  rfl

/-- An impulse in two blocks, with an echo of half its size after two samples. -/
theorem processAll_echo_impulse :
    (∀ call ∈ [ProcessCall.mono [(1 : ℚ), 0], .mono [0]],
      call.channels ≤ (max (1 : UInt16) 1).toNat) ∧
    ∃ node' outs, runAll process (new 4 2 (1 / 2) 1 1) [.mono [1, 0], .mono [0]] =
        some (node', outs) ∧
      ∃ w : ℕ → ℚ, (∀ n, w n = signal [1, 0, 0] n + 1 / 2 * delayed 2 w n) ∧
        ∀ n, |w n| ≤ 2 := by
  have hfit : ∀ call ∈ [ProcessCall.mono [(1 : ℚ), 0], .mono [0]],
      call.channels ≤ (max (1 : UInt16) 1).toNat := by decide
  have hfeedback : (new 4 2 (1 / 2) 1 1).feedback = 1 / 2 := by norm_num [new, clamp, feedbackCeil]
  have hreceived : received 0 [ProcessCall.mono [(1 : ℚ), 0], .mono [0]] = [1, 0, 0] := rfl
  obtain ⟨node', outs, hrun, hchannels⟩ := processAll_echo 4 2 (1 / 2) 1 1 _ hfit
  obtain ⟨w, hw, -, hbound⟩ := hchannels 0 (by decide)
  rw [hfeedback, hreceived] at hw hbound
  have hinput : ∀ n, |signal [(1 : ℚ), 0, 0] n| ≤ 1 := abs_signal_le zero_le_one (by norm_num)
  exact ⟨hfit, node', outs, hrun, w, hw, fun n => (hbound 1 hinput n).trans_eq (by norm_num)⟩

end DelayNode

end SonicBrew
