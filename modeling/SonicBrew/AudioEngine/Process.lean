import Mathlib.Order.Lattice
import SonicBrew.AudioCore
import SonicBrew.Lib.Lanes
import SonicBrew.Lib.Signal

/-!
# Processing frames

A node of the graph is called again and again with the frames of its inputs, and writes those of
its outputs. Most effects have the same `process`: they take the samples channel by channel, and
hand each of them to `process_sample` with the number of its channel
(`SonicBrew.processPlanar`). A sample is an exact number here; an index that is out of range stops
the node, and so does nothing else.

What comes out of a channel in a whole sequence of calls is compared with what went in
(`SonicBrew.received`, `SonicBrew.produced`). If the node treats its channels apart, it answers the
signal of each of them as a machine of its own would, however the calls cut it into blocks
(`SonicBrew.processAll_response`).
-/

namespace SonicBrew

open Lanes Machine

/-- A frame of audio whose samples are exact numbers, one channel after the other. -/
structure ExactFrame (K : Type) where
  channels : UInt16
  sampleRate : UInt32
  samples : List K
  deriving DecidableEq, Repr

/-- What `process` is called with: the frames at the inputs, and those to write to. -/
structure ProcessCall (K : Type) where
  inFrames : List (ExactFrame K)
  outFrames : List (ExactFrame K)
  deriving DecidableEq, Repr

/-- A call with one channel, and as much room for the result. -/
def ProcessCall.mono {K : Type} [Zero K] (samples : List K) : ProcessCall K :=
  ⟨[⟨1, 48000, samples⟩], [⟨1, 48000, List.replicate samples.length 0⟩]⟩

/-- `clamp(lo, hi)`. -/
def clamp {K : Type} [LinearOrder K] (x lo hi : K) : K := max lo (min x hi)

theorem le_clamp {K : Type} [LinearOrder K] (x lo hi : K) : lo ≤ clamp x lo hi := le_max_left _ _

theorem clamp_le {K : Type} [LinearOrder K] {lo hi : K} (h : lo ≤ hi) (x : K) :
    clamp x lo hi ≤ hi := max_le h (min_le_right _ _)

/-- `xs[i] = v`. -/
def store {α : Type} (xs : List α) (i : ℕ) (v : α) : Option (List α) :=
  if i < xs.length then some (xs.set i v) else none

theorem store_of_getElem? {α : Type} {xs : List α} {i : ℕ} {u : α} (h : xs[i]? = some u) (v : α) :
    store xs i v = some (xs.set i v) := if_pos (List.getElem?_eq_some_iff.mp h).1

/-- What is stored is read back. -/
theorem getElem?_set_of_getElem? {α : Type} {xs : List α} {i : ℕ} {u : α} (h : xs[i]? = some u)
    (v : α) : (xs.set i v)[i]? = some v :=
  List.getElem?_set_self (List.getElem?_eq_some_iff.mp h).1

/-- What is elsewhere stays. -/
theorem getElem?_set_of_ne {α : Type} {xs : List α} {i j : ℕ} {u : α} (hne : i ≠ j)
    (h : xs[i]? = some u) (v : α) : (xs.set j v)[i]? = some u :=
  (List.getElem?_set_ne hne.symm).trans h

/-- `a - b`, which stops where the result would be negative. -/
def checkedSub (a b : ℕ) : Option ℕ := if b ≤ a then some (a - b) else none

theorem checkedSub_of_le {a b : ℕ} (h : b ≤ a) : checkedSub a b = some (a - b) := if_pos h

/-- **The functions of the standard library** that the effects use, on the numbers that they are
modelled with. -/
structure Elementary (K : Type) where
  pi : K
  sin : K → K
  cos : K → K
  exp : K → K
  sqrt : K → K
  powf : K → K → K

variable {K σ τ : Type}

/-- `process`, as the effects have it. -/
def processPlanar (processSample : σ → K → ℕ → Option (σ × K)) (node : σ) (call : ProcessCall K) :
    Option (σ × List (ExactFrame K)) :=
  match call.inFrames, call.outFrames with
  | inp :: _, out :: others =>
      let ch := inp.channels.toNat
      let n := min inp.samples.length out.samples.length
      if ch = 0 ∨ n = 0 then some (node, out :: others)
      else do
        let perCh := n / ch
        -- the samples are written in the order in which they are read
        let (node, lanes) ← runLanes processSample perCh ch inp.samples node
        return (node,
          { out with samples := lanes.flatten ++ out.samples.drop (ch * perCh) } :: others)
  | _, outFrames => some (node, outFrames)

/-! ### The signals of the channels -/

namespace ProcessCall

/-- The channels of the frame that is read. -/
def channels (call : ProcessCall K) : ℕ :=
  match call.inFrames with
  | inp :: _ => inp.channels.toNat
  | [] => 0

/-- How many samples of each channel are read and written. -/
def perCh (call : ProcessCall K) : ℕ :=
  match call.inFrames, call.outFrames with
  | inp :: _, out :: _ => min inp.samples.length out.samples.length / inp.channels.toNat
  | _, _ => 0

/-- The samples of one channel in the first of some frames. -/
def lane (call : ProcessCall K) (c : ℕ) (frames : List (ExactFrame K)) : List K :=
  match frames with
  | frame :: _ => if c < call.channels then block call.perCh c frame.samples else []
  | [] => []

end ProcessCall

/-- **What a sequence of calls sends through a channel.** -/
def received (c : ℕ) (calls : List (ProcessCall K)) : List K :=
  calls.flatMap fun call => call.lane c call.inFrames

/-- **What comes out of a channel.** -/
def produced (c : ℕ) (calls : List (ProcessCall K)) (outs : List (List (ExactFrame K))) : List K :=
  (List.zipWith (fun call out => call.lane c out) calls outs).flatten

/-- Calls with one channel send nothing through the others. -/
theorem received_mono_succ [Zero K] (c : ℕ) (blocks : List (List K)) :
    received (c + 1) (blocks.map .mono) = [] := by
  rw [received, List.flatMap_eq_nil_iff]
  intro call hcall
  obtain ⟨samples, -, rfl⟩ := List.mem_map.mp hcall
  simp [ProcessCall.lane, ProcessCall.mono, ProcessCall.channels]

/-! ### Channels apart -/

section Bank

variable {R : σ → ℕ → τ → Prop} {P : K → Prop} {processSample : σ → K → ℕ → Option (σ × K)}
  {Step : τ → K → τ → K → Prop} {limit : ℕ} {node : σ} {T : ℕ → τ}

theorem ProcessCall.lane_eq_nil {call : ProcessCall K} (h : call.channels = 0 ∨ call.perCh = 0)
    (c : ℕ) (frames : List (ExactFrame K)) : call.lane c frames = [] := by
  cases frames with
  | nil => rfl
  | cons frame frames =>
    rw [lane]
    split
    · rename_i hc
      rw [h.resolve_left (by omega), block, List.take_zero]
    · rfl

/-- **One call**, seen from the channels. -/
theorem processPlanar_of_bank (h : Bank R P processSample Step) (hR : ∀ c < limit, R node c (T c))
    {call : ProcessCall K} (hfit : call.channels ≤ limit)
    (hP : ∀ c, ∀ x ∈ call.lane c call.inFrames, P x) :
    ∃ (node' : σ) (T' : ℕ → τ) (outs : List (ExactFrame K)),
      processPlanar processSample node call = some (node', outs) ∧
      (∀ c < limit, Trace Step (T c) (call.lane c call.inFrames) (call.lane c outs) (T' c)) ∧
      ∀ c < limit, R node' c (T' c) := by
  -- where nothing is read, nothing is done
  have hidle : call.channels = 0 ∨ call.perCh = 0 → ∀ c < limit,
      Trace Step (T c) (call.lane c call.inFrames) (call.lane c call.outFrames) (T c) := by
    intro hempty c _
    rw [ProcessCall.lane_eq_nil hempty, ProcessCall.lane_eq_nil hempty]
    exact .nil (T c)
  obtain ⟨inFrames, outFrames⟩ := call
  cases inFrames with
  | nil => exact ⟨node, T, outFrames, rfl, hidle (.inl rfl), hR⟩
  | cons inp ins =>
    cases outFrames with
    | nil => exact ⟨node, T, [], rfl, hidle (.inr rfl), hR⟩
    | cons out others =>
      generalize hn : min inp.samples.length out.samples.length = n
      have hperCh : ProcessCall.perCh ⟨inp :: ins, out :: others⟩ = n / inp.channels.toNat :=
        congrArg (· / inp.channels.toNat) hn
      rw [processPlanar]
      dsimp only
      rw [hn]
      generalize out.samples.drop (inp.channels.toNat * (n / inp.channels.toNat)) = rest
      split
      · rename_i hempty
        refine ⟨node, T, out :: others, rfl, hidle (hempty.imp_right fun hzero => ?_), hR⟩
        rw [hperCh, hzero, Nat.zero_div]
      · have hlane : ∀ c < inp.channels.toNat, ∀ frame frames,
            ProcessCall.lane ⟨inp :: ins, out :: others⟩ c (frame :: frames) =
              block (n / inp.channels.toNat) c frame.samples := fun c hc frame frames => by
          rw [← hperCh]
          exact if_pos hc
        obtain ⟨node', T', outs, hrun, hR', hlen, htrace, hkeep⟩ :=
          h.runLanes (k := n / inp.channels.toNat) inp.samples hR
            (show inp.channels.toNat ≤ limit from hfit) fun c hc x hx =>
              hP c x (by rwa [hlane c hc])
        -- each channel gets as many samples as it has given
        have hlengths : ∀ ys ∈ outs, ys.length = n / inp.channels.toNat := fun ys hys => by
          obtain ⟨c, hc, rfl⟩ := List.getElem_of_mem hys
          obtain ⟨ys, hys, hc'⟩ := htrace c (by omega)
          rw [List.getElem?_eq_getElem hc] at hys
          rw [Option.some.inj hys, ← hc'.length_eq, length_block]
          have hfit : (c + 1) * (n / inp.channels.toNat) ≤ n :=
            (Nat.mul_le_mul_right _ (by omega)).trans (Nat.mul_div_le n inp.channels.toNat)
          omega
        refine ⟨node', T', { out with samples := outs.flatten ++ rest } :: others, ?_, ?_, hR'⟩
        · rw [hrun]
          rfl
        intro c _
        rcases Nat.lt_or_ge c inp.channels.toNat with hc | hc
        · obtain ⟨ys, hys, hc'⟩ := htrace c hc
          rwa [hlane c hc, hlane c hc, block_flatten_append hlengths hys]
        · rw [hkeep c hc]
          have hnil : ∀ frame frames,
              ProcessCall.lane ⟨inp :: ins, out :: others⟩ c (frame :: frames) = [] :=
            fun _ _ => if_neg (Nat.not_lt.mpr hc)
          rw [hnil, hnil]
          exact .nil (T c)

/-- **A sequence of calls**, seen from the channels: the cuts make no difference. -/
theorem processAll_of_bank (h : Bank R P processSample Step) (hR : ∀ c < limit, R node c (T c))
    {calls : List (ProcessCall K)} (hfit : ∀ call ∈ calls, call.channels ≤ limit)
    (hP : ∀ c, ∀ x ∈ received c calls, P x) :
    ∃ (node' : σ) (T' : ℕ → τ) (outs : List (List (ExactFrame K))),
      runAll (processPlanar processSample) node calls = some (node', outs) ∧
      (∀ c < limit, Trace Step (T c) (received c calls) (produced c calls outs) (T' c)) ∧
      ∀ c < limit, R node' c (T' c) := by
  obtain ⟨node', T', outs, hrun, htrace, hR'⟩ :=
    runAll_of_simulates
      (fun (T : ℕ → τ) (call : ProcessCall K) T' out => ∀ c < limit,
        Trace Step (T c) (call.lane c call.inFrames) (call.lane c out) (T' c))
      (R := fun node (T : ℕ → τ) => ∀ c < limit, R node c (T c))
      (P := fun call => call.channels ≤ limit ∧ ∀ c, ∀ x ∈ call.lane c call.inFrames, P x)
      (fun hR hcall => processPlanar_of_bank h hR hcall.1 hcall.2) hR fun call hcall =>
        ⟨hfit call hcall, fun c x hx => hP c x (List.mem_flatMap.mpr ⟨call, hcall, hx⟩)⟩
  refine ⟨node', T', outs, hrun, fun c hc => ?_, hR'⟩
  clear hrun hR' hfit hP hR
  induction htrace with
  | nil T => exact .nil (T c)
  | cons head _ ih => exact (head c hc).append ih

end Bank

/-- **The channels of a node answer the signals that they receive**, each as a machine of its own,
in however many calls. -/
theorem processAll_response [Zero K] {R : σ → ℕ → τ → Prop}
    {processSample : σ → K → ℕ → Option (σ × K)} {step : τ → K → τ × K}
    (h : Bank R (fun _ => True) processSample fun t x u y => step t x = (u, y))
    {limit : ℕ} {node : σ} {t : τ} (hR : ∀ c < limit, R node c t) {calls : List (ProcessCall K)}
    (hfit : ∀ call ∈ calls, call.channels ≤ limit) :
    ∃ node' outs, runAll (processPlanar processSample) node calls = some (node', outs) ∧
      ∀ c < limit,
        produced c calls outs = (List.range (received c calls).length).map
          (response step t (signal (received c calls))) ∧
        R node' c (trajectory step t (signal (received c calls)) (received c calls).length) := by
  obtain ⟨node', T', outs, hrun, htrace, hR'⟩ :=
    processAll_of_bank (T := fun _ => t) h hR hfit fun _ _ _ => trivial
  refine ⟨node', outs, hrun, fun c hc => ?_⟩
  obtain ⟨hys, hu⟩ := (htrace c hc).eq_map_response signal_of_mem_getElem?
  exact ⟨hys, hu ▸ hR' c hc⟩

/-- A frame has no more channels than a `u16` can count. -/
theorem ProcessCall.channels_le (call : ProcessCall K) : call.channels ≤ UInt16.size := by
  rw [channels]
  split
  · exact (UInt16.toNat_lt _).le
  · exact Nat.zero_le _

end SonicBrew
