import Mathlib.Data.Rat.Floor
import SonicBrew.AudioEngine.Process
import SonicBrew.Lib.Rounding

/-!
# Reverberation

`ReverbNode` sends each channel through eight comb filters side by side and then through four
allpass filters in a row. A comb filter writes its input to a ring together with what comes back
from it, smoothed by a filter of its own; the two keep each other bounded
(`SonicBrew.CombFilter.Bounded`), since smoothing is an average and what comes back is scaled by
less than one. An allpass filter keeps at most twice what it gets and gives at most three times as
much.

So the output of a channel is bounded by the input times a constant, in every run and whatever the
lengths of the rings are (`SonicBrew.ReverbNode.processAll_bounded`).
-/

namespace SonicBrew

open Lanes Machine

/-! ### Comb filters -/

/-- `CombFilter`. -/
structure CombFilter where
  buffer : List ℚ
  idx : ℕ
  feedback : ℚ
  damp1 : ℚ
  damp2 : ℚ
  lowpass : ℚ
  deriving DecidableEq, Repr

/-- The index of the next slot of a ring of this length. -/
def nextIdx (idx len : ℕ) : ℕ :=
  let idx := idx + 1
  if idx ≥ len then 0 else idx

/-! What the two kinds of filters do to their rings. -/

theorem ring_pos (delay : ℕ) : 0 < (List.replicate (max delay 1) (0 : ℚ)).length := by
  rw [List.length_replicate]
  omega

theorem nextIdx_lt {ring : List ℚ} {idx : ℕ} (h : idx < ring.length) (v : ℚ) :
    nextIdx idx ring.length < (ring.set idx v).length := by
  rw [List.length_set, nextIdx]
  split <;> omega

theorem forall_mem_set {ring : List ℚ} {P : ℚ → Prop} (h : ∀ v ∈ ring, P v) {w : ℚ} (hw : P w)
    (idx : ℕ) : ∀ v ∈ ring.set idx w, P v := by
  intro v hv
  obtain hv | rfl := List.mem_or_eq_of_mem_set hv
  · exact h v hv
  · exact hw

namespace CombFilter

/-- `CombFilter::new`. -/
def new (delay : ℕ) (feedback damping : ℚ) : CombFilter where
  buffer := List.replicate (max delay 1) 0
  idx := 0
  feedback := feedback
  damp1 := damping
  damp2 := 1 - damping
  lowpass := 0

/-- `CombFilter::process`. -/
def process (self : CombFilter) (input : ℚ) : Option (CombFilter × ℚ) := do
  let output ← self.buffer[self.idx]?
  let lowpass := output * self.damp2 + self.lowpass * self.damp1
  let buffer ← store self.buffer self.idx (input + lowpass * self.feedback)
  return ({ self with
    buffer := buffer
    idx := nextIdx self.idx buffer.length
    lowpass := lowpass }, output)

/-- **What holds of a comb filter whose input is bounded by `B`**: its ring and the smoothed value
are bounded by the sum of all that can come back. -/
structure Bounded (f B : ℚ) (comb : CombFilter) : Prop where
  idx_lt : comb.idx < comb.buffer.length
  feedback : comb.feedback = f
  damp1_nonneg : 0 ≤ comb.damp1
  damp1_le : comb.damp1 ≤ 1
  damp2 : comb.damp2 = 1 - comb.damp1
  buffer : ∀ v ∈ comb.buffer, |v| ≤ B / (1 - f)
  lowpass : |comb.lowpass| ≤ B / (1 - f)

theorem bounded_new (delay : ℕ) {f B damping : ℚ} (hf : f < 1) (hB : 0 ≤ B) (h0 : 0 ≤ damping)
    (h1 : damping ≤ 1) : (new delay f damping).Bounded f B where
  idx_lt := ring_pos delay
  feedback := rfl
  damp1_nonneg := h0
  damp1_le := h1
  damp2 := rfl
  buffer v hv := by
    rw [List.eq_of_mem_replicate hv, abs_zero]
    exact div_nonneg hB (by linarith)
  lowpass := abs_zero.trans_le (div_nonneg hB (by linarith))

theorem process_eq {comb : CombFilter} {output : ℚ} (hget : comb.buffer[comb.idx]? = some output)
    (input : ℚ) :
    comb.process input = some ({ comb with
      buffer := comb.buffer.set comb.idx
        (input + (output * comb.damp2 + comb.lowpass * comb.damp1) * comb.feedback)
      idx := nextIdx comb.idx comb.buffer.length
      lowpass := output * comb.damp2 + comb.lowpass * comb.damp1 }, output) := by
  simp only [process, hget, store_of_getElem? hget, Option.bind_eq_bind, Option.bind_some,
    Option.pure_def, List.length_set]

/-- **One sample**: the bounds are kept. -/
theorem Bounded.process {f B : ℚ} {comb : CombFilter} (h : comb.Bounded f B) (hf0 : 0 ≤ f)
    (hf1 : f < 1) {input : ℚ} (hinput : |input| ≤ B) :
    ∃ comb' output, comb.process input = some (comb', output) ∧ comb'.Bounded f B ∧
      |output| ≤ B / (1 - f) := by
  obtain ⟨output, hget⟩ : ∃ output, comb.buffer[comb.idx]? = some output :=
    ⟨_, List.getElem?_eq_getElem h.idx_lt⟩
  have houtput := h.buffer output (List.mem_of_getElem? hget)
  have hsmooth : |output * comb.damp2 + comb.lowpass * comb.damp1| ≤ B / (1 - f) := by
    rw [h.damp2]
    exact abs_interpolate_le houtput h.lowpass h.damp1_nonneg h.damp1_le
  have hwritten : |input + (output * comb.damp2 + comb.lowpass * comb.damp1) * comb.feedback| ≤
      B / (1 - f) :=
    calc |input + (output * comb.damp2 + comb.lowpass * comb.damp1) * comb.feedback|
        ≤ |input| + |(output * comb.damp2 + comb.lowpass * comb.damp1) * comb.feedback| :=
          abs_add_le _ _
      _ = |input| + f * |output * comb.damp2 + comb.lowpass * comb.damp1| := by
        rw [h.feedback, abs_mul, abs_of_nonneg hf0, mul_comm]
      _ ≤ B + f * (B / (1 - f)) := add_le_add hinput (mul_le_mul_of_nonneg_left hsmooth hf0)
      _ = B / (1 - f) := add_mul_div_one_sub hf1 B
  exact ⟨_, output, process_eq hget input,
    ⟨nextIdx_lt h.idx_lt _, h.feedback, h.damp1_nonneg, h.damp1_le, h.damp2,
      forall_mem_set h.buffer hwritten _, hsmooth⟩, houtput⟩

end CombFilter

/-! ### Allpass filters -/

/-- `ALLPASS_FEEDBACK`. -/
def allpassFeedback : ℚ := 0.5

/-- `AllpassFilter`. -/
structure AllpassFilter where
  buffer : List ℚ
  idx : ℕ
  deriving DecidableEq, Repr

namespace AllpassFilter

/-- `AllpassFilter::new`. -/
def new (delay : ℕ) : AllpassFilter where
  buffer := List.replicate (max delay 1) 0
  idx := 0

/-- `AllpassFilter::process`. -/
def process (self : AllpassFilter) (input : ℚ) : Option (AllpassFilter × ℚ) := do
  let buffered ← self.buffer[self.idx]?
  let output := -input + buffered
  let buffer ← store self.buffer self.idx (input + buffered * allpassFeedback)
  return ({ self with
    buffer := buffer
    idx := nextIdx self.idx buffer.length }, output)

/-- **What holds of an allpass filter whose input is bounded by `A`**: its ring is bounded by twice
that much. -/
structure Bounded (A : ℚ) (allpass : AllpassFilter) : Prop where
  idx_lt : allpass.idx < allpass.buffer.length
  buffer : ∀ v ∈ allpass.buffer, |v| ≤ 2 * A

theorem bounded_new (delay : ℕ) {A : ℚ} (hA : 0 ≤ A) : (new delay).Bounded A where
  idx_lt := ring_pos delay
  buffer v hv := by
    rw [List.eq_of_mem_replicate hv, abs_zero]
    exact mul_nonneg zero_le_two hA

theorem process_eq {allpass : AllpassFilter} {buffered : ℚ}
    (hget : allpass.buffer[allpass.idx]? = some buffered) (input : ℚ) :
    allpass.process input = some (
      { buffer := allpass.buffer.set allpass.idx (input + buffered * allpassFeedback)
        idx := nextIdx allpass.idx allpass.buffer.length }, -input + buffered) := by
  simp only [process, hget, store_of_getElem? hget, Option.bind_eq_bind, Option.bind_some,
    Option.pure_def, List.length_set]

/-- **One sample**: the bound of the ring is kept, and three times the input may come out. -/
theorem Bounded.process {A : ℚ} {allpass : AllpassFilter} (h : allpass.Bounded A) {input : ℚ}
    (hinput : |input| ≤ A) :
    ∃ allpass' output, allpass.process input = some (allpass', output) ∧ allpass'.Bounded A ∧
      |output| ≤ 3 * A := by
  obtain ⟨buffered, hget⟩ : ∃ buffered, allpass.buffer[allpass.idx]? = some buffered :=
    ⟨_, List.getElem?_eq_getElem h.idx_lt⟩
  have hbuffered := h.buffer buffered (List.mem_of_getElem? hget)
  -- the half of what the ring holds, and the input once more
  have hwritten : |input + buffered * allpassFeedback| ≤ 2 * A :=
    calc |input + buffered * allpassFeedback|
        ≤ |input| + |buffered * allpassFeedback| := abs_add_le _ _
      _ = |input| + |buffered| * (1 / 2) := by
        rw [abs_mul, show |allpassFeedback| = 1 / 2 by norm_num [allpassFeedback]]
      _ ≤ A + 2 * A * (1 / 2) := by gcongr
      _ = 2 * A := by ring
  have houtput : |-input + buffered| ≤ 3 * A :=
    calc |-input + buffered| ≤ |-input| + |buffered| := abs_add_le _ _
      _ ≤ A + 2 * A := by
        rw [abs_neg]
        exact add_le_add hinput hbuffered
      _ = 3 * A := by ring
  exact ⟨_, _, process_eq hget input,
    ⟨nextIdx_lt h.idx_lt _, forall_mem_set h.buffer hwritten _⟩, houtput⟩

end AllpassFilter

/-! ### A row of filters -/

section Filters

variable {F : Type}

/-- `filters[i].process(input)`. -/
def processAt (process : F → ℚ → Option (F × ℚ)) (filters : List F) (i : ℕ) (input : ℚ) :
    Option (List F × ℚ) := do
  let filter ← filters[i]?
  let (filter, output) ← process filter input
  return (filters.set i filter, output)

/-- Each filter of a row satisfies what is asked of its place. -/
def Each (I : ℕ → F → Prop) (filters : List F) : Prop := ∀ j, ∀ filter ∈ filters[j]?, I j filter

/-- **One filter of a row**: if it keeps what is asked of it, the row does. -/
theorem Each.processAt {I : ℕ → F → Prop} {Q : ℚ → Prop} {process : F → ℚ → Option (F × ℚ)}
    {filters : List F} {i : ℕ} {input : ℚ} (h : Each I filters) (hi : i < filters.length)
    (hprocess : ∀ filter, I i filter →
      ∃ filter' output, process filter input = some (filter', output) ∧ I i filter' ∧ Q output) :
    ∃ filters' output, processAt process filters i input = some (filters', output) ∧
      Each I filters' ∧ filters'.length = filters.length ∧ Q output := by
  have hget : filters[i]? = some _ := List.getElem?_eq_getElem hi
  obtain ⟨filter', output, hfilter', hI, hQ⟩ := hprocess _ (h i _ hget)
  refine ⟨filters.set i filter', output, ?_, fun j filter hj => ?_, List.length_set, hQ⟩
  · simp only [SonicBrew.processAt, hget, hfilter', Option.bind_eq_bind, Option.bind_some,
      Option.pure_def]
  · rcases eq_or_ne i j with rfl | hne
    · rw [getElem?_set_of_getElem? hget] at hj
      rwa [← Option.some.inj hj]
    · rw [List.getElem?_set_ne hne] at hj
      exact h j filter hj

end Filters

/-! ### The node -/

/-- `COMB_DELAYS_441`. -/
def combDelays441 : List ℕ := [1116, 1188, 1277, 1356, 1422, 1491, 1557, 1617]

/-- `ALLPASS_DELAYS_441`. -/
def allpassDelays441 : List ℕ := [556, 441, 341, 225]

/-- `COMBS_PER_CHANNEL`. -/
def combsPerChannel : ℕ := 8

/-- `ALLPASSES_PER_CHANNEL`. -/
def allpassesPerChannel : ℕ := 4

/-- `REFERENCE_RATE`. -/
def referenceRate : ℚ := 44100

/-- `scale_delay`. -/
def scaleDelay (base : ℕ) (scale : ℚ) : ℕ := (max (roundHalfAway (base * scale)) 1).toNat

/-- `ReverbNode`, without the descriptions of its ports. -/
structure ReverbNode where
  wet : ℚ
  dry : ℚ
  combs : List CombFilter
  allpasses : List AllpassFilter
  deriving DecidableEq, Repr

namespace ReverbNode

/-- The feedback of the comb filters in a room of this size. -/
def feedbackOf (roomSize : ℚ) : ℚ := clamp roomSize 0 1 * 0.28 + 0.7

/-- `ReverbNode::new` with the lengths of the rings of one channel left open. -/
def withDelays (combDelays allpassDelays : List ℕ) (roomSize damping wet dry : ℚ)
    (channels : UInt16) : ReverbNode :=
  let damping := clamp damping 0 1
  let ch := (max channels 1).toNat
  { wet := clamp wet 0 1
    dry := clamp dry 0 1
    combs := (List.range ch).flatMap fun _ =>
      combDelays.map fun delay => CombFilter.new delay (feedbackOf roomSize) damping
    allpasses := (List.range ch).flatMap fun _ => allpassDelays.map AllpassFilter.new }

/-- `ReverbNode::new`. -/
def new (roomSize damping wet dry : ℚ) (sampleRate : UInt32) (channels : UInt16) : ReverbNode :=
  let scale := (sampleRate.toNat : ℚ) / referenceRate
  withDelays (combDelays441.map (scaleDelay · scale)) (allpassDelays441.map (scaleDelay · scale))
    roomSize damping wet dry channels

/-- One round of the loop over the comb filters: they all get the sample, and their outputs are
added up. -/
def combRound (base : ℕ) (x : ℚ) (s : List CombFilter × ℚ) (i : ℕ) :
    Option (List CombFilter × ℚ) := do
  let (combs, output) ← processAt CombFilter.process s.1 (base + i) x
  return (combs, s.2 + output)

/-- One round of the loop over the allpass filters: each gets what the one before gives. -/
def allpassRound (base : ℕ) (s : List AllpassFilter × ℚ) (i : ℕ) :
    Option (List AllpassFilter × ℚ) :=
  processAt AllpassFilter.process s.1 (base + i) s.2

/-- `process_sample`. -/
def processSample (self : ReverbNode) (x : ℚ) (ch : ℕ) : Option (ReverbNode × ℚ) := do
  let combBase := ch * combsPerChannel
  let (combs, combOut) ←
    (List.range combsPerChannel).foldlM (combRound combBase x) (self.combs, 0)
  let apBase := ch * allpassesPerChannel
  let (allpasses, wetOut) ←
    (List.range allpassesPerChannel).foldlM (allpassRound apBase) (self.allpasses, combOut)
  return ({ self with combs := combs, allpasses := allpasses }, x * self.dry + wetOut * self.wet)

/-- `process`. -/
def process : ReverbNode → ProcessCall ℚ → Option (ReverbNode × List (ExactFrame ℚ)) :=
  processPlanar processSample

/-! ### Bounds -/

/-- The bound of what the stage `i` of the allpass filters of a channel gets. -/
def stageBound (f B : ℚ) (i : ℕ) : ℚ := 3 ^ i * (combsPerChannel * (B / (1 - f)))

/-- **What holds of a node whose input is bounded by `B`**, between any two samples. -/
structure Bounded (f B : ℚ) (limit : ℕ) (node : ReverbNode) : Prop where
  combs_length : node.combs.length = limit * combsPerChannel
  combs : Each (fun _ => CombFilter.Bounded f B) node.combs
  allpasses_length : node.allpasses.length = limit * allpassesPerChannel
  allpasses : Each (fun j => AllpassFilter.Bounded (stageBound f B (j % allpassesPerChannel)))
    node.allpasses
  wet_nonneg : 0 ≤ node.wet
  wet_le : node.wet ≤ 1
  dry_nonneg : 0 ≤ node.dry
  dry_le : node.dry ≤ 1

section Bounds

variable {f B x : ℚ} {limit ch : ℕ}

theorem combs_loop (hf0 : 0 ≤ f) (hf1 : f < 1) (hx : |x| ≤ B) (hch : ch < limit)
    {combs : List CombFilter} (h : Each (fun _ => CombFilter.Bounded f B) combs)
    (hlimit : combs.length = limit * combsPerChannel) :
    ∃ s, (List.range combsPerChannel).foldlM (combRound (ch * combsPerChannel) x) (combs, 0) =
        some s ∧
      Each (fun _ => CombFilter.Bounded f B) s.1 ∧ s.1.length = limit * combsPerChannel ∧
      |s.2| ≤ combsPerChannel * (B / (1 - f)) := by
  -- each filter adds at most its bound to the sum
  refine foldlM_range_of_invariant
    (fun i (s : List CombFilter × ℚ) => Each (fun _ => CombFilter.Bounded f B) s.1 ∧
      s.1.length = limit * combsPerChannel ∧ |s.2| ≤ i * (B / (1 - f)))
    (fun i s hi hs => ?_) ⟨h, hlimit, by simp⟩
  obtain ⟨heach, hlength, hsum⟩ := hs
  obtain ⟨combs', output, hprocess, heach', hlength', houtput⟩ :=
    heach.processAt (mul_add_lt_mul hch hi |>.trans_eq hlength.symm) fun _ hcomb =>
      hcomb.process hf0 hf1 hx
  refine ⟨(combs', s.2 + output), ?_, heach', hlength'.trans hlength, ?_⟩
  · simp only [combRound, hprocess, Option.bind_eq_bind, Option.bind_some, Option.pure_def]
  · calc |s.2 + output| ≤ |s.2| + |output| := abs_add_le _ _
      _ ≤ i * (B / (1 - f)) + B / (1 - f) := add_le_add hsum houtput
      _ = (i + 1 : ℕ) * (B / (1 - f)) := by
        push_cast
        ring

theorem allpasses_loop (hch : ch < limit) {allpasses : List AllpassFilter}
    (h : Each (fun j => AllpassFilter.Bounded (stageBound f B (j % allpassesPerChannel)))
      allpasses) (hlimit : allpasses.length = limit * allpassesPerChannel)
    {combOut : ℚ} (hcombOut : |combOut| ≤ stageBound f B 0) :
    ∃ s, (List.range allpassesPerChannel).foldlM (allpassRound (ch * allpassesPerChannel))
        (allpasses, combOut) = some s ∧
      Each (fun j => AllpassFilter.Bounded (stageBound f B (j % allpassesPerChannel))) s.1 ∧
      s.1.length = limit * allpassesPerChannel ∧ |s.2| ≤ stageBound f B allpassesPerChannel := by
  refine foldlM_range_of_invariant
    (fun i (s : List AllpassFilter × ℚ) =>
      Each (fun j => AllpassFilter.Bounded (stageBound f B (j % allpassesPerChannel))) s.1 ∧
      s.1.length = limit * allpassesPerChannel ∧ |s.2| ≤ stageBound f B i)
    (fun i s hi hs => ?_) ⟨h, hlimit, hcombOut⟩
  obtain ⟨heach, hlength, hin⟩ := hs
  -- the filter at this place is the stage `i` of its channel
  have hstage : (ch * allpassesPerChannel + i) % allpassesPerChannel = i := by
    rw [Nat.mul_add_mod_self_right, Nat.mod_eq_of_lt hi]
  obtain ⟨allpasses', output, hprocess, heach', hlength', houtput⟩ :=
    heach.processAt (mul_add_lt_mul hch hi |>.trans_eq hlength.symm) fun allpass hallpass => by
      rw [hstage] at hallpass ⊢
      exact hallpass.process hin
  refine ⟨(allpasses', output), hprocess, heach', hlength'.trans hlength, houtput.trans_eq ?_⟩
  rw [stageBound, stageBound, pow_succ]
  ring

/-- **One sample**: the bounds are kept, whatever channel it is for. -/
theorem Bounded.processSample {node : ReverbNode} (h : node.Bounded f B limit) (hf0 : 0 ≤ f)
    (hf1 : f < 1) (hx : |x| ≤ B) (hch : ch < limit) :
    ∃ node' y, node.processSample x ch = some (node', y) ∧ node'.Bounded f B limit ∧
      |y| ≤ B + stageBound f B allpassesPerChannel := by
  obtain ⟨⟨combs, combOut⟩, hcombs, hcombsBounded, hcombsLength, hcombOut⟩ :=
    combs_loop hf0 hf1 hx hch h.combs h.combs_length
  have hfirst : stageBound f B 0 = combsPerChannel * (B / (1 - f)) := by
    rw [stageBound, pow_zero, one_mul]
  obtain ⟨⟨allpasses, wetOut⟩, hallpasses, hallpassesBounded, hallpassesLength, hwetOut⟩ :=
    allpasses_loop hch h.allpasses h.allpasses_length (hcombOut.trans_eq hfirst.symm)
  refine ⟨{ node with combs := combs, allpasses := allpasses },
    x * node.dry + wetOut * node.wet, ?_,
    ⟨hcombsLength, hcombsBounded, hallpassesLength, hallpassesBounded, h.wet_nonneg, h.wet_le,
      h.dry_nonneg, h.dry_le⟩, ?_⟩
  · simp only [ReverbNode.processSample, hcombs, hallpasses, Option.bind_eq_bind,
      Option.bind_some, Option.pure_def]
  -- neither of the two parts is made louder
  · have hpart : ∀ {v gain C : ℚ}, |v| ≤ C → 0 ≤ gain → gain ≤ 1 → |v * gain| ≤ C := by
      intro v gain C hv h0 h1
      rw [abs_mul, abs_of_nonneg h0]
      exact (mul_le_of_le_one_right (abs_nonneg v) h1).trans hv
    exact (abs_add_le _ _).trans
      (add_le_add (hpart hx h.dry_nonneg h.dry_le) (hpart hwetOut h.wet_nonneg h.wet_le))

/-- **Any samples for any channels**, in whatever order they come. -/
theorem Bounded.runAll_processSample {node : ReverbNode} (h : node.Bounded f B limit)
    (hf0 : 0 ≤ f) (hf1 : f < 1) {samples : List (ℚ × ℕ)}
    (hsamples : ∀ s ∈ samples, |s.1| ≤ B ∧ s.2 < limit) :
    ∃ node' ys, runAll (fun node s => ReverbNode.processSample node s.1 s.2) node samples =
        some (node', ys) ∧
      node'.Bounded f B limit ∧ ∀ y ∈ ys, |y| ≤ B + stageBound f B allpassesPerChannel := by
  obtain ⟨node', _, ys, hrun, htrace, h'⟩ :=
    runAll_of_simulates (fun (_ : Unit) _ _ y => |y| ≤ B + stageBound f B allpassesPerChannel)
      (R := fun (node : ReverbNode) _ => node.Bounded f B limit) (t := ())
      (fun h hs => by
        obtain ⟨node', y, hstep, h', hy⟩ := h.processSample hf0 hf1 hs.1 hs.2
        exact ⟨node', (), y, hstep, hy, h'⟩)
      h hsamples
  exact ⟨node', ys, hrun, h', htrace.forall_output fun hy => hy⟩

/-- **Any calls**, seen from the channels. -/
theorem Bounded.runAll_process {node : ReverbNode} (h : node.Bounded f B limit) (hf0 : 0 ≤ f)
    (hf1 : f < 1) (hlimit : 0 < limit) {calls : List (ProcessCall ℚ)}
    (hfit : ∀ call ∈ calls, call.channels ≤ limit) (hB : ∀ c, ∀ x ∈ received c calls, |x| ≤ B) :
    ∃ node' outs, runAll ReverbNode.process node calls = some (node', outs) ∧
      node'.Bounded f B limit ∧
      ∀ c < limit, ∀ y ∈ produced c calls outs,
        |y| ≤ B + stageBound f B allpassesPerChannel := by
  -- the bounds are those of the whole node, and each channel knows them
  have hbank : Bank (fun (node : ReverbNode) c (_ : Unit) => node.Bounded f B limit ∧ c < limit)
      (fun x => |x| ≤ B) ReverbNode.processSample
      fun _ _ _ y => |y| ≤ B + stageBound f B allpassesPerChannel :=
    { follow := fun hR hx => by
        obtain ⟨node', y, hstep, h', hy⟩ := hR.1.processSample hf0 hf1 hx hR.2
        exact ⟨node', (), y, hstep, hy, ⟨h', hR.2⟩, fun _ _ _ hd => ⟨h', hd.2⟩⟩ }
  obtain ⟨node', T', outs, hrun, htrace, hR⟩ :=
    processAll_of_bank (T := fun _ => ()) hbank (fun c hc => ⟨h, hc⟩) hfit hB
  exact ⟨node', outs, hrun, (hR 0 hlimit).1, fun c hc => (htrace c hc).forall_output fun hy => hy⟩

end Bounds

/-! ### All runs -/

/-- There is always a channel. -/
theorem toNat_max_one_pos (channels : UInt16) : 0 < (max channels 1).toNat := by
  rw [UInt16.max_def]
  split
  · decide
  · rename_i hchannels
    rw [UInt16.not_le, UInt16.lt_iff_toNat_lt] at hchannels
    exact Nat.zero_lt_of_lt hchannels

theorem feedbackOf_nonneg (roomSize : ℚ) : 0 ≤ feedbackOf roomSize := by
  have hroom := le_clamp roomSize 0 1
  rw [feedbackOf]
  linarith

theorem feedbackOf_le (roomSize : ℚ) : feedbackOf roomSize ≤ 0.98 := by
  have hroom := clamp_le (zero_le_one' ℚ) roomSize
  rw [feedbackOf]
  norm_num at hroom ⊢
  linarith

theorem stageBound_nonneg {f B : ℚ} (hf1 : f < 1) (hB : 0 ≤ B) (i : ℕ) : 0 ≤ stageBound f B i := by
  have hdiv : 0 ≤ B / (1 - f) := div_nonneg hB (by linarith)
  rw [stageBound]
  positivity

/-- The factor that no room exceeds. -/
theorem add_stageBound_le {f B : ℚ} (hf : f ≤ 0.98) (hB : 0 ≤ B) :
    B + stageBound f B allpassesPerChannel ≤ 32401 * B := by
  have hdiv : B / (1 - f) ≤ B / 0.02 := div_le_div_of_nonneg_left hB (by norm_num) (by
    norm_num at hf ⊢
    linarith)
  have hstage : stageBound f B allpassesPerChannel = 648 * (B / (1 - f)) := by
    rw [stageBound, allpassesPerChannel, combsPerChannel]
    ring
  rw [hstage]
  norm_num at hdiv ⊢
  linarith

theorem each_of_forall_mem {F : Type} {I : ℕ → F → Prop} {filters : List F}
    (h : ∀ filter ∈ filters, ∀ j, I j filter) : Each I filters := fun j filter hj =>
  h filter (List.mem_of_getElem? hj) j

/-- A new node is silent. -/
theorem bounded_withDelays {combDelays allpassDelays : List ℕ}
    (hcombs : combDelays.length = combsPerChannel)
    (hallpasses : allpassDelays.length = allpassesPerChannel) (roomSize damping wet dry : ℚ)
    (channels : UInt16) {B : ℚ} (hB : 0 ≤ B) :
    (withDelays combDelays allpassDelays roomSize damping wet dry channels).Bounded
      (feedbackOf roomSize) B (max channels 1).toNat where
  combs_length := by
    simp [withDelays, List.length_flatMap, hcombs]
  combs := each_of_forall_mem fun comb hcomb _ => by
    obtain ⟨_, -, hcomb⟩ := List.mem_flatMap.mp hcomb
    obtain ⟨delay, -, rfl⟩ := List.mem_map.mp hcomb
    exact CombFilter.bounded_new delay ((feedbackOf_le roomSize).trans_lt (by norm_num)) hB
      (le_clamp _ _ _) (clamp_le zero_le_one _)
  allpasses_length := by
    simp [withDelays, List.length_flatMap, hallpasses]
  allpasses := each_of_forall_mem fun allpass hallpass j => by
    obtain ⟨_, -, hallpass⟩ := List.mem_flatMap.mp hallpass
    obtain ⟨delay, -, rfl⟩ := List.mem_map.mp hallpass
    exact AllpassFilter.bounded_new delay
      (stageBound_nonneg ((feedbackOf_le roomSize).trans_lt (by norm_num)) hB _)
  wet_nonneg := le_clamp _ _ _
  wet_le := clamp_le zero_le_one _
  dry_nonneg := le_clamp _ _ _
  dry_le := clamp_le zero_le_one _

/-- **The reverberation does not diverge.** For rings of any lengths, all parameters and an input
that is bounded by `B`: no index is out of range, between any two samples the rings are within
their bounds, and what comes out is bounded by `B` times a constant. -/
theorem processAll_bounded (combDelays allpassDelays : List ℕ)
    (hcombs : combDelays.length = combsPerChannel)
    (hallpasses : allpassDelays.length = allpassesPerChannel) (roomSize damping wet dry B : ℚ)
    (channels : UInt16) :
    let node := withDelays combDelays allpassDelays roomSize damping wet dry channels
    let limit := (max channels 1).toNat
    feedbackOf roomSize ≤ 0.98 ∧
    (∀ samples : List (ℚ × ℕ), 0 ≤ B → (∀ s ∈ samples, |s.1| ≤ B ∧ s.2 < limit) →
      ∃ node' ys, runAll (fun node s => processSample node s.1 s.2) node samples =
          some (node', ys) ∧
        node'.Bounded (feedbackOf roomSize) B limit ∧ ∀ y ∈ ys, |y| ≤ 32401 * B) ∧
    ∀ calls : List (ProcessCall ℚ), (∀ call ∈ calls, call.channels ≤ limit) →
      (∀ c n, |signal (received c calls) n| ≤ B) →
      ∃ node' outs, runAll process node calls = some (node', outs) ∧
        node'.Bounded (feedbackOf roomSize) B limit ∧
        ∀ c < limit, ∀ y ∈ produced c calls outs, |y| ≤ 32401 * B := by
  intro node limit
  have hf0 := feedbackOf_nonneg roomSize
  have hf := feedbackOf_le roomSize
  have hf1 : feedbackOf roomSize < 1 := hf.trans_lt (by norm_num)
  refine ⟨hf, fun samples hB hsamples => ?_, fun calls hfit hinput => ?_⟩
  · obtain ⟨node', ys, hrun, h', hys⟩ :=
      (bounded_withDelays hcombs hallpasses roomSize damping wet dry channels
        hB).runAll_processSample hf0 hf1 hsamples
    exact ⟨node', ys, hrun, h', fun y hy => (hys y hy).trans (add_stageBound_le hf hB)⟩
  · have hB : 0 ≤ B := (abs_nonneg _).trans (hinput 0 0)
    have hmem : ∀ c, ∀ x ∈ received c calls, |x| ≤ B := fun c x hx => by
      obtain ⟨n, hn⟩ := List.mem_iff_getElem?.mp hx
      rw [← signal_of_mem_getElem? n x hn]
      exact hinput c n
    obtain ⟨node', outs, hrun, h', houts⟩ :=
      (bounded_withDelays hcombs hallpasses roomSize damping wet dry channels
        hB).runAll_process hf0 hf1 (toNat_max_one_pos channels) hfit hmem
    exact ⟨node', outs, hrun, h', fun c hc y hy =>
      (houts c hc y hy).trans (add_stageBound_le hf hB)⟩

/-- Two blocks in the largest room, with rings of one to eight samples. -/
theorem processAll_bounded_largest :
    [1, 2, 3, 4, 5, 6, 7, 8].length = combsPerChannel ∧
    [1, 2, 3, 4].length = allpassesPerChannel ∧
    ∃ node' outs, runAll process (withDelays [1, 2, 3, 4, 5, 6, 7, 8] [1, 2, 3, 4] 1 0 1 1 1)
        [.mono [1, 0], .mono [-1]] = some (node', outs) ∧
      node'.Bounded 0.98 1 1 ∧
      ∀ y ∈ produced 0 [.mono [1, 0], .mono [-1]] outs, |y| ≤ 32401 := by
  have hfeedback : feedbackOf 1 = 0.98 := by norm_num [feedbackOf, clamp]
  have hinput : ∀ c n,
      |signal (received c [ProcessCall.mono [(1 : ℚ), 0], .mono [-1]]) n| ≤ 1 := by
    intro c
    cases c with
    | zero =>
      show ∀ n, |signal [(1 : ℚ), 0, -1] n| ≤ 1
      exact abs_signal_le zero_le_one (by norm_num)
    | succ c =>
      rw [show received (c + 1) [ProcessCall.mono [(1 : ℚ), 0], .mono [-1]] = [] from
        received_mono_succ c [[1, 0], [-1]]]
      exact abs_signal_le zero_le_one fun _ hv => absurd hv List.not_mem_nil
  obtain ⟨-, -, hcalls⟩ :=
    processAll_bounded [1, 2, 3, 4, 5, 6, 7, 8] [1, 2, 3, 4] rfl rfl 1 0 1 1 1 1
  obtain ⟨node', outs, hrun, hbounded, houts⟩ :=
    hcalls [.mono [1, 0], .mono [-1]] (by decide) hinput
  rw [hfeedback] at hbounded
  exact ⟨rfl, rfl, node', outs, hrun, hbounded, fun y hy =>
    (houts 0 (by decide) y hy).trans_eq (mul_one _)⟩

end ReverbNode

end SonicBrew
