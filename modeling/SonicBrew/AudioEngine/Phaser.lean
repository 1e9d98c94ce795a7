import SonicBrew.AudioEngine.Cookbook

/-!
# Phaser

`PhaserNode` sends a channel through a row of allpass stages, with one coefficient for all of them
that an oscillator moves. A stage passes its last output on to the next one with this coefficient,
so it must stay below one in size.

It is the tangent of half an angle, and the code keeps the frequency so low that the tangent is
finite, which is not enough: it is below one only for frequencies below a quarter of the sample
rate, and the frequency can come close to half of it (`SonicBrew.PhaserNode.sweep_stable_iff`).
Where it stays below the quarter, whatever the oscillator does, a row of stages cannot diverge
(`SonicBrew.abs_cascade_le`). A run never changes the parameters that this depends on
(`SonicBrew.PhaserNode.processAll_running`).
-/

namespace SonicBrew

open Machine

/-- `AllpassStage`. -/
structure AllpassStage (K : Type) where
  xm1 : K
  ym1 : K
  deriving DecidableEq, Repr

/-- `PhaserNode`, without the descriptions of its ports. -/
structure PhaserNode (K : Type) where
  feedback : K
  mix : K
  numStages : ℕ
  baseFreq : K
  depth : K
  phaseInc : K
  sampleRate : K
  stages : List (AllpassStage K)
  feedbackState : List K
  lfoPhase : K
  deriving DecidableEq, Repr

namespace PhaserNode

variable {K : Type} [Field K] [LinearOrder K] (std : Elementary K)

/-- `TWO_PI`. -/
def twoPi : K := 2.0 * std.pi

/-- `FEEDBACK_CEIL`. -/
def feedbackCeil : K := 0.7

/-- `PhaserNode::new`. To clamp the frequency is an error if the upper limit is below the lower. -/
def new (rateHz baseFreq depth feedback mix : K) (stages : ℕ) (sampleRate : UInt32)
    (channels : UInt16) : Option (PhaserNode K) :=
  let rate := clamp rateHz 0.05 10.0
  let sr : K := sampleRate.toNat
  if 10.0 ≤ sr * 0.24 then
    let ns := clamp stages 2 8
    let ch := (max channels 1).toNat
    some
      { feedback := clamp feedback 0 feedbackCeil
        mix := clamp mix 0 1
        numStages := ns
        baseFreq := clamp baseFreq 10.0 (sr * 0.24)
        depth := clamp depth 0 1
        phaseInc := twoPi std * rate / sr
        sampleRate := sr
        stages := List.replicate (ch * ns) ⟨0, 0⟩
        feedbackState := List.replicate ch 0
        lfoPhase := 0 }
  else none

/-- One round of the loop over the stages. -/
def atStage (a : K) (base : ℕ) (p : List (AllpassStage K) × K) (s : ℕ) :
    Option (List (AllpassStage K) × K) := do
  let (stages, wet) := p
  let stage ← stages[base + s]?
  let y := -a * wet + stage.xm1 + a * stage.ym1
  let stages ← store stages (base + s) ⟨wet, y⟩
  return (stages, y)

/-- `process_sample`. -/
def processSample (self : PhaserNode K) (x : K) (ch : ℕ) (a : K) : Option (PhaserNode K × K) := do
  let wet := x + (← self.feedbackState[ch]?) * self.feedback
  let base := ch * self.numStages
  let (stages, wet) ← (List.range self.numStages).foldlM (atStage a base) (self.stages, wet)
  let feedbackState ← store self.feedbackState ch wet
  return ({ self with stages := stages, feedbackState := feedbackState },
    x * (1 - self.mix) + wet * self.mix)

/-- `allpass_coef`. -/
def allpassCoef (self : PhaserNode K) : K :=
  let lfo := std.sin self.lfoPhase
  let fc := self.baseFreq * (1 + self.depth * (0.5 + 0.5 * lfo))
  let w0 := twoPi std * fc / self.sampleRate
  std.sin w0 / (1 + std.cos w0)

/-- The shared oscillator, one sample later. -/
def advance (self : PhaserNode K) : PhaserNode K :=
  let phase := self.lfoPhase + self.phaseInc
  { self with lfoPhase := if phase ≥ twoPi std then phase - twoPi std else phase }

/-- One sample of one channel. -/
def atSample (inp : List K) (perCh i : ℕ) (a : K) (p : PhaserNode K × List K) (c : ℕ) :
    Option (PhaserNode K × List K) := do
  let (node, out) := p
  let idx := c * perCh + i
  let (node, y) ← node.processSample (← inp[idx]?) c a
  let out ← store out idx y
  return (node, out)

/-- One sample of all channels, with one coefficient. -/
def atMoment (inp : List K) (ch perCh : ℕ) (p : PhaserNode K × List K) (i : ℕ) :
    Option (PhaserNode K × List K) := do
  let a := p.1.allpassCoef std
  let (node, out) ← (List.range ch).foldlM (atSample inp perCh i a) p
  return (node.advance std, out)

/-- `process`: samples outside, channels inside. -/
def process (self : PhaserNode K) (call : ProcessCall K) :
    Option (PhaserNode K × List (ExactFrame K)) :=
  match call.inFrames, call.outFrames with
  | inp :: _, out :: others =>
      let ch := inp.channels.toNat
      let n := min inp.samples.length out.samples.length
      if ch = 0 ∨ n = 0 then some (self, out :: others)
      else do
        let perCh := n / ch
        let (node, samples) ←
          (List.range perCh).foldlM (atMoment std inp.samples ch perCh) (self, out.samples)
        return (node, { out with samples := samples } :: others)
  | _, outFrames => some (self, outFrames)

end PhaserNode

/-! ### A row of stages -/

section Cascade

variable {K : Type} [Field K]

/-- **A sample through a row of stages**, with the coefficient of the moment. -/
def cascade : List (AllpassStage K) → K × K → List (AllpassStage K) × K
  | [], (_, wet) => ([], wet)
  | stage :: stages, (a, wet) =>
      let y := -a * wet + stage.xm1 + a * stage.ym1
      let (stages, out) := cascade stages (a, y)
      (⟨wet, y⟩ :: stages, out)

theorem length_cascade (stages : List (AllpassStage K)) (p : K × K) :
    (cascade stages p).1.length = stages.length := by
  induction stages generalizing p with
  | nil => rfl
  | cons stage stages ih => exact congrArg (· + 1) (ih _)

/-- **The loop over the stages of a channel.** -/
theorem foldlM_atStage (a : K) (base : ℕ) (stages after : List (AllpassStage K)) (wet : K)
    (before : List (AllpassStage K)) (k : ℕ) (hk : before.length = base + k) :
    (List.range' k stages.length).foldlM (PhaserNode.atStage a base)
        (before ++ (stages ++ after), wet) =
      some (before ++ ((cascade stages (a, wet)).1 ++ after), (cascade stages (a, wet)).2) := by
  induction stages generalizing wet before k with
  | nil => rfl
  | cons stage stages ih =>
    have hget : (before ++ (stage :: stages ++ after))[base + k]? = some stage := by
      rw [← hk, List.getElem?_append_right (Nat.le_refl _), Nat.sub_self]
      rfl
    have hset : ∀ s : AllpassStage K, (before ++ (stage :: stages ++ after)).set (base + k) s =
        (before ++ [s]) ++ (stages ++ after) := fun s => by
      rw [← hk, List.set_append_right _ _ (Nat.le_refl _), Nat.sub_self, List.append_assoc]
      rfl
    rw [List.length_cons, List.range'_succ, List.foldlM_cons]
    simp only [PhaserNode.atStage, hget, store_of_getElem? hget, hset, Option.bind_eq_bind,
      Option.bind_some, Option.pure_def]
    rw [ih _ (before ++ [_]) (k + 1) (by rw [List.length_append, hk]; rfl), List.append_assoc]
    rfl

/-- **A sample of a channel**: with what comes back it goes through the stages of the channel. -/
theorem PhaserNode.processSample_eq [LinearOrder K] {self : PhaserNode K} {ch : ℕ}
    {before stages after : List (AllpassStage K)} {last : K}
    (hstages : self.stages = before ++ (stages ++ after))
    (hbefore : before.length = ch * self.numStages) (hlen : stages.length = self.numStages)
    (hlast : self.feedbackState[ch]? = some last) (x a : K) :
    let row := cascade stages (a, x + last * self.feedback)
    self.processSample x ch a =
      some ({ self with
        stages := before ++ (row.1 ++ after)
        feedbackState := self.feedbackState.set ch row.2 },
        x * (1 - self.mix) + row.2 * self.mix) := by
  intro row
  have hloop := foldlM_atStage a (ch * self.numStages) stages after (x + last * self.feedback)
    before 0 hbefore
  rw [← List.range_eq_range', hlen, ← hstages] at hloop
  simp only [processSample, hlast, hloop, store_of_getElem? hlast, Option.bind_eq_bind,
    Option.bind_some, Option.pure_def]
  rfl

variable [LinearOrder K] [IsStrictOrderedRing K] {r M : K}

/-- What a stage with coefficients up to `r` can make of its input. -/
def stageGain (r : K) : K := (1 + r) / (1 - r)

/-- The stages of a row whose input is bounded by `M`. -/
def Tame (r : K) : K → List (AllpassStage K) → Prop
  | _, [] => True
  | M, stage :: stages =>
      |stage.xm1| ≤ M ∧ |stage.ym1| ≤ M * stageGain r ∧ Tame r (M * stageGain r) stages

theorem tame_silent (hr0 : 0 ≤ r) (hr1 : r < 1) (hM : 0 ≤ M) (ns : ℕ) :
    Tame r M (List.replicate ns ⟨0, 0⟩) := by
  induction ns generalizing M with
  | zero => trivial
  | succ ns ih =>
    have hgain : 0 ≤ M * stageGain r :=
      mul_nonneg hM (div_nonneg (by linarith) (by linarith))
    exact ⟨abs_zero.trans_le hM, abs_zero.trans_le hgain, ih hgain⟩

/-- **One sample**: the bounds are kept, and the last one holds for the output. -/
theorem Tame.cascade {stages : List (AllpassStage K)} (h : Tame r M stages) (hr1 : r < 1)
    {a wet : K} (ha : |a| ≤ r) (hwet : |wet| ≤ M) :
    Tame r M (cascade stages (a, wet)).1 ∧
      |(SonicBrew.cascade stages (a, wet)).2| ≤ M * stageGain r ^ stages.length := by
  induction stages generalizing M wet with
  | nil => exact ⟨trivial, by rwa [List.length_nil, pow_zero, mul_one]⟩
  | cons stage stages ih =>
    obtain ⟨hx, hy, hrest⟩ := h
    have hr0 : 0 ≤ r := (abs_nonneg a).trans ha
    have hM : 0 ≤ M := (abs_nonneg wet).trans hwet
    have hout : |-a * wet + stage.xm1 + a * stage.ym1| ≤ M * stageGain r :=
      calc |-a * wet + stage.xm1 + a * stage.ym1|
          ≤ |-a * wet| + |stage.xm1| + |a * stage.ym1| := abs_add_three _ _ _
        _ = |a| * |wet| + |stage.xm1| + |a| * |stage.ym1| := by
          rw [neg_mul, abs_neg, abs_mul, abs_mul]
        _ ≤ r * M + M + r * (M * stageGain r) :=
          add_le_add (add_le_add (mul_le_mul ha hwet (abs_nonneg _) hr0) hx)
            (mul_le_mul ha hy (abs_nonneg _) hr0)
        _ = M * (1 + r) + r * (M * (1 + r) / (1 - r)) := by
          rw [stageGain]
          ring
        _ = M * stageGain r := by rw [add_mul_div_one_sub hr1, stageGain, mul_div_assoc]
    obtain ⟨htame, hlast⟩ := ih hrest hout
    refine ⟨⟨hwet, hout, htame⟩, hlast.trans_eq ?_⟩
    rw [List.length_cons, pow_succ', mul_assoc]

/-- **A row of stages cannot diverge** while the coefficients stay away from one, however they
move. -/
theorem abs_cascade_le (hr1 : r < 1) (ns : ℕ) {x : ℕ → K × K} (ha : ∀ n, |(x n).1| ≤ r)
    (hx : ∀ n, |(x n).2| ≤ M) (n : ℕ) :
    |response cascade (List.replicate ns ⟨0, 0⟩) x n| ≤ M * stageGain r ^ ns := by
  have hr0 : 0 ≤ r := (abs_nonneg _).trans (ha 0)
  have hM : 0 ≤ M := (abs_nonneg _).trans (hx 0)
  have hrun : ∀ n, Tame r M (trajectory cascade (List.replicate ns ⟨0, 0⟩) x n) ∧
      (trajectory cascade (List.replicate ns ⟨0, 0⟩) x n).length = ns := by
    intro n
    induction n with
    | zero => exact ⟨tame_silent hr0 hr1 hM ns, List.length_replicate⟩
    | succ n ih =>
      exact ⟨(ih.1.cascade hr1 (ha n) (hx n)).1, (length_cascade _ _).trans ih.2⟩
  obtain ⟨htame, hlen⟩ := hrun n
  have hout := (htame.cascade hr1 (ha n) (hx n)).2
  rwa [hlen] at hout

end Cascade

/-! ### Runs -/

namespace PhaserNode

section Runs

variable {K : Type} [Field K] [LinearOrder K] {origin node : PhaserNode K} {limit : ℕ}

/-- **A node in the middle of a run**: there is a row of stages for each channel, and all that the
constructor has set is as it was. -/
structure Running (origin : PhaserNode K) (limit : ℕ) (node : PhaserNode K) : Prop where
  stages_length : node.stages.length = limit * node.numStages
  feedbackState_length : node.feedbackState.length = limit
  parameters : node = { origin with
    stages := node.stages, feedbackState := node.feedbackState, lfoPhase := node.lfoPhase }

theorem running_new {std : Elementary K} {rateHz baseFreq depth feedback mix : K} {stages : ℕ}
    {sampleRate : UInt32} {channels : UInt16}
    (h : new std rateHz baseFreq depth feedback mix stages sampleRate channels = some node) :
    Running node (max channels 1).toNat node := by
  rw [new] at h
  split at h
  · obtain rfl := Option.some.inj h
    exact ⟨List.length_replicate, List.length_replicate, rfl⟩
  · cases h

omit [Field K] [LinearOrder K] in
/-- What a run may change. -/
theorem Running.update (h : Running origin limit node) {stages : List (AllpassStage K)}
    {feedbackState : List K} (hstages : stages.length = node.stages.length)
    (hfeedback : feedbackState.length = node.feedbackState.length) (lfoPhase : K) :
    Running origin limit { node with
      stages := stages, feedbackState := feedbackState, lfoPhase := lfoPhase } where
  stages_length := hstages.trans h.stages_length
  feedbackState_length := hfeedback.trans h.feedbackState_length
  parameters := congrArg (fun n : PhaserNode K => { n with
    stages := stages, feedbackState := feedbackState, lfoPhase := lfoPhase }) h.parameters

/-- **One sample**: the stages of the channel are there. -/
theorem Running.processSample (h : Running origin limit node) {ch : ℕ} (hch : ch < limit)
    (x a : K) :
    ∃ node' y, node.processSample x ch a = some (node', y) ∧ Running origin limit node' := by
  have hfit : ch * node.numStages + node.numStages ≤ node.stages.length := by
    rw [h.stages_length, ← Nat.succ_mul]
    exact Nat.mul_le_mul_right _ hch
  -- the stages of the channel, and those of the channels before and behind it
  generalize hbefore : node.stages.take (ch * node.numStages) = before
  generalize hrow : (node.stages.drop (ch * node.numStages)).take node.numStages = row
  generalize hafter : (node.stages.drop (ch * node.numStages)).drop node.numStages = after
  have hstages : node.stages = before ++ (row ++ after) := by
    rw [← hbefore, ← hrow, ← hafter, List.take_append_drop, List.take_append_drop]
  have hbeforeLen : before.length = ch * node.numStages := by
    rw [← hbefore, List.length_take]
    omega
  have hrowLen : row.length = node.numStages := by
    rw [← hrow, List.length_take, List.length_drop]
    omega
  obtain ⟨last, hlast⟩ : ∃ last, node.feedbackState[ch]? = some last :=
    ⟨_, List.getElem?_eq_getElem (h.feedbackState_length.symm ▸ hch)⟩
  refine ⟨_, _, processSample_eq hstages hbeforeLen hrowLen hlast x a,
    h.update ?_ List.length_set node.lfoPhase⟩
  rw [hstages]
  simp only [List.length_append, length_cascade]

section Loops

variable {inp : List K} {ch perCh i : ℕ} {p : PhaserNode K × List K}

/-- **One sample of all channels**: no index is out of range. -/
theorem Running.atMoment (h : Running origin limit p.1) (std : Elementary K) (hch : ch ≤ limit)
    (hi : i < perCh) (hinp : ch * perCh ≤ inp.length) (hout : ch * perCh ≤ p.2.length) :
    ∃ p', atMoment std inp ch perCh p i = some p' ∧ Running origin limit p'.1 ∧
      p'.2.length = p.2.length := by
  generalize ha : p.1.allpassCoef std = a
  obtain ⟨⟨node, out⟩, hloop, hrunning, hlen⟩ : ∃ p',
      (List.range ch).foldlM (atSample inp perCh i a) p = some p' ∧
        Running origin limit p'.1 ∧ p'.2.length = p.2.length := by
    refine foldlM_range_of_invariant
      (fun _ (q : PhaserNode K × List K) =>
        Running origin limit q.1 ∧ q.2.length = p.2.length) (fun c q hc hq => ?_) ⟨h, rfl⟩
    have hidx : c * perCh + i < ch * perCh := mul_add_lt_mul hc hi
    obtain ⟨x, hx⟩ : ∃ x, inp[c * perCh + i]? = some x :=
      ⟨_, List.getElem?_eq_getElem (hidx.trans_le hinp)⟩
    obtain ⟨old, hold⟩ : ∃ old, q.2[c * perCh + i]? = some old :=
      ⟨_, List.getElem?_eq_getElem (hq.2.symm ▸ hidx.trans_le hout)⟩
    obtain ⟨node, y, hsample, hrunning⟩ := hq.1.processSample (hc.trans_le hch) x a
    refine ⟨(node, q.2.set (c * perCh + i) y), ?_, hrunning, List.length_set.trans hq.2⟩
    simp only [atSample, hx, hsample, store_of_getElem? hold, Option.bind_eq_bind,
      Option.bind_some, Option.pure_def]
  refine ⟨(node.advance std, out), ?_, hrunning.update rfl rfl _, hlen⟩
  simp only [PhaserNode.atMoment, ha, hloop, Option.bind_eq_bind, Option.bind_some,
    Option.pure_def]

end Loops

/-- **One call**: no index is out of range. -/
theorem Running.process (h : Running origin limit node) (std : Elementary K)
    {call : ProcessCall K} (hfit : call.channels ≤ limit) :
    ∃ node' outs, node.process std call = some (node', outs) ∧ Running origin limit node' := by
  obtain ⟨inFrames, outFrames⟩ := call
  cases inFrames with
  | nil => exact ⟨node, outFrames, rfl, h⟩
  | cons inp ins =>
    cases outFrames with
    | nil => exact ⟨node, [], rfl, h⟩
    | cons out others =>
      rw [PhaserNode.process]
      dsimp only
      generalize hn : min inp.samples.length out.samples.length = n
      split
      · exact ⟨node, out :: others, rfl, h⟩
      · have hroom : inp.channels.toNat * (n / inp.channels.toNat) ≤ n := Nat.mul_div_le _ _
        generalize n / inp.channels.toNat = perCh at hroom
        have hinp : inp.channels.toNat * perCh ≤ inp.samples.length := by omega
        have hout : inp.channels.toNat * perCh ≤ out.samples.length := by omega
        obtain ⟨⟨node', samples⟩, hloop, hrunning, -⟩ : ∃ p',
            (List.range perCh).foldlM (PhaserNode.atMoment std inp.samples inp.channels.toNat perCh)
              (node, out.samples) = some p' ∧
            Running origin limit p'.1 ∧ p'.2.length = out.samples.length := by
          refine foldlM_range_of_invariant
            (fun _ (p : PhaserNode K × List K) =>
              Running origin limit p.1 ∧ p.2.length = out.samples.length)
            (fun i p hi hp => ?_) ⟨h, rfl⟩
          obtain ⟨p', hstep, hrunning, hlen⟩ :=
            hp.1.atMoment std hfit hi hinp (hout.trans_eq hp.2.symm)
          exact ⟨p', hstep, hrunning, hlen.trans hp.2⟩
        rw [hloop]
        exact ⟨node', _, rfl, hrunning⟩

/-- **All calls**: a node runs for as long as it is called, and with the parameters that it was made
with, so that its coefficients are those of the constructor at whatever phase it has reached. -/
theorem processAll_running {std : Elementary K} {rateHz baseFreq depth feedback mix : K}
    {stages : ℕ} {sampleRate : UInt32} {channels : UInt16}
    (hnew : new std rateHz baseFreq depth feedback mix stages sampleRate channels = some node)
    {calls : List (ProcessCall K)}
    (hfit : ∀ call ∈ calls, call.channels ≤ (max channels 1).toNat) :
    ∃ node' outs, runAll (PhaserNode.process std) node calls = some (node', outs) ∧
      node'.allpassCoef std = allpassCoef std { node with lfoPhase := node'.lfoPhase } := by
  obtain ⟨node', _, outs, hrun, -, h'⟩ :=
    runAll_of_simulates (fun (_ : Unit) _ _ _ => True)
      (R := fun node' _ => Running node (max channels 1).toNat node') (t := ())
      (P := fun call : ProcessCall K => call.channels ≤ (max channels 1).toNat)
      (fun h hfit => by
        obtain ⟨node', outs, hstep, h'⟩ := h.process std hfit
        exact ⟨node', (), outs, hstep, trivial, h'⟩) (running_new hnew) hfit
  refine ⟨node', outs, hrun, ?_⟩
  rw [h'.parameters]
  rfl

end Runs

end PhaserNode

/-! ### The coefficient -/

/-- **The tangent of half an angle is below one** for the angles below a right one. -/
theorem abs_sin_div_lt_one_iff {w : ℝ} (h0 : 0 < w) (h1 : w < Real.pi) :
    |Real.sin w / (1 + Real.cos w)| < 1 ↔ w < Real.pi / 2 := by
  have hsin := Real.sin_pos_of_pos_of_lt_pi h0 h1
  have hsq := Real.sin_sq_add_cos_sq w
  have hcos : 0 < 1 + Real.cos w := by nlinarith [Real.neg_one_le_cos w]
  rw [abs_of_pos (div_pos hsin hcos), div_lt_one hcos]
  constructor
  · intro h
    refine lt_of_not_ge fun hge => ?_
    have hneg := Real.cos_nonpos_of_pi_div_two_le_of_le hge (by linarith)
    nlinarith
  · intro h
    have hpos := Real.cos_pos_of_mem_Ioo ⟨by linarith, h⟩
    linarith [Real.sin_le_one w]

/-- Below an angle that is less than a right one it is bounded away from one. -/
theorem abs_sin_div_le {w u : ℝ} (h0 : 0 < w) (hle : w ≤ u) (hu : u < Real.pi / 2) :
    |Real.sin w / (1 + Real.cos w)| ≤ 1 / (1 + Real.cos u) := by
  have hpi := Real.pi_pos
  have hcosu := Real.cos_pos_of_mem_Ioo ⟨by linarith, hu⟩
  have hcos : Real.cos u ≤ Real.cos w :=
    Real.cos_le_cos_of_nonneg_of_le_pi h0.le (by linarith) hle
  rw [abs_of_pos (div_pos (Real.sin_pos_of_pos_of_lt_pi h0 (by linarith)) (by linarith))]
  exact div_le_div₀ zero_le_one (Real.sin_le_one w) (by linarith) (by linarith)

namespace PhaserNode

/-- The coefficient at a phase of the oscillator. -/
noncomputable def coefAt (node : PhaserNode ℝ) (phase : ℝ) : ℝ :=
  allpassCoef .real { node with lfoPhase := phase }

/-- **The stages of a channel cannot diverge**: for every bound on the input there is one on the
output, whatever phases the oscillator goes through. -/
def CascadeBounded (node : PhaserNode ℝ) : Prop :=
  ∀ M, ∃ C, ∀ phase x : ℕ → ℝ, (∀ n, |x n| ≤ M) → ∀ n,
    |response cascade (List.replicate node.numStages ⟨0, 0⟩)
      (fun n => (node.coefAt (phase n), x n)) n| ≤ C

/-- The frequency of the stages, as an angle. -/
noncomputable def angleAt (node : PhaserNode ℝ) (phase : ℝ) : ℝ :=
  twoPi .real * (node.baseFreq * (1 + node.depth * (0.5 + 0.5 * Real.sin phase))) / node.sampleRate

theorem angleAt_eq (node : PhaserNode ℝ) (phase : ℝ) :
    node.angleAt phase =
      2 * Real.pi * (node.baseFreq * (1 + node.depth * (0.5 + 0.5 * Real.sin phase))) /
        node.sampleRate := by
  have htwo : twoPi .real = 2 * Real.pi := by
    show (2.0 : ℝ) * Real.pi = 2 * Real.pi
    norm_num
  rw [angleAt, htwo]

theorem coefAt_eq (node : PhaserNode ℝ) (phase : ℝ) :
    node.coefAt phase =
      Real.sin (node.angleAt phase) / (1 + Real.cos (node.angleAt phase)) := rfl

/-- What the constructor makes sure of. -/
structure Clamped (node : PhaserNode ℝ) : Prop where
  rate_pos : 0 < node.sampleRate
  base_pos : 0 < node.baseFreq
  base_le : node.baseFreq ≤ node.sampleRate * 0.24
  depth_nonneg : 0 ≤ node.depth
  depth_le : node.depth ≤ 1

section Clamped

variable {node : PhaserNode ℝ}

/-- The highest frequency is that of the depth, at the top of the oscillator. -/
theorem Clamped.angleAt_mem (h : node.Clamped) (phase : ℝ) :
    0 < node.angleAt phase ∧ node.angleAt phase < Real.pi ∧
      node.angleAt phase ≤ node.angleAt (Real.pi / 2) := by
  obtain ⟨hrate, hbase, hle, hdepth, hdepth'⟩ := h
  have hpi := Real.pi_pos
  have hlow := Real.neg_one_le_sin phase
  have hhigh := Real.sin_le_one phase
  -- the factor of the frequency is between one and two
  have hone : 1 ≤ 1 + node.depth * (0.5 + 0.5 * Real.sin phase) := by nlinarith
  have htop : 1 + node.depth * (0.5 + 0.5 * Real.sin phase) ≤ 1 + node.depth := by nlinarith
  refine ⟨?_, ?_, ?_⟩
  · rw [angleAt_eq]
    positivity
  · rw [angleAt_eq, div_lt_iff₀ hrate]
    have hfreq : node.baseFreq * (1 + node.depth * (0.5 + 0.5 * Real.sin phase)) ≤
        node.sampleRate * 0.24 * 2 :=
      mul_le_mul hle (by linarith) (by linarith) (by positivity)
    nlinarith
  · rw [angleAt_eq, angleAt_eq, Real.sin_pi_div_two, show (0.5 + 0.5 * 1 : ℝ) = 1 by norm_num,
      mul_one]
    gcongr

/-- **All coefficients are below one, and no row of stages diverges, exactly if** the highest
frequency is below a quarter of the sample rate. -/
theorem Clamped.stable_iff (h : node.Clamped) :
    ((∀ phase, |node.coefAt phase| < 1) ∧ node.CascadeBounded) ↔
      node.baseFreq * (1 + node.depth) < node.sampleRate / 4 := by
  have hpi := Real.pi_pos
  have hpeak : node.angleAt (Real.pi / 2) < Real.pi / 2 ↔
      node.baseFreq * (1 + node.depth) < node.sampleRate / 4 := by
    rw [angleAt_eq, Real.sin_pi_div_two, show (0.5 + 0.5 * 1 : ℝ) = 1 by norm_num, mul_one,
      div_lt_iff₀ h.rate_pos]
    constructor
    · intro hlt
      nlinarith
    · intro hlt
      nlinarith
  rw [← hpeak]
  constructor
  · rintro ⟨hcoef, -⟩
    obtain ⟨hpos, hlt, -⟩ := h.angleAt_mem (Real.pi / 2)
    have htop := hcoef (Real.pi / 2)
    rw [coefAt_eq] at htop
    exact (abs_sin_div_lt_one_iff hpos hlt).mp htop
  · intro hlt
    refine ⟨fun phase => ?_, fun M => ?_⟩
    · obtain ⟨hpos, hlt', hle⟩ := h.angleAt_mem phase
      rw [coefAt_eq]
      exact (abs_sin_div_lt_one_iff hpos hlt').mpr (hle.trans_lt hlt)
    · have hcos : 0 < Real.cos (node.angleAt (Real.pi / 2)) :=
        Real.cos_pos_of_mem_Ioo ⟨by linarith [(h.angleAt_mem (Real.pi / 2)).1], hlt⟩
      have hr1 : 1 / (1 + Real.cos (node.angleAt (Real.pi / 2))) < 1 :=
        (div_lt_one (by linarith)).mpr (by linarith)
      refine ⟨_, fun phase x hx n => abs_cascade_le hr1 node.numStages (fun m => ?_) hx n⟩
      obtain ⟨hpos, -, hle⟩ := h.angleAt_mem (phase m)
      rw [coefAt_eq]
      exact abs_sin_div_le hpos hle hlt

end Clamped

/-- **The phaser is stable exactly if** its highest frequency, after the clamping, is below a
quarter of the sample rate. -/
theorem sweep_stable_iff (rateHz baseFreq depth feedback mix : ℝ) (stages : ℕ) {sampleRate : UInt32}
    (hrate : 48000 ≤ sampleRate) (channels : UInt16) :
    (∃ node, new .real rateHz baseFreq depth feedback mix stages sampleRate channels = some node ∧
      (∀ phase, |node.coefAt phase| < 1) ∧ node.CascadeBounded) ↔
      clamp baseFreq 10 (sampleRate.toNat * 0.24) * (1 + clamp depth 0 1) <
        sampleRate.toNat / 4 := by
  have hsr : (48000 : ℝ) ≤ sampleRate.toNat := by
    exact_mod_cast UInt32.le_iff_toNat_le.mp hrate
  have hten : (10.0 : ℝ) = 10 := by norm_num
  have hlimit : (10 : ℝ) ≤ sampleRate.toNat * 0.24 := by linarith
  obtain ⟨node, hnode, hrate', hbase, hdepth⟩ :
      ∃ node, new .real rateHz baseFreq depth feedback mix stages sampleRate channels = some node ∧
        node.sampleRate = sampleRate.toNat ∧
        node.baseFreq = clamp baseFreq 10 (sampleRate.toNat * 0.24) ∧
        node.depth = clamp depth 0 1 :=
    ⟨_, if_pos (hten.trans_le hlimit), rfl, congrArg (clamp baseFreq · _) hten, rfl⟩
  have hclamped : node.Clamped := by
    refine ⟨?_, ?_, ?_, ?_, ?_⟩
    · rw [hrate']
      linarith
    · rw [hbase]
      exact lt_of_lt_of_le (by norm_num) (le_clamp _ _ _)
    · rw [hbase, hrate']
      exact clamp_le hlimit _
    · rw [hdepth]
      exact le_clamp _ _ _
    · rw [hdepth]
      exact clamp_le zero_le_one _
  rw [← hbase, ← hdepth, ← hrate', ← hclamped.stable_iff]
  constructor
  · rintro ⟨node', hnode', hstable⟩
    rwa [Option.some.inj (hnode.symm.trans hnode')]
  · exact fun hstable => ⟨node, hnode, hstable⟩

/-- The frequency and the depth that the server uses if none are given. -/
theorem sweep_stable_iff_default :
    (48000 : UInt32) ≤ 48000 ∧
      ∃ node, new .real 0.5 800 0.5 0.3 0.5 4 48000 2 = some node ∧
        (∀ phase, |node.coefAt phase| < 1) ∧ node.CascadeBounded := by
  have hrate : (48000 : UInt32) ≤ 48000 := by decide
  refine ⟨hrate, (sweep_stable_iff 0.5 800 0.5 0.3 0.5 4 hrate 2).mpr ?_⟩
  rw [show (48000 : UInt32).toNat = 48000 from rfl]
  norm_num [clamp]

/-- **A base frequency of 8 kHz and full depth**: at the top of the oscillator the coefficient is
the root of three. -/
theorem coefAt_eq_sqrt_three :
    ∃ node, new .real 0.5 8000 1 0.3 0.5 4 48000 2 = some node ∧
      node.coefAt (Real.pi / 2) = Real.sqrt 3 ∧ ¬|node.coefAt (Real.pi / 2)| < 1 := by
  have hrate : ((48000 : UInt32).toNat : ℝ) = 48000 := by
    rw [show (48000 : UInt32).toNat = 48000 from rfl]
    norm_num
  obtain ⟨node, hnode, hsr, hbase, hdepth⟩ :
      ∃ node, new .real 0.5 8000 1 0.3 0.5 4 48000 2 = some node ∧ node.sampleRate = 48000 ∧
        node.baseFreq = 8000 ∧ node.depth = 1 := by
    refine ⟨_, if_pos ?_, hrate, ?_, ?_⟩
    · rw [hrate]
      norm_num
    · rw [hrate]
      norm_num [clamp]
    · norm_num [clamp]
  have hangle : node.angleAt (Real.pi / 2) = Real.pi - Real.pi / 3 := by
    rw [angleAt_eq, hsr, hbase, hdepth, Real.sin_pi_div_two]
    ring
  have hcoef : node.coefAt (Real.pi / 2) = Real.sqrt 3 := by
    rw [coefAt_eq, hangle, Real.sin_pi_sub, Real.cos_pi_sub, Real.sin_pi_div_three,
      Real.cos_pi_div_three]
    ring
  refine ⟨node, hnode, hcoef, ?_⟩
  rw [hcoef, abs_of_nonneg (Real.sqrt_nonneg 3), not_lt, Real.one_le_sqrt]
  norm_num

end PhaserNode

end SonicBrew
