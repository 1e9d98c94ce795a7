import Mathlib.Analysis.SpecialFunctions.Pow.Real
import Mathlib.Analysis.SpecialFunctions.Trigonometric.Basic
import SonicBrew.AudioEngine.Eq

/-!
# The formulas of the equaliser

The coefficients of `SonicBrew.EqNode` over the real numbers.

The denominator of each of the six filters has the same form: two of its coefficients are a middle
plus and minus a spread, and the spread has the sign of the sine of the frequency
(`SonicBrew.FilterType.middle`, `SonicBrew.FilterType.spread`). So the filter is stable exactly if
the sine is positive, that is for frequencies below half of the sample rate, but not for those above
(`SonicBrew.EqNode.biquad_stable_iff`). Nothing keeps the server from building one of these.

A gain and its opposite should cancel. A peak and a notch do. The shelves have the square root of
the *square* of the amplitude where the cookbook has the square root of the amplitude, and do not
(`SonicBrew.computeCoeffs_cancels_iff`).
-/

namespace SonicBrew

open Machine

/-- The functions on the real numbers. -/
noncomputable def Elementary.real : Elementary ℝ where
  pi := Real.pi
  sin := Real.sin
  cos := Real.cos
  exp := Real.exp
  sqrt := Real.sqrt
  powf := fun x y => x ^ y

/-- The amplitude of a gain in decibels, as the cookbook has it. -/
noncomputable def amplitude (gainDb : ℝ) : ℝ := gainAmplitude .real gainDb

theorem amplitude_eq (gainDb : ℝ) : amplitude gainDb = 10 ^ (gainDb / 40) := rfl

theorem amplitude_pos (gainDb : ℝ) : 0 < amplitude gainDb := Real.rpow_pos_of_pos (by norm_num) _

theorem amplitude_neg (gainDb : ℝ) : amplitude (-gainDb) = (amplitude gainDb)⁻¹ := by
  rw [amplitude_eq, neg_div, Real.rpow_neg (by norm_num), amplitude_eq]

theorem amplitude_eq_one_iff {gainDb : ℝ} : amplitude gainDb = 1 ↔ gainDb = 0 := by
  constructor
  · intro h
    have hlog := congrArg Real.log h
    rw [amplitude_eq, Real.log_rpow (by norm_num), Real.log_one, mul_eq_zero] at hlog
    have hten : Real.log 10 ≠ 0 := (Real.log_pos (by norm_num)).ne'
    linarith [hlog.resolve_right hten]
  · rintro rfl
    rw [amplitude_eq, zero_div, Real.rpow_zero]

/-- The angle of a frequency. -/
noncomputable def angle (freq : ℝ) (sampleRate : UInt32) : ℝ := angularFreq .real freq sampleRate

theorem angle_eq (freq : ℝ) (sampleRate : UInt32) :
    angle freq sampleRate = 2 * Real.pi * freq / sampleRate.toNat := rfl

/-- **The coefficients over the real numbers.** The square root of the square is the amplitude. -/
theorem computeCoeffs_real (ft : FilterType) (freq gainDb q : ℝ) (sampleRate : UInt32) :
    computeCoeffs .real ft freq gainDb q sampleRate =
      let raw := rawCoeffs ft (Real.cos (angle freq sampleRate))
        (Real.sin (angle freq sampleRate) / (2 * q)) (amplitude gainDb) (amplitude gainDb)
      if (sampleRate.toNat : ℝ) = 0 ∨ q = 0 ∨ raw.a0 = 0 then none else some raw.normalise := by
  have hsqrt : Real.sqrt (amplitude gainDb * amplitude gainDb) = amplitude gainDb :=
    Real.sqrt_mul_self (amplitude_pos gainDb).le
  rw [computeCoeffs, show Elementary.real.sqrt (gainAmplitude .real gainDb *
    gainAmplitude .real gainDb) = amplitude gainDb from hsqrt]
  rfl

/-! ### Stability -/

/-- **Stable**: inside the triangle, with both poles in the unit circle. -/
def Coeffs.Stable (c : Coeffs ℝ) : Prop := |c.a2| < 1 ∧ |c.a1| < 1 + c.a2

/-- A denominator whose outer coefficients are a middle plus and minus a spread. -/
theorem RawCoeffs.stable_iff {r : RawCoeffs ℝ} {m d : ℝ} (ha0 : r.a0 = m + d) (ha2 : r.a2 = m - d)
    (hm : 0 < m) (hne : r.a0 ≠ 0) : r.normalise.Stable ↔ 0 < d ∧ |r.a1| < 2 * m := by
  rw [ha0] at hne
  have hspread : |(m - d) / (m + d)| < 1 ↔ 0 < d := by
    rw [abs_div, div_lt_one (abs_pos.mpr hne), ← sq_lt_sq]
    constructor
    · intro h
      nlinarith
    · intro h
      nlinarith
  rw [Coeffs.Stable, normalise, ha0, ha2]
  refine and_congr_right_iff.mpr (fun h => ?_) |>.trans (and_congr_left_iff.mpr fun _ => hspread)
  have hpos : 0 < m + d := add_pos hm (hspread.mp h)
  have hsum : 1 + (m - d) / (m + d) = 2 * m / (m + d) := by
    field_simp
    ring
  rw [abs_div, abs_of_pos hpos, hsum, div_lt_div_iff_of_pos_right hpos]

namespace FilterType

/-- The middle of the outer coefficients. -/
def middle (ft : FilterType) (cos a : ℝ) : ℝ :=
  match ft with
  | .lowShelf => (a + 1) + (a - 1) * cos
  | .highShelf => (a + 1) - (a - 1) * cos
  | _ => 1

/-- How far they are from it. -/
noncomputable def spread (ft : FilterType) (alpha a : ℝ) : ℝ :=
  match ft with
  | .peaking => alpha / a
  | .lowShelf | .highShelf => (a + a) * alpha
  | _ => alpha

variable {cos alpha a : ℝ}

theorem rawCoeffs_a0 (ft : FilterType) :
    (rawCoeffs ft cos alpha a a).a0 = ft.middle cos a + ft.spread alpha a := by
  cases ft with
  | lowShelf | highShelf =>
    simp only [rawCoeffs, middle, spread]
    ring
  | lowPass | highPass | bandPass | peaking => rfl

theorem rawCoeffs_a2 (ft : FilterType) :
    (rawCoeffs ft cos alpha a a).a2 = ft.middle cos a - ft.spread alpha a := by
  cases ft with
  | lowShelf | highShelf =>
    simp only [rawCoeffs, middle, spread]
    ring
  | lowPass | highPass | bandPass | peaking => rfl

/-- A weight and the opposite weight are not both zero. -/
theorem weights_pos {t : ℝ} (ha : 0 < a) (hlow : -1 ≤ t) (hhigh : t ≤ 1) :
    0 < a * (1 + t) + (1 - t) := by
  rcases hhigh.lt_or_eq with hlt | rfl
  · have hnonneg : 0 ≤ a * (1 + t) := mul_nonneg ha.le (by linarith)
    linarith
  · linarith

theorem middle_pos (ft : FilterType) (ha : 0 < a) (hlow : -1 ≤ cos) (hhigh : cos ≤ 1) :
    0 < ft.middle cos a := by
  cases ft with
  | lowShelf => exact (weights_pos ha hlow hhigh).trans_eq (by rw [middle]; ring)
  | highShelf =>
    exact (weights_pos (t := -cos) ha (by linarith) (by linarith)).trans_eq (by rw [middle]; ring)
  | lowPass | highPass | bandPass | peaking => exact one_pos

theorem spread_pos_iff (ft : FilterType) (ha : 0 < a) : 0 < ft.spread alpha a ↔ 0 < alpha := by
  cases ft <;> simp only [spread]
  · exact div_pos_iff_of_pos_right ha
  · exact mul_pos_iff_of_pos_left (by linarith)
  · exact mul_pos_iff_of_pos_left (by linarith)

theorem abs_a1_lt (ft : FilterType) (ha : 0 < a) (hlow : -1 < cos) (hhigh : cos < 1) :
    |(rawCoeffs ft cos alpha a a).a1| < 2 * ft.middle cos a := by
  cases ft <;> simp only [rawCoeffs, middle] <;> rw [abs_lt] <;> constructor <;> nlinarith

end FilterType

/-- **A filter is stable exactly if the sine of its frequency is positive.** -/
theorem rawCoeffs_stable_iff (ft : FilterType) {w a q : ℝ} (ha : 0 < a) (hq : 0 < q)
    (hne : (rawCoeffs ft (Real.cos w) (Real.sin w / (2 * q)) a a).a0 ≠ 0) :
    (rawCoeffs ft (Real.cos w) (Real.sin w / (2 * q)) a a).normalise.Stable ↔ 0 < Real.sin w := by
  have hmiddle := ft.middle_pos ha (Real.neg_one_le_cos w) (Real.cos_le_one w)
  have hspread : 0 < ft.spread (Real.sin w / (2 * q)) a ↔ 0 < Real.sin w :=
    (ft.spread_pos_iff ha).trans (div_pos_iff_of_pos_right (by linarith))
  rw [RawCoeffs.stable_iff ft.rawCoeffs_a0 ft.rawCoeffs_a2 hmiddle hne, hspread]
  refine and_iff_left_of_imp fun hsin => ft.abs_a1_lt ha ?_ ?_
  all_goals nlinarith [Real.sin_sq_add_cos_sq w]

/-- With a positive sine there is nothing to divide by zero. -/
theorem rawCoeffs_a0_ne_zero (ft : FilterType) {w a q : ℝ} (ha : 0 < a) (hq : 0 < q)
    (hsin : 0 < Real.sin w) :
    (rawCoeffs ft (Real.cos w) (Real.sin w / (2 * q)) a a).a0 ≠ 0 := by
  rw [ft.rawCoeffs_a0]
  exact (add_pos (ft.middle_pos ha (Real.neg_one_le_cos w) (Real.cos_le_one w))
    ((ft.spread_pos_iff ha).mpr (div_pos hsin (by linarith)))).ne'

/-- **Where the sine is positive**: in the first half of every turn. -/
theorem sin_pos_iff {x : ℝ} (hx : 0 < x) :
    0 < Real.sin x ↔ ∃ k : ℕ, k * (2 * Real.pi) < x ∧ x < k * (2 * Real.pi) + Real.pi := by
  have hpi := Real.pi_pos
  constructor
  · intro hsin
    -- the whole turns
    have hle : (⌊x / (2 * Real.pi)⌋₊ : ℝ) * (2 * Real.pi) ≤ x :=
      (le_div_iff₀ (by positivity)).mp (Nat.floor_le (by positivity))
    have hlt : x < (⌊x / (2 * Real.pi)⌋₊ + 1) * (2 * Real.pi) :=
      (div_lt_iff₀ (by positivity)).mp (Nat.lt_floor_add_one _)
    refine ⟨⌊x / (2 * Real.pi)⌋₊, ?_, ?_⟩
    all_goals
      generalize ⌊x / (2 * Real.pi)⌋₊ = k at hle hlt
      rw [← Real.sin_sub_nat_mul_two_pi x k] at hsin
    · refine hle.lt_of_ne fun heq => ?_
      rw [heq, sub_self, Real.sin_zero] at hsin
      exact lt_irrefl 0 hsin
    · refine lt_of_not_ge fun hge => hsin.not_ge ?_
      rw [← Real.sin_sub_two_pi]
      exact Real.sin_nonpos_of_nonpos_of_neg_pi_le (by linarith) (by linarith)
  · rintro ⟨k, hlow, hhigh⟩
    rw [← Real.sin_sub_nat_mul_two_pi x k]
    exact Real.sin_pos_of_pos_of_lt_pi (by linarith) (by linarith)

/-- The same, for the angle of a frequency. -/
theorem sin_angle_pos_iff {freq : ℝ} (hfreq : 0 < freq) {sampleRate : UInt32}
    (hrate : 0 < (sampleRate.toNat : ℝ)) :
    0 < Real.sin (angle freq sampleRate) ↔
      ∃ k : ℕ, k * sampleRate.toNat < freq ∧ 2 * freq < (2 * k + 1) * sampleRate.toNat := by
  have hpi := Real.pi_pos
  have hangle : 0 < angle freq sampleRate := by
    rw [angle_eq]
    positivity
  rw [sin_pos_iff hangle]
  refine exists_congr fun k => and_congr ?_ ?_
  · rw [angle_eq, lt_div_iff₀ hrate, mul_right_comm, mul_comm (k * _ : ℝ),
      mul_lt_mul_iff_right₀ (by positivity)]
  · rw [angle_eq, div_lt_iff₀ hrate, show (k * (2 * Real.pi) + Real.pi) * sampleRate.toNat =
      Real.pi * ((2 * k + 1) * sampleRate.toNat) by ring,
      show 2 * Real.pi * freq = Real.pi * (2 * freq) by ring, mul_lt_mul_iff_right₀ hpi]

/-- **An equaliser is stable exactly for the frequencies in the lower half of a period of the sample
rate**, for each filter, each quality and each gain. -/
theorem EqNode.biquad_stable_iff (filterType : FilterType) {freq q : ℝ} (hfreq : 0 < freq)
    (hq : 0 < q) (gainDb : ℝ) (sampleRate : UInt32) (channels : UInt16) :
    (∃ node, EqNode.new .real filterType freq gainDb q sampleRate channels = some node ∧
      node.coeffs.Stable) ↔
      ∃ k : ℕ, k * sampleRate.toNat < freq ∧ 2 * freq < (2 * k + 1) * sampleRate.toNat := by
  have ha := amplitude_pos gainDb
  rw [EqNode.new, computeCoeffs_real]
  dsimp only
  rcases (Nat.cast_nonneg sampleRate.toNat : (0 : ℝ) ≤ sampleRate.toNat).eq_or_lt with hzero | hrate
  · -- without a rate there is no filter, and no frequency is below its half
    rw [if_pos (.inl hzero.symm)]
    refine iff_of_false (fun ⟨_, hnode, _⟩ => by simp at hnode) fun ⟨k, _, hhigh⟩ => ?_
    rw [← hzero, mul_zero] at hhigh
    linarith
  rw [← sin_angle_pos_iff hfreq hrate]
  constructor
  · rintro ⟨node, hnode, hstable⟩
    split at hnode
    · simp at hnode
    · rename_i hne
      obtain rfl : EqNode.ofCoeffs _ channels = node := Option.some.inj hnode
      exact (rawCoeffs_stable_iff filterType ha hq fun h => hne (.inr (.inr h))).mp hstable
  · intro hsin
    have hne := rawCoeffs_a0_ne_zero filterType ha hq hsin
    rw [if_neg fun h => h.elim hrate.ne' fun h => h.elim hq.ne' hne]
    exact ⟨_, rfl, (rawCoeffs_stable_iff filterType ha hq hne).mpr hsin⟩

/-- A filter at 10 kHz. -/
theorem EqNode.biquad_stable_iff_tenKilohertz :
    (0 : ℝ) < 10000 ∧ (0 : ℝ) < 1 ∧
      ∃ node, EqNode.new .real .highShelf 10000 6 1 48000 2 = some node ∧ node.coeffs.Stable := by
  have hrate : (48000 : UInt32).toNat = 48000 := rfl
  refine ⟨by norm_num, by norm_num,
    (EqNode.biquad_stable_iff .highShelf (by norm_num) (by norm_num) 6 48000 2).mpr ⟨0, ?_, ?_⟩⟩
  all_goals
    rw [hrate]
    norm_num

/-- **A low pass at 36 kHz, where the server runs at 48 kHz**, multiplies its past by three. -/
theorem EqNode.unstable_lowPass :
    ∃ node, EqNode.new .real .lowPass 36000 0 1 48000 2 = some node ∧ node.coeffs.a2 = 3 ∧
      ¬node.coeffs.Stable := by
  have hangle : angle 36000 48000 = Real.pi / 2 + Real.pi := by
    rw [angle_eq, show (48000 : UInt32).toNat = 48000 from rfl]
    push_cast
    ring
  have hrate : ((48000 : UInt32).toNat : ℝ) ≠ 0 := by
    rw [show (48000 : UInt32).toNat = 48000 from rfl]
    norm_num
  rw [EqNode.new, computeCoeffs_real, hangle, Real.sin_add_pi, Real.cos_add_pi, Real.sin_pi_div_two,
    Real.cos_pi_div_two]
  dsimp only [rawCoeffs]
  rw [if_neg (by norm_num [hrate])]
  refine ⟨_, rfl, ?_, fun hstable => ?_⟩
  · show (1 - -1 / (2 * 1)) / (1 + -1 / (2 * 1)) = (3 : ℝ)
    norm_num
  · have ha2 : |(1 - -1 / (2 * 1)) / (1 + -1 / (2 * 1))| < (1 : ℝ) := hstable.1
    norm_num at ha2

/-! ### Gains that cancel -/

namespace Coeffs

/-- The numerator of a filter is `k` times the denominator of another one. -/
def NumeratorOf (c d : Coeffs ℝ) (k : ℝ) : Prop := c.b0 = k ∧ c.b1 = k * d.a1 ∧ c.b2 = k * d.a2

/-- **Two filters cancel**: what is above the line in the one is below it in the other. -/
def Cancels (c d : Coeffs ℝ) : Prop :=
  ∃ k l, k * l = 1 ∧ c.NumeratorOf d k ∧ d.NumeratorOf c l

/-- **Behind each other, they do nothing to a signal.** -/
theorem Cancels.response_response {c d : Coeffs ℝ} (h : c.Cancels d) (x : ℕ → ℝ) :
    response (EqNode.step d) (0, 0) (response (EqNode.step c) (0, 0) x) = x := by
  obtain ⟨k, l, hkl, ⟨hb0, hb1, hb2⟩, hd0, hd1, hd2⟩ := h
  have hy := EqNode.response_eq c x
  have hz := EqNode.response_eq d (response (EqNode.step c) (0, 0) x)
  generalize response (EqNode.step c) (0, 0) x = y at hy hz
  generalize response (EqNode.step d) (0, 0) y = z at hz
  -- both `x` and `z` follow the recurrence that the two denominators make of `y`
  funext n
  induction n using Nat.strong_induction_on with
  | _ n ih =>
    have hpast : ∀ m, 1 ≤ m → delayed m z n = delayed m x n := fun m hm => by
      rw [delayed, delayed]
      split
      · exact ih (n - m) (by omega)
      · rfl
    have hz := hz n
    have hy := hy n
    rw [hpast 1 le_rfl, hpast 2 one_le_two, hd0, hd1, hd2] at hz
    rw [hb0, hb1, hb2] at hy
    linear_combination hz + l * hy + (x n + d.a1 * delayed 1 x n + d.a2 * delayed 2 x n) * hkl

end Coeffs

namespace RawCoeffs

variable {r s : RawCoeffs ℝ}

/-- Proportional coefficients, without the divisions. -/
theorem numeratorOf_iff (hr : r.a0 ≠ 0) (hs : s.a0 ≠ 0) (k : ℝ) :
    r.normalise.NumeratorOf s.normalise k ↔
      k = r.b0 / r.a0 ∧ r.b1 * s.a0 = r.b0 * s.a1 ∧ r.b2 * s.a0 = r.b0 * s.a2 := by
  have hcross : ∀ b a : ℝ,
      b / r.a0 = r.b0 / r.a0 * (a / s.a0) ↔ b * s.a0 = r.b0 * a := fun b a => by
    rw [div_mul_div_comm, div_eq_div_iff hr (mul_ne_zero hr hs)]
    constructor
    · intro h
      exact mul_left_cancel₀ hr (by linear_combination h)
    · intro h
      linear_combination r.a0 * h
  rw [Coeffs.NumeratorOf, normalise, normalise]
  dsimp only
  constructor
  · rintro ⟨rfl, h1, h2⟩
    exact ⟨rfl, (hcross _ _).mp h1, (hcross _ _).mp h2⟩
  · rintro ⟨rfl, h1, h2⟩
    exact ⟨rfl, (hcross _ _).mpr h1, (hcross _ _).mpr h2⟩

theorem cancels_iff (hr : r.a0 ≠ 0) (hs : s.a0 ≠ 0) :
    r.normalise.Cancels s.normalise ↔
      r.b0 * s.b0 = r.a0 * s.a0 ∧
        (r.b1 * s.a0 = r.b0 * s.a1 ∧ r.b2 * s.a0 = r.b0 * s.a2) ∧
        s.b1 * r.a0 = s.b0 * r.a1 ∧ s.b2 * r.a0 = s.b0 * r.a2 := by
  have hprod : r.b0 / r.a0 * (s.b0 / s.a0) = 1 ↔ r.b0 * s.b0 = r.a0 * s.a0 := by
    rw [div_mul_div_comm, div_eq_one_iff_eq (mul_ne_zero hr hs)]
  constructor
  · rintro ⟨k, l, hkl, hk, hl⟩
    obtain ⟨rfl, hcross⟩ := (numeratorOf_iff hr hs k).mp hk
    obtain ⟨rfl, hcross'⟩ := (numeratorOf_iff hs hr l).mp hl
    exact ⟨hprod.mp hkl, hcross, hcross'⟩
  · rintro ⟨hkl, hk, hl⟩
    exact ⟨_, _, hprod.mpr hkl, (numeratorOf_iff hr hs _).mpr ⟨rfl, hk⟩,
      (numeratorOf_iff hs hr _).mpr ⟨rfl, hl⟩⟩

end RawCoeffs

section Opposite

variable {cos alpha a : ℝ}

/-- **A peak and the notch of the same size cancel.** -/
theorem rawCoeffs_peaking_cancels (hr : (rawCoeffs .peaking cos alpha a a).a0 ≠ 0)
    (hs : (rawCoeffs .peaking cos alpha a⁻¹ a⁻¹).a0 ≠ 0) :
    (rawCoeffs .peaking cos alpha a a).normalise.Cancels
      (rawCoeffs .peaking cos alpha a⁻¹ a⁻¹).normalise := by
  rw [RawCoeffs.cancels_iff hr hs]
  simp only [rawCoeffs, div_eq_mul_inv, inv_inv]
  refine ⟨?_, ⟨?_, ?_⟩, ?_, ?_⟩
  all_goals ring

/-- **A shelf and the opposite one** cancel only if there is nothing to cancel, or if the term with
the root vanishes. -/
theorem rawCoeffs_shelf_cancels_iff {ft : FilterType} (hft : ft = .lowShelf ∨ ft = .highShelf)
    (ha : 0 < a) (hlow : -1 ≤ cos) (hhigh : cos ≤ 1)
    (hr : (rawCoeffs ft cos alpha a a).a0 ≠ 0) (hs : (rawCoeffs ft cos alpha a⁻¹ a⁻¹).a0 ≠ 0) :
    (rawCoeffs ft cos alpha a a).normalise.Cancels
        (rawCoeffs ft cos alpha a⁻¹ a⁻¹).normalise ↔ a = 1 ∨ alpha = 0 := by
  rw [RawCoeffs.cancels_iff hr hs]
  constructor
  · rintro ⟨-, ⟨-, h⟩, -⟩
    have hinv : a * a⁻¹ = 1 := mul_inv_cancel₀ ha.ne'
    have hmiddle := ft.middle_pos (inv_pos.mpr ha) hlow hhigh
    -- the outer coefficients are proportional if this product is zero
    have hprod : 4 * a * (alpha * (a - 1) * ft.middle cos a⁻¹) = 0 := by
      obtain rfl | rfl := hft
      · simp only [rawCoeffs] at h
        rw [FilterType.middle]
        linear_combination (-1) * h + 4 * alpha * ((a + 1) - (a - 1) * cos - 1 - cos) * hinv
      · simp only [rawCoeffs] at h
        rw [FilterType.middle]
        linear_combination (-1) * h + 4 * alpha * ((a + 1) + (a - 1) * cos - 1 + cos) * hinv
    have hzero := (mul_eq_zero.mp hprod).resolve_left (by positivity)
    obtain hα | hone := mul_eq_zero.mp ((mul_eq_zero.mp hzero).resolve_right hmiddle.ne')
    · exact .inr hα
    · exact .inl (sub_eq_zero.mp hone)
  · rintro (rfl | rfl)
    · obtain rfl | rfl := hft
      all_goals
        simp only [rawCoeffs, inv_one]
        refine ⟨?_, ⟨?_, ?_⟩, ?_, ?_⟩
        all_goals ring
    · obtain rfl | rfl := hft
      all_goals
        simp only [rawCoeffs]
        refine ⟨?_, ⟨?_, ?_⟩, ?_, ?_⟩
        all_goals
          field_simp
          ring

end Opposite

/-- Frequencies without a sine. -/
theorem sin_angle_eq_zero_iff {freq : ℝ} {sampleRate : UInt32}
    (hrate : (sampleRate.toNat : ℝ) ≠ 0) :
    Real.sin (angle freq sampleRate) = 0 ↔ ∃ k : ℤ, 2 * freq = k * sampleRate.toNat := by
  rw [Real.sin_eq_zero_iff]
  refine exists_congr fun k => ?_
  rw [angle_eq, eq_div_iff hrate]
  constructor
  · intro h
    exact mul_left_cancel₀ Real.pi_ne_zero (by linear_combination -h)
  · intro h
    linear_combination -Real.pi * h

/-- **A gain and its opposite cancel** for peaks, and for shelves exactly if the gain is zero or the
frequency a multiple of half the sample rate. -/
theorem computeCoeffs_cancels_iff {ft : FilterType}
    (hft : ft = .peaking ∨ ft = .lowShelf ∨ ft = .highShelf) {freq gainDb q : ℝ}
    {sampleRate : UInt32} {c d : Coeffs ℝ}
    (hc : computeCoeffs .real ft freq gainDb q sampleRate = some c)
    (hd : computeCoeffs .real ft freq (-gainDb) q sampleRate = some d) :
    c.Cancels d ↔ ft = .peaking ∨ gainDb = 0 ∨ ∃ k : ℤ, 2 * freq = k * sampleRate.toNat := by
  rw [computeCoeffs_real] at hc hd
  rw [amplitude_neg] at hd
  dsimp only at hc hd
  split at hc
  · cases hc
  split at hd
  · cases hd
  rename_i hr hs
  obtain ⟨hrate, hq, hr⟩ := (not_or.mp hr).imp_right not_or.mp
  obtain ⟨-, -, hs⟩ := (not_or.mp hs).imp_right not_or.mp
  obtain rfl := Option.some.inj hc
  obtain rfl := Option.some.inj hd
  obtain rfl | hshelf := hft
  · exact iff_of_true (rawCoeffs_peaking_cancels hr hs) (.inl rfl)
  · rw [rawCoeffs_shelf_cancels_iff hshelf (amplitude_pos gainDb) (Real.neg_one_le_cos _)
      (Real.cos_le_one _) hr hs, amplitude_eq_one_iff, div_eq_zero_iff,
      or_iff_left (mul_ne_zero two_ne_zero hq), sin_angle_eq_zero_iff hrate]
    refine (or_iff_right ?_).symm
    rintro rfl
    simp at hshelf

/-! At a quarter of the sample rate the cosine is zero, and forty decibels are a factor of ten. -/

section Quarter

theorem amplitude_forty : amplitude 40 = 10 := by
  rw [amplitude_eq, div_self (by norm_num), Real.rpow_one]

theorem computeCoeffs_quarter (ft : FilterType) (gainDb : ℝ)
    (hne : (rawCoeffs ft 0 (1 / 2) (amplitude gainDb) (amplitude gainDb)).a0 ≠ 0) :
    computeCoeffs .real ft 12000 gainDb 1 48000 =
      some (rawCoeffs ft 0 (1 / 2) (amplitude gainDb) (amplitude gainDb)).normalise := by
  have hangle : angle 12000 48000 = Real.pi / 2 := by
    rw [angle_eq, show (48000 : UInt32).toNat = 48000 from rfl]
    push_cast
    ring
  have hrate : ((48000 : UInt32).toNat : ℝ) ≠ 0 := by
    rw [show (48000 : UInt32).toNat = 48000 from rfl]
    norm_num
  rw [computeCoeffs_real, hangle, Real.sin_pi_div_two, Real.cos_pi_div_two, mul_one]
  exact if_neg fun h => h.elim hrate fun h => h.elim one_ne_zero hne

theorem computeCoeffs_cancels_iff_peaking :
    ∃ c d, computeCoeffs .real .peaking 12000 40 1 48000 = some c ∧
      computeCoeffs .real .peaking 12000 (-40) 1 48000 = some d ∧ c.Cancels d := by
  have hc := computeCoeffs_quarter .peaking 40 (by
    norm_num [rawCoeffs, amplitude_forty])
  have hd := computeCoeffs_quarter .peaking (-40) (by
    norm_num [rawCoeffs, amplitude_neg, amplitude_forty])
  exact ⟨_, _, hc, hd, (computeCoeffs_cancels_iff (.inl rfl) hc hd).mpr (.inl rfl)⟩

/-- Forty decibels up and forty down. -/
theorem response_response_forty :
    ∃ c d, computeCoeffs .real .peaking 12000 40 1 48000 = some c ∧
      computeCoeffs .real .peaking 12000 (-40) 1 48000 = some d ∧
      ∀ x, response (EqNode.step d) (0, 0) (response (EqNode.step c) (0, 0) x) = x := by
  have hc : (rawCoeffs .peaking 0 (1 / 2) (amplitude 40) (amplitude 40)).a0 ≠ 0 := by
    norm_num [rawCoeffs, amplitude_forty]
  have hd : (rawCoeffs .peaking 0 (1 / 2) (amplitude (-40)) (amplitude (-40))).a0 ≠ 0 := by
    norm_num [rawCoeffs, amplitude_neg, amplitude_forty]
  refine ⟨_, _, computeCoeffs_quarter .peaking 40 hc, computeCoeffs_quarter .peaking (-40) hd,
    Coeffs.Cancels.response_response ?_⟩
  rw [amplitude_neg] at hd ⊢
  exact rawCoeffs_peaking_cancels hc hd

/-- **A low shelf of forty decibels and the opposite one**: what is above the line in the first is
no multiple of what is below it in the second. -/
theorem computeCoeffs_lowShelf_not_cancels :
    ∃ c d, computeCoeffs .real .lowShelf 12000 40 1 48000 = some c ∧
      computeCoeffs .real .lowShelf 12000 (-40) 1 48000 = some d ∧ ∀ k, ¬c.NumeratorOf d k := by
  have hc := computeCoeffs_quarter .lowShelf 40 (by
    norm_num [rawCoeffs, amplitude_forty])
  have hd := computeCoeffs_quarter .lowShelf (-40) (by
    norm_num [rawCoeffs, amplitude_neg, amplitude_forty])
  refine ⟨_, _, hc, hd, fun k hk => ?_⟩
  obtain ⟨hb0, hb1, -⟩ := hk
  rw [← hb0] at hb1
  norm_num [rawCoeffs, RawCoeffs.normalise, amplitude_neg, amplitude_forty] at hb1

end Quarter

end SonicBrew
