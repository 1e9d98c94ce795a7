import Mathlib.Algebra.Order.Floor.Semiring
import Mathlib.Algebra.Order.Field.Basic
import Mathlib.Tactic.FieldSimp
import Mathlib.Tactic.Linarith
import Mathlib.Tactic.Ring

/-!
# Signals

A signal is a value for every moment. It can be heard late, after silence
(`SonicBrew.delayed`), and also by a delay that is not a whole number, where it is interpolated
between the two moments around (`SonicBrew.interpolated`).

A signal that is made of a bounded one and of its own past, with a factor below one, is bounded by
the sum of the geometric series (`SonicBrew.abs_le_div_one_sub`).

A countdown that some moments start again is a memory of them: it has not run out as long as one of
them is in the window behind it (`SonicBrew.lt_countdown_iff`).
-/

namespace SonicBrew

variable {K : Type}

section Zero

variable [Zero K]

/-- The signal that a list begins, with silence behind it. -/
def signal (xs : List K) (n : ℕ) : K := xs.getD n 0

theorem signal_of_mem_getElem? {xs : List K} (n : ℕ) : ∀ v ∈ xs[n]?, signal xs n = v := by
  intro v hv
  rw [signal, List.getD_eq_getElem?_getD, Option.mem_def.mp hv, Option.getD_some]

/-- A signal, `d` moments late. -/
def delayed (d : ℕ) (w : ℕ → K) (n : ℕ) : K := if d ≤ n then w (n - d) else 0

theorem delayed_zero (d : ℕ) (w : ℕ → K) : delayed (d + 1) w 0 = 0 :=
  if_neg (Nat.not_succ_le_zero d)

theorem delayed_succ (d : ℕ) (w : ℕ → K) (n : ℕ) : delayed (d + 1) w (n + 1) = delayed d w n := by
  rw [delayed, delayed, Nat.add_sub_add_right]
  exact if_congr Nat.succ_le_succ_iff rfl rfl

theorem delayed_one_succ (w : ℕ → K) (n : ℕ) : delayed 1 w (n + 1) = w n := by
  rw [delayed_succ, delayed, if_pos (Nat.zero_le n), Nat.sub_zero]

end Zero

variable [Field K] [LinearOrder K] [IsStrictOrderedRing K]

theorem abs_signal_le {xs : List K} {B : K} (hB : 0 ≤ B) (h : ∀ v ∈ xs, |v| ≤ B) (n : ℕ) :
    |signal xs n| ≤ B := by
  rw [signal, List.getD_eq_getElem?_getD]
  cases hn : xs[n]? with
  | none => exact abs_zero.trans_le hB
  | some v => exact h v (List.mem_of_getElem? hn)

theorem abs_delayed_le {d n : ℕ} {w : ℕ → K} {C : K} (hd : 1 ≤ d) (hC : 0 ≤ C)
    (h : ∀ m < n, |w m| ≤ C) : |delayed d w n| ≤ C := by
  rw [delayed]
  split
  · exact h _ (by omega)
  · rwa [abs_zero]

/-! ### Feedback -/

/-- The bound that feedback keeps. -/
theorem add_mul_div_one_sub {f : K} (hf : f < 1) (B : K) : B + f * (B / (1 - f)) = B / (1 - f) := by
  have hne : 1 - f ≠ 0 := (sub_pos.mpr hf).ne'
  field_simp
  ring

/-- **A signal that is fed back on itself is bounded**: what comes back, `v`, is bounded as the past
is. -/
theorem abs_le_div_one_sub {f B : K} {w x v : ℕ → K} (hf0 : 0 ≤ f) (hf1 : f < 1)
    (hw : ∀ n, w n = x n + f * v n) (hx : ∀ n, |x n| ≤ B)
    (hv : ∀ n C, 0 ≤ C → (∀ m < n, |w m| ≤ C) → |v n| ≤ C) (n : ℕ) : |w n| ≤ B / (1 - f) := by
  have hC : 0 ≤ B / (1 - f) := div_nonneg ((abs_nonneg _).trans (hx 0)) (sub_pos.mpr hf1).le
  induction n using Nat.strong_induction_on with
  | _ n ih =>
    calc |w n| = |x n + f * v n| := by rw [← hw n]
      _ ≤ |x n| + |f * v n| := abs_add_le _ _
      _ = |x n| + f * |v n| := by rw [abs_mul, abs_of_nonneg hf0]
      _ ≤ B + f * (B / (1 - f)) := add_le_add (hx n) (mul_le_mul_of_nonneg_left (hv n _ hC ih) hf0)
      _ = B / (1 - f) := add_mul_div_one_sub hf1 B

/-- A value between two others is bounded as they are. -/
theorem abs_interpolate_le {a b t C : K} (ha : |a| ≤ C) (hb : |b| ≤ C) (h0 : 0 ≤ t) (h1 : t ≤ 1) :
    |a * (1 - t) + b * t| ≤ C := by
  calc |a * (1 - t) + b * t| ≤ |a * (1 - t)| + |b * t| := abs_add_le _ _
    _ = |a| * (1 - t) + |b| * t := by
      rw [abs_mul, abs_mul, abs_of_nonneg h0, abs_of_nonneg (sub_nonneg.mpr h1)]
    _ ≤ C * (1 - t) + C * t :=
      add_le_add (mul_le_mul_of_nonneg_right ha (sub_nonneg.mpr h1))
        (mul_le_mul_of_nonneg_right hb h0)
    _ = C := by ring

/-! ### Delays that are not whole -/

section Floor

variable [FloorSemiring K]

/-- A signal, late by any positive time `d`: between the moments `⌈d⌉` and `⌈d⌉ - 1` ago. -/
def interpolated (d : K) (w : ℕ → K) (n : ℕ) : K :=
  delayed ⌈d⌉₊ w n * (1 - (⌈d⌉₊ - d)) + delayed (⌈d⌉₊ - 1) w n * (⌈d⌉₊ - d)

theorem two_le_ceil {d : K} (h : 2 ≤ d) : 2 ≤ ⌈d⌉₊ := by
  have hle : ((2 : ℕ) : K) ≤ ⌈d⌉₊ := (by exact_mod_cast h : ((2 : ℕ) : K) ≤ d).trans (Nat.le_ceil d)
  exact_mod_cast hle

/-- **Where the younger neighbour is in the past, so is the bound.** -/
theorem abs_interpolated_le {d : K} {w : ℕ → K} {n : ℕ} {C : K} (hd : 2 ≤ d) (hC : 0 ≤ C)
    (h : ∀ m < n, |w m| ≤ C) : |interpolated d w n| ≤ C := by
  have hceil := two_le_ceil hd
  have hlt : (⌈d⌉₊ : K) < d + 1 := Nat.ceil_lt_add_one (by linarith)
  refine abs_interpolate_le (abs_delayed_le (by omega) hC h) (abs_delayed_le (by omega) hC h) ?_ ?_
  · linarith [Nat.le_ceil d]
  · linarith

end Floor

/-! ### Countdowns -/

section Countdown

variable {C : ℕ → ℕ} {P : ℕ → Prop} [DecidablePred P] {hold : ℕ}

/-- **What is left of a countdown** is known from the moments that started it. -/
theorem lt_countdown_iff (h0 : C 0 = 0) (hC : ∀ n, C (n + 1) = if P n then hold else C n - 1)
    (n j : ℕ) : j < C n ↔ ∃ m < n, P m ∧ n + j < m + 1 + hold := by
  induction n generalizing j with
  | zero => simp [h0]
  | succ n ih =>
    rw [hC]
    split
    · rename_i hn
      constructor
      · intro hj
        exact ⟨n, Nat.lt_succ_self n, hn, by omega⟩
      · rintro ⟨m, hm, -, hj⟩
        omega
    · rename_i hn
      rw [Nat.lt_sub_iff_add_lt, ih]
      constructor
      · rintro ⟨m, hm, hPm, hj⟩
        exact ⟨m, by omega, hPm, by omega⟩
      · rintro ⟨m, hm, hPm, hj⟩
        -- the moment that has just passed is not one of them
        have hne : m ≠ n := fun heq => hn (heq ▸ hPm)
        exact ⟨m, by omega, hPm, by omega⟩

/-- **A moment, or a countdown that has not run out**: a moment in the window. -/
theorem or_pos_countdown_iff (h0 : C 0 = 0)
    (hC : ∀ n, C (n + 1) = if P n then hold else C n - 1) (n : ℕ) :
    P n ∨ 0 < C n ↔ ∃ m ≤ n, n ≤ m + hold ∧ P m := by
  rw [lt_countdown_iff h0 hC]
  constructor
  · rintro (hn | ⟨m, hm, hPm, hwindow⟩)
    · exact ⟨n, le_rfl, Nat.le_add_right n hold, hn⟩
    · exact ⟨m, hm.le, by omega, hPm⟩
  · rintro ⟨m, hm, hwindow, hPm⟩
    rcases hm.eq_or_lt with rfl | hlt
    · exact .inl hPm
    · exact .inr ⟨m, hlt, hPm, by omega⟩

end Countdown

end SonicBrew
