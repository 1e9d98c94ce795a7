import Mathlib.Dynamics.PeriodicPts.Lemmas

/-!
# Words xored with a shift of themselves

A step of a xorshift generator takes a word `x` to `x ^^^ σ x`, where `σ` shifts by a fixed number
of places. Nothing is lost by this (`SonicBrew.Xorshift.xor_injective`): if two words have the same
image, their difference is its own shift, hence its own shift repeated as often as one likes, and
repeated often enough a shift leaves nothing.

A generator made of such steps moves through its finitely many states along circles. So a state is
never left for good, and one that is fixed – zero – is never reached from another
(`SonicBrew.Xorshift.iterate_ne`).
-/

namespace SonicBrew

namespace Xorshift

variable {w : ℕ}

/-- **A word is known by its xor with its image** under a map that respects xor and, repeated often
enough, leaves nothing. -/
theorem xor_injective {σ : BitVec w → BitVec w} (hxor : ∀ x y, σ (x ^^^ y) = σ x ^^^ σ y) {n : ℕ}
    (hout : ∀ x, σ^[n] x = 0#w) : Function.Injective fun x => x ^^^ σ x := by
  intro x y hxy
  dsimp only at hxy
  have hfixed : σ (x ^^^ y) = x ^^^ y := by
    rw [hxor, ← BitVec.xor_eq_zero_iff]
    calc σ x ^^^ σ y ^^^ (x ^^^ y) = (x ^^^ σ x) ^^^ (y ^^^ σ y) := by ac_rfl
      _ = 0#w := BitVec.xor_eq_zero_iff.mpr hxy
  have hzero : x ^^^ y = 0#w := (Function.iterate_fixed hfixed n).symm.trans (hout (x ^^^ y))
  exact BitVec.xor_eq_zero_iff.mp hzero

theorem iterate_shiftLeft (k n : ℕ) (x : BitVec w) :
    (fun y : BitVec w => y <<< k)^[n] x = x <<< (k * n) := by
  induction n with
  | zero => simp
  | succ n ih => rw [Function.iterate_succ_apply', ih, ← BitVec.shiftLeft_add, Nat.mul_succ]

theorem iterate_shiftRight (k n : ℕ) (x : BitVec w) :
    (fun y : BitVec w => y >>> k)^[n] x = x >>> (k * n) := by
  induction n with
  | zero => simp
  | succ n ih => rw [Function.iterate_succ_apply', ih, ← BitVec.shiftRight_add, Nat.mul_succ]

theorem xor_shiftLeft_injective {k : ℕ} (hk : 0 < k) :
    Function.Injective fun x : BitVec w => x ^^^ x <<< k := by
  refine xor_injective (σ := fun x => x <<< k) (n := w) (fun x y => ?_) fun x => ?_
  · exact BitVec.shiftLeft_xor_distrib x y k
  · rw [iterate_shiftLeft]
    exact BitVec.shiftLeft_eq_zero (Nat.le_mul_of_pos_left w hk)

theorem xor_shiftRight_injective {k : ℕ} (hk : 0 < k) :
    Function.Injective fun x : BitVec w => x ^^^ x >>> k := by
  refine xor_injective (σ := fun x => x >>> k) (n := w) (fun x y => ?_) fun x => ?_
  · exact BitVec.ushiftRight_xor_distrib x y k
  · rw [iterate_shiftRight]
    exact BitVec.ushiftRight_eq_zero (Nat.le_mul_of_pos_left w hk)

/-! ### Orbits -/

variable {α : Type} {f : α → α}

/-- **A state that stays what it is** is reached from no other. -/
theorem iterate_ne (hf : Function.Injective f) {z x : α} (hz : f z = z) (hx : x ≠ z) (n : ℕ) :
    f^[n] x ≠ z := by
  intro h
  refine hx (hf.iterate n (h.trans ?_))
  exact (Function.iterate_fixed hz n).symm

/-- **The states repeat from the first one on.** -/
theorem exists_period [Finite α] (hf : Function.Injective f) (x : α) :
    ∃ p > 0, ∀ n, f^[n + p] x = f^[n] x := by
  obtain ⟨p, hp, hperiod⟩ := Function.mem_periodicPts.mp (hf.mem_periodicPts x)
  refine ⟨p, hp, fun n => ?_⟩
  rw [Function.iterate_add_apply]
  exact congrArg f^[n] hperiod

end Xorshift

end SonicBrew
