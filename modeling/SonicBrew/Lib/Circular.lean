import Mathlib.Data.Nat.ModEq

/-!
# Positions on a circle

The numbers below `n`, with the successor of `n - 1` at `0`: the slots of a ring, or the
values of a counter that wraps. How far `b` lies ahead of `a` is counted in the direction in
which the counter runs (`SonicBrew.Circular.ahead`), so it is a number below `n` whatever the
order of the two; walking from `a` to `b` by way of a point no further than `b` splits the way
in two (`SonicBrew.Circular.ahead_split`), and the positions on the way can be listed
(`SonicBrew.Circular.between`).

The second half is about a counter that does not wrap and is only seen modulo `n`: two of its
values less than a turn apart can be told apart by their remainders alone. A counter that wraps, but
at another number than `n`, can not be seen so unless it wraps after a whole number of turns
(`SonicBrew.Circular.sub_mod_eq_sub_iff`).
-/

namespace SonicBrew

namespace Circular

/-- How far `b` is ahead of `a` on the circle of `n` positions. -/
def ahead (n a b : ℕ) : ℕ := (b + n - a) % n

variable {n a b c : ℕ}

/-- The way ahead, without the remainder. -/
theorem ahead_eq (ha : a < n) (hb : b < n) :
    ahead n a b = if a ≤ b then b - a else b + n - a := by
  by_cases hab : a ≤ b
  · have hsplit : b + n - a = (b - a) + n := by omega
    rw [if_pos hab, ahead, hsplit, Nat.add_mod_right, Nat.mod_eq_of_lt (by omega)]
  · rw [if_neg hab, ahead, Nat.mod_eq_of_lt (by omega)]

theorem ahead_self (ha : a < n) : ahead n a a = 0 := by
  rw [ahead_eq ha ha, if_pos (Nat.le_refl a), Nat.sub_self]

/-- **A position is known by how far ahead it is.** -/
theorem ahead_injective (ha : a < n) (hb : b < n) (hc : c < n) (h : ahead n a b = ahead n a c) :
    b = c := by
  rw [ahead_eq ha hb, ahead_eq ha hc] at h
  split_ifs at h <;> omega

/-- **The way to `b` leads through every position that is not further ahead.** -/
theorem ahead_split (ha : a < n) (hb : b < n) (hc : c < n) (h : ahead n a c ≤ ahead n a b) :
    ahead n a b = ahead n a c + ahead n c b := by
  have hab := ahead_eq ha hb
  have hac := ahead_eq ha hc
  have hcb := ahead_eq hc hb
  split_ifs at hab hac hcb <;> omega

/-- Walking the way ahead arrives. -/
theorem add_ahead_mod (ha : a < n) (hb : b < n) : (a + ahead n a b) % n = b := by
  rw [ahead_eq ha hb]
  split
  · rw [show a + (b - a) = b by omega, Nat.mod_eq_of_lt hb]
  · rw [show a + (b + n - a) = b + n by omega, Nat.add_mod_right, Nat.mod_eq_of_lt hb]

/-! ### A counter seen modulo `n` -/

section Counter

variable {i j : ℕ}

/-- **Less than a turn ahead**, the distance can be read off the remainders. -/
theorem ahead_mod (hij : i ≤ j) (hlt : j - i < n) : ahead n (i % n) (j % n) = j - i := by
  have hi : i % n < n := Nat.mod_lt _ (by omega)
  have hback : (j % n + n - i % n) + i % n = j % n + n := by omega
  have hmod : (j % n + n - i % n) + i ≡ (j - i) + i [MOD n] := by
    calc (j % n + n - i % n) + i ≡ (j % n + n - i % n) + i % n [MOD n] :=
          Nat.ModEq.add_left _ (Nat.mod_modEq i n).symm
      _ = j % n + n := hback
      _ ≡ j % n [MOD n] := Nat.add_modEq_right
      _ ≡ j [MOD n] := Nat.mod_modEq j n
      _ = (j - i) + i := by omega
  have h := Nat.ModEq.add_right_cancel' i hmod
  rw [ahead, h, Nat.mod_eq_of_lt hlt]

/-- **Less than a turn behind**, it is the rest of the turn. -/
theorem ahead_mod_of_lt (hji : j < i) (hlt : i - j < n) :
    ahead n (i % n) (j % n) = n - (i - j) := by
  have h : ahead n (i % n) ((j + n) % n) = j + n - i := ahead_mod (by omega) (by omega)
  rw [Nat.add_mod_right] at h
  omega

end Counter

/-- **Going back from `m`**, which is a whole number of turns exactly if one then is as far before
the start of a turn. -/
theorem sub_mod_eq_sub_iff {m d : ℕ} (hpos : 0 < d) (hlt : d < n) (hle : d ≤ m) :
    (m - d) % n = n - d ↔ n ∣ m := by
  have hmod : (m - d) % n = n - d ↔ m - d ≡ n - d [MOD n] := by
    rw [Nat.ModEq, Nat.mod_eq_of_lt (show n - d < n by omega)]
  rw [hmod]
  constructor
  · intro h
    have hsum : m - d + d ≡ n - d + d [MOD n] := h.add_right d
    rw [Nat.sub_add_cancel hle, Nat.sub_add_cancel hlt.le] at hsum
    exact (Nat.modEq_zero_iff_dvd).mp (hsum.trans ((Nat.modEq_zero_iff_dvd).mpr (dvd_refl n)))
  · intro h
    have hsum : m - d + d ≡ n - d + d [MOD n] := by
      rw [Nat.sub_add_cancel hle, Nat.sub_add_cancel hlt.le]
      exact ((Nat.modEq_zero_iff_dvd).mpr h).trans ((Nat.modEq_zero_iff_dvd).mpr (dvd_refl n)).symm
    exact Nat.ModEq.add_right_cancel' d hsum

/-! ### The positions on the way -/

/-- The positions from `a` up to, and not including, `b`, in order. -/
def between (n a b : ℕ) : List ℕ := (List.range (ahead n a b)).map fun i => (a + i) % n

theorem length_between (n a b : ℕ) : (between n a b).length = ahead n a b := by
  rw [between, List.length_map, List.length_range]

theorem between_self (ha : a < n) : between n a a = [] := by
  rw [between, ahead_self ha, List.range_zero, List.map_nil]

/-- **The first of them.** -/
theorem between_of_ne (ha : a < n) (hb : b < n) (hne : a ≠ b) :
    between n a b = a :: between n ((a + 1) % n) b := by
  have hnext : (a + 1) % n < n := Nat.mod_lt _ (by omega)
  have hahead : ahead n a b = ahead n ((a + 1) % n) b + 1 := by
    have hab := ahead_eq ha hb
    have hnb := ahead_eq hnext hb
    rcases Nat.lt_or_ge (a + 1) n with hlt | hge
    · rw [Nat.mod_eq_of_lt hlt] at hnb ⊢
      split_ifs at hab hnb <;> omega
    · obtain rfl : n = a + 1 := by omega
      rw [Nat.mod_self] at hnb ⊢
      split_ifs at hab hnb <;> omega
  rw [between, hahead, List.range_succ_eq_map, List.map_cons, List.map_map, Nat.add_zero,
    Nat.mod_eq_of_lt ha, between]
  refine congrArg (a :: ·) (List.map_congr_left fun i _ => ?_)
  rw [Function.comp_apply, Nat.mod_add_mod, Nat.succ_eq_add_one, Nat.add_right_comm, Nat.add_assoc]

/-- **One more**, if that is not a whole turn. -/
theorem between_succ (ha : a < n) (hb : b < n) (hroom : ahead n a b + 1 < n) :
    between n a ((b + 1) % n) = between n a b ++ [b] := by
  have hahead : ahead n a ((b + 1) % n) = ahead n a b + 1 := by
    have hnext : (b + 1) % n < n := Nat.mod_lt _ (by omega)
    have hab := ahead_eq ha hb
    have han := ahead_eq ha hnext
    rcases Nat.lt_or_ge (b + 1) n with hlt | hge
    · rw [Nat.mod_eq_of_lt hlt] at han ⊢
      split_ifs at hab han <;> omega
    · obtain rfl : n = b + 1 := by omega
      rw [Nat.mod_self] at han ⊢
      split_ifs at hab han <;> omega
  rw [between, hahead, List.range_succ, List.map_append, List.map_singleton, add_ahead_mod ha hb,
    between]

theorem lt_of_mem_between (hn : 0 < n) {i : ℕ} (hi : i ∈ between n a b) : i < n := by
  obtain ⟨k, -, rfl⟩ := List.mem_map.mp hi
  exact Nat.mod_lt _ hn

/-- The last position is not on the way. -/
theorem not_mem_between (ha : a < n) (hb : b < n) : b ∉ between n a b := by
  intro h
  obtain ⟨k, hk, heq⟩ := List.mem_map.mp h
  rw [List.mem_range] at hk
  have hlt := Nat.mod_lt (b + n - a) (show 0 < n by omega)
  have hahead : ahead n a b = k := by
    have hmod := ahead_mod (n := n) (Nat.le_add_right a k) (by rw [ahead] at hk; omega)
    rw [Nat.mod_eq_of_lt ha, heq] at hmod
    omega
  omega

end Circular

end SonicBrew
