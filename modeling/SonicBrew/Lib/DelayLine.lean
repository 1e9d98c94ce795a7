import Mathlib.Algebra.Order.Floor.Ring
import Mathlib.Data.Nat.ModEq
import Mathlib.Tactic.Positivity
import SonicBrew.Lib.Signal

/-!
# Delay lines

A ring of slots, all of which are overwritten in turn: the values that were written last are found
behind the cursor, each at its age (`SonicBrew.DelayLine.back`). A ring with as many slots as `n`
knows the last `n` values and none that is older.

If the values written so far are those of a signal, the line *holds* the signal
(`SonicBrew.DelayLine.Holds`), and one more write keeps this (`SonicBrew.DelayLine.Holds.push`).

A position behind the cursor need not be a whole number. Wrapped to the ring and rounded down it is
the slot of the older neighbour, and the slot behind this is that of the younger one
(`SonicBrew.DelayLine.floor_remEuclid`).
-/

namespace SonicBrew

/-- Slots, and the one that is written next. -/
structure DelayLine (K : Type) where
  slots : List K
  cursor : ℕ
  cursor_lt : cursor < slots.length

namespace DelayLine

variable {K : Type}

/-- Where the value is that was written `a` writes ago. -/
def position (line : DelayLine K) (a : ℕ) : ℕ :=
  (line.cursor + line.slots.length - a) % line.slots.length

variable {line : DelayLine K} {a : ℕ}

theorem position_lt (line : DelayLine K) (a : ℕ) : line.position a < line.slots.length :=
  Nat.mod_lt _ (Nat.zero_lt_of_lt line.cursor_lt)

/-- The position, without the remainder. -/
theorem position_eq (ha : a ≤ line.slots.length) :
    line.position a =
      if a ≤ line.cursor then line.cursor - a else line.cursor + line.slots.length - a := by
  have hlt := line.cursor_lt
  rw [position]
  split
  · rename_i hle
    rw [show line.cursor + line.slots.length - a = line.cursor - a + line.slots.length by omega,
      Nat.add_mod_right, Nat.mod_eq_of_lt (by omega)]
  · rw [Nat.mod_eq_of_lt (by omega)]

theorem position_ne_cursor (h1 : 1 ≤ a) (h2 : a < line.slots.length) :
    line.position a ≠ line.cursor := by
  have hlt := line.cursor_lt
  rw [position_eq h2.le]
  split <;> omega

/-- The slot behind that of a value is the one of the next younger value. -/
theorem position_succ_mod (ha : a + 1 ≤ line.slots.length) :
    (line.position (a + 1) + 1) % line.slots.length = line.position a := by
  rw [position, position, Nat.mod_add_mod,
    show line.cursor + line.slots.length - (a + 1) + 1 = line.cursor + line.slots.length - a by
      have := line.cursor_lt
      omega]

/-- The value that was written `a` writes ago. -/
def back (line : DelayLine K) (a : ℕ) : K := line.slots.get ⟨line.position a, line.position_lt a⟩

theorem getElem?_position (line : DelayLine K) (a : ℕ) :
    line.slots[line.position a]? = some (line.back a) :=
  List.getElem?_eq_getElem (line.position_lt a)

/-- A write changes no value that stays in the ring. -/
theorem getElem?_set_position (v : K) (h1 : 1 ≤ a) (h2 : a < line.slots.length) :
    (line.slots.set line.cursor v)[line.position a]? = some (line.back a) := by
  rw [List.getElem?_set_ne (position_ne_cursor h1 h2).symm, getElem?_position]

/-! ### Writing -/

/-- The next slot is written. -/
def push (line : DelayLine K) (v : K) : DelayLine K where
  slots := line.slots.set line.cursor v
  cursor := (line.cursor + 1) % line.slots.length
  cursor_lt := by
    rw [List.length_set]
    exact Nat.mod_lt _ (Nat.zero_lt_of_lt line.cursor_lt)

@[simp] theorem length_push (line : DelayLine K) (v : K) :
    (line.push v).slots.length = line.slots.length := List.length_set

theorem position_push (v : K) (h : a < line.slots.length) :
    (line.push v).position (a + 1) = line.position a := by
  have hlt := line.cursor_lt
  rw [position, length_push, position]
  show ((line.cursor + 1) % line.slots.length + _ - (a + 1)) % _ = _
  rcases Nat.lt_or_ge (line.cursor + 1) line.slots.length with hnext | hwrap
  · rw [Nat.mod_eq_of_lt hnext, show line.cursor + 1 + line.slots.length - (a + 1) =
      line.cursor + line.slots.length - a by omega]
  · rw [show line.cursor + 1 = line.slots.length by omega, Nat.mod_self,
      show line.cursor + line.slots.length - a =
        0 + line.slots.length - (a + 1) + line.slots.length by omega, Nat.add_mod_right]

theorem back_push_one (line : DelayLine K) (v : K) : (line.push v).back 1 = v := by
  have hpos : (line.push v).position (0 + 1) = line.cursor := by
    rw [position_push v (Nat.zero_lt_of_lt line.cursor_lt), position_eq (Nat.zero_le _),
      if_pos (Nat.zero_le _), Nat.sub_zero]
  have hget := (line.push v).getElem?_position 1
  rw [show (1 : ℕ) = 0 + 1 from rfl, hpos] at hget
  exact Option.some.inj (hget.symm.trans (List.getElem?_set_self line.cursor_lt))

theorem back_push_succ (v : K) (h1 : 1 ≤ a) (h2 : a < line.slots.length) :
    (line.push v).back (a + 1) = line.back a := by
  have hget := (line.push v).getElem?_position (a + 1)
  rw [position_push v h2] at hget
  exact Option.some.inj (hget.symm.trans (getElem?_set_position v h1 h2))

/-! ### The history -/

section Holds

variable [Zero K]

/-- A line in which nothing has been written. -/
def silent (len : ℕ) (h : 0 < len) : DelayLine K where
  slots := List.replicate len 0
  cursor := 0
  cursor_lt := by rwa [List.length_replicate]

/-- **The values in the ring are the last ones of a signal** of which `n` have been written. -/
def Holds (line : DelayLine K) (w : ℕ → K) (n : ℕ) : Prop :=
  ∀ a, 1 ≤ a → a ≤ line.slots.length → line.back a = delayed a w n

theorem holds_silent (len : ℕ) (h : 0 < len) (w : ℕ → K) : (silent len h).Holds w 0 := by
  intro a ha _
  obtain ⟨a, rfl⟩ := Nat.exists_eq_add_of_le' ha
  rw [delayed_zero]
  exact List.getElem_replicate _

theorem Holds.push {w : ℕ → K} {n : ℕ} (h : line.Holds w n) :
    (line.push (w n)).Holds w (n + 1) := by
  intro a h1 h2
  rw [length_push] at h2
  obtain ⟨a, rfl⟩ := Nat.exists_eq_add_of_le' h1
  rcases Nat.eq_zero_or_pos a with rfl | hpos
  · rw [Nat.zero_add, back_push_one, delayed_one_succ]
  · rw [back_push_succ _ hpos (by omega), delayed_succ, h a hpos (by omega)]

end Holds

/-! ### Positions that are not whole -/

section Fractional

variable [Field K] [LinearOrder K] [IsStrictOrderedRing K] [FloorRing K]

/-- The remainder in `[0, m)`. -/
def remEuclid (x m : K) : K := x - m * ⌊x / m⌋

/-- A whole number and a fraction: the fraction stays. -/
theorem remEuclid_add (m : ℕ) (z : ℤ) {t : K} (h0 : 0 ≤ t) (h1 : t < 1) :
    remEuclid (z + t) (m : K) = ((z % m : ℤ) : K) + t := by
  have hfloor : ⌊(z + t : K)⌋ = z := by
    rw [Int.floor_eq_iff]
    exact ⟨by linarith, by linarith⟩
  have hdiv : ⌊(z + t) / (m : K)⌋ = z / m := by
    rw [Int.floor_div_natCast, hfloor]
  have hemod : ((z % m : ℤ) : K) = z - m * ((z / m : ℤ) : K) := by
    rw [Int.emod_def]
    push_cast
    ring
  rw [remEuclid, hdiv, hemod]
  ring

/-- **Behind the cursor by a delay that is not whole**: the slot of the older neighbour, and how far
the position is beyond it. -/
theorem floor_remEuclid (line : DelayLine K) {d : K} (h0 : 0 < d) (h1 : ⌈d⌉₊ ≤ line.slots.length) :
    ⌊remEuclid (line.cursor - d) (line.slots.length : K)⌋₊ = line.position ⌈d⌉₊ ∧
      remEuclid (line.cursor - d) (line.slots.length : K) - line.position ⌈d⌉₊ = ⌈d⌉₊ - d := by
  have hlow : 0 ≤ (⌈d⌉₊ : K) - d := sub_nonneg.mpr (Nat.le_ceil d)
  have hhigh : (⌈d⌉₊ : K) - d < 1 := by linarith [Nat.ceil_lt_add_one h0.le]
  have hsplit : (line.cursor : K) - d = ((line.cursor : ℤ) - ⌈d⌉₊ : ℤ) + ((⌈d⌉₊ : K) - d) := by
    push_cast
    ring
  have hmod : ((line.cursor : ℤ) - ⌈d⌉₊) % (line.slots.length : ℤ) = line.position ⌈d⌉₊ := by
    rw [position, Int.natCast_mod, Nat.cast_sub (by omega), Nat.cast_add,
      show (line.cursor : ℤ) + line.slots.length - ⌈d⌉₊ =
        line.cursor - ⌈d⌉₊ + line.slots.length by ring, Int.add_emod_right]
  have hrem : remEuclid (line.cursor - d) (line.slots.length : K) =
      line.position ⌈d⌉₊ + ((⌈d⌉₊ : K) - d) := by
    rw [hsplit, remEuclid_add _ _ hlow hhigh, hmod, Int.cast_natCast]
  refine ⟨?_, by rw [hrem]; ring⟩
  rw [hrem, Nat.floor_eq_iff (by positivity)]
  exact ⟨by linarith, by linarith⟩

end Fractional

end DelayLine

end SonicBrew
