import SonicBrew.Lib.Blocks
import SonicBrew.Lib.Wire

/-!
# Memory

Memory is a byte at every address. What is stored byte by byte in ascending order is stored at once
(`SonicBrew.Memory.store_append`), so a loop that fills a region has done one store, and what it has
left alone can be read off that store (`SonicBrew.Memory.store_apply_of_outside`). What was stored
is loaded again (`SonicBrew.Memory.load_store`), and a region is loaded piece by piece as well as at
once (`SonicBrew.Memory.block_load`). A store in one region does not show in a region apart from it
(`SonicBrew.Memory.load_store_of_apart`).
-/

namespace SonicBrew

/-- A byte at every address. -/
abbrev Memory : Type := ℕ → UInt8

namespace Memory

variable (m : Memory) {a b n : ℕ} {bytes : Bytes}

/-- The `n` bytes from an address on. -/
def load (a n : ℕ) : Bytes := (List.range n).map fun i => m (a + i)

/-- Put bytes at an address and the following ones. -/
def store (a : ℕ) (bytes : Bytes) : Memory :=
  fun b => if a ≤ b then bytes.getD (b - a) (m b) else m b

/-- Two regions, each given by its address and its size, have no byte in common. -/
def Apart (a n b k : ℕ) : Prop := a + n ≤ b ∨ b + k ≤ a

instance (a n b k : ℕ) : Decidable (Apart a n b k) := inferInstanceAs (Decidable (_ ∨ _))

theorem Apart.symm {k : ℕ} (h : Apart a n b k) : Apart b k a n := Or.symm h

/-- Parts of regions that are apart are apart. -/
theorem Apart.shrink {k a' n' b' k' : ℕ} (h : Apart a n b k) (ha : a ≤ a') (hn : a' + n' ≤ a + n)
    (hb : b ≤ b') (hk : b' + k' ≤ b + k) : Apart a' n' b' k' := by
  rw [Apart] at *
  omega

/-! ### Stores -/

theorem store_nil (a : ℕ) : m.store a [] = m := by
  funext b
  rw [store, List.getD_nil, ite_self]

/-- **The bytes in the region are the new ones.** -/
theorem store_apply_add {i : ℕ} {x : UInt8} (h : bytes[i]? = some x) (a : ℕ) :
    m.store a bytes (a + i) = x := by
  rw [store, if_pos (Nat.le_add_right a i), Nat.add_sub_cancel_left, List.getD_eq_getElem?_getD, h,
    Option.getD_some]

/-- **All others are as before.** -/
theorem store_apply_of_outside (h : b < a ∨ a + bytes.length ≤ b) : m.store a bytes b = m b := by
  rw [store]
  split
  · rw [List.getD_eq_getElem?_getD, List.getElem?_eq_none (by omega), Option.getD_none]
  · rfl

/-- **Two stores that follow one another are one.** -/
theorem store_append (a : ℕ) (xs ys : Bytes) :
    m.store a (xs ++ ys) = (m.store a xs).store (a + xs.length) ys := by
  funext b
  rcases Nat.lt_or_ge b a with hba | hab
  · have hfirst : m.store a xs b = m b := m.store_apply_of_outside (Or.inl hba)
    have hsecond : (m.store a xs).store (a + xs.length) ys b = m.store a xs b :=
      (m.store a xs).store_apply_of_outside (Or.inl (by omega))
    rw [hsecond, hfirst]
    exact m.store_apply_of_outside (Or.inl hba)
  obtain ⟨i, rfl⟩ := Nat.exists_eq_add_of_le hab
  rcases Nat.lt_or_ge i xs.length with hi | hi
  · have hsecond : (m.store a xs).store (a + xs.length) ys (a + i) = m.store a xs (a + i) :=
      (m.store a xs).store_apply_of_outside (Or.inl (by omega))
    rw [hsecond, m.store_apply_add (List.getElem?_eq_getElem hi) a]
    exact m.store_apply_add (by rw [List.getElem?_append_left hi, List.getElem?_eq_getElem hi]) a
  · obtain ⟨j, rfl⟩ := Nat.exists_eq_add_of_le hi
    have hget : (xs ++ ys)[xs.length + j]? = ys[j]? := by
      rw [List.getElem?_append_right hi, Nat.add_sub_cancel_left]
    rcases hj : ys[j]? with _ | y
    · have hys : ys.length ≤ j := List.getElem?_eq_none_iff.mp hj
      have hfirst : m.store a xs (a + (xs.length + j)) = m (a + (xs.length + j)) :=
        m.store_apply_of_outside (Or.inr (by omega))
      have hsecond : (m.store a xs).store (a + xs.length) ys (a + (xs.length + j)) =
          m.store a xs (a + (xs.length + j)) :=
        (m.store a xs).store_apply_of_outside (Or.inr (by omega))
      rw [hsecond, hfirst]
      exact m.store_apply_of_outside (Or.inr (by rw [List.length_append]; omega))
    · rw [m.store_apply_add (hget.trans hj) a, ← Nat.add_assoc,
        (m.store a xs).store_apply_add hj (a + xs.length)]

/-! ### Loads -/

@[simp] theorem length_load (a n : ℕ) : (m.load a n).length = n := by
  rw [load, List.length_map, List.length_range]

theorem getElem?_load {i : ℕ} (h : i < n) (a : ℕ) : (m.load a n)[i]? = some (m (a + i)) := by
  rw [load, List.getElem?_map, List.getElem?_range h, Option.map_some]

theorem take_load {k : ℕ} (h : k ≤ n) (a : ℕ) : (m.load a n).take k = m.load a k := by
  rw [load, ← List.map_take, List.take_range, Nat.min_eq_left h, load]

/-- **What was stored is loaded.** -/
theorem load_store (a : ℕ) (bytes : Bytes) :
    (m.store a bytes).load a bytes.length = bytes := by
  refine List.ext_getElem? fun i => ?_
  rcases Nat.lt_or_ge i bytes.length with hi | hi
  · rw [getElem?_load _ hi, List.getElem?_eq_getElem hi,
      m.store_apply_add (List.getElem?_eq_getElem hi)]
  · rw [List.getElem?_eq_none hi, List.getElem?_eq_none (by rw [length_load]; exact hi)]

/-- The front of a region that something was stored at is what was stored. -/
theorem load_store_of_le (h : bytes.length ≤ n) (a : ℕ) :
    (m.store a bytes).load a n = bytes ++ (m.load a n).drop bytes.length := by
  refine List.ext_getElem? fun i => ?_
  rcases Nat.lt_or_ge i n with hi | hi
  · rw [getElem?_load _ hi]
    rcases Nat.lt_or_ge i bytes.length with hlt | hge
    · rw [m.store_apply_add (List.getElem?_eq_getElem hlt), List.getElem?_append_left hlt,
        List.getElem?_eq_getElem hlt]
    · rw [m.store_apply_of_outside (Or.inr (by omega)), List.getElem?_append_right hge,
        List.getElem?_drop, Nat.add_sub_cancel' hge, getElem?_load _ hi]
  · have hlen : (bytes ++ (m.load a n).drop bytes.length).length = n := by
      rw [List.length_append, List.length_drop, length_load, Nat.add_sub_cancel' h]
    rw [List.getElem?_eq_none (by rw [length_load]; exact hi),
      List.getElem?_eq_none (by rw [hlen]; exact hi)]

/-- **A region that nothing was stored in is loaded as before.** -/
theorem load_store_of_apart (h : Apart a n b bytes.length) :
    (m.store b bytes).load a n = m.load a n := by
  refine List.map_congr_left fun i hi => ?_
  have hin : i < n := List.mem_range.mp hi
  rw [Apart] at h
  exact m.store_apply_of_outside (by omega)

/-- **A region is loaded piece by piece.** -/
theorem block_load {i k : ℕ} (hi : i < k) (a n : ℕ) :
    block n i (m.load a (k * n)) = m.load (a + i * n) n := by
  have hfit : i * n + n ≤ k * n := by
    rw [← Nat.succ_mul]
    exact Nat.mul_le_mul_right n hi
  refine List.ext_getElem? fun j => ?_
  rcases Nat.lt_or_ge j n with hj | hj
  · rw [block, List.getElem?_take_of_lt hj, List.getElem?_drop, getElem?_load _ (by omega),
      getElem?_load _ hj, Nat.add_assoc]
  · have hblock : (block n i (m.load a (k * n))).length ≤ j := by
      rw [block, List.length_take]
      omega
    rw [List.getElem?_eq_none hblock, List.getElem?_eq_none (by rw [length_load]; exact hj)]

end Memory

end SonicBrew
