import Mathlib.Data.List.Basic

/-!
# Lists in blocks of one length

A list whose elements belong together in runs of one length: the bytes of machine words, or the
samples of one channel after the other. `SonicBrew.block` is one of these runs and
`SonicBrew.blocks` the first few of them.

Blocks undo the concatenation of pieces of that length (`SonicBrew.blocks_flatMap`), and
concatenation undoes blocks (`SonicBrew.flatten_blocks`). So a list of values that are all written
with one width is read back block by block, in both directions
(`SonicBrew.map_blocks_flatMap`, `SonicBrew.flatMap_map_blocks`). Where the pieces are put together
row by row, the block at a row and a column is the piece there
(`SonicBrew.block_flatMap_flatMap_range`).
-/

namespace SonicBrew

variable {α β : Type}

/-- The `i`-th block of length `n`. -/
def block (n i : ℕ) (xs : List α) : List α := (xs.drop (i * n)).take n

/-- A place in one of the first `k` blocks is among their places. -/
theorem mul_add_lt_mul {n k i j : ℕ} (hi : i < k) (hj : j < n) : i * n + j < k * n :=
  calc i * n + j < i * n + n := Nat.add_lt_add_left hj _
    _ = (i + 1) * n := (Nat.succ_mul i n).symm
    _ ≤ k * n := Nat.mul_le_mul_right n hi

theorem length_block {n i : ℕ} {xs : List α} (h : (i + 1) * n ≤ xs.length) :
    (block n i xs).length = n := by
  rw [Nat.succ_mul] at h
  rw [block, List.length_take, List.length_drop]
  omega

/-- The elements of a block, in the list that it is from. -/
theorem getD_block {n i j : ℕ} (hj : j < n) (xs : List α) (d : α) :
    (block n i xs).getD j d = xs.getD (i * n + j) d := by
  rw [block, List.getD_eq_getElem?_getD, List.getElem?_take_of_lt hj, List.getElem?_drop,
    ← List.getD_eq_getElem?_getD]

/-- The first `k` blocks of length `n`. -/
def blocks (n k : ℕ) (xs : List α) : List (List α) := (List.range k).map fun i => block n i xs

theorem block_zero (n : ℕ) (xs : List α) : block n 0 xs = xs.take n := by
  rw [block, Nat.zero_mul, List.drop_zero]

theorem block_succ (n i : ℕ) (xs : List α) : block n (i + 1) xs = block n i (xs.drop n) := by
  rw [block, block, List.drop_drop, Nat.succ_mul, Nat.add_comm]

theorem blocks_succ (n k : ℕ) (xs : List α) :
    blocks n (k + 1) xs = xs.take n :: blocks n k (xs.drop n) := by
  rw [blocks, List.range_succ_eq_map, List.map_cons, List.map_map, block_zero]
  exact congrArg (_ :: ·) (List.map_congr_left fun i _ => block_succ n i xs)

/-- **The blocks of pieces put together are the pieces.** -/
theorem blocks_flatMap {n : ℕ} {f : β → List α} (hf : ∀ b, (f b).length = n) (bs : List β) :
    blocks n bs.length (bs.flatMap f) = bs.map f := by
  induction bs with
  | nil => rfl
  | cons b bs ih =>
    rw [List.length_cons, blocks_succ, List.flatMap_cons, List.take_left' (hf b),
      List.drop_left' (hf b), ih, List.map_cons]

/-- **Blocks put together are what they are blocks of.** -/
theorem flatten_blocks {n k : ℕ} {xs : List α} (h : xs.length = k * n) :
    (blocks n k xs).flatten = xs := by
  induction k generalizing xs with
  | zero =>
    rw [Nat.zero_mul] at h
    exact (List.eq_nil_of_length_eq_zero h).symm
  | succ k ih =>
    have hrest : (xs.drop n).length = k * n := by
      rw [List.length_drop, h, Nat.succ_mul, Nat.add_sub_cancel]
    rw [blocks_succ, List.flatten_cons, ih hrest, List.take_append_drop]

/-- Pieces of one length put together, with something behind them. -/
theorem block_flatten_append {n i : ℕ} {bs : List (List α)} {b : List α}
    (hbs : ∀ b ∈ bs, b.length = n) (hi : bs[i]? = some b) (rest : List α) :
    block n i (bs.flatten ++ rest) = b := by
  induction bs generalizing i with
  | nil => simp at hi
  | cons first bs ih =>
    obtain ⟨hfirst, hbs⟩ := List.forall_mem_cons.mp hbs
    rw [List.flatten_cons, List.append_assoc]
    cases i with
    | zero =>
      rw [block_zero, List.take_left' hfirst]
      exact Option.some.inj hi
    | succ i =>
      rw [block_succ, List.drop_left' hfirst]
      exact ih hbs hi

theorem length_of_mem_blocks {n k : ℕ} {xs b : List α} (h : k * n ≤ xs.length)
    (hb : b ∈ blocks n k xs) : b.length = n := by
  obtain ⟨i, hi, rfl⟩ := List.mem_map.mp hb
  exact length_block (Nat.le_trans (Nat.mul_le_mul_right n (List.mem_range.mp hi)) h)

section Code

variable {n : ℕ} {f : β → List α} {g : List α → β}

/-- **Values of one width are read back block by block.** -/
theorem map_blocks_flatMap (hf : ∀ b, (f b).length = n) (hgf : ∀ b, g (f b) = b) (bs : List β) :
    (blocks n bs.length (bs.flatMap f)).map g = bs := by
  rw [blocks_flatMap hf, List.map_map]
  exact List.map_id'' hgf bs

/-- **Values that are read block by block are written as the same blocks.** -/
theorem flatMap_map_blocks {k : ℕ} {xs : List α} (hfg : ∀ c : List α, c.length = n → f (g c) = c)
    (h : xs.length = k * n) : ((blocks n k xs).map g).flatMap f = xs := by
  have hsame : (blocks n k xs).flatMap (fun c => f (g c)) = (blocks n k xs).flatMap id :=
    List.flatMap_congr fun c hc => hfg c (length_of_mem_blocks (Nat.le_of_eq h.symm) hc)
  rw [List.flatMap_map, hsame, List.flatMap_id, flatten_blocks h]

end Code

/-! ### Blocks of blocks -/

/-- Blocks of `m * w` are cut into blocks of `w`. -/
theorem block_block {w m c : ℕ} (hc : c < m) (i : ℕ) (xs : List α) :
    block w c (block (m * w) i xs) = block w (i * m + c) xs := by
  have hfit : c * w + w ≤ m * w := by
    rw [← Nat.succ_mul]
    exact Nat.mul_le_mul_right w hc
  rw [block, block, block, List.drop_take, List.take_take, List.drop_drop,
    Nat.min_eq_left (by omega), Nat.add_mul, Nat.mul_assoc]

theorem length_flatMap_range {w n : ℕ} {g : ℕ → List α} (hg : ∀ i < n, (g i).length = w) :
    ((List.range n).flatMap g).length = n * w := by
  induction n with
  | zero => rw [List.range_zero, List.flatMap_nil, List.length_nil, Nat.zero_mul]
  | succ n ih =>
    rw [List.range_succ, List.flatMap_append, List.length_append, List.flatMap_singleton,
      ih fun i hi => hg i (Nat.lt_succ_of_lt hi), hg n (Nat.lt_succ_self n), Nat.succ_mul]

/-- **The blocks of numbered pieces put together are the pieces.** -/
theorem block_flatMap_range {w n i : ℕ} {g : ℕ → List α} (hg : ∀ i < n, (g i).length = w)
    (hi : i < n) : block w i ((List.range n).flatMap g) = g i := by
  induction n generalizing i g with
  | zero => exact absurd hi (Nat.not_lt_zero i)
  | succ n ih =>
    have hzero : (g 0).length = w := hg 0 (Nat.succ_pos n)
    rw [List.range_succ_eq_map, List.flatMap_cons, List.flatMap_map]
    cases i with
    | zero => rw [block_zero, List.take_left' hzero]
    | succ i =>
      rw [block_succ, List.drop_left' hzero]
      exact ih (fun j hj => hg (j + 1) (Nat.succ_lt_succ hj)) (Nat.lt_of_succ_lt_succ hi)

/-- The same, when the pieces are put together row by row. -/
theorem block_flatMap_flatMap_range {w m n i c : ℕ} {g : ℕ → ℕ → List α}
    (hg : ∀ i < n, ∀ c < m, (g i c).length = w) (hi : i < n) (hc : c < m) :
    block w (i * m + c) ((List.range n).flatMap fun i => (List.range m).flatMap (g i)) =
      g i c := by
  rw [← block_block hc, block_flatMap_range (fun j hj => length_flatMap_range (hg j hj)) hi,
    block_flatMap_range (hg i hi) hc]

/-- **A list is what its blocks are, position by position.** -/
theorem flatMap_range_getElem? {n k : ℕ} {xs : List α} {f : Option α → β} {g : α → β}
    (hfg : ∀ a, f (some a) = g a) (h : xs.length = k * n) :
    ((List.range k).flatMap fun c => (List.range n).map fun i => f xs[c * n + i]?) = xs.map g := by
  have hrow : ∀ c ∈ List.range k,
      ((List.range n).map fun i => f xs[c * n + i]?) = (block n c xs).map g := by
    intro c hc
    have hfit : (c + 1) * n ≤ xs.length := by
      rw [h]
      exact Nat.mul_le_mul_right n (List.mem_range.mp hc)
    rw [Nat.succ_mul] at hfit
    refine List.ext_getElem? fun i => ?_
    rw [List.getElem?_map, List.getElem?_map, block]
    by_cases hi : i < n
    · have hlt : c * n + i < xs.length := by omega
      rw [List.getElem?_range hi, List.getElem?_take_of_lt hi, List.getElem?_drop, Option.map_some,
        List.getElem?_eq_getElem hlt, hfg]
      rfl
    · rw [List.getElem?_eq_none (by rw [List.length_range]; omega),
        List.getElem?_eq_none (by rw [List.length_take]; omega)]
      rfl
  calc _ = (List.range k).flatMap fun c => (block n c xs).map g := List.flatMap_congr hrow
    _ = ((blocks n k xs).flatten).map g := by
      rw [blocks, List.map_flatten, List.map_map, List.flatMap_def]
      rfl
    _ = xs.map g := by rw [flatten_blocks h]

theorem length_flatMap_of_forall {n : ℕ} {f : β → List α} (hf : ∀ b, (f b).length = n)
    (bs : List β) : (bs.flatMap f).length = bs.length * n := by
  induction bs with
  | nil => rw [List.flatMap_nil, List.length_nil, List.length_nil, Nat.zero_mul]
  | cons b bs ih =>
    rw [List.flatMap_cons, List.length_append, hf, ih, List.length_cons, Nat.succ_mul, Nat.add_comm]

end SonicBrew
