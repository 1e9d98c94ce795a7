import Mathlib.Data.List.GetD
import Mathlib.Logic.Function.Basic

/-!
# Two layouts of a block of samples

A block of samples of several channels can be kept in two ways: moment by moment, the channels in
turn, or channel by channel. An operation on the first two channels – a function of the two samples
of one moment – is a loop over positions in either case, and which loop is right depends on the
layout alone. Both are given here on positions, for `ch` channels with `k` samples each:
`SonicBrew.Layout.frameWise` takes the first two of every `ch` samples,
`SonicBrew.Layout.channelWise` the first `k` samples and the `k` after them.

They may do the same to a given block. They do the same to *every* block only if there is at most
one moment, or if nothing depends on the layout, since each of the samples is treated by itself and
all in the same way (`SonicBrew.Layout.agree_iff`).
-/

namespace SonicBrew

namespace Layout

variable {α : Type} (h : α → α → α × α)

/-- The first two of every `ch` samples. -/
def frameWise (ch : ℕ) (x : ℕ → α) (p : ℕ) : α :=
  if p % ch = 0 then (h (x p) (x (p + 1))).1
  else if p % ch = 1 then (h (x (p - 1)) (x p)).2
  else x p

/-- The first `k` samples, and the next `k`. -/
def channelWise (k : ℕ) (x : ℕ → α) (p : ℕ) : α :=
  if p < k then (h (x p) (x (k + p))).1
  else if p < 2 * k then (h (x (p - k)) (x p)).2
  else x p

variable {ch k p : ℕ}

section Moment

variable (x : ℕ → α) (m : ℕ)

theorem frameWise_first : frameWise h ch x (ch * m) = (h (x (ch * m)) (x (ch * m + 1))).1 := by
  rw [frameWise, if_pos (Nat.mul_mod_right ch m)]

theorem frameWise_second (hch : 2 ≤ ch) :
    frameWise h ch x (ch * m + 1) = (h (x (ch * m)) (x (ch * m + 1))).2 := by
  have hmod : (ch * m + 1) % ch = 1 := by rw [Nat.mul_add_mod, Nat.mod_eq_of_lt hch]
  rw [frameWise, if_neg (by omega), if_pos hmod, Nat.add_sub_cancel]

theorem frameWise_other {j : ℕ} (hj : 2 ≤ j) (hlt : j < ch) :
    frameWise h ch x (ch * m + j) = x (ch * m + j) := by
  have hmod : (ch * m + j) % ch = j := by rw [Nat.mul_add_mod, Nat.mod_eq_of_lt hlt]
  rw [frameWise, if_neg (by omega), if_neg (by omega)]

end Moment

/-- The second sample of a moment is in the block, if the first is. -/
theorem succ_lt (hch : 2 ≤ ch) (hp : p < ch * k) (hmod : p % ch = 0) : p + 1 < ch * k := by
  have hdiv : p / ch < k := Nat.div_lt_of_lt_mul hp
  have hsplit := Nat.div_add_mod p ch
  have hle : ch * (p / ch + 1) ≤ ch * k := Nat.mul_le_mul_left ch hdiv
  rw [Nat.mul_add, Nat.mul_one] at hle
  omega

/-- Only the samples of the block matter. -/
theorem frameWise_congr {x y : ℕ → α} (hch : 2 ≤ ch) (hxy : ∀ q < ch * k, x q = y q)
    (hp : p < ch * k) : frameWise h ch x p = frameWise h ch y p := by
  rw [frameWise, frameWise]
  split
  · rename_i hmod
    rw [hxy p hp, hxy (p + 1) (succ_lt hch hp hmod)]
  · rw [hxy p hp, hxy (p - 1) (by omega)]

theorem channelWise_congr {x y : ℕ → α} (hch : 2 ≤ ch) (hxy : ∀ q < ch * k, x q = y q)
    (hp : p < ch * k) : channelWise h k x p = channelWise h k y p := by
  have htwo : 2 * k ≤ ch * k := Nat.mul_le_mul_right k hch
  rw [channelWise, channelWise]
  split
  · rw [hxy p hp, hxy (k + p) (by omega)]
  · rw [hxy p hp, hxy (p - k) (by omega)]

/-- The operation treats each sample by itself, and all in the same way. -/
def Samplewise (u : α → α) : Prop := ∀ l r, h l r = (u l, u r)

variable {h}

section Samplewise

variable {u : α → α} (hu : Samplewise h u)

include hu

/-- Two samples of one value are treated alike. -/
theorem Samplewise.fst_eq_snd (a : α) : (h a a).1 = (h a a).2 := by rw [hu a a]

theorem Samplewise.fst_eq (l r s : α) : (h l r).1 = (h l s).1 := by rw [hu l r, hu l s]

theorem Samplewise.snd_eq (l m r : α) : (h l r).2 = (h m r).2 := by rw [hu l r, hu m r]

end Samplewise

/-- **At one moment there is only one layout.** -/
theorem agree_of_le_one (hk : k ≤ 1) (x : ℕ → α) (hp : p < ch * k) :
    frameWise h ch x p = channelWise h k x p := by
  obtain rfl | rfl : k = 0 ∨ k = 1 := by omega
  · exact absurd hp (Nat.not_lt_zero p)
  rw [Nat.mul_one] at hp
  rw [frameWise, channelWise, Nat.mod_eq_of_lt hp]
  rcases p with _ | _ | p
  · rfl
  · rfl
  · rfl

/-- **If the samples are treated one by one**, the layout does not matter as long as all of them
are. -/
theorem agree_of_samplewise {u : α → α} (hu : Samplewise h u) (hall : ch = 2 ∨ ∀ a, u a = a)
    (x : ℕ → α) (hp : p < ch * k) : frameWise h ch x p = channelWise h k x p := by
  simp only [frameWise, channelWise, hu _ _]
  rcases hall with rfl | hid
  · have hmod : p % 2 = 0 ∨ p % 2 = 1 := Nat.mod_two_eq_zero_or_one p
    have hframe :
        (if p % 2 = 0 then u (x p) else if p % 2 = 1 then u (x p) else x p) = u (x p) := by
      rcases hmod with hmod | hmod <;> simp [hmod]
    rw [hframe, if_pos hp, ite_self]
  · simp only [hid, ite_self]

/-- A block with given samples at three positions. -/
theorem exists_block (a b c : α) {m : ℕ} (hm : 1 < m) :
    ∃ x : ℕ → α, x 0 = a ∧ x 1 = b ∧ x m = c := by
  refine ⟨fun p => if p = 0 then a else if p = 1 then b else c, rfl, rfl, ?_⟩
  show (if m = 0 then a else if m = 1 then b else c) = c
  rw [if_neg (by omega), if_neg (by omega)]

/-- **Conversely, at two moments or more**: the second sample is the second of the first moment in
one layout, and the first of the second moment in the other. -/
theorem samplewise_of_agree (hch : 2 ≤ ch) (hk : 1 < k)
    (hagree : ∀ x : ℕ → α, ∀ p < ch * k, frameWise h ch x p = channelWise h k x p) :
    Samplewise h fun a => (h a a).1 := by
  have htwo : 2 * k ≤ ch * k := Nat.mul_le_mul_right k hch
  have hcross : ∀ a b c, (h a b).2 = (h b c).1 := by
    intro a b c
    obtain ⟨x, h0, h1, hm⟩ := exists_block a b c (show 1 < k + 1 by omega)
    have hone := hagree x 1 (by omega)
    rw [frameWise, channelWise, Nat.mod_eq_of_lt (show 1 < ch by omega), if_neg Nat.one_ne_zero,
      if_pos rfl, if_pos hk, h0, h1, hm] at hone
    exact hone
  intro l r
  refine Prod.ext ?_ (hcross l r r)
  rw [← hcross l l r, ← hcross l l l]

/-- **The two loops do the same to every block** exactly if there is at most one moment, or each
sample is treated by itself, and the others are left alone by this too. -/
theorem agree_iff (hch : 2 ≤ ch) :
    (∀ x : ℕ → α, ∀ p < ch * k, frameWise h ch x p = channelWise h k x p) ↔
      k ≤ 1 ∨ ∃ u, Samplewise h u ∧ (ch = 2 ∨ ∀ a, u a = a) := by
  constructor
  · intro hagree
    refine or_iff_not_imp_left.mpr fun hk => ?_
    obtain ⟨u, hu⟩ : ∃ u, Samplewise h u := ⟨_, samplewise_of_agree hch (Nat.not_le.mp hk) hagree⟩
    refine ⟨u, hu, or_iff_not_imp_left.mpr fun hne a => ?_⟩
    have hthree : 3 * k ≤ ch * k := Nat.mul_le_mul_right k (by omega)
    -- the third sample is of the third channel in one layout, and of the first two in the other
    have htwo := hagree (fun _ => a) 2 (by omega)
    simp only [frameWise, channelWise, hu _ _, Nat.mod_eq_of_lt (show 2 < ch by omega)] at htwo
    rw [if_neg (by decide), if_neg (by decide), if_pos (show 2 < 2 * k by omega), ite_self] at htwo
    exact htwo.symm
  · rintro (hk | ⟨u, hu, hall⟩) x p hp
    · exact agree_of_le_one hk x hp
    · exact agree_of_samplewise hu hall x hp

/-! ### Lists by position -/

section Positions

variable {d : α} {xs ys : List α}

theorem ext_getD (d : α) (hlen : xs.length = ys.length)
    (hpos : ∀ p < xs.length, xs.getD p d = ys.getD p d) : xs = ys := by
  refine List.ext_getElem hlen fun p hx hy => ?_
  rw [← List.getD_eq_getElem xs d hx, ← List.getD_eq_getElem ys d hy]
  exact hpos p hx

theorem getD_set {i : ℕ} (hi : i < xs.length) (a : α) (p : ℕ) :
    (xs.set i a).getD p d = if i = p then a else xs.getD p d := by
  rw [List.getD_eq_getElem?_getD, List.getElem?_set, List.getD_eq_getElem?_getD]
  split <;> simp_all

theorem getD_zipWith (f : α → α → α) {j : ℕ} (hx : j < xs.length) (hy : j < ys.length) :
    (List.zipWith f xs ys).getD j d = f (xs.getD j d) (ys.getD j d) := by
  have hlen : j < (List.zipWith f xs ys).length := by
    rw [List.length_zipWith]
    omega
  rw [List.getD_eq_getElem _ _ hlen, List.getElem_zipWith, List.getD_eq_getElem _ _ hx,
    List.getD_eq_getElem _ _ hy]

end Positions

end Layout

end SonicBrew
