import SonicBrew.NetRtp.Worker

/-!
# Draining a jitter buffer

`drain_jitter` has two loops. The inner one takes out packets as long as the one that is due is
there; the outer one, when packets are left over, gives up the gap before the nearest of them and
starts again. It has a second way out, for the case that there are packets left and no gap could be
given up, and whatever is in the buffer then would stay there.

It is never taken. In a buffer that was only ever pushed to, popped from and skipped in, every
packet is less than half a turn ahead of the one that is due (`SonicBrew.NetRtp.JitterInv`), and
so the nearest is found (`SonicBrew.NetRtp.JitterBuffer.Windowed.skipGap`). Hence all packets come
out, and in the order in which they are ahead (`SonicBrew.NetRtp.JitterBuffer.Windowed.drained`).
-/

namespace SonicBrew

namespace NetRtp

namespace JitterBuffer

variable {T : Type} {j : JitterBuffer T}

/-- **The window**: every packet that waits is less than half a turn ahead of the number that is
due. -/
structure Windowed (j : JitterBuffer T) : Prop where
  fresh : j.nextSeq = none → j.buf = ∅
  window : ∀ base, j.nextSeq = some base → ∀ s ∈ j.buf, gap base s < 32768

/-! ### One turn of the outer loop -/

theorem drain_of_isEmpty (h : j.popRun.2.isEmpty = true) : j.drain = j.popRun := by
  rw [drain, if_pos h]

theorem drain_of_stuck {left : JitterBuffer T} (h : j.popRun.2.isEmpty = false)
    (hskip : j.popRun.2.skipGap = (0, left)) : j.drain = (j.popRun.1, left) := by
  rw [drain, if_neg (Bool.eq_false_iff.mp h)]
  split
  · rename_i hzero
    obtain ⟨-, rfl⟩ := Prod.mk.inj (hskip.symm.trans hzero)
    rfl
  · rename_i hsucc
    cases hskip.symm.trans hsucc

theorem drain_of_skipped {left : JitterBuffer T} {n : ℕ} (h : j.popRun.2.isEmpty = false)
    (hskip : j.popRun.2.skipGap = (n + 1, left)) :
    j.drain = (j.popRun.1 ++ left.drain.1, left.drain.2) := by
  rw [drain, if_neg (Bool.eq_false_iff.mp h)]
  split
  · rename_i hzero
    cases hskip.symm.trans hzero
  · rename_i hsucc
    obtain ⟨-, rfl⟩ := Prod.mk.inj (hskip.symm.trans hsucc)
    rfl

/-! ### One packet, one gap -/

/-- The packet that is due comes first, and then whatever comes without it. -/
theorem drain_of_lookup {next : UInt16} {val : T} (hnext : j.nextSeq = some next)
    (hval : j.buf.lookup next = some val) :
    j.drain =
      (val :: (drain { j with nextSeq := some (next + 1), buf := j.buf.erase next }).1,
        (drain { j with nextSeq := some (next + 1), buf := j.buf.erase next }).2) := by
  have hrun := popRun_of_lookup hnext hval
  generalize ({ j with nextSeq := some (next + 1), buf := j.buf.erase next } :
    JitterBuffer T) = rest at hrun ⊢
  -- what happens after the run is the same with and without the packet
  have hafter : j.popRun.2 = rest.popRun.2 := by rw [hrun]
  cases hempty : rest.popRun.2.isEmpty with
  | true =>
    rw [drain_of_isEmpty (hafter ▸ hempty), drain_of_isEmpty hempty, hrun]
  | false =>
    rcases hskip : rest.popRun.2.skipGap with ⟨_ | n, left⟩
    · rw [drain_of_stuck (hafter ▸ hempty) (hafter ▸ hskip), drain_of_stuck hempty hskip, hrun]
    · rw [drain_of_skipped (hafter ▸ hempty) (hafter ▸ hskip), drain_of_skipped hempty hskip, hrun]
      rfl

/-- With nothing due, a gap is given up. -/
theorem drain_of_skipGap {left : JitterBuffer T} {n : ℕ} (hdue : ¬j.Due)
    (hempty : j.isEmpty = false) (hskip : j.skipGap = (n + 1, left)) : j.drain = left.drain := by
  have hrun := popRun_of_not_due hdue
  have hafter : j.popRun.2 = j := by rw [hrun]
  rw [drain_of_skipped (by rw [hafter, hempty]) (by rw [hafter, hskip]), hrun]
  rfl

theorem buf_eq_empty (h : j.isEmpty = true) : j.buf = ∅ :=
  AList.ext (List.isEmpty_iff.mp h)

namespace Windowed

/-- Taking out the packet that is due leaves a window. -/
theorem pop (h : j.Windowed) {next : UInt16} (hnext : j.nextSeq = some next) :
    Windowed { j with nextSeq := some (next + 1), buf := j.buf.erase next } where
  fresh hnone := by cases hnone
  window := by
    rintro _ hbase s hs
    obtain rfl := Option.some.inj hbase
    obtain ⟨hne, hmem⟩ := AList.mem_erase.mp hs
    have hlt := h.window next hnext s hmem
    have hpos : gap next s ≠ 0 := fun h0 => hne (gap_eq_zero.mp h0)
    have hone := gap_succ_self next
    have hsplit := gap_split (show gap next (next + 1) ≤ gap next s by omega)
    omega

/-- **Where nothing is due and packets wait, a gap is given up**, and then one of them is due: the
nearest. -/
theorem skipGap (h : j.Windowed) (hdue : ¬j.Due) (hempty : j.isEmpty = false) :
    ∃ base s, j.nextSeq = some base ∧ s ∈ j.buf ∧ 0 < gap base s ∧
      (∀ t ∈ j.buf, gap base s ≤ gap base t) ∧
      j.skipGap = (gap base s, { j with nextSeq := some s }) := by
  have hearly : ∀ base, j.nextSeq = some base → ∀ t ∈ j.buf, Early base t := by
    intro base hbase t ht
    refine ⟨Nat.pos_of_ne_zero fun h0 => hdue ⟨base, hbase, ?_⟩, h.window base hbase t ht⟩
    rwa [gap_eq_zero.mp h0] at ht
  rcases j.skipGap_cases with ⟨-, hstay⟩ | ⟨base, s, hbase, -, hs, hse, hmin, heq⟩
  · -- it would have stayed only in an empty buffer
    obtain ⟨e, he⟩ : ∃ e, e ∈ j.buf.entries := by
      refine List.exists_mem_of_ne_nil _ fun hnil => ?_
      rw [isEmpty, hnil] at hempty
      cases hempty
    have hmem : e.1 ∈ j.buf := List.mem_keys_of_mem he
    rcases hnext : j.nextSeq with _ | base
    · rw [h.fresh hnext] at hmem
      exact absurd hmem (AList.notMem_empty e.1)
    · rcases hstay base hnext with hin | hlate
      · exact absurd ⟨base, hnext, hin⟩ hdue
      · exact absurd (hearly base hnext e.1 hmem) (hlate e.1 hmem)
  · exact ⟨base, s, hbase, hs, hse.1, fun t ht => hmin t ht (hearly base hbase t ht), heq⟩

/-- Giving up the gap before the nearest packet leaves a window. -/
theorem moveOn (h : j.Windowed) {base s : UInt16} (hbase : j.nextSeq = some base)
    (hmin : ∀ t ∈ j.buf, gap base s ≤ gap base t) :
    Windowed { j with nextSeq := some s } where
  fresh hnone := by cases hnone
  window := by
    rintro _ hs t ht
    obtain rfl := Option.some.inj hs
    have hsplit := gap_split (hmin t ht)
    have hlt := h.window base hbase t ht
    omega

end Windowed

/-! ### All packets -/

/-- **What a drain hands out**: the packets that wait, in the order in which they are ahead; and
none is left. -/
structure Drained (j : JitterBuffer T) (packets : List (Σ _ : UInt16, T)) : Prop where
  perm : packets.Perm j.buf.entries
  ordered : ∀ base, j.nextSeq = some base →
    packets.Pairwise fun p q => gap base p.1 < gap base q.1
  payloads : j.drain.1 = packets.map Sigma.snd
  empty : j.drain.2.isEmpty = true

theorem drained_of_isEmpty (h : j.isEmpty = true) : j.Drained [] where
  perm := by
    rw [buf_eq_empty h]
    exact List.Perm.refl _
  ordered _ _ := List.Pairwise.nil
  payloads := by rw [drain_of_empty (buf_eq_empty h), List.map_nil]
  empty := by
    rw [drain_of_empty (buf_eq_empty h)]
    exact h

namespace Drained

variable {packets : List (Σ _ : UInt16, T)}

/-- The packet that is due, and then the others. -/
theorem pop {next : UInt16} {val : T} (hnext : j.nextSeq = some next)
    (hval : j.buf.lookup next = some val)
    (h : Drained { j with nextSeq := some (next + 1), buf := j.buf.erase next } packets) :
    j.Drained (⟨next, val⟩ :: packets) where
  perm := by
    obtain ⟨l₁, l₂, hentries, herased⟩ := entries_of_lookup hval
    have hperm := h.perm
    dsimp only at hperm
    rw [herased] at hperm
    rw [hentries]
    exact (hperm.cons _).trans List.perm_middle.symm
  ordered := by
    rintro _ hbase
    obtain rfl := Option.some.inj (hnext.symm.trans hbase)
    have hone := gap_succ_self next
    -- one step more than from the number after it
    have hsplit : ∀ p ∈ packets, gap next p.1 = 1 + gap (next + 1) p.1 := by
      intro p hp
      have hkey : p.1 ∈ j.buf.erase next := List.mem_keys_of_mem (h.perm.mem_iff.mp hp)
      have hpos : gap next p.1 ≠ 0 := fun h0 => (AList.mem_erase.mp hkey).1 (gap_eq_zero.mp h0)
      rw [gap_split (show gap next (next + 1) ≤ gap next p.1 by omega), hone]
    refine List.Pairwise.cons (fun q hq => ?_) ((h.ordered _ rfl).imp_of_mem fun hp hq hlt => ?_)
    · rw [gap_self, hsplit q hq]
      omega
    · rw [hsplit _ hp, hsplit _ hq]
      omega
  payloads := by rw [drain_of_lookup hnext hval, h.payloads, List.map_cons]
  empty := by
    rw [drain_of_lookup hnext hval]
    exact h.empty

/-- A gap that no packet is in. -/
theorem moveOn {base s : UInt16} (hbase : j.nextSeq = some base)
    (hmin : ∀ t ∈ j.buf, gap base s ≤ gap base t)
    (hdrain : j.drain = drain { j with nextSeq := some s })
    (h : Drained { j with nextSeq := some s } packets) : j.Drained packets where
  perm := h.perm
  ordered := by
    rintro _ hsome
    obtain rfl := Option.some.inj (hbase.symm.trans hsome)
    have hsplit : ∀ p ∈ packets, gap base p.1 = gap base s + gap s p.1 := fun p hp =>
      gap_split (hmin p.1 (List.mem_keys_of_mem (h.perm.mem_iff.mp hp)))
    refine (h.ordered s rfl).imp_of_mem fun hp hq hlt => ?_
    rw [hsplit _ hp, hsplit _ hq]
    omega
  payloads := by rw [hdrain, h.payloads]
  empty := by
    rw [hdrain]
    exact h.empty

end Drained

/-- **All packets come out**, in the order in which they are ahead. -/
theorem Windowed.drained (h : j.Windowed) : ∃ packets, j.Drained packets := by
  induction hn : j.len using Nat.strongRecOn generalizing j with
  | ind n ih =>
    subst hn
    have hdue : ∀ k : JitterBuffer T, k.Windowed → k.len = j.len → k.Due →
        ∃ packets, k.Drained packets := by
      rintro k hk hlen ⟨next, hnext, hmem⟩
      obtain ⟨val, hval⟩ := Option.isSome_iff_exists.mp (AList.lookup_isSome.mpr hmem)
      obtain ⟨packets, hpackets⟩ :=
        ih _ (hlen ▸ len_pop_lt (pop_of_lookup hnext hval)) (hk.pop hnext) rfl
      exact ⟨_, hpackets.pop hnext hval⟩
    cases hempty : j.isEmpty with
    | true => exact ⟨[], drained_of_isEmpty hempty⟩
    | false =>
      by_cases hj : j.Due
      · exact hdue j h rfl hj
      · -- a gap first, and then the nearest packet is due
        obtain ⟨base, s, hbase, hs, hpos, hmin, hskip⟩ := h.skipGap hj hempty
        obtain ⟨packets, hpackets⟩ := hdue _ (h.moveOn hbase hmin) rfl ⟨s, rfl, hs⟩
        rw [← Nat.sub_add_cancel hpos] at hskip
        exact ⟨packets, hpackets.moveOn hbase hmin (drain_of_skipGap hj hempty hskip)⟩

/-! ### The way out that is not taken -/

/-- The inner loop ends with nothing due, and in a window. -/
theorem Windowed.popRun (h : j.Windowed) : j.popRun.2.Windowed ∧ ¬j.popRun.2.Due := by
  induction hn : j.len using Nat.strongRecOn generalizing j with
  | ind n ih =>
    by_cases hdue : j.Due
    · obtain ⟨next, hnext, hmem⟩ := hdue
      obtain ⟨val, hval⟩ := Option.isSome_iff_exists.mp (AList.lookup_isSome.mpr hmem)
      have hlt := len_pop_lt (pop_of_lookup hnext hval)
      rw [popRun_of_lookup hnext hval]
      exact ih _ (hn ▸ hlt) (h.pop hnext) rfl
    · rw [popRun_of_not_due hdue]
      exact ⟨h, hdue⟩

end JitterBuffer

end NetRtp

end SonicBrew
