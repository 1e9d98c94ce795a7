import Mathlib.Data.List.AList
import Mathlib.Order.Basic
import SonicBrew.Lib.Circular

/-!
# The jitter buffer

Packets arrive out of order, twice or not at all; the buffer hands them out in the order of
their sequence numbers, which are sixteen bits wide and wrap. Everything is relative to the
number that is due next: a packet counts as early if its number is less than half a turn ahead
of it and as late otherwise. Late ones are refused, so that every buffered number stays within
half a turn of the one that is due, and there the wrapped numbers are ordered like the numbers
of a counter that does not wrap.

That counter is what the history of a buffer keeps (`SonicBrew.NetRtp.History.position`): it
follows every move of `next_seq` and never wraps. Measured on it, the numbers handed out
increase, and the packets that were accepted are those handed out and those still there
(`SonicBrew.NetRtp.JitterInv`).
-/

namespace SonicBrew

namespace NetRtp

/-- `forward_distance`: positive if `dst` is ahead, negative if it is behind. -/
def forwardDistance (src dst : UInt16) : Int16 := (dst - src).toInt16

/-- What `push` answers. -/
inductive PushOutcome (T : Type) where
  | accepted
  | duplicate
  | rejected (payload : T)
  deriving DecidableEq, Repr

/-- The buffer: the number that is due next, if a packet has been pushed at all, and the packets
that wait, by number. -/
structure JitterBuffer (T : Type) where
  nextSeq : Option UInt16
  buf : AList fun _ : UInt16 => T
  capacity : ℕ

namespace JitterBuffer

variable {T : Type}

/-- `JitterBuffer::new`. -/
def new (capacity : ℕ) : JitterBuffer T := ⟨none, ∅, capacity⟩

/-- How many packets wait. -/
def len (j : JitterBuffer T) : ℕ := j.buf.entries.length

/-- Whether none does. -/
def isEmpty (j : JitterBuffer T) : Bool := j.buf.entries.isEmpty

/-- The second half of `push`, once the number is known not to be late. -/
def store (j : JitterBuffer T) (seq : UInt16) (payload : T) : PushOutcome T × JitterBuffer T :=
  if seq ∈ j.buf then (.duplicate, j)
  else if j.capacity ≤ j.len then (.rejected payload, j)
  else (.accepted, { j with buf := j.buf.insert seq payload })

/-- `push`. -/
def push (j : JitterBuffer T) (seq : UInt16) (payload : T) : PushOutcome T × JitterBuffer T :=
  match j.nextSeq with
  | none => store { j with nextSeq := some seq } seq payload
  | some base => if forwardDistance base seq < 0 then (.duplicate, j) else j.store seq payload

/-- `pop`: the packet that is due, if it is there. -/
def pop (j : JitterBuffer T) : Option (UInt16 × T) × JitterBuffer T :=
  match j.nextSeq with
  | none => (none, j)
  | some next =>
      match j.buf.lookup next with
      | none => (none, j)
      | some val =>
          (some (next, val), { j with nextSeq := some (next + 1), buf := j.buf.erase next })

/-- The loop of `skip_gap`: the number that is the fewest steps ahead of `base`, and how many. -/
def nearest (base : UInt16) : List UInt16 → Option (UInt16 × Int16) → Option (UInt16 × Int16)
  | [], best => best
  | seq :: seqs, best =>
      let d := forwardDistance base seq
      nearest base seqs (if 0 < d ∧ best.all fun b => d < b.2 then some (seq, d) else best)

/-- `skip_gap`: give up on the numbers before the first packet that waits. -/
def skipGap (j : JitterBuffer T) : ℕ × JitterBuffer T :=
  match j.nextSeq with
  | none => (0, j)
  | some base =>
      if base ∈ j.buf then (0, j)
      else match nearest base j.buf.keys none with
        | none => (0, j)
        | some (seq, d) => (d.toNatClampNeg, { j with nextSeq := some seq })

end JitterBuffer

/-! ### The numbers ahead -/

section Ahead

open Circular (ahead)

/-- How many steps lead from one sequence number to another. -/
def gap (src dst : UInt16) : ℕ := (dst - src).toNat

theorem gap_eq_ahead (a b : UInt16) : gap a b = ahead (2 ^ 16) a.toNat b.toNat := by
  have ha := a.toNat_lt
  rw [gap, UInt16.toNat_sub, ahead]
  congr 1
  omega

@[simp] theorem gap_self (a : UInt16) : gap a a = 0 := by
  rw [gap_eq_ahead, Circular.ahead_self a.toNat_lt]

theorem gap_injective {a b c : UInt16} (h : gap a b = gap a c) : b = c := by
  rw [gap_eq_ahead, gap_eq_ahead] at h
  exact UInt16.toNat_inj.mp (Circular.ahead_injective a.toNat_lt b.toNat_lt c.toNat_lt h)

theorem gap_eq_zero {a b : UInt16} : gap a b = 0 ↔ b = a := by
  constructor
  · intro h
    exact gap_injective (h.trans (gap_self a).symm)
  · rintro rfl
    exact gap_self _

/-- **The way ahead splits** at every number that is not further. -/
theorem gap_split {a b c : UInt16} (h : gap a c ≤ gap a b) : gap a b = gap a c + gap c b := by
  rw [gap_eq_ahead, gap_eq_ahead] at h
  rw [gap_eq_ahead, gap_eq_ahead, gap_eq_ahead]
  exact Circular.ahead_split a.toNat_lt b.toNat_lt c.toNat_lt h

theorem gap_succ_self (a : UInt16) : gap a (a + 1) = 1 := by
  have ha := a.toNat_lt
  rw [gap, UInt16.toNat_sub, UInt16.toNat_add]
  change (2 ^ 16 - a.toNat + (a.toNat + 1) % 2 ^ 16) % 2 ^ 16 = 1
  omega

/-- **Half a turn decides the sign**: up to there the signed distance is the number of steps. -/
theorem toInt_forwardDistance (a b : UInt16) :
    (forwardDistance a b).toInt = if gap a b < 32768 then (gap a b : ℤ) else gap a b - 65536 := by
  have h : (forwardDistance a b).toInt = (b - a).toBitVec.toInt := rfl
  have hlt : gap a b < 65536 := (b - a).toNat_lt
  rw [h, BitVec.toInt_eq_toNat_cond]
  change (if 2 * gap a b < 2 ^ 16 then (gap a b : ℤ) else gap a b - (2 ^ 16 : ℕ)) = _
  split_ifs <;> omega

theorem forwardDistance_neg {a b : UInt16} : forwardDistance a b < 0 ↔ 32768 ≤ gap a b := by
  have hlt : gap a b < 65536 := (b - a).toNat_lt
  rw [Int16.lt_iff_toInt_lt, toInt_forwardDistance]
  change (if gap a b < 32768 then (gap a b : ℤ) else gap a b - 65536) < 0 ↔ _
  split_ifs <;> omega

theorem forwardDistance_pos {a b : UInt16} :
    0 < forwardDistance a b ↔ 0 < gap a b ∧ gap a b < 32768 := by
  have hlt : gap a b < 65536 := (b - a).toNat_lt
  rw [Int16.lt_iff_toInt_lt, toInt_forwardDistance]
  change 0 < (if gap a b < 32768 then (gap a b : ℤ) else gap a b - 65536) ↔ _
  split_ifs <;> omega

end Ahead

/-! ### What the operations do -/

namespace JitterBuffer

variable {T : Type}

/-- A number counts as early if it is ahead, by less than half a turn. -/
def Early (base seq : UInt16) : Prop := 0 < gap base seq ∧ gap base seq < 32768

/-- **What the loop finds**: nothing if no number is early, and otherwise the early number that
the fewest steps lead to. -/
theorem nearest_cases {base : UInt16} (seqs : List UInt16) (best : Option (UInt16 × Int16))
    (hbest : ∀ b, best = some b → b.2 = forwardDistance base b.1 ∧ Early base b.1) :
    (nearest base seqs best = none ∧ best = none ∧ ∀ t ∈ seqs, ¬Early base t) ∨
    ∃ s, nearest base seqs best = some (s, forwardDistance base s) ∧ Early base s ∧
      (s ∈ seqs ∨ ∃ d, best = some (s, d)) ∧ (∀ t ∈ seqs, Early base t → gap base s ≤ gap base t) ∧
      ∀ b, best = some b → gap base s ≤ gap base b.1 := by
  induction seqs generalizing best with
  | nil =>
    rcases best with _ | ⟨s, d⟩
    · exact Or.inl ⟨rfl, rfl, fun t ht => absurd ht List.not_mem_nil⟩
    · obtain ⟨hd, hearly⟩ := hbest _ rfl
      obtain rfl : d = forwardDistance base s := hd
      refine Or.inr ⟨s, rfl, hearly, Or.inr ⟨_, rfl⟩, fun t ht => absurd ht List.not_mem_nil, ?_⟩
      rintro b hb
      obtain rfl := Option.some.inj hb
      exact Nat.le_refl _
  | cons t seqs ih =>
    rw [nearest]
    by_cases hcond : 0 < forwardDistance base t ∧ best.all fun b => forwardDistance base t < b.2
    · -- `t` is the new best: what the rest of the loop finds is at least as near
      have hearly : Early base t := forwardDistance_pos.mp hcond.1
      rw [if_pos hcond]
      have hnew : ∀ b, some (t, forwardDistance base t) = some b →
          b.2 = forwardDistance base b.1 ∧ Early base b.1 := by
        rintro b hb
        obtain rfl := Option.some.inj hb
        exact ⟨rfl, hearly⟩
      rcases ih _ hnew with ⟨-, hnone, -⟩ | ⟨s, hs, hse, hmem, hmin, hle⟩
      · cases hnone
      have hst : gap base s ≤ gap base t := hle _ rfl
      refine Or.inr ⟨s, hs, hse, ?_, ?_, ?_⟩
      · rcases hmem with hmem | ⟨d, hd⟩
        · exact Or.inl (List.mem_cons_of_mem _ hmem)
        · obtain ⟨rfl, -⟩ := Prod.mk.inj (Option.some.inj hd)
          exact Or.inl List.mem_cons_self
      · rintro u hu hue
        rcases List.mem_cons.mp hu with rfl | hu
        · exact hst
        · exact hmin u hu hue
      · rintro b rfl
        obtain ⟨hd, hbe⟩ := hbest b rfl
        have hlt : forwardDistance base t < b.2 := by simpa using hcond.2
        rw [hd, Int16.lt_iff_toInt_lt, toInt_forwardDistance, toInt_forwardDistance,
          if_pos hearly.2, if_pos hbe.2] at hlt
        omega
    · rw [if_neg hcond]
      rcases ih best hbest with ⟨hnone, rfl, hlate⟩ | ⟨s, hs, hse, hmem, hmin, hle⟩
      · refine Or.inl ⟨hnone, rfl, ?_⟩
        rintro u hu hue
        rcases List.mem_cons.mp hu with rfl | hu
        · exact hcond ⟨forwardDistance_pos.mpr hue, rfl⟩
        · exact hlate u hu hue
      · refine Or.inr ⟨s, hs, hse, hmem.imp_left (List.mem_cons_of_mem _), ?_, hle⟩
        rintro u hu hue
        rcases List.mem_cons.mp hu with rfl | hu
        · -- `u` is early but was passed over, so the best so far was no further
          have hpos := forwardDistance_pos.mpr hue
          obtain ⟨b, rfl⟩ : ∃ b, best = some b := by
            rcases best with _ | b
            · exact absurd ⟨hpos, rfl⟩ hcond
            · exact ⟨b, rfl⟩
          obtain ⟨hd, hbe⟩ := hbest b rfl
          have hnot : ¬forwardDistance base u < b.2 := fun hlt => hcond ⟨hpos, by simpa using hlt⟩
          rw [hd, Int16.lt_iff_toInt_lt, toInt_forwardDistance, toInt_forwardDistance,
            if_pos hue.2, if_pos hbe.2] at hnot
          have := hle b rfl
          omega
        · exact hmin u hu hue

/-- **The outcomes of `skip_gap`**: it stays where it is if the packet that is due is there, or
none is early; otherwise it goes to the nearest packet, and answers how far that was. -/
theorem skipGap_cases (j : JitterBuffer T) :
    (j.skipGap = (0, j) ∧
      ∀ base, j.nextSeq = some base → base ∈ j.buf ∨ ∀ t ∈ j.buf, ¬Early base t) ∨
    ∃ base s, j.nextSeq = some base ∧ base ∉ j.buf ∧ s ∈ j.buf ∧ Early base s ∧
      (∀ t ∈ j.buf, Early base t → gap base s ≤ gap base t) ∧
      j.skipGap = (gap base s, { j with nextSeq := some s }) := by
  rcases hn : j.nextSeq with _ | base
  · refine Or.inl ⟨by simp only [skipGap, hn], ?_⟩
    rintro base hbase
    cases hbase
  by_cases hbase : base ∈ j.buf
  · refine Or.inl ⟨by simp only [skipGap, hn, if_pos hbase], ?_⟩
    rintro _ h
    obtain rfl := Option.some.inj h
    exact Or.inl hbase
  have hstart : ∀ b, (none : Option (UInt16 × Int16)) = some b →
      b.2 = forwardDistance base b.1 ∧ Early base b.1 := by
    rintro b hb
    cases hb
  rcases nearest_cases j.buf.keys none hstart with ⟨hs, -, hlate⟩ | ⟨s, hs, hse, hmem, hmin, -⟩
  · refine Or.inl ⟨by simp only [skipGap, hn, if_neg hbase, hs], ?_⟩
    rintro _ h
    obtain rfl := Option.some.inj h
    exact Or.inr hlate
  · have hkey : s ∈ j.buf.keys := by
      rcases hmem with hmem | ⟨d, hd⟩
      · exact hmem
      · cases hd
    have hcount : (forwardDistance base s).toNatClampNeg = gap base s := by
      change (forwardDistance base s).toInt.toNat = _
      rw [toInt_forwardDistance, if_pos hse.2]
      rfl
    exact Or.inr ⟨base, s, rfl, hbase, hkey, hse, hmin,
      by simp only [skipGap, hn, if_neg hbase, hs, hcount]⟩

theorem pop_of_lookup {j : JitterBuffer T} {next : UInt16} {val : T}
    (hnext : j.nextSeq = some next) (hval : j.buf.lookup next = some val) :
    j.pop = (some (next, val),
      { j with nextSeq := some (next + 1), buf := j.buf.erase next }) := by
  simp only [pop, hnext, hval]

/-- A buffer is a packet it holds and the rest, which is what erasing the packet leaves. -/
theorem entries_of_lookup {buf : AList fun _ : UInt16 => T} {seq : UInt16} {val : T}
    (hval : buf.lookup seq = some val) :
    ∃ l₁ l₂, buf.entries = l₁ ++ ⟨seq, val⟩ :: l₂ ∧ (buf.erase seq).entries = l₁ ++ l₂ := by
  have hmem : seq ∈ buf := AList.lookup_isSome.mp (by rw [hval]; rfl)
  obtain ⟨val', l₁, l₂, -, hentries, herase⟩ := List.exists_of_kerase (AList.mem_keys.mp hmem)
  obtain rfl : val' = val := by
    have hin : (⟨seq, val'⟩ : Σ _ : UInt16, T) ∈ buf.entries := by
      rw [hentries]
      exact List.mem_append_right _ List.mem_cons_self
    exact buf.nodupKeys.eq_of_mk_mem hin (List.of_mem_dlookup hval)
  exact ⟨l₁, l₂, hentries, herase⟩

/-- **The outcomes of `pop`.** -/
theorem pop_cases (j : JitterBuffer T) :
    (j.pop = (none, j) ∧ ∀ base, j.nextSeq = some base → base ∉ j.buf) ∨
    ∃ next val, j.nextSeq = some next ∧ j.buf.lookup next = some val ∧
      j.pop = (some (next, val),
        { j with nextSeq := some (next + 1), buf := j.buf.erase next }) := by
  rcases hn : j.nextSeq with _ | next
  · refine Or.inl ⟨by simp only [pop, hn], ?_⟩
    rintro base hbase
    cases hbase
  rcases hv : j.buf.lookup next with _ | val
  · refine Or.inl ⟨by simp only [pop, hn, hv], ?_⟩
    rintro _ h
    obtain rfl := Option.some.inj h
    exact AList.lookup_eq_none.mp hv
  · exact Or.inr ⟨next, val, rfl, hv, pop_of_lookup hn hv⟩

/-- **The outcomes of the second half of `push`.** -/
theorem store_cases (j : JitterBuffer T) (seq : UInt16) (payload : T) :
    (seq ∈ j.buf ∧ j.store seq payload = (.duplicate, j)) ∨
    (seq ∉ j.buf ∧ j.capacity ≤ j.len ∧ j.store seq payload = (.rejected payload, j)) ∨
    (seq ∉ j.buf ∧ j.len < j.capacity ∧
      j.store seq payload = (.accepted, { j with buf := j.buf.insert seq payload })) := by
  by_cases hmem : seq ∈ j.buf
  · exact Or.inl ⟨hmem, by rw [store, if_pos hmem]⟩
  by_cases hfull : j.capacity ≤ j.len
  · exact Or.inr (Or.inl ⟨hmem, hfull, by rw [store, if_neg hmem, if_pos hfull]⟩)
  · exact Or.inr (Or.inr ⟨hmem, not_le.mp hfull, by rw [store, if_neg hmem, if_neg hfull]⟩)

end JitterBuffer

/-! ### Histories -/

/-- A packet, with its number on the counter that does not wrap. -/
structure Packet (T : Type) where
  number : ℕ
  seq : UInt16
  payload : T

/-- A buffer and its past: how far `next_seq` has come without wrapping, the packets that were
accepted and those that were popped, oldest first. -/
structure History (T : Type) where
  jitter : JitterBuffer T
  position : ℕ
  accepted : List (Packet T)
  popped : List (Packet T)

/-- A call. -/
inductive JitterOp (T : Type) where
  | push (seq : UInt16) (payload : T)
  | pop
  | skipGap

/-- The counter follows a move of `next_seq`. The first packet sets it. -/
def follow (position : ℕ) : Option UInt16 → Option UInt16 → ℕ
  | some base, some next => position + gap base next
  | none, some seq => seq.toNat
  | _, none => position

@[simp] theorem follow_self (position : ℕ) (next : Option UInt16) :
    follow position next next = position := by
  cases next with
  | none => rfl
  | some base => rw [follow, gap_self, Nat.add_zero]

namespace History

variable {T : Type}

/-- The number of a packet on the counter: as many steps ahead as it is ahead of `next_seq`. -/
def number (h : History T) (seq : UInt16) : ℕ :=
  match h.jitter.nextSeq with
  | none => seq.toNat
  | some base => h.position + gap base seq

/-- The packets that wait. -/
def buffered (h : History T) : List (Packet T) :=
  h.jitter.buf.entries.map fun e => ⟨h.number e.1, e.1, e.2⟩

/-- A new buffer. -/
def new (capacity : ℕ) : History T := ⟨JitterBuffer.new capacity, 0, [], []⟩

/-- What a call does, and what is kept of its answer. -/
def step (h : History T) : JitterOp T → History T
  | .push seq payload =>
      let (outcome, j) := h.jitter.push seq payload
      { jitter := j
        position := follow h.position h.jitter.nextSeq j.nextSeq
        accepted :=
          match outcome with
          | .accepted => h.accepted ++ [⟨h.number seq, seq, payload⟩]
          | _ => h.accepted
        popped := h.popped }
  | .pop =>
      let (packet, j) := h.jitter.pop
      { jitter := j
        position := follow h.position h.jitter.nextSeq j.nextSeq
        accepted := h.accepted
        popped :=
          match packet with
          | some (seq, payload) => h.popped ++ [⟨h.number seq, seq, payload⟩]
          | none => h.popped }
  | .skipGap =>
      let (_, j) := h.jitter.skipGap
      { h with jitter := j, position := follow h.position h.jitter.nextSeq j.nextSeq }

/-- A sequence of calls on a new buffer. -/
def run (capacity : ℕ) (ops : List (JitterOp T)) : History T := ops.foldl step (new capacity)

end History

/-- **The window invariant.** The buffered numbers are less than half a turn ahead of the one
that is due; the counter agrees with it and is past everything that was popped; and every
accepted packet was popped or waits. -/
structure JitterInv {T : Type} (capacity : ℕ) (h : History T) : Prop where
  capacity_eq : h.jitter.capacity = capacity
  len_le : h.jitter.len ≤ capacity
  /-- Before the first packet there is nothing. -/
  fresh : h.jitter.nextSeq = none → h.jitter.buf = ∅ ∧ h.popped = []
  window : ∀ base, h.jitter.nextSeq = some base → ∀ s ∈ h.jitter.buf, gap base s < 32768
  aligned : ∀ base, h.jitter.nextSeq = some base → h.position % 2 ^ 16 = base.toNat
  below : ∀ p ∈ h.popped, p.number < h.position
  wrapped : ∀ p ∈ h.popped, p.number % 2 ^ 16 = p.seq.toNat
  increasing : h.popped.Pairwise fun p q => p.number < q.number
  account : h.accepted.Perm (h.popped ++ h.buffered)

namespace JitterInv

open JitterBuffer (Early)

variable {T : Type} {capacity : ℕ} {h : History T}

theorem new : JitterInv capacity (History.new capacity : History T) where
  capacity_eq := rfl
  len_le := Nat.zero_le _
  fresh _ := ⟨rfl, rfl⟩
  window _ hbase := by cases hbase
  aligned _ hbase := by cases hbase
  below _ hp := absurd hp List.not_mem_nil
  wrapped _ hp := absurd hp List.not_mem_nil
  increasing := List.Pairwise.nil
  account := List.Perm.refl _

/-- Walking on from an aligned counter keeps it aligned. -/
theorem add_gap_mod {position : ℕ} {base next : UInt16} (h : position % 2 ^ 16 = base.toNat) :
    (position + gap base next) % 2 ^ 16 = next.toNat := by
  rw [← Nat.mod_add_mod, h, gap_eq_ahead, Circular.add_ahead_mod base.toNat_lt next.toNat_lt]

/-- A number on the counter wraps to the sequence number. -/
theorem number_mod (hinv : JitterInv capacity h) (seq : UInt16) :
    h.number seq % 2 ^ 16 = seq.toNat := by
  rw [History.number]
  split
  · exact Nat.mod_eq_of_lt seq.toNat_lt
  · rename_i base hbase
    exact add_gap_mod (hinv.aligned base hbase)

/-- Where `next_seq` moves on, the counter moves with it, and the packets further ahead keep
their numbers. -/
theorem number_of_moved {h' : History T} {base next seq : UInt16}
    (hbase : h.jitter.nextSeq = some base) (hnext : h'.jitter.nextSeq = some next)
    (hposition : h'.position = h.position + gap base next) (hle : gap base next ≤ gap base seq) :
    h'.number seq = h.number seq := by
  simp only [History.number, hbase, hnext, hposition]
  rw [gap_split hle, Nat.add_assoc]

/-! ### The steps -/

/-- **Moving on over numbers that no packet has.** -/
theorem moveOn (hinv : JitterInv capacity h) {base next : UInt16}
    (hbase : h.jitter.nextSeq = some base)
    (hfar : ∀ t ∈ h.jitter.buf, gap base next ≤ gap base t) :
    JitterInv capacity { h with
      jitter := { h.jitter with nextSeq := some next }
      position := h.position + gap base next } where
  capacity_eq := hinv.capacity_eq
  len_le := hinv.len_le
  fresh hnone := by cases hnone
  window := by
    rintro _ hnext t ht
    obtain rfl := Option.some.inj hnext
    have hsplit := gap_split (hfar t ht)
    have hlt := hinv.window base hbase t ht
    omega
  aligned := by
    rintro _ hnext
    obtain rfl := Option.some.inj hnext
    exact add_gap_mod (hinv.aligned base hbase)
  below p hp := Nat.lt_add_right _ (hinv.below p hp)
  wrapped := hinv.wrapped
  increasing := hinv.increasing
  account := by
    have hbuffered : h.buffered = History.buffered { h with
        jitter := { h.jitter with nextSeq := some next }
        position := h.position + gap base next } := by
      apply List.map_congr_left
      intro e he
      exact congrArg (Packet.mk · e.1 e.2)
        (number_of_moved hbase rfl rfl (hfar e.1 (List.mem_keys_of_mem he))).symm
    rw [← hbuffered]
    exact hinv.account

/-- **Handing out the packet that is due.** -/
theorem handOut (hinv : JitterInv capacity h) {next : UInt16} {val : T}
    (hnext : h.jitter.nextSeq = some next) (hval : h.jitter.buf.lookup next = some val) :
    JitterInv capacity { h with
      jitter := { h.jitter with nextSeq := some (next + 1), buf := h.jitter.buf.erase next }
      position := h.position + gap next (next + 1)
      popped := h.popped ++ [⟨h.number next, next, val⟩] } := by
  have hnumber : h.number next = h.position := by
    simp only [History.number, hnext, gap_self, Nat.add_zero]
  have hone := gap_succ_self next
  obtain ⟨l₁, l₂, hentries, herased⟩ := JitterBuffer.entries_of_lookup hval
  have hlater : ∀ t ∈ h.jitter.buf.erase next,
      t ∈ h.jitter.buf ∧ gap next (next + 1) ≤ gap next t := by
    intro t ht
    obtain ⟨hne, ht⟩ := AList.mem_erase.mp ht
    refine ⟨ht, ?_⟩
    have hpos : gap next t ≠ 0 := fun h0 => hne (gap_eq_zero.mp h0)
    omega
  refine
    { capacity_eq := hinv.capacity_eq
      len_le := ?_, fresh := ?_, window := ?_, aligned := ?_, below := ?_, wrapped := ?_
      increasing := ?_, account := ?_ }
  · have hlen := hinv.len_le
    rw [JitterBuffer.len, hentries] at hlen
    rw [JitterBuffer.len, herased]
    simp only [List.length_append, List.length_cons] at hlen ⊢
    omega
  · intro hnone
    cases hnone
  · rintro _ hsome t ht
    obtain rfl := Option.some.inj hsome
    obtain ⟨htmem, hle⟩ := hlater t ht
    have hsplit := gap_split hle
    have hlt := hinv.window next hnext t htmem
    omega
  · rintro _ hsome
    obtain rfl := Option.some.inj hsome
    exact add_gap_mod (hinv.aligned next hnext)
  · intro p hp
    change p.number < h.position + gap next (next + 1)
    rcases List.mem_append.mp hp with hp | hp
    · have hlt := hinv.below p hp
      omega
    · obtain rfl := List.mem_singleton.mp hp
      change h.number next < _
      omega
  · intro p hp
    rcases List.mem_append.mp hp with hp | hp
    · exact hinv.wrapped p hp
    · obtain rfl := List.mem_singleton.mp hp
      exact hinv.number_mod next
  · refine List.pairwise_append.mpr ⟨hinv.increasing, List.pairwise_singleton _ _, ?_⟩
    intro p hp q hq
    obtain rfl := List.mem_singleton.mp hq
    change p.number < h.number next
    rw [hnumber]
    exact hinv.below p hp
  · -- the packet changes sides, and the others keep their numbers
    have hrest : (l₁ ++ l₂).map (fun e => (⟨h.number e.1, e.1, e.2⟩ : Packet T)) =
        History.buffered { h with
          jitter := { h.jitter with nextSeq := some (next + 1), buf := h.jitter.buf.erase next }
          position := h.position + gap next (next + 1)
          popped := h.popped ++ [⟨h.number next, next, val⟩] } := by
      rw [History.buffered, herased]
      apply List.map_congr_left
      intro e he
      have hkey : e.1 ∈ h.jitter.buf.erase next := by
        rw [← herased] at he
        exact List.mem_keys_of_mem he
      exact congrArg (Packet.mk · e.1 e.2)
        (number_of_moved hnext rfl rfl (hlater e.1 hkey).2).symm
    rw [← hrest, List.append_assoc]
    refine hinv.account.trans (List.Perm.append_left _ ?_)
    rw [History.buffered, hentries, List.map_append, List.map_cons, List.map_append]
    exact List.perm_middle

/-- **Keeping a packet that is not late.** -/
theorem keep (hinv : JitterInv capacity h) {base seq : UInt16} {payload : T}
    (hbase : h.jitter.nextSeq = some base) (hwin : gap base seq < 32768)
    (hnew : seq ∉ h.jitter.buf) (hroom : h.jitter.len < h.jitter.capacity) :
    JitterInv capacity { h with
      jitter := { h.jitter with buf := h.jitter.buf.insert seq payload }
      accepted := h.accepted ++ [⟨h.number seq, seq, payload⟩] } := by
  have hentries := AList.entries_insert_of_notMem (b := payload) hnew
  refine
    { capacity_eq := hinv.capacity_eq
      len_le := ?_, fresh := ?_, window := ?_
      aligned := hinv.aligned
      below := hinv.below
      wrapped := hinv.wrapped
      increasing := hinv.increasing
      account := ?_ }
  · rw [hinv.capacity_eq] at hroom
    rw [JitterBuffer.len, hentries, List.length_cons]
    exact hroom
  · intro hnone
    rw [hbase] at hnone
    cases hnone
  · rintro _ hsome t ht
    rw [hbase] at hsome
    obtain rfl := Option.some.inj hsome
    rcases (AList.mem_insert _).mp ht with rfl | ht
    · exact hwin
    · exact hinv.window base hbase t ht
  · rw [History.buffered, hentries, List.map_cons]
    refine (hinv.account.append_right _).trans ?_
    rw [List.append_assoc]
    exact List.Perm.append_left _ (List.perm_append_singleton _ _)

/-- **The first packet sets the counter.** -/
theorem setBase (hinv : JitterInv capacity h) (hnone : h.jitter.nextSeq = none) (seq : UInt16) :
    JitterInv capacity { h with
      jitter := { h.jitter with nextSeq := some seq }
      position := seq.toNat } := by
  obtain ⟨hbuf, hpopped⟩ := hinv.fresh hnone
  have hbuffered : h.buffered = [] := by
    rw [History.buffered, hbuf]
    rfl
  refine
    { capacity_eq := hinv.capacity_eq
      len_le := hinv.len_le
      fresh := ?_, window := ?_, aligned := ?_, below := ?_
      wrapped := hinv.wrapped
      increasing := hinv.increasing
      account := ?_ }
  · intro h0
    cases h0
  · intro _ _ t ht
    rw [hbuf] at ht
    exact absurd ht (AList.notMem_empty t)
  · rintro _ hsome
    obtain rfl := Option.some.inj hsome
    exact Nat.mod_eq_of_lt seq.toNat_lt
  · intro p hp
    rw [hpopped] at hp
    exact absurd hp List.not_mem_nil
  · have haccount := hinv.account
    rw [hbuffered] at haccount
    rw [History.buffered, hbuf]
    exact haccount

/-- What `push` does with a packet that is not late. -/
theorem store (hinv : JitterInv capacity h) {base seq : UInt16} (payload : T)
    (hbase : h.jitter.nextSeq = some base) (hwin : gap base seq < 32768) :
    JitterInv capacity
      { jitter := (h.jitter.store seq payload).2
        position := h.position
        accepted :=
          match (h.jitter.store seq payload).1 with
          | .accepted => h.accepted ++ [⟨h.number seq, seq, payload⟩]
          | _ => h.accepted
        popped := h.popped } := by
  rcases h.jitter.store_cases seq payload with ⟨-, heq⟩ | ⟨-, -, heq⟩ | ⟨hnew, hroom, heq⟩
  · rw [heq]
    exact hinv
  · rw [heq]
    exact hinv
  · rw [heq]
    exact hinv.keep hbase hwin hnew hroom

theorem nextSeq_store (j : JitterBuffer T) (seq : UInt16) (payload : T) :
    (j.store seq payload).2.nextSeq = j.nextSeq := by
  rcases j.store_cases seq payload with ⟨-, heq⟩ | ⟨-, -, heq⟩ | ⟨-, -, heq⟩ <;> rw [heq]

/-- **Every call keeps the invariant.** -/
theorem step (hinv : JitterInv capacity h) (op : JitterOp T) : JitterInv capacity (h.step op) := by
  cases op with
  | push seq payload =>
    rcases hn : h.jitter.nextSeq with _ | base
    · have hset := (hinv.setBase hn seq).store payload rfl (by rw [gap_self]; decide)
      have hnumber : h.number seq = seq.toNat := by simp only [History.number, hn]
      simp only [History.step, JitterBuffer.push, hn, nextSeq_store, follow, hnumber]
      simpa only [History.number, gap_self, Nat.add_zero] using hset
    · by_cases hlate : forwardDistance base seq < 0
      · simp only [History.step, JitterBuffer.push, hn, if_pos hlate, follow_self]
        exact hinv
      · have hwin : gap base seq < 32768 := not_le.mp fun hle => hlate (forwardDistance_neg.mpr hle)
        simp only [History.step, JitterBuffer.push, hn, if_neg hlate, nextSeq_store, follow_self]
        exact hinv.store payload hn hwin
  | pop =>
    rcases h.jitter.pop_cases with ⟨heq, -⟩ | ⟨next, val, hnext, hval, heq⟩
    · simp only [History.step, heq, follow_self]
      exact hinv
    · simp only [History.step, heq, hnext, follow]
      exact hinv.handOut hnext hval
  | skipGap =>
    rcases h.jitter.skipGap_cases with ⟨heq, -⟩ | ⟨base, s, hbase, hnot, -, -, hmin, heq⟩
    · simp only [History.step, heq, follow_self]
      exact hinv
    · simp only [History.step, heq, hbase, follow]
      refine hinv.moveOn hbase fun t ht => hmin t ht ⟨Nat.pos_of_ne_zero fun h0 => hnot ?_, ?_⟩
      · rwa [gap_eq_zero.mp h0] at ht
      · exact hinv.window base hbase t ht

/-- **Every sequence of calls keeps the invariant.** -/
theorem run (ops : List (JitterOp T)) : JitterInv capacity (History.run capacity ops) := by
  rw [History.run]
  generalize hstart : (History.new capacity : History T) = h
  have hinv : JitterInv capacity h := hstart ▸ new
  clear hstart
  induction ops generalizing h with
  | nil => exact hinv
  | cons op ops ih => exact ih _ (hinv.step op)

/-- The packets that wait are not behind the counter. -/
theorem position_le_number (hinv : JitterInv capacity h) {p : Packet T} (hp : p ∈ h.buffered) :
    h.position ≤ p.number := by
  obtain ⟨e, he, rfl⟩ := List.mem_map.mp hp
  change h.position ≤ h.number e.1
  rw [History.number]
  split
  · rename_i hnone
    have hmem : e.1 ∈ h.jitter.buf := List.mem_keys_of_mem he
    rw [(hinv.fresh hnone).1] at hmem
    exact absurd hmem (AList.notMem_empty e.1)
  · exact Nat.le_add_right _ _

theorem number_injective (h : History T) : Function.Injective h.number := by
  intro s t hst
  simp only [History.number] at hst
  split at hst
  · exact UInt16.toNat_inj.mp hst
  · exact gap_injective (Nat.add_left_cancel hst)

/-- **No number is accepted twice.** -/
theorem nodup_accepted (hinv : JitterInv capacity h) : (h.accepted.map Packet.number).Nodup := by
  have hpopped : (h.popped.map Packet.number).Nodup := by
    rw [List.Nodup, List.pairwise_map]
    exact hinv.increasing.imp Nat.ne_of_lt
  have hbuffered : (h.buffered.map Packet.number).Nodup := by
    have hkeys : h.buffered.map Packet.number = h.jitter.buf.keys.map h.number := by
      rw [History.buffered, AList.keys, List.keys, List.map_map, List.map_map]
      rfl
    rw [hkeys]
    exact h.jitter.buf.keys_nodup.map (number_injective h)
  rw [(hinv.account.map Packet.number).nodup_iff, List.map_append, List.nodup_append]
  refine ⟨hpopped, hbuffered, ?_⟩
  intro m hm n hn
  obtain ⟨p, hp, rfl⟩ := List.mem_map.mp hm
  obtain ⟨q, hq, rfl⟩ := List.mem_map.mp hn
  have hlt := hinv.below p hp
  have hle := hinv.position_le_number hq
  omega

/-- Where `skip_gap` goes, and what it answers. -/
theorem skipGap_spec (hinv : JitterInv capacity h) {base : UInt16}
    (hbase : h.jitter.nextSeq = some base) :
    ∃ next, h.jitter.skipGap = (gap base next, { h.jitter with nextSeq := some next }) ∧
      ∀ s ∈ h.jitter.buf, gap base next ≤ gap base s := by
  rcases h.jitter.skipGap_cases with ⟨heq, -⟩ | ⟨base', s, hbase', hnot, -, -, hmin, heq⟩
  · refine ⟨base, ?_, fun t _ => ?_⟩
    · rw [heq, gap_self, ← hbase]
    · rw [gap_self]
      exact Nat.zero_le _
  · obtain rfl : base' = base := Option.some.inj (hbase'.symm.trans hbase)
    refine ⟨s, heq, fun t ht => hmin t ht ⟨Nat.pos_of_ne_zero fun h0 => hnot ?_, ?_⟩⟩
    · rwa [gap_eq_zero.mp h0] at ht
    · exact hinv.window base' hbase t ht

end JitterInv

/-- **The jitter buffer over any sequence of calls.** At most as many packets wait as there is
room for, each less than half a turn ahead of the number that is due; the packets popped have
increasing numbers on the counter that does not wrap; the packets accepted, no two of one number,
are those popped and those that wait; and `skip_gap` skips no packet that waits and answers how
many numbers it skipped. -/
theorem jitter_run {T : Type} (capacity : ℕ) (ops : List (JitterOp T)) :
    let h := History.run capacity ops
    h.jitter.len ≤ capacity ∧
    (∀ s ∈ h.jitter.buf, ∃ next, h.jitter.nextSeq = some next ∧ gap next s ≤ 32767) ∧
    h.popped.Pairwise (fun p q => p.number < q.number) ∧
    (∀ p ∈ h.popped, p.number % 65536 = p.seq.toNat) ∧
    (h.accepted.map Packet.number).Nodup ∧
    h.accepted.Perm (h.popped ++ h.buffered) ∧
    (h.jitter.nextSeq = none → h.jitter.skipGap = (0, h.jitter)) ∧
    ∀ base, h.jitter.nextSeq = some base →
      ∃ next, h.jitter.skipGap = (gap base next, { h.jitter with nextSeq := some next }) ∧
        ∀ s ∈ h.jitter.buf, gap base next ≤ gap base s := by
  intro h
  have hinv : JitterInv capacity h := JitterInv.run ops
  refine ⟨hinv.len_le, fun s hs => ?_, hinv.increasing, hinv.wrapped, hinv.nodup_accepted,
    hinv.account, fun hnone => ?_, fun base hbase => hinv.skipGap_spec hbase⟩
  · rcases hn : h.jitter.nextSeq with _ | next
    · rw [(hinv.fresh hn).1] at hs
      exact absurd hs (AList.notMem_empty s)
    · exact ⟨next, rfl, Nat.le_of_lt_succ (hinv.window next hn s hs)⟩
  · simp only [JitterBuffer.skipGap, hnone]

/-- Across the wrap: 65535 comes after 0 has, and 1 is given up. -/
example :
    ((History.run 8 [.push 65534 "a", .push 0 "c", .push 65535 "b", .push 2 "e", .pop, .pop, .pop,
      .skipGap, .pop]).popped.map fun p => (p.number, p.payload)) =
      [(65534, "a"), (65535, "b"), (65536, "c"), (65538, "e")] := by
  decide

end NetRtp

end SonicBrew
