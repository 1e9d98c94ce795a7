import SonicBrew.Lib.Circular
import SonicBrew.Lib.Transition
import SonicBrew.NetRtp.Codec

/-!
# The rings of a netmap port

A port is a pair of rings that the program shares with the kernel. Each is a circle of slots; a
slot names the buffer that holds its packet. On the sending side the program owns the slots from
`head` up to, and not including, `tail`: it writes a packet into the slot at `head` and moves
`head` on. The kernel owns the others, and moves `tail` on when it is told of what was written and
has slots to give back (`txsync`).

The number of slots in between is how far `tail` is ahead of `head`, and `slots_free` counts the
others, which are in flight. It takes their number modulo the size of the ring after it has wrapped
as a machine word, which is right if `tail` is the smaller of the two, or if the size of the ring
divides that of a word (`SonicBrew.NetRtp.Ring.slotsFree_eq_ahead_iff`).

So a ring with `head = tail` has nothing to write to. `send_raw` means to refuse then, and asks
`slots_free` for the number of slots that are left; but the number of slots less those that
are in flight is never zero (`SonicBrew.NetRtp.Ring.slotsFree_ne_zero`), and `send_raw` writes into
a slot of the kernel's. It does so exactly when it is called in such a state with a packet that
fits (`SonicBrew.NetRtp.TxRun.safe_iff`).
-/

namespace SonicBrew

namespace NetRtp

open Circular (ahead)

/-! ### Rings and ports -/

/-- `NetmapSlot`: the buffer of a slot, and how many bytes of it are the packet. -/
structure NetmapSlot where
  bufIdx : UInt32
  len : UInt16
  deriving DecidableEq, Repr

/-- `Ring`: the geometry, which never changes, and what is shared with the kernel. -/
structure Ring where
  numSlots : UInt32
  bufSize : UInt32
  head : UInt32
  cur : UInt32
  tail : UInt32
  slots : List NetmapSlot
  length_slots : slots.length = numSlots.toNat
  deriving DecidableEq

/-- `Inner`: an open port, with the buffers that its slots refer to. -/
structure Inner where
  tx : Ring
  rx : Ring
  buffers : List Bytes
  deriving DecidableEq

/-- `not_open`. -/
def notOpen : TransportError := .network "netmap port not open (bind one via NetmapTransport::open)"

/-- `corrupt_ring`. -/
def corruptRing (field : String) (value numSlots : UInt32) : TransportError :=
  .network ("kernel reported " ++ field ++ "=" ++ toString value ++
    " outside the ring (num_slots=" ++ toString numSlots ++ ")")

/-- The error for `head == tail`. -/
def ringFull : TransportError :=
  .network "netmap TX ring full (head == tail); txsync() before sending more"

namespace Ring

/-- `slots_free`. -/
def slotsFree (r : Ring) : ℕ :=
  if r.numSlots = 0 then 0
  else
    let inflight := (r.head - r.tail) % r.numSlots
    (r.numSlots - inflight).toNat

/-- The checks of a packet's length. -/
def Fits (r : Ring) (packet : Bytes) : Prop :=
  packet.length ≤ 65535 ∧ packet.length ≤ r.bufSize.toNat

instance (r : Ring) (packet : Bytes) : Decidable (r.Fits packet) :=
  inferInstanceAs (Decidable (_ ∧ _))

/-- The slot at `head` is given the length of a packet, and `head` moves on. -/
def advance (r : Ring) (len : ℕ) : Ring :=
  { r with
    head := (r.head + 1) % r.numSlots
    cur := (r.head + 1) % r.numSlots
    slots := r.slots.modify r.head.toNat fun slot => { slot with len := UInt16.ofNat len }
    length_slots := by rw [List.length_modify, r.length_slots] }

end Ring

/-- A packet in the buffer of the slot at `head`. -/
def Inner.stage (inner : Inner) (h : inner.tx.head < inner.tx.numSlots) (packet : Bytes) : Inner :=
  let tx := inner.tx
  have hhead : tx.head.toNat < tx.slots.length := by
    rw [tx.length_slots]
    exact UInt32.lt_iff_toNat_lt.mp h
  let slot := tx.slots.get ⟨tx.head.toNat, hhead⟩
  { inner with
    tx := tx.advance packet.length
    buffers := inner.buffers.modify slot.bufIdx.toNat fun buf => packet ++ buf.drop packet.length }

namespace NetmapTransport

/-- `send_raw`, on the port of the transport if it has one. -/
def sendRaw (inner : Option Inner) (packet : Bytes) : Except TransportError ℕ × Option Inner :=
  match inner with
  | none => (.error notOpen, none)
  | some inner =>
      let tx := inner.tx
      if packet.length > 65535 then
        (.error (.network ("packet of " ++ toString packet.length ++
          " B cannot fit a 16-bit slot length")), some inner)
      else if packet.length > tx.bufSize.toNat then
        (.error (.network ("packet of " ++ toString packet.length ++
          " B exceeds the netmap buffer size of " ++ toString tx.bufSize ++ " B")), some inner)
      else if tx.slotsFree = 0 then (.error ringFull, some inner)
      else if h : tx.head ≥ tx.numSlots then
        (.error (corruptRing "tx.head" tx.head tx.numSlots), some inner)
      else (.ok packet.length, some (inner.stage (UInt32.not_le.mp h) packet))

/-- `tx_ring_slots_free`. -/
def txRingSlotsFree (inner : Option Inner) : ℕ := inner.elim 0 fun inner => inner.tx.slotsFree

/-- `txsync`. The kernel refuses, or moves `tail`. -/
def txsync (inner : Option Inner) (ioctl : Except String UInt32) :
    Except TransportError Unit × Option Inner :=
  match inner with
  | none => (.error notOpen, none)
  | some inner =>
      match ioctl with
      | .error e => (.error (.network ("NIOCTXSYNC: " ++ e)), some inner)
      | .ok tail => (.ok (), some { inner with tx := { inner.tx with tail := tail } })

end NetmapTransport

/-! ### One call -/

/-- What `slots_free` computes. -/
theorem Ring.slotsFree_eq {r : Ring} (h : 0 < r.numSlots.toNat) :
    r.slotsFree = r.numSlots.toNat - (r.head - r.tail).toNat % r.numSlots.toNat := by
  have hne : r.numSlots ≠ 0 := by
    rw [Ne, ← UInt32.toNat_inj, UInt32.toNat_zero]
    omega
  have hlt : ((r.head - r.tail) % r.numSlots).toNat < r.numSlots.toNat := by
    rw [UInt32.toNat_mod]
    exact Nat.mod_lt _ h
  rw [Ring.slotsFree, if_neg hne]
  dsimp only
  rw [UInt32.toNat_sub_of_le _ _ (UInt32.le_iff_toNat_le.mpr hlt.le), UInt32.toNat_mod]

/-- **`slots_free` never says that a ring is full.** -/
theorem Ring.slotsFree_ne_zero {r : Ring} (h : r.numSlots ≠ 0) : r.slotsFree ≠ 0 := by
  have hpos : 0 < r.numSlots.toNat := by
    rw [Nat.pos_iff_ne_zero, Ne, ← UInt32.toNat_zero, UInt32.toNat_inj]
    exact h
  have hlt := Nat.mod_lt (r.head - r.tail).toNat hpos
  rw [Ring.slotsFree_eq hpos]
  omega

/-- **`slots_free` is the number of slots from `head` up to `tail`**, which are those that are not
in flight, exactly if `tail` is the smaller of the two or a machine word is a whole number of turns.
-/
theorem Ring.slotsFree_eq_ahead_iff {r : Ring} (hhead : r.head < r.numSlots)
    (htail : r.tail < r.numSlots) (hne : r.head ≠ r.tail) :
    (r.slotsFree = ahead r.numSlots.toNat r.head.toNat r.tail.toNat ∧
      r.slotsFree = r.numSlots.toNat - ahead r.numSlots.toNat r.tail.toNat r.head.toNat) ↔
    r.tail < r.head ∨ r.numSlots.toNat ∣ UInt32.size := by
  have hh := UInt32.lt_iff_toNat_lt.mp hhead
  have ht := UInt32.lt_iff_toNat_lt.mp htail
  have hn := r.numSlots.toNat_lt
  have hne' : r.head.toNat ≠ r.tail.toNat := fun h => hne (UInt32.toNat_inj.mp h)
  rw [slotsFree_eq (by omega), Circular.ahead_eq hh ht, Circular.ahead_eq ht hh,
    UInt32.lt_iff_toNat_lt]
  rcases Nat.lt_or_gt_of_ne hne' with hlt | hgt
  · -- the difference wraps, so it is that much less than a word
    have hsub : (r.head - r.tail).toNat = UInt32.size - (r.tail.toNat - r.head.toNat) := by
      rw [UInt32.toNat_sub, Nat.mod_eq_of_lt (by omega)]
      simp only [UInt32.size]
      omega
    have hturns := Circular.sub_mod_eq_sub_iff (n := r.numSlots.toNat) (m := UInt32.size)
      (d := r.tail.toNat - r.head.toNat) (by omega) (by omega) (by simp only [UInt32.size]; omega)
    have hmod := Nat.mod_lt (UInt32.size - (r.tail.toNat - r.head.toNat))
      (show 0 < r.numSlots.toNat by omega)
    rw [hsub, if_pos hlt.le, if_neg (by omega), ← hturns]
    omega
  · have hsub : (r.head - r.tail).toNat = r.head.toNat - r.tail.toNat :=
      UInt32.toNat_sub_of_le _ _ (UInt32.le_iff_toNat_le.mpr hgt.le)
    rw [hsub, Nat.mod_eq_of_lt (by omega), if_neg (by omega), if_pos hgt.le]
    omega

/-- A ring of three slots. -/
def Ring.three (head tail : UInt32) : Ring :=
  ⟨3, 2048, head, head, tail, [⟨2, 0⟩, ⟨3, 0⟩, ⟨4, 0⟩], rfl⟩

/-- The slot behind `head` is in flight. -/
theorem Ring.slotsFree_eq_ahead_iff_three :
    (Ring.three 1 0).slotsFree = ahead 3 1 0 ∧ (Ring.three 1 0).slotsFree = 3 - ahead 3 0 1 :=
  (Ring.slotsFree_eq_ahead_iff (r := Ring.three 1 0) (by decide) (by decide) (by decide)).mpr
    (by decide)

/-- **A ring of three slots, of which one is free**: `tx_ring_slots_free` says that all of them
are. -/
theorem slotsFree_three :
    NetmapTransport.txRingSlotsFree (some ⟨Ring.three 0 1, Ring.three 0 1, []⟩) = 3 ∧
      ahead 3 0 1 = 1 := ⟨rfl, rfl⟩

namespace NetmapTransport

/-- A packet that does not fit changes nothing. -/
theorem sendRaw_of_not_fits {inner : Inner} {packet : Bytes} (h : ¬inner.tx.Fits packet) :
    ∃ e, sendRaw (some inner) packet = (.error e, some inner) := by
  rw [sendRaw]
  split
  · exact ⟨_, rfl⟩
  · rename_i hlen
    split
    · exact ⟨_, rfl⟩
    · rename_i hbuf
      exact absurd ⟨Nat.not_lt.mp hlen, Nat.not_lt.mp hbuf⟩ h

/-- **A packet that fits is written into the slot at `head`**, whoever owns it. -/
theorem sendRaw_of_fits {inner : Inner} {packet : Bytes} (h : inner.tx.Fits packet)
    (hhead : inner.tx.head < inner.tx.numSlots) :
    sendRaw (some inner) packet = (.ok packet.length, some (inner.stage hhead packet)) := by
  have hne : inner.tx.numSlots ≠ 0 := by
    intro hzero
    rw [hzero] at hhead
    exact absurd hhead UInt32.not_lt_zero
  rw [sendRaw]
  rw [if_neg (Nat.not_lt.mpr h.1), if_neg (Nat.not_lt.mpr h.2),
    if_neg (Ring.slotsFree_ne_zero hne), dif_neg (UInt32.not_le.mpr hhead)]

end NetmapTransport

/-! ### Runs -/

/-- A port, and what the program has done with it since the last `txsync`. -/
structure TxRun where
  port : Inner
  /-- Where `head` was at the last `txsync`. -/
  synced : UInt32
  /-- The slots that were written since. -/
  written : List UInt32
  /-- What was returned since for packets that fit, while `head` was at `tail`. -/
  atFull : List (Except TransportError ℕ)

/-- What the program calls. -/
inductive TxCall where
  | sendRaw (packet : Bytes)
  | txsync (ioctl : Except String UInt32)

namespace TxRun

open NetmapTransport (sendRaw txsync sendRaw_of_fits sendRaw_of_not_fits)

def start (port : Inner) : TxRun := ⟨port, port.tx.head, [], []⟩

/-- One call. The kernel moves `tail` in a successful `txsync` only, and keeps it in the ring. -/
def step (s : TxRun) : TxCall → Option TxRun
  | .sendRaw packet => do
      let tx := s.port.tx
      let outcome := sendRaw (some s.port) packet
      let port ← outcome.2
      return {
        port := port
        synced := s.synced
        written := if outcome.1.isOk then s.written ++ [tx.head] else s.written
        atFull :=
          if tx.Fits packet ∧ tx.head = tx.tail then s.atFull ++ [outcome.1] else s.atFull }
  | .txsync ioctl => do
      let outcome := txsync (some s.port) ioctl
      let port ← outcome.2
      if outcome.1.isOk then
        if port.tx.tail < port.tx.numSlots then return start port else none
      else return { s with port := port }

/-- How many slots the last `txsync` has left to the program. -/
def granted (s : TxRun) : ℕ := ahead s.port.tx.numSlots.toNat s.synced.toNat s.port.tx.tail.toNat

/-- A slot from where `head` was at the last `txsync` up to `tail`, which is not one of them. -/
def Released (s : TxRun) (i : UInt32) : Prop :=
  ahead s.port.tx.numSlots.toNat s.synced.toNat i.toNat < s.granted

/-- **What the program has written is its own**: it has used no slot but those released to it, no
more often than there are any, and was told so whenever there was none left. -/
structure Safe (s : TxRun) : Prop where
  released : ∀ i ∈ s.written, s.Released i
  sends : s.written.length ≤ s.granted
  refused : ∀ result ∈ s.atFull, result = .error ringFull

/-- A packet that fits is sent while `head` is not at `tail`. -/
def Clear (s : TxRun) : TxCall → Prop
  | .sendRaw packet => s.port.tx.Fits packet → s.port.tx.head ≠ s.port.tx.tail
  | .txsync _ => True

instance decidableClear (s : TxRun) : ∀ call, Decidable (s.Clear call)
  | .sendRaw packet =>
      inferInstanceAs (Decidable (s.port.tx.Fits packet → s.port.tx.head ≠ s.port.tx.tail))
  | .txsync _ => inferInstanceAs (Decidable True)

instance (s : TxRun) (i : UInt32) : Decidable (s.Released i) := Nat.decLt _ _

/-- The program has come from where it was at the last `txsync` slot by slot. -/
structure Walked (s : TxRun) : Prop where
  synced_lt : s.synced < s.port.tx.numSlots
  tail_lt : s.port.tx.tail < s.port.tx.numSlots
  head_eq : s.port.tx.head.toNat =
    (s.synced.toNat + s.written.length) % s.port.tx.numSlots.toNat

theorem walked_start {port : Inner} (hhead : port.tx.head < port.tx.numSlots)
    (htail : port.tx.tail < port.tx.numSlots) : Walked (start port) :=
  ⟨hhead, htail, (Nat.mod_eq_of_lt (UInt32.lt_iff_toNat_lt.mp hhead)).symm⟩

theorem safe_start (port : Inner) : Safe (start port) where
  released _ hi := absurd hi List.not_mem_nil
  sends := Nat.zero_le _
  refused _ hresult := absurd hresult List.not_mem_nil

theorem Walked.head_lt {s : TxRun} (h : s.Walked) : s.port.tx.head < s.port.tx.numSlots := by
  have hsynced := UInt32.lt_iff_toNat_lt.mp h.synced_lt
  rw [UInt32.lt_iff_toNat_lt, h.head_eq]
  exact Nat.mod_lt _ (by omega)

/-- **What a call does**: a packet that does not fit, and a `txsync` that fails, change nothing;
a packet that fits is written at `head`; and `txsync` starts anew. -/
theorem step_cases {s s' : TxRun} {call : TxCall} (hs : s.Walked) (h : s.step call = some s') :
    (s' = s ∧ s.Clear call) ∨
    (∃ packet, call = .sendRaw packet ∧ s.port.tx.Fits packet ∧
      s' = ⟨s.port.stage hs.head_lt packet, s.synced, s.written ++ [s.port.tx.head],
        if s.port.tx.head = s.port.tx.tail then s.atFull ++ [.ok packet.length] else s.atFull⟩) ∨
    (∃ tail < s.port.tx.numSlots, call = .txsync (.ok tail) ∧
      s' = start { s.port with tx := { s.port.tx with tail := tail } }) := by
  rcases call with packet | e | tail
  · by_cases hfits : s.port.tx.Fits packet
    · refine Or.inr (Or.inl ⟨packet, rfl, hfits, ?_⟩)
      simp only [step, sendRaw_of_fits hfits hs.head_lt, hfits, true_and] at h
      exact (Option.some.inj h).symm
    · obtain ⟨e, hraw⟩ := sendRaw_of_not_fits hfits
      refine Or.inl ⟨?_, fun h => absurd h hfits⟩
      simp only [step, hraw, hfits, false_and, if_false] at h
      exact (Option.some.inj h).symm
  · exact Or.inl ⟨(Option.some.inj h).symm, trivial⟩
  · by_cases htail : tail < s.port.tx.numSlots
    · refine Or.inr (Or.inr ⟨tail, htail, rfl, ?_⟩)
      exact (Option.some.inj ((if_pos htail).symm.trans h)).symm
    · exact absurd ((if_neg htail).symm.trans h) (Option.some_ne_none s').symm

/-- The next position on the ring. -/
theorem toNat_succ_mod {i n : UInt32} (h : i < n) :
    ((i + 1) % n).toNat = (i.toNat + 1) % n.toNat := by
  have hi := UInt32.lt_iff_toNat_lt.mp h
  have hn := n.toNat_lt
  have hsum : (i.toNat + 1) % 2 ^ 32 = i.toNat + 1 := Nat.mod_eq_of_lt (by omega)
  rw [UInt32.toNat_mod, UInt32.toNat_add, UInt32.toNat_one, hsum]

theorem Walked.step {s s' : TxRun} {call : TxCall} (hs : s.Walked) (h : s.step call = some s') :
    s'.Walked := by
  obtain ⟨rfl, -⟩ | ⟨packet, rfl, -, rfl⟩ | ⟨tail, htail, rfl, rfl⟩ := step_cases hs h
  · exact hs
  · refine ⟨hs.synced_lt, hs.tail_lt, ?_⟩
    show ((s.port.tx.head + 1) % s.port.tx.numSlots).toNat = _
    rw [toNat_succ_mod hs.head_lt, hs.head_eq, Nat.mod_add_mod, List.length_append,
      List.length_singleton, Nat.add_assoc]
    rfl
  · exact walked_start hs.head_lt htail

/-- As long as no more was written than there was, `head` is that many slots ahead. -/
theorem Walked.ahead_head {s : TxRun} (hs : s.Walked) (h : s.written.length ≤ s.granted) :
    ahead s.port.tx.numSlots.toNat s.synced.toNat s.port.tx.head.toNat = s.written.length := by
  have hsynced := UInt32.lt_iff_toNat_lt.mp hs.synced_lt
  have hgranted : s.granted < s.port.tx.numSlots.toNat := Nat.mod_lt _ (by omega)
  have hahead := Circular.ahead_mod (n := s.port.tx.numSlots.toNat)
    (Nat.le_add_right s.synced.toNat s.written.length) (by omega)
  rw [Nat.mod_eq_of_lt hsynced, ← hs.head_eq] at hahead
  omega

/-- **One more call.** -/
theorem safe_step {s s' : TxRun} {call : TxCall} (hs : s.Walked) (hsafe : s.Safe)
    (h : s.step call = some s') : s'.Safe ↔ s.Clear call := by
  obtain ⟨rfl, hclear⟩ | ⟨packet, rfl, hfits, rfl⟩ | ⟨tail, htail, rfl, rfl⟩ := step_cases hs h
  · exact iff_of_true hsafe hclear
  · have hahead := hs.ahead_head hsafe.sends
    constructor
    · intro hsafe' _ hfull
      -- the slot that was written last is the one at `tail`
      have hlast : ahead s.port.tx.numSlots.toNat s.synced.toNat s.port.tx.head.toNat <
          ahead s.port.tx.numSlots.toNat s.synced.toNat s.port.tx.tail.toNat :=
        hsafe'.released _ (List.mem_append_right _ List.mem_cons_self)
      rw [hfull] at hlast
      omega
    · intro hclear
      -- `head` has not reached `tail`, so fewer slots were written than there were
      have hne := hclear hfits
      have hlt : s.written.length < s.granted := by
        refine lt_of_le_of_ne hsafe.sends fun heq => hne ?_
        rw [← UInt32.toNat_inj]
        exact Circular.ahead_injective (UInt32.lt_iff_toNat_lt.mp hs.synced_lt)
          (UInt32.lt_iff_toNat_lt.mp hs.head_lt) (UInt32.lt_iff_toNat_lt.mp hs.tail_lt)
          (hahead.trans heq)
      rw [if_neg hne]
      refine ⟨fun i hi => ?_, ?_, hsafe.refused⟩
      · obtain hi | hi := List.mem_append.mp hi
        · exact hsafe.released i hi
        · obtain rfl := List.mem_singleton.mp hi
          exact hahead.trans_lt hlt
      · rw [List.length_append]
        exact hlt
  · exact iff_of_true (safe_start _) trivial

/-- **The program writes only slots that were released to it, and is refused otherwise, exactly
if it never sends a packet that fits while `head` is at `tail`.** -/
theorem safe_iff {port : Inner} {calls : List TxCall} {s : TxRun}
    (hhead : port.tx.head < port.tx.numSlots) (htail : port.tx.tail < port.tx.numSlots)
    (h : Transition.run step (start port) calls = some s) :
    Transition.Always step Safe (start port) calls ↔
      Transition.Meets step Clear (start port) calls :=
  Transition.always_iff_meets_of_invariant (fun _ _ _ => Walked.step)
    (fun _ _ _ => safe_step) (walked_start hhead htail) (safe_start port) h

/-- A port with two slots a ring, one of them released for sending. -/
def small : Inner where
  tx := ⟨2, 4, 0, 0, 1, [⟨0, 0⟩, ⟨1, 0⟩], rfl⟩
  rx := ⟨2, 4, 0, 0, 1, [⟨2, 0⟩, ⟨3, 0⟩], rfl⟩
  buffers := List.replicate 4 [0, 0, 0, 0]

theorem safe_iff_synced :
    (Transition.run step (start small)
        [.sendRaw [7], .txsync (.ok 0), .sendRaw [8]]).isSome = true ∧
      Transition.Always step Safe (start small)
        [.sendRaw [7], .txsync (.ok 0), .sendRaw [8]] := by
  have hrun : (Transition.run step (start small)
      [.sendRaw [7], .txsync (.ok 0), .sendRaw [8]]).isSome = true := by decide
  obtain ⟨s, hs⟩ := Option.isSome_iff_exists.mp hrun
  exact ⟨hrun, (safe_iff (by decide) (by decide) hs).mpr (by decide)⟩

/-- **Two packets, and one slot**: the second is not refused but written into a slot that the
kernel has not released. -/
theorem written_not_released :
    ∃ s, Transition.run step (start small) [.sendRaw [7], .sendRaw [8]] = some s ∧
      s.written = [0, 1] ∧ s.atFull = [.ok 1] ∧ ¬s.Released 1 := by
  refine ⟨_, rfl, rfl, rfl, ?_⟩
  decide

end TxRun

end NetRtp

end SonicBrew
