import Mathlib.Data.List.Forall2
import SonicBrew.NetRtp.Netmap

/-!
# Receiving from a netmap port

On the receiving side the kernel fills slots and moves `tail` past them when it is asked to
(`rxsync`), and the program takes the packets from the slots at `cur`, one with each `recv_raw`,
which gives the slot back. In between are the packets that are pending
(`SonicBrew.NetRtp.Inner.pending`), a queue: the kernel appends to it and the program takes from its
front (`SonicBrew.NetRtp.Inner.pending_deliver`,
`SonicBrew.NetRtp.NetmapTransport.recvRaw_of_cons`), so that every packet is received once, in
order, and `cur` stays behind `tail`.

What `recv_raw` returns is the number of bytes it has copied, and zero is meant to say that
nothing is pending. It says that also of a packet without bytes, and of any packet if the caller
has no room for a byte of it. Such a packet is taken from the ring all the same
(`SonicBrew.NetRtp.RxRun.faithful_iff`).
-/

namespace SonicBrew

namespace NetRtp

open Circular (ahead between)

/-! ### The receive ring -/

/-- The packet of a slot. No more of it can be seen than there is in a buffer. -/
def Inner.packetOf (inner : Inner) (slot : NetmapSlot) : Bytes :=
  (inner.buffers.getD slot.bufIdx.toNat []).take (min slot.len.toNat inner.rx.bufSize.toNat)

/-- The slots from `cur` up to `tail`. -/
def Ring.pendingSlots (r : Ring) : List NetmapSlot :=
  (between r.numSlots.toNat r.cur.toNat r.tail.toNat).filterMap fun i => r.slots[i]?

/-- **The packets that are pending.** -/
def Inner.pending (inner : Inner) : List Bytes := inner.rx.pendingSlots.map inner.packetOf

/-- The slot at `cur` is given back. -/
def Ring.release (r : Ring) : Ring :=
  { r with
    cur := (r.cur + 1) % r.numSlots
    head := (r.cur + 1) % r.numSlots }

namespace NetmapTransport

/-- `recv_raw`, into a buffer of the caller, which is given back. -/
def recvRaw (inner : Option Inner) (buf : Bytes) :
    Except TransportError ℕ × Option Inner × Bytes :=
  match inner with
  | none => (.error notOpen, none, buf)
  | some inner =>
      let rx := inner.rx
      if h : rx.cur ≥ rx.numSlots then
        (.error (corruptRing "rx.cur" rx.cur rx.numSlots), some inner, buf)
      else if rx.cur = rx.tail then (.ok 0, some inner, buf)
      else
        have hcur : rx.cur.toNat < rx.slots.length := by
          rw [rx.length_slots]
          exact UInt32.lt_iff_toNat_lt.mp (UInt32.not_le.mp h)
        let slot := rx.slots.get ⟨rx.cur.toNat, hcur⟩
        let n := min (min slot.len.toNat buf.length) rx.bufSize.toNat
        let src := inner.buffers.getD slot.bufIdx.toNat []
        (.ok n, some { inner with rx := rx.release }, src.take n ++ buf.drop n)

/-- `rxsync`. The kernel refuses, or does what it has to do. -/
def rxsync (inner : Option Inner) (ioctl : Except String Inner) :
    Except TransportError Unit × Option Inner :=
  match inner with
  | none => (.error notOpen, none)
  | some inner =>
      match ioctl with
      | .error e => (.error (.network ("NIOCRXSYNC: " ++ e)), some inner)
      | .ok after => (.ok (), some after)

/-- `prime_rx`; the answer of the kernel depends on the ring that it finds. -/
def primeRx (inner : Option Inner) (ioctl : Inner → Except String Inner) :
    Except TransportError Unit × Option Inner :=
  match inner with
  | none => (.error notOpen, none)
  | some inner =>
      let inner :=
        { inner with rx := { inner.rx with head := inner.rx.tail, cur := inner.rx.tail } }
      rxsync (some inner) (ioctl inner)

/-- The error if nothing is received. -/
def noPacket : TransportError := .network "no packet available"

/-- `recv_rtp`. -/
def recvRtp (inner : Option Inner) (ioctl : Except String Inner) :
    Except TransportError Bytes × Option Inner :=
  match rxsync inner ioctl with
  | (.error e, inner) => (.error e, inner)
  | (.ok (), inner) =>
      match recvRaw inner (List.replicate 65535 0) with
      | (.error e, inner, _) => (.error e, inner)
      | (.ok n, inner, buf) =>
          if n = 0 then (.error noPacket, inner)
          else
            match RtpPacket.parse (buf.take n) with
            | .error e => (.error e, inner)
            | .ok packet => (.ok packet.payload, inner)

end NetmapTransport

/-! ### The kernel -/

/-- What the kernel puts into a slot: a descriptor, and what is then in the buffer it refers to. -/
structure Arrival where
  slot : NetmapSlot
  content : Bytes
  deriving DecidableEq

def Arrival.packet (a : Arrival) : Bytes := a.content.take a.slot.len.toNat

/-- A packet in the slot at `tail`. -/
def Inner.fill (inner : Inner) (a : Arrival) : Inner :=
  { inner with
    rx :=
      { inner.rx with
        tail := (inner.rx.tail + 1) % inner.rx.numSlots
        slots := inner.rx.slots.set inner.rx.tail.toNat a.slot
        length_slots := by rw [List.length_set, inner.rx.length_slots] }
    buffers := inner.buffers.set a.slot.bufIdx.toNat a.content }

/-- **What the kernel may do**: it leaves the slots alone that are pending, and their buffers, and
`tail` does not come round to `cur`. -/
def Inner.Fillable (inner : Inner) (a : Arrival) : Prop :=
  ahead inner.rx.numSlots.toNat inner.rx.cur.toNat inner.rx.tail.toNat + 1 <
      inner.rx.numSlots.toNat ∧
    a.slot.bufIdx.toNat < inner.buffers.length ∧ a.content.length = inner.rx.bufSize.toNat ∧
    ∀ slot ∈ inner.rx.pendingSlots, slot.bufIdx ≠ a.slot.bufIdx

instance (inner : Inner) (a : Arrival) : Decidable (inner.Fillable a) :=
  inferInstanceAs (Decidable (_ ∧ _ ∧ _ ∧ _))

/-- Any number of packets. -/
def Inner.deliver : Inner → List Arrival → Option Inner :=
  Transition.run fun inner a => if inner.Fillable a then some (inner.fill a) else none

/-- **A port that can be received from**: the positions are on the ring, and the slots refer to
buffers of the given size. -/
structure Inner.Receiving (inner : Inner) : Prop where
  cur_lt : inner.rx.cur < inner.rx.numSlots
  tail_lt : inner.rx.tail < inner.rx.numSlots
  bufSize_ne : inner.rx.bufSize ≠ 0
  backed : ∀ slot ∈ inner.rx.slots, slot.bufIdx.toNat < inner.buffers.length
  buffers : ∀ buf ∈ inner.buffers, buf.length = inner.rx.bufSize.toNat

instance (inner : Inner) : Decidable inner.Receiving :=
  decidable_of_iff (inner.rx.cur < inner.rx.numSlots ∧ inner.rx.tail < inner.rx.numSlots ∧
      inner.rx.bufSize ≠ 0 ∧ (∀ slot ∈ inner.rx.slots, slot.bufIdx.toNat < inner.buffers.length) ∧
      ∀ buf ∈ inner.buffers, buf.length = inner.rx.bufSize.toNat)
    ⟨fun ⟨hcur, htail, hsize, hbacked, hbuffers⟩ => ⟨hcur, htail, hsize, hbacked, hbuffers⟩,
      fun h => ⟨h.cur_lt, h.tail_lt, h.bufSize_ne, h.backed, h.buffers⟩⟩

/-! ### The queue -/

namespace Ring

variable {r : Ring}

theorem length_pendingSlots (h : 0 < r.numSlots.toNat) :
    r.pendingSlots.length = ahead r.numSlots.toNat r.cur.toNat r.tail.toNat := by
  rw [pendingSlots, List.length_filterMap_eq_countP, List.countP_eq_length.mpr,
    Circular.length_between]
  intro i hi
  have hlt : i < r.slots.length := by
    rw [r.length_slots]
    exact Circular.lt_of_mem_between h hi
  rw [List.getElem?_eq_getElem hlt, Option.isSome_some]

theorem pendingSlots_of_eq (hcur : r.cur < r.numSlots) (heq : r.cur = r.tail) :
    r.pendingSlots = [] := by
  rw [pendingSlots, ← heq, Circular.between_self (UInt32.lt_iff_toNat_lt.mp hcur),
    List.filterMap_nil]

/-- **The slot at `cur` is the first**, and the others are left when it is given back. -/
theorem pendingSlots_of_ne (hcur : r.cur < r.numSlots) (htail : r.tail < r.numSlots)
    (hne : r.cur ≠ r.tail) (hget : r.cur.toNat < r.slots.length) :
    r.pendingSlots = r.slots.get ⟨r.cur.toNat, hget⟩ :: r.release.pendingSlots := by
  rw [pendingSlots, Circular.between_of_ne (UInt32.lt_iff_toNat_lt.mp hcur)
    (UInt32.lt_iff_toNat_lt.mp htail) fun h => hne (UInt32.toNat_inj.mp h),
    List.filterMap_cons_some (List.getElem?_eq_getElem hget), ← TxRun.toNat_succ_mod hcur]
  rfl

/-- A slot that is given back is another one than the next. -/
theorem release_cur_ne (hcur : r.cur < r.numSlots) (htail : r.tail < r.numSlots)
    (hne : r.cur ≠ r.tail) : r.release.cur ≠ r.cur := by
  have hh := UInt32.lt_iff_toNat_lt.mp hcur
  have ht := UInt32.lt_iff_toNat_lt.mp htail
  have hne' : r.cur.toNat ≠ r.tail.toNat := fun h => hne (UInt32.toNat_inj.mp h)
  rw [Ne, ← UInt32.toNat_inj]
  show ((r.cur + 1) % r.numSlots).toNat ≠ r.cur.toNat
  rw [TxRun.toNat_succ_mod hcur]
  rcases Nat.lt_or_ge (r.cur.toNat + 1) r.numSlots.toNat with hlt | hge
  · rw [Nat.mod_eq_of_lt hlt]
    omega
  · rw [show r.cur.toNat + 1 = r.numSlots.toNat by omega, Nat.mod_self]
    omega

end Ring

theorem Inner.Receiving.pos {inner : Inner} (h : inner.Receiving) :
    0 < inner.rx.numSlots.toNat :=
  Nat.zero_lt_of_lt (UInt32.lt_iff_toNat_lt.mp h.cur_lt)

theorem Inner.Receiving.mod_lt {inner : Inner} (h : inner.Receiving) (i : UInt32) :
    i % inner.rx.numSlots < inner.rx.numSlots := by
  rw [UInt32.lt_iff_toNat_lt, UInt32.toNat_mod]
  exact Nat.mod_lt _ h.pos

theorem Inner.Receiving.cur_lt_length {inner : Inner} (h : inner.Receiving) :
    inner.rx.cur.toNat < inner.rx.slots.length := by
  rw [inner.rx.length_slots]
  exact UInt32.lt_iff_toNat_lt.mp h.cur_lt

theorem Inner.Receiving.release {inner : Inner} (h : inner.Receiving) :
    Inner.Receiving { inner with rx := inner.rx.release } where
  cur_lt := h.mod_lt _
  tail_lt := h.tail_lt
  bufSize_ne := h.bufSize_ne
  backed := h.backed
  buffers := h.buffers

section Fill

variable {inner : Inner} {a : Arrival}

/-- The slots on the way to `tail` are not the one that is filled. -/
theorem Inner.Receiving.pendingSlots_fill (h : inner.Receiving) (ha : inner.Fillable a) :
    (inner.fill a).rx.pendingSlots = inner.rx.pendingSlots ++ [a.slot] := by
  have hcur := UInt32.lt_iff_toNat_lt.mp h.cur_lt
  have htail := UInt32.lt_iff_toNat_lt.mp h.tail_lt
  have hslot : inner.rx.tail.toNat < inner.rx.slots.length := by
    rw [inner.rx.length_slots]
    exact htail
  rw [Ring.pendingSlots]
  show (between inner.rx.numSlots.toNat inner.rx.cur.toNat
    ((inner.rx.tail + 1) % inner.rx.numSlots).toNat).filterMap
      (fun i => (inner.rx.slots.set inner.rx.tail.toNat a.slot)[i]?) = _
  rw [TxRun.toNat_succ_mod h.tail_lt, Circular.between_succ hcur htail ha.1,
    List.filterMap_append, Ring.pendingSlots]
  congr 1
  · refine List.filterMap_congr fun i hi => ?_
    have hne : inner.rx.tail.toNat ≠ i := by
      rintro rfl
      exact Circular.not_mem_between hcur htail hi
    exact List.getElem?_set_ne hne
  · simp [List.getElem?_set_self hslot]

theorem Inner.packetOf_fill_of_ne {slot : NetmapSlot} (h : slot.bufIdx ≠ a.slot.bufIdx) :
    (inner.fill a).packetOf slot = inner.packetOf slot := by
  have hne : a.slot.bufIdx.toNat ≠ slot.bufIdx.toNat := fun heq => h (UInt32.toNat_inj.mp heq).symm
  show ((inner.buffers.set a.slot.bufIdx.toNat a.content).getD slot.bufIdx.toNat []).take _ = _
  rw [List.getD_eq_getElem?_getD, List.getElem?_set_ne hne, ← List.getD_eq_getElem?_getD]
  rfl

theorem Inner.Fillable.packetOf_fill (ha : inner.Fillable a) :
    (inner.fill a).packetOf a.slot = a.packet := by
  obtain ⟨-, hidx, hlen, -⟩ := ha
  show ((inner.buffers.set a.slot.bufIdx.toNat a.content).getD a.slot.bufIdx.toNat []).take
    (min a.slot.len.toNat inner.rx.bufSize.toNat) = _
  rw [List.getD_eq_getElem?_getD, List.getElem?_set_self hidx, Option.getD_some, Arrival.packet,
    ← hlen, ← List.take_eq_take_min]

/-- **One more packet**, which does not touch those that are pending. -/
theorem Inner.Receiving.fill (h : inner.Receiving) (ha : inner.Fillable a) :
    (inner.fill a).Receiving ∧ (inner.fill a).pending = inner.pending ++ [a.packet] := by
  have ⟨_, hidx, hlen, hothers⟩ := ha
  refine ⟨⟨h.cur_lt, h.mod_lt _, h.bufSize_ne, fun slot hslot => ?_, fun buf hbuf => ?_⟩, ?_⟩
  · show slot.bufIdx.toNat < (inner.buffers.set a.slot.bufIdx.toNat a.content).length
    rw [List.length_set]
    rcases List.mem_or_eq_of_mem_set hslot with hslot | rfl
    · exact h.backed slot hslot
    · exact hidx
  · rcases List.mem_or_eq_of_mem_set hbuf with hbuf | rfl
    · exact h.buffers buf hbuf
    · exact hlen
  · have hold : inner.rx.pendingSlots.map (inner.fill a).packetOf = inner.pending :=
      List.map_congr_left fun slot hslot => Inner.packetOf_fill_of_ne (hothers slot hslot)
    rw [Inner.pending, h.pendingSlots_fill ha, List.map_append, List.map_singleton,
      ha.packetOf_fill, hold]

end Fill

/-- **What the kernel delivers is appended to the queue.** -/
theorem Inner.pending_deliver {inner after : Inner} {arrivals : List Arrival} (h : inner.Receiving)
    (hdeliver : inner.deliver arrivals = some after) :
    after.Receiving ∧ after.pending = inner.pending ++ arrivals.map Arrival.packet := by
  induction arrivals generalizing inner with
  | nil =>
    obtain rfl : inner = after := Option.some.inj hdeliver
    exact ⟨h, by rw [List.map_nil, List.append_nil]⟩
  | cons a arrivals ih =>
    obtain ⟨filled, hfill, hrest⟩ := Transition.run_cons hdeliver
    by_cases ha : inner.Fillable a
    · rw [if_pos ha] at hfill
      obtain rfl := Option.some.inj hfill
      obtain ⟨hreceiving, hpending⟩ := h.fill ha
      obtain ⟨hafter, heq⟩ := ih hreceiving hrest
      refine ⟨hafter, ?_⟩
      rw [heq, hpending, List.map_cons, List.append_assoc, List.singleton_append]
    · rw [if_neg ha] at hfill
      cases hfill

namespace NetmapTransport

variable {inner : Inner}

theorem pending_eq_nil_iff (h : inner.Receiving) :
    inner.pending = [] ↔ inner.rx.cur = inner.rx.tail := by
  rw [Inner.pending, List.map_eq_nil_iff]
  refine ⟨fun hnil => ?_, Ring.pendingSlots_of_eq h.cur_lt⟩
  by_contra hne
  rw [Ring.pendingSlots_of_ne h.cur_lt h.tail_lt hne h.cur_lt_length] at hnil
  cases hnil

/-- **Nothing is pending.** -/
theorem recvRaw_of_nil (h : inner.Receiving) (hpending : inner.pending = []) (buf : Bytes) :
    recvRaw (some inner) buf = (.ok 0, some inner, buf) := by
  rw [recvRaw]
  dsimp only
  rw [dif_neg (UInt32.not_le.mpr h.cur_lt), if_pos ((pending_eq_nil_iff h).mp hpending)]

/-- **The packet at the front of the queue** is copied, as much of it as there is room for, and
taken out. -/
theorem recvRaw_of_cons (h : inner.Receiving) {packet : Bytes} {rest : List Bytes}
    (hpending : inner.pending = packet :: rest) (buf : Bytes) :
    recvRaw (some inner) buf = (.ok (packet.take buf.length).length,
      some { inner with rx := inner.rx.release },
      packet.take buf.length ++ buf.drop (packet.take buf.length).length) ∧
    Inner.pending { inner with rx := inner.rx.release } = rest := by
  have hne : inner.rx.cur ≠ inner.rx.tail := by
    rw [Ne, ← pending_eq_nil_iff h, hpending]
    exact List.cons_ne_nil _ _
  have hget := h.cur_lt_length
  rw [Inner.pending, Ring.pendingSlots_of_ne h.cur_lt h.tail_lt hne hget, List.map_cons] at hpending
  obtain ⟨hpacket, hrest⟩ := List.cons.inj hpending
  refine ⟨?_, hrest⟩
  rw [recvRaw]
  dsimp only
  rw [dif_neg (UInt32.not_le.mpr h.cur_lt), if_neg hne]
  generalize hslot : inner.rx.slots.get ⟨inner.rx.cur.toNat, hget⟩ = slot at hpacket
  have hbacked : slot.bufIdx.toNat < inner.buffers.length :=
    h.backed slot (hslot ▸ List.get_mem _ _)
  have hsrc : (inner.buffers.getD slot.bufIdx.toNat []).length = inner.rx.bufSize.toNat := by
    rw [List.getD_eq_getElem _ _ hbacked]
    exact h.buffers _ (List.getElem_mem hbacked)
  have htake : packet.take buf.length = (inner.buffers.getD slot.bufIdx.toNat []).take
      (min (min slot.len.toNat buf.length) inner.rx.bufSize.toNat) := by
    rw [← hpacket, Inner.packetOf, List.take_take]
    congr 1
    omega
  have hcount : (packet.take buf.length).length =
      min (min slot.len.toNat buf.length) inner.rx.bufSize.toNat := by
    rw [htake, List.length_take, hsrc]
    omega
  rw [hcount, htake]

/-- No packet is longer than a slot can say. -/
theorem length_le_of_mem_pending {packet : Bytes} (h : packet ∈ inner.pending) :
    packet.length ≤ 65535 := by
  obtain ⟨slot, -, rfl⟩ := List.mem_map.mp h
  have hlen := slot.len.toNat_lt
  rw [Inner.packetOf, List.length_take]
  omega

/-- `recv_rtp` with nothing pending after the kernel was asked. -/
theorem recvRtp_of_nil {after : Inner} (h : after.Receiving) (hpending : after.pending = []) :
    recvRtp (some inner) (.ok after) = (.error noPacket, some after) := by
  rw [recvRtp, rxsync]
  simp only [recvRaw_of_nil h hpending, if_true]

/-- **`recv_rtp` takes the packet at the front, and parses the whole of it**; but of one without
bytes it says that there is none. -/
theorem recvRtp_of_cons {after : Inner} (h : after.Receiving) {packet : Bytes} {rest : List Bytes}
    (hpending : after.pending = packet :: rest) :
    recvRtp (some inner) (.ok after) =
      (if packet = [] then .error noPacket else (RtpPacket.parse packet).map RtpPacket.payload,
        some { after with rx := after.rx.release }) := by
  have hlen : packet.length ≤ 65535 :=
    length_le_of_mem_pending (hpending ▸ List.mem_cons_self)
  have htake : packet.take (List.replicate 65535 (0 : UInt8)).length = packet :=
    List.take_of_length_le (by rw [List.length_replicate]; exact hlen)
  have hraw := (recvRaw_of_cons h hpending (List.replicate 65535 0)).1
  rw [htake] at hraw
  rw [recvRtp, rxsync]
  simp only [hraw, List.length_eq_zero_iff, List.take_left]
  split
  · rfl
  · cases RtpPacket.parse packet with
    | error e => rfl
    | ok p => rfl

end NetmapTransport

/-! ### Runs -/

/-- A port, and what has come through it. -/
structure RxRun where
  port : Inner
  /-- The packets that were pending at the start, and those that the kernel has delivered since. -/
  delivered : List Bytes
  /-- For each slot that was given back, how much room there was, and what was returned. -/
  returned : List (ℕ × Bytes)
  /-- For each call of `recv_raw`, whether something was pending, and the result. -/
  results : List (Bool × Except TransportError ℕ)

/-- What the program calls, and what the kernel does then. -/
inductive RxCall where
  | recvRaw (buf : Bytes)
  | rxsync (ioctl : Except String (List Arrival))

namespace RxRun

open NetmapTransport (recvRaw rxsync recvRaw_of_nil recvRaw_of_cons pending_eq_nil_iff)

def start (port : Inner) : RxRun := ⟨port, port.pending, [], []⟩

/-- One call. -/
def step (s : RxRun) : RxCall → Option RxRun
  | .recvRaw buf => do
      let outcome := recvRaw (some s.port) buf
      let port ← outcome.2.1
      let bytes := outcome.2.2.take (outcome.1.toOption.getD 0)
      return {
        port := port
        delivered := s.delivered
        returned :=
          if port.rx.cur = s.port.rx.cur then s.returned else s.returned ++ [(buf.length, bytes)]
        results := s.results ++ [(decide (s.port.rx.cur ≠ s.port.rx.tail), outcome.1)] }
  | .rxsync (.error e) => do
      let port ← (rxsync (some s.port) (.error e)).2
      return { s with port := port }
  | .rxsync (.ok arrivals) => do
      let after ← s.port.deliver arrivals
      let port ← (rxsync (some s.port) (.ok after)).2
      return { s with port := port, delivered := s.delivered ++ arrivals.map Arrival.packet }

/-- **What is delivered is received**: every packet once and in order, cut to the room that there
was, with the others still between `cur` and `tail`; and zero is returned exactly if nothing was
pending. -/
structure Faithful (s : RxRun) : Prop where
  inOrder : ∃ taken, s.delivered = taken ++ s.port.pending ∧
    List.Forall₂ (fun r packet => r.2 = packet.take r.1) s.returned taken
  behind : s.returned.length + ahead s.port.rx.numSlots.toNat s.port.rx.cur.toNat
    s.port.rx.tail.toNat = s.delivered.length
  told : ∀ call ∈ s.results, call.2 = .ok 0 ↔ call.1 = false

/-- If a packet is pending, it has bytes, and there is room for one. -/
def Visible (s : RxRun) : RxCall → Prop
  | .recvRaw buf => ∀ packet ∈ s.port.pending.head?, packet ≠ [] ∧ buf ≠ []
  | .rxsync _ => True

instance decidableVisible (s : RxRun) : ∀ call, Decidable (s.Visible call)
  | .recvRaw buf =>
      inferInstanceAs (Decidable (∀ packet ∈ s.port.pending.head?, packet ≠ [] ∧ buf ≠ []))
  | .rxsync _ => inferInstanceAs (Decidable True)

/-- **What a call does.** -/
theorem step_cases {s s' : RxRun} {call : RxCall} (hs : s.port.Receiving)
    (h : s.step call = some s') :
    (∃ e, call = .rxsync (.error e) ∧ s' = s) ∨
    (∃ arrivals after, call = .rxsync (.ok arrivals) ∧ s.port.deliver arrivals = some after ∧
      s' = { s with port := after, delivered := s.delivered ++ arrivals.map Arrival.packet }) ∨
    (∃ buf, call = .recvRaw buf ∧ s.port.pending = [] ∧
      s' = { s with results := s.results ++ [(false, .ok 0)] }) ∨
    ∃ buf packet rest, call = .recvRaw buf ∧ s.port.pending = packet :: rest ∧
      s' = ⟨{ s.port with rx := s.port.rx.release }, s.delivered,
        s.returned ++ [(buf.length, packet.take buf.length)],
        s.results ++ [(true, .ok (packet.take buf.length).length)]⟩ := by
  rcases call with buf | e | arrivals
  · refine Or.inr (Or.inr ?_)
    rcases hpending : s.port.pending with _ | ⟨packet, rest⟩
    · refine Or.inl ⟨buf, rfl, rfl, ?_⟩
      have hcur := (pending_eq_nil_iff hs).mp hpending
      have hstep : s.step (.recvRaw buf) =
          some { s with results := s.results ++ [(false, .ok 0)] } := by
        simp only [step, recvRaw_of_nil hs hpending]
        simp [hcur]
      exact Option.some.inj (h.symm.trans hstep)
    · refine Or.inr ⟨buf, packet, rest, rfl, rfl, ?_⟩
      have hcur : s.port.rx.cur ≠ s.port.rx.tail := by
        rw [Ne, ← pending_eq_nil_iff hs, hpending]
        exact List.cons_ne_nil _ _
      have hmoved := Ring.release_cur_ne hs.cur_lt hs.tail_lt hcur
      have hstep : s.step (.recvRaw buf) = some ⟨{ s.port with rx := s.port.rx.release },
          s.delivered, s.returned ++ [(buf.length, packet.take buf.length)],
          s.results ++ [(true, .ok (packet.take buf.length).length)]⟩ := by
        simp only [step, (recvRaw_of_cons hs hpending buf).1]
        simp [hcur, hmoved, Except.toOption, -List.length_take]
      exact Option.some.inj (h.symm.trans hstep)
  · exact Or.inl ⟨e, rfl, (Option.some.inj h).symm⟩
  · refine Or.inr (Or.inl ?_)
    obtain ⟨after, hafter, hrest⟩ := Option.bind_eq_some_iff.mp h
    exact ⟨arrivals, after, rfl, hafter, (Option.some.inj hrest).symm⟩

theorem receiving_step {s s' : RxRun} {call : RxCall} (hs : s.port.Receiving)
    (h : s.step call = some s') : s'.port.Receiving := by
  obtain ⟨e, rfl, rfl⟩ | ⟨arrivals, after, rfl, hafter, rfl⟩ | ⟨buf, rfl, -, rfl⟩ |
    ⟨buf, packet, rest, rfl, -, rfl⟩ := step_cases hs h
  · exact hs
  · exact (Inner.pending_deliver hs hafter).1
  · exact hs
  · exact hs.release

theorem length_pending {port : Inner} (h : port.Receiving) : port.pending.length =
    ahead port.rx.numSlots.toNat port.rx.cur.toNat port.rx.tail.toNat := by
  rw [Inner.pending, List.length_map, Ring.length_pendingSlots h.pos]

/-- Where `cur` is follows from the rest. -/
theorem faithful_of_inOrder {s : RxRun} (taken : List Bytes) (hs : s.port.Receiving)
    (heq : s.delivered = taken ++ s.port.pending)
    (hreturned : List.Forall₂ (fun r packet => r.2 = packet.take r.1) s.returned taken)
    (htold : ∀ call ∈ s.results, call.2 = .ok 0 ↔ call.1 = false) : s.Faithful where
  inOrder := ⟨taken, heq, hreturned⟩
  behind := by rw [hreturned.length_eq, ← length_pending hs, heq, List.length_append]
  told := htold

theorem faithful_start {port : Inner} (h : port.Receiving) : (start port).Faithful :=
  faithful_of_inOrder [] h rfl .nil fun _ hcall => absurd hcall List.not_mem_nil

/-- **One more call.** -/
theorem faithful_step {s s' : RxRun} {call : RxCall} (hs : s.port.Receiving) (hf : s.Faithful)
    (h : s.step call = some s') : s'.Faithful ↔ s.Visible call := by
  have hs' := receiving_step hs h
  obtain ⟨taken, heq, hreturned⟩ := hf.inOrder
  obtain ⟨e, rfl, rfl⟩ | ⟨arrivals, after, rfl, hafter, rfl⟩ | ⟨buf, rfl, hpending, rfl⟩ |
    ⟨buf, packet, rest, rfl, hpending, rfl⟩ := step_cases hs h
  · exact iff_of_true hf trivial
  · refine iff_of_true (faithful_of_inOrder taken hs' ?_ hreturned hf.told) trivial
    show s.delivered ++ arrivals.map Arrival.packet = taken ++ after.pending
    rw [(Inner.pending_deliver hs hafter).2, heq, List.append_assoc]
  · refine iff_of_true (faithful_of_inOrder taken hs' heq hreturned fun call hcall => ?_) ?_
    · rcases List.mem_append.mp hcall with hcall | hcall
      · exact hf.told call hcall
      · obtain rfl := List.mem_singleton.mp hcall
        exact iff_of_true rfl rfl
    · intro packet hpacket
      rw [hpending] at hpacket
      cases hpacket
  · -- the call is told of exactly if a byte of the packet is copied
    have htold : s.Visible (.recvRaw buf) ↔ (packet.take buf.length).length ≠ 0 := by
      have hhead : s.Visible (.recvRaw buf) ↔ packet ≠ [] ∧ buf ≠ [] := by
        rw [Visible, hpending]
        exact ⟨fun h => h packet rfl, fun h p hp => Option.some.inj hp ▸ h⟩
      rw [hhead, List.length_take, ← List.length_pos_iff, ← List.length_pos_iff]
      omega
    rw [htold]
    constructor
    · intro hf' hzero
      have hlast := (hf'.told _ (List.mem_append_right _ List.mem_cons_self)).mp
        (congrArg Except.ok hzero)
      cases hlast
    · intro hne
      refine faithful_of_inOrder (taken ++ [packet]) hs' ?_ ?_ fun call hcall => ?_
      · rw [(recvRaw_of_cons hs hpending buf).2, List.append_assoc, List.singleton_append,
          ← hpending]
        exact heq
      · exact List.rel_append hreturned (.cons rfl .nil)
      · rcases List.mem_append.mp hcall with hcall | hcall
        · exact hf.told call hcall
        · obtain rfl := List.mem_singleton.mp hcall
          exact iff_of_false (fun hzero => hne (Except.ok.inj hzero)) (by simp)

/-- **Whatever is called, every packet that is delivered is received once and in order, and zero
says that nothing is pending, exactly if no packet without bytes is received and no packet is
received without room for one.** -/
theorem faithful_iff {port : Inner} {calls : List RxCall} {s : RxRun} (hport : port.Receiving)
    (h : Transition.run step (start port) calls = some s) :
    Transition.Always step Faithful (start port) calls ↔
      Transition.Meets step Visible (start port) calls :=
  Transition.always_iff_meets_of_invariant (I := fun s => s.port.Receiving)
    (fun _ _ _ => receiving_step) (fun _ _ _ => faithful_step) hport (faithful_start hport) h

/-- A port with two slots a ring, and nothing pending. -/
def drained : Inner := { TxRun.small with rx := { TxRun.small.rx with tail := 0 } }

/-- A packet is cut to the room that there is, and then nothing is pending. -/
theorem faithful_iff_cut :
    (Transition.run step (start drained)
        [.rxsync (.ok [⟨⟨2, 2⟩, [7, 8, 0, 0]⟩]), .recvRaw [0], .recvRaw [0]]).isSome = true ∧
      Transition.Always step Faithful (start drained)
        [.rxsync (.ok [⟨⟨2, 2⟩, [7, 8, 0, 0]⟩]), .recvRaw [0], .recvRaw [0]] := by
  have hrun : (Transition.run step (start drained)
      [.rxsync (.ok [⟨⟨2, 2⟩, [7, 8, 0, 0]⟩]), .recvRaw [0], .recvRaw [0]]).isSome = true := by
    decide
  obtain ⟨s, hs⟩ := Option.isSome_iff_exists.mp hrun
  exact ⟨hrun, (faithful_iff (by decide) hs).mpr (by decide)⟩

/-- **A packet without bytes**: `recv_raw` takes it, and says that nothing is pending. -/
theorem recvRaw_empty_packet :
    ∃ s, Transition.run step (start drained)
        [.rxsync (.ok [⟨⟨2, 0⟩, [0, 0, 0, 0]⟩]), .recvRaw [0, 0]] = some s ∧
      s.delivered = [[]] ∧ s.results = [(true, .ok 0)] ∧ s.port.pending = [] :=
  ⟨_, rfl, rfl, rfl, rfl⟩

end RxRun

end NetRtp

end SonicBrew
