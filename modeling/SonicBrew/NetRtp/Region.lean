import SonicBrew.Lib.Memory
import SonicBrew.NetRtp.Receiving

/-!
# The memory that a netmap port shares with the kernel

The rings of a port are not lists. They are laid out in a region of memory that is mapped into the
program: at the address of a ring is a header with the three positions, after it comes the table of
the slots, and the buffers that the slots of both rings refer to are at an offset from either
header. `send_raw` and `recv_raw` read and write single fields there.

The rings that are in memory are read off it (`SonicBrew.NetRtp.RingView.ring`,
`SonicBrew.NetRtp.Port.inner`). If the rings and the buffers are apart from one another
(`SonicBrew.NetRtp.Port`), and the slots refer to buffers that there are
(`SonicBrew.NetRtp.Port.Backed`), then the calls do to the memory what they do to the rings, return
the same, and touch nothing outside (`SonicBrew.NetRtp.Port.refines_of_run`).
-/

namespace SonicBrew

namespace NetRtp

open Format (leBytes leNat length_leBytes leNat_leBytes le32 ofLe32 length_le32 ofLe32_le32)

open Memory (Apart store_apply_of_outside)

/-! ### Fields -/

/-- The `u16` at an address. -/
def u16At (m : Memory) (a : ℕ) : UInt16 := UInt16.ofNat (leNat (m.load a 2))

/-- The `u32` at an address. -/
def u32At (m : Memory) (a : ℕ) : UInt32 := ofLe32 (m.load a 4)

/-- The bytes of a `u16`. -/
def le16 (x : UInt16) : Bytes := leBytes 2 x.toNat

theorem length_le16 (x : UInt16) : (le16 x).length = 2 := length_leBytes 2 _

theorem u32At_store (m : Memory) (a : ℕ) (x : UInt32) : u32At (m.store a (le32 x)) a = x := by
  have hload := m.load_store a (le32 x)
  rw [length_le32] at hload
  rw [u32At, hload, ofLe32_le32]

theorem u16At_store (m : Memory) (a : ℕ) (x : UInt16) : u16At (m.store a (le16 x)) a = x := by
  have hload := m.load_store a (le16 x)
  have hlt : x.toNat < 256 ^ 2 := x.toNat_lt
  rw [length_le16] at hload
  rw [u16At, hload, le16, leNat_leBytes, Nat.mod_eq_of_lt hlt, UInt16.ofNat_toNat]

variable {m : Memory} {a b : ℕ} {bytes : Bytes}

theorem u32At_store_of_apart (h : Apart a 4 b bytes.length) :
    u32At (m.store b bytes) a = u32At m a := by
  rw [u32At, m.load_store_of_apart h, u32At]

theorem u16At_store_of_apart (h : Apart a 2 b bytes.length) :
    u16At (m.store b bytes) a = u16At m a := by
  rw [u16At, m.load_store_of_apart h, u16At]

/-! ### Rings -/

/-- `Ring`: where the header is, and what was read from it when the port was opened. A negative
`buf_ofs` is refused then. -/
structure RingView where
  hdr : ℕ
  numSlots : UInt32
  bufSize : UInt32
  bufOfs : ℕ
  deriving DecidableEq, Repr

namespace RingView

variable (r : RingView)

/-- `head`. -/
def head (m : Memory) : UInt32 := u32At m (r.hdr + 20)

/-- `cur`. -/
def cur (m : Memory) : UInt32 := u32At m (r.hdr + 24)

/-- `tail`. -/
def tail (m : Memory) : UInt32 := u32At m (r.hdr + 28)

/-- `set_head`. -/
def setHead (v : UInt32) (m : Memory) : Memory := m.store (r.hdr + 20) (le32 v)

/-- `set_cur`. -/
def setCur (v : UInt32) (m : Memory) : Memory := m.store (r.hdr + 24) (le32 v)

/-- `slots_free`. -/
def slotsFree (m : Memory) : ℕ :=
  if r.numSlots = 0 then 0
  else
    let inflight := (r.head m - r.tail m) % r.numSlots
    (r.numSlots - inflight).toNat

/-- `slot`: the table begins 256 bytes after the header, and a slot is 16 bytes. -/
def slot (i : ℕ) : ℕ := r.hdr + 256 + 16 * i

/-- The field `buf_idx` of a slot. -/
def bufIdx (m : Memory) (i : ℕ) : UInt32 := u32At m (r.slot i)

/-- The field `len` of a slot. -/
def len (m : Memory) (i : ℕ) : UInt16 := u16At m (r.slot i + 4)

def setLen (i : ℕ) (v : UInt16) (m : Memory) : Memory := m.store (r.slot i + 4) (le16 v)

/-- `buffer`. -/
def buffer (idx : ℕ) : ℕ := r.hdr + (r.bufOfs + idx * r.bufSize.toNat)

/-- How many bytes the header and the slots take. -/
def extent : ℕ := 256 + 16 * r.numSlots.toNat

/-- **The ring that is in memory.** -/
def ring (m : Memory) : Ring where
  numSlots := r.numSlots
  bufSize := r.bufSize
  head := r.head m
  cur := r.cur m
  tail := r.tail m
  slots := (List.range r.numSlots.toNat).map fun i => ⟨r.bufIdx m i, r.len m i⟩
  length_slots := by rw [List.length_map, List.length_range]

end RingView

/-- `Inner`: the rings of an open port. The buffers come after the same address for both of them,
and the rings and the buffers are apart. -/
structure Port where
  tx : RingView
  rx : RingView
  /-- How many buffers there are. -/
  buffers : ℕ
  bufSize_eq : rx.bufSize = tx.bufSize
  pool_eq : rx.hdr + rx.bufOfs = tx.hdr + tx.bufOfs
  rings_apart : Apart tx.hdr tx.extent rx.hdr rx.extent
  tx_apart : Apart tx.hdr tx.extent (tx.hdr + tx.bufOfs) (buffers * tx.bufSize.toNat)
  rx_apart : Apart rx.hdr rx.extent (tx.hdr + tx.bufOfs) (buffers * tx.bufSize.toNat)

namespace Port

/-- The content of a buffer. -/
def content (p : Port) (m : Memory) (idx : ℕ) : Bytes :=
  m.load (p.tx.buffer idx) p.tx.bufSize.toNat

/-- **The port that is in memory.** -/
def inner (p : Port) (m : Memory) : Inner where
  tx := p.tx.ring m
  rx := p.rx.ring m
  buffers := (List.range p.buffers).map (p.content m)

/-- `send_raw`. -/
def sendRaw (p : Port) (m : Memory) (packet : Bytes) : Except TransportError ℕ × Memory :=
  let tx := p.tx
  if packet.length > 65535 then
    (.error (.network ("packet of " ++ toString packet.length ++
      " B cannot fit a 16-bit slot length")), m)
  else if packet.length > tx.bufSize.toNat then
    (.error (.network ("packet of " ++ toString packet.length ++
      " B exceeds the netmap buffer size of " ++ toString tx.bufSize ++ " B")), m)
  else if tx.slotsFree m = 0 then (.error ringFull, m)
  else
    let head := tx.head m
    if head ≥ tx.numSlots then (.error (corruptRing "tx.head" head tx.numSlots), m)
    else
      let bufIdx := tx.bufIdx m head.toNat
      let m := m.store (tx.buffer bufIdx.toNat) packet
      let m := tx.setLen head.toNat (UInt16.ofNat packet.length) m
      let m := tx.setHead ((head + 1) % tx.numSlots) m
      let m := tx.setCur ((head + 1) % tx.numSlots) m
      (.ok packet.length, m)

/-- `txsync`. The kernel refuses, or moves `tail`. -/
def txsync (p : Port) (m : Memory) (ioctl : Except String UInt32) :
    Except TransportError Unit × Memory :=
  match ioctl with
  | .error e => (.error (.network ("NIOCTXSYNC: " ++ e)), m)
  | .ok tail => (.ok (), m.store (p.tx.hdr + 28) (le32 tail))

/-- `recv_raw`. -/
def recvRaw (p : Port) (m : Memory) (buf : Bytes) : Except TransportError ℕ × Memory × Bytes :=
  let rx := p.rx
  let cur := rx.cur m
  if cur ≥ rx.numSlots then (.error (corruptRing "rx.cur" cur rx.numSlots), m, buf)
  else if cur = rx.tail m then (.ok 0, m, buf)
  else
    let len := rx.len m cur.toNat
    let bufIdx := rx.bufIdx m cur.toNat
    let n := min (min len.toNat buf.length) rx.bufSize.toNat
    let src := m.load (rx.buffer bufIdx.toNat) n
    let next := (cur + 1) % rx.numSlots
    let m := rx.setCur next m
    let m := rx.setHead next m
    (.ok n, m, src ++ buf.drop n)

/-- `rxsync`. The kernel refuses, or leaves the memory as it is then. -/
def rxsync (m : Memory) (ioctl : Except String Memory) : Except TransportError Unit × Memory :=
  match ioctl with
  | .error e => (.error (.network ("NIOCRXSYNC: " ++ e)), m)
  | .ok after => (.ok (), after)

/-- `prime_rx`. -/
def primeRx (p : Port) (m : Memory) (ioctl : Except String Memory) :
    Except TransportError Unit × Memory :=
  let tail := p.rx.tail m
  let m := p.rx.setHead tail m
  let m := p.rx.setCur tail m
  rxsync m ioctl

end Port

/-! ### What a store does to a ring -/

theorem Ring.eq_of_fields {r r' : Ring} (hslots : r.slots = r'.slots)
    (hnum : r.numSlots = r'.numSlots) (hsize : r.bufSize = r'.bufSize) (hhead : r.head = r'.head)
    (hcur : r.cur = r'.cur) (htail : r.tail = r'.tail) : r = r' := by
  cases r
  cases r'
  cases hslots
  cases hnum
  cases hsize
  cases hhead
  cases hcur
  cases htail
  rfl

/-- A table in which one entry is changed. -/
theorem modify_map_range {α : Type} (f : ℕ → α) (g : α → α) (n i : ℕ) :
    ((List.range n).map f).modify i g =
      (List.range n).map fun j => if i = j then g (f j) else f j := by
  refine List.ext_getElem? fun j => ?_
  rw [List.getElem?_modify, List.getElem?_map, List.getElem?_map]
  rcases Nat.lt_or_ge j n with hj | hj
  · rw [List.getElem?_range hj]
    rfl
  · rw [List.getElem?_eq_none (by rw [List.length_range]; exact hj)]
    rfl

namespace RingView

variable {r : RingView} {i : ℕ}

theorem get_slots (h : i < (r.ring m).slots.length) :
    (r.ring m).slots.get ⟨i, h⟩ = ⟨r.bufIdx m i, r.len m i⟩ := by
  simp [ring]

/-- The slots are inside the ring. -/
theorem slot_le (h : i < r.numSlots.toNat) : r.slot i + 16 ≤ r.hdr + r.extent := by
  rw [slot, extent]
  omega

theorem slot_apart {n k : ℕ} (h : Apart r.hdr r.extent b n) (hi : i < r.numSlots.toNat)
    (hk : k ≤ 16) : Apart (r.slot i) k b n := by
  have hle := slot_le hi
  refine h.shrink ?_ (by omega) le_rfl le_rfl
  rw [slot]
  omega

/-- A store that leaves the fields of the slots alone leaves the table alone. -/
theorem slots_store (hidx : ∀ i < r.numSlots.toNat, Apart (r.slot i) 6 b bytes.length) :
    (r.ring (m.store b bytes)).slots = (r.ring m).slots := by
  refine List.map_congr_left fun i hi => ?_
  have hi' := hidx i (List.mem_range.mp hi)
  rw [Apart] at hi'
  have hbuf : r.bufIdx (m.store b bytes) i = r.bufIdx m i :=
    u32At_store_of_apart (by rw [Apart]; omega)
  have hlen : r.len (m.store b bytes) i = r.len m i :=
    u16At_store_of_apart (by rw [Apart]; omega)
  rw [hbuf, hlen]

/-- A store in the header leaves the table alone. -/
theorem slots_store_header (h : b + bytes.length ≤ r.hdr + 256) :
    (r.ring (m.store b bytes)).slots = (r.ring m).slots := by
  refine slots_store fun i _ => Or.inr ?_
  rw [slot]
  omega

/-- **A store elsewhere leaves a ring as it is.** -/
theorem ring_store_of_apart (h : Apart r.hdr r.extent b bytes.length) :
    r.ring (m.store b bytes) = r.ring m := by
  have hfield : ∀ k, k + 4 ≤ 256 → u32At (m.store b bytes) (r.hdr + k) = u32At m (r.hdr + k) := by
    intro k hk
    refine u32At_store_of_apart (h.shrink (Nat.le_add_right _ _) ?_ le_rfl le_rfl)
    rw [extent]
    omega
  exact Ring.eq_of_fields (slots_store fun i hi => slot_apart h hi (by omega)) rfl rfl
    (hfield 20 (by omega)) (hfield 24 (by omega)) (hfield 28 (by omega))

theorem ring_setHead (v : UInt32) : r.ring (r.setHead v m) = { r.ring m with head := v } := by
  refine Ring.eq_of_fields (slots_store_header ?_) rfl rfl (u32At_store _ _ _)
    (u32At_store_of_apart ?_) (u32At_store_of_apart ?_)
  all_goals
    try rw [Apart]
    rw [length_le32]
    omega

theorem ring_setCur (v : UInt32) : r.ring (r.setCur v m) = { r.ring m with cur := v } := by
  refine Ring.eq_of_fields (slots_store_header ?_) rfl rfl (u32At_store_of_apart ?_)
    (u32At_store _ _ _) (u32At_store_of_apart ?_)
  all_goals
    try rw [Apart]
    rw [length_le32]
    omega

theorem ring_store_tail (v : UInt32) :
    r.ring (m.store (r.hdr + 28) (le32 v)) = { r.ring m with tail := v } := by
  refine Ring.eq_of_fields (slots_store_header ?_) rfl rfl (u32At_store_of_apart ?_)
    (u32At_store_of_apart ?_) (u32At_store _ _ _)
  all_goals
    try rw [Apart]
    rw [length_le32]
    omega

theorem slots_setLen (v : UInt16) : (r.ring (r.setLen i v m)).slots =
    (r.ring m).slots.modify i fun slot => { slot with len := v } := by
  have hmodify := modify_map_range (fun j => (⟨r.bufIdx m j, r.len m j⟩ : NetmapSlot))
    (fun slot => { slot with len := v }) r.numSlots.toNat i
  refine Eq.trans (List.map_congr_left fun j _ => ?_) hmodify.symm
  have hbuf : r.bufIdx (r.setLen i v m) j = r.bufIdx m j := by
    refine u32At_store_of_apart ?_
    rw [Apart, slot, slot, length_le16]
    omega
  rw [hbuf]
  split
  next heq =>
    rw [← heq]
    exact congrArg (NetmapSlot.mk _) (u16At_store m _ v)
  next hne =>
    have hlen : r.len (r.setLen i v m) j = r.len m j := by
      refine u16At_store_of_apart ?_
      rw [Apart, slot, slot, length_le16]
      omega
    rw [hlen]

/-- The length of a packet is put into a slot. -/
theorem ring_setLen (v : UInt16) : r.ring (r.setLen i v m) =
    { r.ring m with
      slots := (r.ring m).slots.modify i fun slot => { slot with len := v }
      length_slots := by rw [List.length_modify, (r.ring m).length_slots] } := by
  have hfield : ∀ k, k + 4 ≤ 256 → u32At (r.setLen i v m) (r.hdr + k) = u32At m (r.hdr + k) := by
    intro k hk
    refine u32At_store_of_apart ?_
    rw [Apart, slot]
    omega
  exact Ring.eq_of_fields (slots_setLen v) rfl rfl (hfield 20 (by omega)) (hfield 24 (by omega))
    (hfield 28 (by omega))

end RingView

/-! ### What a store does to a port -/

namespace Port

variable {p : Port} {i idx : ℕ}

/-- **The slots refer to buffers that there are.** -/
structure Backed (p : Port) (m : Memory) : Prop where
  tx : ∀ i < p.tx.numSlots.toNat, (p.tx.bufIdx m i).toNat < p.buffers
  rx : ∀ i < p.rx.numSlots.toNat, (p.rx.bufIdx m i).toNat < p.buffers

/-- An address that is neither in a ring nor in a buffer. -/
def Outside (p : Port) (a : ℕ) : Prop :=
  Apart p.tx.hdr p.tx.extent a 1 ∧ Apart p.rx.hdr p.rx.extent a 1 ∧
    Apart (p.tx.hdr + p.tx.bufOfs) (p.buffers * p.tx.bufSize.toNat) a 1

/-- **What the program makes of the port**, and of nothing else. -/
structure Becomes (p : Port) (m m' : Memory) (after : Inner) : Prop where
  inner_eq : p.inner m' = after
  backed : p.Backed m → p.Backed m'
  outside : ∀ a, p.Outside a → m' a = m a

theorem Becomes.refl (p : Port) (m : Memory) : p.Becomes m m (p.inner m) :=
  ⟨rfl, id, fun _ _ => rfl⟩

theorem Becomes.trans {m₁ m₂ m₃ : Memory} {i₂ i₃ : Inner} (h : p.Becomes m₁ m₂ i₂)
    (h' : p.Becomes m₂ m₃ i₃) : p.Becomes m₁ m₃ i₃ :=
  ⟨h'.inner_eq, fun hb => h'.backed (h.backed hb),
    fun a ha => (h'.outside a ha).trans (h.outside a ha)⟩

theorem Becomes.of_eq {m' : Memory} {after after' : Inner} (h : p.Becomes m m' after)
    (heq : after = after') : p.Becomes m m' after' := heq ▸ h

/-- Both rings find a buffer at the same address. -/
theorem buffer_rx (p : Port) (idx : ℕ) : p.rx.buffer idx = p.tx.buffer idx := by
  rw [RingView.buffer, RingView.buffer, ← Nat.add_assoc, ← Nat.add_assoc, p.pool_eq, p.bufSize_eq]

theorem buffer_le (h : idx < p.buffers) :
    p.tx.hdr + p.tx.bufOfs ≤ p.tx.buffer idx ∧ p.tx.buffer idx + p.tx.bufSize.toNat ≤
      p.tx.hdr + p.tx.bufOfs + p.buffers * p.tx.bufSize.toNat := by
  have hmul := Nat.mul_le_mul_right p.tx.bufSize.toNat h
  rw [Nat.succ_mul] at hmul
  rw [RingView.buffer]
  omega

/-- Buffers are apart from one another. -/
theorem buffers_apart {j : ℕ} (h : i ≠ j) :
    Apart (p.tx.buffer i) p.tx.bufSize.toNat (p.tx.buffer j) p.tx.bufSize.toNat := by
  rw [Apart, RingView.buffer, RingView.buffer]
  rcases Nat.lt_or_gt_of_ne h with hlt | hgt
  · have hmul := Nat.mul_le_mul_right p.tx.bufSize.toNat hlt
    rw [Nat.succ_mul] at hmul
    omega
  · have hmul := Nat.mul_le_mul_right p.tx.bufSize.toNat hgt
    rw [Nat.succ_mul] at hmul
    omega

theorem buffers_store_of_apart (h : Apart (p.tx.hdr + p.tx.bufOfs)
    (p.buffers * p.tx.bufSize.toNat) b bytes.length) :
    (p.inner (m.store b bytes)).buffers = (p.inner m).buffers := by
  refine List.map_congr_left fun idx hidx => ?_
  obtain ⟨hfirst, hlast⟩ := buffer_le (List.mem_range.mp hidx)
  exact m.load_store_of_apart (h.shrink hfirst hlast le_rfl le_rfl)

/-- Slots that are not written to refer to the same buffers. -/
theorem Backed.store (h : p.Backed m)
    (htx : ∀ i < p.tx.numSlots.toNat, Apart (p.tx.slot i) 4 b bytes.length)
    (hrx : ∀ i < p.rx.numSlots.toNat, Apart (p.rx.slot i) 4 b bytes.length) :
    p.Backed (m.store b bytes) := by
  refine ⟨fun i hi => ?_, fun i hi => ?_⟩
  · have heq : p.tx.bufIdx (m.store b bytes) i = p.tx.bufIdx m i := u32At_store_of_apart (htx i hi)
    rw [heq]
    exact h.tx i hi
  · have heq : p.rx.bufIdx (m.store b bytes) i = p.rx.bufIdx m i := u32At_store_of_apart (hrx i hi)
    rw [heq]
    exact h.rx i hi

/-- **A store in the transmit ring** that leaves the buffers of its slots alone. -/
theorem becomes_store_tx (hle : p.tx.hdr ≤ b) (hend : b + bytes.length ≤ p.tx.hdr + p.tx.extent)
    (hslots : ∀ i < p.tx.numSlots.toNat, Apart (p.tx.slot i) 4 b bytes.length) :
    p.Becomes m (m.store b bytes) { p.inner m with tx := p.tx.ring (m.store b bytes) } := by
  have hrx : Apart p.rx.hdr p.rx.extent b bytes.length :=
    p.rings_apart.symm.shrink le_rfl le_rfl hle hend
  refine ⟨?_, fun h => h.store hslots fun i hi => RingView.slot_apart hrx hi (by omega),
    fun a ha => m.store_apply_of_outside (ha.1.symm.shrink le_rfl le_rfl hle hend)⟩
  rw [inner, RingView.ring_store_of_apart hrx]
  exact congrArg (Inner.mk _ _)
    (buffers_store_of_apart (p.tx_apart.symm.shrink le_rfl le_rfl hle hend))

/-- **A store in the receive ring** that leaves the buffers of its slots alone. -/
theorem becomes_store_rx (hle : p.rx.hdr ≤ b) (hend : b + bytes.length ≤ p.rx.hdr + p.rx.extent)
    (hslots : ∀ i < p.rx.numSlots.toNat, Apart (p.rx.slot i) 4 b bytes.length) :
    p.Becomes m (m.store b bytes) { p.inner m with rx := p.rx.ring (m.store b bytes) } := by
  have htx : Apart p.tx.hdr p.tx.extent b bytes.length :=
    p.rings_apart.shrink le_rfl le_rfl hle hend
  refine ⟨?_, fun h => h.store (fun i hi => RingView.slot_apart htx hi (by omega)) hslots,
    fun a ha => m.store_apply_of_outside (ha.2.1.symm.shrink le_rfl le_rfl hle hend)⟩
  rw [inner, RingView.ring_store_of_apart htx]
  exact congrArg (Inner.mk _ _)
    (buffers_store_of_apart (p.rx_apart.symm.shrink le_rfl le_rfl hle hend))

/-- **A packet is copied into a buffer.** -/
theorem becomes_store_buffer (h : idx < p.buffers) {packet : Bytes}
    (hlen : packet.length ≤ p.tx.bufSize.toNat) :
    p.Becomes m (m.store (p.tx.buffer idx) packet) { p.inner m with
      buffers := (p.inner m).buffers.modify idx fun buf => packet ++ buf.drop packet.length } := by
  obtain ⟨hfirst, hlast⟩ := buffer_le h
  have hend := (Nat.add_le_add_left hlen _).trans hlast
  have htx := p.tx_apart.shrink le_rfl le_rfl hfirst hend
  have hrx := p.rx_apart.shrink le_rfl le_rfl hfirst hend
  refine ⟨?_, fun hb => hb.store (fun i hi => RingView.slot_apart htx hi (by omega))
      fun i hi => RingView.slot_apart hrx hi (by omega),
    fun a ha => m.store_apply_of_outside (ha.2.2.symm.shrink le_rfl le_rfl hfirst hend)⟩
  have hmodify := modify_map_range (p.content m)
    (fun buf => packet ++ buf.drop packet.length) p.buffers idx
  rw [inner, RingView.ring_store_of_apart htx, RingView.ring_store_of_apart hrx]
  refine congrArg (Inner.mk _ _) (Eq.trans (List.map_congr_left fun j _ => ?_) hmodify.symm)
  split
  next heq =>
    rw [← heq]
    exact m.load_store_of_le hlen _
  next hne =>
    exact m.load_store_of_apart ((buffers_apart (Ne.symm hne)).shrink le_rfl le_rfl le_rfl
      (Nat.add_le_add_left hlen _))

/-- A field in the header of the transmit ring. -/
theorem becomes_header_tx {k : ℕ} (hk : k + 4 ≤ 256) {v : UInt32} {tx : Ring}
    (htx : p.tx.ring (m.store (p.tx.hdr + k) (le32 v)) = tx) :
    p.Becomes m (m.store (p.tx.hdr + k) (le32 v)) { p.inner m with tx := tx } := by
  rw [← htx]
  refine becomes_store_tx (Nat.le_add_right _ _) ?_ fun i _ => Or.inr ?_
  · rw [length_le32, RingView.extent]
    omega
  · rw [length_le32, RingView.slot]
    omega

/-- A field in the header of the receive ring. -/
theorem becomes_header_rx {k : ℕ} (hk : k + 4 ≤ 256) {v : UInt32} {rx : Ring}
    (hrx : p.rx.ring (m.store (p.rx.hdr + k) (le32 v)) = rx) :
    p.Becomes m (m.store (p.rx.hdr + k) (le32 v)) { p.inner m with rx := rx } := by
  rw [← hrx]
  refine becomes_store_rx (Nat.le_add_right _ _) ?_ fun i _ => Or.inr ?_
  · rw [length_le32, RingView.extent]
    omega
  · rw [length_le32, RingView.slot]
    omega

theorem becomes_setHead_tx (v : UInt32) : p.Becomes m (p.tx.setHead v m)
    { p.inner m with tx := { (p.inner m).tx with head := v } } :=
  becomes_header_tx (by omega) (RingView.ring_setHead v)

theorem becomes_setCur_tx (v : UInt32) : p.Becomes m (p.tx.setCur v m)
    { p.inner m with tx := { (p.inner m).tx with cur := v } } :=
  becomes_header_tx (by omega) (RingView.ring_setCur v)

theorem becomes_store_tail (v : UInt32) : p.Becomes m (m.store (p.tx.hdr + 28) (le32 v))
    { p.inner m with tx := { (p.inner m).tx with tail := v } } :=
  becomes_header_tx (by omega) (RingView.ring_store_tail v)

theorem becomes_setHead_rx (v : UInt32) : p.Becomes m (p.rx.setHead v m)
    { p.inner m with rx := { (p.inner m).rx with head := v } } :=
  becomes_header_rx (by omega) (RingView.ring_setHead v)

theorem becomes_setCur_rx (v : UInt32) : p.Becomes m (p.rx.setCur v m)
    { p.inner m with rx := { (p.inner m).rx with cur := v } } :=
  becomes_header_rx (by omega) (RingView.ring_setCur v)

/-- The length of a packet in a slot of the transmit ring. -/
theorem becomes_setLen (h : i < p.tx.numSlots.toNat) (v : UInt16) :
    p.Becomes m (p.tx.setLen i v m)
      { p.inner m with tx := { (p.inner m).tx with
        slots := (p.inner m).tx.slots.modify i fun slot => { slot with len := v }
        length_slots := by rw [List.length_modify, (p.inner m).tx.length_slots] } } := by
  have hslot := RingView.slot_le h
  have hstore : p.Becomes m (p.tx.setLen i v m)
      { p.inner m with tx := p.tx.ring (p.tx.setLen i v m) } := by
    refine becomes_store_tx ?_ ?_ fun j _ => ?_
    · rw [RingView.slot]
      omega
    · rw [length_le16]
      omega
    · rw [Apart, RingView.slot, RingView.slot, length_le16]
      omega
  exact hstore.of_eq
    (congrArg (fun tx => { p.inner m with tx := tx }) (RingView.ring_setLen v))

/-! ### The calls -/

/-- **A packet in the buffer of the slot at `head`**: the packet is copied, its length put into the
slot, and then the two positions are moved. -/
theorem becomes_stage (hb : p.Backed m) (hhead : p.tx.head m < p.tx.numSlots) {packet : Bytes}
    (hlen : packet.length ≤ p.tx.bufSize.toNat) :
    p.Becomes m
      (p.tx.setCur ((p.tx.head m + 1) % p.tx.numSlots)
        (p.tx.setHead ((p.tx.head m + 1) % p.tx.numSlots)
          (p.tx.setLen (p.tx.head m).toNat (UInt16.ofNat packet.length)
            (m.store (p.tx.buffer (p.tx.bufIdx m (p.tx.head m).toNat).toNat) packet))))
      ((p.inner m).stage hhead packet) := by
  have hlt := UInt32.lt_iff_toNat_lt.mp hhead
  have hpacket := becomes_store_buffer (m := m) (hb.tx _ hlt) hlen
  have hslot := hpacket.trans (becomes_setLen hlt (UInt16.ofNat packet.length))
  have hposition := hslot.trans (becomes_setHead_tx ((p.tx.head m + 1) % p.tx.numSlots))
  have hwakeup := hposition.trans (becomes_setCur_tx ((p.tx.head m + 1) % p.tx.numSlots))
  have hget : ∀ h, (p.inner m).tx.slots.get ⟨(p.inner m).tx.head.toNat, h⟩ =
      ⟨p.tx.bufIdx m (p.tx.head m).toNat, p.tx.len m (p.tx.head m).toNat⟩ :=
    fun h => RingView.get_slots h
  have hstage : (p.inner m).stage hhead packet =
      { p.inner m with
        tx := (p.inner m).tx.advance packet.length
        buffers := (p.inner m).buffers.modify (p.tx.bufIdx m (p.tx.head m).toNat).toNat
          fun buf => packet ++ buf.drop packet.length } :=
    congrArg (fun slot : NetmapSlot => { p.inner m with
      tx := (p.inner m).tx.advance packet.length
      buffers := (p.inner m).buffers.modify slot.bufIdx.toNat
        fun buf => packet ++ buf.drop packet.length }) (hget _)
  refine hwakeup.of_eq ?_
  simp only [hstage, hposition.inner_eq, hslot.inner_eq, hpacket.inner_eq]
  rfl

/-- **`send_raw` does to the memory what it does to the rings.** -/
theorem becomes_sendRaw (hb : p.Backed m) (packet : Bytes) :
    ∃ after, NetmapTransport.sendRaw (some (p.inner m)) packet =
        ((p.sendRaw m packet).1, some after) ∧
      p.Becomes m (p.sendRaw m packet).2 after := by
  rw [NetmapTransport.sendRaw, sendRaw]
  dsimp only
  by_cases hlong : packet.length > 65535
  · rw [if_pos hlong, if_pos hlong]
    exact ⟨_, rfl, Becomes.refl p m⟩
  rw [if_neg hlong, if_neg hlong]
  by_cases hbig : packet.length > p.tx.bufSize.toNat
  · rw [if_pos hbig, if_pos (show packet.length > (p.inner m).tx.bufSize.toNat from hbig)]
    exact ⟨_, rfl, Becomes.refl p m⟩
  rw [if_neg hbig, if_neg (show ¬packet.length > (p.inner m).tx.bufSize.toNat from hbig)]
  by_cases hfull : p.tx.slotsFree m = 0
  · rw [if_pos hfull, if_pos (show (p.inner m).tx.slotsFree = 0 from hfull)]
    exact ⟨_, rfl, Becomes.refl p m⟩
  rw [if_neg hfull, if_neg (show ¬(p.inner m).tx.slotsFree = 0 from hfull)]
  by_cases hhead : p.tx.head m ≥ p.tx.numSlots
  · rw [if_pos hhead, dif_pos (show (p.inner m).tx.head ≥ (p.inner m).tx.numSlots from hhead)]
    exact ⟨_, rfl, Becomes.refl p m⟩
  rw [if_neg hhead, dif_neg (show ¬(p.inner m).tx.head ≥ (p.inner m).tx.numSlots from hhead)]
  exact ⟨_, rfl, becomes_stage hb (UInt32.not_le.mp hhead) (Nat.not_lt.mp hbig)⟩

/-- **`recv_raw` does to the memory what it does to the rings**, and copies the same. -/
theorem becomes_recvRaw (hb : p.Backed m) (buf : Bytes) :
    ∃ after, NetmapTransport.recvRaw (some (p.inner m)) buf =
        ((p.recvRaw m buf).1, some after, (p.recvRaw m buf).2.2) ∧
      p.Becomes m (p.recvRaw m buf).2.1 after := by
  rw [NetmapTransport.recvRaw, recvRaw]
  dsimp only
  by_cases hcur : p.rx.cur m ≥ p.rx.numSlots
  · rw [if_pos hcur, dif_pos (show (p.inner m).rx.cur ≥ (p.inner m).rx.numSlots from hcur)]
    exact ⟨_, rfl, Becomes.refl p m⟩
  rw [if_neg hcur, dif_neg (show ¬(p.inner m).rx.cur ≥ (p.inner m).rx.numSlots from hcur)]
  by_cases htail : p.rx.cur m = p.rx.tail m
  · rw [if_pos htail, if_pos (show (p.inner m).rx.cur = (p.inner m).rx.tail from htail)]
    exact ⟨_, rfl, Becomes.refl p m⟩
  rw [if_neg htail, if_neg (show ¬(p.inner m).rx.cur = (p.inner m).rx.tail from htail)]
  have hlt := UInt32.lt_iff_toNat_lt.mp (UInt32.not_le.mp hcur)
  have hget : ∀ h, (p.inner m).rx.slots.get ⟨(p.inner m).rx.cur.toNat, h⟩ =
      ⟨p.rx.bufIdx m (p.rx.cur m).toNat, p.rx.len m (p.rx.cur m).toNat⟩ :=
    fun h => RingView.get_slots h
  -- what is copied is the front of the buffer
  have hcopy : ∀ n ≤ p.rx.bufSize.toNat,
      ((p.inner m).buffers.getD (p.rx.bufIdx m (p.rx.cur m).toNat).toNat []).take n =
        m.load (p.rx.buffer (p.rx.bufIdx m (p.rx.cur m).toNat).toNat) n := by
    intro n hn
    rw [inner, List.getD_eq_getElem?_getD, List.getElem?_map,
      List.getElem?_range (hb.rx _ hlt), Option.map_some, Option.getD_some, content, buffer_rx,
      ← p.bufSize_eq]
    exact m.take_load hn _
  rw [hget]
  have hrelease := (becomes_setCur_rx (p := p) (m := m) ((p.rx.cur m + 1) % p.rx.numSlots)).trans
    (becomes_setHead_rx ((p.rx.cur m + 1) % p.rx.numSlots))
  rw [(becomes_setCur_rx _).inner_eq] at hrelease
  refine ⟨{ p.inner m with rx := (p.inner m).rx.release }, ?_, hrelease⟩
  dsimp only
  rw [show (p.inner m).rx.bufSize = p.rx.bufSize from rfl, hcopy _ (Nat.min_le_right _ _)]

end Port

/-! ### Runs -/

/-- What the program calls. What the kernel leaves behind is a memory, or rings. -/
inductive PortCall (K : Type) where
  | sendRaw (packet : Bytes)
  | txsync (ioctl : Except String UInt32)
  | recvRaw (buf : Bytes)
  | rxsync (ioctl : Except String K)
  | primeRx (ioctl : Except String K)

/-- The same call, if the kernel is seen in another way. -/
def PortCall.map {K K' : Type} (f : K → K') : PortCall K → PortCall K'
  | .sendRaw packet => .sendRaw packet
  | .txsync ioctl => .txsync ioctl
  | .recvRaw buf => .recvRaw buf
  | .rxsync ioctl => .rxsync (ioctl.map f)
  | .primeRx ioctl => .primeRx (ioctl.map f)

/-- What is returned, with the buffer of the caller. -/
inductive PortResult where
  | count (result : Except TransportError ℕ) (buf : Bytes)
  | unit (result : Except TransportError Unit)
  deriving DecidableEq

namespace NetmapTransport

/-- A call on the rings. -/
def call (inner : Option Inner) : PortCall Inner → PortResult × Option Inner
  | .sendRaw packet => ((.count (sendRaw inner packet).1 packet), (sendRaw inner packet).2)
  | .txsync ioctl => (.unit (txsync inner ioctl).1, (txsync inner ioctl).2)
  | .recvRaw buf =>
      (.count (recvRaw inner buf).1 (recvRaw inner buf).2.2, (recvRaw inner buf).2.1)
  | .rxsync ioctl => (.unit (rxsync inner ioctl).1, (rxsync inner ioctl).2)
  | .primeRx ioctl =>
      (.unit (primeRx inner fun _ => ioctl).1, (primeRx inner fun _ => ioctl).2)

def step (inner : Option Inner) (c : PortCall Inner) : Option (Option Inner) :=
  some (call inner c).2

def returned (inner : Option Inner) (c : PortCall Inner) : List PortResult := [(call inner c).1]

end NetmapTransport

namespace Port

/-- A call on the memory. -/
def call (p : Port) (m : Memory) : PortCall Memory → PortResult × Memory
  | .sendRaw packet => (.count (p.sendRaw m packet).1 packet, (p.sendRaw m packet).2)
  | .txsync ioctl => (.unit (p.txsync m ioctl).1, (p.txsync m ioctl).2)
  | .recvRaw buf => (.count (p.recvRaw m buf).1 (p.recvRaw m buf).2.2, (p.recvRaw m buf).2.1)
  | .rxsync ioctl => (.unit (rxsync m ioctl).1, (rxsync m ioctl).2)
  | .primeRx ioctl => (.unit (p.primeRx m ioctl).1, (p.primeRx m ioctl).2)

def step (p : Port) (m : Memory) (c : PortCall Memory) : Option Memory := some (p.call m c).2

def returned (p : Port) (m : Memory) (c : PortCall Memory) : List PortResult := [(p.call m c).1]

variable {p : Port}

/-- **What the kernel may do in an `rxsync`**: anything in the rings and the buffers, as long as the
slots refer to buffers that there are. -/
def Answers (p : Port) (m : Memory) : PortCall Memory → Prop
  | .rxsync (.ok after) => p.Backed after ∧ ∀ a, p.Outside a → after a = m a
  | .primeRx (.ok after) => p.Backed after ∧ ∀ a, p.Outside a → after a = m a
  | _ => True

/-- The kernel leaves a memory behind. -/
theorem becomes_after {after : Memory} (h : p.Backed after ∧ ∀ a, p.Outside a → after a = m a) :
    p.Becomes m after (p.inner after) := ⟨rfl, fun _ => h.1, h.2⟩

/-- **A call does to the memory what it does to the rings, and returns the same.** -/
theorem becomes_call (hb : p.Backed m) {c : PortCall Memory} (hc : p.Answers m c) :
    ∃ after, NetmapTransport.call (some (p.inner m)) (c.map p.inner) =
        ((p.call m c).1, some after) ∧ p.Becomes m (p.call m c).2 after := by
  cases c with
  | sendRaw packet =>
    obtain ⟨after, hcall, hbecomes⟩ := becomes_sendRaw hb packet
    refine ⟨after, ?_, hbecomes⟩
    rw [PortCall.map, NetmapTransport.call, hcall, call]
  | txsync ioctl =>
    cases ioctl with
    | error e => exact ⟨_, rfl, Becomes.refl p m⟩
    | ok tail => exact ⟨_, rfl, becomes_store_tail tail⟩
  | recvRaw buf =>
    obtain ⟨after, hcall, hbecomes⟩ := becomes_recvRaw hb buf
    refine ⟨after, ?_, hbecomes⟩
    rw [PortCall.map, NetmapTransport.call, hcall, call]
  | rxsync ioctl =>
    cases ioctl with
    | error e => exact ⟨_, rfl, Becomes.refl p m⟩
    | ok after => exact ⟨_, rfl, becomes_after hc⟩
  | primeRx ioctl =>
    cases ioctl with
    | ok after => exact ⟨_, rfl, becomes_after hc⟩
    | error e =>
      have hprimed := (becomes_setHead_rx (p := p) (m := m) (p.rx.tail m)).trans
        (becomes_setCur_rx (p.rx.tail m))
      rw [(becomes_setHead_rx _).inner_eq] at hprimed
      exact ⟨_, rfl, hprimed⟩

/-- **The program does to the memory what it does to the rings.** Whatever it calls, and whatever
the kernel puts into the rings and the buffers in between, each call returns what it returns on the
rings that are in memory; afterwards the memory has the rings that come of it, and the slots still
refer to buffers that there are; and no byte outside has changed. -/
theorem refines_of_run {m' : Memory} {calls : List (PortCall Memory)} (hbacked : p.Backed m)
    (hkernel : Transition.Meets p.step p.Answers m calls)
    (hrun : Transition.run p.step m calls = some m') :
    Transition.run NetmapTransport.step (some (p.inner m)) (calls.map (PortCall.map p.inner)) =
        some (some (p.inner m')) ∧
      Transition.observed p.step p.returned m calls =
        Transition.observed NetmapTransport.step NetmapTransport.returned (some (p.inner m))
          (calls.map (PortCall.map p.inner)) ∧
      p.Backed m' ∧ ∀ a, p.Outside a → m' a = m a := by
  induction calls generalizing m with
  | nil =>
    obtain rfl : m = m' := Option.some.inj hrun
    exact ⟨rfl, rfl, hbacked, fun _ _ => rfl⟩
  | cons c calls ih =>
    obtain ⟨after, hcall, hbecomes⟩ := becomes_call hbacked hkernel.1
    have hstep : NetmapTransport.step (some (p.inner m)) (c.map p.inner) =
        some (some (p.inner (p.call m c).2)) := by
      rw [NetmapTransport.step, hcall, hbecomes.inner_eq]
    obtain ⟨hrings, hreturned, hbacked', houtside⟩ :=
      ih (hbecomes.backed hbacked) (hkernel.2 _ rfl) hrun
    refine ⟨?_, ?_, hbacked', fun a ha => (houtside a ha).trans (hbecomes.outside a ha)⟩
    · rw [List.map_cons, Transition.run_of_step hstep, hrings]
    · have hsame : p.returned m c =
          NetmapTransport.returned (some (p.inner m)) (c.map p.inner) := by
        rw [returned, NetmapTransport.returned, hcall]
      rw [List.map_cons, Transition.observed_of_step hstep, ← hreturned, ← hsame]
      rfl

/-- A port of two slots a ring and four buffers of four bytes. -/
def tiny : Port where
  tx := ⟨0, 2, 4, 1024⟩
  rx := ⟨512, 2, 4, 512⟩
  buffers := 4
  bufSize_eq := rfl
  pool_eq := rfl
  rings_apart := by decide
  tx_apart := by decide
  rx_apart := by decide

def zeros : Memory := fun _ => 0

/-- A packet of one byte has arrived in the first slot. -/
def arrived : Memory := ((zeros.store 1024 [5]).store 772 [1]).store 540 [1]

theorem arrived_of_outside {a : ℕ} (h : tiny.Outside a) : arrived a = zeros a := by
  obtain ⟨-, hrx, hpool⟩ := h
  have hring : a < 512 ∨ 800 ≤ a := hrx.symm.imp_left Nat.lt_of_succ_le
  have hbuffers : a < 1024 ∨ 1040 ≤ a := hpool.symm.imp_left Nat.lt_of_succ_le
  rw [arrived, store_apply_of_outside _ (by simp only [List.length_singleton]; omega),
    store_apply_of_outside _ (by simp only [List.length_singleton]; omega),
    store_apply_of_outside _ (by simp only [List.length_singleton]; omega)]

/-- The packet is received, and another one is sent. -/
theorem refines_of_arrived :
    ∃ m', Transition.run tiny.step zeros
        [.rxsync (.ok arrived), .recvRaw [9, 9], .sendRaw [7]] = some m' ∧
      Transition.observed tiny.step tiny.returned zeros
          [.rxsync (.ok arrived), .recvRaw [9, 9], .sendRaw [7]] =
        [.unit (.ok ()), .count (.ok 1) [5, 9], .count (.ok 1) [7]] ∧
      Transition.run NetmapTransport.step (some (tiny.inner zeros))
          [.rxsync (.ok (tiny.inner arrived)), .recvRaw [9, 9], .sendRaw [7]] =
        some (some (tiny.inner m')) := by
  have hbacked : tiny.Backed arrived := ⟨by decide, by decide⟩
  have hmeets : Transition.Meets tiny.step tiny.Answers zeros
      [.rxsync (.ok arrived), .recvRaw [9, 9], .sendRaw [7]] :=
    ⟨⟨hbacked, fun _ => arrived_of_outside⟩, fun _ _ => ⟨trivial, fun _ _ => ⟨trivial, fun _ _ =>
      trivial⟩⟩⟩
  refine ⟨_, rfl, by decide +kernel, ?_⟩
  exact (refines_of_run ⟨by decide, by decide⟩ hmeets rfl).1

end Port

end NetRtp

end SonicBrew
