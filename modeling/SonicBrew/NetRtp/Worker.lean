import SonicBrew.NetRtp.Jitter
import SonicBrew.NetRtp.Transport

/-!
# The receive loop

Each turn of the loop receives one packet, pushes it into the jitter buffer and drains the
buffer at once into the ring of the audio graph. Draining does not wait for missing packets: a
gap is given up as soon as a later packet is there. So between two turns nothing waits, the
number that is due is the one after the highest received so far, and the packets that get through
are the *records*: those with a higher index than all before
(`SonicBrew.NetRtp.records`).

This needs the receiver to tell early from late by sixteen bits. The window that allows it is the
half turn of the jitter buffer around the number that is due
(`SonicBrew.NetRtp.InWindow`).

A ring without room refuses a frame, and the loop then leaves the rest of the drained frames
behind. As only one packet is ever drained, there is no rest.
-/

namespace SonicBrew

namespace NetRtp

/-! ### Draining the buffer -/

namespace JitterBuffer

variable {T : Type}

theorem len_pop_lt {j j' : JitterBuffer T} {packet : UInt16 × T} (h : j.pop = (some packet, j')) :
    j'.len < j.len := by
  rcases j.pop_cases with ⟨heq, -⟩ | ⟨next, val, -, hval, heq⟩
  · rw [heq] at h
    cases h
  · obtain ⟨l₁, l₂, hentries, herase⟩ := entries_of_lookup hval
    obtain ⟨-, rfl⟩ := Prod.mk.inj (heq.symm.trans h)
    rw [len, len, herase, hentries]
    simp only [List.length_append, List.length_cons]
    omega

/-- The inner loop of `drain_jitter`: the packets that are due one after the other. -/
def popRun (j : JitterBuffer T) : List T × JitterBuffer T :=
  match _ : j.pop with
  | (none, j) => ([], j)
  | (some (_, payload), rest) =>
      let (payloads, last) := popRun rest
      (payload :: payloads, last)
termination_by j.len
decreasing_by exact len_pop_lt ‹_›

/-- Whether the packet that is due is there. -/
def Due (j : JitterBuffer T) : Prop := ∃ next, j.nextSeq = some next ∧ next ∈ j.buf

theorem popRun_of_not_due {j : JitterBuffer T} (h : ¬j.Due) : j.popRun = ([], j) := by
  rcases j.pop_cases with ⟨heq, -⟩ | ⟨next, val, hnext, hval, -⟩
  · rw [popRun]
    split
    · rename_i hpop
      obtain ⟨-, rfl⟩ := Prod.mk.inj (heq.symm.trans hpop)
      rfl
    · rename_i hpop
      cases heq.symm.trans hpop
  · exact absurd ⟨next, hnext, AList.lookup_isSome.mp (by rw [hval]; rfl)⟩ h

theorem popRun_of_lookup {j : JitterBuffer T} {next : UInt16} {val : T}
    (hnext : j.nextSeq = some next) (hval : j.buf.lookup next = some val) :
    j.popRun =
      (val :: (popRun { j with nextSeq := some (next + 1), buf := j.buf.erase next }).1,
        (popRun { j with nextSeq := some (next + 1), buf := j.buf.erase next }).2) := by
  have heq := pop_of_lookup hnext hval
  rw [popRun]
  split
  · rename_i hpop
    cases heq.symm.trans hpop
  · rename_i hpop
    obtain ⟨hpacket, rfl⟩ := Prod.mk.inj (heq.symm.trans hpop)
    obtain ⟨-, rfl⟩ := Prod.mk.inj (Option.some.inj hpacket)
    rfl

/-- Draining a run takes packets out, and one at least if the packet that is due is there. -/
theorem len_popRun (j : JitterBuffer T) :
    j.popRun.2.len ≤ j.len ∧ (j.Due → j.popRun.2.len < j.len) := by
  induction hn : j.len using Nat.strongRecOn generalizing j with
  | ind n ih =>
    by_cases hdue : j.Due
    · obtain ⟨next, hnext, hmem⟩ := hdue
      obtain ⟨val, hval⟩ := Option.isSome_iff_exists.mp (AList.lookup_isSome.mpr hmem)
      have hlt := len_pop_lt (pop_of_lookup hnext hval)
      have hle := (ih _ (hn ▸ hlt) _ rfl).1
      rw [popRun_of_lookup hnext hval]
      dsimp only
      omega
    · rw [popRun_of_not_due hdue]
      exact ⟨Nat.le_of_eq hn, fun h => absurd h hdue⟩

theorem skipGap_succ {j j' : JitterBuffer T} {n : ℕ} (h : j.skipGap = (n + 1, j')) :
    j'.Due ∧ j'.len = j.len := by
  rcases j.skipGap_cases with ⟨heq, -⟩ | ⟨base, s, -, -, hs, -, -, heq⟩
  · cases heq.symm.trans h
  · obtain ⟨-, rfl⟩ := Prod.mk.inj (heq.symm.trans h)
    exact ⟨⟨s, rfl, hs⟩, rfl⟩

/-- What is left to drain: skipping a gap leaves a packet that is due. -/
def toDrain (j : JitterBuffer T) : ℕ :=
  2 * j.len + match j.nextSeq with
    | none => 1
    | some next => if next ∈ j.buf then 0 else 1

theorem toDrain_of_due {j : JitterBuffer T} (h : j.Due) : j.toDrain = 2 * j.len := by
  obtain ⟨next, hnext, hmem⟩ := h
  simp only [toDrain, hnext, if_pos hmem, Nat.add_zero]

theorem toDrain_of_not_due {j : JitterBuffer T} (h : ¬j.Due) : j.toDrain = 2 * j.len + 1 := by
  rw [toDrain]
  split
  · rfl
  · rename_i next hnext
    rw [if_neg fun hmem => h ⟨next, hnext, hmem⟩]

/-- The outer loop of `drain_jitter`: run after run, skipping the gaps between them. -/
def drain (j : JitterBuffer T) : List T × JitterBuffer T :=
  if j.popRun.2.isEmpty then j.popRun
  else match _ : j.popRun.2.skipGap with
    | (0, left) => (j.popRun.1, left)
    | (_ + 1, left) =>
        let (payloads, last) := drain left
        (j.popRun.1 ++ payloads, last)
termination_by j.toDrain
decreasing_by
  obtain ⟨hdue, hlen⟩ := skipGap_succ ‹_›
  obtain ⟨hle, hlt⟩ := len_popRun j
  rw [toDrain_of_due hdue, hlen]
  by_cases h : j.Due
  · have hless := hlt h
    rw [toDrain_of_due h]
    omega
  · rw [toDrain_of_not_due h]
    omega

/-- **Nothing to drain.** -/
theorem drain_of_empty {j : JitterBuffer T} (h : j.buf = ∅) : j.drain = ([], j) := by
  have hdue : ¬j.Due := by
    rintro ⟨next, -, hmem⟩
    rw [h] at hmem
    exact AList.notMem_empty next hmem
  have hempty : j.isEmpty = true := by
    rw [isEmpty, h]
    rfl
  rw [drain, popRun_of_not_due hdue, if_pos hempty]

/-- One packet, and it is due. -/
theorem drain_of_due {j : JitterBuffer T} {seq : UInt16} {payload : T}
    (hnext : j.nextSeq = some seq) (hbuf : j.buf = AList.singleton seq payload) :
    j.drain = ([payload], { j with nextSeq := some (seq + 1), buf := ∅ }) := by
  have hval : j.buf.lookup seq = some payload := by
    rw [hbuf, ← AList.insert_empty, AList.lookup_insert]
  have herase : j.buf.erase seq = ∅ := by
    rw [hbuf]
    exact AList.ext (List.kerase_cons_eq rfl)
  have hdue : ¬Due
      { j with nextSeq := some (seq + 1), buf := (∅ : AList fun _ : UInt16 => T) } := by
    rintro ⟨next, -, hmem⟩
    exact AList.notMem_empty next hmem
  rw [drain, popRun_of_lookup hnext hval, herase, popRun_of_not_due hdue]
  rfl

/-- **Draining a single packet**: it is handed out, and the number after its own is due. -/
theorem drain_of_singleton {j : JitterBuffer T} {base seq : UInt16} {payload : T}
    (hbase : j.nextSeq = some base) (hbuf : j.buf = AList.singleton seq payload)
    (hwin : gap base seq < 32768) :
    j.drain = ([payload], { j with nextSeq := some (seq + 1), buf := ∅ }) := by
  by_cases heq : base = seq
  · subst heq
    exact drain_of_due hbase hbuf
  have hkeys : ∀ t, t ∈ j.buf ↔ t = seq := by
    intro t
    rw [hbuf, ← AList.insert_empty, AList.mem_insert]
    simp [AList.notMem_empty]
  have hdue : ¬j.Due := by
    rintro ⟨next, hnext, hmem⟩
    obtain rfl := Option.some.inj (hbase.symm.trans hnext)
    exact heq ((hkeys _).mp hmem)
  have hempty : ¬j.isEmpty = true := by
    rw [isEmpty, hbuf]
    exact Bool.false_ne_true
  have hpos : 0 < gap base seq := Nat.pos_of_ne_zero fun h0 => heq (gap_eq_zero.mp h0).symm
  -- the packet is ahead: the gap before it is given up, and then it is due
  obtain ⟨n, hskip⟩ : ∃ n, j.skipGap = (n + 1, { j with nextSeq := some seq }) := by
    rcases j.skipGap_cases with ⟨-, hstay⟩ | ⟨base', s, hbase', -, hs, hse, -, hgo⟩
    · rcases hstay base hbase with hmem | hlate
      · exact absurd ((hkeys base).mp hmem) heq
      · exact absurd ⟨hpos, hwin⟩ (hlate seq ((hkeys seq).mpr rfl))
    · obtain rfl := (hkeys s).mp hs
      obtain rfl := Option.some.inj (hbase.symm.trans hbase')
      exact ⟨gap base s - 1, by rw [hgo, Nat.sub_add_cancel hpos]⟩
  rw [drain, popRun_of_not_due hdue, if_neg hempty]
  split
  · rename_i hzero
    cases hskip.symm.trans hzero
  · rename_i hsucc
    obtain ⟨-, rfl⟩ := Prod.mk.inj (hskip.symm.trans hsucc)
    have hlast : drain { j with nextSeq := some seq } =
        ([payload], { j with nextSeq := some (seq + 1), buf := ∅ }) := drain_of_due rfl hbuf
    rw [hlast]
    rfl

end JitterBuffer

/-! ### The loop -/

/-- The frame of a payload. -/
def toFrame (channels : UInt16) (sampleRate : UInt32) (payload : Bytes) : AudioFrame :=
  ⟨channels, sampleRate, decodeL16 payload channels⟩

/-- `drain_jitter`. -/
def drainJitter (j : JitterBuffer Bytes) (channels : UInt16) (sampleRate : UInt32) :
    List AudioFrame × JitterBuffer Bytes :=
  (j.drain.1.map (toFrame channels sampleRate), j.drain.2)

/-- The ring into the graph, oldest frame first. -/
structure Inbound where
  frames : List AudioFrame
  capacity : ℕ

/-- A full ring refuses the frame. -/
def Inbound.push (ring : Inbound) (frame : AudioFrame) : Option Inbound :=
  if ring.frames.length < ring.capacity then
    some { ring with frames := ring.frames ++ [frame] }
  else none

/-- The receiving thread's state, and what it has done: the frames it has offered to the ring
and, among them, those that were refused. -/
structure Receiver where
  jitter : JitterBuffer Bytes
  inbound : Inbound
  offered : List AudioFrame
  refused : List AudioFrame

namespace Receiver

/-- `spawn_rtp_recv_loop`, before its first turn. -/
def start (inbound : Inbound) : Receiver := ⟨JitterBuffer.new 64, inbound, [], []⟩

/-- The loop over the drained frames: it ends at the first that is refused. -/
def pushFrames (r : Receiver) : List AudioFrame → Receiver
  | [] => r
  | frame :: frames =>
      match r.inbound.push frame with
      | some inbound => pushFrames { r with inbound, offered := r.offered ++ [frame] } frames
      | none => { r with offered := r.offered ++ [frame], refused := r.refused ++ [frame] }

/-- One turn, on what the socket returns. An error means that nothing was received. -/
def turn (r : Receiver) (channels : UInt16) (sampleRate : UInt32)
    (datagram : Except String Bytes) : Receiver :=
  match UdpTransport.recvRtpWithSeq datagram with
  | .ok (seq, payload) =>
      let (_, jitter) := r.jitter.push seq payload
      let (frames, jitter) := drainJitter jitter channels sampleRate
      pushFrames { r with jitter } frames
  | .error _ => r

end Receiver

/-! ### The network -/

/-- What happens: a packet of the sender arrives, a turn receives nothing, or the graph takes a
frame out of the ring. -/
inductive Delivery where
  | packet (k : ℕ)
  | idle (error : String)
  | consume

/-- The highest index delivered, after one more event. -/
def highest (high : Option ℕ) : Delivery → Option ℕ
  | .packet k => some (high.elim k (max k))
  | _ => high

/-- An event the window allows: a packet at most 32768 above and at most 32767 below the highest
index so far. -/
def Near (high : Option ℕ) : Delivery → Prop
  | .packet k => ∀ m, high = some m → k ≤ m + 32768 ∧ m ≤ k + 32767
  | _ => True

/-- The index of a packet that is above all before. -/
def record? (high : Option ℕ) : Delivery → Option ℕ
  | .packet k => if high.all (· < k) then some k else none
  | _ => none

section Stream

variable (s : Sender) (channels : UInt16) (sampleRate : UInt32)

/-- One event. -/
def Receiver.step (r : Receiver) : Delivery → Receiver
  | .packet k => r.turn channels sampleRate (.ok (s.datagram k))
  | .idle error => r.turn channels sampleRate (.error error)
  | .consume => { r with inbound := { r.inbound with frames := r.inbound.frames.tail } }

/-- A list of events, from the start of the thread. -/
def Receiver.run (inbound : Inbound) (ds : List Delivery) : Receiver :=
  ds.foldl (Receiver.step s channels sampleRate) (Receiver.start inbound)

end Stream

/-! ### One turn -/

/-- The buffer between two turns: nothing waits, and the number after the highest index is
due. -/
def restJitter (high : Option ℕ) : JitterBuffer Bytes :=
  ⟨high.map fun m => UInt16.ofNat (m + 1), ∅, 64⟩

theorem gap_ofNat (i j : ℕ) :
    gap (UInt16.ofNat i) (UInt16.ofNat j) = Circular.ahead (2 ^ 16) (i % 2 ^ 16) (j % 2 ^ 16) := by
  rw [gap_eq_ahead, UInt16.toNat_ofNat', UInt16.toNat_ofNat']

/-- **In the window, sixteen bits tell early from late.** -/
theorem gap_window {m k : ℕ} (habove : k ≤ m + 32768) (hbelow : m ≤ k + 32767) :
    gap (UInt16.ofNat (m + 1)) (UInt16.ofNat k) < 32768 ↔ m < k := by
  rw [gap_ofNat]
  by_cases hlt : m < k
  · rw [Circular.ahead_mod (by omega) (by omega)]
    omega
  · rw [Circular.ahead_mod_of_lt (by omega) (by omega)]
    omega

/-- A packet pushed into the buffer at rest is drained at once if it is not late. -/
theorem drain_store {j : JitterBuffer Bytes} {base seq : UInt16} (payload : Bytes)
    (hbase : j.nextSeq = some base) (hbuf : j.buf = ∅) (hroom : 0 < j.capacity)
    (hwin : gap base seq < 32768) :
    (j.store seq payload).2.drain =
      ([payload], { j with nextSeq := some (seq + 1), buf := ∅ }) := by
  have hlen : j.len = 0 := by
    rw [JitterBuffer.len, hbuf]
    rfl
  rcases j.store_cases seq payload with ⟨hmem, -⟩ | ⟨-, hfull, -⟩ | ⟨-, -, heq⟩
  · rw [hbuf] at hmem
    exact absurd hmem (AList.notMem_empty seq)
  · omega
  · rw [heq]
    have hsingle : j.buf.insert seq payload = AList.singleton seq payload := by
      rw [hbuf, AList.insert_empty]
    exact JitterBuffer.drain_of_singleton hbase hsingle hwin

/-- **A packet in the window**: a record is drained, and anything else is refused as late. -/
theorem drain_push {high : Option ℕ} {k : ℕ} (hnear : Near high (.packet k)) (payload : Bytes) :
    ((restJitter high).push (UInt16.ofNat k) payload).2.drain =
      ((record? high (.packet k)).toList.map fun _ => payload,
        restJitter (highest high (.packet k))) := by
  have hnext : UInt16.ofNat k + 1 = UInt16.ofNat (k + 1) := by
    rw [UInt16.ofNat_add]
    rfl
  rcases high with _ | m
  · -- the first packet of all
    have hdrain := drain_store (j := ⟨some (UInt16.ofNat k), ∅, 64⟩) payload rfl rfl
      (by decide : 0 < 64)
      (by rw [gap_self]; decide : gap (UInt16.ofNat k) (UInt16.ofNat k) < 32768)
    change ((JitterBuffer.store ⟨some (UInt16.ofNat k), ∅, 64⟩ (UInt16.ofNat k)
      payload).2).drain = _
    rw [hdrain, hnext]
    rfl
  obtain ⟨habove, hbelow⟩ := hnear m rfl
  have hwindow := gap_window habove hbelow
  by_cases hlt : m < k
  · have hearly : ¬forwardDistance (UInt16.ofNat (m + 1)) (UInt16.ofNat k) < 0 := fun hneg =>
      absurd (forwardDistance_neg.mp hneg) (not_le.mpr (hwindow.mpr hlt))
    have hpush : (restJitter (some m)).push (UInt16.ofNat k) payload =
        (restJitter (some m)).store (UInt16.ofNat k) payload := if_neg hearly
    have hmax : max k m = k := max_eq_left (Nat.le_of_lt hlt)
    rw [hpush, drain_store payload rfl rfl (by decide : 0 < 64) (hwindow.mpr hlt), hnext]
    simp only [record?, highest, restJitter, Option.all_some, Option.elim_some, Option.map_some,
      hlt, hmax, decide_true, if_true, Option.toList_some, List.map_cons, List.map_nil]
  · have hlate : forwardDistance (UInt16.ofNat (m + 1)) (UInt16.ofNat k) < 0 :=
      forwardDistance_neg.mpr (not_lt.mp fun hwin => hlt (hwindow.mp hwin))
    have hpush : (restJitter (some m)).push (UInt16.ofNat k) payload =
        (.duplicate, restJitter (some m)) := if_pos hlate
    have hmax : max k m = m := max_eq_right (not_lt.mp hlt)
    rw [hpush, JitterBuffer.drain_of_empty rfl]
    simp only [record?, highest, Option.all_some, Option.elim_some, hlt, hmax, decide_false,
      Bool.false_eq_true, if_false, Option.toList_none, List.map_nil]

section Stream

variable (s : Sender) (channels : UInt16) (sampleRate : UInt32)

/-- **A frame meets the ring**: it enters if there is room, and otherwise it, and nothing else,
is lost. -/
def Meets (r r' : Receiver) (frame : AudioFrame) : Prop :=
  if r.inbound.frames.length < r.inbound.capacity then
    r'.inbound = { r.inbound with frames := r.inbound.frames ++ [frame] } ∧ r'.refused = r.refused
  else r'.inbound = r.inbound ∧ r'.refused = r.refused ++ [frame]

end Stream

end NetRtp

end SonicBrew
