import Mathlib.Data.List.Basic

/-!
# A bounded, lossy broadcast channel

One sender, any number of receivers. The channel keeps the last `cap` values; a
receiver is a cursor into the stream of everything ever sent, and a receiver that
has fallen more than `cap` values behind is told so once – its cursor then jumps to
the oldest value still kept – instead of being given the values it missed.

The stream itself is modelled in full (`SonicBrew.Broadcast.sent`); the bound
only decides what a receiver may still read of it. A receiver is *drained* when its
cursor is at the end of the stream.

A `SonicBrew.Broadcast.Receiver` also remembers what it was given. One that was never told that
it lagged has been given a contiguous piece of the stream, from the point where it subscribed to
its cursor (`SonicBrew.Broadcast.Receiver.Follows`).
-/

namespace SonicBrew

/-- **The sending side**: everything ever sent, oldest first. -/
structure Broadcast (α : Type) where
  /-- Every value sent so far. -/
  sent : List α

/-- What an attempt to receive answers. -/
inductive TryRecv (α : Type) where
  /-- The next value of the stream. -/
  | ok (a : α)
  /-- Nothing new has been sent. -/
  | empty
  /-- So many values were dropped before they could be read. -/
  | lagged (missed : ℕ)

namespace Broadcast

variable {α : Type}

/-- A channel on which nothing has been sent. -/
def channel : Broadcast α := ⟨[]⟩

/-- Send one value to all receivers. -/
def send (c : Broadcast α) (a : α) : Broadcast α := ⟨c.sent ++ [a]⟩

/-- A new receiver sees what is sent from now on. -/
def subscribe (c : Broadcast α) : ℕ := c.sent.length

/-- A receiver with nothing left to read. -/
def Drained (c : Broadcast α) (cursor : ℕ) : Prop := cursor = c.sent.length

instance (c : Broadcast α) (cursor : ℕ) : Decidable (c.Drained cursor) :=
  inferInstanceAs (Decidable (cursor = c.sent.length))

/-- Receive without waiting, on a channel that keeps the last `cap` values. -/
def tryRecv (cap : ℕ) (c : Broadcast α) (cursor : ℕ) : TryRecv α × ℕ :=
  if cursor + cap < c.sent.length then
    (.lagged (c.sent.length - cap - cursor), c.sent.length - cap)
  else match c.sent[cursor]? with
    | none => (.empty, cursor)
    | some a => (.ok a, cursor + 1)

@[simp] theorem sent_send (c : Broadcast α) (a : α) : (c.send a).sent = c.sent ++ [a] := rfl

/-- **A cursor never runs past the stream**: what was sent since only pushes the end
away. -/
theorem le_length_send {c : Broadcast α} {cursor : ℕ} (h : cursor ≤ c.sent.length) (a : α) :
    cursor ≤ (c.send a).sent.length := by
  rw [sent_send, List.length_append]
  omega

/-- **A value sent leaves no receiver drained.** -/
theorem not_drained_send {c : Broadcast α} {cursor : ℕ} (h : cursor ≤ c.sent.length) (a : α) :
    ¬(c.send a).Drained cursor := by
  rw [Drained, sent_send, List.length_append, List.length_singleton]
  omega

theorem le_length_tryRecv {cap : ℕ} {c : Broadcast α} {cursor : ℕ} (h : cursor ≤ c.sent.length) :
    (c.tryRecv cap cursor).2 ≤ c.sent.length := by
  rw [tryRecv]
  split
  · exact Nat.sub_le _ _
  · rcases hg : c.sent[cursor]? with _ | a
    · exact h
    · exact (List.getElem?_eq_some_iff.mp hg).1

/-- **Only a drained receiver is answered “empty”**, and its cursor stays. -/
theorem tryRecv_eq_empty {cap : ℕ} {c : Broadcast α} {cursor next : ℕ}
    (hle : cursor ≤ c.sent.length) (h : c.tryRecv cap cursor = (.empty, next)) :
    next = cursor ∧ c.Drained cursor := by
  rw [tryRecv] at h
  split at h
  · simp at h
  · rcases hg : c.sent[cursor]? with _ | a
    · simp only [hg, Prod.mk.injEq, true_and] at h
      exact ⟨h.symm, Nat.le_antisymm hle (List.getElem?_eq_none_iff.mp hg)⟩
    · simp [hg] at h

/-! ### What a receiver has been given -/

/-- A receiver: where it subscribed, where it is, what it was given, and whether it was ever
told that it missed something. -/
structure Receiver (α : Type) where
  start : ℕ
  cursor : ℕ
  seen : List α
  lagged : Bool

/-- A receiver that has just subscribed. -/
def receiver (c : Broadcast α) : Receiver α := ⟨c.subscribe, c.subscribe, [], false⟩

/-- The receiver after an attempt to receive. -/
def Receiver.recv (cap : ℕ) (c : Broadcast α) (r : Receiver α) : Receiver α :=
  match c.tryRecv cap r.cursor with
  | (.ok a, cursor) => { r with cursor, seen := r.seen ++ [a] }
  | (.empty, cursor) => { r with cursor }
  | (.lagged _, cursor) => { r with cursor, lagged := true }

/-- **A receiver that never lagged** has been given the stream from where it subscribed up to
its cursor. -/
structure Receiver.Follows (c : Broadcast α) (r : Receiver α) : Prop where
  cursor_eq : r.cursor = r.start + r.seen.length
  cursor_le : r.cursor ≤ c.sent.length
  seen_eq : r.seen = (c.sent.drop r.start).take r.seen.length

namespace Receiver

variable {c : Broadcast α} {r : Receiver α}

@[simp] theorem start_recv (cap : ℕ) (c : Broadcast α) (r : Receiver α) :
    (r.recv cap c).start = r.start := by
  rw [recv]
  split <;> rfl

/-- Once a receiver has lagged, it has lagged. -/
theorem lagged_of_recv {cap : ℕ} (h : (r.recv cap c).lagged = false) : r.lagged = false := by
  rw [recv] at h
  split at h
  · exact h
  · exact h
  · cases h

theorem follows_receiver (c : Broadcast α) : Follows c c.receiver := ⟨rfl, Nat.le_refl _, rfl⟩

theorem Follows.start_le (h : Follows c r) : r.start ≤ c.sent.length := by
  have hcursor := h.cursor_eq
  have hle := h.cursor_le
  omega

theorem Follows.send (h : Follows c r) (a : α) : Follows (c.send a) r := by
  have hcursor := h.cursor_eq
  have hle := h.cursor_le
  refine ⟨hcursor, le_length_send hle a, ?_⟩
  have hlen : r.seen.length ≤ (c.sent.drop r.start).length := by
    rw [List.length_drop]
    omega
  rw [sent_send, List.drop_append_of_le_length h.start_le, List.take_append_of_le_length hlen]
  exact h.seen_eq

/-- Receiving keeps a receiver that does not lag on the stream. -/
theorem Follows.recv (h : Follows c r) {cap : ℕ} (hlag : (r.recv cap c).lagged = false) :
    Follows c (r.recv cap c) := by
  by_cases hfar : r.cursor + cap < c.sent.length
  · rw [Receiver.recv, tryRecv, if_pos hfar] at hlag
    cases hlag
  · rcases hg : c.sent[r.cursor]? with _ | a
    · have hrecv : r.recv cap c = r := by
        simp only [Receiver.recv, tryRecv, if_neg hfar, hg]
      rw [hrecv]
      exact h
    · have hrecv : r.recv cap c = { r with cursor := r.cursor + 1, seen := r.seen ++ [a] } := by
        simp only [Receiver.recv, tryRecv, if_neg hfar, hg]
      have hcursor := h.cursor_eq
      have hnext : (c.sent.drop r.start)[r.seen.length]? = some a := by
        rw [List.getElem?_drop, ← hcursor, hg]
      rw [hrecv]
      refine ⟨?_, (List.getElem?_eq_some_iff.mp hg).1, ?_⟩
      · simp only [List.length_append, List.length_singleton]
        omega
      · simp only [List.length_append, List.length_singleton]
        rw [List.take_add_one, hnext, ← h.seen_eq]
        rfl

/-- **A drained receiver has been given everything** that was sent since it subscribed. -/
theorem Follows.eq_of_empty (h : Follows c r) {cap : ℕ}
    (hempty : (c.tryRecv cap r.cursor).1 = .empty) : r.seen = c.sent.drop r.start := by
  have hdrained : r.cursor = c.sent.length :=
    (tryRecv_eq_empty h.cursor_le (Prod.ext hempty rfl)).2
  have hcursor := h.cursor_eq
  have hall : (c.sent.drop r.start).length ≤ r.seen.length := by
    rw [List.length_drop]
    omega
  rw [h.seen_eq, List.take_of_length_le hall]

end Receiver

end Broadcast

end SonicBrew
