import SonicBrew.Lib.Wire

/-!
# A cursor that is checked at run time

A program that reads from a byte string keeps a position in it. The language checks every access:
an index or a range that is not in the string makes the program panic, and so does a position that
does not fit a machine word. A call then has three outcomes: it returns a value, it returns an
error, or it panics (`SonicBrew.Checked`).

The rules are about calls that do not panic. Such a call is *bounded*
(`SonicBrew.Checked.Bounded`): it leaves the cursor in the string and does not move it back,
whatever it returns, and if it returns a value, then this value and the new position are as
required. Bounded calls can be put one behind the other (`SonicBrew.Checked.Bounded.bind`); what is
left to prove for a program is that its own accesses are in the string.
-/

namespace SonicBrew

/-- **A call that may panic**: a value or an error, and the state after it; or nothing. -/
def Checked (σ ε α : Type) : Type := σ → Option (Except ε α × σ)

namespace Checked

variable {σ ε α β : Type}

instance : Monad (Checked σ ε) where
  pure a s := some (.ok a, s)
  bind m f s :=
    match m s with
    | none => none
    | some (.error e, s') => some (.error e, s')
    | some (.ok a, s') => f a s'

def fail (e : ε) : Checked σ ε α := fun s => some (.error e, s)

/-- What is not there makes a panic. -/
def orPanic (o : Option α) : Checked σ ε α := fun s => o.map fun a => (.ok a, s)

theorem bind_apply (m : Checked σ ε α) (f : α → Checked σ ε β) (s : σ) :
    (m >>= f) s =
      match m s with
      | none => none
      | some (.error e, s') => some (.error e, s')
      | some (.ok a, s') => f a s' := rfl

theorem bind_of_ok {m : Checked σ ε α} {s s' : σ} {a : α} (h : m s = some (.ok a, s'))
    (f : α → Checked σ ε β) : (m >>= f) s = f a s' := by
  rw [bind_apply, h]

theorem bind_of_error {m : Checked σ ε α} {s s' : σ} {e : ε} (h : m s = some (.error e, s'))
    (f : α → Checked σ ε β) : (m >>= f) s = some (.error e, s') := by
  rw [bind_apply, h]

/-- Only the state at hand matters. -/
theorem bind_congr {m m' : Checked σ ε α} {s : σ} (h : m s = m' s) (f : α → Checked σ ε β) :
    (m >>= f) s = (m' >>= f) s := by
  rw [bind_apply, h, bind_apply]

end Checked

/-! ### Byte strings -/

/-- A byte string in memory; its length is a machine word. -/
structure Slice where
  bytes : Bytes
  length_lt : bytes.length < UInt64.size

namespace Slice

/-- `&s[i..j]`. -/
def range (s : Slice) (i j : ℕ) : Option Bytes :=
  if i ≤ j ∧ j ≤ s.bytes.length then some ((s.bytes.drop i).take (j - i)) else none

/-- `&s[i..]`. -/
def rangeFrom (s : Slice) (i : ℕ) : Option Bytes :=
  if i ≤ s.bytes.length then some (s.bytes.drop i) else none

theorem range_of_le {s : Slice} {i n : ℕ} (h : i + n ≤ s.bytes.length) :
    s.range i (i + n) = some ((s.bytes.drop i).take n) := by
  rw [range, if_pos ⟨Nat.le_add_right i n, h⟩, Nat.add_sub_cancel_left]

end Slice

/-- The sum of two positions, if it fits a machine word. -/
def addWord (i j : ℕ) : Option ℕ := if i + j < UInt64.size then some (i + j) else none

/-- The product of two numbers, if it fits a machine word. -/
def mulWord (i j : ℕ) : Option ℕ := if i * j < UInt64.size then some (i * j) else none

theorem addWord_of_lt {i j : ℕ} (h : i + j < UInt64.size) : addWord i j = some (i + j) := if_pos h

theorem mulWord_of_lt {i j : ℕ} (h : i * j < UInt64.size) : mulWord i j = some (i * j) := if_pos h

theorem addWord_of_le {s : Slice} {i j : ℕ} (h : i + j ≤ s.bytes.length) :
    addWord i j = some (i + j) := addWord_of_lt (h.trans_lt s.length_lt)

/-- A byte string and a position. -/
@[ext]
structure Cursor where
  buf : Slice
  pos : ℕ

/-- The position is in the string, or at its end. -/
def Cursor.InBounds (c : Cursor) : Prop := c.pos ≤ c.buf.bytes.length

/-! ### Calls that stay in bounds -/

namespace Checked

variable {ε α β : Type} {c : Cursor} {S T : α → Cursor → Prop}

/-- **The call does not panic**, the cursor is in the string afterwards and not before where it was,
and a value that is returned is as required. -/
def Bounded (m : Checked Cursor ε α) (c : Cursor) (T : α → Cursor → Prop) : Prop :=
  ∃ result c', m c = some (result, c') ∧ c'.buf = c.buf ∧ c.pos ≤ c'.pos ∧ c'.InBounds ∧
    ∀ a, result = .ok a → T a c'

theorem bounded_pure (hc : c.InBounds) {a : α} (h : T a c) :
    Bounded (pure a : Checked Cursor ε α) c T :=
  ⟨.ok a, c, rfl, rfl, le_rfl, hc, fun _ hb => Except.ok.inj hb ▸ h⟩

theorem bounded_fail (hc : c.InBounds) (e : ε) : Bounded (fail e : Checked Cursor ε α) c T :=
  ⟨.error e, c, rfl, rfl, le_rfl, hc, fun _ hb => by cases hb⟩

/-- What is there does not panic. -/
theorem bounded_orPanic (hc : c.InBounds) {o : Option α} {a : α} (ho : o = some a) (h : T a c) :
    Bounded (orPanic o : Checked Cursor ε α) c T := by
  subst ho
  exact bounded_pure hc h

theorem bounded_orPanic_bind {o : Option α} {a : α} (ho : o = some a) {f : α → Checked Cursor ε β}
    {T : β → Cursor → Prop} (h : Bounded (f a) c T) : Bounded (orPanic o >>= f) c T := by
  subst ho
  exact h

theorem Bounded.mono {m : Checked Cursor ε α} (h : Bounded m c S)
    (hST : ∀ a c', c'.buf = c.buf → S a c' → T a c') : Bounded m c T := by
  obtain ⟨result, c', heq, hbuf, hle, hin, hvalue⟩ := h
  exact ⟨result, c', heq, hbuf, hle, hin, fun a ha => hST a c' hbuf (hvalue a ha)⟩

/-- **One call behind the other.** -/
theorem Bounded.bind {m : Checked Cursor ε α} {f : α → Checked Cursor ε β}
    {T : β → Cursor → Prop} (hm : Bounded m c S)
    (hf : ∀ a c', c'.buf = c.buf → c'.InBounds → S a c' → Bounded (f a) c' T) :
    Bounded (m >>= f) c T := by
  obtain ⟨result, c₁, heq, hbuf, hle, hin, hvalue⟩ := hm
  cases result with
  | error e =>
    refine ⟨.error e, c₁, bind_of_error heq f, hbuf, hle, hin, fun b hb => ?_⟩
    cases hb
  | ok a =>
    obtain ⟨result, c₂, heq₂, hbuf₂, hle₂, hin₂, hvalue₂⟩ := hf a c₁ hbuf hin (hvalue a rfl)
    exact ⟨result, c₂, (bind_of_ok heq f).trans heq₂, hbuf₂.trans hbuf, hle.trans hle₂, hin₂,
      hvalue₂⟩

/-- A value that is only passed on. -/
theorem Bounded.map {m : Checked Cursor ε α} {g : α → β} {T : β → Cursor → Prop}
    (hm : Bounded m c fun a c' => T (g a) c') : Bounded (m >>= fun a => pure (g a)) c T :=
  hm.bind fun _ _ _ hin h => bounded_pure hin h

end Checked

end SonicBrew
