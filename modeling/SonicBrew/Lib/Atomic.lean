import Mathlib.Logic.Basic

/-!
# A cell that threads exchange

An atomic cell is read, overwritten, or exchanged on the condition that it still holds what was
read from it before. A *weak* exchange may fail although the cell holds that, so a program has to
try again in any case.

A thread that wants a cell to be at least `new` tries only while what it knows of the cell is below
`new`. Then an exchange that succeeds has taken the cell to the greater of the two values, and one
that fails has left it alone (`SonicBrew.Atomic.raise_cases`): that nobody else's value is lost
depends on nothing else.
-/

namespace SonicBrew

namespace Atomic

variable {α : Type}

/-- A weak compare-exchange: what the cell holds now, and whether that is the new value – otherwise
what was found. -/
def compareExchangeWeak [DecidableEq α] (cell expected new : α) (spurious : Bool) :
    α × Except α α :=
  if cell = expected ∧ spurious = false then (new, .ok cell) else (cell, .error cell)

/-- **The two outcomes of an exchange.** -/
theorem compareExchangeWeak_cases [DecidableEq α] (cell expected new : α) (spurious : Bool) :
    (cell = expected ∧ compareExchangeWeak cell expected new spurious = (new, .ok cell)) ∨
      compareExchangeWeak cell expected new spurious = (cell, .error cell) := by
  by_cases h : cell = expected ∧ spurious = false
  · exact Or.inl ⟨h.1, if_pos h⟩
  · exact Or.inr (if_neg h)

/-- **An exchange that is meant to raise the cell** raises it or leaves it alone. -/
theorem raise_cases [DecidableEq α] [LT α] (cell : α) {expected new : α} (h : expected < new)
    (spurious : Bool) :
    (cell < new ∧ compareExchangeWeak cell expected new spurious = (new, .ok cell)) ∨
      compareExchangeWeak cell expected new spurious = (cell, .error cell) := by
  obtain ⟨rfl, heq⟩ | heq := compareExchangeWeak_cases cell expected new spurious
  · exact Or.inl ⟨h, heq⟩
  · exact Or.inr heq

end Atomic

end SonicBrew
