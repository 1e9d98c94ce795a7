import Mathlib.Data.List.Basic
import Mathlib.Data.Nat.Notation
import Mathlib.Logic.Function.Basic

/-!
# Queues that take over from one another

A writer and a reader that are connected by a queue may be given a new one while they work, each at
a time of its own. What is left in a queue when the reader leaves it is lost. But nothing is read
twice and nothing is read out of order, as long as neither of them goes back to a queue it has left.

Each side keeps a log of what it put in or took out, and of the queue it was
(`SonicBrew.Succession.entries`). The logs are in balance with the queues if what was put into a
queue is what was taken out of it and what is still in it (`SonicBrew.Succession.Balanced`). From
that and from the order of the queues in both logs it follows that the reader's log is a sublist of
the writer's (`SonicBrew.Succession.Balanced.sublist`).
-/

namespace SonicBrew

namespace Succession

variable {F : Type}

/-- What a log says of one queue. -/
def entries (r : ℕ) (log : List (ℕ × F)) : List F :=
  log.filterMap fun p => if p.1 = r then some p.2 else none

theorem entries_cons_self (r : ℕ) (x : F) (log : List (ℕ × F)) :
    entries r ((r, x) :: log) = x :: entries r log := by
  simp [entries]

theorem entries_cons_of_ne {r : ℕ} {p : ℕ × F} (h : p.1 ≠ r) (log : List (ℕ × F)) :
    entries r (p :: log) = entries r log := by
  simp [entries, h]

theorem entries_append (r : ℕ) (log log' : List (ℕ × F)) :
    entries r (log ++ log') = entries r log ++ entries r log' := by
  rw [entries, List.filterMap_append, entries, entries]

theorem entries_map_self (r : ℕ) (fs : List F) : entries r (fs.map (Prod.mk r)) = fs := by
  simp [entries, List.filterMap_map]

theorem entries_eq_nil {r : ℕ} {log : List (ℕ × F)} (h : ∀ p ∈ log, p.1 ≠ r) :
    entries r log = [] := by
  refine List.filterMap_eq_nil_iff.mpr fun p hp => ?_
  rw [if_neg (h p hp)]

theorem entries_map_of_ne {r s : ℕ} (h : s ≠ r) (fs : List F) :
    entries r (fs.map (Prod.mk s)) = [] := by
  refine entries_eq_nil fun p hp => ?_
  obtain ⟨x, -, rfl⟩ := List.mem_map.mp hp
  exact h

/-- A queue that has entries has been in the log. -/
theorem exists_mem_of_entries {r : ℕ} {x : F} {log : List (ℕ × F)} (h : x ∈ entries r log) :
    ∃ p ∈ log, p.1 = r := by
  obtain ⟨p, hp, hx⟩ := List.mem_filterMap.mp h
  refine ⟨p, hp, ?_⟩
  by_contra hne
  rw [if_neg hne] at hx
  cases hx

/-- A log that stays in the order of the queues may go on with the last of them. -/
theorem pairwise_append_map {log : List (ℕ × F)} (h : log.Pairwise (·.1 ≤ ·.1)) {r : ℕ}
    (hr : ∀ p ∈ log, p.1 ≤ r) (fs : List F) :
    (log ++ fs.map (Prod.mk r)).Pairwise (·.1 ≤ ·.1) := by
  refine List.pairwise_append.mpr ⟨h, ?_, fun p hp q hq => ?_⟩
  · exact List.pairwise_map.mpr (List.pairwise_of_forall fun _ _ => Nat.le_refl r)
  · obtain ⟨x, -, rfl⟩ := List.mem_map.mp hq
    exact hr p hp

/-- **Two logs in the order of the queues are compared queue by queue.** -/
theorem sublist_of_entries_prefix {outs ins : List (ℕ × F)} (houts : outs.Pairwise (·.1 ≤ ·.1))
    (hins : ins.Pairwise (·.1 ≤ ·.1)) (h : ∀ r, entries r outs <+: entries r ins) :
    outs.Sublist ins := by
  induction ins generalizing outs with
  | nil =>
    cases outs with
    | nil => exact List.Sublist.slnil
    | cons p outs =>
      have hp := h p.1
      rw [entries_cons_self p.1 p.2 outs] at hp
      exact absurd (List.prefix_nil.mp hp) (List.cons_ne_nil _ _)
  | cons q ins ih =>
    obtain ⟨r, x⟩ := q
    obtain ⟨hle, hins'⟩ := List.pairwise_cons.mp hins
    cases outs with
    | nil => exact List.nil_sublist _
    | cons p outs =>
      obtain ⟨s, y⟩ := p
      obtain ⟨hle', houts'⟩ := List.pairwise_cons.mp houts
      -- the first thing taken out is of a queue that something was put into
      have hs : r ≤ s := by
        have hpre := h s
        rw [entries_cons_self] at hpre
        obtain ⟨p, hp, rfl⟩ := exists_mem_of_entries (hpre.subset List.mem_cons_self)
        rcases List.mem_cons.mp hp with rfl | hp
        · exact Nat.le_refl _
        · exact hle p hp
      rcases Nat.eq_or_lt_of_le hs with rfl | hlt
      · have hpre := h r
        rw [entries_cons_self, entries_cons_self] at hpre
        obtain ⟨rfl, hpre'⟩ := List.cons_prefix_cons.mp hpre
        refine (ih houts' hins' fun t => ?_).cons_cons _
        rcases Nat.decEq r t with hne | rfl
        · have ht := h t
          rwa [entries_cons_of_ne hne, entries_cons_of_ne hne] at ht
        · exact hpre'
      · -- nothing more is taken out of the queue of `x`
        refine (ih houts hins' fun t => ?_).cons _
        rcases Nat.decEq r t with hne | rfl
        · have ht := h t
          rwa [entries_cons_of_ne hne ins] at ht
        · have hnil : entries r ((s, y) :: outs) = [] := by
            refine entries_eq_nil fun p hp => ?_
            rcases List.mem_cons.mp hp with rfl | hp
            · exact Nat.ne_of_gt hlt
            · exact Nat.ne_of_gt (Nat.lt_of_lt_of_le hlt (hle' p hp))
          rw [hnil]
          exact List.nil_prefix

/-- **The logs of both sides and the queues are in balance.** -/
structure Balanced (queue : ℕ → List F) (ins outs : List (ℕ × F)) : Prop where
  /-- The writer does not go back to a queue it has left. -/
  insOrdered : ins.Pairwise (·.1 ≤ ·.1)
  /-- Nor does the reader. -/
  outsOrdered : outs.Pairwise (·.1 ≤ ·.1)
  balance : ∀ r, entries r ins = entries r outs ++ queue r

namespace Balanced

variable {queue : ℕ → List F} {ins outs : List (ℕ × F)}

theorem nil : Balanced (fun _ => ([] : List F)) [] [] :=
  ⟨List.Pairwise.nil, List.Pairwise.nil, fun _ => rfl⟩

/-- The writer puts something into a queue that is none of those it has left. -/
theorem enqueue (h : Balanced queue ins outs) {r : ℕ} (hr : ∀ p ∈ ins, p.1 ≤ r) (fs : List F) :
    Balanced (Function.update queue r (queue r ++ fs)) (ins ++ fs.map (Prod.mk r)) outs := by
  refine ⟨pairwise_append_map h.insOrdered hr fs, h.outsOrdered, fun t => ?_⟩
  rw [entries_append, h.balance t]
  rcases eq_or_ne t r with rfl | hne
  · rw [entries_map_self, Function.update_self, List.append_assoc]
  · rw [entries_map_of_ne hne.symm, Function.update_of_ne hne, List.append_nil]

/-- The reader takes something out. -/
theorem dequeue (h : Balanced queue ins outs) {r : ℕ} (hr : ∀ p ∈ outs, p.1 ≤ r)
    {fs rest : List F} (hqueue : queue r = fs ++ rest) :
    Balanced (Function.update queue r rest) ins (outs ++ fs.map (Prod.mk r)) := by
  refine ⟨h.insOrdered, pairwise_append_map h.outsOrdered hr fs, fun t => ?_⟩
  rw [entries_append, h.balance t]
  rcases eq_or_ne t r with rfl | hne
  · rw [entries_map_self, Function.update_self, hqueue, List.append_assoc]
  · rw [entries_map_of_ne hne.symm, Function.update_of_ne hne, List.append_nil]

/-- **What is read has been written, in the same order, and is read once.** -/
theorem sublist (h : Balanced queue ins outs) : outs.Sublist ins :=
  sublist_of_entries_prefix h.outsOrdered h.insOrdered fun r =>
    ⟨queue r, (h.balance r).symm⟩

end Balanced

end Succession

end SonicBrew
