import SonicBrew.Lib.Atomic
import SonicBrew.Lib.Pool
import SonicBrew.Monitor.Window

/-!
# Concurrent reports of xruns

`record_xrun` keeps the greatest count that was reported, without a lock: it reads the total, and as
long as its own count is above what it knows of the total it tries to exchange the one for the
other. Any number of threads do so at the same time, each with a view of the total that may be out
of date, and an exchange may also fail for no reason.

The total goes up only, from one reported count to another, and a call returns only when the total
is at least its count. So when nobody is in a call any more, the total is the maximum
(`SonicBrew.Monitor.recordXrun_concurrent`). A call that nobody interrupts does what
`SonicBrew.Monitor.MetricsRecorder.recordXrun` says in one step.
-/

namespace SonicBrew

namespace Monitor

open Atomic (compareExchangeWeak)

/-- Where a call of `record_xrun` is: at its first read, or in the loop, with what it knows of the
total. -/
inductive XrunCall where
  | load (count : UInt64)
  | exchange (count current : UInt64)
  deriving DecidableEq, Repr

namespace XrunCall

/-- The count that the call reports. -/
def count : XrunCall → UInt64
  | .load count => count
  | .exchange count _ => count

/-- The beginning of the loop: there is something to do, or the call returns. -/
def loop (count current : UInt64) : XrunCall ⊕ Unit :=
  if count ≤ current then .inr () else .inl (.exchange count current)

/-- **The atomic steps of `record_xrun`**, the one that reads and those that try to exchange. -/
def next (r : MetricsRecorder) : XrunCall → Bool → MetricsRecorder × (XrunCall ⊕ Unit)
  | .load count, _ => (r, loop count r.xrunTotal)
  | .exchange count current, spurious =>
      match compareExchangeWeak r.xrunTotal current count spurious with
      | (total, .ok _) => ({ r with xrunTotal := total }, .inr ())
      | (total, .error observed) => ({ r with xrunTotal := total }, loop count observed)

end XrunCall

/-- One step of any number of threads. -/
def xrunStep : Pool MetricsRecorder XrunCall Unit → Pool.Action UInt64 Bool →
    Option (Pool MetricsRecorder XrunCall Unit) :=
  Pool.step XrunCall.load XrunCall.next

/-- The count that is reported with an action. -/
def reports : Pool.Action UInt64 Bool → List UInt64
  | .invoke _ count => [count]
  | .advance _ _ => []

/-! ### One step of a call -/

namespace XrunCall

theorem loop_cases (count current : UInt64) :
    (count ≤ current ∧ loop count current = .inr ()) ∨
      (current < count ∧ loop count current = .inl (.exchange count current)) := by
  by_cases h : count ≤ current
  · exact Or.inl ⟨h, if_pos h⟩
  · exact Or.inr ⟨UInt64.not_le.mp h, if_neg h⟩

/-- A call tries to exchange only what is below its count. -/
def Below : XrunCall → Prop
  | .load _ => True
  | .exchange count current => current < count

theorem below_of_loop {count current : UInt64} {c : XrunCall} (h : loop count current = .inl c) :
    c.Below ∧ c.count = count := by
  obtain ⟨-, heq⟩ | ⟨hlt, heq⟩ := loop_cases count current
  · rw [heq] at h
    cases h
  · rw [heq] at h
    obtain rfl := Sum.inl.inj h
    exact ⟨hlt, rfl⟩

/-- **What a step of a call does**: it sets the total to its count, which is greater, and returns;
or it leaves the total alone, and returns if that is at least its count. -/
theorem next_cases (r : MetricsRecorder) {c : XrunCall} (hc : c.Below) (spurious : Bool) :
    (r.xrunTotal < c.count ∧ next r c spurious = ({ r with xrunTotal := c.count }, .inr ())) ∨
      next r c spurious = (r, loop c.count r.xrunTotal) := by
  cases c with
  | load count => exact Or.inr rfl
  | exchange count current =>
    obtain ⟨hlt, heq⟩ | heq :=
      Atomic.raise_cases r.xrunTotal (show current < count from hc) spurious
    · exact Or.inl ⟨hlt, by simp only [next, heq]; rfl⟩
    · exact Or.inr (by simp only [next, heq]; rfl)

/-- **Nobody interrupts**: the call is over after its read and one exchange. -/
theorem solo_recordXrun (r : MetricsRecorder) (count : UInt64) :
    Pool.solo next [false, false] r (.load count) = (r.recordXrun count, .inr ()) := by
  rw [Pool.solo, next, MetricsRecorder.recordXrun]
  obtain ⟨hle, heq⟩ | ⟨hlt, heq⟩ := loop_cases count r.xrunTotal
  · rw [heq, if_pos hle]
  · rw [heq, if_neg (UInt64.not_le.mpr hlt)]
    dsimp only
    rw [Pool.solo, next, compareExchangeWeak, if_pos ⟨rfl, rfl⟩]

end XrunCall

/-! ### Runs -/

/-- **What the threads keep up**: no call tries to lower the total; the total is the first one or
was reported; and what was reported is below the total, or its call is not over. -/
structure Raised (first : UInt64) (p : Pool MetricsRecorder XrunCall Unit)
    (reported : List UInt64) : Prop where
  below : p.All XrunCall.Below
  announced : p.All fun c => c.count ∈ reported
  first_le : first ≤ p.shared.xrunTotal
  origin : p.shared.xrunTotal = first ∨ p.shared.xrunTotal ∈ reported
  reached : ∀ count ∈ reported, count ≤ p.shared.xrunTotal ∨ p.Some fun c => c.count = count

theorem raised_idle (r : MetricsRecorder) : Raised r.xrunTotal (Pool.idle r) [] where
  below := Pool.all_idle _ r
  announced := Pool.all_idle _ r
  first_le := UInt64.le_refl _
  origin := Or.inl rfl
  reached _ hcount := absurd hcount List.not_mem_nil

theorem Raised.invoke {first : UInt64} {p : Pool MetricsRecorder XrunCall Unit}
    {reported : List UInt64} (h : Raised first p reported) {t : ℕ} (ht : p.calls t = none)
    (count : UInt64) :
    Raised first (p.settle t p.shared (.inl (.load count))) (reported ++ [count]) where
  below := h.below.settle (Pool.forall_of_inl trivial) fun _ _ _ _ hc => hc
  announced := by
    refine h.announced.settle (Pool.forall_of_inl ?_) fun _ c _ _ hc => List.mem_append_left _ hc
    exact List.mem_append_right _ List.mem_cons_self
  first_le := h.first_le
  origin := h.origin.imp_right (List.mem_append_left _)
  reached := by
    intro k hk
    rcases List.mem_append.mp hk with hk | hk
    · refine (h.reached k hk).imp_right fun hsome => ?_
      refine (hsome.settle t _ _).resolve_left ?_
      rintro ⟨c, hc, -⟩
      exact absurd (ht.symm.trans hc) (by simp)
    · obtain rfl := List.mem_singleton.mp hk
      exact Or.inr ⟨t, _, p.settle_calls_self t _ _, rfl⟩

theorem Raised.advance {first : UInt64} {p : Pool MetricsRecorder XrunCall Unit}
    {reported : List UInt64} (h : Raised first p reported) {t : ℕ} {c : XrunCall}
    (ht : p.calls t = some c) (spurious : Bool) :
    Raised first (p.settle t (XrunCall.next p.shared c spurious).1
      (XrunCall.next p.shared c spurious).2) reported := by
  have hself : ∀ {c' : XrunCall}, p.calls t = some c' → c' = c := fun h' =>
    Option.some.inj (h'.symm.trans ht)
  obtain ⟨hlt, heq⟩ | heq := XrunCall.next_cases p.shared (h.below t c ht) spurious
  · rw [heq]
    refine ⟨h.below.settle (by simp) fun _ _ _ _ hc => hc,
      h.announced.settle (by simp) fun _ _ _ _ hc => hc, ?_, ?_, fun k hk => ?_⟩
    · rw [Pool.settle_shared]
      exact UInt64.le_trans h.first_le (UInt64.le_of_lt hlt)
    · rw [Pool.settle_shared]
      exact Or.inr (h.announced t c ht)
    · rw [Pool.settle_shared]
      rcases h.reached k hk with hle | hsome
      · exact Or.inl (UInt64.le_trans hle (UInt64.le_of_lt hlt))
      · refine (hsome.settle t _ _).imp_left ?_
        rintro ⟨c', hc', rfl⟩
        rw [hself hc']
        exact UInt64.le_refl _
  · rw [heq]
    have hloop := XrunCall.loop_cases c.count p.shared.xrunTotal
    refine ⟨h.below.settle (fun c' hc' => (XrunCall.below_of_loop hc').1) fun _ _ _ _ hc => hc,
      h.announced.settle (fun c' hc' => ?_) fun _ _ _ _ hc => hc, ?_, ?_, fun k hk => ?_⟩
    · rw [(XrunCall.below_of_loop hc').2]
      exact h.announced t c ht
    · rw [Pool.settle_shared]
      exact h.first_le
    · rw [Pool.settle_shared]
      exact h.origin
    · rw [Pool.settle_shared]
      rcases h.reached k hk with hle | hsome
      · exact Or.inl hle
      · rcases hsome.settle t p.shared (XrunCall.loop c.count p.shared.xrunTotal) with
          ⟨c', hc', rfl⟩ | hsome'
        · -- the call that moves has reached its count, or goes on with it
          rw [hself hc']
          refine hloop.imp And.left fun hagain => ?_
          refine ⟨t, .exchange c.count p.shared.xrunTotal, ?_, rfl⟩
          rw [Pool.settle_calls_self, hagain.2]
          rfl
        · exact Or.inr hsome'

/-- **No step lowers the total.** -/
theorem xrunTotal_le_step {first : UInt64} {p p' : Pool MetricsRecorder XrunCall Unit}
    {reported : List UInt64} {a : Pool.Action UInt64 Bool} (h : Raised first p reported)
    (ha : xrunStep p a = some p') : p.shared.xrunTotal ≤ p'.shared.xrunTotal := by
  obtain ⟨t, q, rfl, ht, rfl⟩ | ⟨t, spurious, c, rfl, ht, rfl⟩ := Pool.step_cases ha
  · exact UInt64.le_refl _
  · rw [Pool.settle_shared]
    obtain ⟨hlt, heq⟩ | heq := XrunCall.next_cases p.shared (h.below t c ht) spurious
    · rw [heq]
      exact UInt64.le_of_lt hlt
    · rw [heq]
      exact UInt64.le_refl _

theorem Raised.step {first : UInt64} {p p' : Pool MetricsRecorder XrunCall Unit}
    {reported : List UInt64} {a : Pool.Action UInt64 Bool} (h : Raised first p reported)
    (ha : xrunStep p a = some p') : Raised first p' (reported ++ reports a) := by
  obtain ⟨t, count, rfl, ht, rfl⟩ | ⟨t, spurious, c, rfl, ht, rfl⟩ := Pool.step_cases ha
  · exact h.invoke ht count
  · rw [reports, List.append_nil]
    exact h.advance ht spurious

theorem Raised.run {first : UInt64} {p p' : Pool MetricsRecorder XrunCall Unit}
    {reported : List UInt64} {actions : List (Pool.Action UInt64 Bool)}
    (h : Raised first p reported) (hrun : Transition.run xrunStep p actions = some p') :
    Raised first p' (reported ++ actions.flatMap reports) := by
  rw [← Transition.observed_eq_flatMap hrun]
  exact Transition.invariant_observed (fun _ _ _ _ h _ => h.step) h
    (Transition.meets_true p actions) hrun

theorem Raised.xrunTotal_le {first : UInt64} {p p' : Pool MetricsRecorder XrunCall Unit}
    {reported : List UInt64} {actions : List (Pool.Action UInt64 Bool)}
    (h : Raised first p reported) (hrun : Transition.run xrunStep p actions = some p') :
    p.shared.xrunTotal ≤ p'.shared.xrunTotal := by
  have hkeep := Transition.invariant_observed (e := fun _ a => reports a)
    (P := fun q seen => Raised first q seen ∧ p.shared.xrunTotal ≤ q.shared.xrunTotal)
    (fun _ _ _ _ hq _ ha => ⟨hq.1.step ha, UInt64.le_trans hq.2 (xrunTotal_le_step hq.1 ha)⟩)
    ⟨h, UInt64.le_refl _⟩ (Transition.meets_true p actions) hrun
  exact hkeep.2

/-- **Concurrent reports.** However the calls interleave, the total never goes down, it is the first
one or one of the reported counts, and when all calls have returned it is the greatest of these. -/
theorem recordXrun_concurrent {r : MetricsRecorder} {actions : List (Pool.Action UInt64 Bool)}
    {p : Pool MetricsRecorder XrunCall Unit}
    (hrun : Transition.run xrunStep (Pool.idle r) actions = some p) :
    (∀ more p', Transition.run xrunStep p more = some p' →
      p.shared.xrunTotal ≤ p'.shared.xrunTotal) ∧
    (p.shared.xrunTotal = r.xrunTotal ∨ p.shared.xrunTotal ∈ actions.flatMap reports) ∧
    ((∀ t, p.calls t = none) →
      (r.xrunTotal :: actions.flatMap reports).max? = some p.shared.xrunTotal) := by
  have h : Raised r.xrunTotal p (actions.flatMap reports) := (raised_idle r).run hrun
  refine ⟨fun more p' => h.xrunTotal_le, h.origin, fun hreturned => ?_⟩
  rw [List.max?_eq_some_iff]
  refine ⟨List.mem_cons.mpr h.origin, fun count hcount => ?_⟩
  rcases List.mem_cons.mp hcount with rfl | hcount
  · exact h.first_le
  · refine (h.reached count hcount).resolve_right ?_
    rintro ⟨t, c, ht, -⟩
    exact absurd ((hreturned t).symm.trans ht) (by simp)

/-- Two threads: the one with the smaller count reads first, fails once for no reason, and finds the
greater one when it tries again. -/
theorem recordXrun_concurrent_two :
    let actions : List (Pool.Action UInt64 Bool) := [.invoke 0 3, .invoke 1 7, .advance 0 false,
      .advance 1 false, .advance 0 true, .advance 1 false, .advance 0 false]
    ∃ p, Transition.run xrunStep (Pool.idle (.withPrefix "sonicbrew")) actions = some p ∧
      [0, 3, 7].max? = some p.shared.xrunTotal := by
  intro actions
  have hrun : Transition.run xrunStep (Pool.idle (.withPrefix "sonicbrew")) actions =
      some ⟨⟨[], 0, 0, 7, "sonicbrew"⟩, _, [(), ()]⟩ := rfl
  refine ⟨_, hrun, (recordXrun_concurrent hrun).2.2 fun t => ?_⟩
  rcases t with _ | _ | t <;> rfl

end Monitor

end SonicBrew
