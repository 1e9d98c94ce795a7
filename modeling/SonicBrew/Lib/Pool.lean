import Mathlib.Data.Nat.Notation
import Mathlib.Logic.Function.Basic
import SonicBrew.Lib.Transition

/-!
# Concurrent calls on a shared state

Threads call operations of one shared object. A call is a sequence of atomic steps: each looks
at the shared state, changes it, and leaves the call running or gives its answer. Between two
steps of one call the other threads may do anything, so a run of the pool – a list of actions,
each naming the thread that moves – is an interleaving, and every interleaving is one.

Properties of all interleavings are proved with `SonicBrew.Pool.countdown`, the rule for pools:
what a fresh call and every step under the guard preserve holds in every state reached. Since a
step moves one call and leaves the others where they are, an assertion about *every* running call
splits into what the step does to its own call and what it does to the assertions of the others
(`SonicBrew.Pool.All.settle`). A call that nobody interrupts runs as a function of the shared state
(`SonicBrew.Pool.run_solo`).
-/

namespace SonicBrew

/-- **A pool**: the shared state, the call each thread is in, and the answers given so far. -/
@[ext]
structure Pool (S C R : Type) where
  shared : S
  calls : ℕ → Option C
  answers : List R

namespace Pool

variable {S C R Q F : Type}

/-- A thread calls, or its call takes a step; `fault` is what the environment does to the step. -/
inductive Action (Q F : Type) where
  | invoke (t : ℕ) (q : Q)
  | advance (t : ℕ) (fault : F)

/-- A pool before any call. -/
def idle (s : S) : Pool S C R := ⟨s, fun _ => none, []⟩

/-- The shared state and the call of one thread change; an answer ends the call. -/
def settle (p : Pool S C R) (t : ℕ) (s : S) : C ⊕ R → Pool S C R
  | .inl c => ⟨s, Function.update p.calls t (some c), p.answers⟩
  | .inr r => ⟨s, Function.update p.calls t none, p.answers ++ [r]⟩

section Steps

variable (enter : Q → C) (next : S → C → F → S × (C ⊕ R))

/-- One step of the pool, if it is possible: a thread makes one call at a time. -/
def step (p : Pool S C R) : Action Q F → Option (Pool S C R)
  | .invoke t q =>
      match p.calls t with
      | some _ => none
      | none => some (p.settle t p.shared (.inl (enter q)))
  | .advance t fault =>
      match p.calls t with
      | none => none
      | some c => some (p.settle t (next p.shared c fault).1 (next p.shared c fault).2)

/-- A condition on the requests, and on the steps of the calls. -/
def Guarded (ok : Q → Prop) (guard : Pool S C R → ℕ → C → F → Prop) (p : Pool S C R) :
    Action Q F → Prop
  | .invoke _ q => ok q
  | .advance t fault =>
      match p.calls t with
      | none => True
      | some c => guard p t c fault

instance decidableGuarded {ok : Q → Prop} {guard : Pool S C R → ℕ → C → F → Prop}
    [∀ q, Decidable (ok q)] [∀ p t c fault, Decidable (guard p t c fault)] :
    ∀ p a, Decidable (Guarded ok guard p a)
  | _, .invoke _ q => inferInstanceAs (Decidable (ok q))
  | p, .advance t fault =>
      match h : p.calls t with
      | none => isTrue (by simp only [Guarded, h])
      | some c => decidable_of_iff (guard p t c fault) (by simp only [Guarded, h])

variable {enter next}

/-- **What a step does**: a thread that is in no call enters one, or a call takes its next step. -/
theorem step_cases {p p' : Pool S C R} {a : Action Q F} (h : step enter next p a = some p') :
    (∃ t q, a = .invoke t q ∧ p.calls t = none ∧ p' = p.settle t p.shared (.inl (enter q))) ∨
    ∃ t fault c, a = .advance t fault ∧ p.calls t = some c ∧
      p' = p.settle t (next p.shared c fault).1 (next p.shared c fault).2 := by
  cases a with
  | invoke t q =>
    rcases ht : p.calls t with _ | c
    · simp only [step, ht] at h
      exact Or.inl ⟨t, q, rfl, ht, (Option.some.inj h).symm⟩
    · simp [step, ht] at h
  | advance t fault =>
    rcases ht : p.calls t with _ | c
    · simp [step, ht] at h
    · simp only [step, ht] at h
      exact Or.inr ⟨t, fault, c, rfl, ht, (Option.some.inj h).symm⟩

/-- **The rule for pools, with a countdown.** -/
theorem countdown {P : ℕ → Pool S C R → Prop} {ok : Q → Prop}
    {guard : Pool S C R → ℕ → C → F → Prop}
    (hinvoke : ∀ n p t q, P (n + 1) p → p.calls t = none → ok q →
      P n (p.settle t p.shared (.inl (enter q))))
    (hadvance : ∀ n p t c fault, P (n + 1) p → p.calls t = some c → guard p t c fault →
      P n (p.settle t (next p.shared c fault).1 (next p.shared c fault).2))
    {p p' : Pool S C R} {as : List (Action Q F)} (hp : P as.length p)
    (hmeets : Transition.Meets (step enter next) (Guarded ok guard) p as)
    (hrun : Transition.run (step enter next) p as = some p') : P 0 p' := by
  refine Transition.countdown (fun n p a p' hp hc ha => ?_) hp hmeets hrun
  obtain ⟨t, q, rfl, ht, rfl⟩ | ⟨t, fault, c, rfl, ht, rfl⟩ := step_cases ha
  · exact hinvoke n p t q hp ht hc
  · simp only [Guarded, ht] at hc
    exact hadvance n p t c fault hp ht hc

end Steps

/-! ### The calls that are running -/

/-- Something holds of every running call. -/
def All (A : C → Prop) (p : Pool S C R) : Prop := ∀ t c, p.calls t = some c → A c

/-- Some thread is in a call of which something holds. -/
def Some (A : C → Prop) (p : Pool S C R) : Prop := ∃ t c, p.calls t = some c ∧ A c

/-- What is asked of the call that goes on. -/
theorem forall_of_inl {A : C → Prop} {c : C} (h : A c) :
    ∀ d, (Sum.inl c : C ⊕ R) = Sum.inl d → A d := by
  intro d hd
  obtain rfl := Sum.inl.inj hd
  exact h

theorem all_idle (A : C → Prop) (s : S) : (idle s : Pool S C R).All A :=
  fun _ _ h => nomatch h

@[simp] theorem settle_shared (p : Pool S C R) (t : ℕ) (s : S) (r : C ⊕ R) :
    (p.settle t s r).shared = s := by
  cases r <;> rfl

@[simp] theorem settle_answers_inl (p : Pool S C R) (t : ℕ) (s : S) (c : C) :
    (p.settle t s (.inl c)).answers = p.answers := rfl

@[simp] theorem settle_answers_inr (p : Pool S C R) (t : ℕ) (s : S) (r : R) :
    (p.settle t s (.inr r)).answers = p.answers ++ [r] := rfl

theorem settle_calls_self (p : Pool S C R) (t : ℕ) (s : S) (r : C ⊕ R) :
    (p.settle t s r).calls t = r.getLeft? := by
  cases r <;> exact Function.update_self ..

theorem settle_calls_of_ne (p : Pool S C R) {t u : ℕ} (h : u ≠ t) (s : S) (r : C ⊕ R) :
    (p.settle t s r).calls u = p.calls u := by
  cases r <;> exact Function.update_of_ne h ..

/-- A call of a pool after a step is the one that moved, or was there before. -/
theorem settle_calls_cases {p : Pool S C R} {t u : ℕ} {s : S} {r : C ⊕ R} {c : C}
    (h : (p.settle t s r).calls u = some c) : u = t ∧ r = .inl c ∨ u ≠ t ∧ p.calls u = some c := by
  by_cases hu : u = t
  · rw [hu, settle_calls_self] at h
    cases r with
    | inl c' =>
      obtain rfl : c' = c := Option.some.inj h
      exact Or.inl ⟨hu, rfl⟩
    | inr r => cases h
  · rw [settle_calls_of_ne p hu] at h
    exact Or.inr ⟨hu, h⟩

/-- **An assertion about every call, after a step**: of the call that moved, and of the others. -/
theorem All.settle {A B : C → Prop} {p : Pool S C R} {t : ℕ} {s : S} {r : C ⊕ R} (h : p.All A)
    (hself : ∀ c, r = .inl c → B c)
    (hothers : ∀ u c, u ≠ t → p.calls u = some c → A c → B c) : (p.settle t s r).All B := by
  intro u c hc
  rcases settle_calls_cases hc with ⟨-, hr⟩ | ⟨hu, hc⟩
  · exact hself c hr
  · exact hothers u c hu hc (h u c hc)

/-- A call of which something holds is the one that moves, or is there after the step. -/
theorem Some.settle {A : C → Prop} {p : Pool S C R} (h : p.Some A) (t : ℕ) (s : S) (r : C ⊕ R) :
    (∃ c, p.calls t = some c ∧ A c) ∨ (p.settle t s r).Some A := by
  obtain ⟨u, c, hu, hc⟩ := h
  by_cases hut : u = t
  · exact Or.inl ⟨c, hut ▸ hu, hc⟩
  · exact Or.inr ⟨u, c, (p.settle_calls_of_ne hut s r).trans hu, hc⟩

/-! ### A call that nobody interrupts -/

section Solo

variable (next : S → C → F → S × (C ⊕ R))

/-- The steps of one call, one after the other, until it answers or the list ends. -/
def solo : List F → S → C → S × (C ⊕ R)
  | [], s, c => (s, .inl c)
  | fault :: faults, s, c =>
      match next s c fault with
      | (s, .inl c) => solo faults s c
      | (s, .inr r) => (s, .inr r)

variable {next}

theorem settle_settle_inl (p : Pool S C R) (t : ℕ) (s s' : S) (c : C) (r : C ⊕ R) :
    (p.settle t s (.inl c)).settle t s' r = p.settle t s' r := by
  cases r <;> simp [settle]

/-- **A call that nobody interrupts** ends as if it were one step. -/
theorem run_solo (enter : Q → C) {p : Pool S C R} {t : ℕ} {c : C} (ht : p.calls t = some c)
    {faults : List F} {s : S} {r : R} (h : solo next faults p.shared c = (s, .inr r)) :
    ∃ k, Transition.run (step enter next) p ((faults.take k).map (.advance t)) =
      some (p.settle t s (.inr r)) := by
  induction faults generalizing p c with
  | nil => exact absurd (Prod.mk.inj h).2 (by simp)
  | cons fault faults ih =>
    rw [solo] at h
    have hstep : step enter next p (.advance t fault) =
        some (p.settle t (next p.shared c fault).1 (next p.shared c fault).2) := by
      simp only [step, ht]
    rcases hn : next p.shared c fault with ⟨s', c' | r'⟩
    · rw [hn] at h hstep
      obtain ⟨k, hk⟩ := ih (p := p.settle t s' (.inl c')) (by rw [settle_calls_self]; rfl)
        (by rw [settle_shared]; exact h)
      refine ⟨k + 1, ?_⟩
      rw [List.take_succ_cons, List.map_cons, Transition.run, hstep, Option.bind_some, hk,
        settle_settle_inl]
    · rw [hn] at h hstep
      obtain ⟨rfl, hr⟩ := Prod.mk.inj h
      obtain rfl := Sum.inr.inj hr
      exact ⟨1, by rw [List.take_succ_cons, List.take_zero]; simp [Transition.run, hstep]⟩

end Solo

end Pool

end SonicBrew
