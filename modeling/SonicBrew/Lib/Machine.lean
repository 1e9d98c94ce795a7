import Mathlib.Algebra.GroupWithZero.Nat
import Mathlib.Data.List.Basic
import Mathlib.Logic.Function.Iterate

/-!
# Machines that answer every input

A machine takes an input, changes its state and gives one output. The machines of a program may
stop in the middle (`SonicBrew.Machine.runAll`); those that say what a program is for do not, and
what they answer is known from the signal of all inputs (`SonicBrew.Machine.response`).

The two are compared step by step. If the program can follow every step of a relation, it follows a
whole list of inputs (`SonicBrew.Machine.runAll_of_simulates`), and its outputs are then those of a
`SonicBrew.Machine.Trace`. A trace of a list that is cut somewhere is two traces, so nothing depends
on the cuts.
-/

namespace SonicBrew

namespace Machine

variable {σ τ α β : Type}

/-- All inputs one after the other, as long as no step fails. -/
def runAll (step : σ → α → Option (σ × β)) : σ → List α → Option (σ × List β)
  | s, [] => some (s, [])
  | s, x :: xs => do
      let (s, y) ← step s x
      let (s, ys) ← runAll step s xs
      return (s, y :: ys)

/-- **Inputs, outputs, and the states in between**, each step as a relation allows it. -/
inductive Trace (Step : τ → α → τ → β → Prop) : τ → List α → List β → τ → Prop where
  | nil (t : τ) : Trace Step t [] [] t
  | cons {t u v : τ} {x : α} {y : β} {xs : List α} {ys : List β} (head : Step t x u y)
      (tail : Trace Step u xs ys v) : Trace Step t (x :: xs) (y :: ys) v

section Trace

variable {Step : τ → α → τ → β → Prop} {t u v : τ} {xs xs' : List α} {ys ys' : List β}

theorem Trace.append (h : Trace Step t xs ys u) (h' : Trace Step u xs' ys' v) :
    Trace Step t (xs ++ xs') (ys ++ ys') v := by
  induction h with
  | nil t => exact h'
  | cons head _ ih => exact .cons head (ih h')

theorem Trace.length_eq (h : Trace Step t xs ys u) : xs.length = ys.length := by
  induction h with
  | nil t => rfl
  | cons _ _ ih => rw [List.length_cons, List.length_cons, ih]

/-- What every step makes sure of its output holds of all outputs. -/
theorem Trace.forall_output {Q : β → Prop} (h : Trace Step t xs ys u)
    (hQ : ∀ {t x u y}, Step t x u y → Q y) : ∀ y ∈ ys, Q y := by
  induction h with
  | nil t => exact fun _ hy => absurd hy List.not_mem_nil
  | cons head _ ih => exact List.forall_mem_cons.mpr ⟨hQ head, ih⟩

end Trace

/-- **A machine that can follow one step follows them all.** The inputs it has to cope with are
those that satisfy `P`. -/
theorem runAll_of_simulates (Step : τ → α → τ → β → Prop) {step : σ → α → Option (σ × β)}
    {R : σ → τ → Prop} {P : α → Prop}
    (hstep : ∀ {s t x}, R s t → P x →
      ∃ s' t' y, step s x = some (s', y) ∧ Step t x t' y ∧ R s' t')
    {s : σ} {t : τ} {xs : List α} (hR : R s t) (hP : ∀ x ∈ xs, P x) :
    ∃ s' t' ys, runAll step s xs = some (s', ys) ∧ Trace Step t xs ys t' ∧ R s' t' := by
  induction xs generalizing s t with
  | nil => exact ⟨s, t, [], rfl, .nil t, hR⟩
  | cons x xs ih =>
    obtain ⟨hx, hxs⟩ := List.forall_mem_cons.mp hP
    obtain ⟨s₁, t₁, y, hs₁, ht₁, hR₁⟩ := hstep hR hx
    obtain ⟨s₂, t₂, ys, hs₂, ht₂, hR₂⟩ := ih hR₁ hxs
    refine ⟨s₂, t₂, y :: ys, ?_, .cons ht₁ ht₂, hR₂⟩
    simp only [runAll, hs₁, hs₂, Option.bind_eq_bind, Option.bind_some, Option.pure_def]

/-- **A loop that may fail**: what each round keeps holds at the end, and no round fails. -/
theorem foldlM_range_of_invariant {body : σ → ℕ → Option σ} (I : ℕ → σ → Prop) {s : σ} {n : ℕ}
    (hstep : ∀ i s, i < n → I i s → ∃ s', body s i = some s' ∧ I (i + 1) s') (h0 : I 0 s) :
    ∃ s', (List.range n).foldlM body s = some s' ∧ I n s' := by
  induction n with
  | zero => exact ⟨s, rfl, h0⟩
  | succ n ih =>
    obtain ⟨s₁, hs₁, hI₁⟩ := ih fun i s hi => hstep i s (Nat.lt_succ_of_lt hi)
    obtain ⟨s₂, hs₂, hI₂⟩ := hstep n s₁ (Nat.lt_succ_self n) hI₁
    refine ⟨s₂, ?_, hI₂⟩
    simp only [List.range_succ, List.foldlM_append, hs₁, List.foldlM_cons, hs₂, List.foldlM_nil,
      Option.bind_eq_bind, Option.bind_some, Option.pure_def]

/-- **A loop in a loop**, if the invariant counts the rounds of the inner one. -/
theorem foldlM_range_range_of_invariant {body : σ → ℕ → ℕ → Option σ} (I : ℕ → σ → Prop) {s : σ}
    {m n : ℕ}
    (hstep : ∀ i j s, i < m → j < n → I (i * n + j) s →
      ∃ s', body s i j = some s' ∧ I (i * n + j + 1) s') (h0 : I 0 s) :
    ∃ s', (List.range m).foldlM (fun s i => (List.range n).foldlM (fun s j => body s i j) s) s =
      some s' ∧ I (m * n) s' := by
  refine foldlM_range_of_invariant (fun i => I (i * n)) (fun i s hi hI => ?_) ?_
  · rw [Nat.succ_mul]
    exact foldlM_range_of_invariant (fun j => I (i * n + j)) (fun j s hj => hstep i j s hi hj) hI
  · rwa [Nat.zero_mul]

/-- Two calls that may fail, and do not. -/
theorem exists_bind {m : Option α} {f : α → Option β} {P : α → Prop} {Q : β → Prop}
    (hm : ∃ a, m = some a ∧ P a) (hf : ∀ a, P a → ∃ b, f a = some b ∧ Q b) :
    ∃ b, (m >>= f) = some b ∧ Q b := by
  obtain ⟨a, rfl, ha⟩ := hm
  exact hf a ha

/-- A list of calls that may fail, and do not. -/
theorem mapM_eq_some_map {f : α → Option β} {g : α → β} {xs : List α}
    (h : ∀ x ∈ xs, f x = some (g x)) : xs.mapM f = some (xs.map g) := by
  induction xs with
  | nil => rfl
  | cons x xs ih =>
    obtain ⟨hx, hxs⟩ := List.forall_mem_cons.mp h
    rw [List.mapM_cons, hx, ih hxs]
    rfl

/-! ### Machines with one answer -/

section Response

/-- The states of a machine that reads a signal. -/
def trajectory (step : τ → α → τ × β) (t : τ) (x : ℕ → α) : ℕ → τ
  | 0 => t
  | n + 1 => (step (trajectory step t x n) (x n)).1

/-- What it answers. -/
def response (step : τ → α → τ × β) (t : τ) (x : ℕ → α) (n : ℕ) : β :=
  (step (trajectory step t x n) (x n)).2

variable {step : τ → α → τ × β} {t u : τ} {x : ℕ → α}

/-- The states from the second on are those of the machine after its first step. -/
theorem trajectory_succ (n : ℕ) :
    trajectory step t x (n + 1) = trajectory step (step t (x 0)).1 (fun m => x (m + 1)) n := by
  induction n with
  | zero => rfl
  | succ n ih => rw [trajectory, ih, trajectory]

/-- **The outputs of a trace are the response to the signal of its inputs.** -/
theorem Trace.eq_map_response {xs : List α} {ys : List β}
    (h : Trace (fun t x u y => step t x = (u, y)) t xs ys u)
    (hx : ∀ n, ∀ v ∈ xs[n]?, x n = v) :
    ys = (List.range xs.length).map (response step t x) ∧ u = trajectory step t x xs.length := by
  induction h generalizing x with
  | nil t => exact ⟨rfl, rfl⟩
  | @cons t u v a y xs ys head tail ih =>
    obtain rfl : x 0 = a := hx 0 a rfl
    obtain ⟨hys, hu⟩ := ih (fun n v hv => hx (n + 1) v hv)
    have hfirst : (step t (x 0)).1 = u := congrArg Prod.fst head
    refine ⟨?_, ?_⟩
    · rw [List.length_cons, List.range_succ_eq_map, List.map_cons, List.map_map, hys]
      refine congrArg₂ List.cons (congrArg Prod.snd head).symm (List.map_congr_left fun n _ => ?_)
      rw [Function.comp_apply, response, response, trajectory_succ, hfirst]
    · rw [List.length_cons, trajectory_succ, hfirst, hu]

end Response

end Machine

end SonicBrew
