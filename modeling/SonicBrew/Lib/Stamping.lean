import Mathlib.Algebra.Group.Basic
import Mathlib.Algebra.BigOperators.Group.List.Basic
import Mathlib.Data.List.Chain

/-!
# Stamps from a clock

A party stamps what it sends. It has a clock; each attempt at sending takes the time of the clock
and moves the clock on by an amount that depends on what is to be sent. Some attempts are refused,
and nothing is sent then; but the clock has moved.

If none is refused, a stamp is the sum of the amounts before it
(`SonicBrew.Stamping.getElem?_sent`). In general, the stamps of what is sent follow each other, each
later than the one before by the amount of that one, exactly if the amounts of the refused attempts
between any two of them cancel (`SonicBrew.Stamping.consecutive_sent_iff`).

The last section is about a party that is a state machine with such a clock in its state
(`SonicBrew.Stamping.emitted_eq`).
-/

namespace SonicBrew

namespace Stamping

variable {C K : Type}

/-- What is sent, and its stamps, from attempts of which some are refused. -/
def sent [Add K] (d : C → K) (k : K) : List (C × Bool) → List (C × K)
  | [] => []
  | (c, true) :: rest => (c, k) :: sent d (k + d c) rest
  | (c, false) :: rest => sent d (k + d c) rest

/-- Each stamp is later than the one before by the amount of that one. -/
def Consecutive [Add K] (d : C → K) (stamped : List (C × K)) : Prop :=
  stamped.IsChain fun p q => q.2 = p.2 + d p.1

variable [AddCommGroup K] (d : C → K)

/-- What a row of attempts moves the clock by. -/
def total (attempts : List (C × Bool)) : K := (attempts.map fun a => d a.1).sum

@[simp] theorem total_nil : total d [] = 0 := rfl

@[simp] theorem total_cons (a : C × Bool) (rest : List (C × Bool)) :
    total d (a :: rest) = d a.1 + total d rest := List.sum_cons

/-- From here on to the first attempt that is not refused, the amounts cancel. -/
def FirstBalanced (attempts : List (C × Bool)) : Prop :=
  ∀ mid b post, attempts = mid ++ (b, true) :: post → (∀ m ∈ mid, m.2 = false) → total d mid = 0

/-- **The amounts of the refused attempts cancel** between any two that are not refused. -/
def Balanced (attempts : List (C × Bool)) : Prop :=
  ∀ pre a rest, attempts = pre ++ (a, true) :: rest → FirstBalanced d rest

variable {d}

/-! ### Without refusals -/

/-- **The stamp of the `n`-th is the sum of the amounts before it.** -/
theorem getElem?_sent {attempts : List (C × Bool)} (h : ∀ a ∈ attempts, a.2 = true) (k : K)
    (n : ℕ) : (sent d k attempts)[n]? =
      attempts[n]?.map fun a => (a.1, k + total d (attempts.take n)) := by
  induction attempts generalizing k n with
  | nil => rfl
  | cons a rest ih =>
    obtain ⟨c, passed⟩ := a
    obtain rfl : passed = true := h _ List.mem_cons_self
    rw [sent]
    cases n with
    | zero => rw [List.getElem?_cons_zero, List.getElem?_cons_zero, List.take_zero, total_nil,
        add_zero, Option.map_some]
    | succ n =>
      rw [List.getElem?_cons_succ, List.getElem?_cons_succ, List.take_succ_cons, total_cons,
        ← add_assoc, ih fun a ha => h a (List.mem_cons_of_mem _ ha)]

/-! ### With refusals -/

/-- Attempts that are refused only move the clock. -/
theorem sent_refused_append {mid : List (C × Bool)} (h : ∀ m ∈ mid, m.2 = false) (k : K)
    (rest : List (C × Bool)) : sent d k (mid ++ rest) = sent d (k + total d mid) rest := by
  induction mid generalizing k with
  | nil => rw [List.nil_append, total_nil, add_zero]
  | cons a mid ih =>
    obtain ⟨c, passed⟩ := a
    obtain rfl : passed = false := h _ List.mem_cons_self
    rw [List.cons_append, sent, total_cons, ← add_assoc,
      ih fun m hm => h m (List.mem_cons_of_mem _ hm)]

/-- Either all attempts are refused, or there is a first one that is not. -/
theorem refused_or_first (attempts : List (C × Bool)) :
    (∀ a ∈ attempts, a.2 = false) ∨
      ∃ mid b post, attempts = mid ++ (b, true) :: post ∧ ∀ m ∈ mid, m.2 = false := by
  induction attempts with
  | nil => exact Or.inl fun a ha => absurd ha List.not_mem_nil
  | cons a rest ih =>
    obtain ⟨c, _ | _⟩ := a
    · obtain hall | ⟨mid, b, post, rfl, hmid⟩ := ih
      · exact Or.inl (List.forall_mem_cons.mpr ⟨rfl, hall⟩)
      · exact Or.inr ⟨(c, false) :: mid, b, post, rfl, List.forall_mem_cons.mpr ⟨rfl, hmid⟩⟩
    · exact Or.inr ⟨[], c, rest, rfl, fun m hm => absurd hm List.not_mem_nil⟩

/-- The next one that is sent, if there is one. -/
theorem forall_head?_sent_iff (k : K) (attempts : List (C × Bool)) :
    (∀ q ∈ (sent d k attempts).head?, q.2 = k) ↔ FirstBalanced d attempts := by
  obtain hall | ⟨mid, b, post, rfl, hmid⟩ := refused_or_first attempts
  · have hnone : sent d k attempts = [] := by
      rw [← List.append_nil attempts, sent_refused_append hall, sent]
    refine iff_of_true (fun q hq => ?_) fun mid b post heq _ => ?_
    · rw [hnone] at hq
      exact absurd hq (Option.not_mem_none q)
    · have hb : (b, true) ∈ attempts := heq ▸ List.mem_append_right _ List.mem_cons_self
      exact absurd (hall _ hb).symm Bool.false_ne_true
  · rw [sent_refused_append hmid, sent, List.head?_cons]
    constructor
    · intro h mid' b' post' heq hmid'
      have hstamp : k + total d mid = k := h _ rfl
      -- the first that is not refused is at one place only
      have hsame : mid' = mid := by
        obtain ⟨l, rfl, hl⟩ | ⟨l, rfl, hl⟩ := List.append_eq_append_iff.mp heq
        · rcases l with _ | ⟨e, l⟩
          · exact List.append_nil mid
          · obtain ⟨rfl, -⟩ := List.cons_eq_cons.mp hl
            exact absurd (hmid' _ (List.mem_append_right _ List.mem_cons_self)).symm
              Bool.false_ne_true
        · rcases l with _ | ⟨e, l⟩
          · exact (List.append_nil mid').symm
          · obtain ⟨rfl, -⟩ := List.cons_eq_cons.mp hl
            exact absurd (hmid _ (List.mem_append_right _ List.mem_cons_self)).symm
              Bool.false_ne_true
      rw [hsame]
      exact add_eq_left.mp hstamp
    · intro h q hq
      obtain rfl := Option.some.inj hq
      show k + total d mid = k
      rw [h mid b post rfl hmid, add_zero]

theorem balanced_cons_false (c : C) (rest : List (C × Bool)) :
    Balanced d ((c, false) :: rest) ↔ Balanced d rest := by
  constructor
  · intro h pre a rest' heq
    exact h ((c, false) :: pre) a rest' (by rw [heq, List.cons_append])
  · intro h pre a rest' heq
    rcases pre with _ | ⟨e, pre⟩
    · exact absurd (congrArg Prod.snd (List.cons_eq_cons.mp heq).1) Bool.false_ne_true
    · exact h pre a rest' (List.cons_eq_cons.mp heq).2

theorem balanced_cons_true (c : C) (rest : List (C × Bool)) :
    Balanced d ((c, true) :: rest) ↔ FirstBalanced d rest ∧ Balanced d rest := by
  constructor
  · intro h
    refine ⟨h [] c rest rfl, fun pre a rest' heq => ?_⟩
    exact h ((c, true) :: pre) a rest' (by rw [heq, List.cons_append])
  · rintro ⟨hfirst, h⟩ pre a rest' heq
    rcases pre with _ | ⟨e, pre⟩
    · obtain ⟨-, rfl⟩ := List.cons_eq_cons.mp heq
      exact hfirst
    · exact h pre a rest' (List.cons_eq_cons.mp heq).2

/-- Where nothing is refused, there is nothing to cancel. -/
theorem balanced_of_forall {attempts : List (C × Bool)} (h : ∀ a ∈ attempts, a.2 = true) :
    Balanced d attempts := by
  rintro pre a _ rfl mid b post rfl hmid
  rcases mid with _ | ⟨m, mid⟩
  · exact total_nil d
  · have hm : m.2 = true :=
      h m (List.mem_append_right _ (List.mem_cons_of_mem _ List.mem_cons_self))
    rw [hmid m List.mem_cons_self] at hm
    exact absurd hm Bool.false_ne_true

/-- **What is sent is stamped in sequence exactly if refusals cancel.** -/
theorem consecutive_sent_iff (k : K) (attempts : List (C × Bool)) :
    Consecutive d (sent d k attempts) ↔ Balanced d attempts := by
  induction attempts generalizing k with
  | nil =>
    refine iff_of_true List.IsChain.nil fun pre a rest heq => ?_
    exact absurd heq.symm (List.append_ne_nil_of_right_ne_nil _ (List.cons_ne_nil _ _))
  | cons a rest ih =>
    obtain ⟨c, _ | _⟩ := a
    · rw [sent, balanced_cons_false]
      exact ih (k + d c)
    · rw [sent, balanced_cons_true, Consecutive, List.isChain_cons, forall_head?_sent_iff]
      exact and_congr_right fun _ => ih (k + d c)

/-! ### State machines with a clock -/

section Machine

variable {S E : Type} (step : S → C → S) (ready : S → C → Bool) (emit : S → C → Option E)

/-- The calls of a run, each with whether the state before it was ready for it. -/
def attempts (s : S) : List C → List (C × Bool)
  | [] => []
  | c :: cs => (c, ready s c) :: attempts (step s c) cs

/-- What the calls of a run emit, with the calls. -/
def emitted (s : S) : List C → List (C × E)
  | [] => []
  | c :: cs => ((emit s c).map (Prod.mk c)).toList ++ emitted (step s c) cs

variable {step ready emit}

theorem map_fst_attempts (s : S) (cs : List C) : (attempts step ready s cs).map Prod.fst = cs := by
  induction cs generalizing s with
  | nil => rfl
  | cons c cs ih => rw [attempts, List.map_cons, ih]

/-- A machine that is always ready refuses nothing. -/
theorem forall_attempts {cs : List C} (h : ∀ s, ∀ c ∈ cs, ready s c = true) (s : S) :
    ∀ a ∈ attempts step ready s cs, a.2 = true := by
  induction cs generalizing s with
  | nil => exact fun a ha => absurd ha List.not_mem_nil
  | cons c cs ih =>
    exact List.forall_mem_cons.mpr ⟨h s c List.mem_cons_self,
      ih (fun s c hc => h s c (List.mem_cons_of_mem _ hc)) _⟩

/-- **A machine that emits stamped calls** when it is ready, and moves its clock in any case. -/
theorem emitted_eq (Valid : S → Prop) (clock : S → K) (label : C → K → E)
    (hvalid : ∀ s c, Valid s → Valid (step s c))
    (hclock : ∀ s c, Valid s → clock (step s c) = clock s + d c)
    (hemit : ∀ s c, Valid s → emit s c = if ready s c then some (label c (clock s)) else none)
    {s : S} (hs : Valid s) (cs : List C) :
    emitted step emit s cs =
      (sent d (clock s) (attempts step ready s cs)).map fun p => (p.1, label p.1 p.2) := by
  induction cs generalizing s with
  | nil => rfl
  | cons c cs ih =>
    rw [emitted, attempts, hemit s c hs, ih (hvalid s c hs), hclock s c hs]
    cases hready : ready s c with
    | true => rfl
    | false => rfl

end Machine

end Stamping

end SonicBrew
