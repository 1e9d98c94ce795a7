import Mathlib.Data.Nat.Notation
import Mathlib.Logic.Basic

/-!
# Runs of a transition system

A system given by a partial step function: an action either is possible in a state, and
then there is one next state, or is not. Threads that interleave make such a system, an action
naming the thread that moves and what it meets; a run is then a schedule, and quantifying over
all lists of actions is quantifying over all interleavings.

The rules at the end are how invariants of a run are proved: what every step preserves
holds in every state reached, and what every step *that meets a condition* preserves holds in
every state reached by a run that meets it throughout – also if the invariant counts down the
actions that are left, which is how a bound on the length of a run enters. When a step keeps the
property *exactly* if it meets the condition, so does the run (`always_iff_meets`). An invariant may
also speak of what has been seen of the run so far, action by action (`observed`,
`invariant_observed`). If what is seen are the actions of another system, which follows the first
one step by step, it is a run of that system (`run_observed`, `observed_observed`).
-/

namespace SonicBrew

namespace Transition

variable {S A : Type} (step : S → A → Option S)

/-- The state after a list of actions, if each of them is possible when its turn comes. -/
def run (s : S) : List A → Option S
  | [] => some s
  | a :: as => (step s a).bind fun s' => run s' as

/-- Every action of a run meets a condition on the state it is taken in. -/
def Meets (cond : S → A → Prop) : S → List A → Prop
  | _, [] => True
  | s, a :: as => cond s a ∧ ∀ s', step s a = some s' → Meets cond s' as

/-- Every state that a run passes through has a property. -/
def Always (P : S → Prop) (s : S) (as : List A) : Prop :=
  ∀ done, done <+: as → ∀ t, run step s done = some t → P t

variable {step}

theorem run_cons {s t : S} {a : A} {as : List A} (h : run step s (a :: as) = some t) :
    ∃ s', step s a = some s' ∧ run step s' as = some t := Option.bind_eq_some_iff.mp h

theorem run_of_step {s s' : S} {a : A} (h : step s a = some s') (as : List A) :
    run step s (a :: as) = run step s' as := by
  rw [run, h, Option.bind_some]

theorem run_append (s : S) (as bs : List A) :
    run step s (as ++ bs) = (run step s as).bind fun s' => run step s' bs := by
  induction as generalizing s with
  | nil => rfl
  | cons a as ih =>
    cases ha : step s a with
    | none => simp [run, ha]
    | some s' => simp [run, ha, ih]

/-- One action that meets the condition, and then a run that does. -/
theorem meets_cons {cond : S → A → Prop} {s s' : S} {a : A} {as : List A} (hc : cond s a)
    (ha : step s a = some s') (h : Meets step cond s' as) : Meets step cond s (a :: as) := by
  refine ⟨hc, fun t ht => ?_⟩
  obtain rfl : s' = t := Option.some.inj (ha.symm.trans ht)
  exact h

/-- A run that meets the condition does so in both of its parts. -/
theorem meets_append {cond : S → A → Prop} {s t : S} {as bs : List A}
    (h : Meets step cond s (as ++ bs)) (hrun : run step s as = some t) :
    Meets step cond s as ∧ Meets step cond t bs := by
  induction as generalizing s with
  | nil =>
    obtain rfl : s = t := Option.some.inj hrun
    exact ⟨trivial, h⟩
  | cons a as ih =>
    obtain ⟨s', ha, hrest⟩ := run_cons hrun
    obtain ⟨has, hbs⟩ := ih (h.2 s' ha) hrest
    exact ⟨meets_cons h.1 ha has, hbs⟩

/-- Whether a given run meets a decidable condition can be computed. -/
instance decidableMeets {cond : S → A → Prop} [∀ s a, Decidable (cond s a)] :
    ∀ s as, Decidable (Meets step cond s as)
  | _, [] => isTrue trivial
  | s, a :: as =>
      match h : step s a with
      | none =>
          decidable_of_iff (cond s a)
            ⟨fun hc => ⟨hc, fun _ ht => nomatch h.symm.trans ht⟩, And.left⟩
      | some s' =>
          have : Decidable (Meets step cond s' as) := decidableMeets s' as
          decidable_of_iff (cond s a ∧ Meets step cond s' as)
            ⟨fun hc => meets_cons hc.1 h hc.2, fun hc => ⟨hc.1, hc.2 s' h⟩⟩

/-- **The guarded invariant rule with a countdown**: the invariant may speak of the number of
actions that are still to come. -/
theorem countdown {P : ℕ → S → Prop} {cond : S → A → Prop}
    (hstep : ∀ n s a s', P (n + 1) s → cond s a → step s a = some s' → P n s') {s t : S}
    {as : List A} (hs : P as.length s) (hmeets : Meets step cond s as)
    (h : run step s as = some t) : P 0 t := by
  induction as generalizing s with
  | nil =>
    obtain rfl : s = t := Option.some.inj h
    exact hs
  | cons a as ih =>
    obtain ⟨s', ha, hrest⟩ := run_cons h
    exact ih (hstep as.length s a s' hs hmeets.1 ha) (hmeets.2 s' ha) hrest

/-- **The guarded invariant rule.** -/
theorem invariant_of_meets {P : S → Prop} {cond : S → A → Prop}
    (hstep : ∀ s a s', P s → cond s a → step s a = some s' → P s') {s t : S} {as : List A}
    (hs : P s) (hmeets : Meets step cond s as) (h : run step s as = some t) : P t :=
  countdown (P := fun _ => P) (fun _ => hstep) hs hmeets h

/-- A condition on the actions alone. -/
theorem meets_of_forall {q : A → Prop} {as : List A} (h : ∀ a ∈ as, q a) (s : S) :
    Meets step (fun _ => q) s as := by
  induction as generalizing s with
  | nil => exact trivial
  | cons a as ih =>
    obtain ⟨ha, has⟩ := List.forall_mem_cons.mp h
    exact ⟨ha, fun s' _ => ih has s'⟩

/-- Every run meets a condition that is no condition. -/
theorem meets_true (s : S) (as : List A) : Meets step (fun _ _ => True) s as :=
  meets_of_forall (fun _ _ => trivial) s

/-- **The invariant rule.** -/
theorem invariant {P : S → Prop} (hstep : ∀ s a s', P s → step s a = some s' → P s') {s t : S}
    {as : List A} (hs : P s) (h : run step s as = some t) : P t :=
  invariant_of_meets (fun s a s' hp _ ha => hstep s a s' hp ha) hs (meets_true s as) h

/-- The first state, and then the rest of the run. -/
theorem always_cons {P : S → Prop} {s s' : S} {a : A} (ha : step s a = some s') (as : List A) :
    Always step P s (a :: as) ↔ P s ∧ Always step P s' as := by
  constructor
  · intro h
    refine ⟨h [] List.nil_prefix s rfl, fun done hdone t ht => ?_⟩
    exact h (a :: done) ((List.prefix_cons_inj a).mpr hdone) t ((run_of_step ha done).trans ht)
  · rintro ⟨hs, h⟩ (_ | ⟨b, done⟩) hdone t ht
    · obtain rfl : s = t := Option.some.inj ht
      exact hs
    · obtain ⟨rfl, hrest⟩ := List.cons_prefix_cons.mp hdone
      rw [run_of_step ha] at ht
      exact h done hrest t ht

/-- **A property that a step keeps exactly if it meets a condition**, in states with an invariant,
holds throughout a run exactly if the run meets the condition. -/
theorem always_iff_meets_of_invariant {I P : S → Prop} {cond : S → A → Prop}
    (hinv : ∀ s a s', I s → step s a = some s' → I s')
    (hstep : ∀ s a s', I s → P s → step s a = some s' → (P s' ↔ cond s a)) {s t : S}
    {as : List A} (hi : I s) (hs : P s) (hrun : run step s as = some t) :
    Always step P s as ↔ Meets step cond s as := by
  induction as generalizing s with
  | nil =>
    refine ⟨fun _ => trivial, fun _ done hdone u hu => ?_⟩
    obtain rfl := List.prefix_nil.mp hdone
    obtain rfl : s = u := Option.some.inj hu
    exact hs
  | cons a as ih =>
    obtain ⟨s', ha, hrest⟩ := run_cons hrun
    have hiff := hstep s a s' hi hs ha
    have hi' := hinv s a s' hi ha
    rw [always_cons ha]
    refine ⟨fun h => ?_, fun h => ⟨hs, ?_⟩⟩
    · have hs' : P s' := h.2 [] List.nil_prefix s' rfl
      exact meets_cons (hiff.mp hs') ha ((ih hi' hs' hrest).mp h.2)
    · exact (ih hi' (hiff.mpr h.1) hrest).mpr (h.2 s' ha)

/-- The same when nothing else has to be known of the states. -/
theorem always_iff_meets {P : S → Prop} {cond : S → A → Prop}
    (hstep : ∀ s a s', P s → step s a = some s' → (P s' ↔ cond s a)) {s t : S} {as : List A}
    (hs : P s) (hrun : run step s as = some t) :
    Always step P s as ↔ Meets step cond s as :=
  always_iff_meets_of_invariant (I := fun _ => True) (fun _ _ _ _ _ => trivial)
    (fun s a s' _ => hstep s a s') trivial hs hrun

/-! ### What a run shows -/

section Observed

variable {E : Type}

variable (step) in
/-- What is seen of a run, if an action in a state shows `e`. -/
def observed (e : S → A → List E) (s : S) : List A → List E
  | [] => []
  | a :: as => e s a ++ (step s a).elim [] fun s' => observed e s' as

variable {e : S → A → List E}

theorem observed_of_step {s s' : S} {a : A} (h : step s a = some s') (as : List A) :
    observed step e s (a :: as) = e s a ++ observed step e s' as := by
  rw [observed, h, Option.elim_some]

/-- What an action shows in whatever state it is taken can be read off the list of actions. -/
theorem observed_eq_flatMap {f : A → List E} {s t : S} {as : List A} (h : run step s as = some t) :
    observed step (fun _ a => f a) s as = as.flatMap f := by
  induction as generalizing s with
  | nil => rfl
  | cons a as ih =>
    obtain ⟨s', ha, hrest⟩ := run_cons h
    rw [observed_of_step ha, ih hrest, List.flatMap_cons]

/-- What a run shows of one kind, if it is seen from an action whether it shows that. -/
theorem mem_observed_iff {x : E} {q : A → Prop} (hx : ∀ s a, x ∈ e s a ↔ q a) {s t : S}
    {as : List A} (h : run step s as = some t) : x ∈ observed step e s as ↔ ∃ a ∈ as, q a := by
  induction as generalizing s with
  | nil => simp [observed]
  | cons a as ih =>
    obtain ⟨s', ha, hrest⟩ := run_cons h
    rw [observed_of_step ha, List.mem_append, hx, ih hrest]
    simp only [List.mem_cons, exists_eq_or_imp]

/-- **The guarded invariant rule with a history**: the invariant may speak of what has been seen so
far. -/
theorem invariant_observed {P : S → List E → Prop} {cond : S → A → Prop}
    (hstep : ∀ s seen a s', P s seen → cond s a → step s a = some s' → P s' (seen ++ e s a))
    {s t : S} {seen : List E} {as : List A} (hs : P s seen) (hmeets : Meets step cond s as)
    (h : run step s as = some t) : P t (seen ++ observed step e s as) := by
  induction as generalizing s seen with
  | nil =>
    obtain rfl : s = t := Option.some.inj h
    rw [observed, List.append_nil]
    exact hs
  | cons a as ih =>
    obtain ⟨s', ha, hrest⟩ := run_cons h
    rw [observed_of_step ha, ← List.append_assoc]
    exact ih (hstep s seen a s' hs hmeets.1 ha) (hmeets.2 s' ha) hrest

/-- What is seen of the parts of a run. -/
theorem observed_append {s t : S} {as : List A} (h : run step s as = some t) (bs : List A) :
    observed step e s (as ++ bs) = observed step e s as ++ observed step e t bs := by
  induction as generalizing s with
  | nil =>
    obtain rfl : s = t := Option.some.inj h
    rfl
  | cons a as ih =>
    obtain ⟨s', ha, hrest⟩ := run_cons h
    rw [List.cons_append, observed_of_step ha, observed_of_step ha, ih hrest, List.append_assoc]

/-- Some of what is seen. -/
theorem filterMap_observed {E' : Type} (f : E → Option E') (s : S) (as : List A) :
    (observed step e s as).filterMap f = observed step (fun s a => (e s a).filterMap f) s as := by
  induction as generalizing s with
  | nil => rfl
  | cons a as ih =>
    rw [observed, observed, List.filterMap_append]
    cases step s a with
    | none => rfl
    | some s' => rw [Option.elim_some, Option.elim_some, ih]

variable {S' A' : Type} {step' : S' → A' → Option S'} {f : S → S'} {g : S → A → List A'}

/-- **A system that follows another one step by step**: what it does along a run is a run. -/
theorem run_observed
    (hstep : ∀ s a s', step s a = some s' → run step' (f s) (g s a) = some (f s')) {s t : S}
    {as : List A} (h : run step s as = some t) :
    run step' (f s) (observed step g s as) = some (f t) := by
  induction as generalizing s with
  | nil =>
    obtain rfl : s = t := Option.some.inj h
    rfl
  | cons a as ih =>
    obtain ⟨s', ha, hrest⟩ := run_cons h
    rw [observed_of_step ha, run_append, hstep s a s' ha]
    exact ih hrest

/-- What is seen of the run that follows can be seen step by step of the one that is followed. -/
theorem observed_observed
    (hstep : ∀ s a s', step s a = some s' → run step' (f s) (g s a) = some (f s'))
    {e : S' → A' → List E} {s t : S} {as : List A} (h : run step s as = some t) :
    observed step' e (f s) (observed step g s as) =
      observed step (fun s a => observed step' e (f s) (g s a)) s as := by
  induction as generalizing s with
  | nil => rfl
  | cons a as ih =>
    obtain ⟨s', ha, hrest⟩ := run_cons h
    rw [observed_of_step ha, observed_of_step ha, observed_append (hstep s a s' ha), ih hrest]

end Observed

end Transition

end SonicBrew
