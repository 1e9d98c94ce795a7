import Mathlib.Data.List.Nodup
import Mathlib.Data.List.Range
import SonicBrew.Lib.Blocks
import SonicBrew.Lib.Machine

/-!
# Lanes

A machine that keeps several signals apart: each input is for one lane, and what it does there
leaves the other lanes as they are (`SonicBrew.Lanes.Bank`). The inputs come in blocks of equal
length, one for each lane, and are worked off lane by lane (`SonicBrew.Lanes.runLanes`).

Seen from one lane nothing else happens (`SonicBrew.Lanes.Bank.runLanes`).
-/

namespace SonicBrew

namespace Lanes

open Machine

variable {σ τ α β : Type}

/-- Lane after lane, and in each of them input after input. -/
def runLanes (advance : σ → α → ℕ → Option (σ × β)) (k lanes : ℕ) (inputs : List α) (s : σ) :
    Option (σ × List (List β)) :=
  runAll (fun s c => runAll (fun s x => advance s x c) s (block k c inputs)) s (List.range lanes)

/-- **A bank of lanes.** `R s c t` says that the lane `c` of the machine is in the state `t`. A step
in a lane is one that `Step` allows there, and leaves the other lanes alone. -/
structure Bank (R : σ → ℕ → τ → Prop) (P : α → Prop) (advance : σ → α → ℕ → Option (σ × β))
    (Step : τ → α → τ → β → Prop) : Prop where
  follow : ∀ {s c t x}, R s c t → P x →
    ∃ s' t' y, advance s x c = some (s', y) ∧ Step t x t' y ∧ R s' c t' ∧
      ∀ d u, d ≠ c → R s d u → R s' d u

variable {R : σ → ℕ → τ → Prop} {P : α → Prop} {advance : σ → α → ℕ → Option (σ × β)}
  {Step : τ → α → τ → β → Prop}

/-- A bank with one possible step in every lane. -/
theorem Bank.of_step {step : τ → α → τ × β}
    (h : ∀ {s c t} x, R s c t →
      ∃ s', advance s x c = some (s', (step t x).2) ∧ R s' c (step t x).1 ∧
        ∀ d u, d ≠ c → R s d u → R s' d u) :
    Bank R (fun _ => True) advance fun t x u y => step t x = (u, y) where
  follow {s c t x} hR _ := by
    obtain ⟨s', hs', hR', hframe⟩ := h x hR
    exact ⟨s', (step t x).1, (step t x).2, hs', rfl, hR', hframe⟩

/-- All inputs of one lane. -/
theorem Bank.runLane (h : Bank R P advance Step) {s : σ} {c : ℕ} {t : τ} {xs : List α}
    (hR : R s c t) (hP : ∀ x ∈ xs, P x) :
    ∃ s' t' ys, runAll (fun s x => advance s x c) s xs = some (s', ys) ∧
      Trace Step t xs ys t' ∧ R s' c t' ∧ ∀ d u, d ≠ c → R s d u → R s' d u := by
  -- what is kept from step to step: the state of this lane, and the others as they were at first
  refine runAll_of_simulates Step
    (R := fun s' t' => R s' c t' ∧ ∀ d u, d ≠ c → R s d u → R s' d u)
    (fun {s₁ t₁ x} hkeep hx => ?_) ⟨hR, fun _ _ _ hd => hd⟩ hP
  obtain ⟨hR₁, hframe₁⟩ := hkeep
  obtain ⟨s₂, t₂, y, hstep, hallowed, hR₂, hframe₂⟩ := h.follow hR₁ hx
  exact ⟨s₂, t₂, y, hstep, hallowed, hR₂, fun d u hd hu => hframe₂ d u hd (hframe₁ d u hd hu)⟩

/-- What working off one lane does to the states of all. -/
def LaneStep (Step : τ → α → τ → β → Prop) (inputs : ℕ → List α) (T : ℕ → τ) (c : ℕ) (T' : ℕ → τ)
    (ys : List β) : Prop :=
  Trace Step (T c) (inputs c) ys (T' c) ∧ ∀ d, d ≠ c → T' d = T d

/-- **Each lane is worked off once**, and those that are not in the list stay. -/
theorem trace_laneStep {inputs : ℕ → List α} {T T' : ℕ → τ} {cs : List ℕ} {outs : List (List β)}
    (h : Trace (LaneStep Step inputs) T cs outs T') (hcs : cs.Nodup) :
    (∀ (i : ℕ), ∀ c ∈ cs[i]?, ∃ ys ∈ outs[i]?, Trace Step (T c) (inputs c) ys (T' c)) ∧
      ∀ c, c ∉ cs → T' c = T c := by
  induction h with
  | nil T => exact ⟨fun _ _ hc => by simp at hc, fun _ _ => rfl⟩
  | @cons T T₁ T' c ys cs outs head tail ih =>
    obtain ⟨hc, hcs⟩ := List.nodup_cons.mp hcs
    obtain ⟨hrest, hkeep⟩ := ih hcs
    obtain ⟨hfirst, hothers⟩ := head
    refine ⟨fun i d hd => ?_, fun d hd => ?_⟩
    · cases i with
      | zero =>
        obtain rfl : c = d := Option.some.inj hd
        exact ⟨ys, rfl, by rwa [hkeep c hc]⟩
      | succ i =>
        have hne : d ≠ c := fun heq => hc (heq ▸ List.mem_of_getElem? hd)
        rw [← hothers d hne]
        exact hrest i d hd
    · rw [List.mem_cons, not_or] at hd
      rw [hkeep d hd.2, hothers d hd.1]

/-- **A block for each of the first lanes**, seen from the lanes. -/
theorem Bank.runLanes (h : Bank R P advance Step) {limit lanes k : ℕ} {s : σ} {T : ℕ → τ}
    (inputs : List α) (hR : ∀ c < limit, R s c (T c)) (hlanes : lanes ≤ limit)
    (hP : ∀ c < lanes, ∀ x ∈ block k c inputs, P x) :
    ∃ (s' : σ) (T' : ℕ → τ) (outs : List (List β)),
      runLanes advance k lanes inputs s = some (s', outs) ∧
      (∀ c < limit, R s' c (T' c)) ∧ outs.length = lanes ∧
      (∀ c < lanes, ∃ ys ∈ outs[c]?, Trace Step (T c) (block k c inputs) ys (T' c)) ∧
      ∀ c, lanes ≤ c → T' c = T c := by
  obtain ⟨s', T', outs, hrun, htrace, hR'⟩ :=
    runAll_of_simulates (LaneStep Step fun c => block k c inputs) (P := (· < lanes))
      (R := fun s T => ∀ c < limit, R s c (T c))
      (fun {s₁ T₁ c} hR₁ hc => by
        obtain ⟨s₂, t₂, ys, hrun, htrace, hR₂, hframe⟩ :=
          h.runLane (hR₁ c (Nat.lt_of_lt_of_le hc hlanes)) (hP c hc)
        refine ⟨s₂, Function.update T₁ c t₂, ys, hrun, ⟨?_, fun d hd => ?_⟩, fun d hd => ?_⟩
        · rwa [Function.update_self]
        · exact Function.update_of_ne hd _ _
        · rcases eq_or_ne d c with rfl | hne
          · rwa [Function.update_self]
          · rw [Function.update_of_ne hne]
            exact hframe d _ hne (hR₁ d hd))
      hR (fun c hc => List.mem_range.mp hc)
  obtain ⟨hdone, hkeep⟩ := trace_laneStep htrace List.nodup_range
  refine ⟨s', T', outs, hrun, hR', ?_, fun c hc => ?_, fun c hc => hkeep c ?_⟩
  · rw [← htrace.length_eq, List.length_range]
  · exact hdone c c (List.getElem?_range hc)
  · rw [List.mem_range]
    omega

end Lanes

end SonicBrew
