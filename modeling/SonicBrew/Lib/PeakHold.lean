import Mathlib.Data.List.Infix
import Mathlib.Order.Bounds.Basic

/-!
# Holding a peak

A register holds the greatest value that was offered to it since it was reset. An offer is not
taken at once: it is pending until the register is seen to be as great, or is raised to it, and in
the meantime the register may be reset. A reset hands out what was held.

Nothing is lost by this, and nothing is made up (`SonicBrew.PeakHold.Sound`). When no offer is
pending, the greatest value that was ever offered is held or was handed out
(`SonicBrew.PeakHold.Sound.isGreatest`); and what is handed out, if it is not the value after a
reset, was offered and taken since the reset before (`SonicBrew.PeakHold.Explained`).
-/

namespace SonicBrew

namespace PeakHold

variable {α : Type}

/-- What is held, and the offer that is pending. -/
structure State (α : Type) where
  held : α
  pending : Option α

/-- What can be seen of the register: an offer is made, an offer is taken, what was held is handed
out. -/
inductive Event (α : Type) where
  | offer (v : α)
  | update (v : α)
  | reset (v : α)
  deriving DecidableEq

/-! ### Histories -/

section Histories

variable {z : α}

/-- The last offer of a history. -/
def LastOffer (history : List (Event α)) (v : α) : Prop :=
  ∃ earlier later, history = earlier ++ .offer v :: later ∧ ∀ w, .offer w ∉ later

/-- **A value is explained by a history**: it is the value after a reset, or it was the last offer
when it was taken, and there was no reset since. -/
def Explained (z : α) (history : List (Event α)) (v : α) : Prop :=
  v = z ∨ ∃ earlier between since,
    history = earlier ++ .offer v :: (between ++ .update v :: since) ∧
      (∀ w, .offer w ∉ between) ∧ ∀ w, .reset w ∉ since

variable {history : List (Event α)} {v : α}

theorem Explained.offer (h : Explained z history v) (u : α) :
    Explained z (history ++ [.offer u]) v := by
  refine h.imp_right ?_
  rintro ⟨earlier, between, since, rfl, hbetween, hsince⟩
  refine ⟨earlier, between, since ++ [.offer u], by simp, hbetween, fun w hw => ?_⟩
  exact hsince w (by simpa using hw)

theorem LastOffer.reset (h : LastOffer history v) (u : α) :
    LastOffer (history ++ [.reset u]) v := by
  obtain ⟨earlier, later, rfl, hlater⟩ := h
  refine ⟨earlier, later ++ [.reset u], by simp, fun w hw => ?_⟩
  exact hlater w (by simpa using hw)

/-- The last offer is taken. -/
theorem LastOffer.explained (h : LastOffer history v) :
    Explained z (history ++ [.update v]) v := by
  obtain ⟨earlier, later, rfl, hlater⟩ := h
  exact Or.inr ⟨earlier, later, [], by simp, hlater, fun w => List.not_mem_nil⟩

theorem lastOffer_append (history : List (Event α)) (v : α) :
    LastOffer (history ++ [.offer v]) v := ⟨history, [], rfl, fun _ => List.not_mem_nil⟩

/-- An event that is no reset adds none. -/
theorem resets_append {e : Event α}
    (h : ∀ before v, before ++ [.reset v] <+: history → Explained z before v)
    (he : ∀ v, e ≠ .reset v) (before : List (Event α)) (v : α)
    (hpre : before ++ [.reset v] <+: history ++ [e]) : Explained z before v := by
  rcases List.prefix_concat_iff.mp hpre with heq | hpre
  · obtain ⟨-, hlast⟩ := List.append_inj' heq rfl
    exact absurd (List.cons.inj hlast).1.symm (he v)
  · exact h before v hpre

theorem Explained.eq_or_offer (h : Explained z history v) :
    v = z ∨ .offer v ∈ history := by
  refine h.imp_right ?_
  rintro ⟨earlier, between, since, rfl, -, -⟩
  simp

end Histories

/-! ### The register -/

variable [LinearOrder α] {z : α}

/-- **What can happen**, where `z` is the value after a reset. -/
inductive Step (z : α) : State α → List (Event α) → State α → Prop where
  | stay (s : State α) : Step z s [] s
  | offer (held : α) {v : α} (h : z ≤ v) : Step z ⟨held, none⟩ [.offer v] ⟨held, some v⟩
  | covered {held v : α} (h : v ≤ held) : Step z ⟨held, some v⟩ [] ⟨held, none⟩
  | update {held v : α} (h : held < v) : Step z ⟨held, some v⟩ [.update v] ⟨v, none⟩
  | reset (held : α) (pending : Option α) : Step z ⟨held, pending⟩ [.reset held] ⟨z, pending⟩

/-- **What is true of the register and its history.** -/
structure Sound (z : α) (s : State α) (history : List (Event α)) : Prop where
  le_of_offer : ∀ v, .offer v ∈ history → z ≤ v
  held : Explained z history s.held
  resets : ∀ before v, before ++ [.reset v] <+: history → Explained z before v
  pending : ∀ v, s.pending = some v → LastOffer history v
  covered : ∀ v, .offer v ∈ history →
    s.pending = some v ∨ ∃ w, (w = s.held ∨ .reset w ∈ history) ∧ v ≤ w

theorem sound_start : Sound z ⟨z, none⟩ ([] : List (Event α)) where
  le_of_offer _ h := absurd h List.not_mem_nil
  held := Or.inl rfl
  resets before v h := by
    have hlen := h.length_le
    rw [List.length_append] at hlen
    exact absurd hlen (by simp)
  pending _ h := by cases h
  covered _ h := absurd h List.not_mem_nil

/-- **Whatever happens, the history explains it.** -/
theorem Sound.step {s s' : State α} {history seen : List (Event α)} (hs : Sound z s history)
    (h : Step z s seen s') : Sound z s' (history ++ seen) := by
  cases h with
  | stay s => rwa [List.append_nil]
  | offer held hz =>
    rename_i v
    refine ⟨fun u hu => ?_, hs.held.offer v, resets_append hs.resets (by simp), fun u hu => ?_,
      fun u hu => ?_⟩
    · rcases List.mem_append.mp hu with hu | hu
      · exact hs.le_of_offer u hu
      · obtain rfl : u = v := by simpa using hu
        exact hz
    · obtain rfl : v = u := Option.some.inj hu
      exact lastOffer_append history v
    · rcases List.mem_append.mp hu with hu | hu
      · obtain ⟨w, hw, hle⟩ := (hs.covered u hu).resolve_left (by simp)
        exact Or.inr ⟨w, hw.imp_right (List.mem_append_left _), hle⟩
      · obtain rfl : u = v := by simpa using hu
        exact Or.inl rfl
  | covered hle =>
    rename_i held v
    rw [List.append_nil]
    refine ⟨hs.le_of_offer, hs.held, hs.resets, by simp, fun u hu => Or.inr ?_⟩
    rcases hs.covered u hu with hpending | hcovered
    · obtain rfl : v = u := Option.some.inj hpending
      exact ⟨held, Or.inl rfl, hle⟩
    · exact hcovered
  | update hlt =>
    rename_i held v
    have hlast : LastOffer history v := hs.pending v rfl
    refine ⟨fun u hu => hs.le_of_offer u (by simpa using hu), hlast.explained,
      resets_append hs.resets (by simp), by simp, fun u hu => Or.inr ?_⟩
    rcases hs.covered u (by simpa using hu) with hpending | ⟨w, rfl | hw, hle⟩
    · obtain rfl : v = u := Option.some.inj hpending
      exact ⟨v, Or.inl rfl, le_rfl⟩
    · exact ⟨v, Or.inl rfl, hle.trans hlt.le⟩
    · exact ⟨w, Or.inr (List.mem_append_left _ hw), hle⟩
  | reset held pending =>
    refine ⟨fun u hu => hs.le_of_offer u (by simpa using hu), Or.inl rfl, fun before v hpre => ?_,
      fun u hu => (hs.pending u hu).reset held, fun u hu => ?_⟩
    · rcases List.prefix_concat_iff.mp hpre with heq | hpre
      · obtain ⟨rfl, hlast⟩ := List.append_inj' heq rfl
        obtain rfl : v = held := by simpa using hlast
        exact hs.held
      · exact hs.resets before v hpre
    · refine (hs.covered u (by simpa using hu)).imp_right ?_
      rintro ⟨w, rfl | hw, hle⟩
      · exact ⟨w, Or.inr (List.mem_append_right _ List.mem_cons_self), hle⟩
      · exact ⟨w, Or.inr (List.mem_append_left _ hw), hle⟩

/-! ### Nothing is lost -/

/-- What was handed out is explained by what was before. -/
theorem Sound.explained_of_reset {s : State α} {history : List (Event α)} (hs : Sound z s history)
    {v : α} (hv : .reset v ∈ history) :
    ∃ before, before ++ [.reset v] <+: history ∧ Explained z before v := by
  obtain ⟨before, after, rfl⟩ := List.append_of_mem hv
  have hpre : before ++ [.reset v] <+: before ++ .reset v :: after := ⟨after, by simp⟩
  exact ⟨before, hpre, hs.resets before v hpre⟩

/-- **When no offer is pending**, the greatest offer is held or was handed out, and nothing greater
was. -/
theorem Sound.isGreatest {s : State α} {history : List (Event α)} (hs : Sound z s history)
    (hpending : s.pending = none) {m : α} (hz : z ≤ m) (hle : ∀ v, .offer v ∈ history → v ≤ m)
    (hm : m = z ∨ .offer m ∈ history) :
    IsGreatest {w | w = s.held ∨ .reset w ∈ history} m := by
  have hupper : ∀ w, w = s.held ∨ .reset w ∈ history → z ≤ w ∧ w ≤ m := by
    have hbound : ∀ {before : List (Event α)} {w : α}, (∀ e ∈ before, e ∈ history) →
        Explained z before w → z ≤ w ∧ w ≤ m := by
      intro before w hsub hw
      rcases hw.eq_or_offer with rfl | hoffer
      · exact ⟨le_rfl, hz⟩
      · exact ⟨hs.le_of_offer w (hsub _ hoffer), hle w (hsub _ hoffer)⟩
    rintro w (rfl | hw)
    · exact hbound (fun _ he => he) hs.held
    · obtain ⟨before, hpre, hw⟩ := hs.explained_of_reset hw
      exact hbound (fun e he => hpre.subset (List.mem_append_left _ he)) hw
  refine ⟨?_, fun w hw => (hupper w hw).2⟩
  rcases hm with rfl | hoffer
  · exact Or.inl (le_antisymm (hupper _ (Or.inl rfl)).1 (hupper _ (Or.inl rfl)).2)
  · obtain ⟨w, hw, hmw⟩ := (hs.covered m hoffer).resolve_left (by rw [hpending]; simp)
    obtain rfl : m = w := le_antisymm hmw (hupper w hw).2
    exact hw

end PeakHold

end SonicBrew
