import Mathlib.Logic.Function.Basic
import Mathlib.Order.Defs.PartialOrder

/-!
# Publishing what was read earlier

A source whose value only grows, and a board that shows one value at a time. A writer takes the
value of the source and puts it on the board *later*: meanwhile the source moves on, and other
writers put up values of their own. A writer may also move the source itself before it takes the
value (`SonicBrew.Publication.Step.announce`), or give up.

What is shown, and what any writer holds, is never ahead of the source
(`SonicBrew.Publication.Bounded`): that much is true whatever the order of the writes. What is
shown can nevertheless go back, since a writer may hold a value that others have overtaken. It does
not as long as nobody publishes a value newer than one that is still to be published
(`SonicBrew.Publication.InTurn`), for then every value still to come is at least the one shown.
-/

namespace SonicBrew

/-- The value of the source, what each writer has taken and not yet published, and what is
shown. -/
@[ext]
structure Publication (I α : Type) where
  source : α
  pending : I → Option α
  shown : Option α

namespace Publication

variable {I α : Type} [DecidableEq I] [Preorder α]

/-- No other writer holds a value that `v` is not below. -/
def InTurn (p : Publication I α) (i : I) (v : α) : Prop :=
  ∀ j, j ≠ i → ∀ u ∈ p.pending j, v ≤ u

/-- One step; `turn` restricts who may publish what. -/
inductive Step (turn : I → α → Prop) (p : Publication I α) : Publication I α → Prop
  /-- The source moves on. -/
  | advance {v : α} : p.source ≤ v → Step turn p { p with source := v }
  /-- The source moves on, and a writer takes its value. -/
  | announce (i : I) {v : α} : p.source ≤ v →
      Step turn p { p with source := v, pending := Function.update p.pending i (some v) }
  /-- A writer gives up. -/
  | drop (i : I) : Step turn p { p with pending := Function.update p.pending i none }
  /-- A writer publishes. -/
  | publish {i : I} {v : α} : v ∈ p.pending i → turn i v →
      Step turn p { p with pending := Function.update p.pending i none, shown := some v }

/-- **Nothing is ahead of the source.** -/
structure Bounded (p : Publication I α) : Prop where
  shown_le : ∀ v ∈ p.shown, v ≤ p.source
  pending_le : ∀ i, ∀ u ∈ p.pending i, u ≤ p.source

/-- **Nothing that is still to be published is behind what is shown.** -/
structure Ordered (p : Publication I α) : Prop extends Bounded p where
  shown_le_pending : ∀ i, ∀ u ∈ p.pending i, ∀ v ∈ p.shown, v ≤ u

/-- What is shown has not gone back. -/
def NotBehind (p q : Publication I α) : Prop := ∀ v ∈ p.shown, ∃ v' ∈ q.shown, v ≤ v'

variable {turn : I → α → Prop} {p q : Publication I α}

/-- A step that changes nothing. -/
theorem Step.stay (p : Publication I α) : Step turn p p := .advance le_rfl

theorem Step.mono {turn' : I → α → Prop} (h : Step turn p q)
    (hturn : ∀ i v, turn i v → turn' i v) : Step turn' p q := by
  cases h with
  | advance hv => exact .advance hv
  | announce i hv => exact .announce i hv
  | drop i => exact .drop i
  | publish hv ht => exact .publish hv (hturn _ _ ht)

omit [Preorder α] in
/-- A value held after one writer's hand has changed is the new one, or was held before. -/
theorem mem_update {f : I → Option α} {i j : I} {o : Option α} {u : α}
    (h : u ∈ Function.update f i o j) : u ∈ o ∨ j ≠ i ∧ u ∈ f j := by
  rcases eq_or_ne j i with rfl | hj
  · rw [Function.update_self] at h
    exact .inl h
  · rw [Function.update_of_ne hj] at h
    exact .inr ⟨hj, h⟩

omit [DecidableEq I] in
theorem Bounded.advance (h : p.Bounded) {v : α} (hv : p.source ≤ v) :
    Bounded { p with source := v } :=
  ⟨fun u hu => le_trans (h.shown_le u hu) hv, fun i u hu => le_trans (h.pending_le i u hu) hv⟩

theorem Bounded.step (h : p.Bounded) (hstep : Step turn p q) : q.Bounded := by
  cases hstep with
  | advance hv => exact h.advance hv
  | announce i hv =>
    refine ⟨(h.advance hv).shown_le, fun j u hu => ?_⟩
    rcases mem_update hu with hu | ⟨-, hu⟩
    · obtain rfl := Option.some.inj hu
      exact le_rfl
    · exact (h.advance hv).pending_le j u hu
  | drop i =>
    refine ⟨h.shown_le, fun j u hu => ?_⟩
    rcases mem_update hu with hu | ⟨-, hu⟩
    · cases hu
    · exact h.pending_le j u hu
  | @publish i v hv _ =>
    refine ⟨?_, fun j u hu => ?_⟩
    · rintro _ ⟨⟩
      exact h.pending_le i v hv
    · rcases mem_update hu with hu | ⟨-, hu⟩
      · cases hu
      · exact h.pending_le j u hu

/-- **Publishing in turn keeps the order.** -/
theorem Ordered.step (h : p.Ordered) (hstep : Step p.InTurn p q) : q.Ordered := by
  refine ⟨h.toBounded.step hstep, ?_⟩
  cases hstep with
  | advance hv => exact h.shown_le_pending
  | announce i hv =>
    intro j u hu v hshown
    rcases mem_update hu with hu | ⟨-, hu⟩
    · obtain rfl := Option.some.inj hu
      exact le_trans (h.shown_le v hshown) hv
    · exact h.shown_le_pending j u hu v hshown
  | drop i =>
    intro j u hu v hshown
    rcases mem_update hu with hu | ⟨-, hu⟩
    · cases hu
    · exact h.shown_le_pending j u hu v hshown
  | publish hv hturn =>
    rintro j u hu _ ⟨⟩
    rcases mem_update hu with hu | ⟨hj, hu⟩
    · cases hu
    · exact hturn j hj u hu

/-- **An ordered board does not go back** in one step, whoever publishes. -/
theorem Ordered.notBehind (h : p.Ordered) (hstep : Step turn p q) : NotBehind p q := by
  cases hstep with
  | publish hv _ => exact fun v hshown => ⟨_, rfl, h.shown_le_pending _ _ hv v hshown⟩
  | _ => exact fun v hshown => ⟨v, hshown, le_rfl⟩

omit [DecidableEq I] in
theorem NotBehind.refl (p : Publication I α) : NotBehind p p := fun v hv => ⟨v, hv, le_rfl⟩

omit [DecidableEq I] in
theorem NotBehind.trans {r : Publication I α} (hpq : NotBehind p q) (hqr : NotBehind q r) :
    NotBehind p r := by
  intro v hv
  obtain ⟨v', hv', hle⟩ := hpq v hv
  obtain ⟨v'', hv'', hle'⟩ := hqr v' hv'
  exact ⟨v'', hv'', le_trans hle hle'⟩

end Publication

end SonicBrew
