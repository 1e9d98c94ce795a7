import Mathlib.Data.List.Basic
import Mathlib.Data.Nat.Notation

/-!
# Cutting text and reading numbers

What a hand-written parser does to a text, as the list of its characters: cut it at a separator,
from the front or from the back, and read a number off it. Each function has one lemma that says in
full when it gives a result and which; what is accepted and what is returned are then read off from
that lemma, in both directions.

A number is what the parsers of standard libraries take for an unsigned one: digits, at least one,
and possibly a plus sign before them (`SonicBrew.Text.Numeral`). Leading zeros are fine.
-/

namespace SonicBrew

namespace Text

/-! ### Cutting -/

section Cutting

variable {α : Type} [DecidableEq α] {c : α} {l : List α}

/-- The text before and after the first separator. -/
def splitOnce (c : α) : List α → Option (List α × List α)
  | [] => none
  | a :: l => if a = c then some ([], l) else (splitOnce c l).map fun p => (a :: p.1, p.2)

/-- The text before and after the last separator. -/
def rsplitOnce (c : α) (l : List α) : Option (List α × List α) :=
  (splitOnce c l.reverse).map fun p => (p.2.reverse, p.1.reverse)

theorem splitOnce_eq_none_iff : splitOnce c l = none ↔ c ∉ l := by
  induction l with
  | nil => simp [splitOnce]
  | cons a l ih =>
    rw [splitOnce]
    by_cases h : a = c
    · simp [h]
    · rw [if_neg h, Option.map_eq_none_iff, ih, List.mem_cons, not_or]
      exact ⟨fun hl => ⟨Ne.symm h, hl⟩, And.right⟩

theorem splitOnce_eq_some_iff {l₁ l₂ : List α} :
    splitOnce c l = some (l₁, l₂) ↔ c ∉ l₁ ∧ l = l₁ ++ c :: l₂ := by
  induction l generalizing l₁ with
  | nil => simp [splitOnce]
  | cons a l ih =>
    rw [splitOnce]
    by_cases h : a = c
    · rw [if_pos h, h]
      -- a piece that begins with the separator cannot be the one before it
      cases l₁ with
      | nil => simp
      | cons b l₁ =>
        simp only [Option.some.injEq, Prod.mk.injEq, List.nil_eq, reduceCtorEq, false_and,
          List.mem_cons, not_or, List.cons_append, List.cons.injEq, false_iff, not_and]
        exact fun hne hcb => absurd hcb hne.1
    · rw [if_neg h, Option.map_eq_some_iff]
      cases l₁ with
      | nil => simp [h]
      | cons b l₁ =>
        constructor
        · rintro ⟨⟨m₁, m₂⟩, hm, heq⟩
          obtain ⟨⟨rfl, rfl⟩, rfl⟩ : (a = b ∧ m₁ = l₁) ∧ m₂ = l₂ := by simpa using heq
          obtain ⟨hnot, rfl⟩ := ih.mp hm
          exact ⟨fun hc => (List.mem_cons.mp hc).elim (fun hca => h hca.symm) hnot, rfl⟩
        · rintro ⟨hnot, heq⟩
          obtain ⟨rfl, rfl⟩ := List.cons.inj heq
          exact ⟨(l₁, l₂), ih.mpr ⟨fun hc => hnot (List.mem_cons_of_mem _ hc), rfl⟩, rfl⟩

theorem rsplitOnce_eq_none_iff : rsplitOnce c l = none ↔ c ∉ l := by
  rw [rsplitOnce, Option.map_eq_none_iff, splitOnce_eq_none_iff, List.mem_reverse]

theorem rsplitOnce_eq_some_iff {l₁ l₂ : List α} :
    rsplitOnce c l = some (l₁, l₂) ↔ c ∉ l₂ ∧ l = l₁ ++ c :: l₂ := by
  rw [rsplitOnce, Option.map_eq_some_iff]
  constructor
  · rintro ⟨⟨m₂, m₁⟩, hm, heq⟩
    obtain ⟨rfl, rfl⟩ := Prod.mk.inj heq
    obtain ⟨hnot, hl⟩ := splitOnce_eq_some_iff.mp hm
    refine ⟨fun hc => hnot (List.mem_reverse.mp hc), ?_⟩
    rw [← List.reverse_reverse l, hl, List.reverse_append, List.reverse_cons, List.append_assoc,
      List.singleton_append]
  · rintro ⟨hnot, rfl⟩
    refine ⟨(l₂.reverse, l₁.reverse), splitOnce_eq_some_iff.mpr ⟨?_, ?_⟩, ?_⟩
    · exact fun hc => hnot (List.mem_reverse.mp hc)
    · rw [List.reverse_append, List.reverse_cons, List.append_assoc, List.singleton_append]
    · rw [List.reverse_reverse, List.reverse_reverse]

/-- A text occurs in another. -/
def contains (pat : List α) : List α → Bool
  | [] => pat.isEmpty
  | a :: l => pat.isPrefixOf (a :: l) || contains pat l

theorem contains_iff {pat : List α} : contains pat l = true ↔ pat <:+: l := by
  induction l with
  | nil => rw [contains, List.isEmpty_iff, List.infix_nil]
  | cons a l ih =>
    rw [contains, Bool.or_eq_true, List.isPrefixOf_iff_prefix, ih, List.infix_cons_iff]

end Cutting

/-! ### Numbers -/

/-- **The text of a number**: digits, with or without a plus sign before them. -/
def Numeral (s : List Char) (n : ℕ) : Prop :=
  ∃ digits, (s = digits ∨ s = '+' :: digits) ∧ digits ≠ [] ∧ (∀ c ∈ digits, c.isDigit) ∧
    Nat.ofDigitChars 10 digits 0 = n

theorem Numeral.isDigit {s : List Char} {n : ℕ} (h : Numeral s n) {c : Char} (hc : c ∈ s) :
    c = '+' ∨ c.isDigit := by
  obtain ⟨digits, rfl | rfl, -, hall, -⟩ := h
  · exact Or.inr (hall c hc)
  · rcases List.mem_cons.mp hc with hplus | hc
    · exact Or.inl hplus
    · exact Or.inr (hall c hc)

/-- A text without the plus sign at its front. -/
def unsigned (s : List Char) : List Char := if s.head? = some '+' then s.tail else s

/-- The number below a bound that a text stands for. -/
def parseBelow (bound : ℕ) (s : List Char) : Option ℕ :=
  if unsigned s ≠ [] ∧ (unsigned s).all Char.isDigit then
    let n := Nat.ofDigitChars 10 (unsigned s) 0
    if n < bound then some n else none
  else none

theorem unsigned_of_digits {s : List Char} (h : ∀ c ∈ s, c.isDigit) : unsigned s = s := by
  refine if_neg fun hhead => ?_
  exact absurd (h '+' (List.mem_of_head? hhead)) (by decide)

theorem eq_or_eq_unsigned (s : List Char) : s = unsigned s ∨ s = '+' :: unsigned s := by
  rw [unsigned]
  split
  · rename_i hhead
    exact Or.inr (List.eq_cons_of_mem_head? hhead)
  · exact Or.inl rfl

/-- **What is read is the number that stands there.** -/
theorem parseBelow_eq_some_iff {bound : ℕ} {s : List Char} {n : ℕ} :
    parseBelow bound s = some n ↔ Numeral s n ∧ n < bound := by
  rw [parseBelow, Option.ite_none_right_eq_some, Option.ite_none_right_eq_some, List.all_eq_true]
  constructor
  · rintro ⟨⟨hne, hall⟩, hlt, heq⟩
    obtain rfl := Option.some.inj heq
    exact ⟨⟨unsigned s, eq_or_eq_unsigned s, hne, hall, rfl⟩, hlt⟩
  · rintro ⟨⟨digits, hs, hne, hall, rfl⟩, hlt⟩
    have heq : unsigned s = digits := by
      rcases hs with rfl | rfl
      · exact unsigned_of_digits hall
      · rfl
    rw [heq]
    exact ⟨⟨hne, hall⟩, hlt, rfl⟩

/-- Where there is another character, there is no number. -/
theorem parseBelow_eq_none {bound : ℕ} {s : List Char} {c : Char} (hc : c ∈ s) (hplus : c ≠ '+')
    (hdigit : ¬c.isDigit) : parseBelow bound s = none := by
  refine Option.eq_none_iff_forall_ne_some.mpr fun n hn => ?_
  exact ((parseBelow_eq_some_iff.mp hn).1.isDigit hc).elim hplus hdigit

theorem toDigits_injective : Function.Injective (Nat.toDigits 10) := by
  intro m n h
  have hread : Nat.ofDigitChars 10 (Nat.toDigits 10 m) 0 =
      Nat.ofDigitChars 10 (Nat.toDigits 10 n) 0 := congrArg (Nat.ofDigitChars 10 · 0) h
  rwa [Nat.ofDigitChars_toDigits (by decide) (by decide),
    Nat.ofDigitChars_toDigits (by decide) (by decide)] at hread

/-- Two numerals can be read off the text that has a separator between them. -/
theorem toDigits_pair_inj {c : Char} (hc : c.isDigit = false) {m n m' n' : ℕ}
    (h : Nat.toDigits 10 m ++ c :: Nat.toDigits 10 n =
      Nat.toDigits 10 m' ++ c :: Nat.toDigits 10 n') : m = m' ∧ n = n' := by
  have hfree : ∀ k, c ∉ Nat.toDigits 10 k := fun k hmem =>
    absurd (Nat.isDigit_of_mem_toDigits (by decide) (by decide) hmem) (Bool.eq_false_iff.mp hc)
  have hsplit : ∀ k l, splitOnce c (Nat.toDigits 10 k ++ c :: Nat.toDigits 10 l) =
      some (Nat.toDigits 10 k, Nat.toDigits 10 l) :=
    fun k l => splitOnce_eq_some_iff.mpr ⟨hfree k, rfl⟩
  have hpieces := (hsplit m n).symm.trans ((congrArg (splitOnce c) h).trans (hsplit m' n'))
  obtain ⟨hm, hn⟩ := Prod.mk.inj (Option.some.inj hpieces)
  exact ⟨toDigits_injective hm, toDigits_injective hn⟩

/-- The digits of a number are read as that number. -/
theorem parseBelow_toDigits {bound n : ℕ} (h : n < bound) :
    parseBelow bound (Nat.toDigits 10 n) = some n := by
  refine parseBelow_eq_some_iff.mpr ⟨⟨_, Or.inl rfl, Nat.toDigits_ne_nil, fun c hc => ?_, ?_⟩, h⟩
  · exact Nat.isDigit_of_mem_toDigits (by decide) (by decide) hc
  · exact Nat.ofDigitChars_toDigits (by decide) (by decide)

/-! ### Lines -/

/-- A text in front of a list of lines belongs to the first of them. -/
def glue (l : List Char) : List (List Char) → List (List Char)
  | [] => [l]
  | m :: ms => (l ++ m) :: ms

/-- **The lines of a text**: each ends with a newline, or a carriage return and a newline, which are
not part of it; the last one may end with the text. -/
def lines : List Char → List (List Char)
  | [] => []
  | '\n' :: s => [] :: lines s
  | '\r' :: '\n' :: s => [] :: lines s
  | c :: s => glue [c] (lines s)

theorem exists_glue (l : List Char) (ls : List (List Char)) :
    ∃ m ms, glue l ls = (l ++ m) :: ms := by
  cases ls with
  | nil => exact ⟨[], [], by rw [glue, List.append_nil]⟩
  | cons m ms => exact ⟨m, ms, rfl⟩

theorem glue_append (l₁ l₂ : List Char) (ls : List (List Char)) :
    glue (l₁ ++ l₂) ls = glue l₁ (glue l₂ ls) := by
  cases ls with
  | nil => rfl
  | cons m ms => rw [glue, glue, glue, List.append_assoc]

/-- A character that ends no line. -/
def Inline (c : Char) : Prop := c ≠ '\n' ∧ c ≠ '\r'

instance decidableInline (c : Char) : Decidable (Inline c) := inferInstanceAs (Decidable (_ ∧ _))

theorem lines_cons {c : Char} (h : Inline c) (s : List Char) :
    lines (c :: s) = glue [c] (lines s) := by
  rw [lines]
  · exact h.1
  · exact fun _ hc => absurd hc h.2

theorem lines_append {l : List Char} (hne : l ≠ []) (h : ∀ c ∈ l, Inline c) (s : List Char) :
    lines (l ++ s) = glue l (lines s) := by
  induction l with
  | nil => exact absurd rfl hne
  | cons c l ih =>
    obtain ⟨hc, hl⟩ := List.forall_mem_cons.mp h
    rw [List.cons_append, lines_cons hc]
    cases l with
    | nil => rfl
    | cons d l => rw [ih (List.cons_ne_nil d l) hl, ← glue_append, List.singleton_append]

/-- **Lines that are written are read.** -/
theorem lines_flatMap {ls : List (List Char)} (h : ∀ l ∈ ls, ∀ c ∈ l, Inline c) :
    lines (ls.flatMap (· ++ ['\n'])) = ls := by
  induction ls with
  | nil => rfl
  | cons l ls ih =>
    obtain ⟨hl, hls⟩ := List.forall_mem_cons.mp h
    rw [List.flatMap_cons, List.append_assoc, List.singleton_append]
    have hend : lines ('\n' :: ls.flatMap (· ++ ['\n'])) = [] :: ls := by
      rw [lines, ih hls]
    cases l with
    | nil => exact hend
    | cons c l => rw [lines_append (List.cons_ne_nil c l) hl, hend, glue, List.append_nil]

end Text

end SonicBrew
