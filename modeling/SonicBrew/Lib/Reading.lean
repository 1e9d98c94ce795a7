import SonicBrew.Lib.Wire

/-!
# Fallible readers

A reader takes values off an input that it moves along as it goes, and may fail on the way
(`SonicBrew.Reading`). The input stays where the failure has left it: a caller that ignores an
error reads on from there.

What an input is does not matter much: a buffer with a position in it, or a stream of which only
the part that is still to come is known. It has bytes ahead, and it can be advanced
(`SonicBrew.Input`). The one notion that the proofs are about is `SonicBrew.Reading.Yields`: a
reader that finds certain bytes ahead, *whatever follows them*, returns a certain value and
advances by exactly these bytes. Readers with this property can be put one behind the other, as
often as one likes, and none of them reads into what belongs to the next – that is all there is
to the round trip of a sequence of fields or of frames.
-/

namespace SonicBrew

/-- **A reader** over inputs `σ`: a value or an error, and in either case the input as it leaves
it. -/
def Reading (σ ε α : Type) : Type := σ → Except ε α × σ

namespace Reading

variable {σ ε ε' α β : Type}

instance : Monad (Reading σ ε) where
  pure a s := (.ok a, s)
  bind r f s :=
    match r s with
    | (.ok a, s') => f a s'
    | (.error e, s') => (.error e, s')

/-- Fail, and leave the input alone. -/
def fail (e : ε) : Reading σ ε α := fun s => (.error e, s)

/-- A computation that reads nothing. -/
def ofExcept (a : Except ε α) : Reading σ ε α := fun s => (a, s)

/-- The same reader with another type of errors. -/
def mapError (g : ε → ε') (r : Reading σ ε α) : Reading σ ε' α := fun s =>
  match r s with
  | (.ok a, s') => (.ok a, s')
  | (.error e, s') => (.error (g e), s')

theorem pure_apply (a : α) (s : σ) : (pure a : Reading σ ε α) s = (.ok a, s) := rfl

theorem bind_of_ok {r : Reading σ ε α} {s s' : σ} {a : α} (h : r s = (.ok a, s'))
    (f : α → Reading σ ε β) : (r >>= f) s = f a s' := by
  change (match r s with
    | (.ok a, s') => f a s'
    | (.error e, s') => (.error e, s')) = f a s'
  rw [h]

theorem bind_of_error {r : Reading σ ε α} {s s' : σ} {e : ε} (h : r s = (.error e, s'))
    (f : α → Reading σ ε β) : (r >>= f) s = (.error e, s') := by
  change (match r s with
    | (.ok a, s') => f a s'
    | (.error e, s') => (.error e, s')) = (.error e, s')
  rw [h]

/-- **A sequence succeeds when both of its parts do.** -/
theorem bind_eq_ok {r : Reading σ ε α} {f : α → Reading σ ε β} {s t : σ} {b : β}
    (h : (r >>= f) s = (.ok b, t)) : ∃ a s', r s = (.ok a, s') ∧ f a s' = (.ok b, t) := by
  rcases hr : r s with ⟨e | a, s'⟩
  · rw [bind_of_error hr] at h
    cases h
  · rw [bind_of_ok hr] at h
    exact ⟨a, s', rfl, h⟩

/-- A value that is only passed on. -/
theorem map_eq_ok {r : Reading σ ε α} {g : α → β} {s t : σ} {b : β}
    (h : (r >>= fun a => pure (g a)) s = (.ok b, t)) : ∃ a, r s = (.ok a, t) ∧ g a = b := by
  obtain ⟨a, s', hr, hpure⟩ := bind_eq_ok h
  obtain ⟨hb, rfl⟩ := Prod.mk.inj hpure
  exact ⟨a, hr, Except.ok.inj hb⟩

theorem bind_ofExcept_snd (r : Reading σ ε α) (f : α → Except ε β) (s : σ) :
    ((r >>= fun a => ofExcept (f a)) s).2 = (r s).2 := by
  rcases hr : r s with ⟨e | a, s'⟩
  · rw [bind_of_error hr]
  · rw [bind_of_ok hr]
    rfl

theorem mapError_of_ok {r : Reading σ ε α} {s s' : σ} {a : α} (h : r s = (.ok a, s'))
    (g : ε → ε') : r.mapError g s = (.ok a, s') := by
  rw [mapError, h]

theorem mapError_eq_ok {r : Reading σ ε α} {g : ε → ε'} {s s' : σ} {a : α}
    (h : r.mapError g s = (.ok a, s')) : r s = (.ok a, s') := by
  rcases hr : r s with ⟨e | b, t⟩
  · rw [mapError, hr] at h
    cases h
  · rw [mapError_of_ok hr] at h
    obtain ⟨hab, rfl⟩ := Prod.mk.inj h
    cases hab
    rfl

/-- Readers one after the other, and the list of what they return. -/
def sequence : List (Reading σ ε α) → Reading σ ε (List α)
  | [] => pure []
  | r :: rs => do
      let a ← r
      let as ← sequence rs
      return a :: as

/-- What holds of everything that each reader returns holds of everything in the list. -/
theorem forall_of_sequence {P : α → Prop} {rs : List (Reading σ ε α)} {s t : σ} {as : List α}
    (hP : ∀ r ∈ rs, ∀ s a t, r s = (.ok a, t) → P a) (h : sequence rs s = (.ok as, t)) :
    ∀ a ∈ as, P a := by
  induction rs generalizing s as with
  | nil =>
    obtain ⟨has, -⟩ := Prod.mk.inj h
    obtain rfl := Except.ok.inj has
    exact fun _ hmem => absurd hmem List.not_mem_nil
  | cons r rs ih =>
    obtain ⟨a, s₁, ha, hrest⟩ := bind_eq_ok h
    obtain ⟨bs, s₂, hbs, hpure⟩ := bind_eq_ok hrest
    obtain ⟨has, rfl⟩ := Prod.mk.inj hpure
    obtain rfl := Except.ok.inj has
    rintro c (_ | ⟨_, hmem⟩)
    · exact hP r List.mem_cons_self s a s₁ ha
    · exact ih (fun q hq => hP q (List.mem_cons_of_mem r hq)) hbs c hmem

end Reading

/-- **An input**: there are bytes ahead, and it can be advanced. -/
class Input (σ : Type) where
  /-- The bytes that have not been read. -/
  ahead : σ → Bytes
  /-- Past some of these bytes. -/
  advance : ℕ → σ → σ
  ahead_advance : ∀ n s, ahead (advance n s) = (ahead s).drop n
  advance_zero : ∀ s, advance 0 s = s
  advance_advance : ∀ m n s, advance n (advance m s) = advance (m + n) s

namespace Reading

variable {σ ε ε' α β : Type} [Input σ]

open Input

/-- **The reader yields the value from these bytes**, whatever follows them, and reads nothing
else. -/
def Yields (r : Reading σ ε α) (b : Bytes) (a : α) : Prop :=
  ∀ s rest, ahead s = b ++ rest → r s = (.ok a, advance b.length s)

theorem yields_pure (a : α) : Yields (pure a : Reading σ ε α) [] a := by
  intro s rest _
  rw [pure_apply, List.length_nil, advance_zero]

/-- **One reader behind the other.** -/
theorem Yields.bind {r : Reading σ ε α} {f : α → Reading σ ε β} {b d : Bytes} {a : α} {c : β}
    (h : Yields r b a) (h' : Yields (f a) d c) : Yields (r >>= f) (b ++ d) c := by
  intro s rest hs
  rw [List.append_assoc] at hs
  have hrest : ahead (advance b.length s) = d ++ rest := by
    rw [ahead_advance, hs, List.drop_left]
  rw [bind_of_ok (h s _ hs), h' _ rest hrest, advance_advance, List.length_append]

/-- A reader whose value is looked at, and nothing else is read. -/
theorem Yields.bind_nil {r : Reading σ ε α} {f : α → Reading σ ε β} {b : Bytes} {a : α} {c : β}
    (h : Yields r b a) (h' : Yields (f a) [] c) : Yields (r >>= f) b c := by
  have hbind := h.bind h'
  rwa [List.append_nil] at hbind

/-- A reader whose value is only passed on. -/
theorem Yields.map {r : Reading σ ε α} {b : Bytes} {a : α} (h : Yields r b a) (g : α → β) :
    Yields (r >>= fun x => pure (g x)) b (g a) :=
  h.bind_nil (yields_pure (g a))

theorem Yields.mapError {r : Reading σ ε α} {b : Bytes} {a : α} (h : Yields r b a)
    (g : ε → ε') : Yields (r.mapError g) b a :=
  fun s rest hs => mapError_of_ok (h s rest hs) g

/-- **Any number of readers**, each of which yields a value from the bytes of this value. -/
theorem Yields.sequence {as : List α} {read : α → Reading σ ε α} {bytes : α → Bytes}
    (h : ∀ a ∈ as, Yields (read a) (bytes a) a) :
    Yields (sequence (as.map read)) (as.flatMap bytes) as := by
  induction as with
  | nil => exact yields_pure []
  | cons a as ih =>
    have hrest := ih fun b hb => h b (List.mem_cons_of_mem a hb)
    exact (h a List.mem_cons_self).bind (hrest.map (a :: ·))

end Reading

/-! ### Streams -/

/-- A stream is what is still to come of it. -/
instance : Input Bytes where
  ahead s := s
  advance n s := s.drop n
  ahead_advance _ _ := rfl
  advance_zero _ := rfl
  advance_advance _ _ _ := List.drop_drop

/-- Read exactly `n` bytes. When the stream ends before that, all of it has been read. -/
def readExact {ε : Type} (n : ℕ) (e : ε) : Reading Bytes ε Bytes := fun s =>
  if s.length < n then (.error e, []) else (.ok (s.take n), s.drop n)

/-- No more than `n` bytes are read, also when there are fewer. -/
theorem readExact_within {ε : Type} (n : ℕ) (e : ε) (s : Bytes) :
    ∃ k ≤ n, (readExact n e s).2 = s.drop k := by
  rw [readExact]
  split
  · exact ⟨s.length, by omega, List.drop_length.symm⟩
  · exact ⟨n, le_rfl, rfl⟩

namespace Reading

variable {ε α : Type}

theorem yields_readExact {n : ℕ} {b : Bytes} (hn : b.length = n) (e : ε) :
    Yields (readExact n e) b b := by
  rintro s rest rfl
  subst hn
  have hlong : ¬(b ++ rest).length < b.length := by
    rw [List.length_append]
    omega
  rw [readExact, if_neg hlong, List.take_left]
  rfl

/-- A stream that consists of the bytes alone is used up. -/
theorem Yields.eq_nil {r : Reading Bytes ε α} {b : Bytes} {a : α} (h : Yields r b a) :
    r b = (.ok a, []) := by
  rw [h b [] (List.append_nil b).symm]
  exact congrArg (Prod.mk _) List.drop_length

end Reading

end SonicBrew
