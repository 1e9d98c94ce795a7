import Mathlib.Data.List.Basic
import Mathlib.Order.Lattice

/-!
# Ordered tables

The part of an embedded key–value store that its clients can observe: a table is
a finite map from a linearly ordered key type, and iterating over it visits the
rows in strictly ascending key order. The order is a field of the structure, so a
table whose iteration order is wrong cannot be built, and no client has to carry
sortedness through its own invariants.

What the clients of such a table need is small: inserting a key above all present
ones appends the row (`SonicBrew.Table.rows_insert_of_lt`), a row just
written can be read back (`SonicBrew.Table.get_insert_self`), and removing a list of
keys one after the other keeps exactly the rows whose key is not in the list
(`SonicBrew.Table.rows_removeAll`).
-/

namespace SonicBrew

/-- **An ordered table**: its rows, in strictly ascending key order. -/
structure Table (K V : Type) [LinearOrder K] where
  /-- The rows, as an iteration over the table visits them. -/
  rows : List (K × V)
  /-- Keys are strictly ascending along the rows; in particular none repeats. -/
  sorted : rows.Pairwise fun a b => a.1 < b.1

namespace Table

variable {K V : Type} [LinearOrder K]

@[ext] theorem ext {t t' : Table K V} (h : t.rows = t'.rows) : t = t' := by
  cases t
  cases t'
  simp only at h
  subst h
  rfl

/-- The table with no row. -/
def empty : Table K V := ⟨[], List.Pairwise.nil⟩

/-- The keys of a table, ascending. -/
def keys (t : Table K V) : List K := t.rows.map Prod.fst

/-- The value stored under a key. -/
def get (t : Table K V) (k : K) : Option V := (t.rows.find? fun r => r.1 = k).map Prod.snd

/-! ### Insertion -/

/-- Insert a row at its place, replacing the row with the same key if there is
one. -/
def insertRow (k : K) (v : V) : List (K × V) → List (K × V)
  | [] => [(k, v)]
  | r :: rs =>
      if k < r.1 then (k, v) :: r :: rs
      else if k = r.1 then (k, v) :: rs
      else r :: insertRow k v rs

theorem mem_insertRow {k : K} {v : V} {rs : List (K × V)} {x : K × V}
    (hx : x ∈ insertRow k v rs) : x = (k, v) ∨ x ∈ rs := by
  induction rs with
  | nil => exact Or.inl (by simpa [insertRow] using hx)
  | cons r rs ih =>
    rw [insertRow] at hx
    split at hx
    · simpa using hx
    · split at hx
      · rcases List.mem_cons.mp hx with h | h
        · exact Or.inl h
        · exact Or.inr (List.mem_cons_of_mem _ h)
      · rcases List.mem_cons.mp hx with h | h
        · exact Or.inr (h ▸ List.mem_cons_self)
        · exact (ih h).imp id (List.mem_cons_of_mem _)

theorem pairwise_insertRow (k : K) (v : V) {rs : List (K × V)}
    (h : rs.Pairwise fun a b => a.1 < b.1) :
    (insertRow k v rs).Pairwise fun a b => a.1 < b.1 := by
  induction rs with
  | nil => simp [insertRow]
  | cons r rs ih =>
    obtain ⟨hr, hrs⟩ := List.pairwise_cons.mp h
    rw [insertRow]
    split
    · rename_i hlt
      refine List.pairwise_cons.mpr ⟨fun x hx => ?_, h⟩
      rcases List.mem_cons.mp hx with rfl | hx
      · exact hlt
      · exact lt_trans hlt (hr x hx)
    · rename_i hnlt
      split
      · rename_i heq
        exact List.pairwise_cons.mpr ⟨fun x hx => heq ▸ hr x hx, hrs⟩
      · rename_i hne
        refine List.pairwise_cons.mpr ⟨fun x hx => ?_, ih hrs⟩
        rcases mem_insertRow hx with rfl | hx
        · exact lt_of_le_of_ne (not_lt.mp hnlt) (Ne.symm hne)
        · exact hr x hx

/-- Insert a row, replacing the one with the same key. -/
def insert (t : Table K V) (k : K) (v : V) : Table K V :=
  ⟨insertRow k v t.rows, pairwise_insertRow k v t.sorted⟩

theorem insertRow_of_lt {k : K} (v : V) {rs : List (K × V)} (h : ∀ r ∈ rs, r.1 < k) :
    insertRow k v rs = rs ++ [(k, v)] := by
  induction rs with
  | nil => rfl
  | cons r rs ih =>
    have hr : r.1 < k := h r List.mem_cons_self
    rw [insertRow, if_neg (not_lt.mpr hr.le), if_neg (ne_of_gt hr),
      ih fun x hx => h x (List.mem_cons_of_mem _ hx)]
    rfl

/-- **A key above all present ones is appended.** -/
theorem rows_insert_of_lt {t : Table K V} {k : K} (v : V) (h : ∀ r ∈ t.rows, r.1 < k) :
    (t.insert k v).rows = t.rows ++ [(k, v)] :=
  insertRow_of_lt v h

/-- **What was just written is read back.** -/
theorem get_insert_self (t : Table K V) (k : K) (v : V) : (t.insert k v).get k = some v := by
  obtain ⟨rs, hrs⟩ := t
  simp only [get, insert]
  clear hrs
  induction rs with
  | nil => simp [insertRow]
  | cons r rs ih =>
    rw [insertRow]
    split
    · simp
    · split
      · simp
      · rename_i hne
        rw [List.find?_cons_of_neg (by simpa using Ne.symm hne)]
        exact ih

/-! ### Removal -/

/-- Remove the row with the given key, if there is one. -/
def remove (t : Table K V) (k : K) : Table K V :=
  ⟨t.rows.filter fun r => r.1 ≠ k, t.sorted.filter _⟩

/-- Remove the given keys, one after the other. -/
def removeAll (t : Table K V) (ks : List K) : Table K V := ks.foldl remove t

/-- **Removing keys one after the other** keeps the rows whose key is none of
them. -/
theorem rows_removeAll (t : Table K V) (ks : List K) :
    (t.removeAll ks).rows = t.rows.filter fun r => r.1 ∉ ks := by
  induction ks generalizing t with
  | nil => simp [removeAll]
  | cons k ks ih =>
    have hstep : (t.removeAll (k :: ks)).rows = ((t.remove k).removeAll ks).rows := rfl
    rw [hstep, ih, remove, List.filter_filter]
    refine List.filter_congr fun r _ => ?_
    simp [Bool.and_comm]

/-- Collecting the keys that satisfy a predicate and removing them keeps the rows
that do not satisfy it. -/
theorem rows_removeAll_filter (t : Table K V) (p : K → Bool) :
    (t.removeAll ((t.rows.filter fun r => p r.1).map Prod.fst)).rows =
      t.rows.filter fun r => !p r.1 := by
  rw [rows_removeAll]
  refine List.filter_congr fun r hr => ?_
  have hmem : r.1 ∈ (t.rows.filter fun r => p r.1).map Prod.fst ↔ p r.1 = true := by
    constructor
    · intro h
      obtain ⟨x, hx, hxr⟩ := List.mem_map.mp h
      rw [← hxr]
      exact (List.mem_filter.mp hx).2
    · exact fun h => List.mem_map.mpr ⟨r, List.mem_filter.mpr ⟨hr, h⟩, rfl⟩
  rw [Bool.eq_iff_iff, decide_eq_true_iff, hmem]
  simp

end Table

end SonicBrew
