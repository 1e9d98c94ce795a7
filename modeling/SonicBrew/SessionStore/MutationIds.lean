import SonicBrew.SessionStore.StateMachine

/-!
# The ids of mutations

A client that writes through the replicated log is told the id of its mutation, and the id
comes from a counter in the persisted state of the replica that applied it. A snapshot does
not carry the counter, and installing one sets it back to zero, so the ids a replica hands out
count the mutations since its last install. This module says exactly what is left of the two
things an id is for.

* *Over a run of one replica*, the ids are strictly increasing if and only if no install that
  goes through lies between two mutations (`SonicBrew.StateMachine.pairwise_idsFrom_iff`).
* *Between two replicas*, one that applied the log and one that installed a snapshot on the
  way, the ids of later mutations are the same if and only if the snapshot covers no mutation,
  or no mutation comes later (`SonicBrew.StateMachine.laterIds_eq`).

Both are facts about the pure function `SonicBrew.StateMachine.idsFrom`, which is what a
replica computes (`SonicBrew.StateMachine.Holds.returnedIds_eq`).
-/

namespace SonicBrew

namespace StateMachine

/-! ### Runs of calls, and the ids they hand out -/

section Counting

variable (bin : Bincode)

/-- The calls on one replica: a batch, or a snapshot from elsewhere. -/
inductive Call where
  | apply (entries : List Entry)
  | installSnapshot (info : SnapshotMeta) (payload : Bytes)

/-- How many mutations a run of calls applies. -/
def mutationCount (calls : List Call) : ℕ :=
  (calls.map fun
    | .apply entries => (mutations entries).length
    | .installSnapshot _ _ => 0).sum

/-- Whether a call resets the counter: an install whose payload is a topology. -/
def Call.resets : Call → Bool
  | .apply _ => false
  | .installSnapshot _ payload => (bin.topology.deserialize payload).isOk

/-- **No snapshot between mutations**: every install that goes through comes before the first
mutation of the run or after the last. -/
def InstallsApart (calls : List Call) : Prop :=
  ∀ before call after, calls = before ++ call :: after → call.resets bin = true →
    mutationCount before = 0 ∨ mutationCount after = 0

/-- The ids a run hands out from a counter on. -/
def idsFrom (n : ℕ) : List Call → List ℕ
  | [] => []
  | .apply entries :: calls =>
      List.range' n (mutations entries).length ++ idsFrom (n + (mutations entries).length) calls
  | .installSnapshot info payload :: calls =>
      if (Call.installSnapshot info payload).resets bin then idsFrom 0 calls else idsFrom n calls

variable {bin}

theorem mutationCount_append (calls calls' : List Call) :
    mutationCount (calls ++ calls') = mutationCount calls + mutationCount calls' := by
  rw [mutationCount, List.map_append, List.sum_append]
  rfl

variable (bin) in
/-- One id for every mutation. -/
theorem length_idsFrom (n : ℕ) (calls : List Call) :
    (idsFrom bin n calls).length = mutationCount calls := by
  induction calls generalizing n with
  | nil => rfl
  | cons call calls ih =>
    cases call with
    | apply es =>
      rw [idsFrom, List.length_append, List.length_range', ih]
      rfl
    | installSnapshot info payload =>
      have hcount : mutationCount (.installSnapshot info payload :: calls) = mutationCount calls :=
        Nat.zero_add _
      rw [idsFrom, hcount]
      split
      · exact ih 0
      · exact ih n

/-- An install that goes through cuts the run in two, and the second half counts from
zero. -/
theorem idsFrom_resets (n : ℕ) {call : Call} (hc : call.resets bin = true)
    (before after : List Call) :
    idsFrom bin n (before ++ call :: after) = idsFrom bin n before ++ idsFrom bin 0 after := by
  induction before generalizing n with
  | nil =>
    cases call with
    | apply es => simp [Call.resets] at hc
    | installSnapshot info payload =>
      rw [List.nil_append, idsFrom, idsFrom, if_pos hc]
      rfl
  | cons b before ih =>
    cases b with
    | apply es => rw [List.cons_append, idsFrom, ih, idsFrom, List.append_assoc]
    | installSnapshot info payload =>
      rw [List.cons_append, idsFrom, idsFrom]
      split
      · exact ih 0
      · exact ih n

/-- Counting from zero, a run with a mutation hands out the id zero. -/
theorem zero_mem_idsFrom {calls : List Call} (h : mutationCount calls ≠ 0) :
    0 ∈ idsFrom bin 0 calls := by
  induction calls with
  | nil => exact absurd rfl h
  | cons call calls ih =>
    cases call with
    | apply es =>
      rw [idsFrom, List.mem_append, List.mem_range'_1]
      by_cases hes : (mutations es).length = 0
      · -- no mutation in the batch: the counter has not moved
        refine Or.inr ?_
        rw [hes]
        refine ih fun hc => h ?_
        change (mutations es).length + mutationCount calls = 0
        omega
      · exact Or.inl (by omega)
    | installSnapshot info payload =>
      have hcount : mutationCount calls ≠ 0 := by
        intro hc
        exact h ((Nat.zero_add _).trans hc)
      rw [idsFrom, ite_self]
      exact ih hcount

/-- A run that applies no mutation after an install counts on as if there were none. -/
theorem idsFrom_eq_range' {calls : List Call}
    (h : ∀ before call after, calls = before ++ call :: after → call.resets bin = true →
      mutationCount after = 0) (n : ℕ) :
    idsFrom bin n calls = List.range' n (mutationCount calls) := by
  induction calls generalizing n with
  | nil => rfl
  | cons call calls ih =>
    have hrest := ih fun before c after he => h (call :: before) c after (by rw [he]; rfl)
    cases call with
    | apply es =>
      have hcount : mutationCount (.apply es :: calls) =
          (mutations es).length + mutationCount calls := rfl
      rw [idsFrom, hrest, hcount, List.range'_append_1]
    | installSnapshot info payload =>
      have hcount : mutationCount (.installSnapshot info payload :: calls) = mutationCount calls :=
        Nat.zero_add _
      rw [idsFrom, hcount]
      split
      · rename_i hr
        have hzero : mutationCount calls = 0 := h [] _ calls rfl hr
        rw [hrest, hzero]
        rfl
      · exact hrest n

/-- **When the ids of a run are strictly increasing**: exactly when no install that goes
through lies between two mutations. -/
theorem pairwise_idsFrom_iff (n : ℕ) (calls : List Call) :
    (idsFrom bin n calls).Pairwise (· < ·) ↔ InstallsApart bin calls := by
  constructor
  · rintro hp before call after rfl hc
    by_contra hno
    obtain ⟨hb, ha⟩ := not_or.mp hno
    rw [idsFrom_resets n hc, List.pairwise_append] at hp
    have hne : idsFrom bin n before ≠ [] := by
      intro hnil
      rw [← length_idsFrom bin n, hnil] at hb
      exact hb rfl
    obtain ⟨i, hi⟩ := List.exists_mem_of_ne_nil _ hne
    exact absurd (hp.2.2 i hi 0 (zero_mem_idsFrom ha)) (Nat.not_lt_zero i)
  · intro h
    induction calls generalizing n with
    | nil => exact List.Pairwise.nil
    | cons call calls ih =>
      have htail : InstallsApart bin calls := by
        intro before c after he hc
        rcases h (call :: before) c after (by rw [he]; rfl) hc with hb | ha
        · have hcount : mutationCount [call] + mutationCount before = 0 := by
            rw [← mutationCount_append]
            exact hb
          exact Or.inl (by omega)
        · exact Or.inr ha
      cases call with
      | apply es =>
        by_cases hes : (mutations es).length = 0
        · rw [idsFrom, hes]
          exact ih n htail
        · -- the batch has a mutation, so no install of the rest is followed by one
          rw [idsFrom_eq_range' ?_ n]
          · exact List.pairwise_lt_range'
          · intro before c after he hc
            cases before with
            | nil =>
              obtain ⟨rfl, -⟩ := List.cons.inj he
              simp [Call.resets] at hc
            | cons b before =>
              obtain ⟨rfl, he'⟩ := List.cons.inj he
              refine (h _ c after he hc).resolve_left fun hb => hes ?_
              have hb' : (mutations es).length + mutationCount before = 0 := hb
              omega
      | installSnapshot info payload =>
        rw [idsFrom]
        split
        · exact ih 0 htail
        · exact ih n htail

/-- Two runs of the same length of consecutive ids are the same when they start together. -/
theorem range'_eq_range'_iff (m n k : ℕ) : List.range' m k = List.range' n k ↔ m = n ∨ k = 0 := by
  cases k with
  | zero => simp
  | succ k =>
    simp only [List.range'_succ, List.cons.injEq, Nat.succ_ne_zero, or_false]
    exact ⟨fun h => h.1, fun h => ⟨h, by rw [h]⟩⟩

end Counting

/-! ### The ids of a replica -/

section Replica

variable [SnapshotApply] (bin : Bincode)

/-- The ids a replica hands out for mutations over a run of calls. -/
def returnedIds (db : Db) : List Call → List ℕ
  | [] => []
  | .apply entries :: calls =>
      match apply bin db entries none with
      | (.ok responses, db) => mutationIds entries responses ++ returnedIds db calls
      | (.error _, db) => returnedIds db calls
  | .installSnapshot info payload :: calls =>
      returnedIds (installSnapshot bin db info payload none).2 calls

/-- The ids of later mutations on a replica that applied everything before them. -/
def idsAfterApplying (earlier later : List (List Entry)) : Except StorageError (List ℕ) := do
  let (_, db) ← direct bin earlier
  let (responses, _) ← onSuccess (applyBatches bin db later)
  return mutationIds later.flatten responses

/-- The ids of later mutations on a replica that installed a snapshot and applied what came
between it and them. -/
def idsAfterInstalling (db₀ : Db) (snap : Snapshot) (between later : List (List Entry)) :
    Except StorageError (List ℕ) := do
  let db ← follower bin db₀ snap between
  let (responses, _) ← onSuccess (applyBatches bin db later)
  return mutationIds later.flatten responses

variable {bin}

/-- **The ids a replica hands out** are those of its counter. -/
theorem Holds.returnedIds_eq {db : Db} {state : PersistedState} (h : Holds bin db state)
    (calls : List Call) : returnedIds bin db calls = idsFrom bin state.nextMutationId calls := by
  induction calls generalizing db state with
  | nil => rfl
  | cons call calls ih =>
    cases call with
    | apply es =>
      obtain ⟨db', hap, h'⟩ := h.apply_eq es
      have hnext : (applyEntries state es).1.nextMutationId =
          state.nextMutationId + (mutations es).length := by rw [applyEntries_state]
      rw [returnedIds, hap]
      simp only
      rw [ih h', mutationIds_applyEntries, hnext, idsFrom]
    | installSnapshot info payload =>
      rw [returnedIds, idsFrom, Call.resets]
      rcases hdec : bin.topology.deserialize payload with cause | t
      · rw [installSnapshot_error db info hdec]
        exact ih h
      · obtain ⟨db', hinst, h'⟩ := installSnapshot_eq db info hdec
        rw [hinst]
        exact ih h'

/-- A replica that applied everything counts everything. -/
theorem idsAfterApplying_eq (earlier later : List (List Entry)) :
    idsAfterApplying bin earlier later =
      .ok (List.range' (mutations earlier.flatten).length (mutations later.flatten).length) := by
  obtain ⟨db₁, hdirect, h₁⟩ := direct_eq bin earlier
  obtain ⟨db₂, hap, -⟩ := h₁.applyBatches_eq later
  have hnext :
      (stateAfter earlier.flatten).nextMutationId = (mutations earlier.flatten).length := by
    rw [stateAfter, applyEntries_state]
    exact Nat.zero_add _
  simp only [idsAfterApplying, hdirect, ok_bind, hap, onSuccess, Except.map]
  rw [mutationIds_applyEntries, hnext]
  rfl

/-- A replica that installed a snapshot counts what came after it. -/
theorem idsAfterInstalling_eq (db₀ : Db) (log : List Entry) (between later : List (List Entry)) :
    idsAfterInstalling bin db₀ (snapshotOf bin (stateAfter log)) between later =
      .ok (List.range' (mutations between.flatten).length (mutations later.flatten).length) := by
  obtain ⟨db₁, hfollower, h₁⟩ := follower_eq bin db₀ log between
  obtain ⟨db₂, hap, -⟩ := h₁.applyBatches_eq later
  simp only [idsAfterInstalling, hfollower, ok_bind, hap, onSuccess, Except.map]
  rw [mutationIds_applyEntries]
  rfl

variable (bin) in
/-- **Later ids agree between two replicas**, one that applied the log and one that installed
a snapshot of its beginning, exactly when the snapshot covers no mutation or there is no later
one. -/
theorem laterIds_eq (db₀ : Db) {before between earlier later later' : List (List Entry)}
    (hearlier : earlier.flatten = before.flatten ++ between.flatten)
    (hlater : later'.flatten = later.flatten) :
    idsAfterApplying bin earlier later =
        idsAfterInstalling bin db₀ (snapshotOf bin (stateAfter before.flatten)) between later' ↔
      mutations before.flatten = [] ∨ mutations later.flatten = [] := by
  rw [idsAfterApplying_eq, idsAfterInstalling_eq, hearlier, hlater, mutations_append,
    List.length_append, Except.ok.injEq, range'_eq_range'_iff, ← List.length_eq_zero_iff,
    ← List.length_eq_zero_iff]
  omega

variable (bin)

/-- **When mutation ids mean the same everywhere, and when they never repeat.** For every log,
cut anywhere and applied in any batches: the replica that applied it and the one that installed
a snapshot and applied the rest give later mutations the same ids if and only if the snapshot
covers no mutation or no mutation comes later. And over every run of one replica the ids are
strictly increasing if and only if no install lies between two mutations. -/
theorem mutation_ids_iff :
    (∀ (db₀ : Db) (before after between earlier later later' : List (List Entry)),
      earlier.flatten = before.flatten ++ between.flatten → later'.flatten = later.flatten →
      ∃ snap l a b, leader bin before after = .ok (snap, l) ∧
        idsAfterApplying bin earlier later = .ok a ∧
        idsAfterInstalling bin db₀ snap between later' = .ok b ∧
        (a = b ↔ mutations before.flatten = [] ∨ mutations later.flatten = [])) ∧
    ∀ calls, ∃ db, openDb bin Db.fresh none = .ok db ∧
      ((returnedIds bin db calls).Pairwise (· < ·) ↔ InstallsApart bin calls) := by
  constructor
  · intro db₀ before after between earlier later later' hearlier hlater
    obtain ⟨l, hleader, -⟩ := leader_eq bin before after
    have hiff := laterIds_eq bin db₀ hearlier hlater
    rw [idsAfterApplying_eq, idsAfterInstalling_eq, Except.ok.injEq] at hiff
    exact ⟨_, l, _, _, hleader, idsAfterApplying_eq _ _, idsAfterInstalling_eq _ _ _ _, hiff⟩
  · intro calls
    obtain ⟨db, hopen, h⟩ := openDb_fresh bin
    exact ⟨db, hopen, by rw [h.returnedIds_eq]; exact pairwise_idsFrom_iff _ _⟩

end Replica

/-! ### A log on which the ids collide -/

/-- The log indices a run of calls goes through. -/
def positions (calls : List Call) : List ℕ :=
  calls.flatMap fun
    | .apply entries => entries.map Entry.index
    | .installSnapshot info _ => (info.lastLogId.map fun l => l.index.toNat).toList

/-- A replica applies one mutation, installs a snapshot of the first two, and applies the
third. -/
def laggingRun [SnapshotApply] : List Call :=
  let snap := snapshotOf Bincode.ofFormats (stateAfter [addNodeAt 1, addNodeAt 2])
  [.apply [addNodeAt 1], .installSnapshot snap.info snap.snapshot, .apply [addNodeAt 3]]

/-- **Ids differ between replicas and repeat on one.** The mutation after a snapshot of one
mutation has the id `1` on the replica that applied it and `0` on the one that installed the
snapshot; and a run with advancing log indices hands out `0` twice. -/
theorem mutation_ids_collide :
    letI := SnapshotApply.documented
    (∃ snap l, leader Bincode.ofFormats [[addNodeAt 1]] [] = .ok (snap, l) ∧
      idsAfterApplying Bincode.ofFormats [[addNodeAt 1]] [[addNodeAt 2]] = .ok [1] ∧
      idsAfterInstalling Bincode.ofFormats Db.fresh snap [] [[addNodeAt 2]] = .ok [0]) ∧
    ∃ db, openDb Bincode.ofFormats Db.fresh none = .ok db ∧
      (positions laggingRun).Pairwise (· < ·) ∧
      returnedIds Bincode.ofFormats db laggingRun = [0, 0] := by
  let := SnapshotApply.documented
  constructor
  · obtain ⟨l, hleader, -⟩ := leader_eq Bincode.ofFormats [[addNodeAt 1]] []
    exact ⟨_, l, hleader, idsAfterApplying_eq _ _, idsAfterInstalling_eq _ _ _ _⟩
  · exact ⟨_, rfl, by decide, by decide +kernel⟩

end StateMachine

end SonicBrew
