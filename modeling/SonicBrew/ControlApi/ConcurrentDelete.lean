import SonicBrew.ControlApi.Calls

/-!
# Deleting a node concurrently

`delete_node` looks the node up and then removes it, in two store calls, because the store
itself says nothing about removing a node that is not there. Of two calls for the same node both
may look it up before either removes it, and then both report success
(`SonicBrew.Concurrent.deleted_twice`).

What one id goes through is a small protocol of its own (`SonicBrew.Concurrent.Deletion`): as long
as the node is there nobody has been answered, and then exactly one call is on its way to success,
and then exactly one has reported it. It follows this protocol in every run in which no call looks
the node up while another one that has found it is still to remove it
(`SonicBrew.Concurrent.LooksUpAlone`), and so exactly one call succeeds
(`SonicBrew.Concurrent.deleted_once`).
-/

namespace SonicBrew

namespace Concurrent

open GraphController

/-- How far a call for an id has come that has found the node. -/
inductive Stage where
  /-- The node is to be removed. -/
  | found
  /-- The node is removed, and its entries are to be pruned. -/
  | pruning

/-- The stage of a call for this id. -/
def stage (id : NodeId) (c : Call) : Option Stage :=
  match c.request, c.phase with
  | .deleteNode i, .updating (.mutate _ :: _) _ => if i = id then some .found else none
  | .deleteNode i, .updating _ _ => if i = id then some .pruning else none
  | _, _ => none

theorem stage_of_request_ne {id : NodeId} {c : Call} (h : c.request ≠ .deleteNode id) :
    stage id c = none := by
  obtain ⟨req, phase⟩ := c
  cases req with
  | deleteNode i =>
    have hi : i ≠ id := fun hi => h (congrArg Request.deleteNode hi)
    simp only [stage]
    split <;> simp_all
  | _ => rfl

/-- What the callers that wanted this id deleted were answered. -/
def answersTo (id : NodeId) (ds : List Done) : List (Except ControlError Value) :=
  ds.filterMap fun d =>
    match d.request with
    | .deleteNode i => if i = id then some d.answer else none
    | _ => none

theorem answersTo_append (id : NodeId) (ds ds' : List Done) :
    answersTo id (ds ++ ds') = answersTo id ds ++ answersTo id ds' := List.filterMap_append

/-- The answer to all but one of the callers. -/
abbrev noSuchNode (id : NodeId) : Except ControlError Value := .error (.notFound s!"node {id}")

/-- **The protocol of one deletion**, in terms of whether the node is there, of the stages of the
threads, and of the answers: nobody is answered and one call at most has found the node; one call
has removed it and is pruning; one call has succeeded. -/
def Deletion (id : NodeId) (present : Prop) (stages : ℕ → Option Stage)
    (answers : List (Except ControlError Value)) : Prop :=
  (present ∧ answers = [] ∧ (∀ t, stages t ≠ some .pruning) ∧
      ∀ t u, stages t = some .found → stages u = some .found → t = u) ∨
    (¬present ∧ (∀ a ∈ answers, a = noSuchNode id) ∧ (∀ t, stages t ≠ some .found) ∧
      ∃ t, stages t = some .pruning ∧ ∀ u, stages u = some .pruning → u = t) ∨
    (¬present ∧ (∀ t, stages t = none) ∧
      ∃ l₁ l₂, answers = l₁ ++ .ok .unit :: l₂ ∧ ∀ a ∈ l₁ ++ l₂, a = noSuchNode id)

namespace Deletion

variable {id : NodeId} {present : Prop} {stages : ℕ → Option Stage}
  {answers : List (Except ControlError Value)}

/-- A call that does not find the node says so. -/
theorem refuse (h : Deletion id present stages answers) (hp : ¬present) :
    Deletion id present stages (answers ++ [noSuchNode id]) := by
  rcases h with ⟨hpres, -⟩ | ⟨-, hans, hst⟩ | ⟨-, hst, l₁, l₂, rfl, hl⟩
  · exact absurd hpres hp
  · refine Or.inr (Or.inl ⟨hp, fun a ha => ?_, hst⟩)
    rcases List.mem_append.mp ha with ha | ha
    · exact hans a ha
    · exact List.mem_singleton.mp ha
  · refine Or.inr (Or.inr ⟨hp, hst, l₁, l₂ ++ [noSuchNode id], by simp, fun a ha => ?_⟩)
    rw [← List.append_assoc] at ha
    rcases List.mem_append.mp ha with ha | ha
    · exact hl a ha
    · exact List.mem_singleton.mp ha

/-- A call finds the node, no other one having found it. -/
theorem find (h : Deletion id present stages answers) (hp : present)
    (halone : ∀ t, stages t ≠ some .found) (t : ℕ) :
    Deletion id present (Function.update stages t (some .found)) answers := by
  rcases h with ⟨-, hans, hprune, -⟩ | ⟨hno, -⟩ | ⟨hno, -⟩
  · have hself : ∀ u, Function.update stages t (some .found) u = some .found → u = t := by
      intro u hu
      by_contra hne
      rw [Function.update_of_ne hne] at hu
      exact halone u hu
    refine Or.inl ⟨hp, hans, fun u hu => ?_, fun u v hu hv => (hself u hu).trans (hself v hv).symm⟩
    by_cases hut : u = t
    · rw [hut, Function.update_self] at hu
      cases hu
    · rw [Function.update_of_ne hut] at hu
      exact hprune u hu
  · exact absurd hp hno
  · exact absurd hp hno

/-- The call that has found the node removes it. -/
theorem remove (h : Deletion id present stages answers) {t : ℕ} (ht : stages t = some .found) :
    Deletion id False (Function.update stages t (some .pruning)) answers := by
  rcases h with ⟨-, hans, hprune, hone⟩ | ⟨-, -, hno, -⟩ | ⟨-, hno, -⟩
  · refine Or.inr (Or.inl ⟨fun hf => hf, fun a ha => ?_, fun u hu => ?_, t,
      Function.update_self .., fun u hu => ?_⟩)
    · rw [hans] at ha
      cases ha
    · by_cases hut : u = t
      · rw [hut, Function.update_self] at hu
        cases hu
      · rw [Function.update_of_ne hut] at hu
        exact hut (hone u t hu ht)
    · by_contra hut
      rw [Function.update_of_ne hut] at hu
      exact hprune u hu
  · exact absurd ht (hno t)
  · rw [hno t] at ht
    cases ht

/-- The call that has pruned the entries reports success. -/
theorem succeed (h : Deletion id present stages answers) {t : ℕ} (ht : stages t = some .pruning) :
    Deletion id present (Function.update stages t none) (answers ++ [.ok .unit]) := by
  rcases h with ⟨-, -, hno, -⟩ | ⟨hp, hans, hfound, u, hu, hone⟩ | ⟨-, hno, -⟩
  · exact absurd ht (hno t)
  · refine Or.inr (Or.inr ⟨hp, fun v => ?_, answers, [], rfl, fun a ha => ?_⟩)
    · by_cases hvt : v = t
      · rw [hvt, Function.update_self]
      · rw [Function.update_of_ne hvt]
        rcases hv : stages v with _ | _ | _
        · rfl
        · exact absurd hv (hfound v)
        · exact absurd ((hone v hv).trans (hone t ht).symm) hvt
    · rw [List.append_nil] at ha
      exact hans a ha
  · rw [hno t] at ht
    cases ht

end Deletion

section Delete

variable [SnapshotApply] {S F : Type} (ss : SessionStore S F)

/-- **Nobody looks in between**: when a call looks a node up, no other call that has found it is
still to remove it; and the store does not refuse to remove a node. -/
def LooksUpAlone (p : Server S) (_ : ℕ) (c : Call) (fault : F) : Prop :=
  match c.request, c.phase with
  | .deleteNode id, .started => ∀ u d, p.calls u = some d → stage id d ≠ some .found
  | .deleteNode _, .updating (.mutate m :: _) _ => ¬Refused ss p.shared m fault
  | _, _ => True

/-- The stages of all threads. -/
def stages (id : NodeId) (p : Server S) (t : ℕ) : Option Stage := (p.calls t).bind (stage id)

/-- The server follows the protocol for an id. -/
def Deletes (id : NodeId) (p : Server S) : Prop :=
  Deletion id (id ∈ (p.shared.topology ss).ids) (stages id p) (answersTo id p.answers)

variable {ss}

omit [SnapshotApply] in
theorem stages_settle (id : NodeId) (p : Server S) (t : ℕ) (s : Shared S) (r : Call ⊕ Done) :
    stages id (p.settle t s r) = Function.update (stages id p) t (r.getLeft?.bind (stage id)) := by
  funext u
  by_cases hu : u = t
  · rw [hu, Function.update_self, stages, Pool.settle_calls_self]
  · rw [Function.update_of_ne hu, stages, stages, Pool.settle_calls_of_ne p hu]

/-- **A step of a call for something else** changes nothing that the protocol of an id speaks
of. -/
theorem Deletes.other [LawfulSnapshotApply] {id : NodeId} {p : Server S} (h : Deletes ss id p)
    {t : ℕ} {c : Call} {fault : F} (hc : p.calls t = some c) (hne : c.request ≠ .deleteNode id)
    (hok : AddsNoNode c.request) (hphase : PhaseOf c.request c.phase) {s' : Shared S}
    {r : Call ⊕ Done} (hstep : Step ss p.shared fault c s' r) :
    Deletes ss id (p.settle t s' r) := by
  have hstages : stages id (p.settle t s' r) = stages id p := by
    have hnone : r.getLeft?.bind (stage id) = stages id p t := by
      rw [stages, hc, Option.bind_some, stage_of_request_ne hne]
      cases r with
      | inl c' => exact stage_of_request_ne (by rw [(hstep.phaseOf hphase).1]; exact hne)
      | inr d => rfl
    rw [stages_settle, hnone, Function.update_eq_self]
  have hans : answersTo id (p.settle t s' r).answers = answersTo id p.answers := by
    cases r with
    | inl c' => rfl
    | inr d =>
      have hd : d.request ≠ .deleteNode id := by
        cases hstep <;> exact hne
      have hnil : answersTo id [d] = [] := by
        obtain ⟨req, answer, onto⟩ := d
        cases req with
        | deleteNode i =>
          have hi : i ≠ id := fun hi => hd (congrArg Request.deleteNode hi)
          simp [answersTo, hi]
        | _ => rfl
      rw [Pool.settle_answers_inr, answersTo_append, hnil, List.append_nil]
  have hids : id ∈ (s'.topology ss).ids ↔ id ∈ (p.shared.topology ss).ids := by
    cases hstep with
    | mutate happ =>
      rw [happ.topology]
      rcases mutation_of_addsNoNode hok hphase with ⟨i, rfl, rfl⟩ | ⟨i, rfl, rfl⟩
      · rw [TopologySnapshot.mem_ids_apply_removeNode]
        exact and_iff_left fun hid => hne (congrArg Request.deleteNode hid.symm)
      · rw [apply_removeLink]
        exact Iff.rfl
    | record => rw [topology_record]
    | addLink happ =>
      rw [happ.topology, apply_addLink]
      exact Iff.rfl
    | _ => exact Iff.rfl
  rw [Deletes, hstages, hans, Pool.settle_shared, hids]
  exact h

/-- **A step of a call for the id** is a step of its protocol. -/
theorem Deletes.own [LawfulSnapshotApply] {id : NodeId} {p : Server S} (h : Deletes ss id p)
    {t : ℕ} {phase : Phase} {fault : F} (hc : p.calls t = some ⟨.deleteNode id, phase⟩)
    (hphase : PhaseOf (.deleteNode id) phase)
    (hguard : LooksUpAlone ss p t ⟨.deleteNode id, phase⟩ fault) {s' : Shared S} {r : Call ⊕ Done}
    (hstep : Step ss p.shared fault ⟨.deleteNode id, phase⟩ s' r) :
    Deletes ss id (p.settle t s' r) := by
  have hstage : stages id p t = stage id ⟨.deleteNode id, phase⟩ := by
    rw [stages, hc, Option.bind_some]
  have hanswer : ∀ a onto, answersTo id [⟨.deleteNode id, a, onto⟩] = [a] := by
    intro a onto
    simp [answersTo]
  rw [Deletes, Pool.settle_shared, stages_settle]
  cases hstep with
  | refuse hfirst =>
    obtain ⟨hid, rfl⟩ := first_deleteNode_error hfirst
    have hnone : none = stages id p t := hstage.symm
    rw [Pool.settle_answers_inr, answersTo_append, hanswer, Sum.getLeft?_inr, Option.bind_none,
      hnone, Function.update_eq_self]
    exact h.refuse hid
  | begin hfirst =>
    obtain ⟨hid, rfl⟩ := first_deleteNode_ok hfirst
    have hfound : (Sum.getLeft? (Sum.inl ⟨.deleteNode id, .updating (deleteUpdates id) .unit⟩ :
        Call ⊕ Done)).bind (stage id) = some .found := by
      simp [stage, deleteUpdates]
    rw [hfound]
    refine h.find hid (fun u hu => ?_) t
    rcases hd : p.calls u with _ | d
    · simp [stages, hd] at hu
    · rw [stages, hd, Option.bind_some] at hu
      exact hguard u d hd hu
  | finish =>
    obtain ⟨rfl, -⟩ := hphase
    rw [Pool.settle_answers_inr, answersTo_append, hanswer]
    exact h.succeed (by rw [hstage]; simp [stage])
  | abort hrefused => exact absurd hrefused hguard
  | mutate happ =>
    obtain ⟨rfl, rfl⟩ := mutate_suffix_deleteUpdates hphase.2
    have hpruning : (Sum.getLeft?
        (Sum.inl ⟨.deleteNode id, .updating (deleteUpdates id).tail .unit⟩ :
          Call ⊕ Done)).bind (stage id) = some .pruning := by
      simp [stage, deleteUpdates]
    obtain ⟨rfl, -⟩ := hphase
    have hgone : id ∈ (s'.topology ss).ids ↔ False := by
      rw [happ.topology, TopologySnapshot.mem_ids_apply_removeNode]
      exact iff_false_intro fun hid => hid.2 rfl
    rw [hpruning, hgone]
    exact h.remove (by rw [hstage]; simp [stage])
  | @record _ rec todo value =>
    have hsame : (Sum.getLeft? (Sum.inl ⟨.deleteNode id, .updating todo value⟩ : Call ⊕ Done)).bind
        (stage id) = stages id p t := by
      rw [hstage]
      have hsuffix := hphase.2
      simp only [deleteUpdates, List.suffix_cons_iff, List.suffix_nil, List.cons.injEq,
        Update.record.injEq, reduceCtorEq, false_and, false_or, or_false] at hsuffix
      rcases hsuffix with ⟨-, rfl⟩ | ⟨-, rfl⟩ | ⟨-, rfl⟩
      · rfl
      · rfl
      · rfl
    rw [topology_record, hsame, Function.update_eq_self]
    exact h
  | _ => exact hphase.elim

/-- **Concurrent deletions.** Of the calls that want an existing node deleted, in a run that brings
no node in and in which nobody looks in between, exactly one succeeds – once all have
returned – and all others are told that there is no such node. -/
theorem deleted_once [LawfulSnapshotApply] {c : GraphController S} {id : NodeId}
    (hid : id ∈ (c.topology ss).ids) {as : List (Action F)}
    (hmeets : Transition.Meets (Pool.step enter (next ss))
      (Pool.Guarded AddsNoNode (LooksUpAlone ss)) (start c) as) {p : Server S}
    (hrun : run ss (start c) as = some p) (hasked : answersTo id p.answers ≠ [])
    (hreturned : p.All fun c => c.request ≠ .deleteNode id) :
    ∃ l₁ l₂, answersTo id p.answers = l₁ ++ .ok .unit :: l₂ ∧
      ∀ a ∈ l₁ ++ l₂, a = .error (.notFound s!"node {id}") := by
  have hinv : Deletes ss id p := by
    refine invariant (fun p t req h hc _ => ?_) (fun p t c fault s' r htyped h hc hg hstep => ?_)
      (Or.inl ⟨hid, rfl, (fun t ht => nomatch ht), fun t u ht => nomatch ht⟩) hmeets hrun
    · have hnone : (Sum.getLeft? (Sum.inl (enter req) : Call ⊕ Done)).bind (stage id) =
          stages id p t := by
        rw [stages, hc]
        cases req <;> rfl
      rw [Deletes, stages_settle, hnone, Function.update_eq_self]
      exact h
    · obtain ⟨hok, hphase⟩ := htyped t c hc
      obtain ⟨req, phase⟩ := c
      by_cases hreq : req = .deleteNode id
      · subst hreq
        exact h.own hc hphase hg hstep
      · exact h.other hc hreq hok hphase hstep
  rcases hinv with ⟨-, hnil, -⟩ | ⟨-, -, -, t, ht, -⟩ | ⟨-, -, hone⟩
  · exact absurd hnil hasked
  · rcases hd : p.calls t with _ | d
    · simp [stages, hd] at ht
    · rw [stages, hd, Option.bind_some, stage_of_request_ne (hreturned t d hd)] at ht
      cases ht
  · exact hone

end Delete

/-- The steps of two calls, the second looking after the first has removed the node. -/
def deletesInTurn : List (Action (Option (RaftEngine.PersistStep × String))) :=
  [.invoke 0 (.deleteNode 1), .invoke 1 (.deleteNode 1), .advance 0 none, .advance 0 none,
    .advance 1 none, .advance 0 none, .advance 0 none, .advance 0 none, .advance 0 none]

theorem meets_deletesInTurn :
    letI := SnapshotApply.documented
    Transition.Meets (Pool.step enter (next engineStore))
      (Pool.Guarded AddsNoNode (LooksUpAlone engineStore)) (start pairController)
      deletesInTurn := by
  let := SnapshotApply.documented
  refine Transition.meets_cons trivial rfl (Transition.meets_cons trivial rfl
    (Transition.meets_cons ?_ rfl (Transition.meets_cons ?_ rfl (Transition.meets_cons ?_ rfl
    (Transition.meets_cons trivial rfl (Transition.meets_cons trivial rfl
    (Transition.meets_cons trivial rfl (Transition.meets_cons trivial rfl trivial))))))))
  · rintro (_ | _ | u) d hd
    · obtain rfl := Option.some.inj hd
      exact nofun
    · obtain rfl := Option.some.inj hd
      exact nofun
    · cases hd
  · rintro ⟨e, he⟩
    cases he
  · rintro (_ | _ | u) d hd
    · obtain rfl := Option.some.inj hd
      exact nofun
    · obtain rfl := Option.some.inj hd
      exact nofun
    · cases hd

theorem deleted_once_inTurn :
    letI := SnapshotApply.documented
    ∃ p, run engineStore (start pairController) deletesInTurn = some p ∧
      ∃ l₁ l₂, answersTo 1 p.answers = l₁ ++ .ok .unit :: l₂ ∧
        ∀ a ∈ l₁ ++ l₂, a = .error (.notFound s!"node {(1 : NodeId)}") := by
  let := SnapshotApply.documented
  have := SnapshotApply.lawful_documented
  refine ⟨_, rfl, deleted_once ?_ meets_deletesInTurn rfl ?_ ?_⟩
  · decide
  · exact nofun
  · rintro (_ | _ | u) d hd
    · cases hd
    · cases hd
    · cases hd

/-- The steps of two calls that both look before either removes. -/
def deletesAtOnce : List (Action (Option (RaftEngine.PersistStep × String))) :=
  [.invoke 0 (.deleteNode 1), .invoke 1 (.deleteNode 1), .advance 0 none, .advance 1 none,
    .advance 0 none, .advance 1 none, .advance 0 none, .advance 0 none, .advance 0 none,
    .advance 0 none, .advance 1 none, .advance 1 none, .advance 1 none, .advance 1 none]

/-- **Two calls report that they have deleted the same node.** -/
theorem deleted_twice :
    letI := SnapshotApply.documented
    ∃ p, run engineStore (start pairController) deletesAtOnce = some p ∧
      1 ∈ (pairController.topology engineStore).ids ∧
      answersTo 1 p.answers = [.ok .unit, .ok .unit] := by
  let := SnapshotApply.documented
  refine ⟨_, rfl, ?_, rfl⟩
  decide

end Concurrent

end SonicBrew
