import SonicBrew.ControlApi.Calls

/-!
# The registries under concurrent creations and deletions

`create_node` adds its node and then inserts a label, a kind and parameters; `delete_node` removes
its node and then prunes all three. These are four steps each, and ids are used again, so the
entries of one id may be written by several calls at once: a node may be deleted before its entries
are inserted, and a pruning that comes late takes the entries of a new node
(`SonicBrew.Concurrent.registries_mixed`).

The entries that an id should have follow from the store calls that went through
(`SonicBrew.Concurrent.wanted`). In a run in which nobody adds a node under an id that is taken or
still being pruned, and nobody removes a node that is still being recorded
(`SonicBrew.Concurrent.OneAtATime`), whatever a call has ahead of it turns the entries of its id
into the wanted ones; so once all calls have returned, the registries are as wanted
(`SonicBrew.Concurrent.registries_of_run`).
-/

namespace SonicBrew

namespace Concurrent

open GraphController

/-- All operations but imports. -/
def NoImport : Request → Prop
  | .importPreset _ => False
  | _ => True

/-! ### The entries of one id -/

/-- The id whose entries are updated. -/
def Record.id : Record → NodeId
  | .insertLabel id _ => id
  | .insertKind id _ => id
  | .insertParams id _ => id
  | .removeLabel id => id
  | .removeKind id => id
  | .removeParams id => id

/-- What an update does to the entries of its id. -/
def Record.onEntry (e : NodeEntry) : Record → NodeEntry
  | .insertLabel _ label => { e with label := some label }
  | .insertKind _ kind => { e with kind := kind.or e.kind }
  | .insertParams _ params => { e with params := params.or e.params }
  | .removeLabel _ => { e with label := none }
  | .removeKind _ => { e with kind := none }
  | .removeParams _ => { e with params := none }

theorem entry_record_self {S : Type} (c : GraphController S) (r : Record) :
    (r.apply c).entry r.id = r.onEntry (c.entry r.id) := by
  cases r with
  | insertLabel => exact NodeEntry.ext (Registry.insert_self ..) rfl rfl
  | insertKind => exact NodeEntry.ext rfl (Registry.insertSome_self ..) rfl
  | insertParams => exact NodeEntry.ext rfl rfl (Registry.insertSome_self ..)
  | removeLabel => exact NodeEntry.ext (Registry.remove_self ..) rfl rfl
  | removeKind => exact NodeEntry.ext rfl (Registry.remove_self ..) rfl
  | removeParams => exact NodeEntry.ext rfl rfl (Registry.remove_self ..)

theorem entry_record_of_ne {S : Type} (c : GraphController S) (r : Record) {id : NodeId}
    (h : id ≠ r.id) : (r.apply c).entry id = c.entry id := by
  cases r with
  | insertLabel => exact NodeEntry.ext (Registry.insert_of_ne _ _ h) rfl rfl
  | insertKind => exact NodeEntry.ext rfl (Registry.insertSome_of_ne _ _ h) rfl
  | insertParams => exact NodeEntry.ext rfl rfl (Registry.insertSome_of_ne _ _ h)
  | removeLabel => exact NodeEntry.ext (Registry.remove_of_ne _ h) rfl rfl
  | removeKind => exact NodeEntry.ext rfl (Registry.remove_of_ne _ h) rfl
  | removeParams => exact NodeEntry.ext rfl rfl (Registry.remove_of_ne _ h)

/-- What a list of updates makes of the entries of the id they are for. -/
def entryAfter (todo : List Update) (e : NodeEntry) : NodeEntry :=
  todo.foldl (fun e u =>
    match u with
    | .mutate _ => e
    | .record r => r.onEntry e) e

/-- The id whose entries a call is updating, its store call being behind it. -/
def touches (c : Call) : Option NodeId :=
  match c.phase with
  | .updating (.record r :: _) _ => some r.id
  | _ => none

/-- The updates ahead of a call. -/
def ahead (c : Call) : List Update :=
  match c.phase with
  | .updating todo _ => todo
  | _ => []

/-- The entries a request asks for. -/
def specEntry (spec : NodeSpec) : NodeEntry :=
  ⟨some spec.label, (checkKind spec).toOption.join, spec.params⟩

/-- **The entries an id should have**, given those before and the store calls that went through
since: what the last creation under it asked for, or none if the node was removed after that. -/
def wanted (base : NodeId → NodeEntry) (log : List (Request × Mutation)) : NodeId → NodeEntry :=
  log.foldl (fun w x =>
    match x with
    | (.createNode spec, .addNode n) => Function.update w n.id (specEntry spec)
    | (_, .removeNode id) => Function.update w id NodeEntry.none
    | _ => w) base

theorem wanted_addNode (base : NodeId → NodeEntry) (log : List (Request × Mutation))
    (spec : NodeSpec) (n : NodeSnapshot) :
    wanted base (log ++ [(.createNode spec, .addNode n)]) =
      Function.update (wanted base log) n.id (specEntry spec) := List.foldl_append ..

theorem wanted_removeNode (base : NodeId → NodeEntry) (log : List (Request × Mutation))
    (i id : NodeId) :
    wanted base (log ++ [(.deleteNode i, .removeNode id)]) =
      Function.update (wanted base log) id NodeEntry.none := List.foldl_append ..

theorem wanted_addLink (base : NodeId → NodeEntry) (log : List (Request × Mutation)) (req : Request)
    (e : SnapshotEdge) : wanted base (log ++ [(req, .addLink e)]) = wanted base log := by
  rw [wanted, List.foldl_append]
  cases req <;> rfl

theorem wanted_removeLink (base : NodeId → NodeEntry) (log : List (Request × Mutation))
    (req : Request) (i : LinkId) :
    wanted base (log ++ [(req, .removeLink i)]) = wanted base log := by
  rw [wanted, List.foldl_append]
  cases req <;> rfl

/-- The updates after the store call of a creation record what was asked for. -/
theorem entryAfter_createUpdates {spec : NodeSpec} {kind : Option String}
    (hkind : checkKind spec = .ok kind) (id : NodeId) :
    entryAfter (createUpdates spec kind id).tail NodeEntry.none = specEntry spec := by
  rw [specEntry, hkind]
  refine NodeEntry.ext rfl ?_ ?_
  · cases kind <;> rfl
  · cases hp : spec.params with
    | none => simp [entryAfter, createUpdates, Record.onEntry, NodeEntry.none, hp]
    | some p => simp [entryAfter, createUpdates, Record.onEntry, NodeEntry.none, hp]

/-- Those after the store call of a deletion leave nothing. -/
theorem entryAfter_deleteUpdates (id : NodeId) (e : NodeEntry) :
    entryAfter (deleteUpdates id).tail e = NodeEntry.none := rfl

/-- If the prunings ahead of a call leave nothing, they still do after another pruning. -/
theorem entryAfter_onEntry {todo : List Update} {id : NodeId} (h : todo <:+ (deleteUpdates id).tail)
    {r : Record} (hr : .record r ∈ deleteUpdates id) {e : NodeEntry}
    (he : entryAfter todo e = NodeEntry.none) : entryAfter todo (r.onEntry e) = NodeEntry.none := by
  have hr' : r = .removeLabel id ∨ r = .removeKind id ∨ r = .removeParams id := by
    simpa [deleteUpdates] using hr
  have htodo : todo = (deleteUpdates id).tail ∨ todo = [.record (.removeKind id),
      .record (.removeParams id)] ∨ todo = [.record (.removeParams id)] ∨ todo = [] := by
    simpa [deleteUpdates, List.suffix_cons_iff] using h
  obtain ⟨label, kind, params⟩ := e
  rcases htodo with rfl | rfl | rfl | rfl
  · exact entryAfter_deleteUpdates ..
  · rcases hr' with rfl | rfl | rfl
    · simp_all [entryAfter, Record.onEntry, NodeEntry.none]
    · exact he
    · exact he
  · rcases hr' with rfl | rfl | rfl
    · simp_all [entryAfter, Record.onEntry, NodeEntry.none]
    · simp_all [entryAfter, Record.onEntry, NodeEntry.none]
    · exact he
  · rcases hr' with rfl | rfl | rfl
    · simp_all [entryAfter, Record.onEntry, NodeEntry.none]
    · simp_all [entryAfter, Record.onEntry, NodeEntry.none]
    · simp_all [entryAfter, Record.onEntry, NodeEntry.none]

/-! ### Calls that are updating entries -/

/-- The call is inserting the entries of a node it has added. -/
def Inserts (id : NodeId) (c : Call) : Prop :=
  match c.request with
  | .createNode _ => touches c = some id
  | _ => False

/-- The call is pruning the entries of a node it has removed. -/
def Prunes (id : NodeId) (c : Call) : Prop :=
  match c.request with
  | .deleteNode _ => touches c = some id
  | _ => False

theorem Inserts.touches_eq {id : NodeId} {c : Call} (h : Inserts id c) : touches c = some id := by
  rw [Inserts] at h
  split at h
  · exact h
  · exact h.elim

theorem Prunes.touches_eq {id : NodeId} {c : Call} (h : Prunes id c) : touches c = some id := by
  rw [Prunes] at h
  split at h
  · exact h
  · exact h.elim

theorem Inserts.of_request {id : NodeId} {c d : Call} (h : Inserts id d)
    (hreq : c.request = d.request) (htouch : touches c = some id) : Inserts id c := by
  rw [Inserts] at h ⊢
  rw [hreq]
  split at h
  · exact htouch
  · exact h.elim

theorem Prunes.of_request {id : NodeId} {c d : Call} (h : Prunes id d)
    (hreq : c.request = d.request) (htouch : touches c = some id) : Prunes id c := by
  rw [Prunes] at h ⊢
  rw [hreq]
  split at h
  · exact htouch
  · exact h.elim

/-- Only creations and deletions touch the registries. -/
theorem inserts_or_prunes {c : Call} {id : NodeId} (hok : NoImport c.request)
    (hphase : PhaseOf c.request c.phase) (h : touches c = some id) :
    Inserts id c ∨ Prunes id c := by
  obtain ⟨req, phase⟩ := c
  cases req with
  | createNode => exact Or.inl h
  | deleteNode => exact Or.inr h
  | importPreset => exact hok.elim
  | deleteLink i =>
    cases phase with
    | updating todo value =>
      cases todo with
      | nil => cases h
      | cons u todo =>
        cases u with
        | mutate => cases h
        | record r => simpa [List.suffix_cons_iff] using hphase.2
    | _ => cases h
  | linkPorts =>
    cases phase with
    | updating => exact hphase.elim
    | _ => cases h
  | exportPreset =>
    cases phase with
    | updating => exact hphase.elim
    | _ => cases h
  | getTopology =>
    cases phase with
    | updating => exact hphase.elim
    | _ => cases h

/-- After an update a call has none left, or goes on with the entries of the same id. -/
theorem record_phase {req : Request} {r : Record} {todo : List Update} {value : Value}
    (hok : NoImport req) (hphase : PhaseOf req (.updating (.record r :: todo) value)) :
    todo = [] ∨ touches ⟨req, .updating todo value⟩ = some r.id := by
  cases req with
  | createNode spec =>
    obtain ⟨kind, id, -, -, hs⟩ := hphase
    have hcases : r = .insertLabel id spec.label ∧ todo = [.record (.insertKind id kind),
        .record (.insertParams id spec.params)] ∨ r = .insertKind id kind ∧
        todo = [.record (.insertParams id spec.params)] ∨ r = .insertParams id spec.params ∧
        todo = [] := by simpa [createUpdates, List.suffix_cons_iff] using hs
    rcases hcases with ⟨rfl, rfl⟩ | ⟨rfl, rfl⟩ | ⟨rfl, rfl⟩
    · exact Or.inr rfl
    · exact Or.inr rfl
    · exact Or.inl rfl
  | deleteNode id =>
    have hcases : r = .removeLabel id ∧ todo = [.record (.removeKind id),
        .record (.removeParams id)] ∨ r = .removeKind id ∧ todo = [.record (.removeParams id)] ∨
        r = .removeParams id ∧ todo = [] := by
      simpa [deleteUpdates, List.suffix_cons_iff] using hphase.2
    rcases hcases with ⟨rfl, rfl⟩ | ⟨rfl, rfl⟩ | ⟨rfl, rfl⟩
    · exact Or.inr rfl
    · exact Or.inr rfl
    · exact Or.inl rfl
  | deleteLink i => simpa [List.suffix_cons_iff] using hphase.2
  | importPreset => exact hok.elim
  | linkPorts => exact hphase.elim
  | exportPreset => exact hphase.elim
  | getTopology => exact hphase.elim

/-- A call that prunes has prunings ahead of it, of its own id. -/
theorem Prunes.ahead_suffix {id : NodeId} {c : Call} (h : Prunes id c)
    (hphase : PhaseOf c.request c.phase) :
    ahead c <:+ (deleteUpdates id).tail ∧ ∃ r, (ahead c).head? = some (.record r) ∧
      .record r ∈ deleteUpdates id := by
  obtain ⟨req, phase⟩ := c
  cases req with
  | deleteNode i =>
    cases phase with
    | updating todo value =>
      cases todo with
      | nil => cases h
      | cons u todo =>
        cases u with
        | mutate => cases h
        | record r =>
          have hs : .record r :: todo <:+ (deleteUpdates i).tail := by
            rcases List.suffix_cons_iff.mp hphase.2 with hs | hs
            · cases (List.cons.inj hs).1
            · exact hs
          have hmem : .record r ∈ deleteUpdates i :=
            hphase.2.subset List.mem_cons_self
          obtain rfl : i = id := by
            have hid : r.id = id := Option.some.inj h
            have hcases : r = .removeLabel i ∨ r = .removeKind i ∨ r = .removeParams i := by
              simpa [deleteUpdates] using hmem
            rcases hcases with rfl | rfl | rfl
            · exact hid
            · exact hid
            · exact hid
          exact ⟨hs, r, rfl, hmem⟩
    | _ => cases h
  | _ => exact h.elim

section Registries

variable [SnapshotApply] {S F : Type} (ss : SessionStore S F)

/-- **One at a time**: unless the store refuses the call, a node is added under an id that is free
and whose entries nobody is pruning, and a node is removed whose entries nobody is inserting. -/
def OneAtATime (p : Server S) (_ : ℕ) (c : Call) (fault : F) : Prop :=
  match c.phase with
  | .updating (.mutate (.addNode n) :: _) _ =>
      ¬Refused ss p.shared (.addNode n) fault →
        n.id ∉ (p.shared.topology ss).ids ∧ ¬p.Some (Prunes n.id)
  | .updating (.mutate (.removeNode id) :: _) _ =>
      ¬Refused ss p.shared (.removeNode id) fault → ¬p.Some (Inserts id)
  | _ => True

/-- **The invariant**: entries are inserted for nodes that are there, by one call at a time, and
pruned for nodes that are not; what a call has ahead of it leads to the wanted entries, and where
no call is at work they are there. -/
structure RegistriesInv (base : NodeId → NodeEntry) (p : Server S) : Prop where
  absent : ∀ id, id ∉ (p.shared.topology ss).ids → wanted base p.shared.log id = NodeEntry.none
  inserts : ∀ t c id, p.calls t = some c → Inserts id c → id ∈ (p.shared.topology ss).ids
  prunes : ∀ t c id, p.calls t = some c → Prunes id c → id ∉ (p.shared.topology ss).ids
  alone : ∀ t u c d id, t ≠ u → p.calls t = some c → p.calls u = some d → Inserts id c →
    ¬Inserts id d
  pending : ∀ t c id, p.calls t = some c → touches c = some id →
    entryAfter (ahead c) (p.shared.ctrl.entry id) = wanted base p.shared.log id
  settled : ∀ id, (∀ t c, p.calls t = some c → touches c ≠ some id) →
    p.shared.ctrl.entry id = wanted base p.shared.log id

variable {ss} {base : NodeId → NodeEntry}

/-- **A step that concerns no entry** keeps the invariant. -/
theorem RegistriesInv.frame {p : Server S} (h : RegistriesInv ss base p) {t : ℕ} {s' : Shared S}
    {r : Call ⊕ Done}
    (hids : ∀ id, id ∈ (s'.topology ss).ids ↔ id ∈ (p.shared.topology ss).ids)
    (hentry : s'.ctrl.entry = p.shared.ctrl.entry)
    (hwanted : wanted base s'.log = wanted base p.shared.log)
    (hbefore : ∀ c, p.calls t = some c → touches c = none)
    (hafter : ∀ c', r = .inl c' → touches c' = none) :
    RegistriesInv ss base (p.settle t s' r) := by
  have hold : ∀ u d id, (p.settle t s' r).calls u = some d → touches d = some id →
      p.calls u = some d := by
    intro u d id hd htouch
    rcases Pool.settle_calls_cases hd with ⟨-, hr⟩ | ⟨-, hu⟩
    · rw [hafter d hr] at htouch
      cases htouch
    · exact hu
  have hnew : ∀ u d id, p.calls u = some d → touches d = some id →
      (p.settle t s' r).calls u = some d := by
    intro u d id hd htouch
    have hu : u ≠ t := by
      rintro rfl
      rw [hbefore d hd] at htouch
      cases htouch
    rw [Pool.settle_calls_of_ne p hu]
    exact hd
  refine ⟨?_, ?_, ?_, ?_, ?_, ?_⟩
  · intro id hid
    rw [Pool.settle_shared, hids] at hid
    rw [Pool.settle_shared, hwanted]
    exact h.absent id hid
  · intro u d id hd hins
    rw [Pool.settle_shared, hids]
    exact h.inserts u d id (hold u d id hd hins.touches_eq) hins
  · intro u d id hd hpr
    rw [Pool.settle_shared, hids]
    exact h.prunes u d id (hold u d id hd hpr.touches_eq) hpr
  · intro u v d d' id huv hd hd' hins hins'
    exact h.alone u v d d' id huv (hold u d id hd hins.touches_eq)
      (hold v d' id hd' hins'.touches_eq) hins hins'
  · intro u d id hd htouch
    rw [Pool.settle_shared, hentry, hwanted]
    exact h.pending u d id (hold u d id hd htouch) htouch
  · intro id hnone
    rw [Pool.settle_shared, hentry, hwanted]
    exact h.settled id fun u d hd htouch => hnone u d (hnew u d id hd htouch) htouch

/-- Two calls that are at work on the entries of one id are both pruning them. -/
theorem RegistriesInv.both_prune {p : Server S} (h : RegistriesInv ss base p)
    (htyped : Typed NoImport p) {t u : ℕ} {c d : Call} {id : NodeId} (htu : t ≠ u)
    (hc : p.calls t = some c) (hd : p.calls u = some d) (htc : touches c = some id)
    (htd : touches d = some id) : Prunes id c ∧ Prunes id d := by
  obtain ⟨hokc, hphasec⟩ := htyped t c hc
  obtain ⟨hokd, hphased⟩ := htyped u d hd
  rcases inserts_or_prunes hokc hphasec htc with hic | hpc
  · rcases inserts_or_prunes hokd hphased htd with hid | hpd
    · exact absurd hid (h.alone t u c d id htu hc hd hic)
    · exact absurd (h.inserts t c id hc hic) (h.prunes u d id hd hpd)
  · rcases inserts_or_prunes hokd hphased htd with hid | hpd
    · exact absurd (h.inserts u d id hd hid) (h.prunes t c id hc hpc)
    · exact ⟨hpc, hpd⟩

/-- **An update of a registry** keeps the invariant: only calls that prune the same id can be at
work besides. -/
theorem RegistriesInv.record {p : Server S} (h : RegistriesInv ss base p)
    (htyped : Typed NoImport p) {t : ℕ} {req : Request} {r : Record} {todo : List Update}
    {value : Value} (hc : p.calls t = some ⟨req, .updating (.record r :: todo) value⟩) :
    RegistriesInv ss base (p.settle t { p.shared with ctrl := r.apply p.shared.ctrl }
      (.inl ⟨req, .updating todo value⟩)) := by
  obtain ⟨hok, hphase⟩ := htyped t _ hc
  -- the call goes on with the same id, as the same kind of call
  have hself : ∀ id, touches ⟨req, .updating todo value⟩ = some id → id = r.id := by
    intro id hid
    rcases record_phase hok hphase with rfl | htouch
    · cases hid
    · exact Option.some.inj (hid.symm.trans htouch)
  have hold : ∀ u d id, (p.settle t { p.shared with ctrl := r.apply p.shared.ctrl }
      (.inl ⟨req, .updating todo value⟩)).calls u = some d → touches d = some id →
      ∃ c, p.calls u = some c ∧ c.request = d.request ∧ touches c = some id := by
    intro u d id hd htouch
    rcases Pool.settle_calls_cases hd with ⟨rfl, hr⟩ | ⟨-, hu⟩
    · obtain rfl := Sum.inl.inj hr
      rw [hself id htouch]
      exact ⟨_, hc, rfl, rfl⟩
    · exact ⟨d, hu, rfl, htouch⟩
  refine ⟨?_, ?_, ?_, ?_, ?_, ?_⟩
  · intro id hid
    rw [Pool.settle_shared, topology_record] at hid
    exact h.absent id hid
  · intro u d id hd hi
    obtain ⟨c, hcu, hreq, htouch⟩ := hold u d id hd hi.touches_eq
    rw [Pool.settle_shared, topology_record]
    exact h.inserts u c id hcu (hi.of_request hreq htouch)
  · intro u d id hd hp
    obtain ⟨c, hcu, hreq, htouch⟩ := hold u d id hd hp.touches_eq
    rw [Pool.settle_shared, topology_record]
    exact h.prunes u c id hcu (hp.of_request hreq htouch)
  · intro u v d d' id huv hd hd' hi hi'
    obtain ⟨c, hcu, hreq, htouch⟩ := hold u d id hd hi.touches_eq
    obtain ⟨c', hcv, hreq', htouch'⟩ := hold v d' id hd' hi'.touches_eq
    exact h.alone u v c c' id huv hcu hcv (hi.of_request hreq htouch) (hi'.of_request hreq' htouch')
  · intro u d id hd htouch
    rw [Pool.settle_shared]
    rcases Pool.settle_calls_cases hd with ⟨-, hr⟩ | ⟨hut, hu⟩
    · obtain rfl := Sum.inl.inj hr
      obtain rfl := hself id htouch
      change entryAfter todo ((r.apply p.shared.ctrl).entry r.id) = _
      rw [entry_record_self]
      exact h.pending t _ r.id hc rfl
    · change entryAfter (ahead d) ((r.apply p.shared.ctrl).entry id) = _
      by_cases hid : id = r.id
      · subst hid
        rw [entry_record_self]
        obtain ⟨hpc, hpd⟩ := h.both_prune htyped (Ne.symm hut) hc hu rfl htouch
        have hnone := h.absent r.id (h.prunes t _ r.id hc hpc)
        have hpend := h.pending u d r.id hu htouch
        change _ = wanted base p.shared.log r.id
        rw [hnone] at hpend ⊢
        obtain ⟨-, r', hr', hmem⟩ := hpc.ahead_suffix hphase
        obtain rfl : r = r' := Update.record.inj (Option.some.inj hr')
        exact entryAfter_onEntry (hpd.ahead_suffix (htyped u d hu).2).1 hmem hpend
      · rw [entry_record_of_ne _ _ hid]
        exact h.pending u d id hu htouch
  · intro id hnone
    rw [Pool.settle_shared]
    change (r.apply p.shared.ctrl).entry id = wanted base p.shared.log id
    by_cases hid : id = r.id
    · subst hid
      rw [entry_record_self]
      rcases record_phase hok hphase with rfl | htouch
      · exact h.pending t _ r.id hc rfl
      · exact absurd htouch (hnone t _ (Pool.settle_calls_self ..))
    · rw [entry_record_of_ne _ _ hid]
      refine h.settled id fun u d hd htouch => ?_
      by_cases hut : u = t
      · subst hut
        obtain rfl := Option.some.inj (hc.symm.trans hd)
        exact hid (Option.some.inj htouch).symm
      · exact hnone u d ((Pool.settle_calls_of_ne p hut ..).trans hd) htouch

/-- **A store call that changes what is wanted for an id** keeps the invariant, if the call that
made it has the new entries ahead of it and all others at work on the id are pruning it. -/
theorem RegistriesInv.mutate {p : Server S} (h : RegistriesInv ss base p) {t : ℕ} {s' : Shared S}
    {c' : Call} (id : NodeId) (e : NodeEntry)
    (hids : ∀ i, i ≠ id → (i ∈ (s'.topology ss).ids ↔ i ∈ (p.shared.topology ss).ids))
    (hentry : s'.ctrl.entry = p.shared.ctrl.entry)
    (hwanted : wanted base s'.log = Function.update (wanted base p.shared.log) id e)
    (habsent : id ∉ (s'.topology ss).ids → e = NodeEntry.none)
    (hbefore : ∀ c, p.calls t = some c → touches c = none) (hself : touches c' = some id)
    (hahead : entryAfter (ahead c') (p.shared.ctrl.entry id) = e)
    (hins : Inserts id c' → id ∈ (s'.topology ss).ids)
    (hpru : Prunes id c' → id ∉ (s'.topology ss).ids)
    (hothers : ∀ u d, p.calls u = some d → touches d = some id →
      ¬Inserts id d ∧ id ∉ (s'.topology ss).ids ∧ wanted base p.shared.log id = e) :
    RegistriesInv ss base (p.settle t s' (.inl c')) := by
  have hselfid : ∀ i, touches c' = some i → i = id := fun i hi =>
    Option.some.inj (hi.symm.trans hself)
  have hw : ∀ i, i ≠ id → wanted base s'.log i = wanted base p.shared.log i := by
    intro i hi
    rw [hwanted, Function.update_of_ne hi]
  have hwself : wanted base s'.log id = e := by
    rw [hwanted, Function.update_self]
  refine ⟨?_, ?_, ?_, ?_, ?_, ?_⟩
  · intro i hi
    rw [Pool.settle_shared] at hi ⊢
    by_cases hid : i = id
    · subst hid
      rw [hwself]
      exact habsent hi
    · rw [hw i hid]
      exact h.absent i fun hmem => hi ((hids i hid).mpr hmem)
  · intro u d i hd hi
    rw [Pool.settle_shared]
    rcases Pool.settle_calls_cases hd with ⟨-, hr⟩ | ⟨-, hu⟩
    · obtain rfl := Sum.inl.inj hr
      obtain rfl := hselfid i hi.touches_eq
      exact hins hi
    · by_cases hid : i = id
      · subst hid
        exact absurd hi (hothers u d hu hi.touches_eq).1
      · exact (hids i hid).mpr (h.inserts u d i hu hi)
  · intro u d i hd hi
    rw [Pool.settle_shared]
    rcases Pool.settle_calls_cases hd with ⟨-, hr⟩ | ⟨-, hu⟩
    · obtain rfl := Sum.inl.inj hr
      obtain rfl := hselfid i hi.touches_eq
      exact hpru hi
    · by_cases hid : i = id
      · subst hid
        exact (hothers u d hu hi.touches_eq).2.1
      · exact fun hmem => h.prunes u d i hu hi ((hids i hid).mp hmem)
  · intro u v d d' i huv hd hd' hi hi'
    rcases Pool.settle_calls_cases hd with ⟨rfl, hr⟩ | ⟨-, hu⟩
    · obtain rfl := Sum.inl.inj hr
      obtain rfl := hselfid i hi.touches_eq
      rcases Pool.settle_calls_cases hd' with ⟨rfl, -⟩ | ⟨-, hv⟩
      · exact huv rfl
      · exact (hothers v d' hv hi'.touches_eq).1 hi'
    · rcases Pool.settle_calls_cases hd' with ⟨rfl, hr⟩ | ⟨-, hv⟩
      · obtain rfl := Sum.inl.inj hr
        obtain rfl := hselfid i hi'.touches_eq
        exact (hothers u d hu hi.touches_eq).1 hi
      · exact h.alone u v d d' i huv hu hv hi hi'
  · intro u d i hd htouch
    rw [Pool.settle_shared, hentry]
    rcases Pool.settle_calls_cases hd with ⟨-, hr⟩ | ⟨-, hu⟩
    · obtain rfl := Sum.inl.inj hr
      obtain rfl := hselfid i htouch
      rw [hwself]
      exact hahead
    · by_cases hid : i = id
      · subst hid
        rw [h.pending u d i hu htouch, hwself]
        exact (hothers u d hu htouch).2.2
      · rw [hw i hid]
        exact h.pending u d i hu htouch
  · intro i hnone
    have hid : i ≠ id := by
      rintro rfl
      exact hnone t c' (Pool.settle_calls_self ..) hself
    rw [Pool.settle_shared, hentry, hw i hid]
    refine h.settled i fun u d hd htouch => ?_
    have hut : u ≠ t := by
      rintro rfl
      rw [hbefore d hd] at htouch
      cases htouch
    exact hnone u d ((Pool.settle_calls_of_ne p hut ..).trans hd) htouch

variable [LawfulSnapshotApply]

/-- **A node is added** under an id that is free, and for which no call is at work then. -/
theorem RegistriesInv.addNode {p : Server S} (h : RegistriesInv ss base p)
    (htyped : Typed NoImport p) {t : ℕ} {spec : NodeSpec} {kind : Option String} {id : NodeId}
    (hc : p.calls t = some ⟨.createNode spec, .updating (createUpdates spec kind id) (.node id)⟩)
    (hkind : checkKind spec = .ok kind) (hfree : id ∉ (p.shared.topology ss).ids)
    (hnoprune : ¬p.Some (Prunes id)) {s' : Shared S}
    (happ : Applied ss p.shared s' (.createNode spec) (.addNode (nodeOf spec id))) :
    RegistriesInv ss base (p.settle t s'
      (.inl ⟨.createNode spec, .updating (createUpdates spec kind id).tail (.node id)⟩)) := by
  have hnobody : ∀ u d, p.calls u = some d → touches d ≠ some id := by
    intro u d hd htouch
    obtain ⟨hokd, hphased⟩ := htyped u d hd
    rcases inserts_or_prunes hokd hphased htouch with hi | hp
    · exact hfree (h.inserts u d id hd hi)
    · exact hnoprune ⟨u, d, hd, hp⟩
  have hmem : id ∈ (s'.topology ss).ids := by
    rw [happ.topology, TopologySnapshot.mem_ids_apply_addNode]
    exact Or.inl rfl
  refine h.mutate id (specEntry spec) (fun i hi => ?_) happ.entry ?_ (fun hno => absurd hmem hno)
    (fun d hd => ?_) rfl ?_ (fun _ => hmem) (fun hp => hp.elim)
    fun u d hd htouch => absurd htouch (hnobody u d hd)
  · rw [happ.topology, TopologySnapshot.mem_ids_apply_addNode]
    exact or_iff_right hi
  · rw [happ.log]
    exact wanted_addNode ..
  · obtain rfl := Option.some.inj (hc.symm.trans hd)
    rfl
  · rw [h.settled id hnobody, h.absent id hfree]
    exact entryAfter_createUpdates hkind id

/-- **A node is removed**, and no call inserts entries for it. -/
theorem RegistriesInv.removeNode {p : Server S} (h : RegistriesInv ss base p)
    (htyped : Typed NoImport p) {t : ℕ} {id : NodeId}
    (hc : p.calls t = some ⟨.deleteNode id, .updating (deleteUpdates id) .unit⟩)
    (hnoinsert : ¬p.Some (Inserts id)) {s' : Shared S}
    (happ : Applied ss p.shared s' (.deleteNode id) (.removeNode id)) :
    RegistriesInv ss base (p.settle t s'
      (.inl ⟨.deleteNode id, .updating (deleteUpdates id).tail .unit⟩)) := by
  have hgone : id ∉ (s'.topology ss).ids := by
    rw [happ.topology, TopologySnapshot.mem_ids_apply_removeNode]
    exact fun hmem => hmem.2 rfl
  refine h.mutate id NodeEntry.none (fun i hi => ?_) happ.entry ?_ (fun _ => rfl) (fun d hd => ?_)
    rfl (entryAfter_deleteUpdates ..) (fun hi => hi.elim) (fun _ => hgone) fun u d hd htouch => ?_
  · rw [happ.topology, TopologySnapshot.mem_ids_apply_removeNode]
    exact and_iff_left hi
  · rw [happ.log]
    exact wanted_removeNode ..
  · obtain rfl := Option.some.inj (hc.symm.trans hd)
    rfl
  · -- whoever else is at work on the id prunes it, so it had no node before either
    have hnot : ¬Inserts id d := fun hi => hnoinsert ⟨u, d, hd, hi⟩
    obtain ⟨hokd, hphased⟩ := htyped u d hd
    have hp : Prunes id d := (inserts_or_prunes hokd hphased htouch).resolve_left hnot
    exact ⟨hnot, hgone, h.absent id (h.prunes u d id hd hp)⟩

/-- **Every step under the guard keeps the invariant.** -/
theorem RegistriesInv.step {p : Server S} (h : RegistriesInv ss base p)
    (htyped : Typed NoImport p) {t : ℕ} {c : Call} {fault : F} (hc : p.calls t = some c)
    (hguard : OneAtATime ss p t c fault) {s' : Shared S} {r : Call ⊕ Done}
    (hstep : Step ss p.shared fault c s' r) : RegistriesInv ss base (p.settle t s' r) := by
  obtain ⟨hok, hphase⟩ := htyped t c hc
  -- a step of a call that does not touch the registries, before or after
  have hquiet : touches c = none → s' = p.shared → (∀ c', r = .inl c' → touches c' = none) →
      RegistriesInv ss base (p.settle t s' r) := by
    rintro hbefore rfl hafter
    refine h.frame (fun id => Iff.rfl) rfl rfl (fun d hd => ?_) hafter
    obtain rfl := Option.some.inj (hc.symm.trans hd)
    exact hbefore
  have hmoved : touches c = none → ∀ d, p.calls t = some d → touches d = none := by
    intro hbefore d hd
    obtain rfl := Option.some.inj (hc.symm.trans hd)
    exact hbefore
  cases hstep with
  | begin hfirst =>
    refine hquiet rfl rfl fun c' hr => ?_
    obtain rfl := Sum.inl.inj hr
    rcases first_ok_cases hfirst with ⟨e, rfl, -⟩ | rfl | ⟨todo, value, rfl, hne⟩
    · rfl
    · rfl
    · rcases todo with _ | ⟨_ | r, rest⟩
      · rfl
      · rfl
      · exact absurd rfl (hne r rest)
  | @mutate req m todo value s' happ haccepted =>
    cases req with
    | createNode spec =>
      obtain ⟨kind, id, hkind, rfl, hsuffix⟩ := hphase
      obtain ⟨rfl, rfl⟩ := mutate_suffix_createUpdates hsuffix
      obtain ⟨hfree, hnoprune⟩ := hguard haccepted
      exact h.addNode htyped hc hkind hfree hnoprune happ
    | deleteNode id =>
      obtain ⟨rfl, rfl⟩ := mutate_suffix_deleteUpdates hphase.2
      obtain ⟨rfl, -⟩ := hphase
      exact h.removeNode htyped hc (hguard haccepted) happ
    | deleteLink i =>
      obtain ⟨rfl, rfl⟩ := mutate_suffix_removeLink hphase.2
      refine h.frame (fun id => ?_) happ.entry ?_ (hmoved rfl) fun c' hr => ?_
      · rw [happ.topology, apply_removeLink]
        exact Iff.rfl
      · rw [happ.log]
        exact wanted_removeLink ..
      · obtain rfl := Sum.inl.inj hr
        rfl
    | importPreset => exact hok.elim
    | linkPorts => exact hphase.elim
    | exportPreset => exact hphase.elim
    | getTopology => exact hphase.elim
  | record => exact h.record htyped hc
  | addLink happ =>
    refine h.frame (fun id => ?_) happ.entry ?_ (hmoved rfl) fun c' hr => ?_
    · rw [happ.topology, apply_addLink]
      exact Iff.rfl
    · rw [happ.log]
      exact wanted_addLink ..
    · obtain rfl := Sum.inl.inj hr
      rfl
  | listNodes =>
    refine hquiet rfl rfl fun c' hr => ?_
    obtain rfl := Sum.inl.inj hr
    rfl
  | _ => exact hquiet rfl rfl fun c' hr => nomatch hr

/-- **Concurrent creations and deletions.** From registries with entries for existing nodes only,
in a run that goes one at a time, once all calls have returned the entries of every id are those
that its last creation asked for, and there are none for an id without a node. -/
theorem registries_of_run {c : GraphController S}
    (hkeys : ∀ id, id ∉ (c.topology ss).ids → c.entry id = NodeEntry.none) {as : List (Action F)}
    (hmeets : Transition.Meets (Pool.step enter (next ss))
      (Pool.Guarded NoImport (OneAtATime ss)) (start c) as) {p : Server S}
    (hrun : run ss (start c) as = some p) (hreturned : ∀ t, p.calls t = none) (id : NodeId) :
    p.shared.ctrl.entry id = wanted c.entry p.shared.log id ∧
      (id ∉ (p.shared.topology ss).ids → p.shared.ctrl.entry id = NodeEntry.none) := by
  have hinv : RegistriesInv ss c.entry p := by
    refine invariant (fun p t req h hc _ => ?_) (fun p t c fault s' r htyped h hc hg hstep => ?_)
      ⟨hkeys, ?_, ?_, ?_, ?_, fun id _ => rfl⟩ hmeets hrun
    · refine h.frame (fun id => Iff.rfl) rfl rfl (fun d hd => ?_) fun c' hr => ?_
      · cases hc.symm.trans hd
      · obtain rfl := Sum.inl.inj hr
        rfl
    · exact h.step htyped hc hg hstep
    · exact fun t d id hd => nomatch hd
    · exact fun t d id hd => nomatch hd
    · exact fun t u d d' id htu hd => nomatch hd
    · exact fun t d id hd => nomatch hd
  have heq : p.shared.ctrl.entry id = wanted c.entry p.shared.log id := by
    refine hinv.settled id fun t d hd => ?_
    cases (hreturned t).symm.trans hd
  exact ⟨heq, fun hid => heq.trans (hinv.absent id hid)⟩

end Registries

/-- A request for a node that is recorded in all three registries. -/
def meterSpec : NodeSpec := ⟨"level", 1, 1, some "meter", some .meter⟩

/-- A creation and a deletion that take turns, on different ids. -/
def registriesInTurn : List (Action (Option (RaftEngine.PersistStep × String))) :=
  [.invoke 0 (.createNode meterSpec), .invoke 1 (.deleteNode 1), .advance 0 none, .advance 1 none,
    .advance 0 none, .advance 1 none, .advance 0 none, .advance 1 none, .advance 0 none,
    .advance 1 none, .advance 0 none, .advance 1 none, .advance 0 none, .advance 1 none]

theorem meets_registriesInTurn :
    letI := SnapshotApply.documented
    Transition.Meets (Pool.step enter (next engineStore))
      (Pool.Guarded NoImport (OneAtATime engineStore)) (start pairController)
      registriesInTurn := by
  let := SnapshotApply.documented
  refine Transition.meets_cons trivial rfl (Transition.meets_cons trivial rfl
    (Transition.meets_cons trivial rfl (Transition.meets_cons trivial rfl
    (Transition.meets_cons ?_ rfl (Transition.meets_cons ?_ rfl
    (Transition.meets_cons trivial rfl (Transition.meets_cons trivial rfl
    (Transition.meets_cons trivial rfl (Transition.meets_cons trivial rfl
    (Transition.meets_cons trivial rfl (Transition.meets_cons trivial rfl
    (Transition.meets_cons trivial rfl (Transition.meets_cons trivial rfl trivial)))))))))))))
  · refine fun _ => ⟨by decide, ?_⟩
    rintro ⟨_ | _ | u, d, hd, hp⟩
    · obtain rfl := Option.some.inj hd
      exact hp
    · obtain rfl := Option.some.inj hd
      cases hp
    · cases hd
  · rintro - ⟨_ | _ | u, d, hd, hi⟩
    · obtain rfl := Option.some.inj hd
      exact absurd (Option.some.inj hi) (by decide)
    · obtain rfl := Option.some.inj hd
      exact hi
    · cases hd

theorem registries_of_run_inTurn :
    letI := SnapshotApply.documented
    ∃ p, run engineStore (start pairController) registriesInTurn = some p ∧ ∀ id,
      p.shared.ctrl.entry id = wanted pairController.entry p.shared.log id ∧
        (id ∉ (p.shared.topology engineStore).ids → p.shared.ctrl.entry id = NodeEntry.none) := by
  let := SnapshotApply.documented
  have := SnapshotApply.lawful_documented
  refine ⟨_, rfl, registries_of_run ?_ meets_registriesInTurn rfl ?_⟩
  · rintro (_ | _ | _ | id) hid
    · rfl
    · exact absurd hid (by decide)
    · exact absurd hid (by decide)
    · rfl
  · rintro (_ | _ | t)
    · rfl
    · rfl
    · rfl

/-- A node is deleted before its entries are inserted. -/
def recordsTooLate : List (Action (Option (RaftEngine.PersistStep × String))) :=
  [.invoke 0 (.createNode meterSpec), .advance 0 none, .advance 0 none, .invoke 1 (.deleteNode 3),
    .advance 1 none, .advance 1 none, .advance 1 none, .advance 1 none, .advance 1 none,
    .advance 1 none, .advance 0 none, .advance 0 none, .advance 0 none, .advance 0 none]

/-- A node is created under the id of a removed one before the entries of that are pruned. -/
def prunesTooLate : List (Action (Option (RaftEngine.PersistStep × String))) :=
  [.invoke 1 (.deleteNode 2), .advance 1 none, .advance 1 none, .invoke 0 (.createNode meterSpec),
    .advance 0 none, .advance 0 none, .advance 0 none, .advance 0 none, .advance 0 none,
    .advance 0 none, .advance 1 none, .advance 1 none, .advance 1 none, .advance 1 none]

/-- **All calls have returned, and there are entries for a node that is not there**, or **none for
a node that was created with a label, a kind and parameters.** -/
theorem registries_mixed :
    letI := SnapshotApply.documented
    (∃ p, run engineStore (start pairController) recordsTooLate = some p ∧
      (∀ t, p.calls t = none) ∧ 3 ∉ (p.shared.topology engineStore).ids ∧
      p.shared.ctrl.entry 3 = ⟨some "level", some "meter", some .meter⟩) ∧
    ∃ p, run engineStore (start pairController) prunesTooLate = some p ∧
      (∀ t, p.calls t = none) ∧ (p.shared.topology engineStore).node 2 = some (nodeOf meterSpec 2) ∧
      p.shared.ctrl.entry 2 = NodeEntry.none := by
  let := SnapshotApply.documented
  refine ⟨⟨_, rfl, ?_, by decide, rfl⟩, _, rfl, ?_, rfl, rfl⟩
  · rintro (_ | _ | t)
    · rfl
    · rfl
    · rfl
  · rintro (_ | _ | t)
    · rfl
    · rfl
    · rfl

end Concurrent

end SonicBrew
