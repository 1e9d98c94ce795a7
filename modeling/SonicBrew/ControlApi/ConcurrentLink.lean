import SonicBrew.ControlApi.Calls

/-!
# Linking concurrently

`link_ports` makes three store calls. It validates its link against the topology, appends it,
and reads the number of links back to learn the position it was appended at. Other calls may come
in between twice: after the validation one may delete an endpoint, and the link is appended
nevertheless; after the append one may add or remove a link, and the position read back is that of
another link (`SonicBrew.Concurrent.linked_disturbed` has both).

Ruling out just these two (`SonicBrew.Concurrent.LinksUndisturbed`) is enough: in every other
interleaving a link that is reported was valid when it was appended, and is reported with its
position (`SonicBrew.Concurrent.linked_where_appended`).
-/

namespace SonicBrew

namespace Concurrent

open GraphController

/-- A link is as good in another topology that has the same nodes at its ends. -/
theorem EdgeOk.congr {t t' : TopologySnapshot} {e : SnapshotEdge} (h : EdgeOk t e)
    (hsrc : t'.node e.src.1 = t.node e.src.1) (hdst : t'.node e.dst.1 = t.node e.dst.1) :
    EdgeOk t' e := by
  rw [EdgeOk, hsrc, hdst]
  exact h

/-- The call has appended its link and is to read the store back. -/
def ReadsBack (c : Call) : Prop :=
  match c.phase with
  | .appended _ _ => True
  | _ => False

/-- The call has validated a link at this node and is to append it. -/
def LinksTo (id : NodeId) (c : Call) : Prop :=
  match c.phase with
  | .validated e => e.src.1 = id ∨ e.dst.1 = id
  | _ => False

/-- What a caller was told of its link is true: it was valid when it was appended, and it was
appended at this position. -/
def LinkedOk (d : Done) : Prop :=
  ∀ src srcPort dst dstPort id, d.request = .linkPorts src srcPort dst dstPort →
    d.answer = .ok (.link id) → ∃ onto, d.onto = some onto ∧
      EdgeOk onto ⟨(src, srcPort.toNat), (dst, dstPort.toNat)⟩ ∧ id = onto.edges.length

section Link

variable [SnapshotApply] {S F : Type} (ss : SessionStore S F)

/-- **Links are not disturbed**: unless the store refuses the call, a node is removed only when no
link to it is about to be appended, and no link is added or removed while a call is to read its own
position back. -/
def LinksUndisturbed (p : Server S) (_ : ℕ) (c : Call) (fault : F) : Prop :=
  match c.phase with
  | .updating (.mutate (.removeNode id) :: _) _ =>
      ¬Refused ss p.shared (.removeNode id) fault → ¬p.Some (LinksTo id) ∧
        ((∃ e ∈ (p.shared.topology ss).edges, e.src.1 = id ∨ e.dst.1 = id) → ¬p.Some ReadsBack)
  | .updating (.mutate (.removeLink i) :: _) _ =>
      ¬Refused ss p.shared (.removeLink i) fault →
        i < (p.shared.topology ss).edges.length → ¬p.Some ReadsBack
  | .validated e => ¬Refused ss p.shared (.addLink e) fault → ¬p.Some ReadsBack
  | _ => True

/-- **The invariant**: a validated link is still valid; after a call has appended its link, the
number of links is still what the append made it; and all answers are true. -/
structure LinkInv (p : Server S) : Prop where
  validated : p.All fun c => ∀ e, c.phase = .validated e → EdgeOk (p.shared.topology ss) e
  appended : p.All fun c => ∀ e onto, c.phase = .appended e onto →
    EdgeOk onto e ∧ (p.shared.topology ss).edges.length = onto.edges.length + 1
  answers : ∀ d ∈ p.answers, LinkedOk d

variable {ss}

/-- **A step that leaves the topology alone.** -/
theorem LinkInv.quiet {p : Server S} (h : LinkInv ss p) {t : ℕ} {s' : Shared S}
    (hs : s'.topology ss = p.shared.topology ss) {r : Call ⊕ Done}
    (hd : ∀ d, r = .inr d → LinkedOk d)
    (hc : ∀ c', r = .inl c' → (∀ e, c'.phase = .validated e → EdgeOk (p.shared.topology ss) e) ∧
      ∀ e onto, c'.phase ≠ .appended e onto) : LinkInv ss (p.settle t s' r) := by
  refine ⟨?_, ?_, ?_⟩
  · rw [Pool.settle_shared, hs]
    exact h.validated.settle (fun c' hr => (hc c' hr).1) fun _ _ _ _ hA => hA
  · rw [Pool.settle_shared, hs]
    exact h.appended.settle (fun c' hr e onto hph => absurd hph ((hc c' hr).2 e onto))
      fun _ _ _ _ hA => hA
  · cases r with
    | inl c' => exact h.answers
    | inr d =>
      intro d' hd'
      rcases List.mem_append.mp hd' with hd' | hd'
      · exact h.answers d' hd'
      · rw [List.mem_singleton.mp hd']
        exact hd d rfl

/-- A refusal tells nothing. -/
theorem LinkInv.refused {p : Server S} (h : LinkInv ss p) (t : ℕ) (req : Request)
    (e : ControlError) (onto : Option TopologySnapshot) :
    LinkInv ss (p.settle t p.shared (.inr ⟨req, .error e, onto⟩)) := by
  refine h.quiet rfl (fun d hd => ?_) fun c' hr => nomatch hr
  obtain rfl := Sum.inr.inj hd
  exact fun _ _ _ _ _ _ ha => nomatch ha

/-- **A store call** keeps the invariant if it keeps the ends of the links to be appended, and the
number of links unless nobody is to read it back. -/
theorem LinkInv.mutate {p : Server S} (h : LinkInv ss p) {t : ℕ} {s' : Shared S} {c' : Call}
    (hnodes : ∀ u d e, p.calls u = some d → d.phase = .validated e →
      (s'.topology ss).node e.src.1 = (p.shared.topology ss).node e.src.1 ∧
        (s'.topology ss).node e.dst.1 = (p.shared.topology ss).node e.dst.1)
    (hlength : p.Some ReadsBack →
      (s'.topology ss).edges.length = (p.shared.topology ss).edges.length)
    (hvalidated : ∀ e, c'.phase ≠ .validated e)
    (happended : ∀ e onto, c'.phase = .appended e onto →
      EdgeOk onto e ∧ (s'.topology ss).edges.length = onto.edges.length + 1) :
    LinkInv ss (p.settle t s' (.inl c')) := by
  refine ⟨?_, ?_, h.answers⟩
  · refine h.validated.settle (fun c hr e hph => ?_) fun u d _ hd hA e hph => ?_
    · obtain rfl := Sum.inl.inj hr
      exact absurd hph (hvalidated e)
    · obtain ⟨hsrc, hdst⟩ := hnodes u d e hd hph
      exact EdgeOk.congr (hA e hph) hsrc hdst
  · refine h.appended.settle (fun c hr e onto hph => ?_) fun u d _ hd hA e onto hph => ?_
    · obtain rfl := Sum.inl.inj hr
      exact happended e onto hph
    · obtain ⟨hok, hlen⟩ := hA e onto hph
      refine ⟨hok, (hlength ⟨u, d, hd, ?_⟩).trans hlen⟩
      rw [ReadsBack, hph]
      trivial

/-- **A node is removed** that no link is to be appended to; and if it takes links with it, nobody
reads back. -/
theorem LinkInv.removeNode [LawfulSnapshotApply] {p : Server S} (h : LinkInv ss p) {id : NodeId}
    (hends : ¬p.Some (LinksTo id))
    (hback : (∃ e ∈ (p.shared.topology ss).edges, e.src.1 = id ∨ e.dst.1 = id) → ¬p.Some ReadsBack)
    {t : ℕ} {s' : Shared S} {req : Request} {todo : List Update} {value : Value}
    (happ : Applied ss p.shared s' req (.removeNode id)) :
    LinkInv ss (p.settle t s' (.inl ⟨req, .updating todo value⟩)) := by
  refine h.mutate (fun u d e hd hph => ?_) (fun hsome => ?_) (fun e => nofun) fun e onto => nofun
  · have hne : ¬(e.src.1 = id ∨ e.dst.1 = id) := fun hid =>
      hends ⟨u, d, hd, by rw [LinksTo, hph]; exact hid⟩
    rw [not_or] at hne
    rw [happ.topology]
    exact ⟨TopologySnapshot.node_apply_removeNode_of_ne _ hne.1,
      TopologySnapshot.node_apply_removeNode_of_ne _ hne.2⟩
  · -- someone is to read back, so no link goes with the node
    rw [happ.topology, apply_removeNode]
    refine congrArg List.length (List.filter_eq_self.mpr fun e he => ?_)
    have hne : ¬(e.src.1 = id ∨ e.dst.1 = id) := fun hid => hback ⟨e, he, hid⟩ hsome
    rw [not_or] at hne
    simpa using hne

/-- **A link is removed**, and if it is there nobody reads back. -/
theorem LinkInv.removeLink [LawfulSnapshotApply] {p : Server S} (h : LinkInv ss p) {i : LinkId}
    (hback : i < (p.shared.topology ss).edges.length → ¬p.Some ReadsBack) {t : ℕ} {s' : Shared S}
    {req : Request} {todo : List Update} {value : Value}
    (happ : Applied ss p.shared s' req (.removeLink i)) :
    LinkInv ss (p.settle t s' (.inl ⟨req, .updating todo value⟩)) := by
  refine h.mutate (fun u d e hd hph => ?_) (fun hsome => ?_) (fun e => nofun) fun e onto => nofun
  · rw [happ.topology]
    exact ⟨TopologySnapshot.node_apply_removeLink .., TopologySnapshot.node_apply_removeLink ..⟩
  · have hi : ¬i < (p.shared.topology ss).edges.length := fun hi => hback hi hsome
    rw [happ.topology, apply_removeLink]
    exact congrArg List.length (List.eraseIdx_of_length_le (Nat.le_of_not_lt hi))

/-- **Every step under the guard keeps the invariant.** -/
theorem LinkInv.step [LawfulSnapshotApply] {p : Server S} (h : LinkInv ss p)
    (htyped : Typed AddsNoNode p) {t : ℕ} {c : Call} {fault : F} (hc : p.calls t = some c)
    (hguard : LinksUndisturbed ss p t c fault) {s' : Shared S} {r : Call ⊕ Done}
    (hstep : Step ss p.shared fault c s' r) : LinkInv ss (p.settle t s' r) := by
  obtain ⟨hok, hphase⟩ := htyped t c hc
  cases hstep with
  | refuse => exact h.refused ..
  | begin hfirst =>
    refine h.quiet rfl (fun d hd => nomatch hd) fun c' hr => ?_
    obtain rfl := Sum.inl.inj hr
    rcases first_ok_cases hfirst with ⟨e, rfl, hedge⟩ | rfl | ⟨todo, value, rfl, -⟩
    · refine ⟨fun e' he => ?_, fun e' onto => nofun⟩
      rw [← Phase.validated.inj he]
      exact hedge
    · exact ⟨fun e => nofun, fun e onto => nofun⟩
    · exact ⟨fun e => nofun, fun e onto => nofun⟩
  | finish =>
    refine h.quiet rfl (fun d hd => ?_) fun c' hr => nomatch hr
    obtain rfl := Sum.inr.inj hd
    intro src srcPort dst dstPort id hreq
    obtain rfl := hreq
    exact hphase.elim
  | abort => exact h.refused ..
  | mutate happ haccepted =>
    rcases mutation_of_addsNoNode hok hphase with ⟨id, rfl, rfl⟩ | ⟨i, rfl, rfl⟩
    · obtain ⟨hends, hback⟩ := hguard haccepted
      exact h.removeNode hends hback happ
    · exact h.removeLink (hguard haccepted) happ
  | record =>
    refine h.quiet (topology_record ..) (fun d hd => nomatch hd) fun c' hr => ?_
    obtain rfl := Sum.inl.inj hr
    exact ⟨fun e => nofun, fun e onto => nofun⟩
  | refuseLink => exact h.refused ..
  | addLink happ haccepted =>
    refine h.mutate (fun u d e hd hph => ?_) (fun hsome => absurd hsome (hguard haccepted))
      (fun e => nofun) fun e onto hph => ?_
    · rw [happ.topology]
      exact ⟨TopologySnapshot.node_apply_addLink .., TopologySnapshot.node_apply_addLink ..⟩
    · obtain ⟨rfl, rfl⟩ := Phase.appended.inj hph
      refine ⟨h.validated t _ hc _ rfl, ?_⟩
      rw [happ.topology, apply_addLink, List.length_append]
      rfl
  | lost => exact h.refused ..
  | @readBack req e onto n hlen =>
    refine h.quiet rfl (fun d hd => ?_) fun c' hr => nomatch hr
    obtain rfl := Sum.inr.inj hd
    intro src srcPort dst dstPort id hreq hid
    obtain rfl : req = .linkPorts src srcPort dst dstPort := hreq
    obtain rfl : n = id := Value.link.inj (Except.ok.inj hid)
    obtain rfl : e = _ := hphase
    obtain ⟨hedge, hlen'⟩ := h.appended t _ hc _ onto rfl
    exact ⟨onto, rfl, hedge, Nat.succ.inj (hlen.symm.trans hlen')⟩
  | listNodes =>
    refine h.quiet rfl (fun d hd => nomatch hd) fun c' hr => ?_
    obtain rfl := Sum.inl.inj hr
    exact ⟨fun e => nofun, fun e onto => nofun⟩
  | listLinks =>
    refine h.quiet rfl (fun d hd => ?_) fun c' hr => nomatch hr
    obtain rfl := Sum.inr.inj hd
    intro src srcPort dst dstPort id hreq
    obtain rfl := hreq
    exact hphase.elim

/-- **Concurrent linking.** In a run in which links are not disturbed, whenever `link_ports`
returns a position, both ends of its link existed with these ports at the moment it was appended,
and the position is where it was appended. -/
theorem linked_where_appended [LawfulSnapshotApply] {c : GraphController S} {as : List (Action F)}
    (hmeets : Transition.Meets (Pool.step enter (next ss))
      (Pool.Guarded AddsNoNode (LinksUndisturbed ss)) (start c) as) {p : Server S}
    (hrun : run ss (start c) as = some p) {d : Done} (hd : d ∈ p.answers) {src dst : NodeId}
    {srcPort dstPort : UInt16} {id : LinkId} (hreq : d.request = .linkPorts src srcPort dst dstPort)
    (hanswer : d.answer = .ok (.link id)) :
    ∃ onto, d.onto = some onto ∧ EdgeOk onto ⟨(src, srcPort.toNat), (dst, dstPort.toNat)⟩ ∧
      id = onto.edges.length := by
  have hinv : LinkInv ss p := by
    refine invariant (fun p t req h _ _ => ?_) (fun p t c fault s' r htyped h hc hg hstep => ?_)
      ⟨Pool.all_idle _ _, Pool.all_idle _ _, fun d hd => nomatch hd⟩ hmeets hrun
    · refine h.quiet rfl (fun d hd => nomatch hd) fun c' hr => ?_
      obtain rfl := Sum.inl.inj hr
      exact ⟨fun e => nofun, fun e onto => nofun⟩
    · exact h.step htyped hc hg hstep
  exact hinv.answers d hd src srcPort dst dstPort id hreq hanswer

end Link

/-- Two calls for the same link, the second appending after the first has read back. -/
def linksInTurn : List (Action (Option (RaftEngine.PersistStep × String))) :=
  [.invoke 0 (.linkPorts 1 0 2 0), .invoke 1 (.linkPorts 1 0 2 0), .advance 0 none,
    .advance 1 none, .advance 0 none, .advance 0 none, .advance 1 none, .advance 1 none]

theorem meets_linksInTurn :
    letI := SnapshotApply.documented
    Transition.Meets (Pool.step enter (next engineStore))
      (Pool.Guarded AddsNoNode (LinksUndisturbed engineStore)) (start pairController)
      linksInTurn := by
  let := SnapshotApply.documented
  refine Transition.meets_cons trivial rfl (Transition.meets_cons trivial rfl
    (Transition.meets_cons trivial rfl (Transition.meets_cons trivial rfl
    (Transition.meets_cons ?_ rfl (Transition.meets_cons trivial rfl
    (Transition.meets_cons ?_ rfl (Transition.meets_cons trivial rfl trivial)))))))
  · rintro - ⟨_ | _ | u, d, hd, hback⟩
    · obtain rfl := Option.some.inj hd
      exact hback
    · obtain rfl := Option.some.inj hd
      exact hback
    · cases hd
  · rintro - ⟨_ | _ | u, d, hd, hback⟩
    · cases hd
    · obtain rfl := Option.some.inj hd
      exact hback
    · cases hd

theorem linked_where_appended_inTurn :
    letI := SnapshotApply.documented
    ∃ p onto, run engineStore (start pairController) linksInTurn = some p ∧
      ⟨.linkPorts 1 0 2 0, .ok (.link 1), some onto⟩ ∈ p.answers ∧
      EdgeOk onto ⟨(1, 0), (2, 0)⟩ ∧ 1 = onto.edges.length := by
  let := SnapshotApply.documented
  have := SnapshotApply.lawful_documented
  have hlast : (⟨.linkPorts 1 0 2 0, .ok (.link 1), some
      ⟨(pairController.topology engineStore).nodes, [⟨(1, 0), (2, 0)⟩]⟩⟩ : Done) ∈
      [⟨.linkPorts 1 0 2 0, .ok (.link 0), some (pairController.topology engineStore)⟩,
        ⟨.linkPorts 1 0 2 0, .ok (.link 1), some
          ⟨(pairController.topology engineStore).nodes, [⟨(1, 0), (2, 0)⟩]⟩⟩] :=
    List.mem_cons_of_mem _ (List.mem_singleton_self _)
  obtain ⟨onto, honto, hedge, hid⟩ :=
    linked_where_appended meets_linksInTurn rfl hlast rfl rfl
  exact ⟨_, onto, rfl, by rw [← honto]; exact hlast, hedge, hid⟩

/-- A call for a link whose destination is deleted between the validation and the append. -/
def linkWhileDeleting : List (Action (Option (RaftEngine.PersistStep × String))) :=
  [.invoke 0 (.linkPorts 1 0 2 0), .invoke 1 (.deleteNode 2), .advance 0 none, .advance 1 none,
    .advance 1 none, .advance 0 none, .advance 0 none]

/-- Two calls for the same link that both append before either reads back. -/
def linksAtOnce : List (Action (Option (RaftEngine.PersistStep × String))) :=
  [.invoke 0 (.linkPorts 1 0 2 0), .invoke 1 (.linkPorts 1 0 2 0), .advance 0 none,
    .advance 1 none, .advance 0 none, .advance 1 none, .advance 0 none]

/-- **A link is reported that was appended without its destination**, and **a link is reported at
position `1` that was appended at position `0`.** -/
theorem linked_disturbed :
    letI := SnapshotApply.documented
    (∃ p onto, run engineStore (start pairController) linkWhileDeleting = some p ∧
      p.answers = [⟨.linkPorts 1 0 2 0, .ok (.link 0), some onto⟩] ∧ onto.ids = [1] ∧
      ¬EdgeOk onto ⟨(1, 0), (2, 0)⟩) ∧
    ∃ p onto, run engineStore (start pairController) linksAtOnce = some p ∧
      p.answers = [⟨.linkPorts 1 0 2 0, .ok (.link 1), some onto⟩] ∧ onto.edges = [] := by
  let := SnapshotApply.documented
  refine ⟨⟨_, _, rfl, rfl, rfl, ?_⟩, _, _, rfl, rfl, rfl⟩
  rintro ⟨-, n, hn, -⟩
  cases hn

end Concurrent

end SonicBrew
