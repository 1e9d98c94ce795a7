import Mathlib.Data.List.Flatten
import SonicBrew.AudioEngine.Passages
import SonicBrew.Lib.Succession

/-!
# The streams through the gateway bridge

Every rebuild gives the bridge new rings, whether it succeeds or fails, and what is in the old ones
when their reader leaves them is lost. This is all that can go wrong with a frame: in every run, for
every order in which the store, the rebuild thread, the engine and the gateway take their steps and
however many rebuilds fail, what comes out of the rings has been put in, in the same order, and
comes out once (`SonicBrew.Bridge.streams_of_run`).

The logs of the two sides (`SonicBrew.Bridge.log`) are those of `SonicBrew.Succession`: rings are
numbered as they are allocated, and neither side ever goes back to an older one. That is so because
the graphs that exist, from the live one to the one under construction, have their rings in this
order (`SonicBrew.Bridge.Streams.ordered`).
-/

namespace SonicBrew

namespace Bridge

open Succession (entries Balanced)

/-! ### What the factory leaves alone -/

section Factory

variable {F ν : Type} (factory : BridgeFactory) (other : NodeId → Option (BuiltNode ν))
  (gw : Gateway F)

theorem bridgeId_injective : Function.Injective factory.bridgeId := by
  intro d d' h
  cases d with
  | inbound =>
    cases d' with
    | inbound => rfl
    | outbound => exact absurd h factory.source_ne_sink
  | outbound =>
    cases d' with
    | inbound => exact absurd h.symm factory.source_ne_sink
    | outbound => rfl

/-- A fresh ring is empty, as all rings are that have not been allocated. -/
theorem frames_build (hfresh : gw.rings.frames gw.rings.next = []) (id : NodeId) :
    (factory.build other id gw).2.rings.frames = gw.rings.frames := by
  have halloc : Function.update gw.rings.frames gw.rings.next [] = gw.rings.frames := by
    rw [← hfresh, Function.update_eq_self]
  rw [BridgeFactory.build]
  split
  · exact halloc
  · split
    · exact halloc
    · rfl

/-- Asked for a node that is not the bridge's, the factory leaves the gateway as it is. -/
theorem build_gateway_of_ne {id : NodeId} (h : ∀ d, id ≠ factory.bridgeId d) :
    (factory.build other id gw).2 = gw := by
  have hsource : id ≠ factory.sourceId := h .inbound
  have hsink : id ≠ factory.sinkId := h .outbound
  rw [BridgeFactory.build, if_neg hsource, if_neg hsink]

end Factory

/-! ### The invariant -/

section Invariant

variable {G F ν : Type} [GraphOps G (AudioNode ν)]

/-- The rings of the graphs that exist, oldest graph first. -/
def ringsIn (d : Direction) (w : World G F) : List RingId := (graphs w).flatMap (ringsOf d)

/-- The frames in the rings of one direction. -/
def queueOf (own : RingId → Direction) (d : Direction) (frames : RingId → List F) (r : RingId) :
    List F :=
  if own r = d then frames r else []

/-- **The invariant of the streams**, when `own` says of what direction a ring is and `seen` is what
has passed so far. -/
structure Streams (factory : BridgeFactory) (own : RingId → Direction) (w : World G F)
    (seen : List (Passage F)) : Prop where
  nodup : w.topology.ids.Nodup
  /-- The node of a direction is made once in a rebuild. -/
  ahead : ∀ rb, w.rebuild = some rb → (rb.nodes.map NodeSnapshot.id).Nodup ∧
    ∀ d, factory.bridgeId d ∈ rb.nodes.map NodeSnapshot.id → ringsOf d rb.building.graph = []
  single : ∀ d, ∀ g ∈ graphs w, (ringsOf d g).length ≤ 1
  ordered : ∀ d, (ringsIn d w).Pairwise (· < ·)
  owned : ∀ d, ∀ r ∈ ringsIn d w, r < w.gateway.rings.next ∧ own r = d
  held : ∀ d r, w.gateway.bridge.handle d = some r → r < w.gateway.rings.next ∧ own r = d
  fresh : ∀ r, w.gateway.rings.next ≤ r → w.gateway.rings.frames r = []
  /-- The engine has left every ring that is older than those of the graphs that exist. -/
  engineLog : ∀ d, ∀ p ∈ log d .engine seen,
    p.1 < w.gateway.rings.next ∧ ∀ r ∈ ringsIn d w, p.1 ≤ r
  /-- And the gateway those that are older than its own. -/
  gatewayLog : ∀ d, ∀ p ∈ log d .gateway seen,
    p.1 < w.gateway.rings.next ∧ ∀ r, w.gateway.bridge.handle d = some r → p.1 ≤ r
  balanced : ∀ d, Balanced (queueOf own d w.gateway.rings.frames) (log d (writer d) seen)
    (log d (reader d) seen)

variable {factory : BridgeFactory} {own : RingId → Direction} {w : World G F}
  {seen : List (Passage F)}

theorem queueOf_self {d : Direction} {frames : RingId → List F} {r : RingId} (h : own r = d) :
    queueOf own d frames r = frames r := if_pos h

/-- Only a ring of the direction counts. -/
theorem queueOf_congr {d : Direction} {frames frames' : RingId → List F}
    (h : ∀ r, own r = d → frames' r = frames r) : queueOf own d frames' = queueOf own d frames := by
  funext r
  rw [queueOf, queueOf]
  split
  · rename_i hr
    exact h r hr
  · rfl

/-- One ring of the direction changes. -/
theorem queueOf_update {d : Direction} {frames frames' : RingId → List F} {r : RingId}
    (hr : own r = d) (h : ∀ t, t ≠ r → own t = d → frames' t = frames t) :
    queueOf own d frames' = Function.update (queueOf own d frames) r (frames' r) := by
  funext t
  rcases eq_or_ne t r with rfl | hne
  · rw [Function.update_self, queueOf_self hr]
  · rw [Function.update_of_ne hne, queueOf, queueOf]
    split
    · rename_i ht
      exact h t hne ht
    · rfl

theorem streams_start {topology : TopologySnapshot} (h : topology.ids.Nodup)
    {bridge : GatewayBridge} (hbridge : ∀ d, bridge.handle d = none) :
    Streams factory own (start topology bridge : World G F) [] := by
  have hrings : ∀ d, ringsIn d (start topology bridge : World G F) = [] := fun d => rfl
  refine ⟨h, fun rb hrb => absurd hrb (by simp [start]), ?_, ?_, ?_, ?_, fun _ _ => rfl, ?_, ?_, ?_⟩
  · intro d g hg
    exact absurd hg (by simp [graphs, start])
  · intro d
    rw [hrings]
    exact List.Pairwise.nil
  · intro d r hr
    rw [hrings] at hr
    exact absurd hr (by simp)
  · intro d r hr
    exact absurd ((hbridge d).symm.trans hr) (by simp)
  · intro d p hp
    exact absurd hp (by simp [log])
  · intro d p hp
    exact absurd hp (by simp [log])
  · intro d
    have hqueue : queueOf own d (fun _ => ([] : List F)) = fun _ => [] := by
      funext r
      simp [queueOf]
    change Balanced (queueOf own d fun _ => []) [] []
    rw [hqueue]
    exact Balanced.nil

namespace Streams

/-- Steps that move nothing, and at most give graphs up. -/
theorem keep (h : Streams factory own w seen) {w' : World G F} (hgateway : w'.gateway = w.gateway)
    (hnodup : w'.topology.ids.Nodup)
    (hahead : ∀ rb, w'.rebuild = some rb → (rb.nodes.map NodeSnapshot.id).Nodup ∧
      ∀ d, factory.bridgeId d ∈ rb.nodes.map NodeSnapshot.id → ringsOf d rb.building.graph = [])
    (hsingle : ∀ d, ∀ g ∈ graphs w', (ringsOf d g).length ≤ 1)
    (hrings : ∀ d, (ringsIn d w').Sublist (ringsIn d w)) : Streams factory own w' seen := by
  refine ⟨hnodup, hahead, hsingle, fun d => (h.ordered d).sublist (hrings d), ?_, ?_, ?_, ?_, ?_,
    ?_⟩
  · rw [hgateway]
    exact fun d r hr => h.owned d r ((hrings d).subset hr)
  · rw [hgateway]
    exact h.held
  · rw [hgateway]
    exact h.fresh
  · rw [hgateway]
    intro d p hp
    obtain ⟨hlt, hle⟩ := h.engineLog d p hp
    exact ⟨hlt, fun r hr => hle r ((hrings d).subset hr)⟩
  · rw [hgateway]
    exact h.gatewayLog
  · rw [hgateway]
    exact h.balanced

/-- Only graphs are given up. -/
theorem quiet (h : Streams factory own w seen) {w' : World G F} (hgateway : w'.gateway = w.gateway)
    (hgraphs : (graphs w').Sublist (graphs w))
    (hrebuild : ∀ rb, w'.rebuild = some rb → w.rebuild = some rb)
    (hnodup : w'.topology.ids.Nodup) : Streams factory own w' seen :=
  h.keep hgateway hnodup (fun rb hrb => h.ahead rb (hrebuild rb hrb))
    (fun d g hg => h.single d g (hgraphs.subset hg)) fun d => hgraphs.flatMap (ringsOf d)

theorem mem_ringsIn_of_live {g : G} (hlive : w.live = some g) {d : Direction} {r : RingId}
    (hr : r ∈ ringsOf d g) : r ∈ ringsIn d w :=
  List.mem_flatMap.mpr ⟨g, by simp [graphs, hlive], hr⟩

/-- A graph has at most one ring of a direction. -/
theorem ringsOf_live (h : Streams factory own w seen) {g : G} (hlive : w.live = some g)
    (d : Direction) : ringsOf d g = [] ∨ ∃ r, ringsOf d g = [r] := by
  have hlen := h.single d g (by simp [graphs, hlive])
  rcases hrings : ringsOf d g with _ | ⟨r, _ | ⟨t, rest⟩⟩
  · exact Or.inl rfl
  · exact Or.inr ⟨r, rfl⟩
  · rw [hrings] at hlen
    simp at hlen

/-- The live graph is the oldest. -/
theorem live_le (h : Streams factory own w seen) {g : G} (hlive : w.live = some g) {d : Direction}
    {r : RingId} (hr : r ∈ ringsOf d g) : ∀ t ∈ ringsIn d w, r ≤ t := by
  obtain hnil | ⟨r', hrings⟩ := h.ringsOf_live hlive d
  · rw [hnil] at hr
    exact absurd hr (by simp)
  · obtain rfl : r = r' := by
      rw [hrings] at hr
      exact List.mem_singleton.mp hr
    obtain ⟨rest, hin⟩ : ∃ rest, ringsIn d w = r :: rest :=
      ⟨_, by rw [ringsIn, graphs, hlive, Option.toList_some, List.singleton_append,
        List.flatMap_cons, hrings, List.singleton_append]⟩
    have hordered := h.ordered d
    rw [hin] at hordered ⊢
    intro t ht
    rcases List.mem_cons.mp ht with rfl | ht
    · exact Nat.le_refl _
    · exact Nat.le_of_lt ((List.pairwise_cons.mp hordered).1 t ht)

/-- **Frames are moved**, by the engine through the rings of the live graph and by the gateway
through its own. -/
theorem flow (h : Streams factory own w seen) {frames : RingId → List F} {now : List (Passage F)}
    (hfresh : ∀ r, w.gateway.rings.next ≤ r → frames r = [])
    (hengine : ∀ d, ∀ p ∈ log d .engine now, ∃ g, w.live = some g ∧ p.1 ∈ ringsOf d g)
    (hgateway : ∀ d, ∀ p ∈ log d .gateway now, w.gateway.bridge.handle d = some p.1)
    (hbalanced : ∀ d, Balanced (queueOf own d frames) (log d (writer d) (seen ++ now))
      (log d (reader d) (seen ++ now))) :
    Streams factory own (w.withFrames frames) (seen ++ now) := by
  refine ⟨h.nodup, h.ahead, h.single, h.ordered, h.owned, h.held, hfresh, ?_, ?_, hbalanced⟩
  · intro d p hp
    rw [log_append, List.mem_append] at hp
    rcases hp with hp | hp
    · exact h.engineLog d p hp
    · obtain ⟨g, hlive, hr⟩ := hengine d p hp
      exact ⟨(h.owned d p.1 (mem_ringsIn_of_live hlive hr)).1, h.live_le hlive hr⟩
  · intro d p hp
    rw [log_append, List.mem_append] at hp
    rcases hp with hp | hp
    · exact h.gatewayLog d p hp
    · have hhandle := hgateway d p hp
      refine ⟨(h.held d p.1 hhandle).1, fun r hr => ?_⟩
      exact Nat.le_of_eq (Option.some.inj (hhandle.symm.trans hr))

/-- The gateway moves a frame through its ring of one direction. -/
theorem gatewayMoved (h : Streams factory own w seen) {d : Direction} {r : RingId} {frame : F}
    {l : List F} (hhandle : w.gateway.bridge.handle d = some r)
    (hbalanced : Balanced (Function.update (queueOf own d w.gateway.rings.frames) r l)
      (log d (writer d) (seen ++ [⟨d, .gateway, r, frame⟩]))
      (log d (reader d) (seen ++ [⟨d, .gateway, r, frame⟩]))) :
    Streams factory own (w.withFrames (Function.update w.gateway.rings.frames r l))
      (seen ++ [⟨d, .gateway, r, frame⟩]) := by
  obtain ⟨hlt, hown⟩ := h.held d r hhandle
  have hother : ∀ d', d' ≠ d → ∀ s, log d' s [(⟨d, .gateway, r, frame⟩ : Passage F)] = [] := by
    intro d' hne s
    refine log_eq_nil fun p hp hc => ?_
    obtain rfl := List.mem_singleton.mp hp
    exact hne hc.1.symm
  refine h.flow ?_ ?_ ?_ ?_
  · intro t ht
    rw [Function.update_of_ne (Nat.ne_of_gt (Nat.lt_of_lt_of_le hlt ht))]
    exact h.fresh t ht
  · intro d' p hp
    have hnil : log d' .engine [(⟨d, .gateway, r, frame⟩ : Passage F)] = [] :=
      log_eq_nil (by simp)
    rw [hnil] at hp
    exact absurd hp (by simp)
  · intro d' p hp
    rcases eq_or_ne d' d with rfl | hne
    · rw [log_singleton_self] at hp
      obtain rfl := List.mem_singleton.mp hp
      exact hhandle
    · rw [hother d' hne] at hp
      exact absurd hp (by simp)
  · intro d'
    rcases eq_or_ne d' d with rfl | hne
    · rw [queueOf_update hown fun t ht _ => Function.update_of_ne ht _ _, Function.update_self]
      exact hbalanced
    · have hqueue : queueOf own d' (Function.update w.gateway.rings.frames r l) =
          queueOf own d' w.gateway.rings.frames := by
        refine queueOf_congr fun t ht => Function.update_of_ne ?_ _ _
        rintro rfl
        exact hne (ht.symm.trans hown)
      rw [hqueue, log_append, log_append, hother d' hne, hother d' hne, List.append_nil,
        List.append_nil]
      exact h.balanced d'

/-- **A push keeps the invariant.** -/
theorem pushed (h : Streams factory own w seen) {r : RingId}
    (hhandle : w.gateway.bridge.handle .inbound = some r) (frame : F) :
    Streams factory own
      (w.withFrames (Function.update w.gateway.rings.frames r
        (w.gateway.rings.frames r ++ [frame])))
      (seen ++ [⟨.inbound, .gateway, r, frame⟩]) := by
  have hown := (h.held .inbound r hhandle).2
  have hle : ∀ p ∈ log .inbound (writer .inbound) seen, p.1 ≤ r :=
    fun p hp => (h.gatewayLog .inbound p hp).2 r hhandle
  have hb := (h.balanced .inbound).enqueue hle [frame]
  rw [queueOf_self hown] at hb
  refine h.gatewayMoved hhandle ?_
  rw [log_append, log_append]
  simpa [log, writer, reader] using hb

/-- **A pop keeps the invariant.** -/
theorem popped (h : Streams factory own w seen) {r : RingId} {frame : F} {rest : List F}
    (hhandle : w.gateway.bridge.handle .outbound = some r)
    (hframes : w.gateway.rings.frames r = frame :: rest) :
    Streams factory own (w.withFrames (Function.update w.gateway.rings.frames r rest))
      (seen ++ [⟨.outbound, .gateway, r, frame⟩]) := by
  have hown := (h.held .outbound r hhandle).2
  have hle : ∀ p ∈ log .outbound (reader .outbound) seen, p.1 ≤ r :=
    fun p hp => (h.gatewayLog .outbound p hp).2 r hhandle
  have hqueue : queueOf own .outbound w.gateway.rings.frames r = [frame] ++ rest := by
    rw [queueOf_self hown, hframes, List.singleton_append]
  have hb := (h.balanced .outbound).dequeue hle hqueue
  refine h.gatewayMoved hhandle ?_
  rw [log_append, log_append]
  simpa [log, writer, reader] using hb

variable {cycle : G → (RingId → List F) → RingId → List F}

/-- A ring that is not the live graph's is not touched by its cycle. -/
theorem cycle_other (h : Streams factory own w seen) (hplays : Plays cycle) {g : G}
    (hlive : w.live = some g) {d : Direction} {r : RingId} (hown : own r = d)
    (hr : r ∉ ringsOf d g) :
    cycle g w.gateway.rings.frames r = w.gateway.rings.frames r := by
  have hnot : ∀ d', r ∉ ringsOf d' g := by
    intro d' hc
    have hd' := (h.owned d' r (mem_ringsIn_of_live hlive hc)).2
    rw [← hd', hown] at hc
    exact hr hc
  exact hplays.other g _ r (hnot .inbound) (hnot .outbound)

/-- A ring of one direction is none of the other. -/
theorem not_mem_of_ne (h : Streams factory own w seen) {g : G} (hlive : w.live = some g)
    {d d' : Direction} (hne : d' ≠ d) {r : RingId} (hr : r ∈ ringsOf d g) : r ∉ ringsOf d' g := by
  intro hc
  have hd := (h.owned d r (mem_ringsIn_of_live hlive hr)).2
  have hd' := (h.owned d' r (mem_ringsIn_of_live hlive hc)).2
  exact hne (hd'.symm.trans hd)

/-- The frames of one direction, when the live graph has run a cycle: they are those of its ring
that have changed, if it has one. -/
theorem queueOf_cycle (h : Streams factory own w seen) (hplays : Plays cycle) {g : G}
    (hlive : w.live = some g) {d : Direction} {r : RingId} (hrings : ringsOf d g = [r]) :
    queueOf own d (cycle g w.gateway.rings.frames) =
      Function.update (queueOf own d w.gateway.rings.frames) r
        (cycle g w.gateway.rings.frames r) := by
  have hmem : r ∈ ringsOf d g := by
    rw [hrings]
    exact List.mem_singleton_self r
  refine queueOf_update (h.owned d r (mem_ringsIn_of_live hlive hmem)).2 fun t hne ht => ?_
  refine h.cycle_other hplays hlive ht ?_
  rw [hrings]
  exact fun hc => hne (List.mem_singleton.mp hc)

theorem queueOf_cycle_nil (h : Streams factory own w seen) (hplays : Plays cycle) {g : G}
    (hlive : w.live = some g) {d : Direction} (hrings : ringsOf d g = []) :
    queueOf own d (cycle g w.gateway.rings.frames) = queueOf own d w.gateway.rings.frames := by
  refine queueOf_congr fun t ht => h.cycle_other hplays hlive ht ?_
  rw [hrings]
  exact List.not_mem_nil

/-- The source pops from its ring. -/
theorem balanced_cycle_inbound (h : Streams factory own w seen) (hplays : Plays cycle) {g : G}
    (hlive : w.live = some g) :
    Balanced (queueOf own .inbound (cycle g w.gateway.rings.frames)) (log .inbound .gateway seen)
      (log .inbound .engine seen ++ log .inbound .engine
        (enginePassages .inbound g w.gateway.rings.frames (cycle g w.gateway.rings.frames))) := by
  rw [log_enginePassages_self]
  obtain hrings | ⟨r, hrings⟩ := h.ringsOf_live hlive .inbound
  · rw [h.queueOf_cycle_nil hplays hlive hrings, hrings, List.flatMap_nil, List.append_nil]
    exact h.balanced .inbound
  · have hmem : r ∈ ringsOf .inbound g := by
      rw [hrings]
      exact List.mem_singleton_self r
    have hin := mem_ringsIn_of_live hlive hmem
    obtain ⟨popped, hpopped⟩ :=
      hplays.source g w.gateway.rings.frames r hmem (h.not_mem_of_ne hlive (by simp) hmem)
    rw [h.queueOf_cycle hplays hlive hrings, hrings, List.flatMap_singleton,
      moved_inbound hpopped]
    refine (h.balanced .inbound).dequeue (fun p hp => (h.engineLog .inbound p hp).2 r hin) ?_
    rw [queueOf_self (h.owned .inbound r hin).2]
    exact hpopped

/-- The sink pushes to its own. -/
theorem balanced_cycle_outbound (h : Streams factory own w seen) (hplays : Plays cycle) {g : G}
    (hlive : w.live = some g) :
    Balanced (queueOf own .outbound (cycle g w.gateway.rings.frames))
      (log .outbound .engine seen ++ log .outbound .engine
        (enginePassages .outbound g w.gateway.rings.frames (cycle g w.gateway.rings.frames)))
      (log .outbound .gateway seen) := by
  rw [log_enginePassages_self]
  obtain hrings | ⟨r, hrings⟩ := h.ringsOf_live hlive .outbound
  · rw [h.queueOf_cycle_nil hplays hlive hrings, hrings, List.flatMap_nil, List.append_nil]
    exact h.balanced .outbound
  · have hmem : r ∈ ringsOf .outbound g := by
      rw [hrings]
      exact List.mem_singleton_self r
    have hin := mem_ringsIn_of_live hlive hmem
    obtain ⟨pushed, hpushed⟩ :=
      hplays.sink g w.gateway.rings.frames r hmem (h.not_mem_of_ne hlive (by simp) hmem)
    rw [h.queueOf_cycle hplays hlive hrings, hrings, List.flatMap_singleton,
      moved_outbound hpushed, hpushed]
    have hb := (h.balanced .outbound).enqueue
      (fun p hp => (h.engineLog .outbound p hp).2 r hin) pushed
    rwa [queueOf_self (h.owned .outbound r hin).2] at hb

/-- **A cycle of the live graph keeps the invariant.** -/
theorem cycled (h : Streams factory own w seen) (hplays : Plays cycle) {g : G}
    (hlive : w.live = some g) :
    Streams factory own (w.withFrames (cycle g w.gateway.rings.frames))
      (seen ++ (enginePassages .inbound g w.gateway.rings.frames (cycle g w.gateway.rings.frames) ++
        enginePassages .outbound g w.gateway.rings.frames (cycle g w.gateway.rings.frames))) := by
  refine h.flow ?_ ?_ ?_ ?_
  · intro r hr
    have hlt : ∀ d, r ∉ ringsOf d g := by
      intro d hc
      exact Nat.not_lt.mpr hr (h.owned d r (mem_ringsIn_of_live hlive hc)).1
    rw [hplays.other g _ r (hlt .inbound) (hlt .outbound)]
    exact h.fresh r hr
  · intro d p hp
    have hself : p ∈ log d .engine
        (enginePassages d g w.gateway.rings.frames (cycle g w.gateway.rings.frames)) := by
      cases d with
      | inbound =>
        rwa [log_append, log_enginePassages_of_ne (e := .outbound) (by simp),
          List.append_nil] at hp
      | outbound =>
        rwa [log_append, log_enginePassages_of_ne (e := .inbound) (by simp),
          List.nil_append] at hp
    rw [log_enginePassages_self] at hself
    obtain ⟨r, hr, hp⟩ := List.mem_flatMap.mp hself
    obtain ⟨f, -, rfl⟩ := List.mem_map.mp hp
    exact ⟨g, hlive, hr⟩
  · intro d p hp
    rw [log_append, log_gateway_enginePassages, log_gateway_enginePassages] at hp
    exact absurd hp (by simp)
  · intro d
    -- the engine reads one direction and writes the other
    cases d with
    | inbound =>
      rw [writer, reader, log_append, log_append, log_append, log_append,
        log_gateway_enginePassages, log_gateway_enginePassages,
        log_enginePassages_of_ne (e := .outbound) (by simp), List.append_nil, List.append_nil,
        List.append_nil]
      exact h.balanced_cycle_inbound hplays hlive
    | outbound =>
      rw [writer, reader, log_append, log_append, log_append, log_append,
        log_gateway_enginePassages, log_gateway_enginePassages,
        log_enginePassages_of_ne (e := .inbound) (by simp), List.nil_append, List.append_nil,
        List.append_nil]
      exact h.balanced_cycle_outbound hplays hlive

section Building

/-- A graph that gets no ring leaves the rings as they are. -/
theorem ringsIn_rebuild {rb rb' : Rebuilding G} (hrebuild : w.rebuild = some rb) {d : Direction}
    (hrings : ringsOf d rb'.building.graph = ringsOf d rb.building.graph) (gateway : Gateway F) :
    ringsIn d { w with gateway, rebuild := some rb' } = ringsIn d w := by
  simp only [ringsIn, graphs, hrebuild, Option.map_some, Option.toList_some, List.flatMap_append,
    List.flatMap_singleton, hrings]

/-- The graphs but for the one under construction. -/
theorem mem_graphs_rebuild {gateway : Gateway F} {rb : Rebuilding G} {g : G}
    (hg : g ∈ graphs { w with gateway, rebuild := some rb }) :
    g ∈ graphs w ∨ g = rb.building.graph := by
  simp only [graphs, Option.map_some, Option.toList_some, List.mem_append,
    List.mem_singleton] at hg ⊢
  tauto

theorem single_rebuild (h : Streams factory own w seen) {gateway : Gateway F} {rb : Rebuilding G}
    (hsingle : ∀ d, (ringsOf d rb.building.graph).length ≤ 1) (d : Direction) :
    ∀ g ∈ graphs { w with gateway, rebuild := some rb }, (ringsOf d g).length ≤ 1 := by
  intro g hg
  rcases mem_graphs_rebuild hg with hg | rfl
  · exact h.single d g hg
  · exact hsingle d

theorem single_building (h : Streams factory own w seen) {rb : Rebuilding G}
    (hrebuild : w.rebuild = some rb) (d : Direction) : (ringsOf d rb.building.graph).length ≤ 1 :=
  h.single d _ (by simp [graphs, hrebuild])

variable [LawfulGraphOps G (AudioNode ν)]

/-- **The start of a rebuild keeps the invariant.** -/
theorem began (h : Streams factory own w seen) (hrebuild : w.rebuild = none) :
    Streams factory own
      { w with rebuild := some ⟨w.topology.nodes, w.topology.edges, Building.new⟩ } seen := by
  have hnew : ∀ d, ringsOf d (Building.new : Building G).graph = [] := fun d => ringsOf_new
  refine h.keep rfl h.nodup ?_ (h.single_rebuild fun d => ?_) fun d => ?_
  · intro rb hrb
    obtain rfl := Option.some.inj hrb
    exact ⟨h.nodup, fun d _ => hnew d⟩
  · rw [hnew d]
    exact Nat.zero_le 1
  · have hrings : ringsIn d
        { w with rebuild := some ⟨w.topology.nodes, w.topology.edges, Building.new⟩ } =
        ringsIn d w := by
      simp only [ringsIn, graphs, hrebuild, Option.map_some, Option.map_none, Option.toList_some,
        Option.toList_none, List.flatMap_append, List.flatMap_singleton, List.flatMap_nil, hnew]
    rw [hrings]

/-- **Making a link keeps the invariant.** -/
theorem linked (h : Streams factory own w seen) {e : SnapshotEdge} {edges : List SnapshotEdge}
    {b b' : Building G} (hrebuild : w.rebuild = some ⟨[], e :: edges, b⟩)
    (hlink : b.linkEdge e = .ok b') :
    Streams factory own { w with rebuild := some ⟨[], edges, b'⟩ } seen := by
  have hrings : ∀ d, ringsOf d b'.graph = ringsOf d b.graph := fun d => ringsOf_linkEdge hlink
  refine h.keep rfl h.nodup ?_ (h.single_rebuild fun d => ?_) fun d => ?_
  · intro rb hrb
    obtain rfl := Option.some.inj hrb
    exact ⟨List.nodup_nil, fun d hmem => absurd hmem (by simp)⟩
  · rw [hrings d]
    exact h.single_building hrebuild d
  · rw [ringsIn_rebuild hrebuild (hrings d)]

/-- **A finished graph keeps the invariant**: it takes the place of the one in the slot. -/
theorem deposited {config : GraphConfig} (h : Streams factory own w seen) {b : Building G} {g : G}
    (hrebuild : w.rebuild = some ⟨[], [], b⟩) (hcompile : b.compile config = .ok g) :
    Streams factory own { w with rebuild := none, slot := some g } seen := by
  have hrings : ∀ d, ringsOf d g = ringsOf d b.graph := fun d => ringsOf_compile hcompile
  refine h.keep rfl h.nodup (fun rb hrb => absurd hrb (by simp)) ?_ fun d => ?_
  · intro d g' hg'
    simp only [graphs, Option.toList_some, Option.map_none, Option.toList_none, List.append_nil,
      List.mem_append, List.mem_singleton] at hg'
    rcases hg' with hg' | rfl
    · exact h.single d g' (by simp [graphs, hg'])
    · rw [hrings d]
      exact h.single_building hrebuild d
  · simp only [ringsIn, graphs, hrebuild, Option.toList_some, Option.map_none, Option.map_some,
      Option.toList_none, List.append_nil, List.flatMap_append, List.flatMap_singleton, hrings]
    exact List.Sublist.append_left (List.sublist_append_right _ _) _

/-- **Making a node that is not the bridge's keeps the invariant.** -/
theorem built_other (h : Streams factory own w seen) {n : NodeSnapshot}
    {nodes : List NodeSnapshot} {edges : List SnapshotEdge} {b b' : Building G}
    {other : NodeId → Option (BuiltNode ν)} (hrebuild : w.rebuild = some ⟨n :: nodes, edges, b⟩)
    (hbuilt : b.addBuilt n.id (factory.build other n.id w.gateway).1 = .ok b')
    (hid : ∀ d, n.id ≠ factory.bridgeId d) :
    Streams factory own { w with
      gateway := (factory.build other n.id w.gateway).2, rebuild := some ⟨nodes, edges, b'⟩ }
      seen := by
  obtain ⟨hnodup, hahead⟩ := h.ahead _ hrebuild
  have hrings : ∀ d, ringsOf d b'.graph = ringsOf d b.graph := by
    intro d
    obtain ⟨node, hnode, -⟩ := Building.addBuilt_eq_ok hbuilt
    rw [hnode] at hbuilt
    rw [ringsOf_addBuilt hbuilt, (build_of_ne factory other w.gateway (hid d)).2.2 node hnode]
    exact List.append_nil _
  refine h.keep (build_gateway_of_ne factory other w.gateway hid) h.nodup ?_
    (h.single_rebuild fun d => ?_) fun d => ?_
  · intro rb hrb
    obtain rfl := Option.some.inj hrb
    refine ⟨(List.nodup_cons.mp hnodup).2, fun d hmem => ?_⟩
    exact (hrings d).trans (hahead d (List.mem_cons_of_mem _ hmem))
  · rw [hrings d]
    exact h.single_building hrebuild d
  · rw [ringsIn_rebuild hrebuild (hrings d)]

omit [LawfulGraphOps G (AudioNode ν)] in
/-- **A ring that is younger than all others** is given to the graph under construction and to the
gateway. -/
theorem alloc (h : Streams factory own w seen) {rb rb' : Rebuilding G}
    (hrebuild : w.rebuild = some rb) {gw : Gateway F} {d : Direction}
    (hnext : gw.rings.next = w.gateway.rings.next + 1)
    (hframes : gw.rings.frames = w.gateway.rings.frames)
    (hhandle : gw.bridge.handle d = some w.gateway.rings.next)
    (hhandle' : ∀ d', d' ≠ d → gw.bridge.handle d' = w.gateway.bridge.handle d')
    (hnil : ringsOf d rb.building.graph = [])
    (hrings : ringsOf d rb'.building.graph = [w.gateway.rings.next])
    (hrings' : ∀ d', d' ≠ d → ringsOf d' rb'.building.graph = ringsOf d' rb.building.graph)
    (hahead : (rb'.nodes.map NodeSnapshot.id).Nodup ∧
      ∀ d, factory.bridgeId d ∈ rb'.nodes.map NodeSnapshot.id → ringsOf d rb'.building.graph = []) :
    Streams factory (Function.update own w.gateway.rings.next d)
      { w with gateway := gw, rebuild := some rb' } seen := by
  have hyounger : ∀ {r}, r < w.gateway.rings.next → r < gw.rings.next :=
    fun hr => hnext ▸ Nat.lt_succ_of_lt hr
  have hknown : ∀ {d' r}, r < w.gateway.rings.next ∧ own r = d' ∨
      d' = d ∧ r = w.gateway.rings.next →
        r < gw.rings.next ∧ Function.update own w.gateway.rings.next d r = d' := by
    rintro d' r (⟨hlt, hd'⟩ | ⟨rfl, rfl⟩)
    · exact ⟨hyounger hlt, (Function.update_of_ne (Nat.ne_of_lt hlt) _ _).trans hd'⟩
    · exact ⟨hnext ▸ Nat.lt_succ_self _, Function.update_self _ _ _⟩
  have hin : ringsIn d { w with gateway := gw, rebuild := some rb' } =
      ringsIn d w ++ [w.gateway.rings.next] := by
    simp only [ringsIn, graphs, hrebuild, Option.map_some, Option.toList_some, List.flatMap_append,
      List.flatMap_singleton, hrings, hnil, List.append_nil, List.append_assoc]
  have hin' : ∀ d', d' ≠ d →
      ringsIn d' { w with gateway := gw, rebuild := some rb' } = ringsIn d' w :=
    fun d' hne => ringsIn_rebuild hrebuild (hrings' d' hne) gw
  have hmem : ∀ d', ∀ r ∈ ringsIn d' { w with gateway := gw, rebuild := some rb' },
      r ∈ ringsIn d' w ∨ d' = d ∧ r = w.gateway.rings.next := by
    intro d' r hr
    rcases eq_or_ne d' d with rfl | hne
    · rw [hin, List.mem_append, List.mem_singleton] at hr
      exact hr.imp_right fun hr => ⟨rfl, hr⟩
    · rw [hin' d' hne] at hr
      exact Or.inl hr
  have hheld : ∀ d' r, gw.bridge.handle d' = some r →
      w.gateway.bridge.handle d' = some r ∨ d' = d ∧ r = w.gateway.rings.next := by
    intro d' r hr
    rcases eq_or_ne d' d with rfl | hne
    · exact Or.inr ⟨rfl, Option.some.inj (hr.symm.trans hhandle)⟩
    · exact Or.inl ((hhandle' d' hne).symm.trans hr)
  -- a ring is an old one, or the fresh one, which is younger than all in the logs
  refine ⟨h.nodup, ?_, ?_, ?_, ?_, ?_, ?_, ?_, ?_, ?_⟩
  · intro rb'' hrb''
    obtain rfl := Option.some.inj hrb''
    exact hahead
  · refine h.single_rebuild fun d' => ?_
    rcases eq_or_ne d' d with rfl | hne
    · rw [hrings]
      exact Nat.le_refl 1
    · rw [hrings' d' hne]
      exact h.single_building hrebuild d'
  · intro d'
    rcases eq_or_ne d' d with rfl | hne
    · rw [hin]
      refine List.pairwise_append.mpr ⟨h.ordered d', List.pairwise_singleton _ _, ?_⟩
      intro r hr t ht
      rw [List.mem_singleton.mp ht]
      exact (h.owned d' r hr).1
    · rw [hin' d' hne]
      exact h.ordered d'
  · exact fun d' r hr => hknown ((hmem d' r hr).imp_left (h.owned d' r))
  · exact fun d' r hr => hknown ((hheld d' r hr).imp_left (h.held d' r))
  · intro r hr
    change gw.rings.next ≤ r at hr
    change gw.rings.frames r = []
    rw [hframes]
    rw [hnext] at hr
    exact h.fresh r (Nat.le_of_succ_le hr)
  · intro d' p hp
    obtain ⟨hlt, hle⟩ := h.engineLog d' p hp
    refine ⟨hyounger hlt, fun r hr => ?_⟩
    rcases hmem d' r hr with hr | ⟨-, rfl⟩
    · exact hle r hr
    · exact Nat.le_of_lt hlt
  · intro d' p hp
    obtain ⟨hlt, hle⟩ := h.gatewayLog d' p hp
    refine ⟨hyounger hlt, fun r hr => ?_⟩
    rcases hheld d' r hr with hr | ⟨-, rfl⟩
    · exact hle r hr
    · exact Nat.le_of_lt hlt
  · intro d'
    have hqueue : queueOf (Function.update own w.gateway.rings.next d) d' gw.rings.frames =
        queueOf own d' w.gateway.rings.frames := by
      funext r
      rcases eq_or_ne r w.gateway.rings.next with rfl | hne
      · rw [queueOf, queueOf, hframes, h.fresh _ (Nat.le_refl _), ite_self, ite_self]
      · rw [queueOf, queueOf, hframes, Function.update_of_ne hne]
    change Balanced (queueOf (Function.update own w.gateway.rings.next d) d' gw.rings.frames) _ _
    rw [hqueue]
    exact h.balanced d'

/-- **Making a ring node keeps the invariant.** -/
theorem built_bridge (h : Streams factory own w seen) {n : NodeSnapshot}
    {nodes : List NodeSnapshot} {edges : List SnapshotEdge} {b b' : Building G}
    {other : NodeId → Option (BuiltNode ν)} (hrebuild : w.rebuild = some ⟨n :: nodes, edges, b⟩)
    (hbuilt : b.addBuilt n.id (factory.build other n.id w.gateway).1 = .ok b') {d : Direction}
    (hid : n.id = factory.bridgeId d) :
    Streams factory (Function.update own w.gateway.rings.next d) { w with
      gateway := (factory.build other n.id w.gateway).2, rebuild := some ⟨nodes, edges, b'⟩ }
      seen := by
  obtain ⟨hnodup, hahead⟩ := h.ahead _ hrebuild
  obtain ⟨hnotMem, hnodup'⟩ := List.nodup_cons.mp hnodup
  have hframes := frames_build factory other w.gateway (h.fresh _ (Nat.le_refl _)) n.id
  have hne : ∀ d', d' ≠ d → n.id ≠ factory.bridgeId d' :=
    fun d' hd' hc => hd' (bridgeId_injective factory (hc.symm.trans hid))
  have hnil : ringsOf d b.graph = [] := hahead d (hid ▸ List.mem_cons_self)
  obtain ⟨node, gw, hbuild, hring, hhandle, hnext⟩ := build_bridgeId factory other w.gateway d
  rw [← hid] at hbuild
  have hother := fun d' hd' => build_of_ne factory other w.gateway (hne d' hd')
  rw [hbuild] at hbuilt hframes hother ⊢
  have hrings : ringsOf d b'.graph = [w.gateway.rings.next] := by
    rw [ringsOf_addBuilt hbuilt, hnil, hring]
    rfl
  have hrings' : ∀ d', d' ≠ d → ringsOf d' b'.graph = ringsOf d' b.graph := by
    intro d' hd'
    rw [ringsOf_addBuilt hbuilt, (hother d' hd').2.2 node rfl]
    exact List.append_nil _
  refine h.alloc hrebuild hnext hframes hhandle (fun d' hd' => (hother d' hd').1) hnil hrings
    hrings' ⟨hnodup', fun d' hmem => ?_⟩
  rcases eq_or_ne d' d with rfl | hd'
  · exact absurd (hid ▸ hmem) hnotMem
  · exact (hrings' d' hd').trans (hahead d' (List.mem_cons_of_mem _ hmem))

end Building

end Streams

end Invariant

/-! ### Every run -/

/-- A new bridge has no rings. -/
theorem handle_withCapacity (channels : UInt16) (sampleRate : UInt32) (numFrames capacity : ℕ)
    (d : Direction) :
    (GatewayBridge.withCapacity channels sampleRate numFrames capacity).handle d = none := by
  cases d with
  | inbound => rfl
  | outbound => rfl

section Runs

variable {G F ν : Type} [GraphOps G (AudioNode ν)] [SnapshotApply] {config : GraphConfig}
  {factory : BridgeFactory} {cycle : G → (RingId → List F) → RingId → List F}
  [LawfulGraphOps G (AudioNode ν)] [LawfulSnapshotApply]

/-- **Every step keeps the invariant**, failures included. -/
theorem Streams.step (hplays : Plays cycle) {own : RingId → Direction} {w w' : World G F}
    {seen : List (Passage F)} (h : Streams factory own w seen) {a : Action F ν}
    (hs : Bridge.step config factory cycle w a = some w') :
    ∃ own', Streams factory own' w' (seen ++ passages cycle w a) := by
  have hmove := step_move hs
  generalize passages cycle w a = now at hmove ⊢
  cases hmove with
  | quiet hgateway hgraphs hrebuild htopology =>
    rw [List.append_nil]
    refine ⟨own, h.quiet hgateway hgraphs hrebuild ?_⟩
    rcases htopology with heq | ⟨m, heq⟩
    · rw [heq]
      exact h.nodup
    · rw [heq]
      exact TopologySnapshot.nodup_ids_apply h.nodup m
  | began hrebuild =>
    rw [List.append_nil]
    exact ⟨own, h.began hrebuild⟩
  | @built n nodes edges b b' other hrebuild hbuilt =>
    rw [List.append_nil]
    -- only a node of the bridge gets a ring, of which `own` has then to know
    by_cases hid : ∃ d, n.id = factory.bridgeId d
    · obtain ⟨d, hid⟩ := hid
      exact ⟨_, h.built_bridge hrebuild hbuilt hid⟩
    · exact ⟨own, h.built_other hrebuild hbuilt fun d hc => hid ⟨d, hc⟩⟩
  | linked hrebuild hlink =>
    rw [List.append_nil]
    exact ⟨own, h.linked hrebuild hlink⟩
  | deposited hrebuild hcompile =>
    rw [List.append_nil]
    exact ⟨own, h.deposited hrebuild hcompile⟩
  | pushed hhandle => exact ⟨own, h.pushed hhandle _⟩
  | popped hhandle hframes => exact ⟨own, h.popped hhandle hframes⟩
  | cycled hlive hgateway hgraphs hrebuild htopology =>
    refine ⟨own, (h.cycled hplays hlive).quiet hgateway hgraphs (fun rb hrb => ?_) ?_⟩
    · exact hrebuild.symm.trans hrb
    · rw [htopology]
      exact h.nodup

/-- Every run keeps the invariant. -/
theorem streams_run (hplays : Plays cycle) {ms : List Mutation} {bridge : GatewayBridge}
    (hbridge : ∀ d, bridge.handle d = none) {as : List (Action F ν)} {w : World G F}
    (hrun : Transition.run (Bridge.step config factory cycle)
      (start (TopologySnapshot.new.applyAll ms) bridge) as = some w) :
    ∃ own, Streams factory own w (Transition.observed (Bridge.step config factory cycle)
      (passages cycle) (start (TopologySnapshot.new.applyAll ms) bridge) as) := by
  have hstart : Streams factory (fun _ => .inbound)
      (start (TopologySnapshot.new.applyAll ms) bridge : World G F) [] :=
    streams_start (TopologySnapshot.nodup_ids_applyAll (t := .new) List.nodup_nil ms) hbridge
  have h := Transition.invariant_observed (P := fun w seen => ∃ own, Streams factory own w seen)
    (fun w seen a w' ⟨_, h⟩ _ hs => h.step hplays hs) ⟨_, hstart⟩ (Transition.meets_true _ as) hrun
  rwa [List.nil_append] at h

/-- **No frame is duplicated and none overtakes another**, in either direction and across any number
of rebuilds: what the engine takes from its rings has been pushed by the gateway, in the same order
and each frame once, and what the gateway pops has been flushed by the engine. Frames are lost only
with a ring that is left: of those that have gone into the ring that the gateway has now, the ones
that have not come out are still there. -/
theorem streams_of_run (hplays : Plays cycle) {ms : List Mutation} {channels : UInt16}
    {sampleRate : UInt32} {numFrames capacity : ℕ} {as : List (Action F ν)} {w : World G F}
    {seen : List (Passage F)}
    (hrun : Transition.run (Bridge.step config factory cycle)
      (start (TopologySnapshot.new.applyAll ms)
        (.withCapacity channels sampleRate numFrames capacity)) as = some w)
    (hseen : Transition.observed (Bridge.step config factory cycle) (passages cycle)
      (start (TopologySnapshot.new.applyAll ms)
        (.withCapacity channels sampleRate numFrames capacity)) as = seen) (d : Direction) :
    (log d (reader d) seen).Sublist (log d (writer d) seen) ∧
      ∀ r, w.gateway.bridge.handle d = some r →
        entries r (log d (writer d) seen) =
          entries r (log d (reader d) seen) ++ w.gateway.rings.frames r := by
  obtain ⟨own, h⟩ :=
    streams_run hplays (handle_withCapacity channels sampleRate numFrames capacity) hrun
  rw [hseen] at h
  refine ⟨(h.balanced d).sublist, fun r hr => ?_⟩
  rw [(h.balanced d).balance r, queueOf_self (h.held d r hr).2]

end Runs

/-! ### A run with a rebuild -/

/-- A cycle that hands a frame from the source to the sink, or does nothing. -/
theorem passthrough_cases {F ν : Type} (g : RecordedGraph (AudioNode ν))
    (frames : RingId → List F) :
    passthrough g frames = frames ∨
      ∃ source sink frame rest, ringsOf .inbound g = [source] ∧ ringsOf .outbound g = [sink] ∧
        frames source = frame :: rest ∧ passthrough g frames =
          Function.update (Function.update frames source rest) sink (frames sink ++ [frame]) := by
  rw [passthrough]
  split
  · rename_i source sink hsource hsink
    split
    · exact Or.inl rfl
    · rename_i frame rest hframes
      exact Or.inr ⟨source, sink, frame, rest, hsource, hsink, hframes, rfl⟩
  · exact Or.inl rfl

theorem plays_passthrough {F ν : Type} :
    Plays (passthrough : RecordedGraph (AudioNode ν) → (RingId → List F) → RingId → List F) := by
  constructor
  · intro g frames r hin hout
    obtain hkeep | ⟨source, sink, frame, rest, hsource, hsink, hframes, hmove⟩ :=
      passthrough_cases g frames
    · exact ⟨[], by rw [hkeep, List.nil_append]⟩
    · rw [hsource, List.mem_singleton] at hin
      rw [hsink, List.mem_singleton] at hout
      subst hin
      refine ⟨[frame], ?_⟩
      rw [hmove, Function.update_of_ne hout, Function.update_self, hframes, List.singleton_append]
  · intro g frames r hout hin
    obtain hkeep | ⟨source, sink, frame, rest, hsource, hsink, hframes, hmove⟩ :=
      passthrough_cases g frames
    · exact ⟨[], by rw [hkeep, List.append_nil]⟩
    · rw [hsink, List.mem_singleton] at hout
      subst hout
      exact ⟨[frame], by rw [hmove, Function.update_self]⟩
  · intro g frames r hin hout
    obtain hkeep | ⟨source, sink, frame, rest, hsource, hsink, hframes, hmove⟩ :=
      passthrough_cases g frames
    · rw [hkeep]
    · rw [hsource, List.mem_singleton] at hin
      rw [hsink, List.mem_singleton] at hout
      rw [hmove, Function.update_of_ne hout, Function.update_of_ne hin]

/-- A rebuild while three frames are under way. The second of them is in the sink's old ring when
the gateway has got the new one. -/
def rebuilt : List (Action ℕ Unit) :=
  firstBuild ++ [.pushInbound 5, .pushInbound 6, .engineStep, .rebuildOnce, .buildNode noOther,
    .popOutbound, .buildNode noOther, .linkEdge, .compile, .pushInbound 7, .engineStep, .engineStep,
    .popOutbound]

theorem streams_of_rebuilt :
    letI := SnapshotApply.documented
    ∃ w seen, Transition.run bridgeStep
        (start (TopologySnapshot.new.applyAll seeded) (.withCapacity 2 48000 128 4)) rebuilt =
          some w ∧
      Transition.observed bridgeStep (passages passthrough)
        (start (TopologySnapshot.new.applyAll seeded) (.withCapacity 2 48000 128 4)) rebuilt =
          seen ∧
      log .outbound .engine seen = [(1, 5), (1, 6), (3, 7)] ∧
      log .outbound .gateway seen = [(1, 5), (3, 7)] ∧
      (log .outbound .gateway seen).Sublist (log .outbound .engine seen) := by
  let := SnapshotApply.documented
  have := SnapshotApply.lawful_documented
  obtain ⟨w, hrun⟩ : ∃ w, Transition.run bridgeStep
      (start (TopologySnapshot.new.applyAll seeded) (.withCapacity 2 48000 128 4)) rebuilt =
        some w := ⟨_, rfl⟩
  refine ⟨w, _, hrun, rfl, rfl, rfl, ?_⟩
  exact (streams_of_run plays_passthrough hrun rfl .outbound).1

end Bridge

end SonicBrew
