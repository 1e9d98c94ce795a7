import SonicBrew.AudioEngine.Stream
import SonicBrew.GwBrowser.Codec

/-!
# The server of the browser gateway

The server accepts one client after the other. While it has one, it waits for a message of the
client or for the pump, whichever comes first: a binary message is decoded and its frame pushed into
the bridge; the pump pops frames from the bridge until there is none, and sends each of them as a
message. Messages that do not decode, frames that find the ring full and frames that cannot be
encoded are dropped; a send that fails ends the connection, and the frame is lost.

`SonicBrew.GwBrowser.serve` is one turn of the server, from one `await` to the next, and
`SonicBrew.GwBrowser.step` the server on top of the engine's world: the store, the rebuild thread
and the engine go on in between. What the clients and the engine see of each other is
`SonicBrew.GwBrowser.served_of_run`: whatever the clients do, over any number of connections and
rebuilds, the engine plays what the clients have sent and the clients get what the engine has put
out, in order and nothing twice.
-/

namespace SonicBrew

namespace GwBrowser

open Bridge (Gateway World Passage Plays GatewayBridge BridgeFactory AudioNode passages)

/-! ### The server -/

/-- What `ws_source.next()` gives. -/
inductive Incoming where
  | binary (bytes : Bytes)
  /-- A closing frame. -/
  | close
  /-- The stream has ended. -/
  | ended
  | ping
  /-- Text and pongs. -/
  | other
  | error
  deriving DecidableEq, Repr

/-- What the server is waiting for. -/
inductive Phase where
  /-- The next client. -/
  | accepting
  /-- The handshake of a client. The first tick of the pump comes at once and is discarded, so
  there is nothing to wait for after it. -/
  | upgrading
  /-- A message or the pump. -/
  | selecting
  /-- Nothing: the pump is running and asks the bridge for the next frame. -/
  | pumping
  /-- The message is being sent. -/
  | sending (bytes : Bytes)
  /-- The sink is being closed. -/
  | closing
  /-- The listener has failed, and `run_accept_loop_io` has returned. -/
  | stopped
  deriving DecidableEq, Repr

/-- What the server meets. -/
inductive Event where
  | accepted (ok : Bool)
  | upgraded (ok : Bool)
  | message (m : Incoming)
  | tick
  | pop
  | sent (ok : Bool)
  | closed
  deriving DecidableEq, Repr

/-- **One turn of `run_accept_loop_io` and `handle_connection_io`**, with the gateway's calls. -/
def serve (spec : FrameSpec) (gw : Gateway AudioFrame) :
    Phase → Event → Option (Phase × Gateway AudioFrame)
  | .accepting, .accepted true => some (.upgrading, gw)
  | .accepting, .accepted false => some (.stopped, gw)
  | .upgrading, .upgraded true => some (.selecting, gw)
  -- an error of a connection is traced, and the next client may come
  | .upgrading, .upgraded false => some (.accepting, gw)
  | .selecting, .message (.binary bytes) =>
      match decodeFrame bytes spec with
      | .ok frame => some (.selecting, (gw.pushInbound frame).2)
      | .error _ => some (.selecting, gw)
  | .selecting, .message .close => some (.closing, gw)
  | .selecting, .message .ended => some (.closing, gw)
  | .selecting, .message .ping => some (.selecting, gw)
  | .selecting, .message .other => some (.selecting, gw)
  | .selecting, .message .error => some (.accepting, gw)
  | .selecting, .tick => some (.pumping, gw)
  | .pumping, .pop =>
      match gw.popOutbound.1 with
      | .ok frame =>
          match encodeFrame frame with
          | .ok bytes => some (.sending bytes, gw.popOutbound.2)
          | .error _ => some (.pumping, gw.popOutbound.2)
      | .error _ => some (.selecting, gw.popOutbound.2)
  | .sending _, .sent true => some (.pumping, gw)
  | .sending _, .sent false => some (.accepting, gw)
  -- whether closing works makes no difference
  | .closing, .closed => some (.accepting, gw)
  | _, _ => none

/-- The server and the world of the engine. -/
structure System (G : Type) where
  phase : Phase
  world : World G AudioFrame

/-- One step of the server or of another party. -/
inductive Action (ν : Type) where
  | server (e : Event)
  | world (a : Bridge.Action AudioFrame ν)

section Steps

variable {G ν : Type} [GraphOps G (AudioNode ν)] [SnapshotApply] (config : GraphConfig)
  (factory : BridgeFactory) (cycle : G → (Bridge.RingId → List AudioFrame) → Bridge.RingId →
    List AudioFrame) (spec : FrameSpec)

/-- Nobody but the server pushes and pops. -/
def step (s : System G) : Action ν → Option (System G)
  | .server e =>
      (serve spec s.world.gateway s.phase e).map fun (phase, gateway) =>
        ⟨phase, { s.world with gateway }⟩
  | .world (.pushInbound _) => none
  | .world .popOutbound => none
  | .world a => (Bridge.step config factory cycle s.world a).map fun world => { s with world }

/-- What a step does in the engine's world. -/
def calls (_ : System G) : Action ν → List (Bridge.Action AudioFrame ν)
  | .server (.message (.binary bytes)) =>
      match decodeFrame bytes spec with
      | .ok frame => [.pushInbound frame]
      | .error _ => []
  | .server .pop => [.popOutbound]
  | .server _ => []
  | .world a => [a]

/-- What is seen of a run: frames that pass through the rings, and what happens at the clients. -/
inductive Seen where
  | passage (p : Passage AudioFrame)
  | connected
  | received (bytes : Bytes)
  | delivered (bytes : Bytes)
  | lost (bytes : Bytes)
  deriving DecidableEq, Repr

/-- What the client of the current connection sees of a step. -/
def clientSees (s : System G) : Action ν → List Seen
  | .server (.upgraded true) => [.connected]
  | .server (.message (.binary bytes)) => [.received bytes]
  | .server (.sent ok) =>
      match s.phase with
      | .sending bytes => [if ok then .delivered bytes else .lost bytes]
      | _ => []
  | _ => []

/-- What is seen of a step. -/
def sees (s : System G) (a : Action ν) : List Seen :=
  (Transition.observed (Bridge.step config factory cycle) (passages cycle) s.world
    (calls spec s a)).map .passage ++ clientSees s a

end Steps

/-! ### What is seen -/

namespace Seen

def passage? : Seen → Option (Passage AudioFrame)
  | .passage p => some p
  | _ => none

def received? : Seen → Option Bytes
  | .received bytes => some bytes
  | _ => none

def delivered? : Seen → Option Bytes
  | .delivered bytes => some bytes
  | _ => none

def lost? : Seen → Option Bytes
  | .lost bytes => some bytes
  | _ => none

/-- A message that was handed to the socket. -/
def handed? : Seen → Option Bytes
  | .delivered bytes => some bytes
  | .lost bytes => some bytes
  | _ => none

def isConnected : Seen → Bool
  | .connected => true
  | _ => false

end Seen

/-- The message that is being sent. -/
def Phase.inFlight : Phase → List Bytes
  | .sending bytes => [bytes]
  | _ => []

/-- The server has a client. -/
def Phase.inConnection : Phase → Bool
  | .selecting | .pumping | .sending _ | .closing => true
  | _ => false

/-- The frames that one side has moved through the rings of a direction. -/
def framesOf (d : Bridge.Direction) (s : Bridge.Side) (seen : List Seen) : List AudioFrame :=
  (Bridge.log d s (seen.filterMap Seen.passage?)).map Prod.snd

/-- The frames of messages that decode. -/
def decode? (spec : FrameSpec) (bytes : Bytes) : Option AudioFrame :=
  (decodeFrame bytes spec).toOption

/-- The message of a frame that can be encoded. -/
def encode? (frame : AudioFrame) : Option Bytes := (encodeFrame frame).toOption

/-! ### What a step does -/

section Turns

variable {G ν : Type} [GraphOps G (AudioNode ν)]

/-- **What a step can do to the server**, and what is seen of it. -/
inductive Turn (spec : FrameSpec) : Phase → Phase → List Seen → Prop where
  /-- Another party has moved. -/
  | world {p : Phase} {ps : List (Passage AudioFrame)}
      (hgateway : ∀ d, Bridge.log d .gateway ps = []) : Turn spec p p (ps.map .passage)
  /-- The server goes on to wait for something else. -/
  | moved {p p' : Phase} (hflight : p'.inFlight = p.inFlight)
      (hconnection : p'.inConnection = true → p.inConnection = true) : Turn spec p p' []
  | connected : Turn spec .upgrading .selecting [.connected]
  /-- The message is malformed or the ring is full. -/
  | dropped (bytes : Bytes) : Turn spec .selecting .selecting [.received bytes]
  | pushed {bytes : Bytes} {frame : AudioFrame} {r : Bridge.RingId}
      (hdecode : decode? spec bytes = some frame) :
      Turn spec .selecting .selecting
        [.passage ⟨.inbound, .gateway, r, frame⟩, .received bytes]
  | popped {frame : AudioFrame} {r : Bridge.RingId} {bytes : Bytes}
      (hencode : encode? frame = some bytes) :
      Turn spec .pumping (.sending bytes) [.passage ⟨.outbound, .gateway, r, frame⟩]
  /-- The frame cannot be encoded. -/
  | skipped {frame : AudioFrame} {r : Bridge.RingId} (hencode : encode? frame = none) :
      Turn spec .pumping .pumping [.passage ⟨.outbound, .gateway, r, frame⟩]
  | delivered (bytes : Bytes) : Turn spec (.sending bytes) .pumping [.delivered bytes]
  | lost (bytes : Bytes) : Turn spec (.sending bytes) .accepting [.lost bytes]

variable (cycle : G → (Bridge.RingId → List AudioFrame) → Bridge.RingId → List AudioFrame)

theorem passages_pushInbound (w : World G AudioFrame) (frame : AudioFrame) :
    passages cycle w (.pushInbound frame : Bridge.Action AudioFrame ν) = [] ∨
      ∃ r, passages cycle w (.pushInbound frame : Bridge.Action AudioFrame ν) =
        [⟨.inbound, .gateway, r, frame⟩] := by
  rw [passages]
  split
  · exact Or.inr ⟨_, rfl⟩
  · exact Or.inl rfl

theorem passages_popOutbound_ok {w : World G AudioFrame} {frame : AudioFrame}
    (h : w.gateway.popOutbound.1 = .ok frame) :
    ∃ r, passages cycle w (.popOutbound : Bridge.Action AudioFrame ν) =
      [⟨.outbound, .gateway, r, frame⟩] := by
  cases hout : w.gateway.bridge.outbound with
  | none =>
    rw [Gateway.popOutbound, hout] at h
    cases h
  | some r => exact ⟨r, by rw [passages, hout, h]⟩

theorem passages_popOutbound_error {w : World G AudioFrame} {err : Bridge.PopError}
    (h : w.gateway.popOutbound.1 = .error err) :
    passages cycle w (.popOutbound : Bridge.Action AudioFrame ν) = [] := by
  rw [passages, h]
  split
  · rename_i hc
    cases hc
  · rfl

/-- The engine's passages are not through the gateway's ends. -/
theorem log_gateway_passages_engineStep (w : World G AudioFrame) (d : Bridge.Direction) :
    Bridge.log d .gateway (passages cycle w (.engineStep : Bridge.Action AudioFrame ν)) = [] := by
  rw [passages]
  split
  · rfl
  · rw [Bridge.log_append, Bridge.log_gateway_enginePassages, Bridge.log_gateway_enginePassages,
      List.append_nil]

variable [SnapshotApply] {config : GraphConfig} {factory : BridgeFactory} {cycle}
  {spec : FrameSpec}

/-- What a step of the engine's world is. -/
theorem step_world {s s' : System G} {a : Bridge.Action AudioFrame ν}
    (h : step config factory cycle spec s (.world a) = some s') :
    (∀ d, Bridge.log d .gateway (passages cycle s.world a) = []) ∧
      ∃ w, Bridge.step config factory cycle s.world a = some w ∧ s' = { s with world := w } := by
  have hmap : ∀ {o : Option (World G AudioFrame)},
      (o.map fun world => { s with world }) = some s' →
        ∃ w, o = some w ∧ s' = { s with world := w } := by
    intro o ho
    obtain ⟨w, hw, rfl⟩ := Option.map_eq_some_iff.mp ho
    exact ⟨w, hw, rfl⟩
  cases a with
  | pushInbound frame => cases h
  | popOutbound => cases h
  | engineStep => exact ⟨log_gateway_passages_engineStep cycle s.world, hmap h⟩
  | _ => exact ⟨fun d => rfl, hmap h⟩

/-- One step of the engine's world is seen as what it moves. -/
theorem observed_singleton {w w' : World G AudioFrame} {a : Bridge.Action AudioFrame ν}
    (h : Bridge.step config factory cycle w a = some w') :
    Transition.observed (Bridge.step config factory cycle) (passages cycle) w [a] =
      passages cycle w a := by
  rw [Transition.observed_of_step h, Transition.observed, List.append_nil]

/-- The pump pops one frame, or none. -/
theorem serve_pop {w : World G AudioFrame} {p : Phase} {gw : Gateway AudioFrame}
    (h : serve spec w.gateway .pumping .pop = some (p, gw)) :
    Transition.run (Bridge.step config factory cycle) w
        (calls spec ⟨.pumping, w⟩ (.server .pop : Action ν)) = some { w with gateway := gw } ∧
      Turn spec .pumping p
        (sees config factory cycle spec ⟨.pumping, w⟩ (.server .pop : Action ν)) := by
  have hstep : Bridge.step config factory cycle w (.popOutbound : Bridge.Action AudioFrame ν) =
      some { w with gateway := w.gateway.popOutbound.2 } := rfl
  have hsees : clientSees ⟨.pumping, w⟩ (.server .pop : Action ν) = [] := rfl
  rw [serve] at h
  rw [sees, calls, observed_singleton hstep, hsees, List.append_nil]
  cases hpop : w.gateway.popOutbound.1 with
  | error err =>
    rw [hpop] at h
    cases h
    refine ⟨rfl, ?_⟩
    rw [passages_popOutbound_error cycle hpop]
    exact .moved rfl (by decide)
  | ok frame =>
    rw [hpop] at h
    obtain ⟨r, hr⟩ := passages_popOutbound_ok (ν := ν) cycle hpop
    rw [hr]
    cases hencode : encodeFrame frame with
    | error err =>
      simp only [hencode] at h
      cases h
      exact ⟨rfl, .skipped (by rw [encode?, hencode]; rfl)⟩
    | ok bytes =>
      simp only [hencode] at h
      cases h
      exact ⟨rfl, .popped (by rw [encode?, hencode]; rfl)⟩

/-- **A turn of the server** is at most one call of the bridge. -/
theorem serve_effect {w : World G AudioFrame} {p p' : Phase} {e : Event} {gw : Gateway AudioFrame}
    (h : serve spec w.gateway p e = some (p', gw)) :
    Transition.run (Bridge.step config factory cycle) w
        (calls spec ⟨p, w⟩ (.server e : Action ν)) = some { w with gateway := gw } ∧
      Turn spec p p' (sees config factory cycle spec ⟨p, w⟩ (.server e : Action ν)) := by
  cases e with
  | accepted ok =>
    cases p with
    | accepting =>
      cases ok with
      | true =>
        cases h
        exact ⟨rfl, .moved rfl (by decide)⟩
      | false =>
        cases h
        exact ⟨rfl, .moved rfl (by decide)⟩
    | _ => cases h
  | upgraded ok =>
    cases p with
    | upgrading =>
      cases ok with
      | true =>
        cases h
        exact ⟨rfl, .connected⟩
      | false =>
        cases h
        exact ⟨rfl, .moved rfl (by decide)⟩
    | _ => cases h
  | message m =>
    cases p with
    | selecting =>
      cases m with
      | binary bytes =>
        rw [serve] at h
        rw [sees, calls]
        cases hdecode : decodeFrame bytes spec with
        | error err =>
          rw [hdecode] at h
          cases h
          exact ⟨rfl, .dropped bytes⟩
        | ok frame =>
          rw [hdecode] at h
          cases h
          have hstep : Bridge.step config factory cycle w (.pushInbound frame) =
              some { w with gateway := (w.gateway.pushInbound frame).2 } := rfl
          refine ⟨rfl, ?_⟩
          rw [observed_singleton hstep]
          obtain hnil | ⟨r, hr⟩ := passages_pushInbound (ν := ν) cycle w frame
          · rw [hnil]
            exact .dropped bytes
          · rw [hr]
            exact .pushed (by rw [decode?, hdecode]; rfl)
      | _ =>
        cases h
        exact ⟨rfl, .moved rfl (by decide)⟩
    | _ => cases h
  | tick =>
    cases p with
    | selecting =>
      cases h
      exact ⟨rfl, .moved rfl (by decide)⟩
    | _ => cases h
  | pop =>
    cases p with
    | pumping => exact serve_pop h
    | _ => cases h
  | sent ok =>
    cases p with
    | sending bytes =>
      cases ok with
      | true =>
        cases h
        exact ⟨rfl, .delivered bytes⟩
      | false =>
        cases h
        exact ⟨rfl, .lost bytes⟩
    | _ => cases h
  | closed =>
    cases p with
    | closing =>
      cases h
      exact ⟨rfl, .moved rfl (by decide)⟩
    | _ => cases h

/-- **A step is at most one step of the engine's world**, and one of the turns of the server. -/
theorem step_effect {s s' : System G} {a : Action ν}
    (h : step config factory cycle spec s a = some s') :
    Transition.run (Bridge.step config factory cycle) s.world (calls spec s a) = some s'.world ∧
      Turn spec s.phase s'.phase (sees config factory cycle spec s a) := by
  cases a with
  | world a =>
    obtain ⟨hgateway, w, hw, rfl⟩ := step_world h
    have hsees : clientSees s (.world a) = [] := rfl
    refine ⟨?_, ?_⟩
    · rw [calls, Transition.run_of_step hw]
      rfl
    · rw [sees, calls, observed_singleton hw, hsees, List.append_nil]
      exact .world hgateway
  | server e =>
    obtain ⟨⟨phase, gw⟩, hserve, rfl⟩ := Option.map_eq_some_iff.mp h
    exact serve_effect hserve

end Turns

/-! ### The invariant -/

section Invariant

variable {spec : FrameSpec} {p p' : Phase} {seen now : List Seen}

/-- **What holds of the server between its turns.** -/
structure Serving (spec : FrameSpec) (p : Phase) (seen : List Seen) : Prop where
  /-- What has been pushed are frames of messages, in their order. -/
  pushed : (framesOf .inbound .gateway seen).Sublist
    ((seen.filterMap Seen.received?).filterMap (decode? spec))
  /-- What has been popped and can be encoded has been handed to the socket, or is about to be. -/
  popped : (framesOf .outbound .gateway seen).filterMap encode? =
    seen.filterMap Seen.handed? ++ p.inFlight
  /-- A connection loses one message at most, and then it is over. -/
  losses : (seen.filterMap Seen.lost?).length + p.inConnection.toNat ≤ seen.countP Seen.isConnected

theorem framesOf_append (d : Bridge.Direction) (s : Bridge.Side) (seen now : List Seen) :
    framesOf d s (seen ++ now) = framesOf d s seen ++ framesOf d s now := by
  rw [framesOf, List.filterMap_append, Bridge.log_append, List.map_append, framesOf, framesOf]

theorem filterMap_map_passage {E : Type} {f : Seen → Option E} (hf : ∀ p, f (.passage p) = none)
    (ps : List (Passage AudioFrame)) : (ps.map Seen.passage).filterMap f = [] := by
  refine List.filterMap_eq_nil_iff.mpr fun x hx => ?_
  obtain ⟨p, -, rfl⟩ := List.mem_map.mp hx
  exact hf p

theorem framesOf_map_passage (d : Bridge.Direction) (s : Bridge.Side)
    (ps : List (Passage AudioFrame)) :
    framesOf d s (ps.map .passage) = (Bridge.log d s ps).map Prod.snd := by
  have hps : (ps.map Seen.passage).filterMap Seen.passage? = ps := by
    rw [List.filterMap_map]
    exact List.filterMap_some
  rw [framesOf, hps]

theorem serving_start : Serving spec .accepting [] :=
  ⟨List.Sublist.refl _, rfl, Nat.le_refl _⟩

/-- What is new adds to all the accounts. -/
theorem Serving.extend (h : Serving spec p seen)
    (hpushed : (framesOf .inbound .gateway now).Sublist
      ((now.filterMap Seen.received?).filterMap (decode? spec)))
    (hpopped : p.inFlight ++ (framesOf .outbound .gateway now).filterMap encode? =
      now.filterMap Seen.handed? ++ p'.inFlight)
    (hlosses : (now.filterMap Seen.lost?).length + p'.inConnection.toNat ≤
      p.inConnection.toNat + now.countP Seen.isConnected) :
    Serving spec p' (seen ++ now) := by
  refine ⟨?_, ?_, ?_⟩
  · rw [framesOf_append, List.filterMap_append, List.filterMap_append]
    exact h.pushed.append hpushed
  · rw [framesOf_append, List.filterMap_append, h.popped, List.append_assoc, hpopped,
      List.filterMap_append, List.append_assoc]
  · have := h.losses
    rw [List.filterMap_append, List.length_append, List.countP_append]
    omega

/-- **Every turn keeps the invariant.** -/
theorem Serving.turn (h : Serving spec p seen) (hturn : Turn spec p p' now) :
    Serving spec p' (seen ++ now) := by
  cases hturn with
  | @world _ ps hgateway =>
    have hcount : (ps.map Seen.passage).countP Seen.isConnected = 0 := by
      rw [List.countP_map]
      exact List.countP_eq_zero.mpr fun _ _ => by simp [Seen.isConnected]
    refine h.extend ?_ ?_ ?_
    · rw [framesOf_map_passage, hgateway]
      exact List.nil_sublist _
    · rw [framesOf_map_passage, hgateway, filterMap_map_passage (f := Seen.handed?) fun _ => rfl]
      exact List.append_nil _
    · rw [filterMap_map_passage (f := Seen.lost?) fun _ => rfl, hcount, List.length_nil,
        Nat.zero_add, Nat.add_zero]
  | moved hflight hconnection =>
    refine h.extend (List.Sublist.refl _) ?_ ?_
    · rw [hflight]
      exact List.append_nil _
    · rw [List.filterMap_nil, List.length_nil, Nat.zero_add, List.countP_nil, Nat.add_zero]
      exact Bool.toNat_le_toNat hconnection
  | connected => exact h.extend (List.Sublist.refl _) rfl (Nat.le_refl _)
  | dropped bytes => exact h.extend (List.nil_sublist _) rfl (Nat.le_refl _)
  | @pushed bytes frame r hdecode =>
    refine h.extend ?_ rfl (Nat.le_refl _)
    change [frame].Sublist ([bytes].filterMap (decode? spec))
    rw [List.filterMap_cons_some hdecode, List.filterMap_nil]
  | @popped frame r bytes hencode =>
    refine h.extend (List.Sublist.refl _) ?_ (Nat.le_refl _)
    change [frame].filterMap encode? = [bytes]
    rw [List.filterMap_cons_some hencode, List.filterMap_nil]
  | @skipped frame r hencode =>
    refine h.extend (List.Sublist.refl _) ?_ (Nat.le_refl _)
    change [frame].filterMap encode? = []
    rw [List.filterMap_cons_none hencode, List.filterMap_nil]
  | delivered bytes => exact h.extend (List.Sublist.refl _) rfl (Nat.le_refl _)
  | lost bytes => exact h.extend (List.Sublist.refl _) rfl (Nat.le_refl _)

/-- What has been delivered has been handed to the socket. -/
theorem delivered_sublist (seen : List Seen) :
    (seen.filterMap Seen.delivered?).Sublist (seen.filterMap Seen.handed?) := by
  induction seen with
  | nil => exact List.Sublist.refl _
  | cons x seen ih =>
    cases x with
    | delivered bytes => exact ih.cons_cons bytes
    | lost bytes => exact ih.cons bytes
    | _ => exact ih

end Invariant

/-! ### Every run -/

section Runs

variable {G ν : Type} [GraphOps G (AudioNode ν)] [SnapshotApply] {config : GraphConfig}
  {factory : BridgeFactory}
  {cycle : G → (Bridge.RingId → List AudioFrame) → Bridge.RingId → List AudioFrame}
  {spec : FrameSpec}

/-- What passes through the rings in a step. -/
theorem filterMap_sees (s : System G) (a : Action ν) :
    (sees config factory cycle spec s a).filterMap Seen.passage? =
      Transition.observed (Bridge.step config factory cycle) (passages cycle) s.world
        (calls spec s a) := by
  have hclient : (clientSees s a).filterMap Seen.passage? = [] := by
    rw [clientSees.eq_def]
    split
    · rfl
    · rfl
    · rename_i ok
      split
      · cases ok with
        | true => rfl
        | false => rfl
      · rfl
    · rfl
  rw [sees, List.filterMap_append, hclient, List.append_nil, List.filterMap_map]
  exact List.filterMap_some

/-- Every run keeps the invariant of the server. -/
theorem serving_run {w : World G AudioFrame} {as : List (Action ν)} {s : System G}
    (hrun : Transition.run (step config factory cycle spec) ⟨.accepting, w⟩ as = some s) :
    Serving spec s.phase (Transition.observed (step config factory cycle spec)
      (sees config factory cycle spec) ⟨.accepting, w⟩ as) := by
  have hstart : Serving spec (⟨.accepting, w⟩ : System G).phase [] := serving_start
  have h := Transition.invariant_observed
    (P := fun (s : System G) seen => Serving spec s.phase seen)
    (fun _ _ _ _ h _ hs => h.turn (step_effect hs).2) hstart (Transition.meets_true _ as) hrun
  rwa [List.nil_append] at h

variable [LawfulGraphOps G (AudioNode ν)] [LawfulSnapshotApply]

/-- **The clients and the engine.** Whatever the clients send and however their connections end,
over any number of connections and rebuilds:

* the frames that the engine plays are frames of messages it has been sent, in the order in which
  these came and none of them twice;
* the messages that are delivered are those of frames the engine has put out, in that order and
  none of them twice;
* every frame that has been popped and can be encoded has been handed to the socket or is about to
  be, and no more messages were lost there than there were connections. -/
theorem served_of_run (hplays : Plays cycle) {ms : List Mutation} {channels : UInt16}
    {sampleRate : UInt32} {numFrames capacity : ℕ} {as : List (Action ν)} {s : System G}
    {seen : List Seen}
    (hrun : Transition.run (step config factory cycle spec)
      ⟨.accepting, Bridge.start (TopologySnapshot.new.applyAll ms)
        (.withCapacity channels sampleRate numFrames capacity)⟩ as = some s)
    (hseen : Transition.observed (step config factory cycle spec)
      (sees config factory cycle spec)
      ⟨.accepting, Bridge.start (TopologySnapshot.new.applyAll ms)
        (.withCapacity channels sampleRate numFrames capacity)⟩ as = seen) :
    (framesOf .inbound .engine seen).Sublist
        ((seen.filterMap Seen.received?).filterMap (decode? spec)) ∧
      (seen.filterMap Seen.delivered?).Sublist
        ((framesOf .outbound .engine seen).filterMap encode?) ∧
      (framesOf .outbound .gateway seen).filterMap encode? =
        seen.filterMap Seen.handed? ++ s.phase.inFlight ∧
      (seen.filterMap Seen.lost?).length ≤ seen.countP Seen.isConnected := by
  have hserving := serving_run hrun
  rw [hseen] at hserving
  -- the engine's world has had a run of its own
  have hfollows : ∀ (s : System G) (a : Action ν) (s' : System G),
      step config factory cycle spec s a = some s' →
        Transition.run (Bridge.step config factory cycle) s.world (calls spec s a) =
          some s'.world := fun s a s' h => (step_effect h).1
  have hpassages : Transition.observed (Bridge.step config factory cycle) (passages cycle)
      (Bridge.start (TopologySnapshot.new.applyAll ms)
        (.withCapacity channels sampleRate numFrames capacity))
      (Transition.observed (step config factory cycle spec) (calls spec)
        ⟨.accepting, Bridge.start (TopologySnapshot.new.applyAll ms)
          (.withCapacity channels sampleRate numFrames capacity)⟩ as) =
      seen.filterMap Seen.passage? := by
    rw [← hseen, Transition.filterMap_observed]
    simp only [filterMap_sees]
    exact Transition.observed_observed hfollows hrun
  obtain ⟨own, hstreams⟩ := Bridge.streams_run hplays
    (Bridge.handle_withCapacity channels sampleRate numFrames capacity)
    (Transition.run_observed hfollows hrun)
  rw [hpassages] at hstreams
  have hin : (framesOf .inbound .engine seen).Sublist (framesOf .inbound .gateway seen) :=
    (hstreams.balanced .inbound).sublist.map Prod.snd
  have hout : (framesOf .outbound .gateway seen).Sublist (framesOf .outbound .engine seen) :=
    (hstreams.balanced .outbound).sublist.map Prod.snd
  refine ⟨hin.trans hserving.pushed, ?_, hserving.popped, ?_⟩
  · refine ((delivered_sublist seen).trans ?_).trans (hout.filterMap encode?)
    rw [hserving.popped]
    exact List.sublist_append_left _ _
  · exact Nat.le_trans (Nat.le_add_right _ _) hserving.losses

end Runs

/-! ### A client that vanishes -/

/-- A message with one sample. -/
def clientMessage (x : UInt8) : Bytes := [0, 1, 128, 187, 0, 0, x, 0, 128, 63]

/-- The graph is built, and the engine and the server start. A client sends two messages with a
malformed one between them; it gets the first of the frames back and vanishes before the second. -/
def vanishingClient : List (Action Unit) :=
  [.world .rebuildOnce, .world (.buildNode Bridge.noOther), .world (.buildNode Bridge.noOther),
    .world .linkEdge, .world .compile, .world .newEngine, .server (.accepted true),
    .server (.upgraded true), .server (.message (.binary (clientMessage 1))),
    .server (.message (.binary [7])), .server (.message (.binary (clientMessage 2))),
    .world .engineStep, .world .engineStep, .server .tick, .server .pop, .server (.sent true),
    .server .pop, .server (.sent false)]

theorem served_of_vanishingClient :
    letI := SnapshotApply.documented
    let start : System (RecordedGraph (AudioNode Unit)) :=
      ⟨.accepting, Bridge.start (TopologySnapshot.new.applyAll Bridge.seeded)
        (.withCapacity 1 48000 1 4)⟩
    ∃ s seen,
      Transition.run (step ⟨1, 48000, 1⟩ Bridge.bridgeFactory Bridge.passthrough ⟨1, 48000⟩) start
        vanishingClient = some s ∧
      Transition.observed (step ⟨1, 48000, 1⟩ Bridge.bridgeFactory Bridge.passthrough ⟨1, 48000⟩)
        (sees ⟨1, 48000, 1⟩ Bridge.bridgeFactory Bridge.passthrough ⟨1, 48000⟩) start
        vanishingClient = seen ∧
      seen.filterMap Seen.delivered? = [clientMessage 1] ∧
      seen.filterMap Seen.lost? = [clientMessage 2] ∧
      (seen.filterMap Seen.delivered?).Sublist
        ((framesOf .outbound .engine seen).filterMap encode?) := by
  let := SnapshotApply.documented
  have := SnapshotApply.lawful_documented
  obtain ⟨s, hrun⟩ := Option.isSome_iff_exists.mp
    (show (Transition.run (step ⟨1, 48000, 1⟩ Bridge.bridgeFactory Bridge.passthrough ⟨1, 48000⟩)
      ⟨.accepting, Bridge.start (TopologySnapshot.new.applyAll Bridge.seeded)
        (.withCapacity 1 48000 1 4)⟩ vanishingClient).isSome by decide +kernel)
  refine ⟨s, _, hrun, rfl, rfl, rfl, ?_⟩
  exact (served_of_run Bridge.plays_passthrough hrun rfl).2.1

end GwBrowser

end SonicBrew
