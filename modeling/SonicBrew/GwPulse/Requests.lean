import SonicBrew.GwPulse.Frames
import SonicBrew.Lib.Transition

/-!
# Requests and replies

A request goes out with a tag, and its reply is the next frame that carries the same tag; every
frame with another tag is skipped. The tags are counted up from one and wrap, but the server uses
one of them itself: what it sends unasked is tagged `0xFFFFFFFF`
(`SonicBrew.GwPulse.unsolicitedTag`).

The client is `SonicBrew.GwPulse.PulseDaemon`. In an `SonicBrew.GwPulse.Exchange` the server puts
any number of such frames in front of its reply. The socket blocks, so the client cannot tell
when a byte arrived, and it makes no difference whether the frames of an exchange were sent before
the request or while the client waits for the reply; a request that runs into its deadline ends
the run.

Each request of a run gets its own answer exactly if the request that happens to have the tag of
the server finds its reply in front, and no frame is too long for the client
(`SonicBrew.GwPulse.Conversation.answered_iff`).
-/

namespace SonicBrew

namespace GwPulse

open Format (be32 ofBe32 be64 ofBe64)

/-! ### The client -/

/-- `PA_COMMAND_ERROR` -/
def commandError : UInt32 := 0

/-- `PA_COMMAND_TIMEOUT` -/
def commandTimeout : UInt32 := 1

/-- The error that an `ERROR` or `TIMEOUT` reply stands for. A field that cannot be read has a
default, and the reader goes on from where it is. -/
def errorReply (frame : Frame) : PulseDaemonError :=
  let code := TagReader.readU32 (.new frame.payload)
  let message := TagReader.readString code.2
  .server (code.1.toOption.getD 0) (message.1.toOption.join.getD "no message")

/-- What the caller gets for a frame that is taken for the reply. -/
def deliver (frame : Frame) : Except PulseDaemonError Frame :=
  if frame.command = commandError ∨ frame.command = commandTimeout then .error (errorReply frame)
  else .ok frame

/-- The deadline of a request has passed. -/
def timedOut : PulseDaemonError := .io "timed out skipping unsolicited frames"

/-- A frame that has been read is gone from the stream. -/
theorem length_lt_of_readFrame {stream rest : Bytes} {frame : Frame}
    (h : readFrame stream = (.ok frame, rest)) : rest.length < stream.length := by
  rcases lt_or_ge stream.length headerLen with hshort | hlong
  · rw [readFrame_of_short hshort] at h
    cases h
  · rw [readFrame_of_descriptor hlong] at h
    split at h
    · cases h
    · -- the descriptor at least is gone, however much of the body was there
      have hrest := congrArg Prod.snd h
      obtain ⟨k, -, hdrop⟩ := readExact_within (declaredLength stream) unexpectedEof
        (stream.drop headerLen)
      rw [Reading.bind_ofExcept_snd, hdrop] at hrest
      have hlen := congrArg List.length hrest
      rw [List.length_drop, List.length_drop] at hlen
      have hheader : headerLen = 20 := rfl
      dsimp only at hlen
      omega

/-- The loop of `request`. `expired i` says whether the deadline has passed when the loop is
entered for the `i`-th time. -/
def awaitReply (tag : UInt32) (expired : ℕ → Bool) (stream : Bytes) :
    Except PulseDaemonError Frame × Bytes :=
  if expired 0 then (.error timedOut, stream)
  else
    match _ : readFrame stream with
    | (.error e, rest) => (.error e, rest)
    | (.ok frame, rest) =>
        if frame.tag ≠ tag then awaitReply tag (fun i => expired (i + 1)) rest
        else (deliver frame, rest)
termination_by stream.length
decreasing_by exact length_lt_of_readFrame ‹_›

/-- The connection: both directions of the socket, the tag of the next request, and the version
of the protocol that the server has reported. -/
structure PulseDaemon where
  /-- What has come in and has not been read. -/
  incoming : Bytes
  /-- What has been sent. -/
  outgoing : Bytes
  nextTag : UInt32
  serverVersion : UInt32
  deriving DecidableEq, Repr

/-- A connection before the handshake. -/
def PulseDaemon.new : PulseDaemon := ⟨[], [], 1, 0⟩

/-- Send a request and wait for its reply; `none` is the panic of a request that is too long. -/
def PulseDaemon.request (d : PulseDaemon) (command : UInt32) (tagstruct : Bytes)
    (expired : ℕ → Bool) : Option (Except PulseDaemonError Frame × PulseDaemon) := do
  let tag := d.nextTag
  let bytes ← writeFrame command tag tagstruct
  let (result, incoming) := awaitReply tag expired d.incoming
  return (result, { d with incoming, outgoing := d.outgoing ++ bytes, nextTag := tag + 1 })

theorem PulseDaemon.request_of_lt (d : PulseDaemon) (command : UInt32) {tagstruct : Bytes}
    (expired : ℕ → Bool) (h : 10 + tagstruct.length < 2 ^ 32) :
    d.request command tagstruct expired =
      some ((awaitReply d.nextTag expired d.incoming).1,
        { d with
          incoming := (awaitReply d.nextTag expired d.incoming).2
          outgoing := d.outgoing ++
            describe 0xFFFFFFFF 0 0 (Frame.body ⟨command, d.nextTag, tagstruct⟩)
          nextTag := d.nextTag + 1 }) := by
  have hwrite := writeFrame_of_lt (f := ⟨command, d.nextTag, tagstruct⟩) h
  dsimp only at hwrite
  rw [request, hwrite]
  rfl

/-! ### The server -/

/-- The tag of what the server sends unasked. -/
def unsolicitedTag : UInt32 := 0xFFFFFFFF

/-- A frame of the server, up to its tag. Its length can be declared. -/
structure ServerFrame where
  channel : UInt32
  offset : UInt64
  flags : UInt32
  command : UInt32
  payload : Bytes
  length_lt : 10 + payload.length < 2 ^ 32

namespace ServerFrame

def tagged (f : ServerFrame) (tag : UInt32) : Frame := ⟨f.command, tag, f.payload⟩

def bytes (f : ServerFrame) (tag : UInt32) : Bytes :=
  describe f.channel f.offset f.flags (f.tagged tag).body

/-- The client accepts frames of this length. -/
def Readable (f : ServerFrame) : Prop := 10 + f.payload.length ≤ maxLen

instance (f : ServerFrame) : Decidable f.Readable := Nat.decLe _ _

theorem readFrame_of_readable {f : ServerFrame} (h : f.Readable) (tag : UInt32) (rest : Bytes) :
    readFrame (f.bytes tag ++ rest) = (.ok (f.tagged tag), rest) := by
  have hread := yields_readFrame f.channel f.offset f.flags (f := f.tagged tag) h _ rest rfl
  refine hread.trans (congrArg (Prod.mk _) ?_)
  exact List.drop_left

theorem bytes_ne_nil (f : ServerFrame) (tag : UInt32) : f.bytes tag ≠ [] := by
  intro h
  have hlen := congrArg List.length h
  simp [bytes, describe] at hlen

/-- A frame that is too long is not skipped: it is an error of the request that meets it. -/
theorem readFrame_of_not_readable {f : ServerFrame} (h : ¬f.Readable) (tag : UInt32)
    (rest : Bytes) : ∃ message stream,
      readFrame (f.bytes tag ++ rest) = (.error (.protocol message), stream) := by
  have hbody : (f.tagged tag).body.length = 10 + f.payload.length := Frame.length_body _
  have hlong : headerLen ≤ (f.bytes tag ++ rest).length := by
    simp only [bytes, describe, List.length_append, Format.length_be32, Format.length_be64,
      headerLen]
    omega
  have hdeclared : declaredLength (f.bytes tag ++ rest) = 10 + f.payload.length := by
    rw [declaredLength, bytes, describe, List.append_assoc, List.append_assoc,
      List.take_left' (Format.length_be32 _), Format.ofBe32_be32, UInt32.toNat_ofNat', hbody,
      Nat.mod_eq_of_lt f.length_lt]
  rw [Readable, not_le] at h
  rw [readFrame_of_descriptor hlong, if_pos (Or.inr (by omega))]
  exact ⟨_, _, rfl⟩

end ServerFrame

/-- A request and what the server does about it. -/
structure Exchange where
  command : UInt32
  tagstruct : Bytes
  /-- When the client looks at the clock, the deadline may have passed. -/
  expired : ℕ → Bool
  unsolicited : List ServerFrame
  reply : ServerFrame

namespace Exchange

/-- What the server sends: its own frames, and then the reply with the tag of the request. -/
def bytes (e : Exchange) (tag : UInt32) : Bytes :=
  e.unsolicited.flatMap (·.bytes unsolicitedTag) ++ e.reply.bytes tag

/-- What the caller of the request is to get. -/
def answer (e : Exchange) (tag : UInt32) : Except PulseDaemonError Frame :=
  deliver (e.reply.tagged tag)

/-- The exchange goes well for a request with this tag: the client can read every frame, and
nothing is in front of the reply that has the same tag. -/
def Clear (e : Exchange) (tag : UInt32) : Prop :=
  (tag = unsolicitedTag → e.unsolicited = []) ∧ (∀ f ∈ e.unsolicited, f.Readable) ∧ e.reply.Readable

end Exchange

/-! ### One request -/

theorem awaitReply_of_error {tag : UInt32} {expired : ℕ → Bool} {stream rest : Bytes}
    {e : PulseDaemonError} (hexpired : expired 0 = false)
    (h : readFrame stream = (.error e, rest)) :
    awaitReply tag expired stream = (.error e, rest) := by
  rw [awaitReply, hexpired, if_neg Bool.false_ne_true]
  split <;> rename_i heq <;> rw [h] at heq <;> cases heq
  rfl

theorem awaitReply_of_reply {tag : UInt32} {expired : ℕ → Bool} {stream rest : Bytes}
    {frame : Frame} (hexpired : expired 0 = false) (h : readFrame stream = (.ok frame, rest))
    (htag : frame.tag = tag) : awaitReply tag expired stream = (deliver frame, rest) := by
  rw [awaitReply, hexpired, if_neg Bool.false_ne_true]
  split <;> rename_i heq <;> rw [h] at heq <;> cases heq
  rw [if_neg (not_not_intro htag)]

theorem awaitReply_of_other {tag : UInt32} {expired : ℕ → Bool} {stream rest : Bytes}
    {frame : Frame} (hexpired : expired 0 = false) (h : readFrame stream = (.ok frame, rest))
    (htag : frame.tag ≠ tag) :
    awaitReply tag expired stream = awaitReply tag (fun i => expired (i + 1)) rest := by
  rw [awaitReply, hexpired, if_neg Bool.false_ne_true]
  split <;> rename_i heq <;> rw [h] at heq <;> cases heq
  rw [if_pos htag]

theorem expired_of_ne_timedOut {tag : UInt32} {expired : ℕ → Bool} {stream : Bytes}
    (h : (awaitReply tag expired stream).1 ≠ .error timedOut) : expired 0 = false := by
  rw [← Bool.not_eq_true]
  intro hexpired
  rw [awaitReply, if_pos hexpired] at h
  exact h rfl

theorem deliver_ne_protocol (frame : Frame) (message : String) :
    deliver frame ≠ .error (.protocol message) := by
  rw [deliver]
  split <;> intro h <;> cases h

/-- **A request that does not time out gets its answer, and leaves nothing behind, exactly if the
exchange goes well.** -/
theorem awaitReply_iff {tag : UInt32} {expired : ℕ → Bool} {unsolicited : List ServerFrame}
    {reply : ServerFrame}
    (h : (awaitReply tag expired
      (unsolicited.flatMap (·.bytes unsolicitedTag) ++ reply.bytes tag)).1 ≠ .error timedOut) :
    awaitReply tag expired (unsolicited.flatMap (·.bytes unsolicitedTag) ++ reply.bytes tag) =
        (deliver (reply.tagged tag), []) ↔
      (tag = unsolicitedTag → unsolicited = []) ∧ (∀ f ∈ unsolicited, f.Readable) ∧
        reply.Readable := by
  have hexpired := expired_of_ne_timedOut h
  -- every frame that is skipped is a further round of the loop, with its own look at the clock
  induction unsolicited generalizing expired with
  | nil =>
    rw [List.flatMap_nil, List.nil_append, ← List.append_nil (reply.bytes tag)]
    by_cases hreadable : reply.Readable
    · have hread := ServerFrame.readFrame_of_readable hreadable tag []
      have htag : (reply.tagged tag).tag = tag := rfl
      rw [awaitReply_of_reply hexpired hread htag]
      simp [hreadable]
    · obtain ⟨message, stream, hread⟩ := ServerFrame.readFrame_of_not_readable hreadable tag []
      rw [awaitReply_of_error hexpired hread]
      refine ⟨fun heq => ?_, fun hclear => absurd hclear.2.2 hreadable⟩
      exact absurd (Prod.mk.inj heq).1.symm (deliver_ne_protocol _ _)
  | cons f unsolicited ih =>
    rw [List.flatMap_cons, List.append_assoc] at h ⊢
    by_cases hreadable : f.Readable
    · have hread := ServerFrame.readFrame_of_readable hreadable unsolicitedTag
        (unsolicited.flatMap (·.bytes unsolicitedTag) ++ reply.bytes tag)
      by_cases htag : tag = unsolicitedTag
      · -- the frame is taken for the reply, which stays on the stream
        rw [awaitReply_of_reply hexpired hread htag.symm]
        refine ⟨fun heq => ?_, fun hclear => absurd (hclear.1 htag) (List.cons_ne_nil _ _)⟩
        exact absurd (List.append_eq_nil_iff.mp (Prod.mk.inj heq).2).2 (reply.bytes_ne_nil tag)
      · rw [awaitReply_of_other hexpired hread (Ne.symm htag)] at h ⊢
        refine (ih h (expired_of_ne_timedOut h)).trans ?_
        simp [htag, hreadable]
    · obtain ⟨message, stream, hread⟩ := ServerFrame.readFrame_of_not_readable hreadable
        unsolicitedTag (unsolicited.flatMap (·.bytes unsolicitedTag) ++ reply.bytes tag)
      rw [awaitReply_of_error hexpired hread]
      refine ⟨fun heq => ?_, fun hclear => absurd (hclear.2.1 f List.mem_cons_self) hreadable⟩
      exact absurd (Prod.mk.inj heq).1.symm (deliver_ne_protocol _ _)

/-! ### Runs of requests -/

/-- The connection, what its requests have returned, and what the server has answered them. -/
structure Conversation where
  daemon : PulseDaemon
  returned : List (Except PulseDaemonError Frame)
  answers : List (Except PulseDaemonError Frame)

namespace Conversation

def start : Conversation := ⟨.new, [], []⟩

/-- One exchange. There is no next state when the request times out. -/
def step (c : Conversation) (e : Exchange) : Option Conversation := do
  let tag := c.daemon.nextTag
  let outcome ← PulseDaemon.request
    { c.daemon with incoming := c.daemon.incoming ++ e.bytes tag } e.command e.tagstruct e.expired
  if outcome.1 = .error timedOut then none
  else return ⟨outcome.2, c.returned ++ [outcome.1], c.answers ++ [e.answer tag]⟩

/-- Every request has returned its own answer. Nothing is left on the stream, so the last frame
that was read is the reply to the last request, and not a frame in front of it that looks the
same. -/
def Answered (c : Conversation) : Prop := c.returned = c.answers ∧ c.daemon.incoming = []

/-- What a step does, as far as it is one. -/
theorem step_eq_some {c c' : Conversation} {e : Exchange} (h : c.step e = some c') :
    let tag := c.daemon.nextTag
    let reading := awaitReply tag e.expired (c.daemon.incoming ++ e.bytes tag)
    reading.1 ≠ .error timedOut ∧ c'.returned = c.returned ++ [reading.1] ∧
      c'.answers = c.answers ++ [e.answer tag] ∧ c'.daemon.incoming = reading.2 ∧
        c'.daemon.nextTag = tag + 1 := by
  obtain ⟨⟨result, daemon⟩, hrequest, hresult⟩ := Option.bind_eq_some_iff.mp h
  obtain ⟨bytes, -, hpure⟩ := Option.bind_eq_some_iff.mp hrequest
  obtain ⟨rfl, rfl⟩ := Prod.mk.inj (Option.some.inj hpure)
  split at hresult
  · cases hresult
  · rename_i hne
    obtain rfl := Option.some.inj hresult
    exact ⟨hne, rfl, rfl, rfl, rfl⟩

/-- **One more exchange.** -/
theorem answered_step {c c' : Conversation} {e : Exchange} (hc : c.Answered)
    (h : c.step e = some c') : c'.Answered ↔ e.Clear c.daemon.nextTag := by
  obtain ⟨htime, hreturned, hanswers, hincoming, -⟩ := step_eq_some h
  rw [hc.2, List.nil_append] at htime hreturned hincoming
  rw [Exchange.Clear, ← awaitReply_iff htime, Prod.ext_iff, Answered, hreturned, hanswers,
    hincoming, hc.1, List.append_cancel_left_eq, List.singleton_inj]
  rfl

/-! ### Runs up to the last tag -/

theorem step_of_awaitReply {c : Conversation} {e : Exchange}
    {result : Except PulseDaemonError Frame} {rest : Bytes} (hc : c.daemon.incoming = [])
    (hlen : 10 + e.tagstruct.length < 2 ^ 32)
    (hread : awaitReply c.daemon.nextTag e.expired (e.bytes c.daemon.nextTag) = (result, rest))
    (htime : result ≠ .error timedOut) :
    ∃ outgoing, c.step e = some
      ⟨⟨rest, outgoing, c.daemon.nextTag + 1, c.daemon.serverVersion⟩, c.returned ++ [result],
        c.answers ++ [e.answer c.daemon.nextTag]⟩ := by
  have hrequest := PulseDaemon.request_of_lt
    { c.daemon with incoming := c.daemon.incoming ++ e.bytes c.daemon.nextTag } e.command e.expired
    hlen
  dsimp only at hrequest
  rw [hc, List.nil_append, hread] at hrequest
  refine ⟨c.daemon.outgoing ++
    describe 0xFFFFFFFF 0 0 (Frame.body ⟨e.command, c.daemon.nextTag, e.tagstruct⟩), ?_⟩
  rw [step, hc, List.nil_append, hrequest]
  exact if_neg htime

/-- A request without arguments, and an empty reply to it. -/
def plain : Exchange := ⟨20, [], fun _ => false, [], ⟨0xFFFFFFFF, 0, 0, 2, [], by decide⟩⟩

/-- The same request, while the server asks for more data. -/
def raced : Exchange :=
  { plain with unsolicited := [⟨0xFFFFFFFF, 0, 0, 61, [], by decide⟩] }

/-- The reply to it is read at once. -/
theorem awaitReply_plain (tag : UInt32) :
    awaitReply tag plain.expired (plain.bytes tag) = (.ok ⟨2, tag, []⟩, []) := by
  have hread := ServerFrame.readFrame_of_readable (f := plain.reply) (by decide) tag []
  rw [List.append_nil] at hread
  exact awaitReply_of_reply rfl hread rfl

/-- What the server asks for has another tag, and is skipped. -/
theorem awaitReply_raced {tag : UInt32} (h : tag ≠ unsolicitedTag) :
    awaitReply tag raced.expired (raced.bytes tag) = (.ok ⟨2, tag, []⟩, []) :=
  (awaitReply_of_other rfl (ServerFrame.readFrame_of_readable (by decide) _ _) h.symm).trans
    (awaitReply_plain tag)

theorem step_plain {c : Conversation} (hc : c.daemon.incoming = []) :
    ∃ c', c.step plain = some c' ∧ c'.daemon.incoming = [] ∧
      c'.daemon.nextTag = c.daemon.nextTag + 1 := by
  obtain ⟨outgoing, hstep⟩ :=
    step_of_awaitReply hc (by decide) (awaitReply_plain _) (by rintro ⟨⟩)
  exact ⟨_, hstep, rfl, rfl⟩

theorem clear_plain (tag : UInt32) : plain.Clear tag :=
  ⟨fun _ => rfl, fun _ hf => absurd hf List.not_mem_nil, by decide⟩

/-- Any number of plain requests. -/
theorem run_plain (n : ℕ) {c : Conversation} (hc : c.daemon.incoming = []) :
    ∃ c', Transition.run step c (List.replicate n plain) = some c' ∧ c'.daemon.incoming = [] ∧
      c'.daemon.nextTag = c.daemon.nextTag + UInt32.ofNat n := by
  induction n generalizing c with
  | zero => exact ⟨c, rfl, hc, (UInt32.add_zero _).symm⟩
  | succ n ih =>
    obtain ⟨c₁, hstep, hc₁, htag₁⟩ := step_plain hc
    obtain ⟨c', hrun, hc', htag'⟩ := ih hc₁
    refine ⟨c', (Transition.run_of_step hstep _).trans hrun, hc', ?_⟩
    rw [htag', htag₁, Nat.add_comm n 1, UInt32.ofNat_add, UInt32.add_assoc]
    rfl

theorem step_raced {c : Conversation} (hc : c.daemon.incoming = [])
    (htag : c.daemon.nextTag = unsolicitedTag) :
    ∃ c', c.step raced = some c' ∧ c'.returned = c.returned ++ [.ok ⟨61, unsolicitedTag, []⟩] ∧
      c'.answers = c.answers ++ [.ok ⟨2, unsolicitedTag, []⟩] := by
  have hread : awaitReply c.daemon.nextTag raced.expired (raced.bytes c.daemon.nextTag) =
      (.ok ⟨61, unsolicitedTag, []⟩, raced.reply.bytes unsolicitedTag) := by
    rw [htag]
    exact awaitReply_of_reply rfl (ServerFrame.readFrame_of_readable (by decide) _ _) rfl
  obtain ⟨outgoing, hstep⟩ := step_of_awaitReply hc (by decide) hread (by decide)
  rw [htag] at hstep
  exact ⟨_, hstep, rfl, rfl⟩

theorem clear_raced {tag : UInt32} (h : tag ≠ unsolicitedTag) : raced.Clear tag :=
  ⟨fun heq => absurd heq h, by decide, by decide⟩

/-- **Every request of a run gets its own answer exactly if every exchange goes well**: the
client can read what the server sends, and while the next tag is the one that the server uses
itself, the server sends nothing unasked. -/
theorem answered_iff {exchanges : List Exchange} {c : Conversation}
    (h : Transition.run step start exchanges = some c) :
    Transition.Always step Answered start exchanges ↔
      Transition.Meets step (fun c e => e.Clear c.daemon.nextTag) start exchanges :=
  Transition.always_iff_meets (fun _ _ _ => answered_step) ⟨rfl, rfl⟩ h

theorem answered_iff_raced :
    (∃ c, Transition.run step start [raced, plain] = some c) ∧
      Transition.Always step Answered start [raced, plain] := by
  have hraced : raced.Clear start.daemon.nextTag := clear_raced (by decide)
  obtain ⟨outgoing, hstep₁⟩ :=
    step_of_awaitReply (c := start) rfl (by decide) (awaitReply_raced (by decide)) (by decide)
  obtain ⟨c₂, hstep₂, -⟩ := step_plain (c := ⟨⟨[], outgoing, 2, 0⟩, _, _⟩) rfl
  have hrun : Transition.run step start [raced, plain] = some c₂ :=
    (Transition.run_of_step hstep₁ _).trans (Transition.run_of_step hstep₂ [])
  refine ⟨⟨c₂, hrun⟩, (answered_iff hrun).mpr ?_⟩
  exact Transition.meets_cons hraced hstep₁ (Transition.meets_cons (clear_plain _) hstep₂ trivial)

/-- **The request with the last tag takes what the server sends unasked for its reply.** -/
theorem unsolicited_for_reply :
    ∃ exchanges c, Transition.run step start exchanges = some c ∧
      c.returned.getLast? = some (.ok ⟨61, unsolicitedTag, []⟩) ∧
      c.answers.getLast? = some (.ok ⟨2, unsolicitedTag, []⟩) := by
  obtain ⟨c, hrun, hc, htag⟩ := run_plain (2 ^ 32 - 2) (c := start) rfl
  obtain ⟨c', hstep, hreturned, hanswers⟩ := step_raced hc (by rw [htag]; decide)
  refine ⟨List.replicate (2 ^ 32 - 2) plain ++ [raced], c', ?_, ?_, ?_⟩
  · rw [Transition.run_append, hrun]
    exact Transition.run_of_step hstep []
  · rw [hreturned, List.getLast?_concat]
  · rw [hanswers, List.getLast?_concat]

end Conversation

end GwPulse

end SonicBrew
