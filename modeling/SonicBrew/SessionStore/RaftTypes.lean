import SonicBrew.Lib.Wire
import SonicBrew.Topology

/-!
# The types of the replicated store

The vocabulary the log store and the state machine share with the consensus library: log
ids, entries and memberships, and the byte formats they are stored in.

A log id has a fixed layout – the leader's term and id and the entry's index, eight bytes
each – and an optional one is a tag byte in front of it. The two layouts are kept apart
here (`SonicBrew.LogId.format`, `SonicBrew.Format.option`), because the log
store writes one and reads the other. For the remaining stored types only the round trip
matters, so the database layer takes a codec for each as a parameter; that such codecs exist
is what the second half of this file says.
-/

namespace SonicBrew

/-- The term and the node of a committed leader. -/
structure LeaderId where
  term : UInt64
  nodeId : UInt64
  deriving DecidableEq, Repr

/-- The id of a log entry: who proposed it, and where. -/
structure LogId where
  leaderId : LeaderId
  index : UInt64
  deriving DecidableEq, Repr

/-- A cluster configuration: the voter sets, and the address of every node. -/
structure Membership where
  configs : List (List UInt64)
  nodes : List (UInt64 × String)
  deriving DecidableEq, Repr

/-- A configuration, and the log entry it came from. -/
structure StoredMembership where
  logId : Option LogId
  membership : Membership
  deriving DecidableEq, Repr

/-- The membership of a node that has applied nothing. -/
def StoredMembership.default : StoredMembership := ⟨none, ⟨[], []⟩⟩

/-- What a log entry does. -/
inductive EntryPayload where
  | blank
  | normal (mutation : Mutation)
  | membership (membership : Membership)
  deriving DecidableEq, Repr

/-- A log entry. -/
structure Entry where
  logId : LogId
  payload : EntryPayload
  deriving DecidableEq, Repr

/-- What a client learns of its write: the id its mutation was given. -/
structure ClientWriteResponse where
  mutationId : ℕ
  deriving DecidableEq, Repr

/-- The answer for an entry that is not a mutation. -/
def ClientWriteResponse.default : ClientWriteResponse := ⟨0⟩

/-- The position of an entry in the log. -/
def Entry.index (e : Entry) : ℕ := e.logId.index.toNat

/-- Whether a storage error came from reading or from writing. -/
inductive ErrorVerb where
  | read
  | write
  deriving DecidableEq, Repr

/-- An error of the storage layer, as `io_error` builds it. -/
structure StorageError where
  context : String
  verb : ErrorVerb
  source : String
  deriving DecidableEq, Repr

/-! ### The layout of a log id -/

/-- Term, node and index, eight bytes each. -/
def LogId.format : Format LogId :=
  ((Format.u64.prod Format.u64).prod Format.u64).map
    (fun l => ((l.leaderId.term, l.leaderId.nodeId), l.index)) (fun p => ⟨⟨p.1.1, p.1.2⟩, p.2⟩)
    fun _ => rfl

/-! ### A codec for every stored type -/

section Formats

open Format

def PortDir.format : Format PortDir :=
  u8.map (fun d => if d = .input then 0 else 1) (fun b => if b = 0 then .input else .output)
    fun d => by cases d <;> rfl

def SampleFmt.format : Format SampleFmt :=
  u8.map (fun | .f32 => 0 | .f64 => 1 | .i16 => 2 | .i32 => 3)
    (fun b => if b = 0 then .f32 else if b = 1 then .f64 else if b = 2 then .i16 else .i32)
    fun d => by cases d <;> rfl

def PortMeta.format : Format PortMeta :=
  ((PortDir.format.prod (nat.map UInt16.toNat UInt16.ofNat fun _ => UInt16.ofNat_toNat)).prod
    SampleFmt.format).map
    (fun p => ((p.direction, p.channels), p.sampleFormat)) (fun p => ⟨p.1.1, p.1.2, p.2⟩)
    fun _ => rfl

def NodeSnapshot.format : Format NodeSnapshot :=
  ((nat.prod (list PortMeta.format)).prod (list PortMeta.format)).map
    (fun n => ((n.id, n.inputs), n.outputs)) (fun p => ⟨p.1.1, p.1.2, p.2⟩) fun _ => rfl

def SnapshotEdge.format : Format SnapshotEdge :=
  ((nat.prod nat).prod (nat.prod nat)).map (fun e => (e.src, e.dst)) (fun p => ⟨p.1, p.2⟩)
    fun _ => rfl

def TopologySnapshot.format : Format TopologySnapshot :=
  ((list NodeSnapshot.format).prod (list SnapshotEdge.format)).map (fun t => (t.nodes, t.edges))
    (fun p => ⟨p.1, p.2⟩) fun _ => rfl

def Mutation.format : Format Mutation :=
  ((NodeSnapshot.format.sum nat).sum (SnapshotEdge.format.sum nat)).map
    (fun
      | .addNode n => .inl (.inl n)
      | .removeNode i => .inl (.inr i)
      | .addLink e => .inr (.inl e)
      | .removeLink i => .inr (.inr i))
    (fun
      | .inl (.inl n) => .addNode n
      | .inl (.inr i) => .removeNode i
      | .inr (.inl e) => .addLink e
      | .inr (.inr i) => .removeLink i)
    fun m => by cases m <;> rfl

def Membership.format : Format Membership :=
  ((list (list u64)).prod (list (u64.prod string))).map (fun m => (m.configs, m.nodes))
    (fun p => ⟨p.1, p.2⟩) fun _ => rfl

def StoredMembership.format : Format StoredMembership :=
  (LogId.format.option.prod Membership.format).map (fun m => (m.logId, m.membership))
    (fun p => ⟨p.1, p.2⟩) fun _ => rfl

def EntryPayload.format : Format EntryPayload :=
  (Mutation.format.option.sum Membership.format).map
    (fun
      | .blank => .inl none
      | .normal m => .inl (some m)
      | .membership m => .inr m)
    (fun
      | .inl none => .blank
      | .inl (some m) => .normal m
      | .inr m => .membership m)
    fun p => by cases p <;> rfl

def Entry.format : Format Entry :=
  (LogId.format.prod EntryPayload.format).map (fun e => (e.logId, e.payload))
    (fun p => ⟨p.1, p.2⟩) fun _ => rfl

end Formats

end SonicBrew
