import SonicBrew.AudioCore
import SonicBrew.SessionStore.Engine

/-!
# Requests, presets and the store behind the controller

The control surface speaks in nodes that have a label, port counts, a *kind* and typed
*parameters*; the session store knows only ids and ports. This module has the data of the
control surface, and what the controller assumes of the store it writes through
(`SonicBrew.SessionStore`): a call either fails and changes nothing, or applies its mutation
to the topology. The single-node engine is such a store
(`SonicBrew.RaftEngine.sessionStore`), by the analysis of its one call.

A parameter of a node is a single-precision number. The controller copies it and compares
nothing about it, so it is kept as its bit pattern, `SonicBrew.F32`.
-/

namespace SonicBrew

/-- Kind-specific node parameters. -/
inductive NodeParams where
  | gain (gain : F32)
  | mixer (inputs : ℕ) (gains : List F32)
  | eq (filterType : String) (freq gainDb q : F32)
  | compressor (thresholdDb ratio attackMs releaseMs makeupDb : F32)
  | limiter (thresholdDb : F32)
  | meter
  | channelMap (mode : String) (pan : Option F32)
  | delay (maxDelayMs delayMs feedback mix : F32)
  | noiseGate (thresholdDb attackMs holdMs releaseMs : F32)
  | noise (color : String) (amp : F32) (seed : UInt64)
  | tone (waveform : String) (freq amp : F32)
  | reverb (roomSize damping wet dry : F32)
  | chorus (rateHz depthMs centerDelayMs mix : F32)
  | distortion (mode : String) (drive threshold outputLevel : F32)
  | flanger (rateHz depthMs centerDelayMs feedback mix : F32)
  | auxSend (sendLevel : F32)
  | phaser (rateHz baseFreq depth feedback mix : F32) (stages : UInt32)
  | bitcrusher (bits holdFactor : UInt32)
  | tremolo (rateHz depth : F32)
  | stereoWidener (width : F32)
  deriving DecidableEq, Repr

/-- The kind a parameter record is for. -/
def NodeParams.kindName : NodeParams → String
  | .gain .. => "gain"
  | .mixer .. => "mixer"
  | .eq .. => "eq"
  | .compressor .. => "compressor"
  | .limiter .. => "limiter"
  | .meter => "meter"
  | .channelMap .. => "channel_map"
  | .delay .. => "delay"
  | .noiseGate .. => "noise_gate"
  | .noise .. => "noise"
  | .tone .. => "tone"
  | .reverb .. => "reverb"
  | .chorus .. => "chorus"
  | .distortion .. => "distortion"
  | .flanger .. => "flanger"
  | .auxSend .. => "aux_send"
  | .phaser .. => "phaser"
  | .bitcrusher .. => "bitcrusher"
  | .tremolo .. => "tremolo"
  | .stereoWidener .. => "stereo_widener"

/-- A node as it is listed. -/
structure NodeInfo where
  id : NodeId
  label : String
  inputs : UInt16
  outputs : UInt16
  kind : Option String
  params : Option NodeParams
  deriving DecidableEq, Repr

/-- A request for a new node. -/
structure NodeSpec where
  label : String
  inputs : UInt16
  outputs : UInt16
  kind : Option String
  params : Option NodeParams
  deriving DecidableEq, Repr

/-- A link as it is listed (`from` and `to` are the source and the destination). -/
structure LinkInfo where
  id : LinkId
  src : NodeId
  srcPort : UInt16
  dst : NodeId
  dstPort : UInt16
  deriving DecidableEq, Repr

/-- A node of a preset. -/
structure PresetNode where
  id : NodeId
  label : String
  inputs : UInt16
  outputs : UInt16
  kind : Option String
  params : Option NodeParams
  deriving DecidableEq, Repr

/-- A link of a preset. -/
structure PresetLink where
  src : NodeId
  srcPort : UInt16
  dst : NodeId
  dstPort : UInt16
  deriving DecidableEq, Repr

/-- A whole graph: nodes with kinds and parameters, and links. -/
@[ext]
structure Preset where
  version : UInt32
  nodes : List PresetNode
  links : List PresetLink
  deriving DecidableEq, Repr

/-- The version written by `export_preset`. -/
def presetVersion : UInt32 := 1

/-- The errors of the control surface. -/
inductive ControlError where
  | unimplemented (msg : String)
  | badRequest (msg : String)
  | graph (msg : String)
  | notFound (msg : String)
  deriving DecidableEq, Repr

/-- A session-store error, as the control surface reports it. -/
def storeErrToControl : StoreError → ControlError
  | .invalidMutation msg => .graph msg
  | .persistence msg => .graph msg
  | .unimplemented msg => .graph s!"store: {msg}"

/-- `count` mono single-precision ports of one direction. -/
def buildPorts (count : UInt16) (dir : PortDir) : List PortMeta :=
  List.replicate count.toNat ⟨dir, 1, .f32⟩

@[simp] theorem length_buildPorts (count : UInt16) (dir : PortDir) :
    (buildPorts count dir).length = count.toNat := List.length_replicate

/-- The largest value of the platform's `usize`. -/
def usizeMax : ℕ := 2 ^ 64 - 1

/-- The white space that `trim` strips (the Unicode property). -/
def isWhitespace (c : Char) : Bool :=
  let n := c.toNat
  (0x09 ≤ n && n ≤ 0x0D) || n == 0x20 || n == 0x85 || n == 0xA0 || n == 0x1680 ||
    (0x2000 ≤ n && n ≤ 0x200A) || n == 0x2028 || n == 0x2029 || n == 0x202F || n == 0x205F ||
    n == 0x3000

/-- Whether nothing is left of a string once trimmed. -/
def trimIsEmpty (s : String) : Bool := s.toList.all isWhitespace

/-! ### The store -/

/-- **A session store**, with a state in `S` and what can go wrong with a call in `F`. -/
structure SessionStore [SnapshotApply] (S F : Type) where
  getTopology : S → TopologySnapshot
  applyMutation : S → Mutation → F → Except StoreError ℕ × S
  /-- A call fails and changes nothing, or applies its mutation. -/
  applyMutation_cases : ∀ s m fault,
    (∃ err, applyMutation s m fault = (.error err, s)) ∨
      ∃ id s', applyMutation s m fault = (.ok id, s') ∧
        getTopology s' = (getTopology s).apply m

/-- **The single-node engine is a session store.** -/
def RaftEngine.sessionStore [SnapshotApply] (json : Codec Mutation) :
    SessionStore EngineState (Option (PersistStep × String)) where
  getTopology := EngineState.snapshot
  applyMutation := applyMutation json
  applyMutation_cases := by
    intro e m fault
    rcases RaftEngine.applyMutation_cases json e m fault with h | h
    · exact Or.inl h
    · exact Or.inr ⟨_, _, h, rfl⟩

end SonicBrew
