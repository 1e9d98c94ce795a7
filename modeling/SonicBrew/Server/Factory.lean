import SonicBrew.AudioEngine.Bridge
import SonicBrew.AudioEngine.Nodes
import SonicBrew.Server.CreateRace

/-!
# The factory of the server

On the server a node of the topology is an id with ports. What is built for it is decided by
`EngineServerFactory::build` (`SonicBrew.EngineServerFactory.build`): ids `0` and `1` are the two
ends of the gateway bridge, and any other id is rendered by `render_node`
(`SonicBrew.renderNode`) from the kind and the parameters that the registries have for it.
`render_node` knows twenty kinds. For a kind without parameters, or with those of another kind, it
takes the defaults of the kind, and for an unknown kind a gain of one, so that a rebuild never
fails on a node.

The factory is a bridge factory (`SonicBrew.EngineServerFactory.build_eq_bridge`), and the one that
the creation of nodes was studied with, with all that is rendered written out
(`SonicBrew.EngineServerFactory.build_eq_factory`).
-/

namespace SonicBrew

/-! ### Single-precision numbers -/

namespace F32

/-- The number. -/
def toFloat32 (x : F32) : Float32 := Float32.ofBits x.bits

/-- A literal of the source. -/
instance : OfScientific F32 where
  ofScientific m s e := ⟨(OfScientific.ofScientific m s e : Float32).toBits⟩

/-- A minus sign. -/
instance : Neg F32 where
  neg x := ⟨(-x.toFloat32).toBits⟩

end F32

/-- A duration in milliseconds as a number of samples (`(ms * 0.001 * sr) as usize`). -/
def samplesOfMs (ms : F32) (sampleRate : UInt32) : ℕ :=
  (ms.toFloat32 * 0.001 * sampleRate.toFloat32).toUInt64.toNat

/-- A part of a second as a number of samples (`(x * sample_rate as f32) as usize`). -/
def samplesOfSeconds (x : F32) (sampleRate : UInt32) : ℕ :=
  (x.toFloat32 * sampleRate.toFloat32).toUInt64.toNat

/-! ### Names in parameters -/

def parseFilterType (s : String) : FilterType :=
  match s.toLower with
  | "lowpass" => .lowPass
  | "highpass" => .highPass
  | "bandpass" => .bandPass
  | "peaking" => .peaking
  | "lowshelf" => .lowShelf
  | "highshelf" => .highShelf
  | _ => .peaking

def parseChannelMode (s : String) (pan : Option F32) : ChannelMode :=
  match s.toLower with
  | "passthrough" => .passthrough
  | "swap" => .swap
  | "mute_left" => .muteLeft
  | "mute_right" => .muteRight
  | "pan" => .pan (pan.getD 0.0)
  | "mono_to_stereo" => .monoToStereo
  | "stereo_to_mono" => .stereoToMono
  | _ => .passthrough

def parseNoiseColor (s : String) : NoiseColor :=
  match s.toLower with
  | "pink" => .pink
  | _ => .white

def parseWaveform (s : String) : Waveform :=
  match s.toLower with
  | "square" => .square
  | "saw" => .saw
  | "triangle" => .triangle
  | _ => .sine

def parseDistortionMode (s : String) : DistortionMode :=
  match s.toLower with
  | "hard_clip" => .hardClip
  | "hardclip" => .hardClip
  | "foldback" => .foldback
  | "overdrive" => .overdrive
  | _ => .softClip

/-! ### `render_node` -/

/-- **`render_node`**: the node for a kind, from its parameters if they are of that kind. -/
def renderNode (kind : Option String) (params : Option NodeParams) (sampleRate : UInt32)
    (channels : UInt16) : DspNode :=
  match kind with
  | some "gain" =>
      match params with
      | some (.gain gain) => .gain gain
      | _ => .gain 0.5
  | some "eq" =>
      match params with
      | some (.eq filterType freq gainDb q) =>
          .eq (parseFilterType filterType) freq gainDb q sampleRate channels
      | _ => .eq .peaking 1000.0 0.0 0.707 sampleRate channels
  | some "compressor" =>
      match params with
      | some (.compressor thresholdDb ratio attackMs releaseMs makeupDb) =>
          .compressor thresholdDb ratio attackMs releaseMs makeupDb sampleRate channels
      | _ => .compressor (-12.0) 4.0 1.0 50.0 0.0 sampleRate channels
  | some "limiter" =>
      match params with
      | some (.limiter thresholdDb) => .limiter thresholdDb channels
      | _ => .limiter (-1.0) channels
  | some "meter" => .meter channels
  | some "mixer" =>
      match params with
      | some (.mixer inputs gains) => .mixer inputs gains channels
      | _ => .mixer 2 [0.5, 0.5] channels
  | some "channel_map" =>
      match params with
      | some (.channelMap mode pan) => .channelMap channels (parseChannelMode mode pan)
      | _ => .channelMap channels .passthrough
  | some "delay" =>
      match params with
      | some (.delay maxDelayMs delayMs feedback mix) =>
          .delay (samplesOfMs maxDelayMs sampleRate) (samplesOfMs delayMs sampleRate) feedback mix
            channels
      | _ =>
          .delay (samplesOfSeconds 0.5 sampleRate) (samplesOfSeconds 0.25 sampleRate) 0.3 0.3
            channels
  | some "noise_gate" =>
      match params with
      | some (.noiseGate thresholdDb attackMs holdMs releaseMs) =>
          .noiseGate thresholdDb attackMs holdMs releaseMs sampleRate channels
      | _ => .noiseGate (-50.0) 1.0 50.0 100.0 sampleRate channels
  | some "noise" =>
      match params with
      | some (.noise color amp seed) => .noise (parseNoiseColor color) amp seed channels
      | _ => .noise .white 0.5 12345 channels
  | some "tone" =>
      match params with
      | some (.tone waveform freq amp) =>
          .tone (parseWaveform waveform) freq amp sampleRate channels
      | _ => .tone .sine 440.0 0.5 sampleRate channels
  | some "reverb" =>
      match params with
      | some (.reverb roomSize damping wet dry) =>
          .reverb roomSize damping wet dry sampleRate channels
      | _ => .reverb 0.5 0.5 0.3 0.7 sampleRate channels
  | some "chorus" =>
      match params with
      | some (.chorus rateHz depthMs centerDelayMs mix) =>
          .chorus rateHz depthMs centerDelayMs mix sampleRate channels
      | _ => .chorus 1.5 3.0 20.0 0.5 sampleRate channels
  | some "distortion" =>
      match params with
      | some (.distortion mode drive threshold outputLevel) =>
          .distortion (parseDistortionMode mode) drive threshold outputLevel channels
      | _ => .distortion .softClip 3.0 0.7 1.0 channels
  | some "flanger" =>
      match params with
      | some (.flanger rateHz depthMs centerDelayMs feedback mix) =>
          .flanger rateHz depthMs centerDelayMs feedback mix sampleRate channels
      | _ => .flanger 0.5 2.0 3.0 0.5 0.5 sampleRate channels
  | some "aux_send" =>
      match params with
      | some (.auxSend sendLevel) => .auxSend sendLevel channels
      | _ => .auxSend 0.5 channels
  | some "phaser" =>
      match params with
      | some (.phaser rateHz baseFreq depth feedback mix stages) =>
          .phaser rateHz baseFreq depth feedback mix stages.toNat sampleRate channels
      | _ => .phaser 0.5 800.0 0.5 0.3 0.5 4 sampleRate channels
  | some "bitcrusher" =>
      match params with
      | some (.bitcrusher bits holdFactor) => .bitcrusher bits holdFactor.toNat channels
      | _ => .bitcrusher 8 1 channels
  | some "tremolo" =>
      match params with
      | some (.tremolo rateHz depth) => .tremolo rateHz depth sampleRate channels
      | _ => .tremolo 5.0 0.5 sampleRate channels
  | some "stereo_widener" =>
      match params with
      | some (.stereoWidener width) => .stereoWidener width channels
      | _ => .stereoWidener 1.0 channels
  | _ => .gain 1.0

/-! ### The factory -/

namespace Server

/-- The channels of the graph. -/
def channels : UInt16 := 2

def sampleRate : UInt32 := 48000

/-- The frames of a block. -/
def numFrames : ℕ := 256

/-- The configuration the graph is compiled with. -/
def graphConfig : GraphConfig := ⟨numFrames, sampleRate, channels⟩

end Server

/-- A decoded audio file. -/
structure FileBuffer where
  samples : List F32
  channels : UInt16
  sampleRate : UInt32
  looping : Bool
  deriving DecidableEq, Repr

/-- **The server's factory**: the registries it shares with the controller, and the files that were
loaded. The bridge is what it works on. -/
structure EngineServerFactory where
  kinds : Registry String
  params : Registry NodeParams
  files : Registry FileBuffer

namespace EngineServerFactory

open Bridge (Gateway BridgeFactory)

/-- The player of a file; without the file, silence. -/
def playFile : Option FileBuffer → DspNode
  | some f => .fileSource f.samples f.channels f.sampleRate f.looping
  | none => .gain 0.0

/-- The node for a kind and parameters, when this is the file under its id. -/
def renderFrom (file : Option FileBuffer) (kind : Option String) (params : Option NodeParams) :
    DspNode :=
  if kind = some "file" then playFile file
  else renderNode kind params Server.sampleRate Server.channels

/-- The node for an id that is not the bridge's. -/
def render (factory : EngineServerFactory) (id : NodeId) : DspNode :=
  renderFrom (factory.files id) (factory.kinds id) (factory.params id)

/-- **`EngineServerFactory::build`.** -/
def build {F : Type} (factory : EngineServerFactory) :
    NodeFactory (Gateway F) (Bridge.AudioNode DspNode) :=
  fun id gw =>
    match id with
    | 0 =>
        let (node, gw) := gw.makeSourceNode
        (some node, gw)
    | 1 =>
        let (node, gw) := gw.makeSinkNode
        (some node, gw)
    | other => (some (.plain (.other (factory.render other))), gw)

theorem build_of_two_le {F : Type} (factory : EngineServerFactory) {id : NodeId} (h : 2 ≤ id)
    (gw : Gateway F) : factory.build id gw = (some (.plain (.other (factory.render id))), gw) := by
  obtain ⟨k, rfl⟩ := Nat.exists_eq_add_of_le' h
  rfl

/-- The factory answers for every id. -/
theorem exists_build {F : Type} (factory : EngineServerFactory) (id : NodeId) (gw : Gateway F) :
    ∃ n gw', factory.build id gw = (some n, gw') := by
  rcases id with _ | _ | id
  · exact ⟨_, _, rfl⟩
  · exact ⟨_, _, rfl⟩
  · exact ⟨_, _, rfl⟩

/-- Of the bridge's ids, `0` is the source's and `1` is the sink's. -/
def bridge : BridgeFactory := ⟨0, 1, Nat.zero_ne_one⟩

/-- **It is a bridge factory.** -/
theorem build_eq_bridge {F : Type} (factory : EngineServerFactory) :
    factory.build (F := F) = bridge.build fun id => some (.plain (factory.render id)) := by
  funext id gw
  rcases id with _ | _ | id
  · rfl
  · rfl
  · rfl

/-- **It is the factory that races with `create_node`**, with what it renders written out. -/
theorem build_eq_factory {F : Type} (factory : EngineServerFactory) (id : NodeId) (gw : Gateway F) :
    (factory.build id gw).1 = some (
      match CreateRace.factory factory.kinds factory.params id with
      | .bridgeSource => gw.makeSourceNode.1
      | .bridgeSink => gw.makeSinkNode.1
      | .file => .plain (.other (playFile (factory.files id)))
      | .node kind params =>
          .plain (.other (renderNode kind params Server.sampleRate Server.channels))) := by
  rcases id with _ | _ | id
  · rfl
  · rfl
  · have hfactory : CreateRace.factory factory.kinds factory.params (id + 2) =
        CreateRace.render (factory.kinds (id + 2)) (factory.params (id + 2)) := rfl
    rw [build_of_two_le factory (Nat.le_add_left 2 id), hfactory, render, renderFrom,
      CreateRace.render]
    split
    · rfl
    · rfl

end EngineServerFactory

end SonicBrew
