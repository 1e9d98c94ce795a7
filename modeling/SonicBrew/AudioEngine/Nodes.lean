import SonicBrew.ControlApi.Types

/-!
# The audio nodes

The nodes that a graph can be built from, each as the call that makes it: which numbers it gets,
and for how many channels. What a node computes plays no part in what the server decides; its ports
do (`SonicBrew.DspNode.inputs`, `SonicBrew.DspNode.outputs`), since the graph library links ports
and refuses those that a node does not have.
-/

namespace SonicBrew

/-- The shape of a filter. -/
inductive FilterType where
  | lowPass
  | highPass
  | bandPass
  | peaking
  | lowShelf
  | highShelf
  deriving DecidableEq, Repr

/-- What is done to the channels of a frame. -/
inductive ChannelMode where
  | passthrough
  | swap
  | muteLeft
  | muteRight
  | pan (position : F32)
  | monoToStereo
  | stereoToMono
  deriving DecidableEq, Repr

inductive NoiseColor where
  | white
  | pink
  deriving DecidableEq, Repr

inductive Waveform where
  | sine
  | square
  | saw
  | triangle
  deriving DecidableEq, Repr

inductive DistortionMode where
  | softClip
  | hardClip
  | foldback
  | overdrive
  deriving DecidableEq, Repr

/-- **A node**, by the arguments of its constructor. -/
inductive DspNode where
  | gain (gain : F32)
  | eq (filterType : FilterType) (freq gainDb q : F32) (sampleRate : UInt32) (channels : UInt16)
  | compressor (thresholdDb ratio attackMs releaseMs makeupDb : F32) (sampleRate : UInt32)
      (channels : UInt16)
  | limiter (thresholdDb : F32) (channels : UInt16)
  | meter (channels : UInt16)
  | mixer (n : ℕ) (gains : List F32) (channels : UInt16)
  | channelMap (channels : UInt16) (mode : ChannelMode)
  | delay (maxDelaySamples delaySamples : ℕ) (feedback mix : F32) (channels : UInt16)
  | noiseGate (thresholdDb attackMs holdMs releaseMs : F32) (sampleRate : UInt32)
      (channels : UInt16)
  | noise (color : NoiseColor) (amp : F32) (seed : UInt64) (channels : UInt16)
  | tone (waveform : Waveform) (freq amp : F32) (sampleRate : UInt32) (channels : UInt16)
  | reverb (roomSize damping wet dry : F32) (sampleRate : UInt32) (channels : UInt16)
  | chorus (rateHz depthMs centerDelayMs mix : F32) (sampleRate : UInt32) (channels : UInt16)
  | distortion (mode : DistortionMode) (drive threshold outputLevel : F32) (channels : UInt16)
  | flanger (rateHz depthMs centerDelayMs feedback mix : F32) (sampleRate : UInt32)
      (channels : UInt16)
  | auxSend (sendLevel : F32) (channels : UInt16)
  | phaser (rateHz baseFreq depth feedback mix : F32) (stages : ℕ) (sampleRate : UInt32)
      (channels : UInt16)
  | bitcrusher (bits : UInt32) (holdFactor : ℕ) (channels : UInt16)
  | tremolo (rateHz depth : F32) (sampleRate : UInt32) (channels : UInt16)
  | stereoWidener (width : F32) (channels : UInt16)
  | fileSource (samples : List F32) (channels : UInt16) (sampleRate : UInt32) (looping : Bool)
  deriving DecidableEq, Repr

namespace DspNode

/-- The channels of each port. A gain has mono ports whatever the graph is. -/
def portChannels : DspNode → UInt16
  | .gain _ => 1
  | .eq _ _ _ _ _ channels => channels
  | .compressor _ _ _ _ _ _ channels => channels
  | .limiter _ channels => channels
  | .meter channels => channels
  | .mixer _ _ channels => channels
  | .channelMap channels _ => channels
  | .delay _ _ _ _ channels => channels
  | .noiseGate _ _ _ _ _ channels => channels
  | .noise _ _ _ channels => channels
  | .tone _ _ _ _ channels => channels
  | .reverb _ _ _ _ _ channels => channels
  | .chorus _ _ _ _ _ channels => channels
  | .distortion _ _ _ _ channels => channels
  | .flanger _ _ _ _ _ _ channels => channels
  | .auxSend _ channels => channels
  | .phaser _ _ _ _ _ _ _ channels => channels
  | .bitcrusher _ _ channels => channels
  | .tremolo _ _ _ channels => channels
  | .stereoWidener _ channels => channels
  | .fileSource _ channels _ _ => channels

/-- How many ports a node reads: a mixer has as many as it was made with, the generators and the
file player none, all others one. -/
def inputCount : DspNode → ℕ
  | .mixer n _ _ => n
  | .noise .. => 0
  | .tone .. => 0
  | .fileSource .. => 0
  | _ => 1

/-- How many ports a node writes: the send has a second one. -/
def outputCount : DspNode → ℕ
  | .auxSend .. => 2
  | _ => 1

/-- `AudioNode::inputs`. -/
def inputs (n : DspNode) : List PortMeta :=
  List.replicate n.inputCount ⟨.input, n.portChannels, .f32⟩

/-- `AudioNode::outputs`. -/
def outputs (n : DspNode) : List PortMeta :=
  List.replicate n.outputCount ⟨.output, n.portChannels, .f32⟩

@[simp] theorem length_inputs (n : DspNode) : n.inputs.length = n.inputCount :=
  List.length_replicate

@[simp] theorem length_outputs (n : DspNode) : n.outputs.length = n.outputCount :=
  List.length_replicate

end DspNode

end SonicBrew
