import SonicBrew.Lib.Table
import SonicBrew.Lib.Wire
import SonicBrew.Lib.Blocks
import SonicBrew.Lib.Memory
import SonicBrew.Lib.Reading
import SonicBrew.Lib.Cursor
import SonicBrew.Lib.Rounding
import SonicBrew.Lib.Layout
import SonicBrew.Lib.Machine
import SonicBrew.Lib.Lanes
import SonicBrew.Lib.Signal
import SonicBrew.Lib.DelayLine
import SonicBrew.Lib.Broadcast
import SonicBrew.Lib.Fallible
import SonicBrew.Lib.Transition
import SonicBrew.Lib.Pool
import SonicBrew.Lib.Atomic
import SonicBrew.Lib.PeakHold
import SonicBrew.Lib.Circular
import SonicBrew.Lib.Stamping
import SonicBrew.Lib.Xorshift
import SonicBrew.Lib.Text
import SonicBrew.Lib.Publication
import SonicBrew.Lib.Succession
import SonicBrew.AudioCore
import SonicBrew.Topology
import SonicBrew.SessionStore.Engine
import SonicBrew.SessionStore.RaftTypes
import SonicBrew.SessionStore.LogStore
import SonicBrew.SessionStore.StateMachine
import SonicBrew.SessionStore.MutationIds
import SonicBrew.SessionStore.Committed
import SonicBrew.SessionStore.LogRange
import SonicBrew.SessionStore.InstallCrash
import SonicBrew.SessionStore.SnapshotRace
import SonicBrew.SessionStore.SnapshotIds
import SonicBrew.SessionStore.Subscribe
import SonicBrew.SessionStore.Distributed
import SonicBrew.ControlApi.Types
import SonicBrew.ControlApi.Controller
import SonicBrew.ControlApi.Integrity
import SonicBrew.ControlApi.Preset
import SonicBrew.ControlApi.RoundTrip
import SonicBrew.ControlApi.Fresh
import SonicBrew.ControlApi.Calls
import SonicBrew.ControlApi.ConcurrentCreate
import SonicBrew.ControlApi.ConcurrentDelete
import SonicBrew.ControlApi.ConcurrentLink
import SonicBrew.ControlApi.ConcurrentRegistries
import SonicBrew.ControlApi.ConcurrentView
import SonicBrew.AudioEngine.BuildGraph
import SonicBrew.AudioEngine.Bridge
import SonicBrew.AudioEngine.Connection
import SonicBrew.AudioEngine.Passages
import SonicBrew.AudioEngine.Stream
import SonicBrew.AudioEngine.Rebuild
import SonicBrew.AudioEngine.Nodes
import SonicBrew.AudioEngine.Ports
import SonicBrew.AudioEngine.Isomorphic
import SonicBrew.AudioEngine.FileSource
import SonicBrew.AudioEngine.ChannelMap
import SonicBrew.AudioEngine.Process
import SonicBrew.AudioEngine.Delay
import SonicBrew.AudioEngine.Modulated
import SonicBrew.AudioEngine.Eq
import SonicBrew.AudioEngine.Cookbook
import SonicBrew.AudioEngine.Phaser
import SonicBrew.AudioEngine.Reverb
import SonicBrew.AudioEngine.Bitcrusher
import SonicBrew.AudioEngine.NoiseGate
import SonicBrew.AudioEngine.Distortion
import SonicBrew.AudioEngine.NoiseSource
import SonicBrew.AudioEngine.Meter
import SonicBrew.AudioEngine.Playback
import SonicBrew.NetRtp.Codec
import SonicBrew.NetRtp.Jitter
import SonicBrew.NetRtp.Transport
import SonicBrew.NetRtp.Pcm
import SonicBrew.NetRtp.Worker
import SonicBrew.NetRtp.Drain
import SonicBrew.NetRtp.Netmap
import SonicBrew.NetRtp.Sending
import SonicBrew.NetRtp.Receiving
import SonicBrew.NetRtp.Region
import SonicBrew.NetRtp.Link
import SonicBrew.GwPulse.Tags
import SonicBrew.GwPulse.Fields
import SonicBrew.GwPulse.Frames
import SonicBrew.GwPulse.Requests
import SonicBrew.GwPulse.Cursor
import SonicBrew.GwPulse.Unchecked
import SonicBrew.GwPulse.Memblocks
import SonicBrew.GwPulse.Playback
import SonicBrew.GwBrowser.Codec
import SonicBrew.GwBrowser.Server
import SonicBrew.GwAlsa.Params
import SonicBrew.GwAlsaPlugin.Bridge
import SonicBrew.GwAlsaPlugin.Config
import SonicBrew.GwAlsaPlugin.Transfer
import SonicBrew.Monitor.Metrics
import SonicBrew.Monitor.Window
import SonicBrew.Monitor.Xruns
import SonicBrew.Server.CreateRace
import SonicBrew.Server.Factory
import SonicBrew.Server.Created
import SonicBrew.Server.Links
import SonicBrew.Server.Boot
import SonicBrew.Server.Restart
import SonicBrew.Server.Reimport
