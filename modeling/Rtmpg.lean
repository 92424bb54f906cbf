import Rtmpg.Core.Bytes
import Rtmpg.L1Chain.CustomCopy
import Rtmpg.Core.AnnexB
import Rtmpg.L1Chain.Nginx
import Rtmpg.L2Video.Convert
import Rtmpg.L2Video.Reference
import Rtmpg.L2Video.Chunking
import Rtmpg.L2Video.Translate
import Rtmpg.L2Video.Bounds
import Rtmpg.L2Video.Message
import Rtmpg.L2Video.Complete
import Rtmpg.L2Video.Split
import Rtmpg.L2Video.Sound
import Rtmpg.Core.Mem
import Rtmpg.L2Audio.Opus
import Rtmpg.Core.AdtsFormat
import Rtmpg.L2Audio.Adts
import Rtmpg.L2Audio.Frames
import Rtmpg.L3Message.Chunking
import Rtmpg.Core.CStr
import Rtmpg.L4Session.Args
import Rtmpg.L4Session.Config
import Rtmpg.L4Session.Init
import Rtmpg.Core.LTS
import Rtmpg.Core.Fifo
import Rtmpg.L5Call.Model
import Rtmpg.L5Call.Frame
import Rtmpg.L5Call.Relay
import Rtmpg.L5Call.Handover
import Rtmpg.L5Call.Shutdown
import Rtmpg.L5Call.Lifetime
import Rtmpg.L2Audio.Framed
import Rtmpg.L2Audio.Decode
import Rtmpg.L2Audio.Timestamps
import Rtmpg.L5Call.Encoder
import Rtmpg.L5Call.LowVideo
import Rtmpg.L5Call.NoBlock
import Rtmpg.L5Call.RateControl
import Rtmpg.L5Call.JitterBuffer
import Rtmpg.L2Video.Empty
import Rtmpg.L5Call.Pacing
import Rtmpg.L5Call.Packets
import Rtmpg.L5Call.Sampling
import Rtmpg.L5Call.WorkQueue
import Rtmpg.L5Call.Queues
import Rtmpg.L2Video.Overrun
import Rtmpg.L2Video.ParamSets
import Rtmpg.L5Call.Buffering
import Rtmpg.L5Call.FpsWindow
import Rtmpg.L5Call.Quota
import Rtmpg.Core.LastWins
import Rtmpg.L4Session.Getline
import Rtmpg.L4Session.Options
import Rtmpg.L4Session.InitialSize
import Rtmpg.L4Session.LastLine
import Rtmpg.L4Session.Params
import Rtmpg.L4Session.Slash
import Rtmpg.Core.Machine
import Rtmpg.L1Chain.Cursor
import Rtmpg.Core.Fair
import Rtmpg.L5Call.Ending
import Rtmpg.L5Call.Paths
import Rtmpg.L5Call.Progress
import Rtmpg.L6Stream.Published
import Rtmpg.L6Stream.Video
import Rtmpg.L6Stream.Audio
import Rtmpg.L6Stream.Rendition
import Rtmpg.Core.Sleeper
import Rtmpg.L5Call.RealTime
import Rtmpg.L5Call.Held
import Rtmpg.L5Call.Scaler
import Rtmpg.L5Call.SteadyRate
import Rtmpg.Core.Pacer
import Rtmpg.L5Call.Latency
import Rtmpg.L5Call.Startup
import Rtmpg.L5Call.Drift
import Rtmpg.Core.Binary
import Rtmpg.L2Audio.Conversion
import Rtmpg.L6Stream.Waveform
import Rtmpg.Core.Ledger
import Rtmpg.L5Call.Ownership
