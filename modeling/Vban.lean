import Vban.Convert.AlsaSamples
import Vban.Convert.Clamping
import Vban.Convert.Integers
import Vban.Convert.RoundTrip
import Vban.Convert.SampleConvert
import Vban.Convert.Widening
import Vban.Discovery.Destination
import Vban.Discovery.KeyValue
import Vban.Discovery.ReceptorInfo
import Vban.Discovery.ScanReceptor
import Vban.Emit.AlsaCapture
import Vban.Emit.Arguments
import Vban.Emit.Copies
import Vban.Emit.Describe
import Vban.Emit.Emitter
import Vban.Emit.Midi
import Vban.Emit.PacketLength
import Vban.Emit.Partition
import Vban.Emit.Passport
import Vban.Emit.PipeOutput
import Vban.Emit.PipewireEmitter
import Vban.Emit.PipewirePackets
import Vban.Emit.Redundancy
import Vban.Emit.SendBuffer
import Vban.Emit.Slicing
import Vban.Emit.TunePackets
import Vban.Header
import Vban.Library.Arithmetic
import Vban.Library.Chunks
import Vban.Library.Decimal
import Vban.Library.Double
import Vban.Library.FrameWrites
import Vban.Library.Getopt
import Vban.Library.Grid
import Vban.Library.Heap
import Vban.Library.Inet
import Vban.Library.LinkedList
import Vban.Library.LittleEndian
import Vban.Library.OrderStatistic
import Vban.Library.Outcome
import Vban.Library.Places
import Vban.Library.Planes
import Vban.Library.Pool
import Vban.Library.Queues
import Vban.Library.Rounding
import Vban.Library.Run
import Vban.Library.ShellWords
import Vban.Library.Single
import Vban.Library.SkipRepeats
import Vban.Library.Sweep
import Vban.Library.Window
import Vban.Multistream.Admission
import Vban.Multistream.ChildPipe
import Vban.Multistream.Children
import Vban.Multistream.ClientList
import Vban.Multistream.ClientNodes
import Vban.Multistream.ClientTable
import Vban.Multistream.Command
import Vban.Multistream.Expiry
import Vban.Multistream.Info
import Vban.Multistream.OwnDatagrams
import Vban.Multistream.PipeInput
import Vban.Multistream.Popen2
import Vban.Multistream.ReceptorOptions
import Vban.Multistream.Relay
import Vban.Multistream.Server
import Vban.Pcmi.Channels
import Vban.Pcmi.Device
import Vban.Pcmi.Levels
import Vban.Pcmi.Samples
import Vban.Pcmi.Stream
import Vban.Playback.Agreement
import Vban.Playback.Assigned
import Vban.Playback.Bounds
import Vban.Playback.Delay
import Vban.Playback.DriftControl
import Vban.Playback.LostPeriods
import Vban.Playback.Period
import Vban.Playback.Reader
import Vban.Playback.Steady
import Vban.Playback.Turns
import Vban.Receive.AlsaUtil
import Vban.Receive.Binding
import Vban.Receive.Bounds
import Vban.Receive.ChannelFill
import Vban.Receive.Context
import Vban.Receive.CycleMedian
import Vban.Receive.Delivery
import Vban.Receive.Enqueue
import Vban.Receive.Foreign
import Vban.Receive.Handed
import Vban.Receive.HandlePacket
import Vban.Receive.InOrder
import Vban.Receive.MedianFilter
import Vban.Receive.MidiDelivery
import Vban.Receive.MidiLoop
import Vban.Receive.NetThread
import Vban.Receive.OutAllowance
import Vban.Receive.PipeReader
import Vban.Receive.PipewireFill
import Vban.Receive.PipewireReceptor
import Vban.Receive.Resampling
import Vban.Receive.RingFill
import Vban.Receive.RxThread
import Vban.Receive.Spec
import Vban.Receive.ThreadBounds
import Vban.Receive.VResampler
import Vban.Resampler.Definitions
import Vban.Resampler.Exact
import Vban.Resampler.Filter
import Vban.Resampler.Objects
import Vban.Resampler.Output
import Vban.Resampler.Phase
import Vban.Resampler.Refinement
import Vban.Resampler.Stream
import Vban.Ringbuffer.Definitions
import Vban.Ringbuffer.Frames
import Vban.Ringbuffer.Interleaving
import Vban.Ringbuffer.Operations
import Vban.Ringbuffer.Refinement
import Vban.Ringbuffer.Safety
import Vban.Ringbuffer.Vectors
import Vban.Transport.Capture
import Vban.Transport.Decode
import Vban.Transport.Listening
