import TinyPipewire.Lib.Machine
import TinyPipewire.Lib.Mailbox
import TinyPipewire.Filter.EventDelivery
import TinyPipewire.Filter.BufferBalance
import TinyPipewire.Filter.DataDelivery
import TinyPipewire.Filter.HeldPool
import TinyPipewire.Filter.SourceLoss
import TinyPipewire.Filter.LossReport
import TinyPipewire.Filter.LinkCall
import TinyPipewire.Filter.Relink
import TinyPipewire.Filter.LinkDispatch
import TinyPipewire.Stream.LinkLifetime
import TinyPipewire.Stream.Pairing
import TinyPipewire.Stream.AllOrNothing
import TinyPipewire.Stream.RunningStream
import TinyPipewire.Stream.SourceLoss
import TinyPipewire.Core.RegistryBind
import TinyPipewire.Lib.PodBuilder
import TinyPipewire.Filter.EventCodec
import TinyPipewire.Core.PublishedChunk
import TinyPipewire.Lib.Region
import TinyPipewire.Stream.Capture
import TinyPipewire.Core.InputRegion
import TinyPipewire.Lib.Retain
import TinyPipewire.Filter.Dmabuf
import TinyPipewire.Filter.Hold
import TinyPipewire.Stream.Teardown
import TinyPipewire.Stream.RoutingMode
import TinyPipewire.Stream.PlaybackFrames
import TinyPipewire.Filter.LinkFailure
import TinyPipewire.Lib.Ledger
import TinyPipewire.Filter.EventCopies
import TinyPipewire.Filter.DmabufAccess
import TinyPipewire.Stream.DmabufAccess
import TinyPipewire.Lib.CString
import TinyPipewire.Lib.SwapRemove
import TinyPipewire.Stream.TargetList
import TinyPipewire.Lib.WrappedRing
import TinyPipewire.Utils.LoopbackRing
import TinyPipewire.Lib.TopList
import TinyPipewire.Core.VideoFormat
import TinyPipewire.Core.VideoEnum
import TinyPipewire.Utils.LoopbackQueue
import TinyPipewire.Core.VideoReturn
import TinyPipewire.Lib.Cells
import TinyPipewire.Core.VideoRates
import TinyPipewire.Core.RegistryIds
import TinyPipewire.Core.PortListing
import TinyPipewire.Core.Removal
import TinyPipewire.Filter.Target
import TinyPipewire.Stream.OrdinalWiring
import TinyPipewire.Stream.Silence
import TinyPipewire.Stream.Overrun
import TinyPipewire.Filter.EventPublish
import TinyPipewire.Filter.PropertyEcho
import TinyPipewire.Filter.EventDecode
import TinyPipewire.Lib.PodWalk
import TinyPipewire.Stream.LoggedConditions
import TinyPipewire.Stream.Readers
import TinyPipewire.Core.RoundTrip
import TinyPipewire.Filter.AddPort
import TinyPipewire.Utils.Record
import TinyPipewire.Lib.Custody
import TinyPipewire.Core.Handles
import TinyPipewire.Core.HandleObjects
import TinyPipewire.Core.FilterObjects
import TinyPipewire.Core.StreamObjects
import TinyPipewire.Core.HandleWorld
import TinyPipewire.Utils.LoopbackAudio
import TinyPipewire.Utils.LoopbackFrames
import TinyPipewire.Lib.PodChoice
import TinyPipewire.Core.FormatPods
import TinyPipewire.Core.FormatBytes
import TinyPipewire.Filter.BufferPool
import TinyPipewire.Lib.RankedLocks
import TinyPipewire.Core.Waits
import TinyPipewire.Core.WaitOrder
import TinyPipewire.Core.CallsReturn
import TinyPipewire.Lib.HeapLedger
import TinyPipewire.Lib.SlotArray
import TinyPipewire.Core.RegistryMemory
import TinyPipewire.Lib.MarkedFrames
import TinyPipewire.Utils.RecordVideo
import TinyPipewire.Filter.CopyRuns
