import ZeroStrm.Library.Runs
import ZeroStrm.Library.LinkedChain
import ZeroStrm.Library.Ring
import ZeroStrm.Library.FifoChannel
import ZeroStrm.Library.Countdown
import ZeroStrm.Library.Operations
import ZeroStrm.Library.BoundedQueue
import ZeroStrm.Library.Interruption
import ZeroStrm.Common.SimpleFsm
import ZeroStrm.Common.Block
import ZeroStrm.Common.BlockCalls
import ZeroStrm.Common.BlockAccess
import ZeroStrm.Common.ByteFifo
import ZeroStrm.Common.ByteFifoCalls
import ZeroStrm.Common.PoolBounds
import ZeroStrm.Common.Cells
import ZeroStrm.Read.Stream
import ZeroStrm.Read.Flush
import ZeroStrm.Read.Runs
import ZeroStrm.Read.Channel
import ZeroStrm.Read.Init
import ZeroStrm.Read.Ownership
import ZeroStrm.Read.DmaLength
import ZeroStrm.Read.Turns
import ZeroStrm.Read.Pop
import ZeroStrm.Read.Located
import ZeroStrm.Read.Delivery
import ZeroStrm.Read.NestedFlush
import ZeroStrm.Read.Preemption
import ZeroStrm.Read.NestedDelivery
import ZeroStrm.Read.ZeroCopy
import ZeroStrm.Read.TimeOut
import ZeroStrm.Read.Handlers
import ZeroStrm.Read.Accesses
import ZeroStrm.Read.Safety
import ZeroStrm.Read.Latency
import ZeroStrm.Write.Stream
import ZeroStrm.Write.Runs
import ZeroStrm.Write.Init
import ZeroStrm.Write.Steps
import ZeroStrm.Write.BusyProtocol
import ZeroStrm.Write.Ownership
import ZeroStrm.Write.Transmission
import ZeroStrm.Write.Capacity
import ZeroStrm.Write.Call
import ZeroStrm.Write.BackPressure
import ZeroStrm.Write.Accesses
import ZeroStrm.Write.Progress
import ZeroStrm.Write.Safety
import ZeroStrm.Write.ZeroCopy
import ZeroStrm.PoolLayout
import ZeroStrm.Echo
