import InfiTracing.Framework.Machine
import InfiTracing.Framework.TwoRuns
import InfiTracing.Framework.LockTable
import InfiTracing.Framework.Counting
import InfiTracing.Framework.TicketQueue
import InfiTracing.Framework.Threshold
import InfiTracing.Framework.Numerals
import InfiTracing.Framework.OctetCounting
import InfiTracing.Framework.Overwrite
import InfiTracing.Framework.Coupling
import InfiTracing.Framework.Programs
import InfiTracing.Framework.Recency
import InfiTracing.Framework.Calendar
import InfiTracing.Framework.Rfc3339
import InfiTracing.Framework.Fields
import InfiTracing.Framework.Linearizable
import InfiTracing.Framework.Retry
import InfiTracing.Framework.LinkedList
import InfiTracing.Mintomic.Atomic
import InfiTracing.Mintomic.Arm
import InfiTracing.Mintomic.ArmOutline
import InfiTracing.Mintomic.X86
import InfiTracing.TraceMessage
import InfiTracing.TraceMessage.Format
import InfiTracing.TraceMessage.Appends
import InfiTracing.TraceMessage.Memory
import InfiTracing.TraceMessage.Limits
import InfiTracing.RingBuffer.Basic
import InfiTracing.RingBuffer.Steps
import InfiTracing.RingBuffer.Locks
import InfiTracing.RingBuffer.History
import InfiTracing.RingBuffer.Slots
import InfiTracing.RingBuffer.Overflow
import InfiTracing.RingBuffer.Content
import InfiTracing.RingBuffer.Drain
import InfiTracing.RingBuffer.Fifo
import InfiTracing.RingBuffer.Sequential
import InfiTracing.RingBuffer.Reach
import InfiTracing.RingBuffer.NoOverrun
import InfiTracing.RingBuffer.Head
import InfiTracing.RingBuffer.Cells
import InfiTracing.RingBuffer.Writer
import InfiTracing.UtHash
import InfiTracing.UtHash.Pointers
import InfiTracing.UtHash.Refinement
import InfiTracing.UtHash.Runs
import InfiTracing.Lru
import InfiTracing.Lru.Order
import InfiTracing.Lru.Pointers
import InfiTracing.TraceLevelCache
import InfiTracing.TraceLevelCache.FilterCalls
import InfiTracing.ThreadStorage
import InfiTracing.ThreadStorage.Owners
import InfiTracing.Greenlet.TraceFunc
import InfiTracing.Greenlet.Session
import InfiTracing.Greenlet.Levels
import InfiTracing.Greenlet.CallTree
import InfiTracing.Greenlet.Depth
import InfiTracing.Greenlet.BooleanFilters
import InfiTracing.Greenlet.Suspension
import InfiTracing.Greenlet.Masking
import InfiTracing.Greenlet.Isolation
import InfiTracing.Greenlet.Thread
import InfiTracing.Greenlet.StaleLevels
import InfiTracing.Greenlet.Restart
import InfiTracing.Syslog.TcpSocket
import InfiTracing.TraceDump.IsoTime
import InfiTracing.Syslog.FormatMessage
import InfiTracing.Syslog.Grammar
import InfiTracing.Serialize.Objects
import InfiTracing.Serialize.Repr
import InfiTracing.Serialize.Agreement
import InfiTracing.Serialize.Termination
import InfiTracing.Serialize.Frame
import InfiTracing.Serialize.Renders
import InfiTracing.Serialize.Containers
import InfiTracing.Serialize.Failure
import InfiTracing.Serialize.Strings
import InfiTracing.Serialize.Literals
import InfiTracing.Serialize.Closing
import InfiTracing.Serialize.Scalars
import InfiTracing.Serialize.LogCall
import InfiTracing.Serialize.Records
import InfiTracing.TraceDump.Basic
import InfiTracing.TraceDump.Lifecycle
import InfiTracing.TraceDump.Processed
import InfiTracing.TraceDump.Stop
import InfiTracing.TraceDump.Progress
import InfiTracing.TraceDump.Rotation
import InfiTracing.TraceDump.Drained
import InfiTracing.TraceDump.Restart
import InfiTracing.TraceDump.Sink
import InfiTracing.TraceDump.FileLines
import InfiTracing.TraceDump.FileRecords
import InfiTracing.Syslog.Pipeline
import InfiTracing.Syslog.UnixSocket
