import P8.Lib.Bytes
import P8.Lib.Layout
import P8.Lib.System
import P8.Lib.Blocks
import P8.Lib.LinkedQueue
import P8.Lib.Account
import P8.Wire
import P8.Writer.Tls
import P8.Writer.Rule
import P8.Writer.Record
import P8.Writer.Stream
import P8.Writer.Attrs
import P8.Writer.Discard
import P8.Trace.Trc
import P8.Trace.Decode
import P8.Trace.Run
import P8.Trace.Spans
import P8.Trace.Nesting
import P8.Log.Format
import P8.Log.Send
import P8.Log.Run
import P8.Writer.Progress
import P8.Log.Framing
import P8.Sink.SinkFile
import P8.Sink.Cycle
import P8.Sink.Grammar
import P8.Pool.BufferPool
import P8.Pool.Queue
import P8.Pool.Run
import P8.Lifetime.Shared
import P8.Lifetime.Run
import P8.Pool.Stock
import P8.Pool.Shared
import P8.Pool.Budget
import P8.Pool.Config
import P8.Pool.Served
import P8.Core.Model
import P8.Core.Control
import P8.Core.Batches
import P8.Core.Wake
import P8.Service.Entry
import P8.Service.Stream
import P8.Service.Decode
import P8.Service.Registry
import P8.Service.Handles
import P8.Writer.Frame
import P8.Metric.Mtk
import P8.Loss.Calls
import P8.Loss.Shared
import P8.Loss.Account
import P8.Lib.Word
import P8.Core.Clock
import P8.Pool.Pressure
import P8.Log.Grammar
import P8.Log.Args
import P8.Log.Precision
import P8.Log.Sites
import P8.Service.Blob
import P8.Service.Ids
import P8.Service.Dictionary
import P8.Loss.Dropped
import P8.Loss.Untried
import P8.Pool.Size
import P8.Lib.Index
import P8.Service.Modules
import P8.Service.Metrics
import P8.Loss.Service
import P8.Lib.Utf8
import P8.Service.Cut
import P8.Lib.Ledger
import P8.Sink.Files
import P8.Lib.Json
import P8.Init.Construct
import P8.Init.Initialize
import P8.Pool.Outstanding
import P8.Writer.Waiting
import P8.Writer.Cursor
import P8.Lib.DoublyLinked
import P8.Core.Writers
import P8.Pool.Teardown
import P8.Core.Records
import P8.Core.Promise
import P8.Core.Places
import P8.Core.Numbers
import P8.Core.Delivery
import P8.Core.Entries
import P8.Core.Descriptors
import P8.Core.Sequence
import P8.Pool.Refine
import P8.Core.Waiters
import P8.Lib.Split
import P8.Writer.Split
import P8.Metric.Decode
import P8.File.Stamp
import P8.Log.Decode
import P8.File.Pipe
import P8.File.Decode
import P8.File.Run
import P8.File.Service
import P8.File.Both
import P8.File.Spans
import P8.Lib.ByteOrder
import P8.File.Header
import P8.Lib.Directory
import P8.Service.Verbosity
