import GrpcLua.Support.Runs
import GrpcLua.Support.Traces
import GrpcLua.Support.Outbox
import GrpcLua.Core.Call
import GrpcLua.Core.SendQueue
import GrpcLua.Core.CallRules
import GrpcLua.Core.LifeCycles
import GrpcLua.Client.ReaderWriter.Definitions
import GrpcLua.Client.ReaderWriter.Traffic
import GrpcLua.Client.ReaderWriter.StatusCb
import GrpcLua.Client.ReaderWriter.FirstBatch
import GrpcLua.Client.ReaderWriter.Assertions
import GrpcLua.Client.Reader
import GrpcLua.Client.Reader.Runs
import GrpcLua.Client.SyncReader
import GrpcLua.Client.SyncReaderWriter
import GrpcLua.Client.SyncCalls
import GrpcLua.Client.AsyncCalls
import GrpcLua.Client.Raising
import GrpcLua.Client.Decoding
import GrpcLua.Client.FinalStatus
import GrpcLua.Client.Writer.Closing
import GrpcLua.Client.Responses
import GrpcLua.Client.SyncRequest
import GrpcLua.Client.WriteResults
import GrpcLua.Server.Writer.Runs
import GrpcLua.Server.Writer.QueueSize
import GrpcLua.Server.Writer.SyncWrites
import GrpcLua.Server.Writer.FailedWrites
import GrpcLua.Server.Requests
import GrpcLua.Server.Reading
import GrpcLua.Server.Statuses
import GrpcLua.Server.Registration
import GrpcLua.Server.Shutdown
import GrpcLua.Pb.RoundTrip
import GrpcLua.Pb.Iteration
import GrpcLua.Pb.Lossless
import GrpcLua.Pb.Unfolding
import GrpcLua.Pb.Conforms
import GrpcLua.Streams.Upload
import GrpcLua.Streams.Download
import GrpcLua.Streams.Bidi
import GrpcLua.Streams.Tables
import GrpcLua.Streams.SyncBidi
import GrpcLua.Streams.Unary
