import LibraCore.Foundations.Octet
import LibraCore.Foundations.Storage
import LibraCore.Foundations.PrefixCode
import LibraCore.Foundations.Transition
import LibraCore.Foundations.Execution
import LibraCore.Base.Exception
import LibraCore.Base.Buffer
import LibraCore.Base.Bytes
import LibraCore.Base.BufferReader
import LibraCore.Base.BufferWriter
import LibraCore.Net.Packet
import LibraCore.Net.Decoder
import LibraCore.Net.Fields
import LibraCore.Net.RoundTrip
import LibraCore.Uv.Handle
import LibraCore.Uv.Stream
import LibraCore.Net.TcpServer
import LibraCore.Net.TcpClient
import LibraCore.Net.TcpReceive
import LibraCore.Net.TcpDelivery
import LibraCore.Net.TcpLifetime
import LibraCore.Http.UrlParser
import LibraCore.Foundations.SortedMap
import LibraCore.Http.HeaderMap
import LibraCore.Http.Message
import LibraCore.Http.ClientContext
import LibraCore.Http.Callbacks
import LibraCore.Http.Fragments
import LibraCore.Http.Feed
import LibraCore.Http.Lifetime
import LibraCore.Http.HeaderFields
import LibraCore.Net.BodyCursor
import LibraCore.Base.BufferSeq
import LibraCore.Net.TcpDispatch
import LibraCore.Foundations.HttpGrammar
import LibraCore.Http.ResponseText
import LibraCore.Foundations.SlotTable
import LibraCore.Uv.CallbackTable
import LibraCore.Uv.Dispatch
import LibraCore.Uv.Invocation
import LibraCore.Uv.HandleLifetime
import LibraCore.Foundations.Heap
import LibraCore.Uv.Pool
import LibraCore.Uv.PoolBalance
import LibraCore.Base.BufferBounds
import LibraCore.Net.Strings
import LibraCore.Base.ReaderCursor
import LibraCore.Base.BufferAssign
import LibraCore.Net.FrameLimit
import LibraCore.Http.ContentLength
import LibraCore.Http.UrlAccessors
import LibraCore.Foundations.LinkedList
import LibraCore.Base.EventMap
import LibraCore.Base.EventEmitter
import LibraCore.Base.ListenerHandles
import LibraCore.Base.Emission
import LibraCore.Base.EmitArguments
import LibraCore.Base.Singleton
import LibraCore.Http.HeaderNames
import LibraCore.Net.Address
import LibraCore.Uv.SignalWatch
import LibraCore.Http.ParserState
import LibraCore.Http.ParserExecute
import LibraCore.Http.ParserRuns
import LibraCore.Foundations.Incremental
import LibraCore.Http.ByteReader
import LibraCore.Http.Segmentation
import LibraCore.Http.CallOrder
import LibraCore.Http.RequestParser
