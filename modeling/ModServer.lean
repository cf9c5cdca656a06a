import ModServer.Http.Pieces
import ModServer.Http.WellFormed
import ModServer.Http.Prefix
import ModServer.Http.Incremental
import ModServer.Http.Handler
import ModServer.Http.Framing
import ModServer.Http.Segmentation
import ModServer.Library.Machine
import ModServer.Library.Registry
import ModServer.Plugin.Loader
import ModServer.Server.Core
import ModServer.Server.Init
import ModServer.Server.Moves
import ModServer.Server.Invariant
import ModServer.Server.Orderly
import ModServer.Server.Removal
import ModServer.Server.Polling
import ModServer.Server.Accept
import ModServer.Server.Stream
import ModServer.Server.Range
import ModServer.Server.Life
import ModServer.Http.Monotone
import ModServer.Http.RequestLine
import ModServer.Http.HeadText
import ModServer.Http.HeaderLine
import ModServer.Http.Complete
import ModServer.Http.LineEnds
import ModServer.Http.History
import ModServer.Server.Transfer
import ModServer.Http.Bounds
import ModServer.Http.ResponseHead
import ModServer.Base.CommandLine
import ModServer.Plugin.Discovery
import ModServer.Library.Ledger
import ModServer.Server.Descriptors
import ModServer.Server.Conversation
import ModServer.Server.Passes
import ModServer.Http.Client
import ModServer.Server.Delivery
import ModServer.Server.EndPoint
import ModServer.Library.Walk
import ModServer.Plugin.Folders
import ModServer.Server.Main
import ModServer.Server.Drain
import ModServer.Plugin.Libraries
