import DbSlayer.CLib.Numbers
import DbSlayer.CLib.Strings
import DbSlayer.CLib.Strtok
import DbSlayer.Db.Attribution
import DbSlayer.Db.Calls
import DbSlayer.Db.Cells
import DbSlayer.Db.Closing
import DbSlayer.Db.Execute
import DbSlayer.Db.Failover
import DbSlayer.Db.Handle
import DbSlayer.Db.Keys
import DbSlayer.Db.Liveness
import DbSlayer.Db.Mysql
import DbSlayer.Db.Naming
import DbSlayer.Db.Nulls
import DbSlayer.Db.Opening
import DbSlayer.Db.Reattach
import DbSlayer.Db.Replay
import DbSlayer.Db.Reply
import DbSlayer.Db.Result
import DbSlayer.Db.Statements
import DbSlayer.Db.Tables
import DbSlayer.Db.Verdict
import DbSlayer.Foundation.Effects
import DbSlayer.Foundation.Framed
import DbSlayer.Foundation.Ledger
import DbSlayer.Foundation.LinkedChain
import DbSlayer.Foundation.Markup
import DbSlayer.Foundation.Ring
import DbSlayer.Foundation.Scan
import DbSlayer.Foundation.Segments
import DbSlayer.Foundation.Slots
import DbSlayer.Foundation.SortedAssoc
import DbSlayer.Foundation.Steps
import DbSlayer.Foundation.Stream
import DbSlayer.Foundation.Tally
import DbSlayer.Foundation.Traced
import DbSlayer.Foundation.Utf8
import DbSlayer.Http.Bounds
import DbSlayer.Http.Correctness
import DbSlayer.Http.Delivery
import DbSlayer.Http.Grammar
import DbSlayer.Http.HeaderSection
import DbSlayer.Http.Memory
import DbSlayer.Http.Parse
import DbSlayer.Http.Qstring
import DbSlayer.Http.RequestLine
import DbSlayer.Http.Urldecode
import DbSlayer.Json.Containers
import DbSlayer.Json.Correctness
import DbSlayer.Json.Decode
import DbSlayer.Json.Echo
import DbSlayer.Json.Grammar
import DbSlayer.Json.Literals
import DbSlayer.Json.Numbers
import DbSlayer.Json.Passes
import DbSlayer.Json.RoundTrip
import DbSlayer.Json.Serialize
import DbSlayer.Json.Strict
import DbSlayer.Json.Strings
import DbSlayer.Json.Unicode
import DbSlayer.Json.Value
import DbSlayer.Json.Xml
import DbSlayer.Server.Access
import DbSlayer.Server.Accounting
import DbSlayer.Server.Bookkeeping
import DbSlayer.Server.Buckets
import DbSlayer.Server.Course
import DbSlayer.Server.Custody
import DbSlayer.Server.Dispatch
import DbSlayer.Server.Entrances
import DbSlayer.Server.Exchange
import DbSlayer.Server.Fileserver
import DbSlayer.Server.Form
import DbSlayer.Server.Frames
import DbSlayer.Server.Handler
import DbSlayer.Server.Handoffs
import DbSlayer.Server.Judgement
import DbSlayer.Server.Lifecycle
import DbSlayer.Server.Listener
import DbSlayer.Server.LogLines
import DbSlayer.Server.Logging
import DbSlayer.Server.Outgoing
import DbSlayer.Server.Ownership
import DbSlayer.Server.Pipeline
import DbSlayer.Server.Progress
import DbSlayer.Server.Response
import DbSlayer.Server.Results
import DbSlayer.Server.Sending
import DbSlayer.Server.Service
import DbSlayer.Server.Startup
import DbSlayer.Server.Stats
import DbSlayer.Server.Tls
import DbSlayer.Server.Token
import DbSlayer.Server.Worker
import DbSlayer.Skip.Heap
import DbSlayer.Skip.Model
import DbSlayer.Skip.Objects
import DbSlayer.Skip.Refinement
