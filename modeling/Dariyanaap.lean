import Dariyanaap.Library.LogLinear
import Dariyanaap.Library.OrderStatistic
import Dariyanaap.Library.Rounding
import Dariyanaap.Library.Interleaving
import Dariyanaap.Library.Delimited
import Dariyanaap.Library.Quoting
import Dariyanaap.Library.Records
import Dariyanaap.Library.Register
import Dariyanaap.Library.AllOrNothing
import Dariyanaap.Library.EvenSpacing
import Dariyanaap.Library.Ledger
import Dariyanaap.Library.BoundedNumeral
import Dariyanaap.Library.Transition
import Dariyanaap.Library.FirstThatWorks
import Dariyanaap.Core.Units
import Dariyanaap.Core.DueTimes
import Dariyanaap.Core.Clock
import Dariyanaap.Core.Text
import Dariyanaap.Core.Socket
import Dariyanaap.Core.AwaitWritable
import Dariyanaap.Core.WriteAll
import Dariyanaap.Core.Endpoint
import Dariyanaap.Core.EndpointGrammar
import Dariyanaap.Core.Address
import Dariyanaap.Core.Connect
import Dariyanaap.Core.Listener
import Dariyanaap.Stats.Buckets
import Dariyanaap.Stats.Histogram
import Dariyanaap.Stats.Percentile
import Dariyanaap.Stats.Summary
import Dariyanaap.Stats.TimeSeries
import Dariyanaap.Stats.Csv
import Dariyanaap.Stats.HistogramRows
import Dariyanaap.Stats.Layout
import Dariyanaap.Stats.SummaryCsv
import Dariyanaap.Load.Protocol
import Dariyanaap.Load.Http
import Dariyanaap.Load.Lines
import Dariyanaap.Load.Head
import Dariyanaap.Load.Request
import Dariyanaap.Load.Exchange
import Dariyanaap.Load.SystemCalls
import Dariyanaap.Load.RunResult
import Dariyanaap.Load.Connection
import Dariyanaap.Load.Worker
import Dariyanaap.Load.ClosedLoop
import Dariyanaap.Load.PerSecond
import Dariyanaap.Load.OpenLoop
import Dariyanaap.Load.Runs
import Dariyanaap.Load.WarmUp
import Dariyanaap.Load.Replies
import Dariyanaap.Load.Interim
import Dariyanaap.Load.Framing
import Dariyanaap.Load.ContentLength
import Dariyanaap.Load.HeaderBound
import Dariyanaap.Load.HeaderValue
import Dariyanaap.Load.Sockets
import Dariyanaap.Load.Slots
import Dariyanaap.Load.Lag
import Dariyanaap.Load.SlotsDue
import Dariyanaap.Load.Verdicts
import Dariyanaap.Load.Dominance
import Dariyanaap.Load.Ceiling
import Dariyanaap.Load.Omission
import Dariyanaap.Load.Ending
import Dariyanaap.Fault.Knobs
import Dariyanaap.Fault.Command
import Dariyanaap.Fault.Control
import Dariyanaap.Fault.ControlServer
import Dariyanaap.Fault.Frame
import Dariyanaap.Fault.Latency
import Dariyanaap.Fault.Numerals
import Dariyanaap.Fault.Environment
import Dariyanaap.Fault.Startup
import Dariyanaap.Fault.FastPath
import Dariyanaap.Fault.Partitions
import Dariyanaap.Fault.Gate
import Dariyanaap.Fault.Torn
import Dariyanaap.App.Flags
import Dariyanaap.App.WholeNumbers
import Dariyanaap.App.Parse
import Dariyanaap.App.Invocation
import Dariyanaap.App.Null
import Dariyanaap.App.Serving
import Dariyanaap.App.Stall
import Dariyanaap.App.Echo
import Dariyanaap.App.EchoProgress
import Dariyanaap.App.WriteCsv
import Dariyanaap.App.HistVerify
import Dariyanaap.Tools.Plot
import Dariyanaap.Tools.PlotFiles
import Dariyanaap.Tools.PlotSummary
