import SyslogNg.AfSql.Delivery
import SyslogNg.LogQueue.FifoOrder
import SyslogNg.LogWriter.Flush
import SyslogNg.LogProto.FramedClient
import SyslogNg.LogProto.FrameHeader
import SyslogNg.LogProto.FileWriter
import SyslogNg.LogProto.TextRestart
import SyslogNg.NameValue.References
import SyslogNg.DbParser.TimerWheelPending
import SyslogNg.DbParser.RadixLiteral
import SyslogNg.DbParser.PatternDbRun
import SyslogNg.DbParser.RateLimit
import SyslogNg.DbParser.ParserExact
import SyslogNg.DbParser.AddressExact
import SyslogNg.DbParser.ExpireAll
import SyslogNg.LogMsg.ClearMatches
import SyslogNg.LogMsg.Clear
import SyslogNg.LogMsg.NameIds
import SyslogNg.LogMsg.SdataRun
import SyslogNg.LogPipe.Multiplexer
import SyslogNg.LogPipe.AckTree
import SyslogNg.Template.Segments
import SyslogNg.SyslogFormat.BoundsHandler
import SyslogNg.LogWriter.RelayRoundTrip
import SyslogNg.LogWriter.Padding
import SyslogNg.LogWriter.NoMultiLine
import SyslogNg.LogWriter.Suppress
import SyslogNg.MainLoop.Requests
import SyslogNg.AffileDest.Reap
import SyslogNg.LogReader.Servers
import SyslogNg.Filter.Protection
import SyslogNg.LogQueue.Throttle
import SyslogNg.LogQueue.Wakeup
import SyslogNg.PersistState.Balance
import SyslogNg.LogProto.BufferedBookkeeping
import SyslogNg.LogProto.RecordFraming
import SyslogNg.Time.ZoneTable
import SyslogNg.SyslogFormat.Hostname
import SyslogNg.SyslogFormat.StrFormat
import SyslogNg.CsvParser.RoundTrip
import SyslogNg.CsvParser.Dialects
import SyslogNg.DnsCache.Accounting
import SyslogNg.DnsCache.Hostname
import SyslogNg.CfgTree.Interchange
import SyslogNg.CfgLexer.Blocks
import SyslogNg.CfgTree.FilterCalls
import SyslogNg.Filter.Compare
import SyslogNg.Filter.Context
import SyslogNg.Template.Escaping
import SyslogNg.Template.Arguments
import SyslogNg.ValuePairs.Walk
import SyslogNg.DbParser.Patternize
import SyslogNg.MainLoop.WorkerIds
import SyslogNg.MainLoop.BatchedTimer
import SyslogNg.MainLoop.Control
import SyslogNg.PersistState.Serialize
import SyslogNg.BasicFuncs.Substr
