import SipfClient.Memory
import SipfClient.Loops
import SipfClient.LengthRecords
import SipfClient.HexText
import SipfClient.CommandText
import SipfClient.CommandLine
import SipfClient.LineEditing
import SipfClient.EditingLaws
import SipfClient.ObjectWire
import SipfClient.ObjectUpload
import SipfClient.UploadLaws
import SipfClient.TxCommand
import SipfClient.TxParsing
import SipfClient.TxRounds
import SipfClient.TxLaws
import SipfClient.ObjectDownload
import SipfClient.DownloadLaws
import SipfClient.ObjectRoundTrip
import SipfClient.Chunks
import SipfClient.UartBroker
import SipfClient.Xmodem
import SipfClient.FgetCommand
import SipfClient.FgetLaws
import SipfClient.FputCommand
import SipfClient.Reception
import SipfClient.ShortWrites
import SipfClient.FputRounds
import SipfClient.FputBodyLaws
import SipfClient.FputOrderLaws
import SipfClient.LineDamage
import SipfClient.LostAck
import SipfClient.FrameTransfer
import SipfClient.LineGrammar
import SipfClient.LineLimits
import SipfClient.CText
import SipfClient.HexFields
import SipfClient.Registers
import SipfClient.Handlers
import SipfClient.Device
import SipfClient.HandlerLaws
import SipfClient.TxRendering
import SipfClient.FirmwareLock
import SipfClient.MainLoop
import SipfClient.ModeRegister
import SipfClient.TxOverflow
import SipfClient.Answers
import SipfClient.AnsweredLines
import SipfClient.FileUrl
import SipfClient.FileUrlLaws
import SipfClient.UrlLeftovers
import SipfClient.FileRequests
import SipfClient.FputCourse
import SipfClient.SocketRelease
import SipfClient.FputReports
import SipfClient.SessionEnds
import SipfClient.RxOutput
import SipfClient.TxBounds
import SipfClient.RetryBound
import SipfClient.Base64
import SipfClient.Credentials
import SipfClient.CredentialLaws
import SipfClient.AuthHeaderLaws
import SipfClient.EndpointPaths
import SipfClient.UrlSplitting
import SipfClient.ParameterGrammar
import SipfClient.FputArguments
import SipfClient.Stores
import SipfClient.RegisterStore
import SipfClient.ByteErrors
import SipfClient.EncoderBounds
import SipfClient.PartialFrames
import SipfClient.Runs
import SipfClient.DownloadEvents
import SipfClient.DownloadMatching
import SipfClient.BoundedQueues
import SipfClient.BrokerThreads
import SipfClient.BrokerLaws
import SipfClient.BrokerDelivery
import SipfClient.GnssEvents
import SipfClient.GnssLaws
import SipfClient.Semaphores
import SipfClient.FotaRun
import SipfClient.FotaLaws
import SipfClient.FotaUrl
import SipfClient.LteBoot
import SipfClient.LteCourse
import SipfClient.LteLaws
import SipfClient.TerminalTexts
import SipfClient.RegisterLife
import SipfClient.FileCopy
import SipfClient.CredentialCourse
import SipfClient.FputOutcome
import SipfClient.PrefixReaders
import SipfClient.AnswerReading
import SipfClient.ConsoleThread
import SipfClient.ConsoleMoves
import SipfClient.ConsoleLaws
