import Ebaf.EarlyExit
import Ebaf.ByteWindow
import Ebaf.CryptoCommon
import Ebaf.OnesComplement
import Ebaf.Headers
import Ebaf.Kernel
import Ebaf.Accounting
import Ebaf.FramedCipher
import Ebaf.XdpCrypto
import Ebaf.TcCrypto
import Ebaf.FramedAgreement
import Ebaf.FramedRoundTrip
import Ebaf.PacketStatistics
import Ebaf.CipherOperands
import Ebaf.SkbHelpers
import Ebaf.TcTransparent
import Ebaf.TransparentDatagram
import Ebaf.TransparentCipher
import Ebaf.TransparentEncrypt
import Ebaf.OpenedFrame
import Ebaf.TransparentDecrypt
import Ebaf.TransparentAtomicity
import Ebaf.TransparentStatistics
import Ebaf.TransparentRoundTrip
import Ebaf.CStrings
import Ebaf.UserConfig
import Ebaf.CryptoCtx
import Ebaf.Interface
import Ebaf.Loader
import Ebaf.LoaderRun
import Ebaf.LeavingOthers
import Ebaf.AttachedPrograms
import Ebaf.Datagram
import Ebaf.SupportedTraffic
import Ebaf.OncePerDirection
import Ebaf.FramedFootprint
import Ebaf.EventReports
import Ebaf.Fragments
import Ebaf.FramedFormat
import Ebaf.DatagramBounds
import Ebaf.WellFormedDatagram
import Ebaf.BlockPadding
import Ebaf.ChatScripts
import Ebaf.ChatFraming
import Ebaf.CtxCalls
import Ebaf.Custody
import Ebaf.Unpadding
import Ebaf.CtxOwnership
import Ebaf.MissingContext
import Ebaf.LoaderMoments
import Ebaf.NumberText
import Ebaf.NumericOptions
import Ebaf.EventFormat
import Ebaf.CommandLine
import Ebaf.PosixPaths
import Ebaf.TextScan
import Ebaf.WebRoot
import Ebaf.DisplayFilter
import Ebaf.FilterMeaning
import Ebaf.Runs
import Ebaf.SplitCounter
import Ebaf.Dashboard
import Ebaf.EventSequence
import Ebaf.Attribution
import Ebaf.DisplayedRates
import Ebaf.JsonText
import Ebaf.JsonRoundTrip
import Ebaf.EventJson
import Ebaf.StatsFormat
import Ebaf.EventView
import Ebaf.Channel
import Ebaf.HostLink
import Ebaf.TransparentLink
import Ebaf.Utf8Text
import Ebaf.ChatRuns
import Ebaf.ChatLink
import Ebaf.BoundedLog
import Ebaf.DemoHistory
import Ebaf.Snapshot
import Ebaf.Crossings
import Ebaf.MainLoop
import Ebaf.UserMain
import Ebaf.Pipeline
import Ebaf.Selection
import Ebaf.PacketTable
import Ebaf.PageSelection
import Ebaf.Columns
import Ebaf.BenchSender
import Ebaf.BenchLink
import Ebaf.NumberScan
import Ebaf.LogReaders
import Ebaf.PacketProof
import Ebaf.FloatRounding
import Ebaf.ExperimentSummary
import Ebaf.PacketDetails
