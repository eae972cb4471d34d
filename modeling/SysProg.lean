import SysProg.Lib.SparseFile
import SysProg.Lib.LittleEndian
import SysProg.Lib.CString
import SysProg.StudentRecord
import SysProg.StudentDb
import SysProg.Lib.Machine
import SysProg.StudentDbScans
import SysProg.StudentDbOps
import SysProg.StudentMap
import SysProg.StudentIds
import SysProg.CompressFailures
import SysProg.CompressTransparency
import SysProg.Dshlib
import SysProg.RshServer
import SysProg.CopyBounds
import SysProg.SessionSurvival
import SysProg.Lib.Segmentation
import SysProg.RequestFraming
import SysProg.AnswerSync
import SysProg.Lib.Descriptors
import SysProg.PipelinePlumbing
import SysProg.Scanner
import SysProg.LineGrammar
import SysProg.RedirectionParsing
import SysProg.ScanAgreement
import SysProg.LineOutlook
import SysProg.LocalLoop
import SysProg.Lib.Tokens
import SysProg.PipeSplitting
import SysProg.PartOne
import SysProg.PartOneTokens
import SysProg.PartOneContract
import SysProg.QuotedPipes
import SysProg.PartTwo
import SysProg.PartTwoScanner
import SysProg.Lib.Strtok
import SysProg.ParserExtension
import SysProg.ChildSetup
import SysProg.Lib.Transition
import SysProg.ServerModes
import SysProg.ConcurrentPipelines
import SysProg.DeletionOffsets
import SysProg.PipelineFailures
import SysProg.AnswerDisplay
import SysProg.PartTwoBounds
import SysProg.PartTwoLoop
import SysProg.ServerSockets
import SysProg.ArgumentText
import SysProg.PartTwoWords
import SysProg.LineReading
import SysProg.CompressScans
import SysProg.PartialWrites
import SysProg.EchoProtocol
import SysProg.EchoMessages
import SysProg.EchoServer
import SysProg.EchoThreads
import SysProg.FileCopies
import SysProg.Lib.Crew
import SysProg.Supermarket
import SysProg.RemoteShell
import SysProg.RemoteEnding
import SysProg.RemoteCalls
import SysProg.Lib.Atoi
import SysProg.StudentProgram
import SysProg.StudentReports
import SysProg.StudentFiles
import SysProg.SharedCounter
import SysProg.LostUpdates
import SysProg.Lib.Filters
import SysProg.PipelineFlow
import SysProg.PipelineStreams
import SysProg.PipelineResults
import SysProg.FifoMessages
import SysProg.EchoExchange
import SysProg.ShellMemory
import SysProg.RemoteLines
import SysProg.PartOneRoundTrip
import SysProg.Lib.Getopt
import SysProg.StartupOptions
import SysProg.Lib.Signals
import SysProg.SignalDemos
