import ParadiseOS.HeapBounds
import ParadiseOS.HeapContents
import ParadiseOS.HeapFirstFit
import ParadiseOS.FrameOwners
import ParadiseOS.HeapRegions
import ParadiseOS.MessageSyscalls
import ParadiseOS.TransferMoves
import ParadiseOS.RbTreeRuns
import ParadiseOS.RunQueue
import ParadiseOS.ProcessCycles
import ParadiseOS.ProgramLayout
import ParadiseOS.UserFrames
import ParadiseOS.KernelMove
import ParadiseOS.TlbRuns
import ParadiseOS.Timer
import ParadiseOS.Terminal
import ParadiseOS.FreeStack
import ParadiseOS.FlatMap
import ParadiseOS.FormatRuns
import ParadiseOS.MailboxBooks
import ParadiseOS.MailboxCalls
import ParadiseOS.MapReturns
import ParadiseOS.FrameSharing
import ParadiseOS.QueueFifo
import ParadiseOS.MailboxCleanup
import ParadiseOS.NumberTexts
import ParadiseOS.FormatScan
import ParadiseOS.FormatBounds
import ParadiseOS.FloatTexts
import ParadiseOS.RbTreeSentinel
import ParadiseOS.TerminalText
import ParadiseOS.AidCycles
import ParadiseOS.FreePages
import ParadiseOS.SharedTables
import ParadiseOS.UsageArray
import ParadiseOS.KernelMappings
import ParadiseOS.UnmapArrays
import ParadiseOS.TimeSharing
import ParadiseOS.BootedKernel
import ParadiseOS.InterruptLines
import ParadiseOS.Descriptors
import ParadiseOS.Keyboard
import ParadiseOS.SunFiles
