import Coursework.LogCrashAtomicity
import Coursework.TransitionRuns
import Coursework.LogReservation
import Coursework.EntryUpdates
import Coursework.ProcReaping
import Coursework.DispatchRotation
import Coursework.SpinlockOrder
import Coursework.BlockOwnership
import Coursework.DirectoryTrees
import Coursework.CrashingRuns
import Coursework.ExitNotification
import Coursework.KillTargets
import Coursework.PipeTransfer
import Coursework.ConsoleInput
import Coursework.FileReferences
import Coursework.FileWrites
import Coursework.MkfsSoundness
import Coursework.ProcessSize
import Coursework.BufferCoherence
import Coursework.FirstVersions
import Coursework.FirstTextbook
import Coursework.CanonicalCollection
import Coursework.ShellCommands
import Coursework.ForkFailure
import Coursework.FollowEnds
import Coursework.ProcessGrowth
import Coursework.ForkCopy
import Coursework.UserCopies
import Coursework.ExecSafety
import Coursework.SleepLocks
import Coursework.PipeWakeups
import Coursework.PriorityChanges
import Coursework.UserPointers
import Coursework.DiskRequestOrder
import Coursework.SharedOffsets
import Coursework.UserHeapRuns
import Coursework.TransactionBlocks
import Coursework.GrepMatcher
import Coursework.ExtraCharacter
import Coursework.MemoryMoves
import Coursework.IntegerPrinting
import Coursework.MpTable
import Coursework.GrepChunks
import Coursework.ShellAliases
import Coursework.ShellWords
import Coursework.RangeDeallocation
import Coursework.MallocRequests
import Coursework.InterruptNesting
import Coursework.ShellLines
import Coursework.DirectoryMaps
import Coursework.MkfsReadBack
import Coursework.PathWalk
