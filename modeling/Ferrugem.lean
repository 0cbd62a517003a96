import Ferrugem.Library.EventSystem
import Ferrugem.FsBaseSwitching
import Ferrugem.SyscallReturnStack
import Ferrugem.ExitStatuses
import Ferrugem.SlotReuse
import Ferrugem.BlockedReaders
import Ferrugem.KernelOperations
import Ferrugem.ClosedPipeReaders
import Ferrugem.UninterruptedCalls
import Ferrugem.PipeReferenceCounts
import Ferrugem.FrameOwnership
import Ferrugem.BitmapPages
import Ferrugem.SpaceIsolation
import Ferrugem.ByteRings
import Ferrugem.TimerAcknowledgement
import Ferrugem.ChildWaiters
import Ferrugem.DirectoryParents
import Ferrugem.DirectoryTree
import Ferrugem.DirectoryNames
import Ferrugem.AccessControl
import Ferrugem.DescriptorIdentity
import Ferrugem.SyscallContexts
import Ferrugem.HeapRegions
import Ferrugem.FailedPipes
import Ferrugem.Truncation
import Ferrugem.DirectoryEnumeration
import Ferrugem.InterruptStubs
import Ferrugem.BootPages
import Ferrugem.SlabAllocator
import Ferrugem.DemandPaging
import Ferrugem.UserPointers
import Ferrugem.TrapOrigins
import Ferrugem.FreshPages
import Ferrugem.RoundRobin
import Ferrugem.NoMatchingChild
import Ferrugem.Library.FramePrograms
import Ferrugem.Sv39Model
import Ferrugem.PageMapping
import Ferrugem.ForkedSpaces
import Ferrugem.ForkedRegisters
import Ferrugem.SegmentLoading
import Ferrugem.ElfAccesses
import Ferrugem.SegmentPages
import Ferrugem.FirstFitFrames
import Ferrugem.PathComposition
import Ferrugem.LocalChanges
import Ferrugem.InodeWrites
import Ferrugem.SegmentOverlays
import Ferrugem.SharedPages
import Ferrugem.ProgramHeaderAddress
import Ferrugem.MemoryGrowth
import Ferrugem.FrameConsumption
import Ferrugem.FailedGrowth
import Ferrugem.FailedCreation
import Ferrugem.HeapLayouts
import Ferrugem.WorkingDirectoryPaths
import Ferrugem.Library.TerminatedLists
import Ferrugem.InitialStacks
import Ferrugem.ExecArguments
import Ferrugem.FileHoles
import Ferrugem.AppendingWrites
import Ferrugem.ShellAppend
import Ferrugem.PollEntries
import Ferrugem.PollReadiness
import Ferrugem.PathSyscalls
import Ferrugem.StatFields
import Ferrugem.DirentRecords
import Ferrugem.KillSyscall
import Ferrugem.PipeEndOfFile
import Ferrugem.GuardPages
import Ferrugem.MultibootMap
import Ferrugem.FlattenedTrees
import Ferrugem.MalformedHeaders
import Ferrugem.TickCounter
import Ferrugem.ShellPrompt
import Ferrugem.TaskContexts
import Ferrugem.TrapFrames
import Ferrugem.ConsoleInput
import Ferrugem.KeyDecoding
import Ferrugem.IdentityMaps
import Ferrugem.PipeStreams
import Ferrugem.ProcessForest
import Ferrugem.ShellSessions
import Ferrugem.ShellRuns
import Ferrugem.ShellNumbers
import Ferrugem.FileTreeRefinement
