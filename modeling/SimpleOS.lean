import SimpleOS.Library.ByteMemory
import SimpleOS.Library.ByteCopy
import SimpleOS.Library.BumpArena
import SimpleOS.Library.GuardedRun
import SimpleOS.Library.LinkedChain
import SimpleOS.Library.ChainMoves
import SimpleOS.Library.ChainFrame
import SimpleOS.Library.I386
import SimpleOS.Library.Interrupts
import SimpleOS.Library.Words
import SimpleOS.Library.Numerals
import SimpleOS.Library.ArrayText
import SimpleOS.Library.TextReader
import SimpleOS.Library.TabStops
import SimpleOS.Library.Terminal
import SimpleOS.Kernel.Record
import SimpleOS.Kernel.State
import SimpleOS.Kernel.Allocator
import SimpleOS.Kernel.ReadyQueue
import SimpleOS.Kernel.Schedule
import SimpleOS.Kernel.Lifecycle
import SimpleOS.Kernel.Syscalls
import SimpleOS.Kernel.Operations
import SimpleOS.Kernel.Names
import SimpleOS.Kernel.Ledger
import SimpleOS.Kernel.PidAllocation
import SimpleOS.Machine.ContextSwitch
import SimpleOS.Machine.SavedRegisters
import SimpleOS.Machine.SwitchToProcess
import SimpleOS.Machine.InterruptTable
import SimpleOS.Machine.TimerInterrupt
import SimpleOS.Drivers.Vga
import SimpleOS.Drivers.Keyboard
import SimpleOS.Drivers.LineEditor
import SimpleOS.Drivers.PhysicalKeyboard
import SimpleOS.Drivers.Timer
import SimpleOS.Kernel.CommandLine
import SimpleOS.Kernel.StringOrder
import SimpleOS.Kernel.Shell
import SimpleOS.Kernel.Numbers
import SimpleOS.Kernel.Programs
import SimpleOS.Kernel.Printing
import SimpleOS.Invariant.Coherent
import SimpleOS.Invariant.Effects
import SimpleOS.Invariant.Population
import SimpleOS.Invariant.ExitCodes
import SimpleOS.Invariant.Named
import SimpleOS.Invariant.Lettered
import SimpleOS.Properties.QueueShape
import SimpleOS.Properties.RoundRobin
import SimpleOS.Properties.Termination
import SimpleOS.Properties.References
import SimpleOS.Properties.SingleRunner
import SimpleOS.Properties.KernelProtection
import SimpleOS.Properties.TableCoherence
import SimpleOS.Properties.FreeDiscipline
import SimpleOS.Properties.MemoryRoutines
import SimpleOS.Properties.Resumption
import SimpleOS.Properties.PcbLayout
import SimpleOS.Properties.InputBuffer
import SimpleOS.Properties.LineEditing
import SimpleOS.Properties.EnterCooldown
import SimpleOS.Properties.KeyRepeat
import SimpleOS.Properties.RepeatTiming
import SimpleOS.Properties.TerminalRefinement
import SimpleOS.Properties.ScreenSafety
import SimpleOS.Properties.ScreenLine
import SimpleOS.Properties.ScreenRows
import SimpleOS.Properties.LineDisplay
import SimpleOS.Kernel.Heap
import SimpleOS.Properties.HeapSafety
import SimpleOS.Properties.HeapIsolation
import SimpleOS.Properties.HeapService
import SimpleOS.Properties.HeapImage
import SimpleOS.Properties.FailedOperations
import SimpleOS.Properties.SlotRecovery
import SimpleOS.Properties.ForkedChild
import SimpleOS.Properties.ProcessTree
import SimpleOS.Properties.ProcessListing
import SimpleOS.Properties.SchedulerRest
import SimpleOS.Properties.ProcessNames
import SimpleOS.Properties.StackIsolation
import SimpleOS.Properties.QueueFrame
import SimpleOS.Properties.QueueLists
import SimpleOS.Properties.PidUse
import SimpleOS.Properties.TimerSleep
import SimpleOS.Properties.HandOver
import SimpleOS.Properties.TickAcknowledgement
import SimpleOS.Properties.FirstSwitch
import SimpleOS.Properties.SavedContext
import SimpleOS.Properties.ArgumentBuffers
import SimpleOS.Properties.PidText
import SimpleOS.Properties.ShellReports
import SimpleOS.Properties.Modifiers
import SimpleOS.Properties.ExitStatus
import SimpleOS.Properties.Reaping
import SimpleOS.System.Running
import SimpleOS.System.Commands
import SimpleOS.System.Safety
import SimpleOS.System.Shell
import SimpleOS.System.Lines
import SimpleOS.System.Typing
import SimpleOS.System.Operable
import SimpleOS.System.Letters
import SimpleOS.System.ProcessScreen
