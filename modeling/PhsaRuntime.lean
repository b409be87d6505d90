import PhsaRuntime.Lib.Machine
import PhsaRuntime.Lib.Atomic
import PhsaRuntime.Lib.Ring
import PhsaRuntime.Lib.OrderedMap
import PhsaRuntime.Lib.Blocks
import PhsaRuntime.Lib.Bytes
import PhsaRuntime.Lib.InsertAll
import PhsaRuntime.Lib.Component
import PhsaRuntime.Lib.FileTree
import PhsaRuntime.Lib.Loop
import PhsaRuntime.Lib.Pools
import PhsaRuntime.Packet
import PhsaRuntime.Queue
import PhsaRuntime.Scan
import PhsaRuntime.Scan.Protocol
import PhsaRuntime.Scan.LargeQueue
import PhsaRuntime.Scan.Invariant
import PhsaRuntime.Scan.Safety
import PhsaRuntime.Scan.PacketId
import PhsaRuntime.Scan.Order
import PhsaRuntime.Scan.Fifo
import PhsaRuntime.Scan.Doorbell
import PhsaRuntime.Scan.Response
import PhsaRuntime.Queue.Reservation
import PhsaRuntime.Agent
import PhsaRuntime.Agent.Interrupt
import PhsaRuntime.Agent.Pass
import PhsaRuntime.Execute
import PhsaRuntime.Execute.Inactivate
import PhsaRuntime.Execute.Refine
import PhsaRuntime.Execute.Blocked
import PhsaRuntime.Execute.Release
import PhsaRuntime.Execute.Completion
import PhsaRuntime.Execute.Abort
import PhsaRuntime.HsaStatus
import PhsaRuntime.FinalizedProgram
import PhsaRuntime.FinalizedProgram.Directives
import PhsaRuntime.DLFinalizedProgram
import PhsaRuntime.DLFinalizedProgram.Codec
import PhsaRuntime.CodeObject
import PhsaRuntime.CodeObject.Contract
import PhsaRuntime.HSAILProgram
import PhsaRuntime.HSAILProgram.Admission
import PhsaRuntime.HSAILProgram.Walk
import PhsaRuntime.HSAILProgram.Bounds
import PhsaRuntime.HSAObjectMapping
import PhsaRuntime.HSAObjectMapping.Exactness
import PhsaRuntime.HSAObjectMapping.GarbageCollect
import PhsaRuntime.FixedMemoryRegion
import PhsaRuntime.FixedMemoryRegion.Soundness
import PhsaRuntime.FixedMemoryRegion.Completeness
import PhsaRuntime.FixedMemoryRegion.Undo
import PhsaRuntime.SymbolName
import PhsaRuntime.Executable
import PhsaRuntime.Executable.Loading
import PhsaRuntime.Executable.Effect
import PhsaRuntime.Executable.Atomicity
import PhsaRuntime.Executable.Frozen
import PhsaRuntime.Executable.Symbols
import PhsaRuntime.Executable.Lookup
import PhsaRuntime.Executable.Spelling
import PhsaRuntime.Executable.Variables
import PhsaRuntime.Executable.Registration
import PhsaRuntime.Objects
import PhsaRuntime.Objects.Lifetimes
import PhsaRuntime.Objects.DeadHandles
import PhsaRuntime.Objects.Moves
import PhsaRuntime.Objects.Symbols
import PhsaRuntime.Signal
import PhsaRuntime.Signal.Wait
import PhsaRuntime.AsyncCopy
import PhsaRuntime.Extension
import PhsaRuntime.Extension.Table
import PhsaRuntime.Info
import PhsaRuntime.MemoryPool
import PhsaRuntime.TempFiles
import PhsaRuntime.TempFiles.Frame
import PhsaRuntime.QueueCreation
import PhsaRuntime.QueueCreation.Effect
import PhsaRuntime.QueueCreation.Limit
import PhsaRuntime.QueueCreation.Atomicity
import PhsaRuntime.QueueCreation.Size
import PhsaRuntime.Allocations
import PhsaRuntime.Allocations.Moves
import PhsaRuntime.Allocations.Invariant
import PhsaRuntime.Allocations.Frees
import PhsaRuntime.Allocations.Owners
import PhsaRuntime.Allocations.Leaks
import PhsaRuntime.Allocations.Outlived
import PhsaRuntime.Execute.Callbacks
import PhsaRuntime.Execute.Ring
import PhsaRuntime.Execute.Packet
import PhsaRuntime.Execute.Barrier
import PhsaRuntime.Execute.Dispatch
import PhsaRuntime.Execute.PassBound
import PhsaRuntime.Execute.Answer
import PhsaRuntime.Execute.ShutDown
import PhsaRuntime.Runtime
import PhsaRuntime.Runtime.Sessions
import PhsaRuntime.Runtime.Workers
import PhsaRuntime.Runtime.References
import PhsaRuntime.Runtime.ShutDown
import PhsaRuntime.Process
import PhsaRuntime.Process.Invariant
import PhsaRuntime.Process.Kernels
import PhsaRuntime.Process.Unloading
