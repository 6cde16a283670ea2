import RPiKernel.Interleaving.Program
import RPiKernel.Interleaving.Protocol
import RPiKernel.Machine.Arithmetic
import RPiKernel.Machine.BitFields
import RPiKernel.Intervals.Family
import RPiKernel.Containers.FindConsecutiveZeros
import RPiKernel.Containers.PoolAllocator
import RPiKernel.Containers.PoolEncoding
import RPiKernel.Containers.PoolWord
import RPiKernel.Containers.PoolProtocol
import RPiKernel.Containers.PoolAllocation
import RPiKernel.Containers.PoolDeallocation
import RPiKernel.Transition.System
import RPiKernel.Containers.PoolSystem
import RPiKernel.Containers.PoolSearch
import RPiKernel.Containers.PoolSequential
import RPiKernel.Containers.PoolCapacity
import RPiKernel.Containers.PoolRefinement
import RPiKernel.Containers.PoolOversize
import RPiKernel.Containers.PoolConcurrency
import RPiKernel.Async.Promise
import RPiKernel.Async.PromiseInvariant
import RPiKernel.Async.PromiseLifetime
import RPiKernel.Async.PromiseWakeUp
import RPiKernel.Mmu.Descriptors
import RPiKernel.Mmu.PageTables
import RPiKernel.Mmu.Layout
import RPiKernel.Mmu.MapOnePage
import RPiKernel.Mmu.CommitPages
import RPiKernel.Mmu.Calls
import RPiKernel.Mmu.Separation
import RPiKernel.Mmu.Exhaustion
import RPiKernel.Containers.CircularFifo
import RPiKernel.Timer.CoreTimer
import RPiKernel.Timer.Delivery
import RPiKernel.Timer.TimerSystem
import RPiKernel.Timer.Arming
import RPiKernel.Timer.Burst
import RPiKernel.Timer.Ledger
import RPiKernel.Timer.Lifecycle
import RPiKernel.Timer.Handles
import RPiKernel.Timer.Registered
import RPiKernel.Async.Delay
import RPiKernel.Scheduler.SparkQueue
import RPiKernel.Timer.SlotClaim
import RPiKernel.Timer.Dispatch
import RPiKernel.Usb.Tables
import RPiKernel.Usb.Configuration
import RPiKernel.Usb.DescriptorBlock
import RPiKernel.Usb.HostileBlock
import RPiKernel.Forest.Descendants
import RPiKernel.Usb.DeviceTree
import RPiKernel.Usb.ConnectionChange
import RPiKernel.Usb.TreeGrowth
import RPiKernel.Usb.TreeRuns
import RPiKernel.Usb.HidPayloads
import RPiKernel.Heap.Blocks
import RPiKernel.Heap.Search
import RPiKernel.Heap.Separation
import RPiKernel.Heap.Runs
import RPiKernel.Mailbox.PropertyMessage
import RPiKernel.Pcie.BarPlacement
import RPiKernel.Ring.Laps
import RPiKernel.Xhci.Trb
import RPiKernel.Xhci.EventRing
import RPiKernel.Xhci.CommandRing
import RPiKernel.Usb.HostChannels
import RPiKernel.Usb.ChannelMask
import RPiKernel.Usb.ChannelTransfer
import RPiKernel.Usb.ControlMessage
import RPiKernel.Usb.EndpointToggle
import RPiKernel.Aarch64.Instructions
import RPiKernel.Aarch64.Symbolic
import RPiKernel.Containers.BoundedQueue
import RPiKernel.Containers.DefinedShifts
import RPiKernel.Crt.CopyAndFill
import RPiKernel.Crt.WordAlignment
import RPiKernel.Debugger.Callstack
import RPiKernel.DeviceTree.Format
import RPiKernel.DeviceTree.MemoryFacts
import RPiKernel.DeviceTree.Ranges
import RPiKernel.DeviceTree.TokenSync
import RPiKernel.DeviceTree.Walk
import RPiKernel.Exceptions.Discipline
import RPiKernel.Exceptions.Nesting
import RPiKernel.Exceptions.Resumption
import RPiKernel.Exceptions.Stacks
import RPiKernel.Exceptions.ThreadContext
import RPiKernel.Exceptions.Vectors
import RPiKernel.Framebuffer.Canvas
import RPiKernel.Framebuffer.Clipping
import RPiKernel.Framebuffer.PixelWrites
import RPiKernel.Framebuffer.Spans
import RPiKernel.Gpio.Pins
import RPiKernel.Grid.Serpentine
import RPiKernel.Heap.MappedHeap
import RPiKernel.Heap.Requests
import RPiKernel.Interleaving.Faults
import RPiKernel.Keyboard.KeyStates
import RPiKernel.Linked.Chain
import RPiKernel.Loader.KernelLoader
import RPiKernel.Machine.AddressMasks
import RPiKernel.Machine.Buffers
import RPiKernel.Machine.ByteMemory
import RPiKernel.Machine.Congruential
import RPiKernel.Machine.Grouping
import RPiKernel.Machine.Loops
import RPiKernel.Machine.PackedFields
import RPiKernel.Machine.Polling
import RPiKernel.Machine.Sinks
import RPiKernel.Machine.Stateful
import RPiKernel.Machine.Strings
import RPiKernel.Mailbox.BufferBounds
import RPiKernel.Pcie.Bars
import RPiKernel.Pcie.BusScan
import RPiKernel.Pcie.Capabilities
import RPiKernel.SdCard.Commands
import RPiKernel.SdCard.Operations
import RPiKernel.Snake.Game
import RPiKernel.Snake.Generator
import RPiKernel.Snake.Picture
import RPiKernel.Snake.Screen
import RPiKernel.Snake.Tail
import RPiKernel.Snake.TailBound
import RPiKernel.Snake.TailOverflow
import RPiKernel.Stdio.BufferPrinting
import RPiKernel.Stdio.Conversions
import RPiKernel.Stdio.Doprnt
import RPiKernel.Stdio.FieldLayout
import RPiKernel.Stdio.FieldText
import RPiKernel.Stdio.NumberBuffers
import RPiKernel.Stdio.Numbers
import RPiKernel.Uart.LockedStream
import RPiKernel.Uart.Printing
import RPiKernel.Uart.Sessions
import RPiKernel.Uart.Waiting
import RPiKernel.Usb.Descriptors
import RPiKernel.Usb.DmaSlice
import RPiKernel.Usb.Enumeration
import RPiKernel.Usb.EnumerationAnswers
import RPiKernel.Usb.HidDescriptor
import RPiKernel.Usb.HidReport
import RPiKernel.Usb.PacketSizes
import RPiKernel.Usb.PollingInterval
import RPiKernel.Usb.PortChanges
import RPiKernel.Usb.Retries
import RPiKernel.Usb.StringDescriptor
import RPiKernel.Usb.TransferDelivery
import RPiKernel.Usb.TransferIn
import RPiKernel.Usb.TransferTally
