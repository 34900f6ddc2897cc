import Akbench.Lib.System
import Akbench.Lib.Rendezvous
import Akbench.Lib.Word
import Akbench.Barrier.Wait
import Akbench.Barrier.Rounds
import Akbench.Barrier.Safety
import Akbench.Barrier.Lifecycle
import Akbench.Barrier.Accounting
import Akbench.Barrier.Resources
import Akbench.Barrier.Hang
import Akbench.Common.Checksum
import Akbench.Lib.Framing
import Akbench.Common.Stream
import Akbench.Transfer.Pipe
import Akbench.Transfer.Fifo
import Akbench.Lib.Chunks
import Akbench.Transfer.Mq
import Akbench.Lib.Lockstep
import Akbench.SharedMemory.Pipeline
import Akbench.SharedMemory.Turns
import Akbench.SharedMemory.DoubleBuffer
import Akbench.SharedMemory.Session
import Akbench.SharedMemory.Control
import Akbench.SharedMemory.Store
import Akbench.SharedMemory.Memory
import Akbench.SharedMemory.Freshness
import Akbench.Uds.Moves
import Akbench.Uds.Pairing
import Akbench.Uds.Delivery
import Akbench.Uds.Deadlock
import Akbench.Common.Detection
import Akbench.Common.Generate
import Akbench.Transfer.EndOfData
import Akbench.Common.Statistics
import Akbench.Common.Log
import Akbench.Common.Names
import Akbench.Lib.Loop
import Akbench.Measure.Benchmarks
import Akbench.Measure.Samples
import Akbench.Measure.Verification
import Akbench.Driver.Getopt
import Akbench.Driver.SizeOptions
import Akbench.Driver.Arguments
import Akbench.Driver.Dispatch
import Akbench.Driver.Types
import Akbench.Driver.Gating
import Akbench.Mpi.PingPong
import Akbench.Mpi.WholeMessage
import Akbench.Tcp.Processes
import Akbench.Tcp.Moves
import Akbench.Tcp.Session
import Akbench.Tcp.Pairing
import Akbench.Tcp.Delivery
import Akbench.Tcp.Progress
import Akbench.Driver.JsonOutput
import Akbench.Transfer.MemcpyMt
import Akbench.Latency.Parties
import Akbench.Latency.Atomic
import Akbench.Latency.Semaphore
import Akbench.Latency.ConditionVariable
import Akbench.Lib.Locks
import Akbench.Latency.Handover
import Akbench.Lib.Termination
import Akbench.Lib.Client
import Akbench.Barrier.Termination
import Akbench.Barrier.Device
import Akbench.Benchmark.Processes
import Akbench.Benchmark.Pipe
import Akbench.Benchmark.Fifo
import Akbench.Benchmark.Mq
import Akbench.Benchmark.Tcp
import Akbench.Benchmark.SharedMemory
import Akbench.Benchmark.Uds
import Akbench.Benchmark.MemcpyMt
import Akbench.Lib.Sections
import Akbench.Barrier.Sections
import Akbench.Lib.Coherence
import Akbench.Latency.RelAcq
import Akbench.Latency.Termination
import Akbench.Latency.Barrier
import Akbench.Mpi.Progress
import Akbench.Mpi.Main
import Akbench.Lib.Dict
import Akbench.Graphs.Script
import Akbench.Graphs.Recordings
