/-
  Akbench.Measure.Benchmarks
  ──────────────────────────
  **THE MEASURING LOOPS OF ALL BENCHMARKS.**

  Every benchmark makes `num_warmups + num_iterations` iterations and records
  the time of those that are no warm-up; then the list of durations is
  reduced to a result.  What an iteration transfers and how long it takes is
  given from outside, as an `Environment`; all system calls succeed.

  The loops differ in how they count (`int` everywhere but in `memcpy_mt`, two
  loops in the barrier benchmark) and in what they verify and do about it.
  Times are elements of a field, and a division by a `loop_size` of 0, which
  is infinite in floating point, is 0 here.
-/
import Akbench.Common.Generate
import Akbench.Common.Log
import Akbench.Lib.Loop

namespace Akbench.Measure

/-! ## §1. What there is to run. -/

/-- The latency benchmarks. -/
inductive LatencyBenchmark where
  | atomic | atomicRelAcq | barrier | conditionVariable | semaphore
  | statfs | fstatfs | getpid
  deriving DecidableEq, Repr

/-- The benchmarks that send from one process to another. -/
inductive Transport where
  | tcp | uds | pipe | fifo | mq | mmap | shm
  deriving DecidableEq, Repr

/-- The bandwidth benchmarks. -/
inductive BandwidthBenchmark where
  | memcpy
  | memcpyMt
  | transport (t : Transport)
  deriving DecidableEq, Repr

/-- All benchmarks. -/
inductive Benchmark where
  | latency (l : LatencyBenchmark)
  | bandwidth (b : BandwidthBenchmark)
  deriving DecidableEq, Repr

/-- What a run meets. -/
structure Environment (K : Type*) where
  /-- The draws behind `GenerateDataToSend`. -/
  draws : Nat → UInt64
  /-- The bytes of the destination when the transfer of iteration `i` is
  over. -/
  destination : Nat → List UInt8
  /-- The time measured in iteration `i`. -/
  elapsed : Nat → K
  /-- The time `SendProcess` measures. -/
  elapsedSend : Nat → K
  gLogLevel : LogLevel
  numThreads : Nat
  /-- `main` and `RunBandwidthBenchmarks` never pass 0 threads. -/
  numThreads_pos : 0 < numThreads

/-! ## §2. Loops. -/

section

variable {K : Type*}

/-- `if (num_warmups <= i) durations.push_back(sample)`. -/
def record (numWarmups : Nat) (sample : Nat → K) (i : Nat) (durations : List K) : List K :=
  if i < numWarmups then durations else durations ++ [sample i]

/-- `for (int i = 0; i < num_warmups + num_iterations; ++i)`, with what each
turn checks and the sample it records.  The counter never is negative, so
`i < num_warmups` is a comparison of naturals. -/
def measure (numWarmups numIterations : Int) (check : Nat → Except Failure Unit)
    (sample : Nat → K) : Except Failure (List K) :=
  match addInt numWarmups numIterations with
  | none => .error .undefined
  | some bound =>
      forLoop (fun i durations => (check i).map fun _ => record numWarmups.toNat sample i durations)
        bound.toNat 0 []

/-- `for (size_t i = 0; i < num_warmups + num_iterations; ++i)`: the sum is
still formed in `int`, and both it and `num_warmups` are converted. -/
def measureSize (numWarmups numIterations : Int) (check : Nat → Except Failure Unit)
    (sample : Nat → K) : Except Failure (List K) :=
  match addInt numWarmups numIterations with
  | none => .error .undefined
  | some bound =>
      forLoop (fun i durations =>
        (check i).map fun _ => record (toSize numWarmups) sample i durations) (toSize bound) 0 []

/-! ## §3. Verification. -/

/-- `if (!VerifyDataReceived(..)) AKLOG(level, ..) else AKLOG(DEBUG, ..)`. -/
def reportVerdict (gLogLevel level : LogLevel) : Option Bool → Except Failure Unit
  | none => .error .aborted
  | some true => aklog gLogLevel .debug
  | some false => aklog gLogLevel level

/-- `VerifyDataReceived(..);` -/
def dropVerdict : Option Bool → Except Failure Unit
  | none => .error .aborted
  | some _ => .ok ()

/-- `AKCHECK(VerifyDataReceived(..), ..)`. -/
def checkVerdict (gLogLevel : LogLevel) : Option Bool → Except Failure Unit
  | none => .error .aborted
  | some verdict => akcheck gLogLevel verdict

namespace Transport

/-- What `ReceiveProcess` does with the received bytes. -/
def verify (t : Transport) (env : Environment K) (dataSize i : Nat) : Except Failure Unit :=
  let verdict := verifyDataReceived (env.destination i) dataSize
  match t with
  | uds => dropVerdict verdict
  | tcp | pipe | fifo | mq | mmap | shm => reportVerdict env.gLogLevel .fatal verdict

end Transport

/-! ## §4. The latency benchmarks. -/

variable [Field K] (sqrt : K → K)

/-- The durations a latency benchmark records: `divisor` one-way trips in each
of `loop_size` turns. -/
def latencyDurations (divisor : Nat) (env : Environment K) (numIterations numWarmups : Int)
    (loopSize : Nat) : Except Failure (List K) :=
  measure numWarmups numIterations (fun _ => .ok ()) fun i => env.elapsed i / divisor / loopSize

/-- The latency benchmarks but for the barrier. -/
def latencyBenchmark (divisor : Nat) (env : Environment K) (numIterations numWarmups : Int)
    (loopSize : Nat) : Except Failure (BenchmarkResult K) :=
  (latencyDurations divisor env numIterations numWarmups loopSize).bind
    (calculateOneTripDuration sqrt)

/-- `RunAtomicLatencyBenchmark`. -/
def runAtomicLatencyBenchmark := latencyBenchmark sqrt 4

/-- `RunAtomicRelAcqLatencyBenchmark`. -/
def runAtomicRelAcqLatencyBenchmark := latencyBenchmark sqrt 4

/-- `RunConditionVariableLatencyBenchmark`. -/
def runConditionVariableLatencyBenchmark := latencyBenchmark sqrt 2

/-- `RunSemaphoreLatencyBenchmark`, with the loop of `ParentProcess`. -/
def runSemaphoreLatencyBenchmark := latencyBenchmark sqrt 2

/-- `RunStatfsLatencyBenchmark`. -/
def runStatfsLatencyBenchmark := latencyBenchmark sqrt 1

/-- `RunFstatfsLatencyBenchmark`. -/
def runFstatfsLatencyBenchmark := latencyBenchmark sqrt 1

/-- `RunGetpidLatencyBenchmark`. -/
def runGetpidLatencyBenchmark := latencyBenchmark sqrt 1

/-- The measurements of `RunBarrierLatencyBenchmark`: the warm-ups have a loop
of their own, and the two numbers are never added. -/
def barrierDurations (env : Environment K) (numIterations numWarmups : Int) (loopSize : Nat) :
    Except Failure (List K) :=
  (forLoop (fun _ (u : Unit) => .ok u) numWarmups.toNat 0 ()).bind fun _ =>
    forLoop (fun i measurements =>
      .ok (measurements ++ [env.elapsed (numWarmups.toNat + i) / loopSize])) numIterations.toNat 0 []

/-- `RunBarrierLatencyBenchmark`, in nanoseconds until the end. -/
def runBarrierLatencyBenchmark (env : Environment K) (numIterations numWarmups : Int)
    (loopSize : Nat) : Except Failure (BenchmarkResult K) :=
  (barrierDurations env numIterations numWarmups loopSize).bind fun measurements =>
    (calculateOneTripDuration sqrt measurements).map fun result =>
      ⟨result.average / 10 ^ 9, result.stddev / 10 ^ 9⟩

namespace LatencyBenchmark

/-- The list handed to `CalculateOneTripDuration`. -/
def durations : LatencyBenchmark → Environment K → Int → Int → Nat → Except Failure (List K)
  | atomic => latencyDurations 4
  | atomicRelAcq => latencyDurations 4
  | barrier => barrierDurations
  | conditionVariable => latencyDurations 2
  | semaphore => latencyDurations 2
  | statfs => latencyDurations 1
  | fstatfs => latencyDurations 1
  | getpid => latencyDurations 1

/-- The benchmark as a whole. -/
def run : LatencyBenchmark → Environment K → Int → Int → Nat →
    Except Failure (BenchmarkResult K)
  | atomic => runAtomicLatencyBenchmark sqrt
  | atomicRelAcq => runAtomicRelAcqLatencyBenchmark sqrt
  | barrier => runBarrierLatencyBenchmark sqrt
  | conditionVariable => runConditionVariableLatencyBenchmark sqrt
  | semaphore => runSemaphoreLatencyBenchmark sqrt
  | statfs => runStatfsLatencyBenchmark sqrt
  | fstatfs => runFstatfsLatencyBenchmark sqrt
  | getpid => runGetpidLatencyBenchmark sqrt

end LatencyBenchmark

/-! ## §5. The bandwidth benchmarks. -/

/-- The durations of `RunMemcpyBandwidthBenchmark`; it is `src` that it
verifies. -/
def memcpyDurations (env : Environment K) (numIterations numWarmups : Int) (dataSize : Nat) :
    Except Failure (List K) :=
  match generateDataToSend env.draws dataSize with
  | none => .error .aborted
  | some src =>
      measure numWarmups numIterations
        (fun _ => checkVerdict env.gLogLevel (verifyDataReceived src dataSize)) env.elapsed

/-- `RunMemcpyBandwidthBenchmark`. -/
def runMemcpyBandwidthBenchmark (env : Environment K) (numIterations numWarmups : Int)
    (dataSize : Nat) : Except Failure (BenchmarkResult K) :=
  (memcpyDurations env numIterations numWarmups dataSize).bind fun durations =>
    calculateBandwidth sqrt durations numIterations dataSize

/-- The durations of `MemcpyInMultiThread`; it verifies after the warm-ups
only, and reports at level `ERROR`. -/
def memcpyMtDurations (env : Environment K) (numIterations numWarmups : Int) (dataSize : Nat) :
    Except Failure (List K) :=
  match generateDataToSend env.draws dataSize with
  | none => .error .aborted
  | some _ =>
      -- chunk_size = data_size / n_threads
      if env.numThreads = 0 then .error .undefined
      else
        measureSize numWarmups numIterations
          (fun i =>
            if toSize numWarmups ≤ i then
              reportVerdict env.gLogLevel .error (verifyDataReceived (env.destination i) dataSize)
            else .ok ())
          env.elapsed

/-- `MemcpyInMultiThread`, which is all of `RunMemcpyMtBandwidthBenchmark`. -/
def memcpyInMultiThread (env : Environment K) (numIterations numWarmups : Int) (dataSize : Nat) :
    Except Failure (BenchmarkResult K) :=
  (memcpyMtDurations env numIterations numWarmups dataSize).bind fun durations =>
    calculateBandwidth sqrt durations numIterations dataSize

namespace Transport

/-- The durations of `ReceiveProcess`. -/
def receiveDurations (t : Transport) (env : Environment K) (numIterations numWarmups : Int)
    (dataSize : Nat) : Except Failure (List K) :=
  measure numWarmups numIterations (t.verify env dataSize) env.elapsed

/-- `ReceiveProcess`, the parent; the benchmark returns its result. -/
def receiveProcess (t : Transport) (env : Environment K) (numIterations numWarmups : Int)
    (dataSize : Nat) : Except Failure (BenchmarkResult K) :=
  (t.receiveDurations env numIterations numWarmups dataSize).bind fun durations =>
    calculateBandwidth sqrt durations numIterations dataSize

end Transport

/-- The durations of `SendProcess`, the same for every transport. -/
def sendDurations (env : Environment K) (numIterations numWarmups : Int) (dataSize : Nat) :
    Except Failure (List K) :=
  match generateDataToSend env.draws dataSize with
  | none => .error .aborted
  | some _ => measure numWarmups numIterations (fun _ => .ok ()) env.elapsedSend

/-- `SendProcess`, the child; its result is only logged. -/
def sendProcess (env : Environment K) (numIterations numWarmups : Int) (dataSize : Nat) :
    Except Failure (BenchmarkResult K) :=
  (sendDurations env numIterations numWarmups dataSize).bind fun durations =>
    calculateBandwidth sqrt durations numIterations dataSize

namespace BandwidthBenchmark

/-- The list the returned result is calculated from. -/
def durations : BandwidthBenchmark → Environment K → Int → Int → Nat → Except Failure (List K)
  | memcpy => memcpyDurations
  | memcpyMt => memcpyMtDurations
  | transport t => t.receiveDurations

/-- The benchmark as a whole. -/
def run : BandwidthBenchmark → Environment K → Int → Int → Nat →
    Except Failure (BenchmarkResult K)
  | memcpy => runMemcpyBandwidthBenchmark sqrt
  | memcpyMt => memcpyInMultiThread sqrt
  | transport t => t.receiveProcess sqrt

/-- Every bandwidth benchmark hands its durations to `CalculateBandwidth`. -/
theorem run_eq (b : BandwidthBenchmark) (env : Environment K) (numIterations numWarmups : Int)
    (dataSize : Nat) :
    b.run sqrt env numIterations numWarmups dataSize =
      (b.durations env numIterations numWarmups dataSize).bind fun durations =>
        calculateBandwidth sqrt durations numIterations dataSize := by
  cases b with
  | memcpy => rfl
  | memcpyMt => rfl
  | transport t => rfl

end BandwidthBenchmark

end

end Akbench.Measure
