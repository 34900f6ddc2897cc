/-
  Akbench.Driver.Dispatch
  ───────────────────────
  **`RunLatencyBenchmarks`, `RunBandwidthBenchmarks` AND THE REST OF `main`.**

  Both functions are a chain of comparisons of the type string; each branch
  runs benchmarks and enters the results in a map.  A branch is modelled as
  its plan, the list of entries to make with the call behind each, and
  `execute` makes the calls in order until one does not return.

  What the calls return is the parameter `runs`; `measured` has them do what
  `Akbench.Measure` says.

    • `latencyPlan`, `bandwidthPlan` — the two chains;
    • `main` — the outcome, with the calls made on the way.
-/
import Akbench.Driver.Arguments
import Akbench.Measure.Benchmarks

namespace Akbench.Driver

open Akbench.Measure (LatencyBenchmark Transport Environment)

/-! ## §1. Calls. -/

/-- A call of one of the `Run..Benchmark` functions. -/
inductive Call where
  | latency (l : LatencyBenchmark) (numIterations numWarmups : Int) (loopSize : Nat)
  | memcpy (numIterations numWarmups : Int) (dataSize : Nat)
  | memcpyMt (numIterations numWarmups : Int) (dataSize numThreads : Nat)
  | transport (t : Transport) (numIterations numWarmups : Int) (dataSize bufferSize : Nat)
  deriving DecidableEq, Repr

/-- What calls return. -/
abbrev Runs (K : Type*) := Call → Except Failure (BenchmarkResult K)

/-- The benchmarks themselves, each call in its environment. -/
def measured {K : Type*} [Field K] (sqrt : K → K) (env : Call → Environment K) : Runs K
  | c@(.latency l numIterations numWarmups loopSize) =>
      l.run sqrt (env c) numIterations numWarmups loopSize
  | c@(.memcpy numIterations numWarmups dataSize) =>
      Measure.runMemcpyBandwidthBenchmark sqrt (env c) numIterations numWarmups dataSize
  | c@(.memcpyMt numIterations numWarmups dataSize numThreads) =>
      if h : 0 < numThreads then
        Measure.memcpyInMultiThread sqrt
          { env c with numThreads := numThreads, numThreads_pos := h } numIterations numWarmups
          dataSize
      else .error .undefined
  | c@(.transport t numIterations numWarmups dataSize _) =>
      t.receiveProcess sqrt (env c) numIterations numWarmups dataSize

/-! ## §2. Results. -/

/-- `std::map<std::string, BenchmarkResult>`, by increasing keys. -/
abbrev ResultMap (K : Type*) := List (String × BenchmarkResult K)

variable {K : Type*}

/-- `results[key] = result`. -/
def assign (key : String) (result : BenchmarkResult K) : ResultMap K → ResultMap K
  | [] => [(key, result)]
  | (k, r) :: rest =>
      if key = k then (key, result) :: rest
      else if key < k then (key, result) :: (k, r) :: rest
      else (k, r) :: assign key result rest

theorem assign_ne_nil (key : String) (result : BenchmarkResult K) (results : ResultMap K) :
    assign key result results ≠ [] := by
  unfold assign
  split
  next => exact List.cons_ne_nil _ _
  next =>
    split
    next => exact List.cons_ne_nil _ _
    next =>
      split
      next => exact List.cons_ne_nil _ _
      next => exact List.cons_ne_nil _ _

/-- The calls a function made, and the map it returns if it does. -/
structure Executed (K : Type*) where
  calls : List Call
  results : Except Failure (ResultMap K)

/-- The entries of a plan, one after the other. -/
def execute (runs : Runs K) : List (String × Call) → ResultMap K → Executed K
  | [], results => ⟨[], .ok results⟩
  | (key, call) :: rest, results =>
      match runs call with
      | .error failure => ⟨[call], .error failure⟩
      | .ok result =>
          let after := execute runs rest (assign key result results)
          ⟨call :: after.calls, after.results⟩

/-! ## §3. The chains. -/

/-- `default_loop_sizes`. -/
def defaultLoopSizes : List (String × Nat) :=
  [("atomic", 10 ^ 6), ("barrier", 10 ^ 3), ("condition_variable", 10 ^ 5), ("semaphore", 10 ^ 5),
    ("statfs", 10 ^ 6), ("fstatfs", 10 ^ 6), ("getpid", 10 ^ 6)]

/-- `loop_size_opt.has_value() ? *loop_size_opt : default_loop_sizes.at(key)`. -/
def Settings.loopSizeAt (s : Settings) (key : String) : Nat :=
  match s.loopSize with
  | some n => n
  | none => (defaultLoopSizes.lookup key).getD 0

/-- The key of each benchmark's loop size; the second atomic benchmark takes
that of the first. -/
def loopSizeKey : LatencyBenchmark → String
  | .atomic => "atomic"
  | .atomicRelAcq => "atomic"
  | .barrier => "barrier"
  | .conditionVariable => "condition_variable"
  | .semaphore => "semaphore"
  | .statfs => "statfs"
  | .fstatfs => "fstatfs"
  | .getpid => "getpid"

/-- `default_loop_sizes.at` finds every key that is looked up. -/
theorem lookup_loopSizeKey (l : LatencyBenchmark) :
    (defaultLoopSizes.lookup (loopSizeKey l)).isSome := by
  cases l <;> decide

/-- The call of a latency benchmark. -/
def Settings.latencyCall (s : Settings) (l : LatencyBenchmark) : Call :=
  .latency l s.numIterations s.numWarmups (s.loopSizeAt (loopSizeKey l))

/-- The chain of `RunLatencyBenchmarks`. -/
def latencyPlan (s : Settings) (type : String) : List (String × Call) :=
  if type = "latency_all" then
    [("latency_atomic", s.latencyCall .atomic),
      ("latency_atomic_rel_acq", s.latencyCall .atomicRelAcq),
      ("latency_barrier", s.latencyCall .barrier),
      ("latency_condition_variable", s.latencyCall .conditionVariable),
      ("latency_semaphore", s.latencyCall .semaphore),
      ("latency_statfs", s.latencyCall .statfs),
      ("latency_fstatfs", s.latencyCall .fstatfs),
      ("latency_getpid", s.latencyCall .getpid)]
  else if type = "latency_atomic" then [("latency_atomic", s.latencyCall .atomic)]
  else if type = "latency_atomic_rel_acq" then
    [("latency_atomic_rel_acq", s.latencyCall .atomicRelAcq)]
  else if type = "latency_barrier" then [("latency_barrier", s.latencyCall .barrier)]
  else if type = "latency_condition_variable" then
    [("latency_condition_variable", s.latencyCall .conditionVariable)]
  else if type = "latency_semaphore" then [("latency_semaphore", s.latencyCall .semaphore)]
  else if type = "latency_statfs" then [("latency_statfs", s.latencyCall .statfs)]
  else if type = "latency_fstatfs" then [("latency_fstatfs", s.latencyCall .fstatfs)]
  else if type = "latency_getpid" then [("latency_getpid", s.latencyCall .getpid)]
  else []

/-- The call of a transport benchmark. -/
def Settings.transportCall (s : Settings) (t : Transport) : Call :=
  .transport t s.numIterations s.numWarmups s.dataSize s.buffer

/-- The call of `memcpy`. -/
def Settings.memcpyCall (s : Settings) : Call :=
  .memcpy s.numIterations s.numWarmups s.dataSize

/-- One to four threads, "for compatibility". -/
def Settings.memcpyMtCalls (s : Settings) : List (String × Call) :=
  [1, 2, 3, 4].map fun n =>
    ("bandwidth_memcpy_mt (" ++ toString n ++ " threads)",
      .memcpyMt s.numIterations s.numWarmups s.dataSize n)

/-- The chain of `RunBandwidthBenchmarks`. -/
def bandwidthPlan (s : Settings) (type : String) : List (String × Call) :=
  if type = "bandwidth_all" then
    ("bandwidth_memcpy", s.memcpyCall) :: s.memcpyMtCalls ++
      [("bandwidth_tcp", s.transportCall .tcp), ("bandwidth_uds", s.transportCall .uds),
        ("bandwidth_pipe", s.transportCall .pipe), ("bandwidth_fifo", s.transportCall .fifo),
        ("bandwidth_mq", s.transportCall .mq), ("bandwidth_mmap", s.transportCall .mmap),
        ("bandwidth_shm", s.transportCall .shm)]
  else if type = "bandwidth_memcpy" then [("bandwidth_memcpy", s.memcpyCall)]
  else if type = "bandwidth_memcpy_mt" then
    match s.numThreads with
    | some n => [("bandwidth_memcpy_mt", .memcpyMt s.numIterations s.numWarmups s.dataSize n)]
    | none => s.memcpyMtCalls
  else if type = "bandwidth_tcp" then [("bandwidth_tcp", s.transportCall .tcp)]
  else if type = "bandwidth_uds" then [("bandwidth_uds", s.transportCall .uds)]
  else if type = "bandwidth_pipe" then [("bandwidth_pipe", s.transportCall .pipe)]
  else if type = "bandwidth_fifo" then [("bandwidth_fifo", s.transportCall .fifo)]
  else if type = "bandwidth_mq" then [("bandwidth_mq", s.transportCall .mq)]
  else if type = "bandwidth_mmap" then [("bandwidth_mmap", s.transportCall .mmap)]
  else if type = "bandwidth_shm" then [("bandwidth_shm", s.transportCall .shm)]
  else []

variable {s : Settings} {type : String}

/-- A number of threads given, or one to four. -/
theorem bandwidthPlan_memcpyMt (s : Settings) :
    bandwidthPlan s "bandwidth_memcpy_mt" =
      match s.numThreads with
      | some n => [("bandwidth_memcpy_mt", .memcpyMt s.numIterations s.numWarmups s.dataSize n)]
      | none => s.memcpyMtCalls :=
  rfl

/-- A chain holds what its branches hold. -/
theorem forall_mem_ite {p : Prop} [Decidable p] {Q : String × Call → Prop}
    {plan rest : List (String × Call)} (hplan : ∀ entry, entry ∈ plan → Q entry)
    (hrest : ∀ entry, entry ∈ rest → Q entry) :
    ∀ entry, entry ∈ (if p then plan else rest) → Q entry := by
  split
  next => exact hplan
  next => exact hrest

/-- **Every entry of the latency chain** is the call of a latency benchmark. -/
theorem latencyPlan_forall {P : Call → Prop} (hlatency : ∀ l, P (s.latencyCall l)) :
    ∀ entry, entry ∈ latencyPlan s type → P entry.2 := by
  unfold latencyPlan
  refine forall_mem_ite ?_ ?_
  · -- `latency_all`
    simp only [List.forall_mem_cons, hlatency, List.not_mem_nil, false_imp_iff, implies_true,
      and_self]
  -- one branch for each type, and the empty rest
  repeat refine forall_mem_ite (List.forall_mem_singleton.mpr (hlatency _)) ?_
  exact List.forall_mem_nil _

/-- **Every entry of the bandwidth chain** is a call of one of three kinds. -/
theorem bandwidthPlan_forall {P : Call → Prop} (hmemcpy : P s.memcpyCall)
    (hmt : ∀ n, P (.memcpyMt s.numIterations s.numWarmups s.dataSize n))
    (htransport : ∀ t, P (s.transportCall t)) :
    ∀ entry, entry ∈ bandwidthPlan s type → P entry.2 := by
  have hthreads : ∀ entry, entry ∈ s.memcpyMtCalls → P entry.2 := by
    intro entry hentry
    obtain ⟨n, _, heq⟩ := List.mem_map.mp hentry
    rw [← heq]
    exact hmt n
  unfold bandwidthPlan
  refine forall_mem_ite ?_ ?_
  · -- `bandwidth_all`
    rw [List.forall_mem_append, List.forall_mem_cons]
    refine ⟨⟨hmemcpy, hthreads⟩, ?_⟩
    simp only [List.forall_mem_cons, htransport, List.not_mem_nil, false_imp_iff, implies_true,
      and_self]
  refine forall_mem_ite (List.forall_mem_singleton.mpr hmemcpy) ?_
  refine forall_mem_ite ?_ ?_
  · -- a number of threads, or one to four
    cases s.numThreads with
    | some n => exact List.forall_mem_singleton.mpr (hmt n)
    | none => exact hthreads
  repeat refine forall_mem_ite (List.forall_mem_singleton.mpr (htransport _)) ?_
  exact List.forall_mem_nil _

/-- `RunLatencyBenchmarks`. -/
def runLatencyBenchmarks (runs : Runs K) (s : Settings) (type : String) : Executed K :=
  execute runs (latencyPlan s type) []

/-- `RunBandwidthBenchmarks`. -/
def runBandwidthBenchmarks (runs : Runs K) (s : Settings) (type : String) : Executed K :=
  execute runs (bandwidthPlan s type) []

/-! ## §4. Output. -/

/-- What is printed. -/
inductive Printed (K : Type*) where
  | nothing
  /-- `PrintUsage`. -/
  | usage
  /-- A message on standard error. -/
  | rejection (r : Rejection)
  | latency (results : ResultMap K) (jsonOutput : Bool)
  | bandwidth (results : ResultMap K) (jsonOutput : Bool)
  /-- Both maps, as a JSON dictionary or under their headings. -/
  | all (latency bandwidth : ResultMap K) (jsonOutput : Bool)

/-- `OutputLatencyResults`. -/
def outputLatencyResults (results : ResultMap K) (jsonOutput : Bool) : Printed K :=
  if results.isEmpty then .nothing else .latency results jsonOutput

/-- `OutputBandwidthResults`. -/
def outputBandwidthResults (results : ResultMap K) (jsonOutput : Bool) : Printed K :=
  if results.isEmpty then .nothing else .bandwidth results jsonOutput

/-- Results are printed, and no map of them is empty. -/
def Printed.HasResults : Printed K → Prop
  | latency results _ => results ≠ []
  | bandwidth results _ => results ≠ []
  | all results results' _ => results ≠ [] ∧ results' ≠ []
  | _ => False

/-! ## §5. `main`. -/

/-- The calls `main` made, and its status and output if it returns. -/
structure Outcome (K : Type*) where
  calls : List Call
  ending : Except Failure (Nat × Printed K)

/-- What `main` does with checked settings. -/
def dispatch (runs : Runs K) (s : Settings) : Outcome K :=
  if s.type = "all" then
    let latency := runLatencyBenchmarks runs s "latency_all"
    match latency.results with
    | .error failure => ⟨latency.calls, .error failure⟩
    | .ok latencyResults =>
        let bandwidth := runBandwidthBenchmarks runs s "bandwidth_all"
        ⟨latency.calls ++ bandwidth.calls,
          bandwidth.results.map fun bandwidthResults =>
            (0, .all latencyResults bandwidthResults s.jsonOutput)⟩
  else if startsWith "latency_" s.type ∨ s.type = "latency_all" then
    let latency := runLatencyBenchmarks runs s s.type
    ⟨latency.calls,
      latency.results.map fun results => (0, outputLatencyResults results s.jsonOutput)⟩
  else if startsWith "bandwidth_" s.type ∨ s.type = "bandwidth_all" then
    let bandwidth := runBandwidthBenchmarks runs s s.type
    ⟨bandwidth.calls,
      bandwidth.results.map fun results => (0, outputBandwidthResults results s.jsonOutput)⟩
  else ⟨[], .ok (1, .rejection (.unknownType s.type))⟩

/-- `main`. -/
def main (overshift : Overshift) (runs : Runs K) (line : CommandLine) : Outcome K :=
  match validate overshift line with
  | .error .usage => ⟨[], .ok (0, .usage)⟩
  | .error (.rejected r) => ⟨[], .ok (1, .rejection r)⟩
  | .ok s => dispatch runs s

/-! ## §6. What `execute` does. -/

variable {runs : Runs K} {plan : List (String × Call)} {results : ResultMap K} {c : Call}

/-- It makes no call that is not planned. -/
theorem mem_calls_execute (h : c ∈ (execute runs plan results).calls) : c ∈ plan.map Prod.snd := by
  induction plan generalizing results with
  | nil => cases h
  | cons entry rest ih =>
      obtain ⟨key, call⟩ := entry
      rw [List.map_cons, List.mem_cons]
      cases hrun : runs call with
      | error failure =>
          simp only [execute, hrun] at h
          exact Or.inl (List.mem_singleton.mp h)
      | ok result =>
          simp only [execute, hrun] at h
          rcases List.mem_cons.mp h with hhead | htail
          · exact Or.inl hhead
          · exact Or.inr (ih htail)

/-- Where every call returns, it makes them all. -/
theorem calls_execute_of_ok (hruns : ∀ c, ∃ result, runs c = .ok result) :
    (execute runs plan results).calls = plan.map Prod.snd ∧
      ∃ m, (execute runs plan results).results = .ok m := by
  induction plan generalizing results with
  | nil => exact ⟨rfl, results, rfl⟩
  | cons entry rest ih =>
      obtain ⟨key, call⟩ := entry
      obtain ⟨result, hrun⟩ := hruns call
      obtain ⟨hcalls, m, hm⟩ := @ih (assign key result results)
      simp only [execute, hrun]
      exact ⟨by rw [hcalls, List.map_cons], m, hm⟩

/-- A plan with entries fills the map. -/
theorem execute_ne_nil {m : ResultMap K} (h : (execute runs plan results).results = .ok m)
    (hne : plan ≠ [] ∨ results ≠ []) : m ≠ [] := by
  induction plan generalizing results with
  | nil =>
      have hm : (.ok results : Except Failure (ResultMap K)) = .ok m := h
      injection hm with hm
      rw [← hm]
      exact hne.resolve_left fun hnil => hnil rfl
  | cons entry rest ih =>
      obtain ⟨key, call⟩ := entry
      cases hrun : runs call with
      | error failure =>
          simp only [execute, hrun] at h
          cases h
      | ok result =>
          simp only [execute, hrun] at h
          exact ih h (Or.inr (assign_ne_nil key result results))

end Akbench.Driver
