/-
  Akbench.Measure.Samples
  ───────────────────────
  **HOW MANY SAMPLES A BENCHMARK RECORDS.**

  A loop from 0 to `n` that records from `t` on ends with the samples
  `t .. n - 1`.  What `t` and `n` are for given counts depends on how the
  benchmark adds and converts them.

    • `record_forLoop` — the loop in closed form;
    • `measure_exact_iff`, `measureSize_exact_iff` — when that makes
      `num_iterations` samples;
    • `measures_exactly_iff` — the same for every benchmark as a whole.
-/
import Akbench.Measure.Benchmarks

namespace Akbench.Measure

/-! ## §1. Recording loops. -/

section

variable {K : Type*} {check : Nat → Except Failure Unit} {sample : Nat → K}
variable {numIterations numWarmups : Int}

/-- The samples `t .. n - 1`. -/
def samples (t n : Nat) (sample : Nat → K) : List K := (List.range' t (n - t)).map sample

@[simp] theorem length_samples (t n : Nat) (sample : Nat → K) :
    (samples t n sample).length = n - t := by
  unfold samples
  rw [List.length_map, List.length_range']

theorem samples_succ (t n : Nat) (sample : Nat → K) :
    samples t (n + 1) sample = record t sample n (samples t n sample) := by
  unfold samples record
  split
  next hlt =>
    -- still warming up
    have hnone : n + 1 - t = n - t := by omega
    rw [hnone]
  next hge =>
    have hone : n + 1 - t = n - t + 1 := by omega
    have hlast : t + (n - t) = n := by omega
    rw [hone, List.range'_1_concat, List.map_append, hlast]
    rfl

/-- **A recording loop in closed form.** -/
theorem record_forLoop (t n : Nat) (hcheck : ∀ i, check i = .ok ()) :
    forLoop (fun i durations => (check i).map fun _ => record t sample i durations) n 0 [] =
      .ok (samples t n sample) := by
  have hloop : ∃ durations,
      forLoop (fun i durations => (check i).map fun _ => record t sample i durations) n 0 [] =
        .ok durations ∧ durations = samples t (0 + n) sample := by
    apply forLoop_preserves (fun i durations => durations = samples t i sample)
    · intro i durations _ _ hinv
      refine ⟨record t sample i durations, ?_, ?_⟩
      · rw [hcheck]
        rfl
      · rw [hinv, samples_succ]
    · unfold samples
      rw [Nat.zero_sub]
      rfl
  obtain ⟨durations, hrun, hend⟩ := hloop
  rw [hrun, hend, Nat.zero_add]

theorem measure_overflow (h : ¬ IsInt (numWarmups + numIterations)) :
    measure numWarmups numIterations check sample = .error .undefined := by
  unfold measure addInt
  rw [if_neg h]

theorem measure_eq (h : IsInt (numWarmups + numIterations)) (hcheck : ∀ i, check i = .ok ()) :
    measure numWarmups numIterations check sample =
      .ok (samples numWarmups.toNat (numWarmups + numIterations).toNat sample) := by
  unfold measure addInt
  rw [if_pos h]
  exact record_forLoop _ _ hcheck

theorem measureSize_overflow (h : ¬ IsInt (numWarmups + numIterations)) :
    measureSize numWarmups numIterations check sample = .error .undefined := by
  unfold measureSize addInt
  rw [if_neg h]

theorem measureSize_eq (h : IsInt (numWarmups + numIterations)) (hcheck : ∀ i, check i = .ok ()) :
    measureSize numWarmups numIterations check sample =
      .ok (samples (toSize numWarmups) (toSize (numWarmups + numIterations)) sample) := by
  unfold measureSize addInt
  rw [if_pos h]
  exact record_forLoop _ _ hcheck

/-! ## §2. Exactly `num_iterations` samples. -/

/-- A list of exactly `num_iterations` durations. -/
def Exactly (numIterations : Int) (durations : Except Failure (List K)) : Prop :=
  ∃ list, durations = .ok list ∧ (list.length : Int) = numIterations

theorem exactly_ok {numIterations : Int} {list : List K} :
    Exactly numIterations (.ok list) ↔ (list.length : Int) = numIterations := by
  constructor
  · intro hexact
    obtain ⟨list', heq, hlength⟩ := hexact
    injection heq with heq
    rwa [heq]
  · intro hlength
    exact ⟨list, rfl, hlength⟩

theorem not_exactly_error {numIterations : Int} {e : Failure} :
    ¬ Exactly numIterations (.error e : Except Failure (List K)) := by
  intro hexact
  obtain ⟨_, heq, _⟩ := hexact
  cases heq

/-- The counts an `int` loop needs. -/
def IntFits (numIterations numWarmups : Int) : Prop :=
  0 ≤ numWarmups ∧ numWarmups + numIterations ≤ intMax

/-- The counts the `size_t` loop needs: it wraps to the right number when both
the warm-ups and the sum are negative. -/
def SizeFits (numIterations numWarmups : Int) : Prop :=
  IntFits numIterations numWarmups ∨ numWarmups + numIterations < 0

/-- **When an `int` loop records exactly `num_iterations` samples.** -/
theorem measure_exact_iff (hwarmups : IsInt numWarmups) (hpos : 1 ≤ numIterations)
    (hcheck : ∀ i, check i = .ok ()) :
    Exactly numIterations (measure numWarmups numIterations check sample) ↔
      IntFits numIterations numWarmups := by
  unfold IntFits
  unfold IsInt at hwarmups
  by_cases hsum : IsInt (numWarmups + numIterations)
  · rw [measure_eq hsum hcheck, exactly_ok, length_samples]
    unfold IsInt at hsum
    constructor
    · intro hlength
      refine ⟨?_, hsum.2⟩
      -- below zero no warm-up is counted off
      by_contra hneg
      omega
    · intro hfits
      omega
  · rw [measure_overflow hsum]
    unfold IsInt at hsum
    constructor
    · intro hexact
      exact absurd hexact not_exactly_error
    · intro hfits
      omega

/-- **When the `size_t` loop does.** -/
theorem measureSize_exact_iff (hiterations : IsInt numIterations) (hwarmups : IsInt numWarmups)
    (hpos : 1 ≤ numIterations) (hcheck : ∀ i, check i = .ok ()) :
    Exactly numIterations (measureSize numWarmups numIterations check sample) ↔
      SizeFits numIterations numWarmups := by
  have hword : ((wordSize : Nat) : Int) = 2 ^ 64 := by decide
  have hmin : intMin = -2 ^ 31 := rfl
  have hmax : intMax = 2 ^ 31 - 1 := rfl
  unfold SizeFits IntFits
  unfold IsInt at hiterations hwarmups
  by_cases hsum : IsInt (numWarmups + numIterations)
  · rw [measureSize_eq hsum hcheck, exactly_ok, length_samples]
    unfold IsInt at hsum
    by_cases hnonneg : 0 ≤ numWarmups
    · have hthreshold : toSize numWarmups = numWarmups.toNat :=
        toSize_of_nonneg hnonneg (by omega)
      have hbound : toSize (numWarmups + numIterations) = (numWarmups + numIterations).toNat :=
        toSize_of_nonneg (by omega) (by omega)
      rw [hthreshold, hbound]
      omega
    · have hthreshold : toSize numWarmups = (numWarmups + (wordSize : Nat)).toNat :=
        toSize_of_neg (by omega) (by omega)
      rw [hthreshold]
      by_cases hsumNonneg : 0 ≤ numWarmups + numIterations
      · -- the threshold wraps and the bound does not
        rw [toSize_of_nonneg hsumNonneg (by omega)]
        omega
      · rw [toSize_of_neg (by omega) (by omega)]
        omega
  · rw [measureSize_overflow hsum]
    unfold IsInt at hsum
    constructor
    · intro hexact
      exact absurd hexact not_exactly_error
    · intro hfits
      omega

end

/-! ## §3. The benchmarks. -/

/-- Every iteration delivers a frame that verifies. -/
def Environment.Verified {K : Type*} (env : Environment K) (dataSize : Nat) : Prop :=
  ∀ i, verifyDataReceived (env.destination i) dataSize = some true

/-- The counts a latency benchmark needs. -/
def LatencyBenchmark.Fits (l : LatencyBenchmark) (numIterations numWarmups : Int) : Prop :=
  l = .barrier ∨ IntFits numIterations numWarmups

/-- The counts a bandwidth benchmark needs. -/
def BandwidthBenchmark.Fits (b : BandwidthBenchmark) (numIterations numWarmups : Int) : Prop :=
  IntFits numIterations numWarmups ∨ (b = .memcpyMt ∧ numWarmups + numIterations < 0)

section

variable {K : Type*} [Field K] {sqrt : K → K} {env : Environment K}
variable {numIterations numWarmups : Int} {loopSize dataSize : Nat}

/-- The barrier benchmark records a sample for each iteration, whatever the
number of warm-ups. -/
theorem barrierDurations_exactly (hpos : 1 ≤ numIterations) :
    Exactly numIterations (barrierDurations env numIterations numWarmups loopSize) := by
  -- the warm-ups have a loop of their own, which records nothing
  have hwarm : ∃ u : Unit, forLoop (fun _ (u : Unit) => Except.ok u) numWarmups.toNat 0 () =
      (.ok u : Except Failure Unit) ∧ True :=
    forLoop_preserves (fun _ _ => True) _ _ _ (fun _ u _ _ _ => ⟨u, rfl, trivial⟩) trivial
  have hmeasured : ∃ measurements,
      forLoop (fun i measurements =>
        .ok (measurements ++ [env.elapsed (numWarmups.toNat + i) / loopSize])) numIterations.toNat 0
          [] = (.ok measurements : Except Failure (List K)) ∧
        measurements.length = 0 + numIterations.toNat := by
    apply forLoop_preserves (fun i (measurements : List K) => measurements.length = i)
    · intro i measurements _ _ hlength
      refine ⟨_, rfl, ?_⟩
      rw [List.length_append, hlength]
      rfl
    · rfl
  obtain ⟨u, hu, _⟩ := hwarm
  obtain ⟨measurements, hrun, hlength⟩ := hmeasured
  refine ⟨measurements, ?_, by omega⟩
  unfold barrierDurations
  rw [hu]
  exact hrun

/-- **When a latency benchmark records exactly `num_iterations` samples.** -/
theorem LatencyBenchmark.exactly_iff (l : LatencyBenchmark) (hwarmups : IsInt numWarmups)
    (hpos : 1 ≤ numIterations) :
    Exactly numIterations (l.durations env numIterations numWarmups loopSize) ↔
      l.Fits numIterations numWarmups := by
  have hint : ∀ divisor : Nat,
      Exactly numIterations (latencyDurations divisor env numIterations numWarmups loopSize) ↔
        IntFits numIterations numWarmups :=
    fun divisor => measure_exact_iff hwarmups hpos fun _ => rfl
  unfold LatencyBenchmark.Fits
  by_cases hbarrier : l = .barrier
  · subst hbarrier
    exact ⟨fun _ => Or.inl rfl, fun _ => barrierDurations_exactly hpos⟩
  · rw [or_iff_right hbarrier]
    match l with
    | .barrier => exact absurd rfl hbarrier
    | .atomic | .atomicRelAcq => exact hint 4
    | .conditionVariable | .semaphore => exact hint 2
    | .statfs | .fstatfs | .getpid => exact hint 1

/-- With two samples there is a result. -/
theorem LatencyBenchmark.run_ok (l : LatencyBenchmark) {list : List K}
    (hrun : l.durations env numIterations numWarmups loopSize = .ok list)
    (hlength : 2 ≤ list.length) :
    ∃ result, l.run sqrt env numIterations numWarmups loopSize = .ok result := by
  obtain ⟨result, hresult⟩ : ∃ result, calculateOneTripDuration sqrt list = .ok result :=
    ⟨_, calculateOneTripDuration_eq sqrt hlength⟩
  have hplain : ∀ divisor : Nat,
      latencyDurations divisor env numIterations numWarmups loopSize = .ok list →
        ∃ result,
          latencyBenchmark sqrt divisor env numIterations numWarmups loopSize = .ok result := by
    intro divisor hdivisor
    refine ⟨result, ?_⟩
    unfold latencyBenchmark
    rw [hdivisor]
    exact hresult
  match l with
  | .barrier =>
      have hbarrier : barrierDurations env numIterations numWarmups loopSize = .ok list := hrun
      refine ⟨⟨result.average / 10 ^ 9, result.stddev / 10 ^ 9⟩, ?_⟩
      show runBarrierLatencyBenchmark sqrt env numIterations numWarmups loopSize = _
      unfold runBarrierLatencyBenchmark
      rw [hbarrier]
      show (calculateOneTripDuration sqrt list).map _ = _
      rw [hresult]
      rfl
  | .atomic | .atomicRelAcq => exact hplain 4 hrun
  | .conditionVariable | .semaphore => exact hplain 2 hrun
  | .statfs | .fstatfs | .getpid => exact hplain 1 hrun

/-- **`CalculateBandwidth` accepts exactly `num_iterations` samples.** -/
theorem bandwidth_ok_iff (hiterations : IsInt numIterations)
    {durations : Except Failure (List K)} :
    (∃ result, (durations.bind fun durations =>
        calculateBandwidth sqrt durations numIterations dataSize) = .ok result) ↔
      1 ≤ numIterations ∧ Exactly numIterations durations := by
  have hword : ((wordSize : Nat) : Int) = 2 ^ 64 := by decide
  have hmax : intMax = 2 ^ 31 - 1 := rfl
  have htoSize : 1 ≤ numIterations → toSize numIterations = numIterations.toNat := by
    intro hpos
    have hle := hiterations.2
    apply toSize_of_nonneg (by omega)
    omega
  cases durations with
  | error e =>
      constructor
      · intro hok
        obtain ⟨result, hresult⟩ := hok
        cases hresult
      · intro hexact
        exact absurd hexact.2 not_exactly_error
  | ok list =>
      rw [exactly_ok]
      refine (calculateBandwidth_ok_iff sqrt).trans ?_
      constructor
      · intro hchecks
        have hsize := htoSize hchecks.2
        exact ⟨hchecks.2, by omega⟩
      · intro hexact
        have hsize := htoSize hexact.1
        exact ⟨by omega, hexact.1⟩

/-- The benchmarks that abort when the verification fails. -/
def BandwidthBenchmark.Enforces (b : BandwidthBenchmark) : Prop :=
  b ≠ .memcpy ∧ b ≠ .memcpyMt ∧ b ≠ .transport .uds

/-- A verdict that is no reason to abort. -/
theorem reportVerdict_ok {gLogLevel level : LogLevel} {verdict : Option Bool}
    (h : verdict = some true ∨ (level ≠ .fatal ∧ ∃ b, verdict = some b)) :
    reportVerdict gLogLevel level verdict = .ok () := by
  have hdebug : LogLevel.debug ≠ .fatal := by decide
  obtain htrue | ⟨hlevel, b, hb⟩ := h
  · rw [htrue]
    exact aklog_of_ne_fatal hdebug
  · rw [hb]
    cases b with
    | true => exact aklog_of_ne_fatal hdebug
    | false => exact aklog_of_ne_fatal hlevel

omit [Field K] in
/-- The verification of the benchmarks that enforce it. -/
theorem verify_enforced {t : Transport} (henforces : (BandwidthBenchmark.transport t).Enforces)
    (i : Nat) :
    t.verify env dataSize i =
      reportVerdict env.gLogLevel .fatal (verifyDataReceived (env.destination i) dataSize) := by
  match t with
  | .uds => exact absurd rfl henforces.2.2
  | .tcp | .pipe | .fifo | .mq | .mmap | .shm => rfl

theorem BandwidthBenchmark.fits_iff_of_ne {b : BandwidthBenchmark} (h : b ≠ .memcpyMt) :
    b.Fits numIterations numWarmups ↔ IntFits numIterations numWarmups := by
  unfold BandwidthBenchmark.Fits
  exact or_iff_left fun hmt => h hmt.1

/-! The bandwidth benchmarks, reduced to their counting loops: what they check
passes, or its failure is without consequence. -/

section

omit [Field K]

variable (hsize : checksumSize < dataSize) (hword : dataSize < wordSize)
include hsize

include hword in
theorem memcpyDurations_eq : memcpyDurations env numIterations numWarmups dataSize =
    measure numWarmups numIterations (fun _ => .ok ()) env.elapsed := by
  obtain ⟨src, hsrc, _, hverify⟩ := exists_generated env.draws hsize hword
  unfold memcpyDurations
  rw [hsrc]
  dsimp only
  rw [hverify]
  rfl

include hword in
theorem memcpyMtDurations_eq : memcpyMtDurations env numIterations numWarmups dataSize =
    measureSize numWarmups numIterations (fun _ => .ok ()) env.elapsed := by
  obtain ⟨src, hsrc, _, _⟩ := exists_generated env.draws hsize hword
  unfold memcpyMtDurations
  rw [hsrc]
  dsimp only
  rw [if_neg (Nat.ne_of_gt env.numThreads_pos)]
  congr 1
  funext i
  split
  next =>
    -- level `ERROR` lets a failed verification pass
    apply reportVerdict_ok
    exact Or.inr ⟨by decide, verifyDataReceived_verdict hsize⟩
  next => rfl

theorem receiveDurations_eq (t : Transport)
    (henv : (BandwidthBenchmark.transport t).Enforces → env.Verified dataSize) :
    t.receiveDurations env numIterations numWarmups dataSize =
      measure numWarmups numIterations (fun _ => .ok ()) env.elapsed := by
  unfold Transport.receiveDurations
  congr 1
  funext i
  by_cases huds : t = .uds
  · -- the verdict is dropped, whatever it is
    subst huds
    obtain ⟨verdict, hverdict⟩ : ∃ b,
        verifyDataReceived (env.destination i) dataSize = some b :=
      verifyDataReceived_verdict hsize
    show dropVerdict (verifyDataReceived (env.destination i) dataSize) = .ok ()
    rw [hverdict]
    rfl
  · have henforces : (BandwidthBenchmark.transport t).Enforces := by
      refine ⟨?_, ?_, ?_⟩
      · intro h
        cases h
      · intro h
        cases h
      · intro h
        injection h with h
        exact huds h
    rw [verify_enforced henforces]
    exact reportVerdict_ok (Or.inl (henv henforces i))

include hword in
theorem sendDurations_eq : sendDurations env numIterations numWarmups dataSize =
    measure numWarmups numIterations (fun _ => .ok ()) env.elapsedSend := by
  obtain ⟨src, hsrc, _, _⟩ := exists_generated env.draws hsize hword
  unfold sendDurations
  rw [hsrc]

end

section

omit [Field K]

variable (hsize : checksumSize < dataSize) (hword : dataSize < wordSize)
variable (hiterations : IsInt numIterations) (hwarmups : IsInt numWarmups)
variable (hpos : 1 ≤ numIterations)
include hsize hword hwarmups hpos

include hiterations in
/-- **When a bandwidth benchmark records exactly `num_iterations` samples.** -/
theorem BandwidthBenchmark.exactly_iff (b : BandwidthBenchmark)
    (henv : b.Enforces → env.Verified dataSize) :
    Exactly numIterations (b.durations env numIterations numWarmups dataSize) ↔
      b.Fits numIterations numWarmups := by
  match b with
  | .memcpy =>
      rw [fits_iff_of_ne (by decide)]
      show Exactly numIterations (memcpyDurations _ _ _ _) ↔ _
      rw [memcpyDurations_eq hsize hword]
      exact measure_exact_iff hwarmups hpos fun _ => rfl
  | .memcpyMt =>
      show Exactly numIterations (memcpyMtDurations _ _ _ _) ↔ _
      rw [memcpyMtDurations_eq hsize hword]
      refine (measureSize_exact_iff hiterations hwarmups hpos fun _ => rfl).trans ?_
      unfold SizeFits BandwidthBenchmark.Fits
      exact or_congr_right ⟨fun hneg => ⟨rfl, hneg⟩, fun hneg => hneg.2⟩
  | .transport t =>
      have hne : BandwidthBenchmark.transport t ≠ .memcpyMt := fun h => by cases h
      rw [fits_iff_of_ne hne]
      show Exactly numIterations (t.receiveDurations _ _ _ _) ↔ _
      rw [receiveDurations_eq hsize t henv]
      exact measure_exact_iff hwarmups hpos fun _ => rfl

theorem sendDurations_exactly_iff :
    Exactly numIterations (sendDurations env numIterations numWarmups dataSize) ↔
      IntFits numIterations numWarmups := by
  rw [sendDurations_eq hsize hword]
  exact measure_exact_iff hwarmups hpos fun _ => rfl

end

/-! ## §4. Every benchmark. -/

/-- Exactly `num_iterations` durations, and a result from them. -/
def Measured (numIterations : Int) (durations : Except Failure (List K))
    (result : Except Failure (BenchmarkResult K)) : Prop :=
  Exactly numIterations durations ∧ ∃ r, result = .ok r

/-- In every run in which the system calls succeed and the data arrives, the
benchmark measures exactly `num_iterations` samples; of a transport, both
processes do. -/
def Benchmark.MeasuresExactly (sqrt : K → K) (numIterations numWarmups : Int) : Benchmark → Prop
  | .latency l => ∀ (env : Environment K) (loopSize : Nat),
      Measured numIterations (l.durations env numIterations numWarmups loopSize)
        (l.run sqrt env numIterations numWarmups loopSize)
  | .bandwidth b => ∀ (env : Environment K) (dataSize : Nat), checksumSize < dataSize →
      dataSize < wordSize → env.Verified dataSize →
        Measured numIterations (b.durations env numIterations numWarmups dataSize)
          (b.run sqrt env numIterations numWarmups dataSize) ∧
        ∀ t, b = .transport t →
          Measured numIterations (sendDurations env numIterations numWarmups dataSize)
            (sendProcess sqrt env numIterations numWarmups dataSize)

/-- The counts a benchmark needs. -/
def Benchmark.CountsFit (numIterations numWarmups : Int) : Benchmark → Prop
  | .latency l => l.Fits numIterations numWarmups
  | .bandwidth b => b.Fits numIterations numWarmups

/-- An environment that delivers these bytes and measures nothing. -/
def Environment.delivering (destination : Nat → List UInt8) : Environment K where
  draws := fun _ => 0
  destination := destination
  elapsed := fun _ => 0
  elapsedSend := fun _ => 0
  gLogLevel := .warning
  numThreads := 1
  numThreads_pos := by decide

/-- **Exactly `num_iterations` samples, exactly for these counts.** -/
theorem measures_exactly_iff (sqrt : K → K) (b : Benchmark) (numIterations numWarmups : Int)
    (hiterations : IsInt numIterations) (hwarmups : IsInt numWarmups)
    (haccepted : 3 ≤ numIterations) :
    b.MeasuresExactly sqrt numIterations numWarmups ↔ b.CountsFit numIterations numWarmups := by
  have hpos : 1 ≤ numIterations := by omega
  match b with
  | .latency l =>
      constructor
      · intro hmeasures
        have hexact := (hmeasures (Environment.delivering fun _ => []) 1).1
        exact (l.exactly_iff hwarmups hpos).mp hexact
      · intro hfits env loopSize
        have hexact : Exactly numIterations
            (l.durations env numIterations numWarmups loopSize) :=
          (l.exactly_iff hwarmups hpos).mpr hfits
        obtain ⟨list, hrun, hlength⟩ := hexact
        exact ⟨⟨list, hrun, hlength⟩, l.run_ok hrun (by omega)⟩
  | .bandwidth b =>
      constructor
      · intro hmeasures
        -- one size and one environment are enough to read the counts off
        have hsize : checksumSize < 129 := by decide
        have hword : 129 < wordSize := by decide
        obtain ⟨env, hverified⟩ : ∃ env : Environment K, env.Verified 129 :=
          ⟨Environment.delivering fun _ => List.replicate 129 0,
            fun _ => verifyDataReceived_zero hsize⟩
        have hexact := (hmeasures env 129 hsize hword hverified).1.1
        exact (b.exactly_iff hsize hword hiterations hwarmups hpos fun _ => hverified).mp hexact
      · intro hfits env dataSize hsize hword hverified
        have hexact := (b.exactly_iff hsize hword hiterations hwarmups hpos
          fun _ => hverified).mpr hfits
        refine ⟨⟨hexact, ?_⟩, ?_⟩
        · rw [b.run_eq]
          exact (bandwidth_ok_iff hiterations).mpr ⟨hpos, hexact⟩
        · intro t ht
          -- the sending process of a transport counts in `int` as well
          have hne : b ≠ .memcpyMt := fun h => by
            rw [ht] at h
            cases h
          have hsend : Exactly numIterations
              (sendDurations env numIterations numWarmups dataSize) :=
            (sendDurations_exactly_iff hsize hword hwarmups hpos).mpr
              ((BandwidthBenchmark.fits_iff_of_ne hne).mp hfits)
          exact ⟨hsend, (bandwidth_ok_iff hiterations).mpr ⟨hpos, hsend⟩⟩

end

/-- The defaults of `main`. -/
theorem measures_exactly_default :
    (Benchmark.bandwidth .memcpyMt).MeasuresExactly (id : ℚ → ℚ) 10 3 ∧
      (Benchmark.latency .semaphore).MeasuresExactly (id : ℚ → ℚ) 10 3 := by
  have hten : IsInt 10 := by decide
  have hthree : IsInt 3 := by decide
  have hfits : IntFits 10 3 := by
    unfold IntFits
    decide
  constructor
  · exact (measures_exactly_iff id _ 10 3 hten hthree (by decide)).mpr (Or.inl hfits)
  · exact (measures_exactly_iff id _ 10 3 hten hthree (by decide)).mpr (Or.inr hfits)

/-- Counts that `main` accepts and that go wrong: a sample too few, no range
to trim, an `int` overflow, and a check of `CalculateBandwidth` that fires. -/
theorem measures_not_exactly :
    (∀ env : Environment ℚ, LatencyBenchmark.atomic.durations env 3 (-1) 1 =
      .ok [env.elapsed 0 / 4 / 1, env.elapsed 1 / 4 / 1]) ∧
    (∀ env : Environment ℚ, LatencyBenchmark.atomic.run id env 3 (-2) 1 = .error .undefined) ∧
    (∀ env : Environment ℚ, LatencyBenchmark.atomic.run id env 3 (2 ^ 31 - 3) 1 =
      .error .undefined) ∧
    ∀ env : Environment ℚ, ¬ ∃ result,
      (BandwidthBenchmark.transport .uds).run id env 3 (-1) 129 = .ok result := by
  refine ⟨?_, ?_, ?_, ?_⟩
  · intro env
    rfl
  · intro env
    rfl
  · intro env
    rfl
  · intro env hok
    rw [BandwidthBenchmark.run_eq] at hok
    have hexact := ((bandwidth_ok_iff (by decide)).mp hok).2
    have hfits := (BandwidthBenchmark.exactly_iff (by decide) (by decide) (by decide) (by decide)
      (by decide) _ fun henforces => absurd rfl henforces.2.2).mp hexact
    obtain hint | ⟨hmt, _⟩ := hfits
    · exact absurd hint.1 (by decide)
    · cases hmt

end Akbench.Measure
