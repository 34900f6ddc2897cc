/-
  Akbench.Measure.Verification
  ────────────────────────────
  **NO BANDWIDTH FOR UNVERIFIED DATA?**

  Six of the bandwidth benchmarks abort when a frame does not verify.
  `memcpy` verifies the source it copied from, `memcpy_mt` writes a message
  and goes on, and `uds` does not look at the verdict: these return a result
  whatever was delivered, unless their counts keep them from it anyway.

    • `durations_aborted` — an iteration that fails the verification is the
      end of the six;
    • `durations_always` — the three record all the same;
    • `rejects_unverified_iff` — which benchmarks reject.
-/
import Akbench.Measure.Samples

namespace Akbench.Measure

variable {K : Type*} {env : Environment K}
variable {numIterations numWarmups : Int} {dataSize : Nat}

/-! ## §1. Iterations. -/

/-- How many iterations the loop makes, were nothing to fail. -/
def BandwidthBenchmark.iterations (numIterations numWarmups : Int) (b : BandwidthBenchmark) : Nat :=
  match addInt numWarmups numIterations with
  | none => 0
  | some bound => if b = .memcpyMt then toSize bound else bound.toNat

/-- The destination has `data_size` bytes from the start. -/
def BandwidthBenchmark.FixedSize (b : BandwidthBenchmark) : Prop :=
  b ≠ .transport .pipe ∧ b ≠ .transport .fifo ∧ b ≠ .transport .mq

/-- Without overflow the sum is what the `int` addition yields. -/
theorem addInt_of_iteration {b : BandwidthBenchmark} {i : Nat}
    (h : i < b.iterations numIterations numWarmups) :
    addInt numWarmups numIterations = some (numWarmups + numIterations) := by
  unfold BandwidthBenchmark.iterations at h
  cases hsum : addInt numWarmups numIterations with
  | none =>
      rw [hsum] at h
      exact absurd h (Nat.not_lt_zero i)
  | some bound => rw [(addInt_eq_some_iff.mp hsum).2]

/-- Counts that fit make for a first iteration. -/
theorem BandwidthBenchmark.iterations_pos (b : BandwidthBenchmark)
    (hwarmups : IsInt numWarmups) (hiterations : IsInt numIterations) (hpos : 1 ≤ numIterations)
    (hfits : b.Fits numIterations numWarmups) : 0 < b.iterations numIterations numWarmups := by
  have hword : ((wordSize : Nat) : Int) = 2 ^ 64 := by decide
  have hmin : intMin = -2 ^ 31 := rfl
  have hmax : intMax = 2 ^ 31 - 1 := rfl
  have hsum : addInt numWarmups numIterations = some (numWarmups + numIterations) := by
    rw [addInt_eq_some_iff]
    refine ⟨?_, rfl⟩
    unfold IsInt at hwarmups hiterations ⊢
    obtain hint | hneg := hfits
    · exact ⟨by omega, hint.2⟩
    · exact ⟨by omega, by omega⟩
  unfold BandwidthBenchmark.iterations
  rw [hsum]
  dsimp only
  unfold IsInt at hwarmups hiterations
  obtain hint | ⟨hmt, hneg⟩ := hfits
  · obtain ⟨hnonneg, hle⟩ := hint
    split
    next =>
      rw [toSize_of_nonneg (by omega) (by omega)]
      omega
    next => omega
  · rw [if_pos hmt, toSize_of_neg hneg (by omega)]
    omega

/-! ## §2. The six that abort. -/

/-- A verdict of the six passes or aborts. -/
theorem reportVerdict_fatal (gLogLevel : LogLevel) (verdict : Option Bool) :
    reportVerdict gLogLevel .fatal verdict = .ok () ∨
      reportVerdict gLogLevel .fatal verdict = .error .aborted := by
  cases verdict with
  | none => exact Or.inr rfl
  | some b =>
      cases b with
      | true => exact Or.inl (reportVerdict_ok (Or.inl rfl))
      | false => exact Or.inr aklog_fatal

/-- **An iteration that fails the verification is the last.** -/
theorem durations_aborted {b : BandwidthBenchmark} (henforces : b.Enforces) {i : Nat}
    (hi : i < b.iterations numIterations numWarmups)
    (hfalse : verifyDataReceived (env.destination i) dataSize = some false) :
    b.durations env numIterations numWarmups dataSize = .error .aborted := by
  have hsum := addInt_of_iteration hi
  match b with
  | .memcpy => exact absurd rfl henforces.1
  | .memcpyMt => exact absurd rfl henforces.2.1
  | .transport t =>
      have hne : BandwidthBenchmark.transport t ≠ .memcpyMt := henforces.2.1
      have hturn : i < 0 + (numWarmups + numIterations).toNat := by
        unfold BandwidthBenchmark.iterations at hi
        rw [hsum] at hi
        dsimp only at hi
        rw [if_neg hne] at hi
        omega
      show measure numWarmups numIterations (t.verify env dataSize) env.elapsed = _
      unfold measure
      rw [hsum]
      apply forLoop_error (Nat.zero_le i) hturn
      · intro durations
        rw [verify_enforced henforces, hfalse]
        show (aklog env.gLogLevel .fatal).map _ = _
        rw [aklog_fatal]
        rfl
      · intro j durations
        rw [verify_enforced henforces]
        obtain hok | hfail := reportVerdict_fatal env.gLogLevel
          (verifyDataReceived (env.destination j) dataSize)
        · left
          rw [hok]
          exact ⟨_, rfl⟩
        · right
          rw [hfail]
          rfl

/-! ## §3. The three that go on. -/

/-- **The others record a list of durations whatever was delivered.** -/
theorem durations_always {b : BandwidthBenchmark} (henforces : ¬ b.Enforces)
    (hsize : checksumSize < dataSize) (hword : dataSize < wordSize)
    (hsum : IsInt (numWarmups + numIterations)) :
    ∃ list, b.durations env numIterations numWarmups dataSize = .ok list := by
  match b with
  | .memcpy =>
      show ∃ list, memcpyDurations env numIterations numWarmups dataSize = .ok list
      rw [memcpyDurations_eq hsize hword, measure_eq hsum fun _ => rfl]
      exact ⟨_, rfl⟩
  | .memcpyMt =>
      show ∃ list, memcpyMtDurations env numIterations numWarmups dataSize = .ok list
      rw [memcpyMtDurations_eq hsize hword, measureSize_eq hsum fun _ => rfl]
      exact ⟨_, rfl⟩
  | .transport t =>
      show ∃ list, t.receiveDurations env numIterations numWarmups dataSize = .ok list
      rw [receiveDurations_eq hsize t fun h => absurd h henforces, measure_eq hsum fun _ => rfl]
      exact ⟨_, rfl⟩

/-- `CalculateBandwidth` aborts if it does not return. -/
theorem calculateBandwidth_aborted [Field K] {sqrt : K → K} {durations : List K}
    (h : ¬ ∃ result, calculateBandwidth sqrt durations numIterations dataSize = .ok result) :
    calculateBandwidth sqrt durations numIterations dataSize = .error .aborted := by
  have hchecks := mt (calculateBandwidth_ok_iff sqrt).mpr h
  unfold calculateBandwidth
  split
  next hlength =>
    have hpos : ¬ 1 ≤ numIterations := fun hpos => hchecks ⟨hlength, hpos⟩
    rw [if_neg hpos]
  next => rfl

/-! ## §4. Which benchmarks reject. -/

/-- In every run in which the bytes at the destination fail the verification
in some iteration, the benchmark aborts. -/
def BandwidthBenchmark.RejectsUnverified [Field K] (sqrt : K → K)
    (numIterations numWarmups : Int) (dataSize : Nat) (b : BandwidthBenchmark) : Prop :=
  ∀ env : Environment K, (b.FixedSize → ∀ i, (env.destination i).length = dataSize) →
    (∃ i, i < b.iterations numIterations numWarmups ∧
      verifyDataReceived (env.destination i) dataSize = some false) →
    b.run sqrt env numIterations numWarmups dataSize = .error .aborted

/-- A frame of the right size that does not verify. -/
theorem exists_unverified (hsize : checksumSize < dataSize) :
    ∃ data : List UInt8,
      data.length = dataSize ∧ verifyDataReceived data dataSize = some false := by
  have hzeros := verifyDataReceived_zero hsize
  have hchecksum : 0 < checksumSize := by decide
  have hbyte : ∀ i, difference (List.replicate dataSize 0) ((List.replicate dataSize 0).set 0 1) i
      ≠ 0 → i = 0 := by
    intro i hi
    by_contra hpos
    apply hi
    rw [difference_eq_zero_iff]
    unfold byteAt
    rw [List.getD_eq_getElem?_getD, List.getD_eq_getElem?_getD,
      List.getElem?_set_ne (fun h => hpos h.symm)]
  refine ⟨(List.replicate dataSize 0).set 0 1, ?_, ?_⟩
  · rw [List.length_set, List.length_replicate]
  · apply burst_rejected hsize hzeros List.length_set ?_ 0
    · intro i hi
      rw [hbyte i hi]
      omega
    · intro heq
      have hfirst := congrArg (fun data => data[0]?) heq
      have hpos : 0 < dataSize := by omega
      simp only [List.getElem?_set, List.length_replicate, List.getElem?_replicate, hpos,
        if_true] at hfirst
      exact absurd hfirst (by decide)

/-- **Which benchmarks reject unverified data.**  The six do; of the others
those runs do that return no result anyway. -/
theorem rejects_unverified_iff [Field K] (sqrt : K → K) (b : BandwidthBenchmark)
    (numIterations numWarmups : Int) (dataSize : Nat) (hsize : checksumSize < dataSize)
    (hword : dataSize < wordSize) (hiterations : IsInt numIterations)
    (hwarmups : IsInt numWarmups) :
    b.RejectsUnverified sqrt numIterations numWarmups dataSize ↔
      b.Enforces ∨ numIterations < 1 ∨ ¬ b.Fits numIterations numWarmups := by
  by_cases henforces : b.Enforces
  · refine ⟨fun _ => Or.inl henforces, fun _ env _ hfalse => ?_⟩
    obtain ⟨i, hi, hverify⟩ := hfalse
    rw [b.run_eq, durations_aborted henforces hi hverify]
    rfl
  rw [or_iff_right henforces]
  constructor
  · intro hrejects
    by_contra hcounts
    rw [not_or, not_not, not_lt] at hcounts
    obtain ⟨hpos, hfits⟩ := hcounts
    obtain ⟨data, hlength, hverify⟩ := exists_unverified hsize
    have haborted := hrejects (Environment.delivering fun _ => data) (fun _ _ => hlength)
      ⟨0, b.iterations_pos hwarmups hiterations hpos hfits, hverify⟩
    -- yet the run returns a result
    have hexact : Exactly numIterations
        (b.durations (Environment.delivering fun _ => data : Environment K) numIterations
          numWarmups dataSize) :=
      (b.exactly_iff hsize hword hiterations hwarmups hpos fun h => absurd h henforces).mpr hfits
    obtain ⟨result, hresult⟩ := (bandwidth_ok_iff hiterations).mpr ⟨hpos, hexact⟩
    rw [b.run_eq, hresult] at haborted
    cases haborted
  · intro hcounts env _ hfalse
    obtain ⟨i, hi, _⟩ := hfalse
    have hsum := (addInt_eq_some_iff.mp (addInt_of_iteration hi)).1
    obtain ⟨list, hlist⟩ :
        ∃ list, b.durations env numIterations numWarmups dataSize = .ok list :=
      durations_always henforces hsize hword hsum
    rw [b.run_eq, hlist]
    apply calculateBandwidth_aborted
    intro hok
    have hok' : ∃ result, ((.ok list : Except Failure (List K)).bind fun durations =>
        calculateBandwidth sqrt durations numIterations dataSize) = .ok result := hok
    obtain ⟨hpos, hexact⟩ := (bandwidth_ok_iff hiterations).mp hok'
    rw [← hlist] at hexact
    have hfits := (b.exactly_iff hsize hword hiterations hwarmups hpos
      fun h => absurd h henforces).mp hexact
    obtain hless | hunfit := hcounts
    · omega
    · exact hunfit hfits

/-- The pipe benchmark with the defaults of `main`. -/
theorem rejects_unverified_pipe :
    (BandwidthBenchmark.transport .pipe).RejectsUnverified (id : ℚ → ℚ) 10 3 1000 :=
  (rejects_unverified_iff id _ 10 3 1000 (by decide) (by decide) (by decide) (by decide)).mpr
    (Or.inl ⟨by decide, by decide, by decide⟩)

/-- `uds`, `memcpy` and `memcpy_mt` return a result although no iteration
delivered a frame that verifies. -/
theorem returns_unverified :
    ∃ env : Environment ℚ, (∀ i, (env.destination i).length = 1000) ∧
      (∀ i, verifyDataReceived (env.destination i) 1000 = some false) ∧
      ∀ b : BandwidthBenchmark, ¬ b.Enforces → ∃ result, b.run id env 10 3 1000 = .ok result := by
  obtain ⟨data, hlength, hverify⟩ := exists_unverified (by decide : checksumSize < 1000)
  refine ⟨Environment.delivering fun _ => data, fun _ => hlength, fun _ => hverify, ?_⟩
  intro b henforces
  have hfits : b.Fits 10 3 := Or.inl ⟨by decide, by decide⟩
  rw [b.run_eq]
  refine (bandwidth_ok_iff (by decide)).mpr ⟨by decide, ?_⟩
  exact (b.exactly_iff (by decide) (by decide) (by decide) (by decide) (by decide)
    fun h => absurd h henforces).mpr hfits

end Akbench.Measure
