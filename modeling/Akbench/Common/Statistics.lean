/-
  Akbench.Common.Statistics
  ─────────────────────────
  **`CalculateBandwidth` AND `CalculateOneTripDuration`.**

  Both reduce the recorded durations to an average and a standard deviation.
  The arithmetic is that of a field `K` with a square root, so that the
  reduction can be evaluated over the rationals and reasoned about over the
  reals.

    • `calculateOneTripDuration_eq` — the two folds in closed form;
    • `oneTrip_mean_iff` — when the latency average is a mean.
-/
import Akbench.Lib.Word
import Mathlib.Algebra.BigOperators.Group.List.Basic
import Mathlib.Data.List.GetD
import Mathlib.Analysis.Real.Sqrt

namespace Akbench

/-- How a process ends without a result. -/
inductive Failure where
  /-- A failed `AKCHECK`, or `AKLOG(FATAL)`. -/
  | aborted
  /-- Undefined behaviour. -/
  | undefined
  deriving DecidableEq, Repr

/-- `BenchmarkResult`. -/
structure BenchmarkResult (K : Type*) where
  average : K
  stddev : K

/-! ## §1. The code. -/

/-- The samples from `begin() + 1` to `end() - 1`. -/
def kept {K : Type*} (durations : List K) : List K :=
  (durations.drop 1).take (durations.length - 2)

theorem length_kept {K : Type*} {durations : List K} :
    (kept durations).length = durations.length - 2 := by
  unfold kept
  rw [List.length_take, List.length_drop]
  omega

section

variable {K : Type*} [Field K] (sqrt : K → K)

/-- `CalculateBandwidth`. -/
def calculateBandwidth (durations : List K) (numIterations : Int) (dataSize : Nat) :
    Except Failure (BenchmarkResult K) :=
  if durations.length = toSize numIterations then
    if 1 ≤ numIterations then
      let averageDuration := durations.foldl (· + ·) (0 : K) / durations.length
      let variance := durations.foldl (fun variance duration =>
        variance + (duration - averageDuration) ^ 2) (0 : K) / durations.length
      let stddevDuration := sqrt variance
      .ok ⟨dataSize / averageDuration,
        dataSize * stddevDuration / (averageDuration * averageDuration)⟩
    else .error .aborted
  else .error .aborted

/-- `CalculateOneTripDuration`.  With one sample `begin() + 1` is past
`end() - 1`. -/
def calculateOneTripDuration (durations : List K) : Except Failure (BenchmarkResult K) :=
  if 1 ≤ durations.length then
    if 2 ≤ durations.length then
      -- the divisor is `durations.size()`, in both quotients
      let averageDuration := (kept durations).foldl (· + ·) (0 : K) / durations.length
      let variance := (List.range' 1 (durations.length - 1 - 1)).foldl (fun variance i =>
        variance + (durations.getD i 0 - averageDuration) ^ 2) (0 : K) / durations.length
      .ok ⟨averageDuration, sqrt variance⟩
    else .error .undefined
  else .error .aborted

/-! ## §2. The folds. -/

variable {durations : List K}

/-- The index loop visits the kept samples. -/
theorem map_getD_range' : (List.range' 1 (durations.length - 1 - 1)).map (durations.getD · 0) =
    kept durations := by
  apply List.ext_getElem
  · rw [List.length_map, List.length_range', length_kept]
    omega
  · intro i hi hi'
    rw [length_kept] at hi'
    simp only [kept, List.getElem_map, List.getElem_range', List.getElem_take, List.getElem_drop,
      Nat.one_mul]
    exact List.getD_eq_getElem _ _ (by omega)

theorem foldl_add_map {α : Type*} (f : α → K) (l : List α) :
    l.foldl (fun sum x => sum + f x) 0 = (l.map f).sum := by
  rw [List.sum_eq_foldl, List.foldl_map]

/-- **Both results in closed form.** -/
theorem calculateOneTripDuration_eq (h : 2 ≤ durations.length) :
    calculateOneTripDuration sqrt durations =
      .ok ⟨(kept durations).sum / durations.length,
        sqrt (((kept durations).map fun d =>
          (d - (kept durations).sum / durations.length) ^ 2).sum / durations.length)⟩ := by
  have hindex : ∀ a : K,
      (List.range' 1 (durations.length - 1 - 1)).foldl
          (fun variance i => variance + (durations.getD i 0 - a) ^ 2) 0 =
        ((kept durations).map fun d => (d - a) ^ 2).sum := by
    intro a
    rw [foldl_add_map, ← map_getD_range', List.map_map]
    rfl
  unfold calculateOneTripDuration
  rw [if_pos (by omega), if_pos h]
  dsimp only
  rw [hindex, ← List.sum_eq_foldl]

/-- The check of `CalculateBandwidth`. -/
theorem calculateBandwidth_ok_iff {numIterations : Int} {dataSize : Nat} :
    (∃ result, calculateBandwidth sqrt durations numIterations dataSize = .ok result) ↔
      durations.length = toSize numIterations ∧ 1 ≤ numIterations := by
  unfold calculateBandwidth
  constructor
  · intro hok
    obtain ⟨result, hresult⟩ := hok
    split at hresult
    next hlength =>
      split at hresult
      next hpos => exact ⟨hlength, hpos⟩
      next => cases hresult
    next => cases hresult
  · intro hchecks
    rw [if_pos hchecks.1, if_pos hchecks.2]
    exact ⟨_, rfl⟩

end

/-! ## §3. The latency average as a mean. -/

/-- The latency result as the arithmetic mean and standard deviation of the
kept samples. -/
structure IsMean (durations : List ℝ) (result : BenchmarkResult ℝ) : Prop where
  average : result.average = (kept durations).sum / (kept durations).length
  variance : result.stddev ^ 2 =
    ((kept durations).map fun d => (d - result.average) ^ 2).sum / (kept durations).length
  smallest : ∃ d, d ∈ kept durations ∧ d ≤ result.average
  largest : ∃ d, d ∈ kept durations ∧ result.average ≤ d
  constant : ∀ t, durations = List.replicate durations.length t →
    result.average = t ∧ result.stddev = 0

variable {durations : List ℝ}

theorem sum_sq_nonneg (l : List ℝ) (a : ℝ) : 0 ≤ (l.map fun d => (d - a) ^ 2).sum := by
  apply List.sum_nonneg
  intro y hy
  obtain ⟨d, _, hd⟩ := List.mem_map.mp hy
  rw [← hd]
  exact sq_nonneg _

/-- A sum of squared deviations vanishes only without deviations. -/
theorem sum_sq_eq_zero {l : List ℝ} {a : ℝ} (h : (l.map fun d => (d - a) ^ 2).sum = 0) :
    ∀ d, d ∈ l → d = a := by
  induction l with
  | nil =>
      intro d hd
      cases hd
  | cons x l ih =>
      rw [List.map_cons, List.sum_cons] at h
      -- two summands that are not negative
      have hx : 0 ≤ (x - a) ^ 2 := sq_nonneg _
      have hl := sum_sq_nonneg l a
      intro d hd
      rcases List.mem_cons.mp hd with hhead | htail
      · rw [hhead]
        exact sub_eq_zero.mp (pow_eq_zero_iff two_ne_zero |>.mp (by linarith))
      · exact ih (by linarith) d htail

/-- A number divided by two different counts comes out the same only at zero. -/
theorem eq_zero_of_div_eq {s : ℝ} {n m : ℕ} (hm : 0 < m) (hnm : m < n)
    (h : s / n = s / m) : s = 0 := by
  have hn : (0 : ℝ) < n := by
    have hpos : 0 < n := by omega
    exact_mod_cast hpos
  have hm' : (0 : ℝ) < m := by exact_mod_cast hm
  have hlt : (m : ℝ) < n := by exact_mod_cast hnm
  rw [div_eq_div_iff (ne_of_gt hn) (ne_of_gt hm')] at h
  have hprod : s * (n - m) = 0 := by linarith
  rcases mul_eq_zero.mp hprod with hs | hdiff
  · exact hs
  · linarith

/-- **The latency average is a mean exactly when there is nothing to average.**
Both sums are divided by all samples although two of them are left out. -/
theorem oneTrip_mean_iff (durations : List ℝ) (hn : 3 ≤ durations.length) :
    ∃ result, calculateOneTripDuration Real.sqrt durations = .ok result ∧
      (IsMean durations result ↔ ∀ d, d ∈ kept durations → d = 0) := by
  refine ⟨_, calculateOneTripDuration_eq Real.sqrt (by omega), ?_⟩
  have hkept := @length_kept ℝ durations
  have hpos : 0 < (kept durations).length := by omega
  have hless : (kept durations).length < durations.length := by omega
  constructor
  · intro hmean
    -- the sum first, then the sum of squares, over two different counts
    have hsum : (kept durations).sum = 0 := eq_zero_of_div_eq hpos hless hmean.average
    have hsquares := hmean.variance
    dsimp only at hsquares
    rw [hsum, zero_div] at hsquares
    rw [Real.sq_sqrt (div_nonneg (sum_sq_nonneg _ _) (Nat.cast_nonneg _))] at hsquares
    exact sum_sq_eq_zero (eq_zero_of_div_eq hpos hless hsquares)
  · intro hzero
    have hreplicate : kept durations = List.replicate (kept durations).length 0 :=
      List.eq_replicate_of_mem hzero
    have hsum : (kept durations).sum = 0 := by
      rw [hreplicate, List.sum_replicate, smul_zero]
    have hsquares : ((kept durations).map fun d => (d - 0) ^ 2).sum = 0 := by
      rw [hreplicate, List.map_replicate, List.sum_replicate, sub_zero, zero_pow two_ne_zero,
        smul_zero]
    obtain ⟨d, hd⟩ := List.exists_mem_of_length_pos hpos
    have hle : d = 0 := hzero d hd
    rw [hsum, zero_div, hsquares, zero_div, Real.sqrt_zero]
    constructor
    · show 0 = (kept durations).sum / _
      rw [hsum, zero_div]
    · show (0 : ℝ) ^ 2 = ((kept durations).map fun d => (d - 0) ^ 2).sum / _
      rw [hsquares, zero_div, zero_pow two_ne_zero]
    · exact ⟨d, hd, le_of_eq hle⟩
    · exact ⟨d, hd, le_of_eq hle.symm⟩
    · intro t ht
      -- a kept sample is one of them all
      have hmem : d ∈ durations := List.mem_of_mem_drop (List.mem_of_mem_take hd)
      rw [ht] at hmem
      have hdt : d = t := List.eq_of_mem_replicate hmem
      exact ⟨hle.symm.trans hdt, rfl⟩

/-- The samples 5, 0, 7 average to 0. -/
theorem oneTrip_mean_single :
    ∃ result, calculateOneTripDuration Real.sqrt [5, 0, 7] = .ok result ∧
      IsMean [5, 0, 7] result := by
  obtain ⟨result, hresult, hiff⟩ := oneTrip_mean_iff [5, 0, 7] (by decide)
  refine ⟨result, hresult, hiff.mpr ?_⟩
  intro d hd
  have hd' : d ∈ [(0 : ℝ)] := hd
  exact List.mem_singleton.mp hd'

/-- Three equal samples of 1 average to a third. -/
theorem oneTrip_not_mean :
    ∃ result, calculateOneTripDuration Real.sqrt (List.replicate 3 1) = .ok result ∧
      result.average = 1 / 3 ∧ ¬ IsMean (List.replicate 3 1) result := by
  have hkept : kept (List.replicate 3 (1 : ℝ)) = [1] := rfl
  refine ⟨_, calculateOneTripDuration_eq Real.sqrt (by decide), ?_, ?_⟩
  · show (kept (List.replicate 3 (1 : ℝ))).sum / (List.replicate 3 (1 : ℝ)).length = 1 / 3
    rw [hkept, List.sum_singleton, List.length_replicate]
    norm_num
  · intro hmean
    have haverage := (hmean.constant 1 rfl).1
    dsimp only at haverage
    rw [hkept, List.sum_singleton, List.length_replicate] at haverage
    norm_num at haverage

end Akbench
