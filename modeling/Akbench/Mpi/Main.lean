/-
  Akbench.Mpi.Main
  ────────────────
  **`mpi_bandwidth`, FROM THE COMMAND LINE TO THE RESULT.**

  Both processes read one command line, and behind `MPI_Init` they make the
  same checks: they stop at one place, or meet in the ping-pong.  The number of
  warm-ups is not checked.  With one below zero the ranks play to the end, and
  `CalculateBandwidth` misses the iterations that were not made.

    • `validate_ok_iff`, `validate_accepted` — the command lines that lead to
      the ping-pong, and what is known of their settings;
    • `help_of_status` — all others but `--help` end with status 1;
    • `measured_iff` — the counts with which a rank has a result;
    • `mpi_bandwidth` — the whole program, for all of these.
-/
import Akbench.Driver.Arguments
import Akbench.Measure.Verification
import Akbench.Mpi.Progress

namespace Akbench.Mpi

open Driver (Overshift parseInt parseUint64 ite_error_eq_ok parseInt_isInt parseUint64_lt)
open Akbench.Measure (measure samples Exactly IntFits Measured bandwidth_ok_iff
  measure_exact_iff measure_eq calculateBandwidth_aborted)

/-! ## §1. The code around the ping-pong. -/

/-- What `getopt_long` returns, with `optarg`. -/
inductive Getopt where
  | numIterations (optarg : String)
  | numWarmups (optarg : String)
  | dataSize (optarg : String)
  | help
  /-- `'?'`: an unknown option or a missing argument. -/
  | invalid
  deriving DecidableEq, Repr

/-- The global variables, with their defaults. -/
structure Settings where
  numIterations : Int := 10
  numWarmups : Int := 3
  dataSize : Nat := 2 ^ 20
  deriving DecidableEq, Repr

/-- Why `main` returns before the ping-pong. -/
inductive Stop where
  /-- `--help`: the usage text. -/
  | usage
  /-- `getopt_long` has printed the message. -/
  | getopt
  | exception (what : String)
  | wrongSize
  | tooFewIterations (numIterations : Int)
  | dataTooSmall (dataSize : Nat)
  deriving DecidableEq, Repr

/-- The message, of every process for an exception and of rank 0 otherwise. -/
def Stop.message : Stop → String
  | usage => ""
  | getopt => ""
  | exception what => what
  | wrongSize => "Error: This program should be run with 2 MPI processes."
  | tooFewIterations n => "num_iterations must be at least 3, got: " ++ toString n
  | dataTooSmall d =>
      "data_size must be greater than " ++ toString checksumSize ++ ", got: " ++ toString d

/-- The exit status. -/
def Stop.status : Stop → Nat
  | usage => 0
  | getopt | exception _ | wrongSize | tooFewIterations _ | dataTooSmall _ => 1

/-- `.value()` of an optional. -/
def value : Option Nat → Except Stop Nat
  | some n => .ok n
  | none => .error (.exception "bad optional access")

/-- One turn of the option loop; every exception is caught. -/
def applyOption (overshift : Overshift) (s : Settings) : Getopt → Except Stop Settings
  | .numIterations arg =>
      ((parseInt arg).mapError .exception).map fun n => { s with numIterations := n }
  | .numWarmups arg =>
      ((parseInt arg).mapError .exception).map fun n => { s with numWarmups := n }
  | .dataSize arg =>
      ((parseUint64 overshift arg).mapError .exception).bind fun v =>
        (value v).map fun n => { s with dataSize := n }
  | .help => .error .usage
  | .invalid => .error .getopt

/-- The option loop. -/
def parseOptions (overshift : Overshift) (s : Settings) : List Getopt → Except Stop Settings
  | [] => .ok s
  | o :: rest => (applyOption overshift s o).bind fun s => parseOptions overshift s rest

/-- The checks behind `MPI_Init`; `size` is that of `MPI_COMM_WORLD`. -/
def checkSettings (size : Nat) (s : Settings) : Except Stop Settings :=
  if size ≠ 2 then .error .wrongSize
  else if s.numIterations < 3 then .error (.tooFewIterations s.numIterations)
  else if s.dataSize ≤ checksumSize then .error (.dataTooSmall s.dataSize)
  else .ok s

/-- `main` of every process, up to `GenerateDataToSend`. -/
def validate (overshift : Overshift) (size : Nat) (options : List Getopt) : Except Stop Settings :=
  (parseOptions overshift {} options).bind (checkSettings size)

section

variable {K : Type*}

/-- The durations of a rank that gets through; what it verifies, and that it
aborts where that fails, is part of the ping-pong. -/
def Settings.durations (s : Settings) (elapsed : Nat → K) : Except Failure (List K) :=
  measure s.numWarmups s.numIterations (fun _ => .ok ()) elapsed

/-- What it calculates from them. -/
def Settings.result [Field K] (sqrt : K → K) (s : Settings) (elapsed : Nat → K) :
    Except Failure (BenchmarkResult K) :=
  (s.durations elapsed).bind fun durations =>
    calculateBandwidth sqrt durations s.numIterations (mul64 2 s.dataSize)

end

/-! ## §2. Which command lines lead to the ping-pong. -/

variable {overshift : Overshift} {size : Nat} {options : List Getopt} {s s' : Settings}

theorem checkSettings_ok_iff : checkSettings size s = .ok s' ↔
    s = s' ∧ size = 2 ∧ 3 ≤ s.numIterations ∧ checksumSize < s.dataSize := by
  unfold checkSettings
  simp only [ite_error_eq_ok, Except.ok.injEq]
  constructor
  · rintro ⟨hsize, hiterations, hdata, heq⟩
    exact ⟨heq, by omega, by omega, by omega⟩
  · rintro ⟨heq, hsize, hiterations, hdata⟩
    exact ⟨by omega, by omega, by omega, heq⟩

/-- **The command lines that are accepted.** -/
theorem validate_ok_iff : validate overshift size options = .ok s ↔
    parseOptions overshift {} options = .ok s ∧
      size = 2 ∧ 3 ≤ s.numIterations ∧ checksumSize < s.dataSize := by
  constructor
  · intro h
    obtain ⟨t, hparse, hcheck⟩ := bind_eq_ok h
    obtain ⟨rfl, hpassed⟩ := checkSettings_ok_iff.mp hcheck
    exact ⟨hparse, hpassed⟩
  · rintro ⟨hparse, hpassed⟩
    unfold validate
    rw [hparse]
    exact checkSettings_ok_iff.mpr ⟨rfl, hpassed⟩

/-- Every setting is a value of its type. -/
structure InRange (s : Settings) : Prop where
  numIterations : IsInt s.numIterations
  numWarmups : IsInt s.numWarmups
  dataSize : s.dataSize < wordSize

theorem value_eq_ok {v : Option Nat} {n : Nat} (h : value v = .ok n) : v = some n := by
  cases v with
  | none => cases h
  | some m =>
      injection h with h
      rw [h]

/-- **Step lemma.** -/
theorem InRange.applyOption (hs : InRange s) {o : Getopt}
    (h : applyOption overshift s o = .ok s') : InRange s' := by
  cases o with
  | numIterations arg =>
      obtain ⟨n, hn, rfl⟩ := map_eq_ok h
      exact { hs with numIterations := parseInt_isInt (mapError_eq_ok hn) }
  | numWarmups arg =>
      obtain ⟨n, hn, rfl⟩ := map_eq_ok h
      exact { hs with numWarmups := parseInt_isInt (mapError_eq_ok hn) }
  | dataSize arg =>
      obtain ⟨v, hv, hrest⟩ := bind_eq_ok h
      obtain ⟨n, hn, rfl⟩ := map_eq_ok hrest
      have hparse := mapError_eq_ok hv
      rw [value_eq_ok hn] at hparse
      exact { hs with dataSize := parseUint64_lt hparse }
  | help => cases h
  | invalid => cases h

/-- **Run lemma.** -/
theorem InRange.parseOptions (hs : InRange s) (h : parseOptions overshift s options = .ok s') :
    InRange s' := by
  induction options generalizing s with
  | nil =>
      injection h with h
      rwa [← h]
  | cons o rest ih =>
      obtain ⟨t, ht, hrest⟩ := bind_eq_ok h
      exact ih (hs.applyOption ht) hrest

/-- The defaults are in range. -/
theorem inRange_default : InRange {} where
  numIterations := by decide
  numWarmups := by decide
  dataSize := by decide

/-- What the ping-pong is begun with. -/
structure Accepted (s : Settings) : Prop where
  iterations : 3 ≤ s.numIterations
  data : checksumSize < s.dataSize
  range : InRange s

theorem validate_accepted (h : validate overshift size options = .ok s) :
    size = 2 ∧ Accepted s := by
  obtain ⟨hparse, hsize, hiterations, hdata⟩ := validate_ok_iff.mp h
  exact ⟨hsize, hiterations, hdata, inRange_default.parseOptions hparse⟩

/-- What was an exception is no `--help`. -/
theorem mapError_ne_usage {α : Type} (x : Except String α) :
    x.mapError Stop.exception ≠ .error .usage := by
  intro h
  obtain ⟨what, _, heq⟩ := mapError_eq_error h
  cases heq

/-- **Step lemma.** -/
theorem applyOption_ne_usage {o : Getopt} (ho : o ≠ .help) :
    applyOption overshift s o ≠ .error .usage := by
  intro h
  cases o with
  | numIterations arg => exact mapError_ne_usage _ (map_eq_error h)
  | numWarmups arg => exact mapError_ne_usage _ (map_eq_error h)
  | dataSize arg =>
      obtain hparse | ⟨v, _, hv⟩ := bind_eq_error h
      · exact mapError_ne_usage _ hparse
      · have hvalue := map_eq_error hv
        cases v with
        | some n => cases hvalue
        | none => cases hvalue
  | help => exact ho rfl
  | invalid => cases h

/-- **Run lemma.** -/
theorem parseOptions_ne_usage (h : .help ∉ options) :
    parseOptions overshift s options ≠ .error .usage := by
  induction options generalizing s with
  | nil => exact fun husage => by cases husage
  | cons o rest ih =>
      rw [List.mem_cons, not_or] at h
      intro husage
      obtain hhead | ⟨t, _, hrest⟩ := bind_eq_error husage
      · exact applyOption_ne_usage (Ne.symm h.1) hhead
      · exact ih h.2 hrest

theorem checkSettings_ne_usage : checkSettings size s ≠ .error .usage := by
  intro h
  unfold checkSettings at h
  split at h
  next => cases h
  next =>
    split at h
    next => cases h
    next => split at h <;> cases h

/-- **Who returns 0 without a measurement** was asked for help. -/
theorem help_of_status {stop : Stop} (h : validate overshift size options = .error stop)
    (hzero : stop.status = 0) : .help ∈ options := by
  have husage : stop = .usage := by
    cases stop with
    | usage => rfl
    | getopt | exception | wrongSize | tooFewIterations | dataTooSmall => cases hzero
  subst husage
  by_contra hhelp
  obtain hparse | ⟨t, _, hcheck⟩ := bind_eq_error h
  · exact parseOptions_ne_usage hhelp hparse
  · exact checkSettings_ne_usage hcheck

/-! ## §3. The ping-pong of accepted settings. -/

/-- The two ranks' run; `draws r` are those of rank `r`. -/
def Settings.config (s : Settings) (h : Accepted s) (draws : Rank → Nat → UInt64) : Config where
  total := (s.numWarmups + s.numIterations).toNat
  dataSize := s.dataSize
  sendBuffer r := (generateDataToSend (draws r) s.dataSize).getD []
  length_sendBuffer r := by
    obtain ⟨data, hgen, hlen, _⟩ := exists_generated (draws r) h.data h.range.dataSize
    rw [hgen]
    exact hlen
  accepted := h.data
  dataSize_lt := h.range.dataSize

/-- `GenerateDataToSend` succeeds. -/
theorem config_generated (h : Accepted s) (draws : Rank → Nat → UInt64) (r : Rank) :
    generateDataToSend (draws r) (s.config h draws).dataSize =
      some ((s.config h draws).sendBuffer r) := by
  obtain ⟨data, hgen, _, _⟩ := exists_generated (draws r) h.data h.range.dataSize
  show generateDataToSend (draws r) s.dataSize =
    some ((generateDataToSend (draws r) s.dataSize).getD [])
  rw [hgen]
  rfl

/-! ## §4. The result. -/

section

variable {K : Type*} [Field K] (sqrt : K → K) (elapsed : Nat → K)

/-- **Which counts are enough for a result**, of those that can be added. -/
theorem measured_iff (h : Accepted s) (hsum : IsInt (s.numWarmups + s.numIterations)) :
    Measured s.numIterations (s.durations elapsed) (s.result sqrt elapsed) ↔ 0 ≤ s.numWarmups := by
  have hiterations := h.iterations
  have hexact : Exactly s.numIterations (s.durations elapsed) ↔
      IntFits s.numIterations s.numWarmups :=
    measure_exact_iff h.range.numWarmups (by omega) fun _ => rfl
  constructor
  · intro hmeasured
    exact (hexact.mp hmeasured.1).1
  · intro hwarmups
    have hdurations := hexact.mpr ⟨hwarmups, hsum.2⟩
    exact ⟨hdurations,
      (bandwidth_ok_iff h.range.numIterations).mpr ⟨by omega, hdurations⟩⟩

/-- **Without a result the rank aborts.** -/
theorem result_aborted (h : Accepted s) (hsum : IsInt (s.numWarmups + s.numIterations))
    (hneg : s.numWarmups < 0) : s.result sqrt elapsed = .error .aborted := by
  have hdurations : s.durations elapsed = .ok (samples s.numWarmups.toNat
      (s.numWarmups + s.numIterations).toNat elapsed) := measure_eq hsum fun _ => rfl
  unfold Settings.result
  rw [hdurations]
  apply calculateBandwidth_aborted
  rintro ⟨result, hresult⟩
  -- a result would need one duration for each iteration asked for
  have hmeasured : ∃ result, s.result sqrt elapsed = .ok result := by
    refine ⟨result, ?_⟩
    unfold Settings.result
    rw [hdurations]
    exact hresult
  have hexact := ((bandwidth_ok_iff h.range.numIterations).mp hmeasured).2
  have hpos := (measured_iff sqrt elapsed h hsum).mp ⟨hexact, hmeasured⟩
  omega

end

/-! ## §5. The whole program. -/

/-- **`mpi_bandwidth`.**  Let the processes accept their command line, with a
size that an `int` can hold and counts whose sum it can.  Then there are two of
them; whichever sends MPI buffers and however they are scheduled, no call and
no verification fails, every weakly fair run brings both through all
iterations, and each has a result from exactly `num_iterations` durations,
unless the number of warm-ups is negative: then both abort instead. -/
theorem mpi_bandwidth {K : Type*} [Field K] (sqrt : K → K) (overshift : Overshift) (size : Nat)
    (options : List Getopt) (s : Settings) (hok : validate overshift size options = .ok s)
    (hfits : (s.dataSize : Int) ≤ intMax) (hsum : IsInt (s.numWarmups + s.numIterations))
    (draws : Rank → Nat → UInt64) (elapsed : Rank → Nat → K) :
    size = 2 ∧ ∃ h : Accepted s,
      (∀ eager : State → Rank → Bool,
        (∀ t, (blockingSystem eager (s.config h draws)).Reachable t →
          Undisturbed (s.config h draws) t) ∧
        ∀ r : (blockingSystem eager (s.config h draws)).Behaviour, r.WeaklyFair id →
          ∃ i, ∀ j, i ≤ j → Over (s.config h draws) (r.state j)) ∧
      ∀ q,
        (0 ≤ s.numWarmups →
          Measured s.numIterations (s.durations (elapsed q)) (s.result sqrt (elapsed q))) ∧
        (s.numWarmups < 0 → s.result sqrt (elapsed q) = .error .aborted) := by
  obtain ⟨hsize, h⟩ := validate_accepted hok
  refine ⟨hsize, h, ?_, fun q => ⟨?_, ?_⟩⟩
  · intro eager
    have hgood : Good (s.config h draws) := good_of_generated hfits (config_generated h draws)
    exact ⟨fun t ht => undisturbed_of_reachable hgood ht, ends hgood⟩
  · exact (measured_iff sqrt (elapsed q) h hsum).mpr
  · exact result_aborted sqrt (elapsed q) h hsum

/-- `mpirun -np 2 mpi_bandwidth --num-warmups=1 --data-size=137`, over an MPI
that buffers nothing. -/
theorem mpi_bandwidth_small :
    ∃ (s : Settings) (h : Accepted s)
      (r : (blockingSystem (fun _ _ => false)
        (s.config h fun _ => UInt64.ofNat)).Behaviour),
      s = ⟨10, 1, 137⟩ ∧
      (∃ i, ∀ j, i ≤ j → Over (s.config h fun _ => UInt64.ofNat) (r.state j)) ∧
      Measured 10 (s.durations fun i => (i : ℚ)) (s.result id fun i => (i : ℚ)) := by
  have hok : validate ⟨fun _ _ => 0, fun _ _ => by decide⟩ 2 [.numWarmups "1", .dataSize "137"] =
      .ok ⟨10, 1, 137⟩ := by
    rfl
  have hfits : ((137 : Nat) : Int) ≤ intMax := by decide
  obtain ⟨_, h, hruns, hresult⟩ := mpi_bandwidth (K := ℚ) id _ 2 _ _ hok hfits (by decide)
    (fun _ => UInt64.ofNat) fun _ i => i
  have hgood : Good (Settings.config ⟨10, 1, 137⟩ h fun _ => UInt64.ofNat) :=
    good_of_generated hfits (config_generated h _)
  have hranked : (blockingSystem (fun _ _ => false) _).Ranked _ := ranked hgood
  obtain ⟨r, _, hfair⟩ := System.exists_weaklyFair hranked (s := State.fresh _) rfl id
  exact ⟨_, h, r, rfl, (hruns _).2 r hfair, (hresult .zero).1 (by decide)⟩

end Akbench.Mpi
