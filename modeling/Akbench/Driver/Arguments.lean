/-
  Akbench.Driver.Arguments
  ────────────────────────
  **`main`, UP TO THE DISPATCH.**

  The command line is what `getopt_long` makes of it: the options in their
  order, each with its argument, and the operands.  `validate` reads the options
  and makes the checks of `main` one after the other; the first that fails
  ends the process with status 1.

    • `checkSettings_ok_iff` — what settings that pass all checks satisfy;
    • `validate_ok`, `validate_inRange` — what is known of a validated line.
-/
import Akbench.Driver.Getopt
import Akbench.Common.Checksum
import Akbench.Common.Log
import Akbench.Lib.Loop

namespace Akbench.Driver

/-! ## §1. Command lines. -/

/-- What `getopt_long` returns, with `optarg`. -/
inductive Getopt where
  | numIterations (optarg : String)
  | numWarmups (optarg : String)
  | loopSize (optarg : String)
  | dataSize (optarg : String)
  | bufferSize (optarg : String)
  | numThreads (optarg : String)
  | logLevel (optarg : String)
  | jsonOutput
  | help
  /-- `'?'`: an unknown option or a missing argument. -/
  | invalid
  deriving DecidableEq, Repr

structure CommandLine where
  options : List Getopt
  /-- `argv[optind]` and what follows. -/
  operands : List String
  deriving DecidableEq, Repr

/-- The global variables of the driver, with their defaults. -/
structure Settings where
  type : String := ""
  numIterations : Int := 10
  numWarmups : Int := 3
  loopSize : Option Nat := none
  dataSize : Nat := 2 ^ 30
  bufferSize : Option Nat := none
  numThreads : Option Nat := none
  logLevel : String := "WARNING"
  jsonOutput : Bool := false
  deriving DecidableEq, Repr

/-- `DEFAULT_BUFFER_SIZE`. -/
def defaultBufferSize : Nat := 2 ^ 20

/-- `buffer_size_opt.value_or(DEFAULT_BUFFER_SIZE)`. -/
def Settings.buffer (s : Settings) : Nat := s.bufferSize.getD defaultBufferSize

/-! ## §2. Rejections. -/

/-- Why `main` returns 1. -/
inductive Rejection where
  /-- `getopt_long` has printed the message. -/
  | getopt
  | exception (what : String)
  | missingType
  | tooManyArguments (argument : String)
  | emptyType
  | tooFewIterations (numIterations : Int)
  | bufferNotApplicable (type : String)
  | threadsNotApplicable
  | zeroThreads (numThreads : Nat)
  | zeroBuffer (bufferSize : Nat)
  | bufferTooLarge (bufferSize dataSize : Nat)
  | dataTooSmall (dataSize : Nat)
  | invalidLogLevel (logLevel : String)
  | unknownType (type : String)
  deriving DecidableEq, Repr

/-- The list at the end of two of the messages. -/
def availableTypes : String :=
  "Available types:\nLatency tests: latency_atomic, latency_atomic_rel_acq, latency_barrier, " ++
    "latency_condition_variable, latency_semaphore, latency_statfs, latency_fstatfs, " ++
    "latency_getpid, latency_all\nBandwidth tests: bandwidth_memcpy, bandwidth_memcpy_mt, " ++
    "bandwidth_tcp, bandwidth_uds, bandwidth_pipe, bandwidth_fifo, bandwidth_mq, " ++
    "bandwidth_mmap, bandwidth_shm, bandwidth_all\nCombined: all"

/-- The message. -/
def Rejection.message : Rejection → String
  | getopt => ""
  | exception what => what
  | missingType => "Missing required argument: TYPE"
  | tooManyArguments argument => "Too many arguments. Expected only TYPE, got: " ++ argument
  | emptyType => "Must specify TYPE as first argument. " ++ availableTypes
  | tooFewIterations n => "num_iterations must be at least 3, got: " ++ toString n
  | bufferNotApplicable type =>
      "Buffer size option is not applicable to " ++ type ++ " benchmark type"
  | threadsNotApplicable =>
      "Number of threads option is only applicable to bandwidth_memcpy_mt benchmark type"
  | zeroThreads n => "num_threads must be greater than 0, got: " ++ toString n
  | zeroBuffer n => "buffer_size must be greater than 0, got: " ++ toString n
  | bufferTooLarge b d =>
      "buffer_size (" ++ toString b ++ ") cannot be larger than data_size (" ++ toString d ++ ")"
  | dataTooSmall d =>
      "data_size must be larger than CHECKSUM_SIZE (" ++ toString checksumSize ++ "), got: " ++
        toString d
  | invalidLogLevel level =>
      "Invalid log level: " ++ level ++ ". Available levels: INFO, DEBUG, WARNING, ERROR"
  | unknownType type => "Unknown benchmark type: " ++ type ++ ". " ++ availableTypes

/-- Why `main` returns before the dispatch. -/
inductive Stop where
  /-- `--help`: the usage text, status 0. -/
  | usage
  | rejected (r : Rejection)
  deriving DecidableEq, Repr

/-! ## §3. Options. -/

/-- An exception caught by the option loop. -/
def caught {α : Type} : Except String α → Except Stop α
  | .ok a => .ok a
  | .error what => .error (.rejected (.exception what))

/-- One turn of the option loop. -/
def applyOption (overshift : Overshift) (s : Settings) : Getopt → Except Stop Settings
  | .numIterations arg => (caught (parseInt arg)).map fun n => { s with numIterations := n }
  | .numWarmups arg => (caught (parseInt arg)).map fun n => { s with numWarmups := n }
  | .loopSize arg => (caught (parseUint64 overshift arg)).map fun n => { s with loopSize := n }
  | .dataSize arg =>
      (caught (parseUint64 overshift arg)).bind fun n =>
        match n with
        | some n => .ok { s with dataSize := n }
        -- `.value()` of an empty optional
        | none => .error (.rejected (.exception "bad optional access"))
  | .bufferSize arg => (caught (parseUint64 overshift arg)).map fun n => { s with bufferSize := n }
  | .numThreads arg => (caught (parseUint64 overshift arg)).map fun n => { s with numThreads := n }
  | .logLevel arg => .ok { s with logLevel := arg }
  | .jsonOutput => .ok { s with jsonOutput := true }
  | .help => .error .usage
  | .invalid => .error (.rejected .getopt)

/-- The option loop. -/
def parseOptions (overshift : Overshift) (s : Settings) : List Getopt → Except Stop Settings
  | [] => .ok s
  | o :: rest => (applyOption overshift s o).bind fun s => parseOptions overshift s rest

/-- The one operand. -/
def parseOperands : List String → Except Stop String
  | [] => .error (.rejected .missingType)
  | [type] => .ok type
  | _ :: extra :: _ => .error (.rejected (.tooManyArguments extra))

/-! ## §4. Checks. -/

/-- `s.find(front) == 0`. -/
def startsWith (front s : String) : Prop := front.toList <+: s.toList

instance (front s : String) : Decidable (startsWith front s) :=
  inferInstanceAs (Decidable (_ <+: _))

/-- The types whose buffer size `main` validates. -/
def ValidatesBuffer (type : String) : Prop :=
  startsWith "bandwidth_" type ∧ type ≠ "bandwidth_memcpy" ∧ type ≠ "bandwidth_memcpy_mt"

/-- The types whose data size `main` validates. -/
def ValidatesData (type : String) : Prop :=
  startsWith "bandwidth_" type ∨ type = "bandwidth_all" ∨ type = "all"

instance (type : String) : Decidable (ValidatesBuffer type) :=
  inferInstanceAs (Decidable (_ ∧ _))

instance (type : String) : Decidable (ValidatesData type) :=
  inferInstanceAs (Decidable (_ ∨ _))

/-- The level to set. -/
def parseLogLevel (level : String) : Option LogLevel :=
  if level = "INFO" then some .info
  else if level = "DEBUG" then some .debug
  else if level = "WARNING" then some .warning
  else if level = "ERROR" then some .error
  else none

/-- The checks of `main`, in their order. -/
def checkSettings (s : Settings) : Except Rejection LogLevel :=
  if s.type = "" then .error .emptyType
  else if s.numIterations < 3 then .error (.tooFewIterations s.numIterations)
  else if (s.type = "bandwidth_memcpy" ∨ s.type = "bandwidth_memcpy_mt") ∧
      s.bufferSize.isSome then .error (.bufferNotApplicable s.type)
  else if s.type ≠ "bandwidth_memcpy_mt" ∧ s.numThreads.isSome then .error .threadsNotApplicable
  else if s.type = "bandwidth_memcpy_mt" ∧ s.numThreads = some 0 then .error (.zeroThreads 0)
  else if ValidatesBuffer s.type ∧ s.buffer = 0 then .error (.zeroBuffer s.buffer)
  else if ValidatesBuffer s.type ∧ s.dataSize < s.buffer then
    .error (.bufferTooLarge s.buffer s.dataSize)
  else if ValidatesData s.type ∧ s.dataSize ≤ checksumSize then .error (.dataTooSmall s.dataSize)
  else
    match parseLogLevel s.logLevel with
    | some level => .ok level
    | none => .error (.invalidLogLevel s.logLevel)

/-- From the command line to checked settings. -/
def validate (overshift : Overshift) (line : CommandLine) : Except Stop Settings :=
  (parseOptions overshift {} line.options).bind fun s =>
    (parseOperands line.operands).bind fun type =>
      let s := { s with type := type }
      match checkSettings s with
      | .error r => .error (.rejected r)
      | .ok _ => .ok s

/-! ## §5. What validated settings satisfy. -/

/-- **What the checks establish.** -/
structure Checked (s : Settings) : Prop where
  type_ne : s.type ≠ ""
  iterations : 3 ≤ s.numIterations
  noBuffer : s.type = "bandwidth_memcpy" ∨ s.type = "bandwidth_memcpy_mt" → s.bufferSize = none
  noThreads : s.type ≠ "bandwidth_memcpy_mt" → s.numThreads = none
  threads : s.type = "bandwidth_memcpy_mt" → s.numThreads ≠ some 0
  buffer_pos : ValidatesBuffer s.type → 0 < s.buffer
  buffer_le : ValidatesBuffer s.type → s.buffer ≤ s.dataSize
  data : ValidatesData s.type → checksumSize < s.dataSize
  level : parseLogLevel s.logLevel ≠ none

/-- A check that lets the settings through. -/
theorem ite_error_eq_ok {ε α : Type*} {p : Prop} [Decidable p] {e : ε} {x : Except ε α} {a : α} :
    (if p then Except.error e else x) = .ok a ↔ ¬ p ∧ x = .ok a := by
  split
  next hp => exact ⟨nofun, fun h => absurd hp h.1⟩
  next hp => exact ⟨fun h => ⟨hp, h⟩, fun h => h.2⟩

theorem checkSettings_ok_iff {s : Settings} :
    (∃ level, checkSettings s = .ok level) ↔ Checked s := by
  unfold checkSettings
  -- one check after the other, and the level at the end
  simp only [ite_error_eq_ok]
  constructor
  · intro hok
    obtain ⟨level, h₁, h₂, h₃, h₄, h₅, h₆, h₇, h₈, hlevel⟩ := hok
    constructor
    · exact h₁
    · omega
    · intro htype
      have hnone : ¬ s.bufferSize.isSome := fun hsome => h₃ ⟨htype, hsome⟩
      exact Option.not_isSome_iff_eq_none.mp hnone
    · intro htype
      have hnone : ¬ s.numThreads.isSome := fun hsome => h₄ ⟨htype, hsome⟩
      exact Option.not_isSome_iff_eq_none.mp hnone
    · intro htype hzero
      exact h₅ ⟨htype, hzero⟩
    · intro hvalidates
      have hne : s.buffer ≠ 0 := fun hzero => h₆ ⟨hvalidates, hzero⟩
      omega
    · intro hvalidates
      have hnot : ¬ s.dataSize < s.buffer := fun hlt => h₇ ⟨hvalidates, hlt⟩
      omega
    · intro hvalidates
      have hnot : ¬ s.dataSize ≤ checksumSize := fun hle => h₈ ⟨hvalidates, hle⟩
      omega
    · intro hnone
      rw [hnone] at hlevel
      cases hlevel
  · intro h
    have hiterations := h.iterations
    obtain ⟨level, hlevel⟩ := Option.ne_none_iff_exists'.mp h.level
    refine ⟨level, h.type_ne, by omega, ?_, ?_, ?_, ?_, ?_, ?_, ?_⟩
    · rintro ⟨htype, hsome⟩
      rw [h.noBuffer htype] at hsome
      cases hsome
    · rintro ⟨htype, hsome⟩
      rw [h.noThreads htype] at hsome
      cases hsome
    · rintro ⟨htype, hzero⟩
      exact h.threads htype hzero
    · rintro ⟨hvalidates, hzero⟩
      have hpos := h.buffer_pos hvalidates
      omega
    · rintro ⟨hvalidates, hlt⟩
      have hle := h.buffer_le hvalidates
      omega
    · rintro ⟨hvalidates, hle⟩
      have hlt := h.data hvalidates
      omega
    · rw [hlevel]

variable {overshift : Overshift} {line : CommandLine} {s s' : Settings}

theorem parseOperands_eq_ok {operands : List String} {type : String}
    (h : parseOperands operands = .ok type) : operands = [type] := by
  match operands, h with
  | [type'], h =>
      injection h with h
      rw [h]

/-- The last step of `validate`. -/
theorem checked_eq_ok {t : Settings}
    (h : (match checkSettings t with
      | .error r => .error (Stop.rejected r)
      | .ok _ => .ok t) = Except.ok s) : t = s ∧ Checked s := by
  split at h
  next => cases h
  next level hlevel =>
    injection h with h
    rw [← h]
    exact ⟨rfl, checkSettings_ok_iff.mp ⟨level, hlevel⟩⟩

/-- **A validated line** has one operand, and its settings pass the checks. -/
theorem validate_ok (h : validate overshift line = .ok s) :
    line.operands = [s.type] ∧ Checked s := by
  obtain ⟨t, _, hrest⟩ := bind_eq_ok h
  obtain ⟨type, htype, hchecks⟩ := bind_eq_ok hrest
  obtain ⟨hs, hchecked⟩ := checked_eq_ok hchecks
  rw [parseOperands_eq_ok htype, ← hs] at *
  exact ⟨rfl, hchecked⟩

theorem validate_eq_ok {type : String} (hoptions : parseOptions overshift {} line.options = .ok s)
    (hoperands : line.operands = [type]) (hchecked : Checked { s with type := type }) :
    validate overshift line = .ok { s with type := type } := by
  obtain ⟨level, hlevel⟩ := checkSettings_ok_iff.mpr hchecked
  show (parseOptions overshift {} line.options).bind _ = _
  rw [hoptions, hoperands]
  show (match checkSettings { s with type := type } with
    | .error r => .error (Stop.rejected r)
    | .ok _ => .ok { s with type := type }) = Except.ok _
  rw [hlevel]

/-! ## §6. Options step by step. -/

/-- Every setting is a value of its type. -/
structure InRange (s : Settings) : Prop where
  numIterations : IsInt s.numIterations
  numWarmups : IsInt s.numWarmups
  loopSize : ∀ n, s.loopSize = some n → n < wordSize
  dataSize : s.dataSize < wordSize
  bufferSize : ∀ n, s.bufferSize = some n → n < wordSize
  numThreads : ∀ n, s.numThreads = some n → n < wordSize

/-- The defaults are. -/
theorem inRange_default : InRange {} where
  numIterations := by decide
  numWarmups := by decide
  loopSize := fun _ h => by cases h
  dataSize := by decide
  bufferSize := fun _ h => by cases h
  numThreads := fun _ h => by cases h

theorem caught_eq_ok {α : Type} {x : Except String α} {a : α} (h : caught x = .ok a) :
    x = .ok a := by
  unfold caught at h
  split at h
  next =>
    injection h with h
    rw [h]
  next => cases h

/-- A size argument is in range whatever it is stored in. -/
theorem caught_parseUint64_lt {arg : String} {v : Option Nat}
    (h : caught (parseUint64 overshift arg) = .ok v) : ∀ n, v = some n → n < wordSize := by
  intro n hn
  subst hn
  exact parseUint64_lt (caught_eq_ok h)

/-- **Step lemma.** -/
theorem InRange.applyOption (hs : InRange s) {o : Getopt}
    (h : applyOption overshift s o = .ok s') : InRange s' := by
  cases o with
  | numIterations arg =>
      obtain ⟨n, hn, hs'⟩ := map_eq_ok h
      subst hs'
      exact { hs with numIterations := parseInt_isInt (caught_eq_ok hn) }
  | numWarmups arg =>
      obtain ⟨n, hn, hs'⟩ := map_eq_ok h
      subst hs'
      exact { hs with numWarmups := parseInt_isInt (caught_eq_ok hn) }
  | loopSize arg =>
      obtain ⟨v, hv, hs'⟩ := map_eq_ok h
      subst hs'
      exact { hs with loopSize := caught_parseUint64_lt hv }
  | dataSize arg =>
      obtain ⟨v, hv, hs'⟩ := bind_eq_ok h
      match v, hv, hs' with
      | some n, hn, hs' =>
          injection hs' with hs'
          subst hs'
          exact { hs with dataSize := parseUint64_lt (caught_eq_ok hn) }
      | none, _, hs' => cases hs'
  | bufferSize arg =>
      obtain ⟨v, hv, hs'⟩ := map_eq_ok h
      subst hs'
      exact { hs with bufferSize := caught_parseUint64_lt hv }
  | numThreads arg =>
      obtain ⟨v, hv, hs'⟩ := map_eq_ok h
      subst hs'
      exact { hs with numThreads := caught_parseUint64_lt hv }
  | logLevel arg =>
      injection h with hs'
      subst hs'
      exact { hs with }
  | jsonOutput =>
      injection h with hs'
      subst hs'
      exact { hs with }
  | help => cases h
  | invalid => cases h

/-- **Run lemma.** -/
theorem InRange.parseOptions (hs : InRange s) {options : List Getopt}
    (h : parseOptions overshift s options = .ok s') : InRange s' := by
  induction options generalizing s with
  | nil =>
      injection h with h
      rwa [← h]
  | cons o rest ih =>
      obtain ⟨t, ht, hrest⟩ := bind_eq_ok h
      exact ih (hs.applyOption ht) hrest

/-- Validated settings are in range. -/
theorem validate_inRange (h : validate overshift line = .ok s) : InRange s := by
  obtain ⟨t, ht, hrest⟩ := bind_eq_ok h
  obtain ⟨type, _, hchecks⟩ := bind_eq_ok hrest
  have hrange := inRange_default.parseOptions ht
  rw [← (checked_eq_ok hchecks).1]
  exact { hrange with }

/-! ## §7. Only `--help` leads to the usage text. -/

theorem caught_ne_usage {α : Type} (x : Except String α) : caught x ≠ .error .usage := by
  intro h
  unfold caught at h
  split at h <;> cases h

/-- **Step lemma.** -/
theorem applyOption_ne_usage {o : Getopt} (ho : o ≠ .help) :
    applyOption overshift s o ≠ .error .usage := by
  intro h
  cases o with
  | numIterations arg => exact caught_ne_usage _ (map_eq_error h)
  | numWarmups arg => exact caught_ne_usage _ (map_eq_error h)
  | loopSize arg => exact caught_ne_usage _ (map_eq_error h)
  | dataSize arg =>
      obtain hparse | ⟨v, _, hv⟩ := bind_eq_error h
      · exact caught_ne_usage _ hparse
      · cases v with
        | some n => cases hv
        | none => cases hv
  | bufferSize arg => exact caught_ne_usage _ (map_eq_error h)
  | numThreads arg => exact caught_ne_usage _ (map_eq_error h)
  | logLevel arg => cases h
  | jsonOutput => cases h
  | help => exact ho rfl
  | invalid => cases h

/-- **Run lemma.** -/
theorem parseOptions_ne_usage {options : List Getopt} (h : .help ∉ options) :
    parseOptions overshift s options ≠ .error .usage := by
  induction options generalizing s with
  | nil => exact fun husage => by cases husage
  | cons o rest ih =>
      intro husage
      obtain hstep | ⟨t, _, hrest⟩ := bind_eq_error husage
      · have ho : o ≠ .help := fun ho => h (by rw [ho]; exact List.mem_cons_self)
        exact applyOption_ne_usage ho hstep
      · exact ih (fun hmem => h (List.mem_cons_of_mem o hmem)) hrest

/-- **A line without `--help` is validated or rejected.** -/
theorem validate_cases (h : .help ∉ line.options) :
    (∃ s, validate overshift line = .ok s) ∨
      ∃ r, validate overshift line = .error (.rejected r) := by
  cases hvalid : validate overshift line with
  | ok s => exact Or.inl ⟨s, rfl⟩
  | error stop =>
      right
      cases stop with
      | rejected r => exact ⟨r, rfl⟩
      | usage =>
          exfalso
          obtain hoptions | ⟨t, _, hrest⟩ := bind_eq_error hvalid
          · exact parseOptions_ne_usage h hoptions
          · obtain hoperand | ⟨type, _, hchecks⟩ := bind_eq_error hrest
            · unfold parseOperands at hoperand
              split at hoperand <;> cases hoperand
            · dsimp only at hchecks
              split at hchecks <;> cases hchecks

end Akbench.Driver
