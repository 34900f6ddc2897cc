/-
  Akbench.Common.Log
  ──────────────────
  **`aklog`.**

  A message below the level that is set is dropped; one of level `FATAL`
  aborts the process after it was written.  No level that can be set drops a
  `FATAL` message.
-/
import Akbench.Common.Statistics

namespace Akbench

/-- `aklog::LogLevel`. -/
inductive LogLevel where
  | debug | info | warning | error | fatal
  deriving DecidableEq, Repr

/-- The value of the enumerator. -/
def LogLevel.rank : LogLevel → Nat
  | .debug => 0
  | .info => 1
  | .warning => 2
  | .error => 3
  | .fatal => 4

/-- `aklog::log`, with `g_log_level` given. -/
def aklog (gLogLevel level : LogLevel) : Except Failure Unit :=
  if level.rank < gLogLevel.rank then .ok ()
  else if level = .fatal then .error .aborted
  else .ok ()

/-- `aklog::check`. -/
def akcheck (gLogLevel : LogLevel) (condition : Bool) : Except Failure Unit :=
  if condition then .ok () else aklog gLogLevel .fatal

variable {gLogLevel level : LogLevel}

/-- **A `FATAL` message aborts at every log level.** -/
@[simp] theorem aklog_fatal : aklog gLogLevel .fatal = .error .aborted := by
  unfold aklog
  have hrank : ¬ LogLevel.fatal.rank < gLogLevel.rank := by
    cases gLogLevel <;> decide
  rw [if_neg hrank, if_pos rfl]

/-- Any other message is without consequence. -/
theorem aklog_of_ne_fatal (h : level ≠ .fatal) : aklog gLogLevel level = .ok () := by
  unfold aklog
  rw [if_neg h]
  split
  next => rfl
  next => rfl

@[simp] theorem akcheck_true : akcheck gLogLevel true = .ok () := rfl

@[simp] theorem akcheck_false : akcheck gLogLevel false = .error .aborted := aklog_fatal

end Akbench
