/-
  Akbench.Driver.Getopt
  ─────────────────────
  **`getopt_utils.h`: NUMBERS FROM OPTION ARGUMENTS.**

  `ParseInt` and `ParseUint64` read a decimal number that takes up the whole
  string; `ParseUint64` also reads a shift expression such as `1 << 30`, with
  spaces anywhere.  Both throw `std::invalid_argument` on anything else.

  A shift by 64 or more has no defined value; what the machine makes of it is
  the parameter `overshift`.
-/
import Akbench.Lib.Word
import Mathlib.Data.List.Basic

namespace Akbench.Driver

/-- What the machine makes of `base << shift` when `64 ≤ shift`. -/
structure Overshift where
  value : Nat → Nat → Nat
  value_lt : ∀ base shift, value base shift < wordSize

/-! ## §1. `std::from_chars`, on strings it has to use up. -/

/-- A non-empty run of decimal digits. -/
def decimal (s : List Char) : Option Nat :=
  if s ≠ [] ∧ s.all Char.isDigit then
    some (s.foldl (fun n c => 10 * n + (c.toNat - '0'.toNat)) 0)
  else none

/-- The digits of a `uint64_t`. -/
def fromCharsUint64 (s : List Char) : Option Nat :=
  match decimal s with
  | none => none
  | some n => if n < wordSize then some n else none

/-- The digits of an `int`, perhaps with a minus sign. -/
def fromCharsInt (s : List Char) : Option Int :=
  match s with
  -- `from_chars` takes no plus sign
  | '-' :: digits =>
      match decimal digits with
      | none => none
      | some n => if intMin ≤ -(n : Int) then some (-(n : Int)) else none
  | digits =>
      match decimal digits with
      | none => none
      | some n => if (n : Int) ≤ intMax then some n else none

/-! ## §2. The parsers. -/

/-- The string before the first `<<` and the one after it. -/
def splitShift : List Char → Option (List Char × List Char)
  | [] => none
  | '<' :: '<' :: rest => some ([], rest)
  | c :: rest => (splitShift rest).map fun (front, back) => (c :: front, back)

/-- `base << shift`. -/
def shiftLeft (overshift : Overshift) (base shift : Nat) : Nat :=
  if shift < 64 then base * 2 ^ shift % wordSize else overshift.value base shift

/-- The text of the exception. -/
def invalidUint64 (str : String) : String := "Invalid uint64_t value: '" ++ str ++ "'"

/-- The text of the exception. -/
def invalidInt (str : String) : String := "Invalid int value: '" ++ str ++ "'"

/-- `ParseUint64`; `none` is `std::nullopt`. -/
def parseUint64 (overshift : Overshift) (str : String) : Except String (Option Nat) :=
  let s := str.toList
  if s = [] then .ok none
  else
    -- a plain number first
    match fromCharsUint64 s with
    | some value => .ok (some value)
    | none =>
        match splitShift s with
        | none => .error (invalidUint64 str)
        | some (baseStr, shiftStr) =>
            -- spaces are erased from both sides
            match fromCharsUint64 (baseStr.filter (· ≠ ' ')),
                fromCharsUint64 (shiftStr.filter (· ≠ ' ')) with
            | some base, some shift => .ok (some (shiftLeft overshift base shift))
            | _, _ => .error (invalidUint64 str)

/-- `ParseInt`. -/
def parseInt (str : String) : Except String Int :=
  let s := str.toList
  if s = [] then .error "Empty string cannot be parsed as int"
  else
    match fromCharsInt s with
    | some value => .ok value
    | none => .error (invalidInt str)

/-! ## §3. The values are of their types. -/

theorem fromCharsUint64_lt {s : List Char} {n : Nat} (h : fromCharsUint64 s = some n) :
    n < wordSize := by
  unfold fromCharsUint64 at h
  split at h
  next => cases h
  next =>
    split at h
    next hlt =>
      injection h with h
      rwa [← h]
    next => cases h

theorem fromCharsInt_isInt {s : List Char} {a : Int} (h : fromCharsInt s = some a) : IsInt a := by
  have hmin : intMin = -2 ^ 31 := rfl
  have hmax : intMax = 2 ^ 31 - 1 := rfl
  unfold fromCharsInt at h
  unfold IsInt
  split at h
  next =>
    split at h
    next => cases h
    next n =>
      split at h
      next hle =>
        injection h with h
        omega
      next => cases h
  next =>
    split at h
    next => cases h
    next n =>
      split at h
      next hle =>
        injection h with h
        omega
      next => cases h

theorem shiftLeft_lt (overshift : Overshift) (base shift : Nat) :
    shiftLeft overshift base shift < wordSize := by
  unfold shiftLeft
  split
  next => exact Nat.mod_lt _ (by decide)
  next => exact overshift.value_lt base shift

/-- **`ParseUint64` returns values of `uint64_t`.** -/
theorem parseUint64_lt {overshift : Overshift} {str : String} {n : Nat}
    (h : parseUint64 overshift str = .ok (some n)) : n < wordSize := by
  unfold parseUint64 at h
  dsimp only at h
  split at h
  next => cases h
  next =>
    split at h
    next value hvalue =>
      injection h with h
      injection h with h
      rw [← h]
      exact fromCharsUint64_lt hvalue
    next =>
      split at h
      next => cases h
      next =>
        split at h
        next base shift _ _ =>
          injection h with h
          injection h with h
          rw [← h]
          exact shiftLeft_lt overshift base shift
        next => cases h

/-- **`ParseInt` returns values of `int`.** -/
theorem parseInt_isInt {str : String} {a : Int} (h : parseInt str = .ok a) : IsInt a := by
  unfold parseInt at h
  dsimp only at h
  split at h
  next => cases h
  next =>
    split at h
    next value hvalue =>
      injection h with h
      rw [← h]
      exact fromCharsInt_isInt hvalue
    next => cases h

end Akbench.Driver
