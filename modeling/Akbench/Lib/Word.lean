/-
  Akbench.Lib.Word
  ────────────────
  **MACHINE ARITHMETIC ON `Nat` AND `Int`.**

  `uint64_t` and `size_t` values are modelled as naturals below `wordSize`;
  the operations wrap exactly as the machine's do.  Each comes with the lemma
  that says when the wrap does not happen, which is how a proof leaves machine
  arithmetic behind.  An `int` is an integer between `intMin` and `intMax`;
  its addition has no value outside.
-/
import Mathlib.Data.Nat.Basic
import Mathlib.Data.Int.Basic
import Mathlib.Algebra.Group.Nat.Defs
import Mathlib.Algebra.Group.Int.Defs

namespace Akbench

/-- The number of `uint64_t` values. -/
def wordSize : Nat := 2 ^ 64

/-- `a + b` in `uint64_t`. -/
def add64 (a b : Nat) : Nat := (a + b) % wordSize

/-- `a - b` in `uint64_t`: below zero it comes out `wordSize` higher. -/
def sub64 (a b : Nat) : Nat := if b ≤ a then a - b else a + wordSize - b

/-- `a * b` in `uint64_t`. -/
def mul64 (a b : Nat) : Nat := (a * b) % wordSize

theorem add64_eq {a b : Nat} (h : a + b < wordSize) : add64 a b = a + b :=
  Nat.mod_eq_of_lt h

theorem mul64_eq {a b : Nat} (h : a * b < wordSize) : mul64 a b = a * b :=
  Nat.mod_eq_of_lt h

theorem sub64_eq {a b : Nat} (hba : b ≤ a) : sub64 a b = a - b :=
  if_pos hba

/-- The smallest `int`. -/
def intMin : Int := -2 ^ 31

/-- The largest `int`. -/
def intMax : Int := 2 ^ 31 - 1

/-- The values of type `int`. -/
def IsInt (a : Int) : Prop := intMin ≤ a ∧ a ≤ intMax

instance (a : Int) : Decidable (IsInt a) := inferInstanceAs (Decidable (_ ∧ _))

/-- `a + b` in `int`; overflow is undefined. -/
def addInt (a b : Int) : Option Int := if IsInt (a + b) then some (a + b) else none

/-- An `int` converted to `size_t`. -/
def toSize (a : Int) : Nat := (a % (wordSize : Nat)).toNat

/-- A `uint64_t` converted to `int`: the low 32 bits, signed. -/
def narrowInt (n : Nat) : Int :=
  if n % 2 ^ 32 < 2 ^ 31 then (n % 2 ^ 32 : Nat) else (n % 2 ^ 32 : Nat) - 2 ^ 32

theorem addInt_eq_some_iff {a b c : Int} : addInt a b = some c ↔ IsInt (a + b) ∧ c = a + b := by
  unfold addInt
  split
  next h =>
    rw [Option.some_inj]
    exact ⟨fun hc => ⟨h, hc.symm⟩, fun hc => hc.2.symm⟩
  next h =>
    constructor
    · intro hc
      cases hc
    · intro hc
      exact absurd hc.1 h

theorem toSize_of_nonneg {a : Int} (h : 0 ≤ a) (hlt : a < (wordSize : Nat)) :
    toSize a = a.toNat := by
  unfold toSize
  rw [Int.emod_eq_of_lt h hlt]

theorem toSize_of_neg {a : Int} (h : a < 0) (hge : -(wordSize : Nat) ≤ a) :
    toSize a = (a + (wordSize : Nat)).toNat := by
  unfold toSize
  have hmod : a % (wordSize : Nat) = a + (wordSize : Nat) := by
    rw [← Int.add_emod_right, Int.emod_eq_of_lt (by omega) (by omega)]
  rw [hmod]

theorem narrowInt_isInt (n : Nat) : IsInt (narrowInt n) := by
  have hmod : n % 2 ^ 32 < 2 ^ 32 := Nat.mod_lt n (by decide)
  unfold IsInt intMin intMax narrowInt
  split
  next => omega
  next => omega

/-- **The conversion keeps the value** of what an `int` can hold, and of
nothing else. -/
theorem narrowInt_eq_iff (n : Nat) : narrowInt n = n ↔ (n : Int) ≤ intMax := by
  have hint := narrowInt_isInt n
  unfold IsInt at hint
  constructor
  · intro h
    rw [h] at hint
    exact hint.2
  · intro hle
    have hmax : intMax = 2 ^ 31 - 1 := rfl
    have hlow : n % 2 ^ 32 = n := Nat.mod_eq_of_lt (by omega)
    unfold narrowInt
    rw [hlow]
    exact if_pos (by omega)

/-- Nothing is converted to more than it was. -/
theorem narrowInt_le (n : Nat) : narrowInt n ≤ n := by
  have hle : n % 2 ^ 32 ≤ n := Nat.mod_le n _
  unfold narrowInt
  split
  next => omega
  next => omega

end Akbench
