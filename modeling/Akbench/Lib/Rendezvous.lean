/-
  Akbench.Lib.Rendezvous
  ──────────────────────
  **WHAT A BARRIER IS FOR, for any set of parties.**

  `Rendezvous ι` counts, per party, the barrier crossings it has begun
  (`entered`) and finished (`left`).  A party may leave its k-th crossing once
  every party has entered its own k-th: that is the whole specification of a
  correct barrier, with no counter, no flag and no polling in it.

    • `left_le_entered` — nobody is past a crossing that somebody else has
      not begun, in every reachable state;
    • `comap` — the same barrier with its users under other names;
    • `Side` — the two ends of a transfer, and the guard spelled out for them.

  The protocols between two processes run over `Rendezvous Side`; the barrier
  the program really uses is shown elsewhere to refine `Rendezvous (Fin n)`.
-/
import Akbench.Lib.System
import Mathlib.Data.Fintype.Basic
import Mathlib.Data.Finset.Insert

namespace Akbench

/-- Barrier crossings begun and finished, per party. -/
@[ext]
structure Rendezvous (ι : Type*) where
  entered : ι → Nat
  left : ι → Nat

namespace Rendezvous

variable {ι : Type*}

/-- Nobody has used the barrier yet. -/
def fresh : Rendezvous ι := ⟨fun _ => 0, fun _ => 0⟩

/-- Every party has entered as many crossings as `p` has. -/
def CanLeave (b : Rendezvous ι) (p : ι) : Prop :=
  ∀ q, b.entered p ≤ b.entered q

instance [Fintype ι] (b : Rendezvous ι) (p : ι) : Decidable (b.CanLeave p) :=
  inferInstanceAs (Decidable (∀ q, b.entered p ≤ b.entered q))

@[simp] theorem fresh_entered (p : ι) : (fresh : Rendezvous ι).entered p = 0 := rfl

@[simp] theorem fresh_left (p : ι) : (fresh : Rendezvous ι).left p = 0 := rfl

/-- Nobody has finished more crossings than anybody has begun. -/
def Safe (b : Rendezvous ι) : Prop :=
  ∀ p q, b.left p ≤ b.entered q

theorem safe_fresh : Safe (fresh : Rendezvous ι) := by
  intro p q
  simp

variable [DecidableEq ι]

/-- `p` begins its next crossing. -/
def arrive (b : Rendezvous ι) (p : ι) : Rendezvous ι :=
  { b with entered := Function.update b.entered p (b.entered p + 1) }

/-- `p` finishes the crossing it is in. -/
def leave (b : Rendezvous ι) (p : ι) : Rendezvous ι :=
  { b with left := Function.update b.left p (b.left p + 1) }

/-! ## §1. Frame facts of the two operations. -/

@[simp] theorem arrive_left (b : Rendezvous ι) (p : ι) : (b.arrive p).left = b.left := rfl

@[simp] theorem leave_entered (b : Rendezvous ι) (p : ι) :
    (b.leave p).entered = b.entered := rfl

@[simp] theorem arrive_entered_self (b : Rendezvous ι) (p : ι) :
    (b.arrive p).entered p = b.entered p + 1 := by
  simp [arrive]

@[simp] theorem leave_left_self (b : Rendezvous ι) (p : ι) :
    (b.leave p).left p = b.left p + 1 := by
  simp [leave]

@[simp] theorem arrive_entered_of_ne (b : Rendezvous ι) {p q : ι} (h : q ≠ p) :
    (b.arrive p).entered q = b.entered q := by
  simp [arrive, h]

@[simp] theorem leave_left_of_ne (b : Rendezvous ι) {p q : ι} (h : q ≠ p) :
    (b.leave p).left q = b.left q := by
  simp [leave, h]

theorem entered_le_arrive (b : Rendezvous ι) (p q : ι) :
    b.entered q ≤ (b.arrive p).entered q := by
  by_cases h : q = p
  · subst h
    simp
  · simp [h]

/-! ## §2. Safety. -/

theorem Safe.arrive {b : Rendezvous ι} (h : b.Safe) (p : ι) : (b.arrive p).Safe := by
  intro q r
  exact Nat.le_trans (h q r) (entered_le_arrive b p r)

theorem Safe.leave {b : Rendezvous ι} (h : b.Safe) {p : ι}
    (hin : b.left p < b.entered p) (hcan : b.CanLeave p) : (b.leave p).Safe := by
  intro q r
  by_cases hq : q = p
  · subst hq
    have hr := hcan r
    simp only [leave_left_self, leave_entered]
    omega
  · simpa [hq] using h q r

/-- What a party does at a barrier. -/
inductive Act (ι : Type*) where
  | arrive (p : ι)
  | leave (p : ι)

/-- The barrier as a system: a party outside may arrive, a party inside may
leave once everybody has entered as many crossings as it has. -/
def system (ι : Type*) [DecidableEq ι] [Fintype ι] :
    System (Rendezvous ι) (Act ι) where
  init b := b = fresh
  step b
    | .arrive p => if b.entered p = b.left p then some (b.arrive p) else none
    | .leave p =>
        if b.left p < b.entered p ∧ b.CanLeave p then some (b.leave p) else none

/-- **Safety of every reachable state of the barrier.** -/
theorem left_le_entered [Fintype ι] {b : Rendezvous ι}
    (h : (system ι).Reachable b) : b.Safe := by
  refine System.invariant (I := Safe) ?_ ?_ h
  · rintro b rfl
    exact safe_fresh
  · intro b a b' hsafe hstep
    cases a with
    | arrive p =>
        simp only [system] at hstep
        split at hstep
        · injection hstep with hstep
          subst hstep
          exact hsafe.arrive p
        · cases hstep
    | leave p =>
        simp only [system] at hstep
        split at hstep
        next hguard =>
          injection hstep with hstep
          subst hstep
          exact hsafe.leave hguard.1 hguard.2
        next => cases hstep

end Rendezvous

/-! ## §3. Renaming the parties. -/

namespace Rendezvous

variable {ι κ : Type*}

/-- The same barrier, its users under other names. -/
def comap (e : ι ≃ κ) (b : Rendezvous κ) : Rendezvous ι :=
  ⟨fun p => b.entered (e p), fun p => b.left (e p)⟩

theorem comap_canLeave (e : ι ≃ κ) (b : Rendezvous κ) (p : ι) :
    (b.comap e).CanLeave p ↔ b.CanLeave (e p) := by
  constructor
  · intro h q
    have hq := h (e.symm q)
    simpa only [comap, e.apply_symm_apply] using hq
  · intro h q
    exact h (e q)

variable [DecidableEq ι] [DecidableEq κ]

theorem comap_arrive (e : ι ≃ κ) (b : Rendezvous κ) (p : ι) :
    (b.arrive (e p)).comap e = (b.comap e).arrive p := by
  apply Rendezvous.ext
  · funext q
    by_cases hq : q = p
    · subst hq
      simp [comap]
    · simp [comap, hq]
  · rfl

theorem comap_leave (e : ι ≃ κ) (b : Rendezvous κ) (p : ι) :
    (b.leave (e p)).comap e = (b.comap e).leave p := by
  apply Rendezvous.ext
  · rfl
  · funext q
    by_cases hq : q = p
    · subst hq
      simp [comap]
    · simp [comap, hq]

end Rendezvous

/-! ## §4. Two parties. -/

/-- The two ends of a transfer. -/
inductive Side where
  | sender
  | receiver
  deriving DecidableEq, Repr

instance : Fintype Side where
  elems := {.sender, .receiver}
  complete p := by cases p <;> simp

theorem Rendezvous.canLeave_sender (b : Rendezvous Side) :
    b.CanLeave .sender ↔ b.entered .sender ≤ b.entered .receiver := by
  constructor
  · intro h
    exact h .receiver
  · intro h q
    cases q with
    | sender => exact Nat.le_refl _
    | receiver => exact h

theorem Rendezvous.canLeave_receiver (b : Rendezvous Side) :
    b.CanLeave .receiver ↔ b.entered .receiver ≤ b.entered .sender := by
  constructor
  · intro h
    exact h .sender
  · intro h q
    cases q with
    | sender => exact h
    | receiver => exact Nat.le_refl _

end Akbench
