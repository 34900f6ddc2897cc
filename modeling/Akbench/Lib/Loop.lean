/-
  Akbench.Lib.Loop
  ────────────────
  **COUNTED LOOPS WITH A BODY THAT MAY FAIL.**

  Computations are `Except`; §1 has the inversion lemmas for a sequence of
  two.
  `forLoop body n i s` is `for (; i < i₀ + n; ++i)` begun at `i = i₀`: it takes
  `n` turns with a counter that goes up by one, and the first failure of the
  body ends it.

    • `forLoop_preserves` — the invariant rule: the loop ends and keeps what
      each turn keeps;
    • `forLoop_error` — a turn that always fails is the end of the loop.
-/
import Mathlib.Data.Nat.Basic

namespace Akbench

/-! ## §1. Sequences of computations. -/

section

variable {ε α β : Type*} {x : Except ε α} {b : β} {e : ε}

theorem map_eq_ok {f : α → β} (h : x.map f = .ok b) : ∃ a, x = .ok a ∧ b = f a := by
  cases x with
  | error e => cases h
  | ok a =>
      injection h with h
      exact ⟨a, rfl, h.symm⟩

theorem map_eq_error {f : α → β} (h : x.map f = .error e) : x = .error e := by
  cases x with
  | error e' =>
      injection h with h
      rw [h]
  | ok a => cases h

theorem bind_eq_ok {f : α → Except ε β} (h : x.bind f = .ok b) :
    ∃ a, x = .ok a ∧ f a = .ok b := by
  cases x with
  | error e => cases h
  | ok a => exact ⟨a, rfl, h⟩

theorem bind_eq_error {f : α → Except ε β} (h : x.bind f = .error e) :
    x = .error e ∨ ∃ a, x = .ok a ∧ f a = .error e := by
  cases x with
  | error e' =>
      injection h with h
      left
      rw [h]
  | ok a => exact Or.inr ⟨a, rfl, h⟩

theorem mapError_eq_ok {ε' : Type*} {f : ε → ε'} {a : α} (h : x.mapError f = .ok a) :
    x = .ok a := by
  cases x with
  | error e => cases h
  | ok b =>
      injection h with h
      rw [h]

theorem mapError_eq_error {ε' : Type*} {f : ε → ε'} {e' : ε'} (h : x.mapError f = .error e') :
    ∃ e, x = .error e ∧ e' = f e := by
  cases x with
  | error e =>
      injection h with h
      exact ⟨e, rfl, h.symm⟩
  | ok a => cases h

end

/-! ## §2. Loops. -/

variable {ε σ : Type*} {body : Nat → σ → Except ε σ}

/-- `turns` turns of `body`, the counter starting at `i`. -/
def forLoop (body : Nat → σ → Except ε σ) : Nat → Nat → σ → Except ε σ
  | 0, _, s => .ok s
  | turns + 1, i, s => (body i s).bind (forLoop body turns (i + 1))

@[simp] theorem forLoop_zero (i : Nat) (s : σ) : forLoop body 0 i s = .ok s := rfl

theorem forLoop_succ (turns i : Nat) (s : σ) :
    forLoop body (turns + 1) i s = (body i s).bind (forLoop body turns (i + 1)) := rfl

/-- **The invariant rule.** -/
theorem forLoop_preserves (Inv : Nat → σ → Prop) (turns i : Nat) (s : σ)
    (hbody : ∀ j s, i ≤ j → j < i + turns → Inv j s →
      ∃ s', body j s = .ok s' ∧ Inv (j + 1) s')
    (hstart : Inv i s) :
    ∃ s', forLoop body turns i s = .ok s' ∧ Inv (i + turns) s' := by
  induction turns generalizing i s with
  | zero => exact ⟨s, rfl, hstart⟩
  | succ turns ih =>
      obtain ⟨s₁, hturn, hinv⟩ := hbody i s (Nat.le_refl i) (by omega) hstart
      obtain ⟨s₂, hrest, hend⟩ := ih (i + 1) s₁
        (fun j s hij hj => hbody j s (by omega) (by omega)) hinv
      refine ⟨s₂, ?_, ?_⟩
      · rw [forLoop_succ, hturn]
        exact hrest
      · have hcount : i + 1 + turns = i + (turns + 1) := by omega
        rwa [hcount] at hend

/-- **A turn that always fails ends the loop**, if no turn fails otherwise. -/
theorem forLoop_error {e : ε} {turns i k : Nat} {s : σ} (hik : i ≤ k) (hk : k < i + turns)
    (hfail : ∀ s, body k s = .error e)
    (honly : ∀ j s, (∃ s', body j s = .ok s') ∨ body j s = .error e) :
    forLoop body turns i s = .error e := by
  induction turns generalizing i s with
  | zero => omega
  | succ turns ih =>
      rw [forLoop_succ]
      obtain ⟨s₁, hturn⟩ | hturn := honly i s
      · rw [hturn]
        have hki : k ≠ i := by
          intro hki
          subst hki
          rw [hfail] at hturn
          cases hturn
        exact ih (by omega) (by omega)
      · rw [hturn]
        rfl

end Akbench
