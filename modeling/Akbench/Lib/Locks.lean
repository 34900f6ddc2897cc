/-
  Akbench.Lib.Locks
  ─────────────────
  **LOCKS AND WHO IS INSIDE OF THEM.**

  A lock knows its holder; a party, by where it is in its code, is inside of
  at most one lock.  `Agree` says that the two views are one.  A party takes a
  free lock or gives back the one it is inside of; `Agree` survives both, and
  with it there is one party at a time in a lock.
-/
import Mathlib.Logic.Function.Basic

namespace Akbench.Locks

variable {ι κ : Type*} [DecidableEq ι] [DecidableEq κ]
variable {holder : κ → Option ι} {inside : ι → Option κ} {l : κ} {p q : ι}

/-- The locks name as holders those who are inside. -/
def Agree (holder : κ → Option ι) (inside : ι → Option κ) : Prop :=
  ∀ l p, holder l = some p ↔ inside p = some l

omit [DecidableEq ι] [DecidableEq κ] in
/-- **Mutual exclusion.** -/
theorem Agree.unique (h : Agree holder inside) (hp : inside p = some l) (hq : inside q = some l) :
    p = q := by
  have hholder := (h l p).mpr hp
  rw [(h l q).mpr hq] at hholder
  injection hholder with hholder
  exact hholder.symm

/-- A party that is outside takes a free lock. -/
theorem Agree.take (h : Agree holder inside) (hfree : holder l = none) (hout : inside p = none) :
    Agree (Function.update holder l (some p)) (Function.update inside p (some l)) := by
  intro m q
  by_cases hm : m = l
  · subst hm
    rw [Function.update_self]
    by_cases hq : q = p
    · subst hq
      rw [Function.update_self]
      exact ⟨fun _ => rfl, fun _ => rfl⟩
    · rw [Function.update_of_ne hq, ← h m q, hfree]
      constructor
      · intro heq
        injection heq with heq
        exact absurd heq.symm hq
      · intro heq
        cases heq
  · rw [Function.update_of_ne hm]
    by_cases hq : q = p
    · subst hq
      rw [Function.update_self, h m q, hout]
      constructor
      · intro heq
        cases heq
      · intro heq
        injection heq with heq
        exact absurd heq.symm hm
    · rw [Function.update_of_ne hq]
      exact h m q

/-- A party gives back its lock. -/
theorem Agree.give (h : Agree holder inside) (hin : inside p = some l) :
    Agree (Function.update holder l none) (Function.update inside p none) := by
  intro m q
  by_cases hq : q = p
  · subst hq
    rw [Function.update_self]
    by_cases hm : m = l
    · subst hm
      rw [Function.update_self]
      exact ⟨nofun, nofun⟩
    · rw [Function.update_of_ne hm, h m q, hin]
      constructor
      · intro heq
        injection heq with heq
        exact absurd heq.symm hm
      · intro heq
        cases heq
  · rw [Function.update_of_ne hq]
    by_cases hm : m = l
    · subst hm
      rw [Function.update_self]
      -- nobody else was inside of this lock
      constructor
      · intro heq
        cases heq
      · intro heq
        exact absurd (h.unique heq hin) hq
    · rw [Function.update_of_ne hm]
      exact h m q

end Akbench.Locks
