/-
  Akbench.Lib.Lockstep
  ────────────────────
  **TWO PARTIES THAT MAKE THE SAME NUMBER OF CROSSINGS PER ROUND.**

  Both parties run rounds of `period` barrier crossings each.  A `Place` is
  how far a party is: its round, and how many crossings of that round it has
  entered and left.  The barrier alone then ties the two places together:

    • `Lockstep.together` — while a party is past the first crossing of its
      round and short of the last one, the other is in the same round, at
      most one crossing away;
    • `Lockstep.arrive`, `Lockstep.leave`, `Lockstep.stay` — how steps of one
      party move the places;
    • `Lockstep.canLeave_of_finished` — a party that has made all its rounds
      holds nobody up.

  Crossings made before the first round are a constant `offset`.
-/
import Akbench.Lib.Rendezvous

namespace Akbench

/-- How far a party is. -/
structure Place where
  round : Nat
  /-- Crossings of this round entered. -/
  entered : Nat
  /-- Crossings of this round left. -/
  left : Nat
  deriving DecidableEq, Repr

/-- A barrier and the places of its two users. -/
structure Lockstep (period offset : Nat) (b : Rendezvous Side) (place : Side → Place) :
    Prop where
  entered : ∀ p, b.entered p + offset = (place p).round * period + (place p).entered
  left : ∀ p, b.left p + offset = (place p).round * period + (place p).left
  left_le : ∀ p, (place p).left ≤ (place p).entered
  entered_le : ∀ p, (place p).entered ≤ period
  safe : b.Safe

namespace Lockstep

variable {period offset : Nat} {b : Rendezvous Side} {place place' : Side → Place} {p q : Side}

/-- **Same round, at most one crossing apart.** -/
theorem together (h : Lockstep period offset b place) (hpast : 1 ≤ (place p).left)
    (hshort : (place p).entered < period) (q : Side) :
    (place q).round = (place p).round ∧ (place p).left ≤ (place q).entered ∧
      (place q).left ≤ (place p).entered := by
  have hpq := h.safe p q
  have hqp := h.safe q p
  have hep := h.entered p
  have heq := h.entered q
  have hlp := h.left p
  have hlq := h.left q
  have hle := h.entered_le q
  have hround : (place q).round = (place p).round := by
    rcases Nat.lt_trichotomy (place q).round (place p).round with hlt | heq' | hgt
    · -- `q` cannot have finished its round before `p` got past the barrier
      exfalso
      have hmul : (place q).round * period + period ≤ (place p).round * period := by
        rw [← Nat.succ_mul]
        exact Nat.mul_le_mul_right period hlt
      omega
    · exact heq'
    · exfalso
      have hmul : (place p).round * period + period ≤ (place q).round * period := by
        rw [← Nat.succ_mul]
        exact Nat.mul_le_mul_right period hgt
      omega
  rw [hround] at heq hlq
  exact ⟨hround, by omega, by omega⟩

/-- A party outside the barrier enters its next crossing. -/
theorem arrive (h : Lockstep period offset b place) (hother : ∀ q, q ≠ p → place' q = place q)
    (hround : (place' p).round = (place p).round)
    (hentered : (place' p).entered = (place p).entered + 1)
    (hleft : (place' p).left = (place p).left) (hle : (place' p).entered ≤ period) :
    Lockstep period offset (b.arrive p) place' where
  entered q := by
    by_cases hq : q = p
    · subst hq
      have hb := h.entered q
      rw [Rendezvous.arrive_entered_self, hround, hentered]
      omega
    · rw [Rendezvous.arrive_entered_of_ne b hq, hother q hq]
      exact h.entered q
  left q := by
    by_cases hq : q = p
    · subst hq
      rw [Rendezvous.arrive_left, hround, hleft]
      exact h.left q
    · rw [Rendezvous.arrive_left, hother q hq]
      exact h.left q
  left_le q := by
    by_cases hq : q = p
    · subst hq
      have hb := h.left_le q
      omega
    · rw [hother q hq]
      exact h.left_le q
  entered_le q := by
    by_cases hq : q = p
    · rw [hq]
      exact hle
    · rw [hother q hq]
      exact h.entered_le q
  safe := h.safe.arrive p

/-- A party inside the barrier leaves its crossing. -/
theorem leave (h : Lockstep period offset b place) (hother : ∀ q, q ≠ p → place' q = place q)
    (hround : (place' p).round = (place p).round)
    (hentered : (place' p).entered = (place p).entered)
    (hleft : (place' p).left = (place p).left + 1)
    (hinside : (place p).left < (place p).entered) (hcan : b.CanLeave p) :
    Lockstep period offset (b.leave p) place' where
  entered q := by
    by_cases hq : q = p
    · subst hq
      rw [Rendezvous.leave_entered, hround, hentered]
      exact h.entered q
    · rw [Rendezvous.leave_entered, hother q hq]
      exact h.entered q
  left q := by
    by_cases hq : q = p
    · subst hq
      have hb := h.left q
      rw [Rendezvous.leave_left_self, hround, hleft]
      omega
    · rw [Rendezvous.leave_left_of_ne b hq, hother q hq]
      exact h.left q
  left_le q := by
    by_cases hq : q = p
    · subst hq
      omega
    · rw [hother q hq]
      exact h.left_le q
  entered_le q := by
    by_cases hq : q = p
    · subst hq
      have hb := h.entered_le q
      omega
    · rw [hother q hq]
      exact h.entered_le q
  safe := by
    apply h.safe.leave
    · have he := h.entered p
      have hl := h.left p
      omega
    · exact hcan

/-- A party moves without the barrier; the end of a round is the beginning of
the next. -/
theorem stay (h : Lockstep period offset b place) (hother : ∀ q, q ≠ p → place' q = place q)
    (hmove : place' p = place p ∨
      ((place p).left = period ∧ place' p = ⟨(place p).round + 1, 0, 0⟩)) :
    Lockstep period offset b place' := by
  rcases hmove with hsame | ⟨hend, hnext⟩
  · have heq : place' = place := by
      funext q
      by_cases hq : q = p
      · rw [hq, hsame]
      · exact hother q hq
    rw [heq]
    exact h
  · have hle := h.left_le p
    have hpe := h.entered_le p
    have he := h.entered p
    have hl := h.left p
    have hmul := Nat.succ_mul (place p).round period
    refine ⟨?_, ?_, ?_, ?_, h.safe⟩
    · intro q
      by_cases hq : q = p
      · rw [hq, hnext]
        show b.entered p + offset = (place p).round.succ * period + 0
        omega
      · rw [hother q hq]
        exact h.entered q
    · intro q
      by_cases hq : q = p
      · rw [hq, hnext]
        show b.left p + offset = (place p).round.succ * period + 0
        omega
      · rw [hother q hq]
        exact h.left q
    · intro q
      by_cases hq : q = p
      · rw [hq, hnext]
      · rw [hother q hq]
        exact h.left_le q
    · intro q
      by_cases hq : q = p
      · rw [hq, hnext]
        exact Nat.zero_le period
      · rw [hother q hq]
        exact h.entered_le q

/-! The same for a party whose place is known. -/

section Known

variable {i e l : Nat}

theorem arrive_from (h : Lockstep period offset b place)
    (hother : ∀ q, q ≠ p → place' q = place q) (hfrom : place p = ⟨i, e, l⟩)
    (hto : place' p = ⟨i, e + 1, l⟩) (hlt : e < period) :
    Lockstep period offset (b.arrive p) place' := by
  apply h.arrive hother
  · rw [hfrom, hto]
  · rw [hfrom, hto]
  · rw [hfrom, hto]
  · rw [hto]
    exact hlt

theorem leave_from (h : Lockstep period offset b place)
    (hother : ∀ q, q ≠ p → place' q = place q) (hfrom : place p = ⟨i, e, l⟩)
    (hto : place' p = ⟨i, e, l + 1⟩) (hlt : l < e) (hcan : b.CanLeave p) :
    Lockstep period offset (b.leave p) place' := by
  refine h.leave hother ?_ ?_ ?_ ?_ hcan
  · rw [hfrom, hto]
  · rw [hfrom, hto]
  · rw [hfrom, hto]
  · rw [hfrom]
    exact hlt

theorem stay_from (h : Lockstep period offset b place)
    (hother : ∀ q, q ≠ p → place' q = place q) (hfrom : place p = ⟨i, e, l⟩)
    (hto : place' p = ⟨i, e, l⟩) : Lockstep period offset b place' :=
  h.stay hother (.inl (hto.trans hfrom.symm))

theorem next_from (h : Lockstep period offset b place)
    (hother : ∀ q, q ≠ p → place' q = place q) (hfrom : place p = ⟨i, e, period⟩)
    (hto : place' p = ⟨i + 1, 0, 0⟩) : Lockstep period offset b place' := by
  refine h.stay hother (.inr ⟨?_, ?_⟩)
  · rw [hfrom]
  · rw [hfrom, hto]

end Known

/-- A party in an earlier round than another's may always leave. -/
theorem canLeave_of_finished (h : Lockstep period offset b place)
    (hlt : ∀ q, q ≠ p → (place p).round < (place q).round) : b.CanLeave p := by
  intro q
  by_cases hq : q = p
  · rw [hq]
  · have hep := h.entered p
    have heq := h.entered q
    have hle := h.entered_le p
    have hmul : (place p).round * period + period ≤ (place q).round * period := by
      rw [← Nat.succ_mul]
      exact Nat.mul_le_mul_right period (hlt q hq)
    omega

end Lockstep

/-- Of two parties inside a barrier one may leave. -/
theorem Rendezvous.canLeave_or (b : Rendezvous Side) :
    b.CanLeave .sender ∨ b.CanLeave .receiver := by
  rw [Rendezvous.canLeave_sender, Rendezvous.canLeave_receiver]
  omega

end Akbench
