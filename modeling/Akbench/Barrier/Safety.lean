/-
  Akbench.Barrier.Safety
  ──────────────────────
  **`Wait()` IS A CORRECT BARRIER.**

  Seen through its call counts, the sense-reversing barrier refines the
  counter-free specification `Rendezvous (Fin n)`: beginning a call is an
  arrival, returning from it is a departure, and everything in between (the
  polls, the flip) is invisible.  Safety is then the specification's; absence
  of lost releases and of stuck states is read off the round invariant.
-/
import Akbench.Barrier.Rounds

namespace Akbench.Barrier

variable {n k rounds : Nat} {s s' : State n} {p : Fin n}

/-! ## §1. Refinement. -/

/-- The barrier as its specification sees it. -/
def rendezvousOf (s : State n) : Rendezvous (Fin n) where
  entered p := (s.users p).entered
  left p := (s.users p).completed

/-- One participant's counts. -/
theorem rendezvousOf_setUser (s : State n) (p : Fin n) (u : User) :
    rendezvousOf (s.setUser p u) =
      ⟨Function.update (rendezvousOf s).entered p u.entered,
        Function.update (rendezvousOf s).left p u.completed⟩ := by
  apply Rendezvous.ext
  · funext q
    by_cases hq : q = p
    · subst hq
      simp [rendezvousOf]
    · simp [rendezvousOf, hq]
  · funext q
    by_cases hq : q = p
    · subst hq
      simp [rendezvousOf]
    · simp [rendezvousOf, hq]

theorem rendezvousOf_setUser_arrive (s : State n) (p : Fin n) (u : User)
    (hent : u.entered = (s.users p).entered + 1)
    (hcomp : u.completed = (s.users p).completed) :
    rendezvousOf (s.setUser p u) = (rendezvousOf s).arrive p := by
  rw [rendezvousOf_setUser, hent, hcomp]
  exact congrArg (Rendezvous.mk _) (Function.update_eq_self p (rendezvousOf s).left)

theorem rendezvousOf_setUser_leave (s : State n) (p : Fin n) (u : User)
    (hent : u.entered = (s.users p).entered)
    (hcomp : u.completed = (s.users p).completed + 1) :
    rendezvousOf (s.setUser p u) = (rendezvousOf s).leave p := by
  have hsame : Function.update (rendezvousOf s).entered p (s.users p).entered =
      (rendezvousOf s).entered := Function.update_eq_self p _
  rw [rendezvousOf_setUser, hent, hcomp, hsame]
  rfl

theorem rendezvousOf_setUser_same (s : State n) (p : Fin n) (u : User)
    (hent : u.entered = (s.users p).entered)
    (hcomp : u.completed = (s.users p).completed) :
    rendezvousOf (s.setUser p u) = rendezvousOf s := by
  have hsame : Function.update (rendezvousOf s).entered p (s.users p).entered =
      (rendezvousOf s).entered := Function.update_eq_self p _
  rw [rendezvousOf_setUser, hent, hcomp, hsame]
  exact congrArg (Rendezvous.mk _) (Function.update_eq_self p (rendezvousOf s).left)

theorem arrive_step {b : Rendezvous (Fin n)} (h : b.entered p = b.left p) :
    (Rendezvous.system (Fin n)).step b (.arrive p) = some (b.arrive p) := by
  show (if b.entered p = b.left p then _ else none) = _
  rw [if_pos h]

theorem leave_step {b : Rendezvous (Fin n)} (hin : b.left p < b.entered p)
    (hcan : b.CanLeave p) :
    (Rendezvous.system (Fin n)).step b (.leave p) = some (b.leave p) := by
  show (if b.left p < b.entered p ∧ b.CanLeave p then _ else none) = _
  rw [if_pos ⟨hin, hcan⟩]

/-- **Every step of `Wait()` is a step of the specification, or none.** -/
theorem waitStep_refines (h : RoundInv n k s) (hs : waitStep n rounds s p = some s') :
    (Rendezvous.system (Fin n)).Steps (fun _ _ => True) (rendezvousOf s) (rendezvousOf s') := by
  rcases waitStep_cases hs with ⟨hpc, _, _, hs'⟩ | ⟨hpc, _, _, hs'⟩ | ⟨_, _, hs'⟩ |
    ⟨_, _, hs'⟩ | ⟨hpc, hs'⟩
  · have hidle := h.idle hpc
    rw [hs', rendezvousOf_setUser_arrive _ _ _ (by rfl) (by rfl)]
    exact System.Steps.single (arrive_step (hidle.1.trans hidle.2.symm))
  · have hidle := h.idle hpc
    rw [hs', rendezvousOf_setUser_arrive _ _ _ (by rfl) (by rfl)]
    exact System.Steps.single (arrive_step (hidle.1.trans hidle.2.symm))
  · rw [hs']
    exact .refl _
  · rw [hs', rendezvousOf_setUser_same _ _ _ (by rfl) (by rfl)]
    exact .refl _
  · have hpass := h.passed hpc
    rw [hs', rendezvousOf_setUser_leave _ _ _ (by rfl) (by rfl)]
    apply System.Steps.single
    apply leave_step
    · show (s.users p).completed < (s.users p).entered
      omega
    · intro q
      have hq := h.entered_bounds q
      show (s.users p).entered ≤ (s.users q).entered
      omega

/-- **The sense-reversing barrier refines the barrier specification.** -/
theorem wait_refines (hn : n < wordSize) (h : (waitSystem n rounds).Reachable s) :
    (Rendezvous.system (Fin n)).Reachable (rendezvousOf s) := by
  refine System.reachable_map (I := fun t => 0 < n → ∃ k, RoundInv n k t) rendezvousOf
    (fun t ht hpos => exists_round hpos hn ht) ?_ ?_ h
  · intro t ht
    show rendezvousOf t = Rendezvous.fresh
    apply Rendezvous.ext
    · funext q
      simp [rendezvousOf, ht.2.2 q, User.fresh]
    · funext q
      simp [rendezvousOf, ht.2.2 q, User.fresh]
  · intro t q t' hk hst
    obtain ⟨k, hk⟩ := hk q.pos
    exact waitStep_refines hk hst

/-- **Barrier safety.**  Nobody has returned from its k-th call before
everybody has begun theirs, so the completed calls differ by at most one. -/
theorem wait_safe (n rounds : Nat) (hn : n < wordSize) (s : State n)
    (h : (waitSystem n rounds).Reachable s) (p q : Fin n) :
    (∀ k, k ≤ (s.users p).completed → k ≤ (s.users q).entered) ∧
      (s.users p).completed ≤ (s.users q).completed + 1 := by
  have hsafe := Rendezvous.left_le_entered (wait_refines hn h)
  obtain ⟨k, hk⟩ := exists_round p.pos hn h
  have hp := hk.entered_bounds p
  have hq := hk.entered_bounds q
  constructor
  · intro j hj
    exact Nat.le_trans hj (hsafe p q)
  · omega

/-- Two participants, the second already back from its first call. -/
theorem wait_safe_two :
    ∃ s : State 2, (waitSystem 2 3).Reachable s ∧ (s.users 1).completed = 1 ∧
      (s.users 0).completed = 0 ∧ 1 ≤ (s.users 0).entered := by
  have hinit : (waitSystem 2 3).init State.fresh := ⟨rfl, rfl, fun _ => rfl⟩
  have hrun : ∃ s : State 2, (waitSystem 2 3).Reachable s ∧ (s.users 1).completed = 1 ∧
      (s.users 0).completed = 0 :=
    ⟨_, System.reachable_of_exec [0, 1, 1] hinit rfl,
      by decide, by decide⟩
  obtain ⟨s, hs, h1, h0⟩ := hrun
  exact ⟨s, hs, h1, h0, (wait_safe 2 3 (by decide) s hs 1 0).1 1 (by omega)⟩

/-! ## §2. No release is lost, no state is stuck. -/

/-- A participant polling in a call that has been released sees it. -/
theorem RoundInv.released (h : RoundInv n k s) (hpc : (s.users p).pc = .polling)
    (hent : (s.users p).entered ≤ k) : s.shm.sharedSense = (s.users p).sense := by
  rcases h.polling hpc with hu | hu
  · omega
  · exact hu.2.2

/-- Some participant with calls left to finish can move on. -/
theorem RoundInv.progress (h : RoundInv n k s) (hle : ∀ q, (s.users q).entered ≤ rounds)
    (hp : (s.users p).completed < rounds) :
    ∃ q s', (s.users q).completed < rounds ∧ waitStep n rounds s q = some s' ∧ s' ≠ s := by
  by_cases hpass : ∃ q, (s.users q).pc = .passed
  · -- somebody is about to return
    obtain ⟨q, hq⟩ := hpass
    have hu := h.passed hq
    have hqle := hle q
    refine ⟨q, _, by omega, waitStep_return hq, State.ne_of_user_ne q ?_⟩
    rw [State.setUser_self]
    intro heq
    have hc := congrArg User.completed heq
    dsimp only at hc
    omega
  by_cases hrel : ∃ q, (s.users q).pc = .polling ∧ s.shm.sharedSense = (s.users q).sense
  · -- somebody polls a sense that has already been flipped for it
    obtain ⟨q, hq, hsense⟩ := hrel
    have hqle := hle q
    have hlt : (s.users q).completed < rounds := by
      rcases h.polling hq with hu | hu
      · exact absurd hsense hu.2.2
      · omega
    refine ⟨q, _, hlt, waitStep_poll hq hsense, State.ne_of_user_ne q ?_⟩
    rw [State.setUser_self]
    intro heq
    have hc := congrArg User.pc heq
    rw [hq] at hc
    cases hc
  -- nobody is about to return and no poll can succeed: everybody is idle or waiting
  have hplace : ∀ q, (s.users q).pc = .idle ∨ (s.users q).entered = k + 1 := by
    intro q
    cases hq : (s.users q).pc with
    | idle => exact Or.inl rfl
    | polling =>
        rcases h.polling hq with hu | hu
        · exact Or.inr hu.1
        · exact absurd ⟨q, hq, hu.2.2⟩ hrel
    | passed => exact absurd ⟨q, hq⟩ hpass
  have hkr : k < rounds := by
    rcases hplace p with hq | hq
    · have hu := h.idle hq
      omega
    · have hpe := hle p
      omega
  have hidle : ∃ q, (s.users q).pc = .idle := by
    by_contra hnone
    have hall : waiting k s = Finset.univ := by
      apply Finset.filter_true_of_mem
      intro q _
      rcases hplace q with hq | hq
      · exact absurd ⟨q, hq⟩ hnone
      · exact hq
    have hcount := h.count_eq
    have hlt := h.count_lt
    rw [hall, Finset.card_univ, Fintype.card_fin] at hcount
    omega
  obtain ⟨q, hq⟩ := hidle
  have hu := h.idle hq
  obtain ⟨s', hstep, hent⟩ := waitStep_idle hq (show (s.users q).entered < rounds by omega)
  refine ⟨q, s', by omega, hstep, State.ne_of_user_ne q ?_⟩
  intro heq
  rw [heq] at hent
  omega

/-- **No lost release.**  (a) Once a participant has flipped the sense in its
k-th call, everybody found polling in its own k-th call at any later state
sees the flag equal to its sense.  (b) While somebody has calls left, some
participant has an enabled step other than a failed poll. -/
theorem wait_no_lost_release (n rounds : Nat) (hn : n < wordSize) (s : State n)
    (h : (waitSystem n rounds).Reachable s) :
    (∀ (q p : Fin n) (s₁ s₂ : State n),
        (waitSystem n rounds).step s q = some s₁ →
        s₁.shm.sharedSense ≠ s.shm.sharedSense →
        (waitSystem n rounds).Steps (fun _ _ => True) s₁ s₂ →
        (s₂.users p).pc = .polling →
        (s₂.users p).entered = (s₁.users q).entered →
        s₂.shm.sharedSense = (s₂.users p).sense) ∧
      ((∃ p, (s.users p).completed < rounds) → (waitSystem n rounds).CanProgress s) := by
  constructor
  · intro q p s₁ s₂ hstep hflip hrun hpc hent
    obtain ⟨k, hk⟩ := exists_round q.pos hn h
    rcases hk.step hn hstep with ⟨_, hsame⟩ | ⟨hk', _, hentq⟩
    · exact absurd hsame hflip
    · obtain ⟨j, hj, hinv⟩ := hk'.steps hn hrun
      exact hinv.released hpc (by omega)
  · intro hp
    obtain ⟨p, hp⟩ := hp
    obtain ⟨k, hk⟩ := exists_round p.pos hn h
    obtain ⟨q, s', _, hstep, hne⟩ := hk.progress (entered_le_rounds h) hp
    exact ⟨q, s', hstep, hne⟩

/-- The second of two participants flips the sense while the first polls; when
it is back and in its next call, the first still sees the flag. -/
theorem wait_no_lost_release_two :
    ∃ s : State 2, (waitSystem 2 3).Reachable s ∧ (s.users 0).pc = .polling ∧
      (s.users 1).entered = 2 ∧ s.shm.sharedSense = (s.users 0).sense ∧
      (waitSystem 2 3).CanProgress s := by
  have hinit : (waitSystem 2 3).init State.fresh := ⟨rfl, rfl, fun _ => rfl⟩
  -- the run up to the flip, the flip, and what the second participant does next
  have hbefore : (waitSystem 2 3).Reachable _ := System.reachable_of_exec [0] hinit rfl
  have hflip := (wait_no_lost_release 2 3 (by decide) _ hbefore).1 1 0 _ _ rfl (by decide)
    (System.steps_of_exec [1, 1] rfl) (by decide) (by decide)
  have hafter : (waitSystem 2 3).Reachable _ :=
    System.reachable_of_exec [0, 1, 1, 1] hinit rfl
  exact ⟨_, hafter, by decide, by decide, hflip,
    (wait_no_lost_release 2 3 (by decide) _ hafter).2 ⟨0, by decide⟩⟩

end Akbench.Barrier
