/-
  Akbench.Barrier.Termination
  ───────────────────────────
  **EVERY FAIR RUN OF A BARRIER'S LIFE ENDS, AND LEAVES NOTHING BEHIND.**

  The polls are the only steps of the barrier that can be repeated for ever,
  and a failed poll changes nothing.  Counting what each participant has still
  to do gives a rank that every other step lowers; together with the absence
  of hangs (`Akbench.Barrier.Hang`) this is termination under weak fairness.

    • `waitStep_rank`, `lifeStep_rank` — the two ranks and their descent;
    • `lifecycle_terminates` — all calls are made, all destructors have
      returned, both names are unlinked.
-/
import Akbench.Barrier.Hang
import Akbench.Lib.Termination

namespace Akbench.Barrier

variable {n rounds : Nat} {s s' : State n} {g g' : Group n} {p : Fin n}

/-! ## §1. What is left to do. -/

/-- Steps left in a call. -/
def WaitPc.rank : WaitPc → Nat
  | .idle => 0
  | .polling => 2
  | .passed => 1

/-- Steps left in a participant's `rounds` calls. -/
def User.rank (rounds : Nat) (u : User) : Nat := 3 * (rounds - u.entered) + u.pc.rank

/-- Steps left in the destructor after its section. -/
def Cleanup.rank : Cleanup → Nat
  | .semClose => 5
  | .semUnlink => 4
  | .munmap => 3
  | .shmClose => 2
  | .shmUnlink => 1
  | .done => 0

/-- Steps left in the constructor and the destructor. -/
def LifePc.rank : LifePc → Nat
  | .start => 10
  | .opened => 9
  | .mapped => 8
  | .joining => 7
  | .running => 6
  | .departed _ todo => todo.rank

theorem LifePc.rank_departed (last : Bool) (todo : Cleanup) :
    (LifePc.departed last todo).rank = todo.rank := rfl

/-- What participant `p` has still to do. -/
def Group.rankOf (rounds : Nat) (g : Group n) (p : Fin n) : Nat :=
  (g.life p).rank + (g.wait.users p).rank rounds

/-- What the whole group has still to do. -/
def Group.rank (rounds : Nat) (g : Group n) : Nat := ∑ p, g.rankOf rounds p

/-! ## §2. Every step but a failed poll lowers the rank. -/

theorem waitStep_rank (hs : waitStep n rounds s p = some s') (hne : s' ≠ s) :
    (s'.users p).rank rounds < (s.users p).rank rounds := by
  rcases waitStep_cases hs with ⟨hpc, hlt, _, rfl⟩ | ⟨hpc, hlt, _, rfl⟩ | ⟨_, _, rfl⟩ |
    ⟨hpc, _, rfl⟩ | ⟨hpc, rfl⟩
  · -- the call begun leaves `rounds - entered`, and at most two steps remain in it
    simp only [State.setUser_self, User.rank, WaitPc.rank, hpc]
    omega
  · simp only [State.setUser_self, User.rank, WaitPc.rank, hpc]
    omega
  · exact absurd rfl hne
  · simp only [State.setUser_self, User.rank, WaitPc.rank, hpc]
    omega
  · simp only [State.setUser_self, User.rank, WaitPc.rank, hpc]
    omega

theorem cleanupStep_rank {last : Bool} {todo : Cleanup}
    (hc : cleanupStep g p last todo = some g') : (g'.life p).rank < todo.rank := by
  cases todo with
  | semClose =>
      injection hc with hc
      subst hc
      rw [Group.setLife_self]
      cases last <;> decide
  | shmClose =>
      injection hc with hc
      subst hc
      rw [Group.setLife_self]
      cases last <;> decide
  | semUnlink | munmap | shmUnlink =>
      injection hc with hc
      subst hc
      show ((g.setLife p _).life p).rank < _
      rw [Group.setLife_self, LifePc.rank_departed]
      decide
  | done => cases hc

/-- A participant's own rank falls. -/
theorem lifeStep_rankOf (hs : lifeStep n rounds g p = some g') (hne : g' ≠ g) :
    g'.rankOf rounds p < g.rankOf rounds p := by
  cases lifeMove_of_step hs with
  | semOpen hl | openExisting hl | create hl | join hl | letIn hl =>
      show ((g.setLife p _).life p).rank + _ < (g.life p).rank + _
      rw [Group.setLife_self, hl]
      exact Nat.add_lt_add_right (by decide) _
  | pollFails => exact absurd rfl hne
  | wait hl hlt w hw =>
      have hmoved : w ≠ g.wait := by
        intro heq
        apply hne
        rw [heq]
      exact Nat.add_lt_add_left (waitStep_rank hw hmoved) _
  | depart hl =>
      show ((g.setLife p _).life p).rank + _ < (g.life p).rank + _
      rw [Group.setLife_self, hl, LifePc.rank_departed]
      exact Nat.add_lt_add_right (by decide) _
  | cleanup last todo hl g' hc =>
      have hlower := cleanupStep_rank hc
      obtain ⟨hwait, _⟩ := cleanupStep_frame hc
      show (g'.life p).rank + (g'.wait.users p).rank rounds <
        (g.life p).rank + (g.wait.users p).rank rounds
      rw [hwait, hl]
      exact Nat.add_lt_add_right hlower _

/-- A step of `p` is in nobody else's calls. -/
theorem lifeStep_user_of_ne {q : Fin n} (hs : lifeStep n rounds g p = some g') (hq : q ≠ p) :
    g'.wait.users q = g.wait.users q := by
  cases lifeMove_of_step hs with
  | wait hl hlt w hw => exact waitStep_users_of_ne hw hq
  | cleanup last todo hl g' hc => rw [(cleanupStep_frame hc).1]
  | semOpen | openExisting | create | join | letIn | pollFails | depart => rfl

/-- And nobody else's changes. -/
theorem lifeStep_rankOf_of_ne {q : Fin n} (hs : lifeStep n rounds g p = some g') (hq : q ≠ p) :
    g'.rankOf rounds q = g.rankOf rounds q := by
  unfold Group.rankOf
  rw [lifeStep_life_of_ne hs hq, lifeStep_user_of_ne hs hq]

theorem lifeStep_rank (hs : lifeStep n rounds g p = some g') (hne : g' ≠ g) :
    g'.rank rounds < g.rank rounds :=
  sum_rank_lt (lifeStep_rankOf hs hne) fun _ hq => lifeStep_rankOf_of_ne hs hq

/-! ## §3. Termination. -/

/-- A participant has begun every call it has returned from. -/
theorem RoundInv.completed_le {k : Nat} (h : RoundInv n k s) (q : Fin n) :
    (s.users q).completed ≤ (s.users q).entered := by
  cases hpc : (s.users q).pc with
  | idle =>
      have hu := h.idle hpc
      omega
  | polling =>
      have hu := h.polling hpc
      omega
  | passed =>
      have hu := h.passed hpc
      omega

/-- How a group is left behind. -/
structure Dissolved (rounds : Nat) (g : Group n) : Prop where
  /-- Every destructor has returned. -/
  finished : ∀ q, (g.life q).isFinished = true
  /-- Every call has been made. -/
  completed : ∀ q, (g.wait.users q).completed = rounds
  /-- Both names are unlinked. -/
  names : g.semName = false ∧ g.shmName = false

theorem Live.dissolved {k : Nat} (h : Live rounds k g)
    (hall : ∀ q, (g.life q).isFinished = true) : Dissolved rounds g where
  finished := hall
  completed q := by
    obtain ⟨last, hl⟩ := LifePc.departed_of_isFinished (hall q)
    have hge := h.departed q (by rw [hl]; rfl)
    have hle := h.round.completed_le q
    have hent := h.entered_le q
    omega
  names := h.names_gone hall

/-- A group is dissolved once its destructors have returned. -/
theorem dissolved_of_finished (hpos : 0 < n) (hn : n < wordSize)
    (hg : (lifeSystem n rounds).Reachable g) (hall : ∀ q, (g.life q).isFinished = true) :
    Dissolved rounds g := by
  rcases phase_of_reachable hn hg with hu | ⟨k, hk⟩
  · exfalso
    have hq := hall ⟨0, hpos⟩
    rcases hu.life ⟨0, hpos⟩ with hl | hl
    · rw [hl] at hq
      cases hq
    · rw [hl] at hq
      cases hq
  · exact hk.dissolved hall

/-- Some step other than a failed poll is enabled until the group is
dissolved. -/
theorem canProgress_of_not_dissolved (hpos : 0 < n) (hn : n < wordSize)
    (hR : n = 1 ∨ 1 ≤ rounds) (hg : (lifeSystem n rounds).Reachable g)
    (hmore : ¬ Dissolved rounds g) : (lifeSystem n rounds).CanProgress g := by
  by_cases hall : ∀ q, (g.life q).isFinished = true
  · exact absurd (dissolved_of_finished hpos hn hg hall) hmore
  · push Not at hall
    obtain ⟨q, hq⟩ := hall
    exact (neverHangs_of hn hR g hg).1 ⟨q, by simpa using hq⟩

/-- **Every weakly fair run of the lives of `n` participants ends**: each has
made its `rounds` calls and left its destructor, and neither name exists. -/
theorem lifecycle_terminates (n rounds : Nat) (hpos : 0 < n) (hn : n < wordSize)
    (hR : n = 1 ∨ 1 ≤ rounds) (r : (lifeSystem n rounds).Behaviour) (hfair : r.WeaklyFair id) :
    ∃ i, ∀ j, i ≤ j → Dissolved rounds (r.state j) := by
  have hranked : (lifeSystem n rounds).Ranked (Group.rank rounds) := by
    intro g p g' _ hs hne
    exact lifeStep_rank hs hne
  obtain ⟨i, hi, hstay⟩ := r.terminates hranked
    (fun g hg hmore => canProgress_of_not_dissolved hpos hn hR hg hmore) hfair
  refine ⟨i, fun j hij => ?_⟩
  rw [hstay j hij]
  exact hi

/-- A run of two participants with one call each, to its end. -/
def bothThrough : List (Fin 2) :=
  [0, 1, 0, 1, 0, 1, 0, 1, 0, 1, 0, 0, 1, 0, 0, 0, 0, 1, 1, 1, 1, 1, 1]

theorem lifecycle_terminates_two :
    ∃ r : (lifeSystem 2 1).Behaviour, r.WeaklyFair id ∧
      ∃ i, ∀ j, i ≤ j → Dissolved 1 (r.state j) := by
  have hend : ∀ p, ((lifeSystem 2 1).exec (Group.initial ShmData.fresh) bothThrough).any
      (fun g => (lifeStep 2 1 g p).isNone) = true := by
    decide
  obtain ⟨g, hg⟩ : ∃ g, (lifeSystem 2 1).exec (Group.initial ShmData.fresh) bothThrough = some g :=
    ⟨_, rfl⟩
  rw [hg] at hend
  let r := System.Behaviour.ofSchedule bothThrough (Group.initial_init ShmData.fresh) hg
  have hfair : r.WeaklyFair id := System.Behaviour.weaklyFair_of_ended
    (Group.initial_init ShmData.fresh) hg fun p => Option.isNone_iff_eq_none.mp (hend p)
  exact ⟨r, hfair, lifecycle_terminates 2 1 (by decide) (by decide) (.inr (by decide)) _ hfair⟩

end Akbench.Barrier
