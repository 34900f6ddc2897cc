/-
  Akbench.Barrier.Rounds
  ──────────────────────
  **THE ROUND INVARIANT of the sense-reversing barrier.**

  `RoundInv n k s` describes the states in which the shared sense has been
  flipped exactly `k` times.  Every participant is in one of four places:

      idle        k calls begun, k completed
      waiting     k+1 begun, k completed      (polling, sense still reversed)
      released    k begun, k-1 completed      (polling, sense already equal)
      passed      k begun, k-1 completed      (about to return)

  and `count_` is the number of waiting ones, always below `n`.  A fast
  participant one round ahead is a waiting one; a slow poller of the previous
  round is a released one; the single bit tells the two apart because the
  private senses of rounds k-1 and k differ.

  `RoundInv.step` says how a step moves it: the round stays, or the last
  participant to arrive moves everybody to round k+1 at once.
-/
import Akbench.Barrier.Wait
import Mathlib.Data.Fintype.Card

namespace Akbench.Barrier

/-! ## §1. The invariant. -/

/-- The private sense after `c` completed calls. -/
def senseOf (c : Nat) : Bool := c % 2 == 0

@[simp] theorem senseOf_zero : senseOf 0 = true := rfl

theorem senseOf_succ (c : Nat) : senseOf (c + 1) = !senseOf c := by
  unfold senseOf
  rcases Nat.mod_two_eq_zero_or_one c with h | h
  · have h' : (c + 1) % 2 = 1 := by omega
    rw [h, h']
    rfl
  · have h' : (c + 1) % 2 = 0 := by omega
    rw [h, h']
    rfl

/-- Where a participant can be after `k` flips. -/
def UserOk (k : Nat) (u : User) : Prop :=
  u.sense = senseOf u.completed ∧
    match u.pc with
    | .idle => u.entered = k ∧ u.completed = k
    | .polling =>
        (u.entered = k + 1 ∧ u.completed = k) ∨ (u.entered = k ∧ u.completed + 1 = k)
    | .passed => u.entered = k ∧ u.completed + 1 = k

/-- The participants counted in for the round in progress. -/
def waiting {n : Nat} (k : Nat) (s : State n) : Finset (Fin n) :=
  Finset.univ.filter fun p => (s.users p).entered = k + 1

/-- The shared sense has been flipped `k` times. -/
structure RoundInv (n k : Nat) (s : State n) : Prop where
  count_eq : s.shm.count = (waiting k s).card
  count_lt : s.shm.count < n
  shared : s.shm.sharedSense = !senseOf k
  user : ∀ p, UserOk k (s.users p)

/-! ## §2. What the invariant says of one participant. -/

variable {n k rounds : Nat} {s s' : State n} {p : Fin n}

theorem RoundInv.idle (h : RoundInv n k s) (hpc : (s.users p).pc = .idle) :
    (s.users p).entered = k ∧ (s.users p).completed = k := by
  have hu := (h.user p).2
  simpa [hpc] using hu

theorem RoundInv.polling (h : RoundInv n k s) (hpc : (s.users p).pc = .polling) :
    ((s.users p).entered = k + 1 ∧ (s.users p).completed = k ∧
        s.shm.sharedSense ≠ (s.users p).sense) ∨
      ((s.users p).entered = k ∧ (s.users p).completed + 1 = k ∧
        s.shm.sharedSense = (s.users p).sense) := by
  obtain ⟨hsense, hu⟩ := h.user p
  simp only [hpc] at hu
  rcases hu with ⟨he, hc⟩ | ⟨he, hc⟩
  · left
    refine ⟨he, hc, ?_⟩
    rw [h.shared, hsense, hc]
    simp
  · right
    refine ⟨he, hc, ?_⟩
    rw [h.shared, hsense, ← hc, senseOf_succ]
    simp

theorem RoundInv.passed (h : RoundInv n k s) (hpc : (s.users p).pc = .passed) :
    (s.users p).entered = k ∧ (s.users p).completed + 1 = k := by
  have hu := (h.user p).2
  simpa [hpc] using hu

/-- Nobody is more than one call ahead of the flips, nobody is behind. -/
theorem RoundInv.entered_bounds (h : RoundInv n k s) (p : Fin n) :
    k ≤ (s.users p).entered ∧ (s.users p).entered ≤ k + 1 ∧
      (s.users p).completed ≤ k ∧ k ≤ (s.users p).completed + 1 := by
  cases hpc : (s.users p).pc with
  | idle =>
      have hu := h.idle hpc
      omega
  | polling =>
      rcases h.polling hpc with hu | hu <;> omega
  | passed =>
      have hu := h.passed hpc
      omega

/-! ## §3. One step. -/

theorem waiting_setUser_of_entered (k : Nat) (s : State n) (p : Fin n) (u : User)
    (hu : u.entered = (s.users p).entered) : waiting k (s.setUser p u) = waiting k s := by
  ext q
  by_cases hq : q = p
  · subst hq
    simp [waiting, hu]
  · simp [waiting, hq]

theorem waiting_congr (k : Nat) {s t : State n} (h : t.users = s.users) :
    waiting k t = waiting k s := by
  unfold waiting
  rw [h]

/-- Steps that touch neither the segment nor the call count of `p` keep the
round. -/
theorem RoundInv.setUser (h : RoundInv n k s) {u : User}
    (hent : u.entered = (s.users p).entered) (hok : UserOk k u) :
    RoundInv n k (s.setUser p u) where
  count_eq := by
    rw [waiting_setUser_of_entered k s p u hent]
    exact h.count_eq
  count_lt := h.count_lt
  shared := h.shared
  user := by
    intro q
    by_cases hq : q = p
    · subst hq
      rw [State.setUser_self]
      exact hok
    · rw [State.setUser_of_ne s u hq]
      exact h.user q

/-- The invariant does not read `n_users_`. -/
theorem RoundInv.withShm (h : RoundInv n k s) {d : ShmData}
    (hcount : d.count = s.shm.count) (hsense : d.sharedSense = s.shm.sharedSense) :
    RoundInv n k { s with shm := d } where
  count_eq := by
    rw [waiting_congr k (show ({ s with shm := d } : State n).users = s.users from rfl),
        ← h.count_eq]
    exact hcount
  count_lt := by
    show d.count < n
    rw [hcount]
    exact h.count_lt
  shared := by
    show d.sharedSense = _
    rw [hsense]
    exact h.shared
  user := h.user

/-- Counting in one of the first `n - 1` keeps the round. -/
theorem RoundInv.enter (hn : n < wordSize) (h : RoundInv n k s)
    (hpc : (s.users p).pc = .idle) (hlast : add64 s.shm.count 1 ≠ n) :
    RoundInv n k (State.setUser { s with shm := { s.shm with count := add64 s.shm.count 1 } } p
      { s.users p with pc := .polling, entered := (s.users p).entered + 1 }) := by
  obtain ⟨hent, hcomp⟩ := h.idle hpc
  have hlt := h.count_lt
  have hadd : add64 s.shm.count 1 = s.shm.count + 1 := add64_eq (by omega)
  have hnotin : p ∉ waiting k s := by
    simp [waiting, hent]
  rw [hadd] at hlast ⊢
  refine ⟨?_, ?_, h.shared, ?_⟩
  · -- the new waiting set is the old one with `p` added
    have hset : waiting k (State.setUser
        { s with shm := { s.shm with count := s.shm.count + 1 } } p
        { s.users p with pc := .polling, entered := (s.users p).entered + 1 })
        = insert p (waiting k s) := by
      ext q
      by_cases hq : q = p
      · subst hq
        simp [waiting, hent]
      · simp [waiting, hq]
    rw [hset, Finset.card_insert_of_notMem hnotin, ← h.count_eq]
    rfl
  · show s.shm.count + 1 < n
    omega
  · intro q
    by_cases hq : q = p
    · subst hq
      rw [State.setUser_self]
      refine ⟨(h.user q).1, ?_⟩
      left
      exact ⟨by rw [hent], hcomp⟩
    · rw [State.setUser_of_ne _ _ hq]
      exact h.user q

/-- When the last participant arrives, everybody else is waiting. -/
theorem RoundInv.all_waiting (h : RoundInv n k s) (hpc : (s.users p).pc = .idle)
    (hlast : s.shm.count + 1 = n) {q : Fin n} (hq : q ≠ p) :
    (s.users q).pc = .polling ∧ (s.users q).entered = k + 1 ∧ (s.users q).completed = k := by
  have hsub : waiting k s ⊆ Finset.univ.erase p := by
    intro r hr
    have hr' : (s.users r).entered = k + 1 := by simpa [waiting] using hr
    refine Finset.mem_erase.mpr ⟨?_, Finset.mem_univ r⟩
    intro hrp
    rw [hrp, (h.idle hpc).1] at hr'
    omega
  have hcard : (Finset.univ.erase p).card ≤ (waiting k s).card := by
    rw [Finset.card_erase_of_mem (Finset.mem_univ p), Finset.card_univ, Fintype.card_fin,
        ← h.count_eq]
    omega
  -- `n - 1` are waiting and `p` is not one of them
  have hall := Finset.eq_of_subset_of_card_le hsub hcard
  have hmem : q ∈ waiting k s := by
    rw [hall]
    exact Finset.mem_erase.mpr ⟨hq, Finset.mem_univ q⟩
  have hent : (s.users q).entered = k + 1 := by simpa [waiting] using hmem
  cases hqpc : (s.users q).pc with
  | idle =>
      have hu := h.idle hqpc
      omega
  | polling =>
      rcases h.polling hqpc with hu | hu
      · exact ⟨rfl, hent, hu.2.1⟩
      · omega
  | passed =>
      have hu := h.passed hqpc
      omega

/-- The last participant to arrive moves everybody to the next round. -/
theorem RoundInv.flip (hn : n < wordSize) (h : RoundInv n k s)
    (hpc : (s.users p).pc = .idle) (hlast : add64 s.shm.count 1 = n) :
    RoundInv n (k + 1) (State.setUser
      { s with shm := { s.shm with sharedSense := !s.shm.sharedSense, count := 0 } } p
      { s.users p with pc := .passed, entered := (s.users p).entered + 1 }) := by
  obtain ⟨hent, hcomp⟩ := h.idle hpc
  have hlt := h.count_lt
  have hadd : add64 s.shm.count 1 = s.shm.count + 1 := add64_eq (by omega)
  rw [hadd] at hlast
  refine ⟨?_, ?_, ?_, ?_⟩
  · -- nobody has begun call k+2
    have hempty : waiting (k + 1) (State.setUser
        { s with shm := { s.shm with sharedSense := !s.shm.sharedSense, count := 0 } } p
        { s.users p with pc := .passed, entered := (s.users p).entered + 1 }) = ∅ := by
      apply Finset.filter_eq_empty_iff.mpr
      intro q _
      by_cases hq : q = p
      · subst hq
        rw [State.setUser_self]
        show (s.users q).entered + 1 ≠ k + 1 + 1
        omega
      · rw [State.setUser_of_ne _ _ hq]
        have hu := h.all_waiting hpc hlast hq
        show (s.users q).entered ≠ k + 1 + 1
        omega
    rw [hempty]
    rfl
  · show 0 < n
    omega
  · show (!s.shm.sharedSense) = !senseOf (k + 1)
    rw [h.shared, senseOf_succ]
  · intro q
    by_cases hq : q = p
    · subst hq
      rw [State.setUser_self]
      exact ⟨(h.user q).1, by rw [hent], by rw [hcomp]⟩
    · -- the others wait on, now for a flip that has happened
      rw [State.setUser_of_ne _ _ hq]
      obtain ⟨hqpc, hqe, hqc⟩ := h.all_waiting hpc hlast hq
      refine ⟨(h.user q).1, ?_⟩
      show match (s.users q).pc with
        | .idle => _
        | .polling => _
        | .passed => _
      rw [hqpc]
      right
      refine ⟨hqe, ?_⟩
      show (s.users q).completed + 1 = k + 1
      rw [hqc]

/-- **One step keeps the round or moves it on by one**; it moves on exactly
when the step flips the sense, and then the caller is in its call `k + 1`. -/
theorem RoundInv.step (hn : n < wordSize) (h : RoundInv n k s)
    (hs : waitStep n rounds s p = some s') :
    (RoundInv n k s' ∧ s'.shm.sharedSense = s.shm.sharedSense) ∨
      (RoundInv n (k + 1) s' ∧ s'.shm.sharedSense = (!s.shm.sharedSense) ∧
        (s'.users p).entered = k + 1) := by
  rcases waitStep_cases hs with ⟨hpc, _, hlast, hs'⟩ | ⟨hpc, _, hlast, hs'⟩ | ⟨_, _, hs'⟩ |
    ⟨hpc, heq, hs'⟩ | ⟨hpc, hs'⟩
  · left
    subst hs'
    exact ⟨h.enter hn hpc hlast, rfl⟩
  · right
    subst hs'
    refine ⟨h.flip hn hpc hlast, rfl, ?_⟩
    rw [State.setUser_self, (h.idle hpc).1]
  · left
    subst hs'
    exact ⟨h, rfl⟩
  · left
    subst hs'
    refine ⟨h.setUser (by rfl) ?_, rfl⟩
    -- a poll that sees the flip is one of the round before
    rcases h.polling hpc with ⟨_, _, hne⟩ | ⟨hent, hcomp, _⟩
    · exact absurd heq hne
    · exact ⟨(h.user p).1, hent, hcomp⟩
  · left
    subst hs'
    refine ⟨h.setUser (by rfl) ?_, rfl⟩
    obtain ⟨hent, hcomp⟩ := h.passed hpc
    refine ⟨?_, hent, hcomp⟩
    show (!(s.users p).sense) = senseOf ((s.users p).completed + 1)
    rw [senseOf_succ, (h.user p).1]

/-! ## §4. Every reachable state is in some round. -/

theorem RoundInv.init (hpos : 0 < n) (hcount : s.shm.count = 0)
    (hsense : s.shm.sharedSense = false) (husers : ∀ p, s.users p = User.fresh) :
    RoundInv n 0 s where
  count_eq := by
    have hempty : waiting 0 s = ∅ := by
      apply Finset.filter_eq_empty_iff.mpr
      intro q _
      rw [husers q]
      decide
    rw [hempty, hcount]
    rfl
  count_lt := by omega
  shared := by
    rw [hsense]
    rfl
  user := by
    intro p
    rw [husers p]
    exact ⟨rfl, rfl, rfl⟩

theorem exists_round (hpos : 0 < n) (hn : n < wordSize)
    (h : (waitSystem n rounds).Reachable s) : ∃ k, RoundInv n k s := by
  refine System.invariant (I := fun t => ∃ k, RoundInv n k t) ?_ ?_ h
  · intro t ht
    exact ⟨0, RoundInv.init hpos ht.1 ht.2.1 ht.2.2⟩
  · intro t q t' hk hst
    obtain ⟨k, hk⟩ := hk
    rcases hk.step hn hst with h' | h'
    · exact ⟨k, h'.1⟩
    · exact ⟨k + 1, h'.1⟩

/-- Along a run the round never goes back. -/
theorem RoundInv.steps (hn : n < wordSize) (h : RoundInv n k s)
    (hrun : (waitSystem n rounds).Steps (fun _ _ => True) s s') :
    ∃ j, k ≤ j ∧ RoundInv n j s' := by
  refine hrun.preserves (I := fun t => ∃ j, k ≤ j ∧ RoundInv n j t) ?_ ⟨k, Nat.le_refl k, h⟩
  intro t q t' hk hst
  obtain ⟨j, hj, hk⟩ := hk
  rcases hk.step hn hst with h' | h'
  · exact ⟨j, hj, h'.1⟩
  · exact ⟨j + 1, by omega, h'.1⟩

/-- A step begins at most one call, the mover's, and only below `rounds`. -/
theorem waitStep_entered (h : waitStep n rounds s p = some s') (q : Fin n) :
    (s'.users q).entered = (s.users q).entered ∨
      (q = p ∧ (s.users q).entered < rounds ∧
        (s'.users q).entered = (s.users q).entered + 1) := by
  by_cases hq : q = p
  · subst hq
    rcases waitStep_cases h with ⟨_, hlt, _, hs'⟩ | ⟨_, hlt, _, hs'⟩ | ⟨_, _, hs'⟩ |
      ⟨_, _, hs'⟩ | ⟨_, hs'⟩
    · right
      rw [hs', State.setUser_self]
      exact ⟨rfl, hlt, rfl⟩
    · right
      rw [hs', State.setUser_self]
      exact ⟨rfl, hlt, rfl⟩
    · left
      rw [hs']
    · left
      rw [hs', State.setUser_self]
    · left
      rw [hs', State.setUser_self]
  · left
    rw [waitStep_users_of_ne h hq]

/-- Nobody begins more than its `rounds` calls. -/
theorem entered_le_rounds (h : (waitSystem n rounds).Reachable s) (p : Fin n) :
    (s.users p).entered ≤ rounds := by
  refine System.invariant (I := fun t => ∀ q, (t.users q).entered ≤ rounds) ?_ ?_ h p
  · intro t ht q
    rw [ht.2.2 q]
    exact Nat.zero_le rounds
  · intro t r t' ih hst q
    have hq := ih q
    rcases waitStep_entered hst q with h' | h' <;> omega

end Akbench.Barrier
