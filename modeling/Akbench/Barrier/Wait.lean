/-
  Akbench.Barrier.Wait
  ────────────────────
  **`SenseReversingBarrier::Wait`, as the code runs it.**

  `n` participants share one `ShmData`; each keeps its own `sense_`.  A call
  of `Wait()` is: one critical section that counts the caller in and, for the
  last one, flips the shared sense (`waitEnter`); then, for the others, a loop
  of critical sections that read the shared sense (`waitPoll`); then the
  private flip of `sense_`.  Each `sem_wait … sem_post` section is one step.

  `entered` and `completed` count the calls a participant has begun and
  returned from; no step reads them except the test that a participant makes
  at most `rounds` calls.
-/
import Akbench.Lib.Rendezvous
import Akbench.Lib.Word

namespace Akbench.Barrier

/-! ## §1. The shared segment and one participant. -/

/-- `SenseReversingBarrier::ShmData`. -/
structure ShmData where
  count : Nat
  sharedSense : Bool
  nUsers : Nat
  deriving DecidableEq, Repr

/-- The segment as its creator initialises it. -/
def ShmData.fresh : ShmData := ⟨0, false, 0⟩

/-- Where a participant is with respect to `Wait()`. -/
inductive WaitPc where
  /-- Not inside a call. -/
  | idle
  /-- In the polling loop. -/
  | polling
  /-- Past the loop (or the last to arrive), before `sense_ = !sense_`. -/
  | passed
  deriving DecidableEq, Repr

/-- One participant: its `sense_`, its position, and its call counts. -/
structure User where
  sense : Bool
  pc : WaitPc
  entered : Nat
  completed : Nat
  deriving DecidableEq, Repr

/-- A participant that has left the constructor and not called `Wait()`. -/
def User.fresh : User := ⟨true, .idle, 0, 0⟩

/-! ## §2. The critical sections of `Wait()`. -/

/-- The first section: count the caller in; the last one flips the shared
sense and resets the count.  The flag is `last_user`. -/
def waitEnter (n : Nat) (d : ShmData) : ShmData × Bool :=
  let count := add64 d.count 1
  if count = n then
    ({ d with sharedSense := !d.sharedSense, count := 0 }, true)
  else
    ({ d with count := count }, false)

/-- The polling section: the value of `reversed`. -/
def waitPoll (d : ShmData) (sense : Bool) : Bool :=
  d.sharedSense != sense

/-- The participants and the segment they share. -/
@[ext]
structure State (n : Nat) where
  shm : ShmData
  users : Fin n → User

namespace State

variable {n : Nat}

/-- All constructors done, nobody inside `Wait()`. -/
def fresh : State n := ⟨ShmData.fresh, fun _ => User.fresh⟩

/-- Replace participant `p`. -/
def setUser (s : State n) (p : Fin n) (u : User) : State n :=
  { s with users := Function.update s.users p u }

@[simp] theorem setUser_shm (s : State n) (p : Fin n) (u : User) :
    (s.setUser p u).shm = s.shm := rfl

@[simp] theorem setUser_self (s : State n) (p : Fin n) (u : User) :
    (s.setUser p u).users p = u := by
  simp [setUser]

@[simp] theorem setUser_of_ne (s : State n) {p q : Fin n} (u : User) (h : q ≠ p) :
    (s.setUser p u).users q = s.users q := by
  simp [setUser, h]

/-- A step that changes the moving participant's record changes the state. -/
theorem ne_of_user_ne {s s' : State n} (p : Fin n) (h : s'.users p ≠ s.users p) :
    s' ≠ s := by
  rintro rfl
  exact h rfl

end State

/-! ## §3. One step of participant `p`. -/

/-- Participant `p` takes the next step of its `rounds` calls of `Wait()`. -/
def waitStep (n rounds : Nat) (s : State n) (p : Fin n) : Option (State n) :=
  let u := s.users p
  match u.pc with
  | .idle =>
      if u.entered < rounds then
        let (shm, lastUser) := waitEnter n s.shm
        some (State.setUser { s with shm := shm } p
          { u with pc := if lastUser then .passed else .polling, entered := u.entered + 1 })
      else none
  | .polling =>
      -- a poll that still sees the sense reversed goes round the loop again
      if waitPoll s.shm u.sense then some s
      else some (s.setUser p { u with pc := .passed })
  | .passed =>
      some (s.setUser p
        { u with sense := !u.sense, pc := .idle, completed := u.completed + 1 })

/-- `n` participants, each calling `Wait()` `rounds` times; the segment may
already carry any `n_users_`, which `Wait()` never reads. -/
def waitSystem (n rounds : Nat) : System (State n) (Fin n) where
  init s := s.shm.count = 0 ∧ s.shm.sharedSense = false ∧ ∀ p, s.users p = User.fresh
  step := waitStep n rounds

/-- **What one step can do**: count in as one of the first `n - 1`, count in
last and flip the sense, fail a poll, pass a poll, or return. -/
theorem waitStep_cases {n rounds : Nat} {s s' : State n} {p : Fin n}
    (h : waitStep n rounds s p = some s') :
    ((s.users p).pc = .idle ∧ (s.users p).entered < rounds ∧ add64 s.shm.count 1 ≠ n ∧
      s' = State.setUser { s with shm := { s.shm with count := add64 s.shm.count 1 } } p
        { s.users p with pc := .polling, entered := (s.users p).entered + 1 }) ∨
    ((s.users p).pc = .idle ∧ (s.users p).entered < rounds ∧ add64 s.shm.count 1 = n ∧
      s' = State.setUser
        { s with shm := { s.shm with sharedSense := !s.shm.sharedSense, count := 0 } } p
        { s.users p with pc := .passed, entered := (s.users p).entered + 1 }) ∨
    ((s.users p).pc = .polling ∧ s.shm.sharedSense ≠ (s.users p).sense ∧ s' = s) ∨
    ((s.users p).pc = .polling ∧ s.shm.sharedSense = (s.users p).sense ∧
      s' = s.setUser p { s.users p with pc := .passed }) ∨
    ((s.users p).pc = .passed ∧
      s' = s.setUser p { s.users p with
        sense := !(s.users p).sense, pc := .idle,
        completed := (s.users p).completed + 1 }) := by
  cases hpc : (s.users p).pc with
  | idle =>
      simp only [waitStep, hpc, waitEnter] at h
      split at h
      next hlt =>
        by_cases hlast : add64 s.shm.count 1 = n
        · right; left
          simp only [if_pos hlast, if_true, Option.some.injEq] at h
          exact ⟨rfl, hlt, hlast, h.symm⟩
        · left
          simp only [if_neg hlast, Bool.false_eq_true, if_false, Option.some.injEq] at h
          exact ⟨rfl, hlt, hlast, h.symm⟩
      next => cases h
  | polling =>
      right; right
      simp only [waitStep, hpc, waitPoll, bne_iff_ne, ne_eq, ite_not] at h
      split at h
      next hsame =>
        right; left
        injection h with h
        exact ⟨rfl, hsame, h.symm⟩
      next hrev =>
        left
        injection h with h
        exact ⟨rfl, hrev, h.symm⟩
  | passed =>
      right; right; right; right
      simp only [waitStep, hpc, Option.some.injEq] at h
      exact ⟨rfl, h.symm⟩

/-- A call can be begun by anybody outside one with calls left. -/
theorem waitStep_idle {n rounds : Nat} {s : State n} {p : Fin n}
    (hpc : (s.users p).pc = .idle) (hlt : (s.users p).entered < rounds) :
    ∃ s', waitStep n rounds s p = some s' ∧
      (s'.users p).entered = (s.users p).entered + 1 := by
  simp only [waitStep, hpc, if_pos hlt]
  exact ⟨_, rfl, by rw [State.setUser_self]⟩

/-- A poll that finds the senses equal leaves the loop. -/
theorem waitStep_poll {n rounds : Nat} {s : State n} {p : Fin n}
    (hpc : (s.users p).pc = .polling) (hsense : s.shm.sharedSense = (s.users p).sense) :
    waitStep n rounds s p = some (s.setUser p { s.users p with pc := .passed }) := by
  simp [waitStep, hpc, waitPoll, hsense]

/-- Returning from a call. -/
theorem waitStep_return {n rounds : Nat} {s : State n} {p : Fin n}
    (hpc : (s.users p).pc = .passed) :
    waitStep n rounds s p = some (s.setUser p { s.users p with
      sense := !(s.users p).sense, pc := .idle,
      completed := (s.users p).completed + 1 }) := by
  simp only [waitStep, hpc]

/-- A step of `p` leaves the other participants alone. -/
theorem waitStep_users_of_ne {n rounds : Nat} {s s' : State n} {p q : Fin n}
    (h : waitStep n rounds s p = some s') (hq : q ≠ p) : s'.users q = s.users q := by
  rcases waitStep_cases h with ⟨_, _, _, hs'⟩ | ⟨_, _, _, hs'⟩ | ⟨_, _, hs'⟩ |
    ⟨_, _, hs'⟩ | ⟨_, hs'⟩ <;> rw [hs']
  all_goals rw [State.setUser_of_ne _ _ hq]

/-- `Wait()` never touches `n_users_`. -/
theorem waitStep_nUsers {n rounds : Nat} {s s' : State n} {p : Fin n}
    (h : waitStep n rounds s p = some s') : s'.shm.nUsers = s.shm.nUsers := by
  rcases waitStep_cases h with ⟨_, _, _, hs'⟩ | ⟨_, _, _, hs'⟩ | ⟨_, _, hs'⟩ |
    ⟨_, _, hs'⟩ | ⟨_, hs'⟩ <;> rw [hs'] <;> rfl

end Akbench.Barrier
