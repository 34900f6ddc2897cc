/-
  Akbench.Latency.ConditionVariable
  ─────────────────────────────────
  **`condition_variable`: TWO FLAGS, TWO MUTEXES, TWO CONDITION VARIABLES.**

  A party signals by its own flag, mutex and condition variable, and waits for
  the other's.  Mutex, condition variable and flag of party `p` are what the
  source names after it.

  Of `std::condition_variable`: `wait` with a predicate evaluates it with the
  mutex held and returns where it is true; where it is false it gives the
  mutex back and goes to sleep in one step.  Whoever is woken takes the mutex
  again before it looks at the predicate.  `notify_one` wakes one sleeper if
  there is one: nobody but the other party ever sleeps there.  A sleeper may
  also wake without reason.
-/
import Akbench.Latency.Parties

namespace Akbench.ConditionVariable

open Latency

/-! ## §1. The code. -/

/-- Where a party is. -/
inductive Pc where
  /-- The parent at the head of the loop over iterations; the child without a
  thread. -/
  | idle
  /-- At the head of the loop of `ParentFlip` or `ChildFlip`. -/
  | head
  /-- Before `lock_guard` on its own mutex. -/
  | locking
  /-- Before it sets its flag, under the mutex. -/
  | setting
  /-- At the end of the scope of `lock_guard`. -/
  | unlocking
  /-- Before `notify_one`. -/
  | notifying
  /-- Before `unique_lock` on the other's mutex. -/
  | acquiring
  /-- Before it evaluates the predicate, under the mutex. -/
  | checking
  /-- The predicate was false. -/
  | entering
  | sleeping
  /-- Awake, and without the mutex. -/
  | waking
  /-- The predicate was true: before it clears the flag. -/
  | clearing
  /-- At the end of the scope of `unique_lock`. -/
  | releasing
  /-- Behind the loop; the parent is at `join`. -/
  | returned
  /-- Behind the `join`, before both flags are reset. -/
  | resetting
  | exited
  deriving DecidableEq, Repr

structure Process where
  pc : Pc
  i : Nat
  deriving DecidableEq, Repr

/-- `events` is read by no step. -/
structure State where
  iteration : Nat
  process : Party → Process
  holder : Party → Option Party
  ready : Party → Bool
  events : List Event

/-- The first statement of the body. -/
def first : Party → Pc
  | .parent => .locking
  | .child => .acquiring

/-- Behind `notify_one`. -/
def afterNotify : Party → Pc
  | .parent => .acquiring
  | .child => .head

/-- Behind the scope of `unique_lock`. -/
def afterRelease : Party → Pc
  | .parent => .head
  | .child => .locking

/-- On to `pc`; `++i` on the way back to the head. -/
def Process.goto (q : Process) (pc : Pc) : Process where
  pc := pc
  i := if pc = .head then q.i + 1 else q.i

def State.goto (s : State) (p : Party) (pc : Pc) : State :=
  { s with process := Function.update s.process p ((s.process p).goto pc) }

/-- Party `p` takes the mutex of `l`, if that is free. -/
def State.lock (s : State) (p l : Party) (pc : Pc) : Option State :=
  if s.holder l = none then
    some { s.goto p pc with holder := Function.update s.holder l (some p) }
  else none

/-- Party `p` gives the mutex of `l` back. -/
def State.unlock (s : State) (p l : Party) (pc : Pc) : State :=
  { s.goto p pc with holder := Function.update s.holder l none }

/-- `notify_one` where `q` may be asleep. -/
def notifyOne (s : State) (q : Party) : State :=
  if (s.process q).pc = .sleeping then s.goto q .waking else s

/-- `ParentFlip` and `ChildFlip`. -/
def flipStep (c : Config) (s : State) (p : Party) : Option State :=
  match (s.process p).pc with
  | .head =>
      if (s.process p).i < c.loopSize then some (s.goto p (first p))
      else some (s.goto p .returned)
  -- `lock_guard` on the own mutex, released before `notify_one`
  | .locking => s.lock p p .setting
  | .setting =>
      some { s.goto p .unlocking with
        ready := Function.update s.ready p true
        events := s.events ++ [(p, .signal)] }
  | .unlocking => some (s.unlock p p .notifying)
  | .notifying => some (notifyOne (s.goto p (afterNotify p)) p.other)
  -- the first time, and after every wake-up
  | .acquiring | .waking => s.lock p p.other .checking
  | .checking =>
      if s.ready p.other = true then some (s.goto p .clearing) else some (s.goto p .entering)
  -- releasing the mutex and falling asleep are one step
  | .entering => some (s.unlock p p.other .sleeping)
  | .clearing =>
      some { s.goto p .releasing with
        ready := Function.update s.ready p.other false
        events := s.events ++ [(p, .consume)] }
  | .releasing => some (s.unlock p p.other (afterRelease p))
  | .idle | .sleeping | .returned | .resetting | .exited => none

/-- `RunConditionVariableLatencyBenchmark` around them. -/
def runStep (c : Config) (s : State) (p : Party) : Option State :=
  match p, (s.process p).pc with
  | .parent, .idle =>
      if s.iteration < c.total then some { s with process := fun _ => ⟨.head, 0⟩ }
      else some (s.goto .parent .exited)
  -- `child_thread.join()`
  | .parent, .returned =>
      if (s.process .child).pc = .returned then some (s.goto .parent .resetting) else none
  | .parent, .resetting =>
      some { s with
        iteration := s.iteration + 1
        process := fun _ => ⟨.idle, 0⟩
        ready := fun _ => false }
  | _, _ => flipStep c s p

inductive Action where
  | run (p : Party)
  /-- A spurious wake-up. -/
  | spurious (p : Party)
  deriving DecidableEq, Repr

def step (c : Config) (s : State) : Action → Option State
  | .run p => runStep c s p
  | .spurious p => if (s.process p).pc = .sleeping then some (s.goto p .waking) else none

/-- Both mutexes are free and both flags false at first. -/
def State.fresh : State where
  iteration := 0
  process := fun _ => ⟨.idle, 0⟩
  holder := fun _ => none
  ready := fun _ => false
  events := []

def system (c : Config) : System State Action where
  init s := s = State.fresh
  step := step c

/-! ## §2. What a step can do. -/

@[simp] theorem State.goto_process_self (s : State) (p : Party) (pc : Pc) :
    (s.goto p pc).process p = (s.process p).goto pc :=
  Function.update_self _ _ _

theorem State.goto_process_of_ne {s : State} {p q : Party} {pc : Pc} (hq : q ≠ p) :
    (s.goto p pc).process q = s.process q :=
  Function.update_of_ne hq _ _

/-- A step of party `p`. -/
inductive Move (c : Config) (s : State) : Party → State → Prop where
  | launch (hpc : (s.process .parent).pc = .idle) (hlt : s.iteration < c.total) :
      Move c s .parent { s with process := fun _ => ⟨.head, 0⟩ }
  | quit (hpc : (s.process .parent).pc = .idle) : Move c s .parent (s.goto .parent .exited)
  | join (hpc : (s.process .parent).pc = .returned)
      (hchild : (s.process .child).pc = .returned) :
      Move c s .parent (s.goto .parent .resetting)
  | reset (hpc : (s.process .parent).pc = .resetting) :
      Move c s .parent { s with
        iteration := s.iteration + 1
        process := fun _ => ⟨.idle, 0⟩
        ready := fun _ => false }
  | enter {p : Party} (hpc : (s.process p).pc = .head) (hlt : (s.process p).i < c.loopSize) :
      Move c s p (s.goto p (first p))
  | finish {p : Party} (hpc : (s.process p).pc = .head) (hge : c.loopSize ≤ (s.process p).i) :
      Move c s p (s.goto p .returned)
  | lock {p : Party} (hpc : (s.process p).pc = .locking) (hfree : s.holder p = none) :
      Move c s p { s.goto p .setting with holder := Function.update s.holder p (some p) }
  | set {p : Party} (hpc : (s.process p).pc = .setting) :
      Move c s p { s.goto p .unlocking with
        ready := Function.update s.ready p true
        events := s.events ++ [(p, .signal)] }
  | unlock {p : Party} (hpc : (s.process p).pc = .unlocking) :
      Move c s p (s.unlock p p .notifying)
  | notify {p : Party} (hpc : (s.process p).pc = .notifying) :
      Move c s p (notifyOne (s.goto p (afterNotify p)) p.other)
  | acquire {p : Party} (hpc : (s.process p).pc = .acquiring ∨ (s.process p).pc = .waking)
      (hfree : s.holder p.other = none) :
      Move c s p { s.goto p .checking with holder := Function.update s.holder p.other (some p) }
  | pass {p : Party} (hpc : (s.process p).pc = .checking) (hready : s.ready p.other = true) :
      Move c s p (s.goto p .clearing)
  | fail {p : Party} (hpc : (s.process p).pc = .checking) (hready : s.ready p.other = false) :
      Move c s p (s.goto p .entering)
  | sleep {p : Party} (hpc : (s.process p).pc = .entering) :
      Move c s p (s.unlock p p.other .sleeping)
  | wake {p : Party} (hpc : (s.process p).pc = .sleeping) : Move c s p (s.goto p .waking)
  | clear {p : Party} (hpc : (s.process p).pc = .clearing) :
      Move c s p { s.goto p .releasing with
        ready := Function.update s.ready p.other false
        events := s.events ++ [(p, .consume)] }
  | release {p : Party} (hpc : (s.process p).pc = .releasing) :
      Move c s p (s.unlock p p.other (afterRelease p))

variable {c : Config} {s s' : State} {p : Party}

theorem flipStep_move (hs : flipStep c s p = some s') : Move c s p s' := by
  unfold flipStep at hs
  cases hpc : (s.process p).pc with
  | head =>
      rw [hpc] at hs
      obtain ⟨hlt, rfl⟩ | ⟨hge, rfl⟩ := System.branch_cases hs
      · exact .enter hpc hlt
      · exact .finish hpc (Nat.le_of_not_lt hge)
  | locking =>
      rw [hpc] at hs
      obtain ⟨hfree, rfl⟩ := System.guard_cases hs
      exact .lock hpc hfree
  | setting =>
      rw [hpc] at hs
      injection hs with hs
      subst hs
      exact .set hpc
  | unlocking =>
      rw [hpc] at hs
      injection hs with hs
      subst hs
      exact .unlock hpc
  | notifying =>
      rw [hpc] at hs
      injection hs with hs
      subst hs
      exact .notify hpc
  | acquiring =>
      rw [hpc] at hs
      obtain ⟨hfree, rfl⟩ := System.guard_cases hs
      exact .acquire (.inl hpc) hfree
  | waking =>
      rw [hpc] at hs
      obtain ⟨hfree, rfl⟩ := System.guard_cases hs
      exact .acquire (.inr hpc) hfree
  | checking =>
      rw [hpc] at hs
      obtain ⟨hready, rfl⟩ | ⟨hready, rfl⟩ := System.branch_cases hs
      · exact .pass hpc hready
      · exact .fail hpc (Bool.eq_false_iff.mpr hready)
  | entering =>
      rw [hpc] at hs
      injection hs with hs
      subst hs
      exact .sleep hpc
  | clearing =>
      rw [hpc] at hs
      injection hs with hs
      subst hs
      exact .clear hpc
  | releasing =>
      rw [hpc] at hs
      injection hs with hs
      subst hs
      exact .release hpc
  | idle | sleeping | returned | resetting | exited =>
      rw [hpc] at hs
      cases hs

/-- **Every step is a move.** -/
theorem step_move {a : Action} (hs : step c s a = some s') : ∃ p, Move c s p s' := by
  cases a with
  | run p =>
      have hrun : runStep c s p = some s' := hs
      unfold runStep at hrun
      split at hrun
      next hpc =>
        obtain ⟨hlt, rfl⟩ | ⟨_, rfl⟩ := System.branch_cases hrun
        · exact ⟨.parent, .launch hpc hlt⟩
        · exact ⟨.parent, .quit hpc⟩
      next hpc =>
        obtain ⟨hchild, rfl⟩ := System.guard_cases hrun
        exact ⟨.parent, .join hpc hchild⟩
      next hpc =>
        injection hrun with hrun
        subst hrun
        exact ⟨.parent, .reset hpc⟩
      next => exact ⟨_, flipStep_move hrun⟩
  | spurious p =>
      obtain ⟨hpc, rfl⟩ := System.guard_cases hs
      exact ⟨p, .wake hpc⟩

end Akbench.ConditionVariable
