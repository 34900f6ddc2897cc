/-
  Akbench.Barrier.Lifecycle
  ─────────────────────────
  **CONSTRUCTOR, `rounds` CALLS OF `Wait()`, DESTRUCTOR.**

  `n` participants run the whole life of a `SenseReversingBarrier(n, id)`:

      sem_open · [create or open the segment] · [n_users_++] · join loop ·
      Wait() × rounds · [n_users_--] · close / unlink

  where a bracket is one `sem_wait … sem_post` section.  The join loop polls
  `n_users_ >= n_`; the destructor that reads `n_users_ == 1` unlinks both
  names, any other only closes its own descriptors.

  One `ShmData` stands for the segment: a second segment under the same name
  could appear only through a second creation, and there is none
  (`Akbench.Barrier.Accounting`).
-/
import Akbench.Barrier.Wait

namespace Akbench.Barrier

/-! ## §1. Where a participant is. -/

/-- What is left of the destructor after its critical section. -/
inductive Cleanup where
  | semClose
  | semUnlink
  | munmap
  | shmClose
  | shmUnlink
  | done
  deriving DecidableEq, Repr

/-- The name of the semaphore is gone once the unlinker is past
`sem_unlink`. -/
def Cleanup.pastSemUnlink : Cleanup → Bool
  | .semClose | .semUnlink => false
  | .munmap | .shmClose | .shmUnlink | .done => true

/-- The life of one participant. -/
inductive LifePc where
  /-- Before `sem_open`. -/
  | start
  /-- Before the section that creates or opens the segment. -/
  | opened
  /-- Before the section that increments `n_users_`. -/
  | mapped
  /-- In the join loop. -/
  | joining
  /-- Out of the constructor, making its calls of `Wait()`. -/
  | running
  /-- Past the section that decrements `n_users_`; `last` when it read 1. -/
  | departed (last : Bool) (todo : Cleanup)
  deriving DecidableEq, Repr

namespace LifePc

/-- Has incremented `n_users_`. -/
def hasJoined : LifePc → Bool
  | .start | .opened | .mapped => false
  | .joining | .running | .departed _ _ => true

/-- Has left the constructor. -/
def isAdmitted : LifePc → Bool
  | .start | .opened | .mapped | .joining => false
  | .running | .departed _ _ => true

/-- Has decremented `n_users_`. -/
def hasDeparted : LifePc → Bool
  | .departed _ _ => true
  | _ => false

/-- Took the unlink branch. -/
def isLast : LifePc → Bool
  | .departed last _ => last
  | _ => false

/-- Has unlinked the name of the semaphore. -/
def unlinkedSem : LifePc → Bool
  | .departed true todo => todo.pastSemUnlink
  | _ => false

/-- Has unlinked the name of the segment. -/
def unlinkedShm : LifePc → Bool
  | .departed true .done => true
  | _ => false

/-- Only the last one is ever at an unlink. -/
def isPlaced : LifePc → Bool
  | .departed false .semUnlink | .departed false .shmUnlink => false
  | _ => true

/-- The destructor has returned. -/
def isFinished : LifePc → Bool
  | .departed _ .done => true
  | _ => false

end LifePc

/-- `n` participants of one barrier id: the segment with the participants'
`Wait()` state, the two names, and each participant's life.  `created` marks
who took the `O_EXCL` creation branch. -/
structure Group (n : Nat) where
  wait : State n
  semName : Bool
  shmName : Bool
  life : Fin n → LifePc
  created : Fin n → Bool

namespace Group

variable {n : Nat}

/-- Move participant `p` to `l`. -/
def setLife (g : Group n) (p : Fin n) (l : LifePc) : Group n :=
  { g with life := Function.update g.life p l }

@[simp] theorem setLife_self (g : Group n) (p : Fin n) (l : LifePc) :
    (g.setLife p l).life p = l := by
  simp [setLife]

@[simp] theorem setLife_of_ne (g : Group n) {p q : Fin n} (l : LifePc) (h : q ≠ p) :
    (g.setLife p l).life q = g.life q := by
  simp [setLife, h]

@[simp] theorem setLife_wait (g : Group n) (p : Fin n) (l : LifePc) :
    (g.setLife p l).wait = g.wait := rfl

@[simp] theorem setLife_created (g : Group n) (p : Fin n) (l : LifePc) :
    (g.setLife p l).created = g.created := rfl

@[simp] theorem setLife_semName (g : Group n) (p : Fin n) (l : LifePc) :
    (g.setLife p l).semName = g.semName := rfl

@[simp] theorem setLife_shmName (g : Group n) (p : Fin n) (l : LifePc) :
    (g.setLife p l).shmName = g.shmName := rfl

/-- The same group over another segment. -/
def withShm (g : Group n) (d : ShmData) : Group n :=
  { g with wait := { g.wait with shm := d } }

@[simp] theorem withShm_shmName (g : Group n) (d : ShmData) :
    (g.withShm d).shmName = g.shmName := rfl

@[simp] theorem withShm_semName (g : Group n) (d : ShmData) :
    (g.withShm d).semName = g.semName := rfl

theorem withShm_setLife_life (g : Group n) (d : ShmData) (p : Fin n) (l : LifePc) :
    ((g.withShm d).setLife p l).life = (g.setLife p l).life := rfl

/-- The participants of a following group under the same id: everybody before
its constructor, names and memory as the previous group left them. -/
def restart (g : Group n) : Group n :=
  { g with
    wait := { g.wait with users := fun _ => User.fresh }
    life := fun _ => .start
    created := fun _ => false }

end Group

/-! ## §2. The critical sections of constructor and destructor. -/

/-- `n_users_++`. -/
def ShmData.join (d : ShmData) : ShmData := { d with nUsers := add64 d.nUsers 1 }

/-- `n_users_--`. -/
def ShmData.depart (d : ShmData) : ShmData := { d with nUsers := sub64 d.nUsers 1 }

@[simp] theorem ShmData.join_count (d : ShmData) : d.join.count = d.count := by
  cases d
  rfl

@[simp] theorem ShmData.join_sharedSense (d : ShmData) :
    d.join.sharedSense = d.sharedSense := by
  cases d
  rfl

@[simp] theorem ShmData.depart_count (d : ShmData) : d.depart.count = d.count := by
  cases d
  rfl

@[simp] theorem ShmData.depart_sharedSense (d : ShmData) :
    d.depart.sharedSense = d.sharedSense := by
  cases d
  rfl

/-- The section under `shm_open(O_CREAT | O_EXCL)`: the first to come creates
and initialises the segment, the others open it. -/
def openSegment {n : Nat} (g : Group n) (p : Fin n) : Group n :=
  if g.shmName then g.setLife p .mapped
  else
    { (g.withShm ShmData.fresh).setLife p .mapped with
      shmName := true
      created := Function.update g.created p true }

/-- One operation of the destructor after its section. -/
def cleanupStep {n : Nat} (g : Group n) (p : Fin n) (last : Bool) :
    Cleanup → Option (Group n)
  | .semClose => some (g.setLife p (.departed last (if last then .semUnlink else .munmap)))
  | .semUnlink => some { g.setLife p (.departed last .munmap) with semName := false }
  | .munmap => some (g.setLife p (.departed last .shmClose))
  | .shmClose => some (g.setLife p (.departed last (if last then .shmUnlink else .done)))
  | .shmUnlink => some { g.setLife p (.departed last .done) with shmName := false }
  | .done => none

/-- Participant `p` takes the next step of its life. -/
def lifeStep (n rounds : Nat) (g : Group n) (p : Fin n) : Option (Group n) :=
  match g.life p with
  | .start => some { g.setLife p .opened with semName := true }
  | .opened => some (openSegment g p)
  | .mapped => some ((g.withShm g.wait.shm.join).setLife p .joining)
  | .joining =>
      -- `n_users_ >= n_`, else yield and poll again
      if n ≤ g.wait.shm.nUsers then some (g.setLife p .running) else some g
  | .running =>
      if (g.wait.users p).completed < rounds then
        (waitStep n rounds g.wait p).map fun w => { g with wait := w }
      else
        -- `remaining_users` is the value before the decrement
        some ((g.withShm g.wait.shm.depart).setLife p
          (.departed (g.wait.shm.nUsers == 1) .semClose))
  | .departed last todo => cleanupStep g p last todo

/-- A group that starts with neither the segment nor the semaphore in
existence; the memory of a segment yet to be created is arbitrary. -/
def lifeSystem (n rounds : Nat) : System (Group n) (Fin n) where
  init g := g.semName = false ∧ g.shmName = false ∧
    ∀ p, g.life p = .start ∧ g.created p = false ∧ g.wait.users p = User.fresh
  step := lifeStep n rounds

/-! ## §3. What one step can do. -/

/-- The moves of participant `p`, one constructor per branch of the code. -/
inductive LifeMove (n rounds : Nat) (g : Group n) (p : Fin n) : Group n → Prop where
  | semOpen (hl : g.life p = .start) :
      LifeMove n rounds g p { g.setLife p .opened with semName := true }
  | openExisting (hl : g.life p = .opened) (hname : g.shmName = true) :
      LifeMove n rounds g p (g.setLife p .mapped)
  | create (hl : g.life p = .opened) (hname : g.shmName = false) :
      LifeMove n rounds g p
        { (g.withShm ShmData.fresh).setLife p .mapped with
          shmName := true
          created := Function.update g.created p true }
  | join (hl : g.life p = .mapped) :
      LifeMove n rounds g p ((g.withShm g.wait.shm.join).setLife p .joining)
  | letIn (hl : g.life p = .joining) (hall : n ≤ g.wait.shm.nUsers) :
      LifeMove n rounds g p (g.setLife p .running)
  | pollFails (hl : g.life p = .joining) (hall : ¬ n ≤ g.wait.shm.nUsers) :
      LifeMove n rounds g p g
  | wait (hl : g.life p = .running) (hlt : (g.wait.users p).completed < rounds)
      (w : State n) (hw : waitStep n rounds g.wait p = some w) :
      LifeMove n rounds g p { g with wait := w }
  | depart (hl : g.life p = .running) (hge : ¬ (g.wait.users p).completed < rounds) :
      LifeMove n rounds g p ((g.withShm g.wait.shm.depart).setLife p
        (.departed (g.wait.shm.nUsers == 1) .semClose))
  | cleanup (last : Bool) (todo : Cleanup) (hl : g.life p = .departed last todo)
      (g' : Group n) (hc : cleanupStep g p last todo = some g') :
      LifeMove n rounds g p g'

theorem lifeMove_of_step {n rounds : Nat} {g g' : Group n} {p : Fin n}
    (h : lifeStep n rounds g p = some g') : LifeMove n rounds g p g' := by
  cases hl : g.life p with
  | start =>
      simp only [lifeStep, hl, Option.some.injEq] at h
      subst h
      exact .semOpen hl
  | opened =>
      simp only [lifeStep, hl, Option.some.injEq, openSegment] at h
      subst h
      cases hname : g.shmName with
      | true => exact .openExisting hl hname
      | false => exact .create hl hname
  | mapped =>
      simp only [lifeStep, hl, Option.some.injEq] at h
      subst h
      exact .join hl
  | joining =>
      simp only [lifeStep, hl] at h
      obtain ⟨hall, rfl⟩ | ⟨hall, rfl⟩ := System.branch_cases h
      · exact .letIn hl hall
      · exact .pollFails hl hall
  | running =>
      simp only [lifeStep, hl] at h
      split at h
      next hlt =>
        obtain ⟨w, hw, rfl⟩ := Option.map_eq_some_iff.mp h
        exact .wait hl hlt w hw
      next hge =>
        injection h with h
        subst h
        exact .depart hl hge
  | departed last todo =>
      simp only [lifeStep, hl] at h
      exact .cleanup last todo hl g' h

/-- A cleanup operation touches only the two names and `p`'s own position,
and keeps the branch it is in. -/
theorem cleanupStep_frame {n : Nat} {g g' : Group n} {p : Fin n} {last : Bool}
    {todo : Cleanup} (h : cleanupStep g p last todo = some g') :
    g'.wait = g.wait ∧ g'.created = g.created ∧
      (∃ todo', g'.life p = .departed last todo') ∧
      ∀ q, q ≠ p → g'.life q = g.life q := by
  cases todo <;> simp only [cleanupStep, Option.some.injEq, reduceCtorEq] at h
  all_goals
    subst h
    refine ⟨rfl, rfl, ⟨_, Group.setLife_self g p _⟩, ?_⟩
    intro q hq
    exact Group.setLife_of_ne g _ hq

/-- A step of `p` moves nobody else. -/
theorem lifeStep_life_of_ne {n rounds : Nat} {g g' : Group n} {p q : Fin n}
    (h : lifeStep n rounds g p = some g') (hq : q ≠ p) : g'.life q = g.life q := by
  cases lifeMove_of_step h with
  | wait | pollFails => rfl
  | cleanup last todo hl g' hc => exact (cleanupStep_frame hc).2.2.2 q hq
  | semOpen | openExisting | create | join | letIn | depart =>
      exact Group.setLife_of_ne _ _ hq

theorem lifeStep_departed {n rounds : Nat} {g : Group n} {p : Fin n} {last : Bool}
    {todo : Cleanup} (hl : g.life p = .departed last todo) :
    lifeStep n rounds g p = cleanupStep g p last todo := by
  simp only [lifeStep, hl]

theorem exists_of_hasDeparted {l : LifePc} (h : l.hasDeparted = true) :
    ∃ last todo, l = .departed last todo := by
  cases l with
  | departed last todo => exact ⟨last, todo, rfl⟩
  | _ => cases h

/-- **After its decrement a participant neither reads nor writes the
segment**: its steps are the same over any other contents. -/
theorem lifeStep_withShm {n rounds : Nat} {g : Group n} {p : Fin n}
    (h : (g.life p).hasDeparted = true) (d : ShmData) :
    lifeStep n rounds (g.withShm d) p = (lifeStep n rounds g p).map (·.withShm d) := by
  obtain ⟨last, todo, hl⟩ := exists_of_hasDeparted h
  rw [lifeStep_departed hl, lifeStep_departed (show (g.withShm d).life p = _ from hl)]
  cases todo <;> rfl

end Akbench.Barrier
