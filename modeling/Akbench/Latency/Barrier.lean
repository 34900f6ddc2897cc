/-
  Akbench.Latency.Barrier
  ───────────────────────
  **`RunBarrierLatencyBenchmark`: ONE BARRIER AFTER ANOTHER UNDER ONE NAME.**

  Every iteration forks a child; both processes construct a
  `SenseReversingBarrier(2, BARRIER_ID)`, call `Wait()` `loop_size` times and
  destroy it.  The parent reads the clock before and after its calls, reaps
  the child and only then leaves the scope of its barrier.  `ClearResource`
  runs before the first iteration and after each.

    • `Sound` — every iteration is a life of a group that starts from nothing
      and ends leaving nothing: the calls of `ClearResource` after the first
      find no name to unlink, and between the two clock readings both
      processes make all their calls;
    • `hangFree_iff` — `--loop-size=0` is the one way into a hang;
    • `barrier_latency` — otherwise every weakly fair run ends, with one
      measurement for each of `num_iterations`.
-/
import Akbench.Barrier.Device

namespace Akbench.BarrierLatency

open Barrier (Group Dissolved LifePc User lifeStep lifeSystem barrierDevice crossings)

/-! ## §1. The two processes. -/

/-- The arguments; a loop to a negative bound makes no iteration. -/
structure Config where
  numWarmups : Int
  numIterations : Int
  loopSize : Nat

/-- The iterations of both loops. -/
def Config.total (c : Config) : Nat := c.numWarmups.toNat + c.numIterations.toNat

/-- Where the parent is. -/
inductive Pc where
  /-- Before the first `ClearResource`. -/
  | clearing
  /-- At the head of a loop, before `fork()`. -/
  | ready
  /-- In its constructor, or in its calls. -/
  | running
  /-- Behind the second clock reading, in `waitpid`. -/
  | waiting
  /-- On the way out of `RunSingleBenchmark`, in its destructor. -/
  | leaving
  /-- Behind `push_back`, before the `ClearResource` of the iteration. -/
  | tidying
  | exited
  deriving DecidableEq, Repr

/-- There is a child: forked, and not reaped. -/
def Pc.hasChild : Pc → Bool
  | .running | .waiting => true
  | _ => false

/-- The participants' indices. -/
def parent : Fin 2 := ⟨0, Nat.zero_lt_two⟩
def child : Fin 2 := ⟨1, Nat.one_lt_two⟩

structure State where
  pc : Pc
  iteration : Nat
  /-- `measurements.size()` -/
  measured : Nat
  /-- The barrier of the iteration under way, or what is left of the last. -/
  group : Group 2

/-- `ClearResource` -/
def clearResource (g : Group 2) : Group 2 := { g with semName := false, shmName := false }

/-- The parent is out of its constructor, with all its calls behind it. -/
def LoopDone (c : Config) (g : Group 2) : Prop :=
  g.life parent = .running ∧ c.loopSize ≤ (g.wait.users parent).completed

instance (c : Config) (g : Group 2) : Decidable (LoopDone c g) :=
  inferInstanceAs (Decidable (_ ∧ _))

/-- A process takes a step of its life with the barrier. -/
def State.live (c : Config) (s : State) (p : Fin 2) : Option State :=
  (lifeStep 2 c.loopSize s.group p).map fun g => { s with group := g }

/-- `measurements.push_back(latency_ns)`, in the second loop only. -/
def State.push (c : Config) (s : State) : Nat :=
  if c.numWarmups.toNat ≤ s.iteration then s.measured + 1 else s.measured

def parentStep (c : Config) (s : State) : Option State :=
  match s.pc with
  | .clearing => some { s with pc := .ready, group := clearResource s.group }
  | .ready =>
      if s.iteration < c.total then some { s with pc := .running, group := s.group.restart }
      else some { s with pc := .exited }
  | .running => if LoopDone c s.group then some { s with pc := .waiting } else s.live c parent
  | .waiting =>
      if (s.group.life child).isFinished = true then some { s with pc := .leaving } else none
  | .leaving =>
      if (s.group.life parent).isFinished = true then
        some { s with pc := .tidying, measured := s.push c }
      else s.live c parent
  | .tidying =>
      some { s with pc := .ready, iteration := s.iteration + 1, group := clearResource s.group }
  | .exited => none

/-- The child ends with its destructor. -/
def childStep (c : Config) (s : State) : Option State :=
  if s.pc.hasChild = true then s.live c child else none

/-- Whose step it is. -/
inductive Act where
  | parent
  | child
  deriving DecidableEq, Repr

def step (c : Config) (s : State) : Act → Option State
  | .parent => parentStep c s
  | .child => childStep c s

/-- The benchmark, from whatever earlier runs have left under the name. -/
def system (c : Config) : System State Act where
  init s := s.pc = .clearing ∧ s.iteration = 0 ∧ s.measured = 0
  step := step c

/-! ## §2. What a step can do. -/

variable {c : Config} {s s' : State} {g g' : Group 2}

/-- The moves, one constructor per branch of the code. -/
inductive Move (c : Config) (s : State) : Act → State → Prop where
  | clear (hpc : s.pc = .clearing) :
      Move c s .parent { s with pc := .ready, group := clearResource s.group }
  | fork (hpc : s.pc = .ready) (hlt : s.iteration < c.total) :
      Move c s .parent { s with pc := .running, group := s.group.restart }
  | exit (hpc : s.pc = .ready) (hge : c.total ≤ s.iteration) :
      Move c s .parent { s with pc := .exited }
  | run (hpc : s.pc = .running) (hmore : ¬ LoopDone c s.group) {g : Group 2}
      (hs : lifeStep 2 c.loopSize s.group parent = some g) :
      Move c s .parent { s with group := g }
  | finish (hpc : s.pc = .running) (hdone : LoopDone c s.group) :
      Move c s .parent { s with pc := .waiting }
  | reap (hpc : s.pc = .waiting) (hchild : (s.group.life child).isFinished = true) :
      Move c s .parent { s with pc := .leaving }
  | destroy (hpc : s.pc = .leaving) (hmore : (s.group.life parent).isFinished = false)
      {g : Group 2} (hs : lifeStep 2 c.loopSize s.group parent = some g) :
      Move c s .parent { s with group := g }
  | push (hpc : s.pc = .leaving) (hdone : (s.group.life parent).isFinished = true) :
      Move c s .parent { s with pc := .tidying, measured := s.push c }
  | tidy (hpc : s.pc = .tidying) :
      Move c s .parent
        { s with pc := .ready, iteration := s.iteration + 1, group := clearResource s.group }
  | child (hpc : s.pc.hasChild = true) {g : Group 2}
      (hs : lifeStep 2 c.loopSize s.group child = some g) :
      Move c s .child { s with group := g }

theorem live_cases {p : Fin 2} (hs : s.live c p = some s') :
    ∃ g, lifeStep 2 c.loopSize s.group p = some g ∧ s' = { s with group := g } := by
  obtain ⟨g, hg, rfl⟩ := Option.map_eq_some_iff.mp hs
  exact ⟨g, hg, rfl⟩

/-- **Every step is a move.** -/
theorem step_move {a : Act} (hs : step c s a = some s') : Move c s a s' := by
  cases a with
  | child =>
      obtain ⟨hpc, hlive⟩ : s.pc.hasChild = true ∧ s.live c child = some s' := by
        have hs : (if s.pc.hasChild = true then s.live c child else none) = some s' := hs
        split at hs
        next hpc => exact ⟨hpc, hs⟩
        next => cases hs
      obtain ⟨g, hg, rfl⟩ := live_cases hlive
      exact .child hpc hg
  | parent =>
      have hs : parentStep c s = some s' := hs
      unfold parentStep at hs
      cases hpc : s.pc with
      | clearing =>
          rw [hpc] at hs
          injection hs with hs
          subst hs
          exact .clear hpc
      | ready =>
          rw [hpc] at hs
          dsimp only at hs
          obtain ⟨hlt, rfl⟩ | ⟨hge, rfl⟩ := System.branch_cases hs
          · exact .fork hpc hlt
          · exact .exit hpc (by omega)
      | running =>
          rw [hpc] at hs
          dsimp only at hs
          split at hs
          next hdone =>
            injection hs with hs
            subst hs
            exact .finish hpc hdone
          next hmore =>
            obtain ⟨g, hg, rfl⟩ := live_cases hs
            exact .run hpc hmore hg
      | waiting =>
          rw [hpc] at hs
          obtain ⟨hchild, rfl⟩ := System.guard_cases hs
          exact .reap hpc hchild
      | leaving =>
          rw [hpc] at hs
          dsimp only at hs
          split at hs
          next hdone =>
            injection hs with hs
            subst hs
            exact .push hpc hdone
          next hmore =>
            obtain ⟨g, hg, rfl⟩ := live_cases hs
            exact .destroy hpc (by simpa using hmore) hg
      | tidying =>
          rw [hpc] at hs
          injection hs with hs
          subst hs
          exact .tidy hpc
      | exited =>
          rw [hpc] at hs
          cases hs

/-! ## §3. One iteration after another. -/

/-- Between two iterations nothing exists under the name. -/
structure Rested (c : Config) (s : State) : Prop where
  bound : s.iteration ≤ c.total
  measured : s.measured = s.iteration - c.numWarmups.toNat
  names : s.group.semName = false ∧ s.group.shmName = false

/-- In an iteration the barrier lives one of its lives. -/
structure Underway (c : Config) (s : State) : Prop where
  bound : s.iteration < c.total
  measured : s.measured = s.iteration - c.numWarmups.toNat
  life : (lifeSystem 2 c.loopSize).Reachable s.group

/-- What holds at each place of the parent. -/
def At (c : Config) (s : State) : Pc → Prop
  | .clearing => s.iteration = 0 ∧ s.measured = 0
  | .ready => Rested c s
  | .running => Underway c s ∧ (s.group.life parent).hasDeparted = false
  | .waiting => Underway c s ∧ LoopDone c s.group
  | .leaving =>
      Underway c s ∧ (s.group.life child).isFinished = true ∧
        (LoopDone c s.group ∨ (s.group.life parent).hasDeparted = true)
  | .tidying =>
      s.iteration < c.total ∧ s.measured = s.iteration + 1 - c.numWarmups.toNat ∧
        Dissolved c.loopSize s.group
  | .exited => Rested c s ∧ c.total ≤ s.iteration

def Inv (c : Config) (s : State) : Prop := At c s s.pc

theorem parent_ne_child : parent ≠ child := by
  decide

theorem eq_parent_or_child (p : Fin 2) : p = parent ∨ p = child := by
  by_cases hp : p.val = 0
  · exact .inl (Fin.ext hp)
  · exact .inr (Fin.ext (show p.val = 1 by omega))

/-- A step of a life within the iteration. -/
theorem Underway.live (h : Underway c s) {p : Fin 2} {pc : Pc}
    (hs : lifeStep 2 c.loopSize s.group p = some g) :
    Underway c { s with pc := pc, group := g } :=
  ⟨h.bound, h.measured, h.life.tail (a := p) trivial hs⟩

/-- The child's steps leave the parent where it is. -/
theorem loopDone_of_child (hs : lifeStep 2 c.loopSize g child = some g') (h : LoopDone c g) :
    LoopDone c g' := by
  unfold LoopDone
  rw [Barrier.lifeStep_life_of_ne hs parent_ne_child,
    Barrier.lifeStep_user_of_ne hs parent_ne_child]
  exact h

/-- In its constructor and in its calls the parent stays short of its
destructor. -/
theorem not_departed_of_run (hs : lifeStep 2 c.loopSize g parent = some g')
    (hstay : (g.life parent).hasDeparted = false) (hmore : ¬ LoopDone c g) :
    (g'.life parent).hasDeparted = false := by
  cases hdep : (g'.life parent).hasDeparted with
  | false => rfl
  | true =>
      obtain ⟨_, hl, hge, _⟩ := Barrier.depart_of_step hs hstay hdep
      exact absurd ⟨hl, hge⟩ hmore

/-- Behind its calls, a step of the parent is one of its destructor. -/
theorem departed_of_destroy (hs : lifeStep 2 c.loopSize g parent = some g')
    (h : LoopDone c g ∨ (g.life parent).hasDeparted = true) :
    (g'.life parent).hasDeparted = true := by
  rcases h with ⟨hl, hge⟩ | hdep
  · rw [Barrier.lifeStep_depart hl (by omega)] at hs
    injection hs with hs
    rw [← hs, Group.setLife_self]
    rfl
  · exact Barrier.hasDeparted_of_step hs hdep

theorem restart_init (h : s.group.semName = false ∧ s.group.shmName = false) :
    (lifeSystem 2 c.loopSize).init s.group.restart :=
  ⟨h.1, h.2, fun _ => ⟨rfl, rfl, rfl⟩⟩

/-- **Step lemma.** -/
theorem Inv.move {a : Act} (h : Inv c s) (hmove : Move c s a s') : Inv c s' := by
  unfold Inv at h
  cases hmove with
  | clear hpc =>
      rw [hpc] at h
      obtain ⟨hiter, hmeas⟩ := h
      refine ⟨?_, ?_, rfl, rfl⟩
      · show s.iteration ≤ _
        omega
      · show s.measured = s.iteration - _
        omega
  | fork hpc hlt =>
      rw [hpc] at h
      exact ⟨⟨hlt, h.measured, .of_init (restart_init h.names)⟩, rfl⟩
  | exit hpc hge =>
      rw [hpc] at h
      exact ⟨⟨h.bound, h.measured, h.names⟩, hge⟩
  | run hpc hmore hs =>
      rw [hpc] at h
      show At c _ s.pc
      rw [hpc]
      exact ⟨h.1.live hs, not_departed_of_run hs h.2 hmore⟩
  | finish hpc hdone =>
      rw [hpc] at h
      exact ⟨⟨h.1.bound, h.1.measured, h.1.life⟩, hdone⟩
  | reap hpc hchild =>
      rw [hpc] at h
      exact ⟨⟨h.1.bound, h.1.measured, h.1.life⟩, hchild, .inl h.2⟩
  | destroy hpc hmore hs =>
      rw [hpc] at h
      obtain ⟨hway, hchild, hplace⟩ := h
      show At c _ s.pc
      rw [hpc]
      refine ⟨hway.live hs, ?_, .inr (departed_of_destroy hs hplace)⟩
      show (Group.life _ child).isFinished = true
      rw [Barrier.lifeStep_life_of_ne hs parent_ne_child.symm]
      exact hchild
  | push hpc hdone =>
      rw [hpc] at h
      obtain ⟨hway, hchild, _⟩ := h
      have hmeas := hway.measured
      have hall : ∀ q, (s.group.life q).isFinished = true := by
        intro q
        rcases eq_parent_or_child q with rfl | rfl
        · exact hdone
        · exact hchild
      refine ⟨hway.bound, ?_,
        Barrier.dissolved_of_finished (by decide) (by decide) hway.life hall⟩
      show s.push c = s.iteration + 1 - _
      unfold State.push
      split <;> omega
  | tidy hpc =>
      rw [hpc] at h
      exact ⟨h.1, h.2.1, rfl, rfl⟩
  | child hpc hs =>
      show At c _ s.pc
      cases hp : s.pc with
      | running =>
          rw [hp] at h
          refine ⟨h.1.live hs, ?_⟩
          show (Group.life _ parent).hasDeparted = false
          rw [Barrier.lifeStep_life_of_ne hs parent_ne_child]
          exact h.2
      | waiting =>
          rw [hp] at h
          exact ⟨h.1.live hs, loopDone_of_child hs h.2⟩
      | clearing | ready | leaving | tidying | exited =>
          rw [hp] at hpc
          cases hpc

theorem inv_of_reachable (h : (system c).Reachable s) : Inv c s := by
  refine System.invariant (I := Inv c) ?_ ?_ h
  · intro t ht
    obtain ⟨hpc, hiter, hmeas⟩ := ht
    show At c t t.pc
    rw [hpc]
    exact ⟨hiter, hmeas⟩
  · intro t a t' hinv hs
    exact hinv.move (step_move hs)

/-! ## §4. What is measured. -/

/-- What holds in every run. -/
structure Sound (c : Config) (s : State) : Prop where
  /-- Between `fork` and `push_back` the group is one of a life that started
  from nothing. -/
  life : s.pc = .running ∨ s.pc = .waiting ∨ s.pc = .leaving →
    (lifeSystem 2 c.loopSize).Reachable s.group
  /-- Nothing is there when an iteration starts, and `ClearResource` behind
  it finds nothing either. -/
  names : s.pc = .ready ∨ s.pc = .tidying ∨ s.pc = .exited →
    s.group.semName = false ∧ s.group.shmName = false
  /-- Nobody is inside the barrier when `ClearResource` runs. -/
  cleared : s.pc = .tidying → ∀ p, (s.group.life p).isFinished = true
  /-- No call is over when the parent reads the clock for the first time. -/
  opening : s.pc = .running → (s.group.wait.users parent).entered = 0 →
    ∀ p, (s.group.wait.users p).completed = 0
  /-- Every call is under way, and the parent's are over, when it reads the
  clock for the second time. -/
  closing : s.pc = .waiting → (s.group.wait.users parent).completed = c.loopSize ∧
    ∀ p, (s.group.wait.users p).entered = c.loopSize
  /-- An iteration of the second loop adds one measurement. -/
  measured : s.pc = .ready ∨ s.pc = .exited → s.measured = s.iteration - c.numWarmups.toNat

/-- Nobody has returned from a call before everybody has made one. -/
theorem opening_of_reachable (hg : (lifeSystem 2 c.loopSize).Reachable g)
    (hzero : (g.wait.users parent).entered = 0) (p : Fin 2) :
    (g.wait.users p).completed = 0 := by
  rcases Barrier.phase_of_reachable (by decide) hg with hu | ⟨k, hk⟩
  · rw [hu.users p]
    rfl
  · have hparent := hk.round.entered_bounds parent
    have hp := hk.round.entered_bounds p
    omega

/-- A parent with its calls behind it has seen the child begin its last. -/
theorem closing_of_loopDone (hg : (lifeSystem 2 c.loopSize).Reachable g) (hdone : LoopDone c g) :
    (g.wait.users parent).completed = c.loopSize ∧
      ∀ p, (g.wait.users p).entered = c.loopSize := by
  obtain ⟨hl, hge⟩ := hdone
  obtain ⟨k, hk⟩ := Barrier.live_of_running (by decide) hg hl
  have hparent := hk.round.entered_bounds parent
  have hle := hk.entered_le parent
  have hcomp := hk.round.completed_le parent
  refine ⟨by omega, fun p => ?_⟩
  have hp := hk.round.entered_bounds p
  have hlep := hk.entered_le p
  omega

theorem Inv.sound (h : Inv c s) : Sound c s := by
  unfold Inv at h
  have hall : ∀ {pc : Pc}, s.pc = pc → At c s pc := by
    rintro pc rfl
    exact h
  refine ⟨?_, ?_, ?_, ?_, ?_, ?_⟩
  · rintro (hpc | hpc | hpc)
    · exact (hall hpc).1.life
    · exact (hall hpc).1.life
    · exact (hall hpc).1.life
  · rintro (hpc | hpc | hpc)
    · exact (hall hpc).names
    · exact (hall hpc).2.2.names
    · exact (hall hpc).1.names
  · intro hpc
    exact (hall hpc).2.2.finished
  · intro hpc hzero p
    exact opening_of_reachable (hall hpc).1.life hzero p
  · intro hpc
    exact closing_of_loopDone (hall hpc).1.life (hall hpc).2
  · rintro (hpc | hpc)
    · exact (hall hpc).measured
    · exact (hall hpc).1.measured

/-! ## §5. Nobody is kept waiting. -/

section

variable {p : Fin 2}

/-- The barrier as a device of the two participants. -/
abbrev device : Device (Fin 2) (Group 2) := barrierDevice (Equiv.refl (Fin 2))

theorem device_live (hL : 1 ≤ c.loopSize) :
    device.Live c.loopSize (lifeSystem 2 c.loopSize).Reachable
      (crossings (Equiv.refl (Fin 2))) :=
  Barrier.barrierDevice_live (by decide) (.inr hL) _

/-- Behind its last call a participant can get through its destructor. -/
theorem destructor_moves (hL : 1 ≤ c.loopSize) (hg : (lifeSystem 2 c.loopSize).Reachable g)
    (hst : device.stage g p = .destroying ∨
      (device.stage g p = .outside ∧ (g.wait.users p).completed = c.loopSize)) :
    ∃ g', lifeStep 2 c.loopSize g p = some g' ∧ g' ≠ g := by
  obtain ⟨g', hs, hne⟩ := (device_live hL).destroy g p hg hst
  exact ⟨g', Barrier.device_life_of hs (.inr hst), hne⟩

/-- A participant with every call behind it is outside the barrier. -/
theorem outside_of_completed (hg : (lifeSystem 2 c.loopSize).Reachable g)
    (hl : g.life p = .running) (hge : c.loopSize ≤ (g.wait.users p).completed) :
    device.stage g p = .outside := by
  obtain ⟨k, hk⟩ := Barrier.live_of_running (by decide) hg hl
  have hle := hk.entered_le p
  have hidle : (g.wait.users p).pc = .idle := by
    cases hp : (g.wait.users p).pc with
    | idle => rfl
    | polling =>
        have hu := hk.round.polling hp
        omega
    | passed =>
        have hu := hk.round.passed hp
        omega
  show Barrier.stageOf (g.life p) (g.wait.users p).pc = _
  rw [hl, hidle]
  rfl

/-- **The child gets through** while the parent waits for it. -/
theorem child_moves (hL : 1 ≤ c.loopSize) (hg : (lifeSystem 2 c.loopSize).Reachable g)
    (hdone : LoopDone c g) (hmore : (g.life child).isFinished = false) :
    ∃ g', lifeStep 2 c.loopSize g child = some g' ∧ g' ≠ g := by
  obtain ⟨_, hentered⟩ := closing_of_loopDone hg hdone
  have hout := outside_of_completed hg hdone.1 hdone.2
  cases hst : device.stage g child with
  | constructing =>
      -- whoever can go on with its constructor, it is not the parent
      obtain ⟨q, g', hq, hs, hne⟩ := (device_live hL).construct g child hg hst
      rcases eq_parent_or_child q with rfl | rfl
      · rw [hout] at hq
        cases hq
      · exact ⟨g', Barrier.device_life_of hs (.inl hq), hne⟩
  | outside =>
      obtain ⟨hl, hpc⟩ : g.life child = .running ∧ (g.wait.users child).pc = .idle :=
        Barrier.stage_outside hst
      obtain ⟨k, hk⟩ := Barrier.live_of_running (by decide) hg hl
      have hu := hk.round.idle hpc
      have hc := hentered child
      exact destructor_moves hL hg (.inr ⟨hst, by omega⟩)
  | inside =>
      obtain ⟨hl, hpc⟩ := Barrier.stage_inside hst
      obtain ⟨k, hk⟩ := Barrier.live_of_running (by decide) hg hl
      obtain ⟨g', hs, hne⟩ := (device_live hL).call g child hg hst (fun q => by
        show (g.wait.users child).entered ≤ (g.wait.users q).entered
        rw [hentered child, hentered q])
      exact ⟨g', (Barrier.callStep_eq hk hl fun h => absurd h hpc).symm.trans hs, hne⟩
  | destroying => exact destructor_moves hL hg (.inl hst)
  | gone =>
      have hfin : (g.life child).isFinished = true := Barrier.stage_gone hst
      rw [hmore] at hfin
      cases hfin

end

theorem canProgress_of_live {p : Fin 2} {a : Act} (hs : step c s a = s.live c p)
    (h : ∃ g', lifeStep 2 c.loopSize s.group p = some g' ∧ g' ≠ s.group) :
    (system c).CanProgress s := by
  obtain ⟨g', hg', hne⟩ := h
  have hlive : s.live c p = some { s with group := g' } := by
    rw [State.live, hg']
    rfl
  exact .of_step (f := State.group) (hs.trans hlive) hne

theorem canProgress_of_parent (hs : parentStep c s = some s') (hne : s'.pc ≠ s.pc) :
    (system c).CanProgress s :=
  .of_step (f := State.pc) (a := Act.parent) hs hne

theorem childStep_of_hasChild (h : s.pc.hasChild = true) : step c s .child = s.live c child :=
  if_pos h

/-- **Somebody can go on** until the parent is through. -/
theorem Inv.canProgress (h : Inv c s) (hL : 1 ≤ c.loopSize ∨ c.total = 0)
    (hpc : s.pc ≠ .exited) : (system c).CanProgress s := by
  unfold Inv at h
  have hunfold := parentStep.eq_def c s
  cases hp : s.pc with
  | clearing =>
      rw [hp] at hunfold
      exact canProgress_of_parent hunfold (by rw [hp]; nofun)
  | ready =>
      rw [hp] at hunfold
      exact .of_branch (f := State.pc) (a := Act.parent) hunfold (by rw [hp]; nofun)
        (by rw [hp]; nofun)
  | running =>
      rw [hp] at h hunfold
      have hL : 1 ≤ c.loopSize := by
        have hlt := h.1.bound
        omega
      by_cases hdone : LoopDone c s.group
      · exact canProgress_of_parent (hunfold.trans (if_pos hdone)) (by rw [hp]; nofun)
      have hgo : (lifeSystem 2 c.loopSize).CanProgress s.group := by
        refine (Barrier.neverHangs_of (by decide) (.inr hL) s.group h.1.life).1 ⟨parent, ?_⟩
        cases hfin : (s.group.life parent).isFinished with
        | false => rfl
        | true =>
            obtain ⟨last, hl⟩ := Barrier.LifePc.departed_of_isFinished hfin
            have hstay := h.2
            rw [hl] at hstay
            cases hstay
      obtain ⟨p, g', hg', hne⟩ := hgo
      rcases eq_parent_or_child p with rfl | rfl
      · exact canProgress_of_live (a := .parent) (hunfold.trans (if_neg hdone)) ⟨g', hg', hne⟩
      · exact canProgress_of_live (childStep_of_hasChild (by rw [hp]; rfl)) ⟨g', hg', hne⟩
  | waiting =>
      rw [hp] at h hunfold
      have hL : 1 ≤ c.loopSize := by
        have hlt := h.1.bound
        omega
      cases hfin : (s.group.life child).isFinished with
      | true => exact canProgress_of_parent (hunfold.trans (if_pos hfin)) (by rw [hp]; nofun)
      | false =>
          exact canProgress_of_live (childStep_of_hasChild (by rw [hp]; rfl))
            (child_moves hL h.1.life h.2 hfin)
  | leaving =>
      rw [hp] at h hunfold
      obtain ⟨hway, hchild, hplace⟩ := h
      have hL : 1 ≤ c.loopSize := by
        have hlt := hway.bound
        omega
      cases hfin : (s.group.life parent).isFinished with
      | true => exact canProgress_of_parent (hunfold.trans (if_pos hfin)) (by rw [hp]; nofun)
      | false =>
          refine canProgress_of_live (a := .parent)
            (hunfold.trans (if_neg (by rw [hfin]; nofun))) (destructor_moves hL hway.life ?_)
          rcases hplace with ⟨hl, hge⟩ | hdep
          · have hcomp := (closing_of_loopDone hway.life ⟨hl, hge⟩).1
            exact .inr ⟨outside_of_completed hway.life hl hge, hcomp⟩
          · obtain ⟨last, todo, hl⟩ := Barrier.exists_of_hasDeparted hdep
            have hst : device.stage s.group parent =
                Barrier.stageOf (.departed last todo) (s.group.wait.users parent).pc := by
              rw [← hl]
              rfl
            rcases Barrier.stage_departed last todo (s.group.wait.users parent).pc with h | h
            · exact .inl (hst.trans h)
            · have hgone := Barrier.stage_gone h
              rw [hl, hgone] at hfin
              cases hfin
  | tidying =>
      rw [hp] at hunfold
      exact canProgress_of_parent hunfold (by rw [hp]; nofun)
  | exited => exact absurd hp hpc

/-! ## §6. The hang. -/

/-- Some process can go on until the parent is through. -/
def HangFree (c : Config) : Prop :=
  ∀ s, (system c).Reachable s → s.pc ≠ .exited → (system c).CanProgress s

/-- The first iteration up to the join loop in both constructors; there the
child is let in, and runs its destructor before the parent polls. -/
def overtaken : List Act :=
  [.parent, .parent, .parent, .child, .child, .child, .child, .child, .child, .child, .child]

/-- **Without a call to make, the child leaves the parent behind**, which
polls `1 >= 2` for ever. -/
theorem exists_hung (hL : c.loopSize = 0) (htotal : 0 < c.total) :
    ∃ s, (system c).Reachable s ∧ s.pc ≠ .exited ∧ ¬ (system c).CanProgress s := by
  obtain ⟨warmups, iterations, loopSize⟩ := c
  obtain rfl : loopSize = 0 := hL
  set c : Config := ⟨warmups, iterations, 0⟩ with hc
  set s₀ : State := ⟨.clearing, 0, 0, Group.initial Barrier.ShmData.fresh⟩ with hs₀
  set s₁ : State := { s₀ with pc := .ready, group := clearResource s₀.group } with hs₁
  set s₂ : State := { s₁ with pc := .running, group := s₁.group.restart } with hs₂
  have hclear : (system c).step s₀ .parent = some s₁ := rfl
  have hfork : (system c).step s₁ .parent = some s₂ := if_pos htotal
  have hrun : ∃ s, (system c).exec s₂ overtaken = some s ∧ s.pc = .running ∧
      s.group.life parent = .joining ∧ s.group.wait.shm.nUsers = 1 ∧
      s.group.life child = .departed false .done :=
    ⟨_, rfl, rfl, rfl, rfl, rfl⟩
  obtain ⟨s, hexec, hpc, hjoin, hnu, hgone⟩ := hrun
  have hinit : (system c).init s₀ := ⟨rfl, rfl, rfl⟩
  have hreach : (system c).Reachable s₂ :=
    ((System.ReachableVia.of_init hinit).tail trivial hclear).tail trivial hfork
  refine ⟨s, hreach.steps (System.steps_of_exec _ hexec), by rw [hpc]; nofun, ?_⟩
  rintro ⟨a, s', hs, hne⟩
  cases step_move hs with
  | run _ _ hpoll =>
      rw [Barrier.lifeStep_pollFails hjoin (by omega)] at hpoll
      injection hpoll with hpoll
      subst hpoll
      exact hne rfl
  | child _ hdone =>
      rw [Barrier.lifeStep_departed hgone] at hdone
      cases hdone
  | finish _ hdone =>
      have hl := hdone.1
      rw [hjoin] at hl
      cases hl
  | clear h | fork h | exit h | reap h | destroy h | push h | tidy h =>
      rw [hpc] at h
      cases h

/-- **The benchmark never hangs exactly with a call to make**, or with no
iteration. -/
theorem hangFree_iff (c : Config) : HangFree c ↔ 1 ≤ c.loopSize ∨ c.total = 0 := by
  constructor
  · intro hfree
    by_contra hcond
    obtain ⟨s, hreach, hpc, hstuck⟩ := exists_hung (c := c) (by omega) (by omega)
    exact hstuck (hfree s hreach hpc)
  · intro hL s h hpc
    exact (inv_of_reachable h).canProgress hL hpc

/-- **What every run does**, and which can hang. -/
theorem barrier_latency (c : Config) :
    (∀ s, (system c).Reachable s → Sound c s) ∧
      (HangFree c ↔ 1 ≤ c.loopSize ∨ c.total = 0) :=
  ⟨fun _ h => (inv_of_reachable h).sound, hangFree_iff c⟩

/-! ## §7. Every fair run ends. -/

/-- Steps of a whole life of both participants, and those around it. -/
def Config.cycle (c : Config) : Nat := 2 * (10 + 3 * c.loopSize) + 5

/-- Steps left: of the iteration under way, and `cycle` for each to come. -/
def State.rank (c : Config) (s : State) : Nat :=
  match s.pc with
  | .clearing => (c.total - s.iteration) * c.cycle + 2
  | .ready => (c.total - s.iteration) * c.cycle + 1
  | .running => (c.total - (s.iteration + 1)) * c.cycle + s.group.rank c.loopSize + 5
  | .waiting => (c.total - (s.iteration + 1)) * c.cycle + s.group.rank c.loopSize + 4
  | .leaving => (c.total - (s.iteration + 1)) * c.cycle + s.group.rank c.loopSize + 3
  | .tidying => (c.total - (s.iteration + 1)) * c.cycle + 2
  | .exited => 0

theorem rank_restart (g : Group 2) (k : Nat) : g.restart.rank k = 2 * (10 + 3 * k) := by
  have heach : ∀ p, g.restart.rankOf k p = 10 + 3 * k := fun _ => rfl
  unfold Barrier.Group.rank
  rw [Finset.sum_congr rfl fun p _ => heach p, Finset.sum_const, Finset.card_univ,
    Fintype.card_fin]
  rfl

/-- **Every move but a failed poll lowers the rank.** -/
theorem Move.rank_lt {a : Act} (hmove : Move c s a s') (hne : s' ≠ s) :
    s'.rank c < s.rank c := by
  have hgroup : ∀ {g : Group 2}, { s with group := g } ≠ s → g ≠ s.group := by
    rintro g hne rfl
    exact hne rfl
  unfold State.rank
  cases hmove with
  | clear hpc =>
      simp only [hpc]
      omega
  | fork hpc hlt =>
      have hcycle : (c.total - s.iteration) * c.cycle =
          (c.total - (s.iteration + 1)) * c.cycle + c.cycle := by
        rw [show c.total - s.iteration = c.total - (s.iteration + 1) + 1 by omega,
          Nat.succ_mul]
      simp only [hpc, rank_restart, hcycle]
      unfold Config.cycle
      omega
  | exit hpc =>
      simp only [hpc]
      omega
  | run hpc hmore hs | destroy hpc hmore hs =>
      have hlower := Barrier.lifeStep_rank hs (hgroup hne)
      simp only [hpc]
      omega
  | finish hpc | reap hpc | tidy hpc =>
      simp only [hpc]
      omega
  | push hpc =>
      simp only [hpc]
      omega
  | child hpc hs =>
      have hlower := Barrier.lifeStep_rank hs (hgroup hne)
      cases hp : s.pc with
      | running | waiting =>
          simp only
          omega
      | clearing | ready | leaving | tidying | exited =>
          rw [hp] at hpc
          cases hpc

theorem ranked (c : Config) : (system c).Ranked (State.rank c) := by
  intro s a s' _ hs hne
  exact (step_move hs).rank_lt hne

/-- The parent is through. -/
structure Over (c : Config) (s : State) : Prop where
  pc : s.pc = .exited
  /-- One measurement for each iteration of the second loop. -/
  measured : s.measured = c.numIterations.toNat
  names : s.group.semName = false ∧ s.group.shmName = false

theorem over_of_exited (h : (system c).Reachable s) (hpc : s.pc = .exited) : Over c s := by
  have hinv := inv_of_reachable h
  unfold Inv at hinv
  rw [hpc] at hinv
  obtain ⟨hrest, hge⟩ := hinv
  have hmeas := hrest.measured
  have hbound := hrest.bound
  refine ⟨hpc, ?_, hrest.names⟩
  unfold Config.total at hbound hge
  omega

/-- **`barrier_latency` ends**, with a call to make in each iteration. -/
theorem barrier_latency_terminates (c : Config) (hL : 1 ≤ c.loopSize ∨ c.total = 0)
    (r : (system c).Behaviour) (hfair : r.WeaklyFair id) :
    ∃ i, ∀ j, i ≤ j → Over c (r.state j) := by
  obtain ⟨i, hi, hstay⟩ := r.terminates (G := fun s => s.pc = .exited) (ranked c)
    (fun s hs hpc => (inv_of_reachable hs).canProgress hL hpc) hfair
  refine ⟨i, fun j hij => ?_⟩
  rw [hstay j hij]
  exact over_of_exited (r.reachable i) hi

/-- One warmup and three measurements, of two calls each. -/
theorem barrier_latency_terminates_four :
    ∃ r : (system ⟨1, 3, 2⟩).Behaviour, r.WeaklyFair id ∧
      ∃ i, ∀ j, i ≤ j → Over ⟨1, 3, 2⟩ (r.state j) := by
  obtain ⟨r, _, hfair⟩ := System.exists_weaklyFair (ranked ⟨1, 3, 2⟩)
    (s := ⟨.clearing, 0, 0, Group.initial Barrier.ShmData.fresh⟩) ⟨rfl, rfl, rfl⟩ id
  exact ⟨r, hfair, barrier_latency_terminates ⟨1, 3, 2⟩ (.inl (by decide)) r hfair⟩

end Akbench.BarrierLatency
