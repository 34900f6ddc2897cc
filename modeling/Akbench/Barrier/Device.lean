/-
  Akbench.Barrier.Device
  ──────────────────────
  **`SenseReversingBarrier` AS THE BARRIER OF A PROTOCOL.**

  The protocols of this development meet at a `Rendezvous`.  Here the class
  itself takes that place: its constructor before a protocol, the critical
  sections of `Wait()` in the place of each call, its destructor behind it.

    • `barrierDevice` — constructor, calls and destructor, as code that the
      protocol's parties run;
    • `barrierDevice_implements` — to its users it is a rendezvous, provided
      they make the calls they were counted for;
    • `barrierDevice_live` — with a call to make, it never keeps everybody
      waiting.
-/
import Akbench.Barrier.Termination
import Akbench.Barrier.Safety
import Akbench.Lib.Client

namespace Akbench.Barrier

open Client (Stage)

variable {ι : Type*} {n total : Nat} {g g' : Group n} {p q : ι} {e : ι ≃ Fin n}

/-! ## §1. The class as a device. -/

/-- Where a participant is, by its life and by its place in `Wait()`. -/
def stageOf : LifePc → WaitPc → Stage
  | .start, _ | .opened, _ | .mapped, _ | .joining, _ => .constructing
  | .running, .idle => .outside
  | .running, _ => .inside
  | .departed _ .done, _ => .gone
  | .departed _ _, _ => .destroying

/-- One step of a call of `Wait()`, which may be made any number of times. -/
def callStep (g : Group n) (p : Fin n) : Option (Group n) :=
  (waitStep n ((g.wait.users p).entered + 1) g.wait p).map fun w => { g with wait := w }

/-- `SenseReversingBarrier(n, id)`.  A life of no calls is the constructor and
then the destructor. -/
def barrierDevice (e : ι ≃ Fin n) : Device ι (Group n) where
  init := (lifeSystem n 0).init
  life g p := lifeStep n 0 g (e p)
  call g p := callStep g (e p)
  stage g p := stageOf (g.life (e p)) (g.wait.users (e p)).pc

/-- What its users have begun and finished. -/
def crossings (e : ι ≃ Fin n) (g : Group n) : Rendezvous ι := (rendezvousOf g.wait).comap e

/-! ## §2. Its steps in the lives of users that make `total` calls. -/

theorem stage_constructing {l : LifePc} {w : WaitPc} (h : stageOf l w = .constructing) :
    l = .start ∨ l = .opened ∨ l = .mapped ∨ l = .joining := by
  cases l with
  | start => exact .inl rfl
  | opened => exact .inr (.inl rfl)
  | mapped => exact .inr (.inr (.inl rfl))
  | joining => exact .inr (.inr (.inr rfl))
  | running => cases w <;> cases h
  | departed last todo => cases todo <;> cases h

theorem stage_outside {l : LifePc} {w : WaitPc} (h : stageOf l w = .outside) :
    l = .running ∧ w = .idle := by
  cases l with
  | running =>
      cases w with
      | idle => exact ⟨rfl, rfl⟩
      | polling | passed => cases h
  | start | opened | mapped | joining => cases h
  | departed last todo => cases todo <;> cases h

theorem stage_inside {l : LifePc} {w : WaitPc} (h : stageOf l w = .inside) :
    l = .running ∧ w ≠ .idle := by
  cases l with
  | running =>
      cases w with
      | idle => cases h
      | polling | passed => exact ⟨rfl, nofun⟩
  | start | opened | mapped | joining => cases h
  | departed last todo => cases todo <;> cases h

theorem stage_destroying {l : LifePc} {w : WaitPc} (h : stageOf l w = .destroying) :
    ∃ last todo, l = .departed last todo ∧ todo ≠ .done := by
  cases l with
  | departed last todo =>
      refine ⟨last, todo, rfl, ?_⟩
      rintro rfl
      cases h
  | start | opened | mapped | joining => cases h
  | running => cases w <;> cases h

theorem stage_gone {l : LifePc} {w : WaitPc} (h : stageOf l w = .gone) :
    l.isFinished = true := by
  cases l with
  | departed last todo =>
      cases todo with
      | done => rfl
      | semClose | semUnlink | munmap | shmClose | shmUnlink => cases h
  | start | opened | mapped | joining => cases h
  | running => cases w <;> cases h

theorem stage_running {w : WaitPc} (h : w ≠ .idle) : stageOf .running w = .inside := by
  cases w with
  | idle => exact absurd rfl h
  | polling | passed => rfl

theorem stage_departed (last : Bool) (todo : Cleanup) (w : WaitPc) :
    stageOf (.departed last todo) w = .destroying ∨ stageOf (.departed last todo) w = .gone := by
  cases todo with
  | done => exact .inr rfl
  | semClose | semUnlink | munmap | shmClose | shmUnlink => exact .inl rfl

/-- Only at its calls does a life depend on how many of them there are. -/
theorem lifeStep_rounds {r : Nat} {p : Fin n}
    (h : g.life p = .running → r ≤ (g.wait.users p).completed) :
    lifeStep n r g p = lifeStep n 0 g p := by
  unfold lifeStep
  cases hl : g.life p with
  | running =>
      have hge := h hl
      simp only [Nat.not_lt_zero, if_false]
      rw [if_neg (by omega)]
  | start | opened | mapped | joining | departed => rfl

/-- A step of constructor or destructor leaves everybody's calls alone. -/
theorem lifeStep_zero_users {p : Fin n} (hs : lifeStep n 0 g p = some g') :
    g'.wait.users = g.wait.users := by
  cases lifeMove_of_step hs with
  | wait _ hlt => exact absurd hlt (Nat.not_lt_zero _)
  | cleanup last todo hl g' hc => rw [(cleanupStep_frame hc).1]
  | semOpen | openExisting | create | join | letIn | pollFails | depart => rfl

/-- Inside a call the number of calls plays no part. -/
theorem waitStep_rounds {r k : Nat} {s : State n} {p : Fin n}
    (h : (s.users p).pc = .idle → (s.users p).entered < r ∧ (s.users p).entered < k) :
    waitStep n r s p = waitStep n k s p := by
  cases hpc : (s.users p).pc with
  | idle =>
      obtain ⟨h1, h2⟩ := h hpc
      simp only [waitStep, hpc, if_pos h1, if_pos h2]
  | polling | passed => simp only [waitStep, hpc]

/-- A participant in its calls lives after the creation of the segment. -/
theorem live_of_running (hn : n < wordSize) (hg : (lifeSystem n total).Reachable g) {p : Fin n}
    (hl : g.life p = .running) : ∃ k, Live total k g := by
  rcases phase_of_reachable hn hg with hu | hk
  · exfalso
    rcases hu.life p with h | h <;> rw [hl] at h <;> cases h
  · exact hk

/-- A step of a call is a step of the life. -/
theorem callStep_eq {k : Nat} (hlive : Live total k g) {p : Fin n} (hl : g.life p = .running)
    (h : (g.wait.users p).pc = .idle → (g.wait.users p).entered < total) :
    callStep g p = lifeStep n total g p := by
  have hlt : (g.wait.users p).completed < total := by
    cases hpc : (g.wait.users p).pc with
    | idle =>
        have hu := hlive.round.idle hpc
        have ht := h hpc
        omega
    | polling =>
        have hu := hlive.round.polling hpc
        have hle := hlive.entered_le p
        omega
    | passed =>
        have hu := hlive.round.passed hpc
        have hle := hlive.entered_le p
        omega
  unfold callStep lifeStep
  rw [waitStep_rounds (k := total) fun hpc => ⟨Nat.lt_succ_self _, h hpc⟩]
  simp only [hl, if_pos hlt]

/-! ## §3. The class implements a barrier. -/

theorem rendezvousOf_congr {s s' : State n} (h : s'.users = s.users) :
    rendezvousOf s' = rendezvousOf s := by
  unfold rendezvousOf
  rw [h]

theorem callStep_wait {p : Fin n} (hs : callStep g p = some g') :
    ∃ w, waitStep n ((g.wait.users p).entered + 1) g.wait p = some w ∧
      g' = { g with wait := w } := by
  obtain ⟨w, hw, rfl⟩ := Option.map_eq_some_iff.mp hs
  exact ⟨w, hw, rfl⟩

/-- A call begun from outside is an arrival. -/
theorem callStep_enter {p : Fin n} (hpc : (g.wait.users p).pc = .idle)
    (hs : callStep g p = some g') :
    g'.life = g.life ∧ rendezvousOf g'.wait = (rendezvousOf g.wait).arrive p ∧
      (g'.wait.users p).pc ≠ .idle := by
  obtain ⟨w, hw, rfl⟩ := callStep_wait hs
  refine ⟨rfl, ?_⟩
  rcases waitStep_cases hw with ⟨_, _, _, rfl⟩ | ⟨_, _, _, rfl⟩ | ⟨h, _⟩ | ⟨h, _⟩ | ⟨h, _⟩
  · rw [rendezvousOf_setUser_arrive _ _ _ (by rfl) (by rfl), State.setUser_self]
    exact ⟨rfl, nofun⟩
  · rw [rendezvousOf_setUser_arrive _ _ _ (by rfl) (by rfl), State.setUser_self]
    exact ⟨rfl, nofun⟩
  · rw [hpc] at h
    cases h
  · rw [hpc] at h
    cases h
  · rw [hpc] at h
    cases h

/-- A step inside a call stays in it, or is a departure that everybody's
arrival has made possible. -/
theorem callStep_inside {k : Nat} (hround : RoundInv n k g.wait) {p : Fin n}
    (hpc : (g.wait.users p).pc ≠ .idle) (hs : callStep g p = some g') :
    g'.life = g.life ∧
      (((g'.wait.users p).pc ≠ .idle ∧ rendezvousOf g'.wait = rendezvousOf g.wait) ∨
        ((g'.wait.users p).pc = .idle ∧ (rendezvousOf g.wait).CanLeave p ∧
          rendezvousOf g'.wait = (rendezvousOf g.wait).leave p)) := by
  obtain ⟨w, hw, rfl⟩ := callStep_wait hs
  refine ⟨rfl, ?_⟩
  rcases waitStep_cases hw with ⟨h, _⟩ | ⟨h, _⟩ | ⟨_, _, rfl⟩ | ⟨_, _, rfl⟩ | ⟨hpass, rfl⟩
  · exact absurd h hpc
  · exact absurd h hpc
  · exact .inl ⟨hpc, rfl⟩
  · left
    rw [rendezvousOf_setUser_same _ _ _ (by rfl) (by rfl), State.setUser_self]
    exact ⟨nofun, rfl⟩
  · right
    rw [rendezvousOf_setUser_leave _ _ _ (by rfl) (by rfl), State.setUser_self]
    refine ⟨rfl, fun q => ?_, rfl⟩
    have hp := hround.passed hpass
    have hq := hround.entered_bounds q
    show (g.wait.users p).entered ≤ (g.wait.users q).entered
    omega

theorem crossings_congr (e : ι ≃ Fin n) (h : rendezvousOf g'.wait = rendezvousOf g.wait) :
    crossings e g' = crossings e g :=
  congrArg (Rendezvous.comap e) h

/-- A step of one user leaves the others where they are. -/
theorem stage_of_ne [DecidableEq ι] {r : Nat} (hs : lifeStep n r g (e p) = some g')
    (hq : q ≠ p) : (barrierDevice e).stage g' q = (barrierDevice e).stage g q := by
  have hne : e q ≠ e p := fun heq => hq (e.injective heq)
  show stageOf (g'.life (e q)) _ = stageOf (g.life (e q)) _
  rw [lifeStep_life_of_ne hs hne, lifeStep_user_of_ne hs hne]

/-- What a step of constructor or destructor leads to. -/
theorem stage_of_life {p : ι} (hs : (barrierDevice e).life g p = some g') :
    ((barrierDevice e).stage g p = .constructing ∧
        ((barrierDevice e).stage g' p = .constructing ∨
          (barrierDevice e).stage g' p = .outside ∨ (barrierDevice e).stage g' p = .inside)) ∨
      ((barrierDevice e).stage g p ≠ .constructing ∧
        ((barrierDevice e).stage g' p = .destroying ∨ (barrierDevice e).stage g' p = .gone)) := by
  have hstep : lifeStep n 0 g (e p) = some g' := hs
  have husers := lifeStep_zero_users hstep
  have hmoved : ∀ {l l' : LifePc}, g.life (e p) = l → g'.life (e p) = l' →
      (barrierDevice e).stage g p = stageOf l (g.wait.users (e p)).pc ∧
        (barrierDevice e).stage g' p = stageOf l' (g.wait.users (e p)).pc := by
    intro l l' hl hl'
    refine ⟨?_, ?_⟩
    · show stageOf (g.life (e p)) _ = _
      rw [hl]
    · show stageOf (g'.life (e p)) _ = _
      rw [hl', husers]
  cases lifeMove_of_step hstep with
  | semOpen hl | openExisting hl | create hl | join hl =>
      left
      obtain ⟨h, h'⟩ := hmoved hl (Group.setLife_self g (e p) _)
      exact ⟨h, .inl h'⟩
  | letIn hl =>
      left
      obtain ⟨h, h'⟩ := hmoved hl (Group.setLife_self g (e p) _)
      refine ⟨h, .inr ?_⟩
      rw [h']
      cases (g.wait.users (e p)).pc <;> simp [stageOf]
  | pollFails hl =>
      left
      obtain ⟨h, h'⟩ := hmoved hl hl
      exact ⟨h, .inl h'⟩
  | wait _ hlt => exact absurd hlt (Nat.not_lt_zero _)
  | depart hl =>
      right
      obtain ⟨h, h'⟩ := hmoved hl (Group.setLife_self (g.withShm g.wait.shm.depart) (e p) _)
      rw [h, h']
      refine ⟨?_, stage_departed _ _ _⟩
      cases (g.wait.users (e p)).pc <;> simp [stageOf]
  | cleanup last todo hl g' hc =>
      right
      obtain ⟨todo', hl'⟩ := (cleanupStep_frame hc).2.2.1
      obtain ⟨h, h'⟩ := hmoved hl hl'
      rw [h, h']
      refine ⟨?_, stage_departed _ _ _⟩
      cases todo <;> simp [stageOf]

/-- Whoever has not been let in makes no call. -/
theorem idle_of_constructing (hn : n < wordSize) (hg : (lifeSystem n total).Reachable g)
    {p : Fin n} (hl : (g.life p).isAdmitted = false) : (g.wait.users p).pc = .idle := by
  have hfresh : g.wait.users p = User.fresh := by
    rcases phase_of_reachable hn hg with hu | ⟨k, hk⟩
    · exact hu.users p
    · exact hk.fresh p hl
  rw [hfresh]
  rfl

theorem device_life_of {p : ι} (hs : (barrierDevice e).life g p = some g')
    (hready : (barrierDevice e).stage g p = .constructing ∨
      (barrierDevice e).stage g p = .destroying ∨
      ((barrierDevice e).stage g p = .outside ∧ (crossings e g).left p = total)) :
    lifeStep n total g (e p) = some g' := by
  refine (lifeStep_rounds fun hrun => ?_).trans hs
  rcases hready with h | h | ⟨_, h⟩
  · rcases stage_constructing h with h | h | h | h <;> rw [hrun] at h <;> cases h
  · obtain ⟨last, todo, h, _⟩ := stage_destroying h
    rw [hrun] at h
    cases h
  · exact Nat.le_of_eq h.symm

/-- **`SenseReversingBarrier` is a rendezvous** to users that make the calls
they are counted for, whatever its constructors and destructors do meanwhile. -/
theorem barrierDevice_implements [DecidableEq ι] (hn : n < wordSize) (e : ι ≃ Fin n) :
    (barrierDevice e).Implements total (lifeSystem n total).Reachable (crossings e)
      (Group.rank total) where
  init g hg := by
    refine ⟨.of_init hg, ?_, fun p => ?_⟩
    · apply Rendezvous.ext
      · funext p
        show (g.wait.users (e p)).entered = 0
        rw [(hg.2.2 (e p)).2.2]
        rfl
      · funext p
        show (g.wait.users (e p)).completed = 0
        rw [(hg.2.2 (e p)).2.2]
        rfl
    · show stageOf (g.life (e p)) _ = _
      rw [(hg.2.2 (e p)).1]
      rfl
  life g p g' hg hs hready := by
    have hstep := device_life_of hs hready
    refine ⟨hg.tail trivial hstep, crossings_congr e (rendezvousOf_congr ?_), ?_,
      lifeStep_rank hstep⟩
    · exact lifeStep_zero_users hs
    · intro q hq
      exact stage_of_ne hstep hq
  constructing g p g' hg hs hst := by
    have hidle : (g.wait.users (e p)).pc = .idle := by
      apply idle_of_constructing hn hg
      rcases stage_constructing hst with h | h | h | h <;> rw [h] <;> rfl
    rcases stage_of_life hs with ⟨_, h | h | h⟩ | ⟨h, _⟩
    · exact .inl h
    · exact .inr h
    · -- whoever has just been let in is in no call yet
      have hin := (stage_inside h).2
      rw [lifeStep_zero_users hs] at hin
      exact absurd hidle hin
    · exact absurd hst h
  released g p g' hs hnot _ := by
    rcases stage_of_life hs with ⟨h, _⟩ | ⟨_, h⟩
    · exact absurd h hnot
    · exact h
  enter g p g' hg hst hlt hs := by
    obtain ⟨hl, hpc⟩ := stage_outside hst
    obtain ⟨k, hlive⟩ := live_of_running hn hg hl
    have hstep : lifeStep n total g (e p) = some g' := by
      rw [← callStep_eq hlive hl fun _ => hlt]
      exact hs
    obtain ⟨hlife, hcross, hin⟩ := callStep_enter hpc hs
    refine ⟨hg.tail trivial hstep, ?_, ?_, fun q hq => stage_of_ne hstep hq, lifeStep_rank hstep⟩
    · show (rendezvousOf g'.wait).comap e = _
      rw [hcross, Rendezvous.comap_arrive]
      rfl
    · show stageOf (g'.life (e p)) _ = _
      rw [hlife, hl]
      exact stage_running hin
  call g p g' hg hst hs := by
    obtain ⟨hl, hpc⟩ := stage_inside hst
    obtain ⟨k, hlive⟩ := live_of_running hn hg hl
    have hstep : lifeStep n total g (e p) = some g' := by
      rw [← callStep_eq hlive hl fun h => absurd h hpc]
      exact hs
    obtain ⟨hlife, hmoved⟩ := callStep_inside hlive.round hpc hs
    have hstage : (barrierDevice e).stage g' p = stageOf .running (g'.wait.users (e p)).pc := by
      show stageOf (g'.life (e p)) _ = _
      rw [hlife, hl]
    refine ⟨hg.tail trivial hstep, fun q hq => stage_of_ne hstep hq, lifeStep_rank hstep, ?_⟩
    rw [hstage]
    rcases hmoved with ⟨hin, hsame⟩ | ⟨hout, hcan, hleave⟩
    · exact .inl ⟨stage_running hin, crossings_congr e hsame⟩
    · refine .inr ⟨by rw [hout]; rfl, (Rendezvous.comap_canLeave e _ p).mpr hcan, ?_⟩
      show (rendezvousOf g'.wait).comap e = _
      rw [hleave, Rendezvous.comap_leave]
      rfl

/-! ## §4. Nobody is kept waiting. -/

/-- A step whose mover is somewhere else behind it. -/
theorem ne_of_life {l : LifePc} {p : Fin n} (hl : g'.life p = l) (hne : g.life p ≠ l) : g' ≠ g := by
  rintro rfl
  exact hne hl

/-- Before the join loop every step of the constructor is enabled. -/
theorem construct_of_not_joined {p : ι} (hp : (g.life (e p)).hasJoined = false) :
    ∃ g', (barrierDevice e).stage g p = .constructing ∧ (barrierDevice e).life g p = some g' ∧
      g' ≠ g := by
  have hstage : ∀ {l : LifePc}, g.life (e p) = l → (barrierDevice e).stage g p =
      stageOf l (g.wait.users (e p)).pc := by
    rintro l rfl
    rfl
  cases hl : g.life (e p) with
  | start =>
      refine ⟨_, hstage hl, lifeStep_start hl, ne_of_life (Group.setLife_self g (e p) _) ?_⟩
      rw [hl]
      decide
  | opened =>
      refine ⟨_, hstage hl, lifeStep_opened hl, ne_of_life (p := e p) (l := .mapped) ?_ ?_⟩
      · rw [openSegment_life, Group.setLife_self]
      · rw [hl]
        decide
  | mapped =>
      refine ⟨_, hstage hl, lifeStep_mapped hl, ne_of_life (Group.setLife_self _ (e p) _) ?_⟩
      rw [hl]
      decide
  | joining | running | departed =>
      rw [hl] at hp
      cases hp

/-- A participant in a call that everybody has begun is not kept in it. -/
theorem RoundInv.callStep_of_canLeave {k : Nat} (h : RoundInv n k g.wait) {p : Fin n}
    (hpc : (g.wait.users p).pc ≠ .idle) (hcan : (rendezvousOf g.wait).CanLeave p) :
    ∃ g', callStep g p = some g' ∧ g' ≠ g := by
  have hmove : ∀ {u : User}, waitStep n ((g.wait.users p).entered + 1) g.wait p =
      some (g.wait.setUser p u) → u.pc ≠ (g.wait.users p).pc →
      ∃ g', callStep g p = some g' ∧ g' ≠ g := by
    intro u hw hu
    refine ⟨{ g with wait := g.wait.setUser p u }, by rw [callStep, hw]; rfl, fun heq => ?_⟩
    apply hu
    rw [← State.setUser_self g.wait p u]
    exact congrArg (fun g : Group n => (g.wait.users p).pc) heq
  cases hp : (g.wait.users p).pc with
  | idle => exact absurd hp hpc
  | passed => exact hmove (waitStep_return hp) (by simp [hp])
  | polling =>
      rcases h.polling hp with ⟨hent, _⟩ | ⟨_, _, hsense⟩
      · -- with everybody counted in, the sense would have been flipped
        exfalso
        have hall : waiting k g.wait = Finset.univ := by
          apply Finset.filter_true_of_mem
          intro q _
          have hq : (g.wait.users p).entered ≤ (g.wait.users q).entered := hcan q
          have hb := h.entered_bounds q
          omega
        have hcount := h.count_eq
        have hlt := h.count_lt
        rw [hall, Finset.card_univ, Fintype.card_fin] at hcount
        omega
      · exact hmove (waitStep_poll hp hsense) (by simp [hp])

theorem exists_cleanupStep (g : Group n) (p : Fin n) (last : Bool) {todo : Cleanup}
    (htodo : todo ≠ .done) : ∃ g', cleanupStep g p last todo = some g' := by
  cases todo with
  | done => exact absurd rfl htodo
  | semClose | semUnlink | munmap | shmClose | shmUnlink => exact ⟨_, rfl⟩

/-- **The class keeps nobody waiting** whom the calls of the others have let
go, given a call to make or no one to wait for. -/
theorem barrierDevice_live [DecidableEq ι] (hn : n < wordSize) (hR : n = 1 ∨ 1 ≤ total)
    (e : ι ≃ Fin n) :
    (barrierDevice e).Live total (lifeSystem n total).Reachable (crossings e) where
  construct g p hg hst := by
    by_cases hout : ∃ q, (g.life q).hasJoined = false
    · obtain ⟨q, hq⟩ := hout
      rw [← e.apply_symm_apply q] at hq
      obtain ⟨g', h⟩ := construct_of_not_joined hq
      exact ⟨_, g', h⟩
    -- everybody has joined, so a poll of the join loop succeeds
    have hall : ∀ q, (g.life q).hasJoined = true := by
      intro q
      cases hq : (g.life q).hasJoined with
      | true => rfl
      | false => exact absurd ⟨q, hq⟩ hout
    have hl : g.life (e p) = .joining := by
      have hj := hall (e p)
      rcases stage_constructing hst with h | h | h | h
      · rw [h] at hj
        cases hj
      · rw [h] at hj
        cases hj
      · rw [h] at hj
        cases hj
      · exact h
    rcases phase_of_reachable hn hg with hu | ⟨k, hk⟩
    · rcases hu.life (e p) with h | h <;> rw [hl] at h <;> cases h
    · refine ⟨p, _, hst, lifeStep_letIn hl (hk.toCore.join_open hR hall hl),
        ne_of_life (Group.setLife_self g (e p) _) ?_⟩
      rw [hl]
      decide
  enter g p _ hst _ := by
    obtain ⟨_, hpc⟩ := stage_outside hst
    obtain ⟨w, hw, _⟩ := waitStep_idle hpc (Nat.lt_succ_self (g.wait.users (e p)).entered)
    exact ⟨_, by show callStep g (e p) = _; rw [callStep, hw]; rfl⟩
  call g p hg hst hcan := by
    obtain ⟨hl, hpc⟩ := stage_inside hst
    obtain ⟨k, hlive⟩ := live_of_running hn hg hl
    exact hlive.round.callStep_of_canLeave hpc ((Rendezvous.comap_canLeave e _ p).mp hcan)
  destroy g p hg hst := by
    rcases hst with hst | ⟨hst, _⟩
    · obtain ⟨last, todo, hl, htodo⟩ := stage_destroying hst
      obtain ⟨g', hc⟩ := exists_cleanupStep g (e p) last htodo
      refine ⟨g', (lifeStep_departed hl).trans hc, fun heq => ?_⟩
      have hlower := cleanupStep_rank hc
      rw [heq, hl, LifePc.rank_departed] at hlower
      exact Nat.lt_irrefl _ hlower
    · obtain ⟨hl, _⟩ := stage_outside hst
      refine ⟨_, lifeStep_depart hl (Nat.not_lt_zero _),
        ne_of_life (Group.setLife_self _ (e p) _) ?_⟩
      rw [hl]
      nofun

end Akbench.Barrier
