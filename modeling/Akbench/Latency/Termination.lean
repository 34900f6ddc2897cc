/-
  Akbench.Latency.Termination
  ───────────────────────────
  **THE LATENCY BENCHMARKS COME TO THEIR END.**

  The polls of `atomic` and `atomic_rel_acq` can be repeated for ever, the
  threads of `condition_variable` can be woken for nothing by a `notify_one`
  that comes late.  Counting what each party has still to do gives a rank that
  every step lowers, and with the absence of deadlocks every weakly fair run
  ends with all rounds of all iterations played.

    • §1, §2 — flags; a load that is given an old value, but a newer one than
      before, counts as a step of its own;
    • §3 — semaphores;
    • §4 — condition variables; each `notify_one` pays for one wake-up, and
      those without reason may go on up to any moment.
-/
import Akbench.Latency.RelAcq
import Akbench.Latency.Semaphore
import Akbench.Latency.Handover
import Akbench.Lib.Termination

namespace Akbench

namespace Latency

/-- What is left to both parties. -/
def both (f : Party → Nat) : Nat := f .parent + f .child

/-- One party goes on. -/
theorem both_lt {f g : Party → Nat} {p : Party} (hlt : f p < g p)
    (hother : ∀ q, q ≠ p → f q = g q) : both f < both g := by
  unfold both
  cases p with
  | parent =>
      rw [hother .child nofun]
      exact Nat.add_lt_add_right hlt _
  | child =>
      rw [hother .parent nofun]
      exact Nat.add_lt_add_left hlt _

/-- All rounds have been played. -/
theorem eq_repeated_of_length {α : Type*} [DecidableEq α] {cycle t : List α} {rounds : Nat}
    (h : (relay cycle rounds).Reachable t) (hlength : t.length = rounds * cycle.length) :
    t = repeated cycle rounds := by
  refine (relay_begins h).eq_of_length ?_
  rw [hlength, length_repeated]

end Latency

/-! ## §1. `atomic`. -/

namespace Atomic

open Latency (Party Config Op both both_lt)

variable {c : Config} {s s' : State} {p : Party}

/-- Steps left to a party in its iteration; the parent ahead of it has those of
both threads. -/
def Process.rank (c : Config) (p : Party) (q : Process) : Nat :=
  match q.pc with
  | .idle => if p = .parent then 10 * c.loopSize + 11 else 0
  | .head => 5 * (c.loopSize - q.i) + 5
  | .storing _ | .polling _ => 5 * (c.loopSize - q.i) + (4 - q.pc.offset p)
  | .returned => 1
  | .exited => 0

/-- Steps left. -/
def State.rank (c : Config) (s : State) : Nat :=
  (c.total - s.iteration) * (10 * c.loopSize + 12) + both fun p => (s.process p).rank c p

/-- A party goes on in its iteration. -/
theorem rank_moved {q : Process} (hprocess : s'.process = Function.update s.process p q)
    (hiteration : s'.iteration = s.iteration) (hlt : q.rank c p < (s.process p).rank c p) :
    s'.rank c < s.rank c := by
  unfold State.rank
  rw [hiteration, hprocess]
  refine Nat.add_lt_add_left (both_lt (p := p) ?_ fun r hr => ?_) _
  · rw [Function.update_self]
    exact hlt
  · rw [Function.update_of_ne hr]

/-- Behind a statement of the body. -/
theorem rank_behind {q : Process} {op : Op} {value : Bool} (hpc : q.pc = statement op value)
    (hlt : q.i < c.loopSize) (p : Party) :
    (q.goto (behind op p value)).rank c p < q.rank c p := by
  obtain ⟨pc, i⟩ := q
  have hpc' : pc = statement op value := hpc
  subst hpc'
  change i < c.loopSize at hlt
  cases op <;> cases p <;> cases value <;>
    simp only [Process.rank, Process.goto, statement, behind, afterStore, afterPoll, Pc.offset,
      reduceCtorEq, if_true, if_false] <;>
    omega

/-- Into the body. -/
theorem rank_first {q : Process} (hpc : q.pc = .head) (p : Party) :
    (q.goto (first p)).rank c p < q.rank c p := by
  obtain ⟨pc, i⟩ := q
  have hpc' : pc = .head := hpc
  subst hpc'
  cases p <;>
    simp only [Process.rank, Process.goto, first, Pc.offset, reduceCtorEq, if_false] <;> omega

theorem Inv.in_loop (h : Inv c s) {op : Op} {value : Bool}
    (hpc : (s.process p).pc = statement op value) : (s.process p).i < c.loopSize := by
  have hcounted := h.control.counted p
  unfold Process.Counted at hcounted
  rw [hpc] at hcounted
  cases op <;> exact hcounted

/-- The two threads begin. -/
theorem rank_launch (hpc : (s.process .parent).pc = .idle) (hiteration : s'.iteration = s.iteration)
    (hprocess : s'.process = fun _ => ⟨.head, 0⟩) : s'.rank c < s.rank c := by
  unfold State.rank
  rw [hiteration, hprocess]
  refine Nat.add_lt_add_left ?_ _
  show 5 * (c.loopSize - 0) + 5 + (5 * (c.loopSize - 0) + 5) <
    (s.process .parent).rank c .parent + (s.process .child).rank c .child
  have hparent : (s.process .parent).rank c .parent = 10 * c.loopSize + 11 := by
    unfold Process.rank
    rw [hpc]
    rfl
  rw [hparent]
  omega

/-- On to the next iteration. -/
theorem rank_join (hlt : s.iteration < c.total) (hiteration : s'.iteration = s.iteration + 1)
    (hprocess : s'.process = fun _ => ⟨.idle, 0⟩) : s'.rank c < s.rank c := by
  unfold State.rank
  rw [hiteration, hprocess]
  exact next_round_lt hlt (Nat.lt_succ_self _)

/-- The parent is through. -/
theorem rank_quit (hpc : (s.process .parent).pc = .idle) :
    ((s.process .parent).goto .exited).rank c .parent < (s.process .parent).rank c .parent := by
  unfold Process.rank
  rw [hpc]
  exact Nat.succ_pos _

theorem rank_finish {q : Process} (hpc : q.pc = .head) (p : Party) :
    (q.goto .returned).rank c p < q.rank c p := by
  unfold Process.rank
  rw [hpc]
  show 1 < _ + 5
  omega

/-- **Every step but a poll in vain lowers what is left.** -/
theorem Move.rank (hmove : Move c s p s') (hinv : Inv c s) (hne : s' ≠ s) :
    s'.rank c < s.rank c := by
  cases hmove with
  | launch hpc hlt => exact rank_launch hpc rfl rfl
  | quit hpc hge => exact rank_moved rfl rfl (rank_quit hpc)
  | join hpc hchild =>
      have hlt := hinv.control.running .parent (by rw [hpc]; rfl)
      exact rank_join hlt rfl rfl
  | enter hpc hlt => exact rank_moved rfl rfl (rank_first hpc p)
  | finish hpc hge => exact rank_moved rfl rfl (rank_finish hpc p)
  | @store _ value hpc =>
      have hpc' : (s.process p).pc = statement .signal value := hpc
      exact rank_moved rfl rfl (rank_behind hpc' (hinv.in_loop hpc') p)
  | @load _ value hpc hflag =>
      have hpc' : (s.process p).pc = statement .consume value := hpc
      exact rank_moved rfl rfl (rank_behind hpc' (hinv.in_loop hpc') p)
  | spin => exact absurd rfl hne

theorem ranked (c : Config) : (system c).Ranked (State.rank c) := by
  intro s p s' hreach hs hne
  exact (step_move hs).rank (inv_of_reachable hreach).1 hne

/-- The parent is through with all iterations. -/
theorem iteration_of_exited (h : (system c).Reachable s) (hpc : (s.process .parent).pc = .exited) :
    s.iteration = c.total := by
  have hle := (inv_of_reachable h).1.control.bound
  refine Nat.le_antisymm hle ?_
  refine System.invariant (I := fun s => (s.process .parent).pc = .exited → c.total ≤ s.iteration)
    ?_ ?_ h hpc
  · intro t ht hexited
    rw [show t = State.fresh from ht] at hexited
    cases hexited
  · intro t p t' ih hs hexited
    -- whoever is not the one to quit has exited before
    have hback : ∀ (q : Party) (pc : Pc), pc ≠ .exited →
        ((t.goto q pc).process .parent).pc = .exited → (t.process .parent).pc = .exited := by
      intro q pc hne hgone
      by_cases hq : q = .parent
      · subst hq
        rw [State.goto_process_self] at hgone
        exact absurd hgone hne
      · rw [State.goto_process_of_ne (Ne.symm hq)] at hgone
        exact hgone
    cases step_move hs with
    | launch hpc hlt => cases hexited
    | quit hpc hge => exact hge
    | join hpc hchild => cases hexited
    | enter hpc hlt =>
        refine ih (hback p (first p) ?_ hexited)
        cases p <;> nofun
    | finish hpc hge => exact ih (hback p .returned nofun hexited)
    | @store _ value hpc =>
        refine ih (hback p (afterStore p value) ?_ hexited)
        cases p <;> cases value <;> nofun
    | @load _ value hpc hflag =>
        refine ih (hback p (afterPoll p value) ?_ hexited)
        cases p <;> cases value <;> nofun
    | spin => exact ih hexited

/-- The benchmark is over. -/
structure Over (c : Config) (s : State) : Prop where
  exited : (s.process .parent).pc = .exited
  stores : s.stores = repeated trips c.rounds
  down : ∀ p, s.flag p = false

theorem over_of_exited (h : (system c).Reachable s) (hpc : (s.process .parent).pc = .exited) :
    Over c s := by
  obtain ⟨hinv, hrelay⟩ := inv_of_reachable h
  have hrun : (s.process .parent).pc.isRunning = false := by
    rw [hpc]
    rfl
  have hlength := length_between hinv hrelay hrun
  rw [iteration_of_exited h hpc] at hlength
  have hall : s.events.length = c.rounds * handshake.length := by
    rw [hlength, Nat.mul_comm, Nat.mul_comm c.loopSize]
    rfl
  refine ⟨hpc, ?_, flag_between hinv hrelay hrun⟩
  unfold State.stores
  rw [Latency.eq_repeated_of_length hrelay hall, filterMap_repeated]
  rfl

/-- **`atomic` ends.**  Whatever the two threads do between, a weakly fair run
has all `4 * loop_size` stores of every iteration made and both flags down. -/
theorem atomic_terminates (c : Config) (r : (system c).Behaviour) (hfair : r.WeaklyFair id) :
    ∃ i, ∀ j, i ≤ j → Over c (r.state j) := by
  obtain ⟨i, hi, hstay⟩ := r.terminates (ranked c) (fun s hs hpc => by
    obtain ⟨hinv, hrelay⟩ := inv_of_reachable hs
    exact canProgress hinv hrelay hpc) hfair
  refine ⟨i, fun j hij => ?_⟩
  rw [hstay j hij]
  exact over_of_exited (r.reachable i) hi

theorem atomic_terminates_two :
    ∃ r : (system ⟨2, 3⟩).Behaviour, r.WeaklyFair id ∧
      ∃ i, ∀ j, i ≤ j → Over ⟨2, 3⟩ (r.state j) := by
  obtain ⟨r, _, hfair⟩ := System.exists_weaklyFair (ranked ⟨2, 3⟩) (s := State.fresh) rfl id
  exact ⟨r, hfair, atomic_terminates ⟨2, 3⟩ r hfair⟩

end Atomic

/-! ## §2. `atomic_rel_acq`. -/

namespace RelAcq

open Latency (Party Config Op both both_lt)
open Atomic (Pc rank_moved)

variable {c : Config} {s s' : State} {p : Party} {k : Nat}

/-- The stores a party has not seen yet. -/
def State.gap (s : State) (p : Party) : Nat := (s.history p.other).stores - s.seen p

/-- Steps left, and values left to be given in vain. -/
def State.rank (c : Config) (s : State) : Nat := 2 * s.view.rank c + both s.gap

/-- A step of the benchmark leaves at most one store more to be seen. -/
theorem rank_of_view (hview : s'.view.rank c < s.view.rank c)
    (hgap : both s'.gap ≤ both s.gap + 1) : s'.rank c < s.rank c := by
  unfold State.rank
  omega

theorem gap_see (hseen : s.seen p ≤ k) : ∀ q, (s.see p k).gap q ≤ s.gap q := by
  intro q
  unfold State.gap
  show _ - Function.update s.seen p k q ≤ _
  by_cases hq : q = p
  · subst hq
    rw [Function.update_self]
    exact Nat.sub_le_sub_left hseen _
  · rw [Function.update_of_ne hq]
    exact Nat.le_refl _

theorem both_le {f g : Party → Nat} (h : ∀ q, f q ≤ g q) : both f ≤ both g :=
  Nat.add_le_add (h .parent) (h .child)

/-- A store is unseen, but by whoever made it. -/
theorem gap_store (s : State) (p : Party) (value : Bool) :
    both (fun q => (Function.update s.history p ((s.history p).store value) q.other).stores -
      s.seen q) ≤ both s.gap + 1 := by
  unfold both State.gap
  cases p with
  | parent =>
      show (s.history .child).stores - s.seen .parent +
        (((s.history .parent).store value).stores - s.seen .child) ≤
          (s.history .child).stores - s.seen .parent +
            ((s.history .parent).stores - s.seen .child) + 1
      rw [History.stores_store]
      omega
  | child =>
      show ((s.history .child).store value).stores - s.seen .parent +
        ((s.history .parent).stores - s.seen .child) ≤
          (s.history .child).stores - s.seen .parent +
            ((s.history .parent).stores - s.seen .child) + 1
      rw [History.stores_store]
      omega

theorem flipStep_rank (hinv : Atomic.Inv c s.view) (hs : flipStep c s p k = some s')
    (hne : s' ≠ s) : s'.rank c < s.rank c := by
  unfold flipStep at hs
  cases hpc : (s.process p).pc with
  | head =>
      rw [hpc] at hs
      obtain ⟨_, rfl⟩ | ⟨_, rfl⟩ := System.branch_cases hs
      · exact rank_of_view (rank_moved rfl rfl (Atomic.rank_first hpc p)) (Nat.le_succ _)
      · exact rank_of_view (rank_moved rfl rfl (Atomic.rank_finish hpc p)) (Nat.le_succ _)
  | storing value =>
      rw [hpc] at hs
      injection hs with hs
      subst hs
      have hpc' : (s.view.process p).pc = Atomic.statement .signal value := hpc
      have hlower := Atomic.rank_behind hpc' (hinv.in_loop hpc') p
      exact rank_of_view (rank_moved rfl rfl hlower) (gap_store s p value)
  | polling value =>
      rw [hpc] at hs
      dsimp only at hs
      split at hs
      next hk =>
        have hgap := both_le (gap_see hk.1)
        split at hs
        next hread =>
          injection hs with hs
          subst hs
          have hpc' : (s.view.process p).pc = Atomic.statement .consume value := hpc
          have hlower := Atomic.rank_behind hpc' (hinv.in_loop hpc') p
          exact rank_of_view (rank_moved rfl rfl hlower) (Nat.le_succ_of_le hgap)
        next =>
          injection hs with hs
          subst hs
          -- a value newer than the last one, or no change at all
          have hlt : s.seen p < k := by
            refine Nat.lt_of_le_of_ne hk.1 ?_
            rintro rfl
            apply hne
            unfold State.see
            rw [Function.update_eq_self]
          refine Nat.add_lt_add_left (both_lt (p := p) ?_ fun q hq => ?_) _
          · unfold State.gap
            show _ - Function.update s.seen p k p < _
            rw [Function.update_self]
            show (s.history p.other).stores - k < _
            omega
          · unfold State.gap
            show _ - Function.update s.seen p k q = _
            rw [Function.update_of_ne hq]
            rfl
      next => cases hs
  | idle | returned | exited =>
      rw [hpc] at hs
      cases hs

theorem ranked (c : Config) : (system c).Ranked (State.rank c) := by
  rintro s ⟨p, k⟩ s' hreach hs hne
  obtain ⟨hcoherent, hview⟩ := refines hreach
  have hinv := (Atomic.inv_of_reachable hview).1
  have hflip : ∀ {t : State}, flipStep c s p k = some t → t ≠ s → t.rank c < s.rank c :=
    fun ht => flipStep_rank hinv ht
  change step c s (p, k) = some s' at hs
  unfold step at hs
  cases p with
  | child => exact hflip hs hne
  | parent =>
      dsimp only at hs
      cases hpc : (s.process .parent).pc with
      | idle =>
          rw [hpc] at hs
          obtain ⟨_, rfl⟩ | ⟨_, rfl⟩ := System.branch_cases hs
          · exact rank_of_view (Atomic.rank_launch hpc rfl rfl)
              (Nat.le_succ_of_le (both_le (gap_see (hcoherent.seen_le .child))))
          · exact rank_of_view (rank_moved rfl rfl (Atomic.rank_quit hpc)) (Nat.le_succ _)
      | returned =>
          rw [hpc] at hs
          obtain ⟨_, rfl⟩ := System.guard_cases hs
          have hpc' : (s.view.process .parent).pc = .returned := hpc
          have hlt := hinv.control.running .parent (by rw [hpc']; rfl)
          exact rank_of_view (Atomic.rank_join hlt rfl rfl)
            (Nat.le_succ_of_le (both_le (gap_see (hcoherent.seen_le .parent))))
      | head | storing | polling | exited =>
          rw [hpc] at hs
          exact hflip hs hne

/-- **`atomic_rel_acq` ends.**  A thread that could be given a newer value is
given one at some time; nothing else is asked of memory. -/
theorem rel_acq_terminates (c : Config) (r : (system c).Behaviour) (hfair : r.WeaklyFair Prod.fst) :
    ∃ i, ∀ j, i ≤ j → Atomic.Over c (r.state j).view := by
  obtain ⟨i, hi, hstay⟩ := r.terminates (ranked c) (fun _ hs hpc => canProgress hs hpc) hfair
  refine ⟨i, fun j hij => ?_⟩
  rw [hstay j hij]
  exact Atomic.over_of_exited (refines (r.reachable i)).2 hi

theorem rel_acq_terminates_two :
    ∃ r : (system ⟨2, 3⟩).Behaviour, r.WeaklyFair Prod.fst ∧
      ∃ i, ∀ j, i ≤ j → Atomic.Over ⟨2, 3⟩ (r.state j).view := by
  obtain ⟨r, _, hfair⟩ := System.exists_weaklyFair (ranked ⟨2, 3⟩) (s := State.fresh) rfl Prod.fst
  exact ⟨r, hfair, rel_acq_terminates ⟨2, 3⟩ r hfair⟩

end RelAcq

/-! ## §3. `semaphore`. -/

namespace Semaphore

open Latency (Party Config both both_lt)

variable {c : Config} {s s' : State} {p : Party}

/-- Steps left to a process in its iteration. -/
def Process.left (c : Config) (p : Party) (q : Process) : Nat :=
  match q.pc with
  | .head => 3 * c.loopSize + 5
  | .starting => 3 * c.loopSize + 4
  | .loop => 3 * (c.loopSize - q.j) + 3
  | .posting => 3 * (c.loopSize - q.j) + (2 - p.signalling)
  | .waiting => 3 * (c.loopSize - q.j) + (2 - p.awaiting)
  | .ending => 2
  | .reaping => 1
  | .exited => 0

/-- Steps left to a process. -/
def Process.rank (c : Config) (p : Party) (q : Process) : Nat :=
  (c.total - q.i) * (3 * c.loopSize + 6) + q.left c p

def State.rank (c : Config) (s : State) : Nat := both fun p => (s.process p).rank c p

theorem rank_moved {q : Process} (hprocess : s'.process = Function.update s.process p q)
    (hlt : q.rank c p < (s.process p).rank c p) : s'.rank c < s.rank c := by
  unfold State.rank
  rw [hprocess]
  refine both_lt (p := p) ?_ fun r hr => ?_
  · rw [Function.update_self]
    exact hlt
  · rw [Function.update_of_ne hr]

/-- **A process that goes on by itself has less to do.** -/
theorem Goes.rank {q q' : Process} (hgo : Goes c q p q') (hq : q.Counted c p) :
    q'.rank c p < q.rank c p := by
  obtain ⟨pc, i, j⟩ := q
  unfold Process.Counted at hq
  cases hgo with
  | begin hpc | start hpc | enter hpc | post hpc | wait hpc | close hpc | exit hpc | reap hpc =>
      cases hpc
      refine Nat.add_lt_add_left ?_ _
      simp only [Process.left, Party.signalling, Party.awaiting]
      omega
  | stop hpc hge =>
      cases hpc
      refine Nat.add_lt_add_left ?_ _
      simp only [Process.left]
      omega
  | next hpc =>
      cases hpc
      exact next_round_lt hq.1.1 (Nat.lt_succ_self _)
  | again hpc =>
      cases hpc
      exact next_round_lt hq.1 (Nat.lt_succ_self _)

theorem afterPost_rank {q : Process} (hpc : q.pc = .posting) (hq : q.Counted c p) :
    (afterPost p q).rank c p < q.rank c p := by
  obtain ⟨pc, i, j⟩ := q
  cases hpc
  have hlt : j < c.loopSize := hq.2
  cases p <;> refine Nat.add_lt_add_left ?_ _ <;>
    simp only [afterPost, Process.left, Party.signalling, Party.awaiting] <;> omega

theorem afterWait_rank {q : Process} (hpc : q.pc = .waiting) (hq : q.Counted c p) :
    (afterWait p q).rank c p < q.rank c p := by
  obtain ⟨pc, i, j⟩ := q
  cases hpc
  have hlt : j < c.loopSize := hq.2
  cases p <;> refine Nat.add_lt_add_left ?_ _ <;>
    simp only [afterWait, Process.left, Party.signalling, Party.awaiting] <;> omega

theorem ranked (c : Config) : (system c).Ranked (State.rank c) := by
  intro s p s' hreach hs _
  have hcounted := (inv_of_reachable hreach).1.counted p
  cases step_move hs with
  | go hgo => exact rank_moved rfl (hgo.rank hcounted)
  | post hpc => exact rank_moved rfl (afterPost_rank hpc hcounted)
  | wait hpc hsem => exact rank_moved rfl (afterWait_rank hpc hcounted)

/-- The benchmark is over. -/
structure Over (c : Config) (s : State) : Prop where
  exited : ∀ p, (s.process p).pc = .exited
  posts : s.posts = repeated [.parent, .child] c.rounds
  empty : ∀ p, s.sem p = 0

theorem over_of_exited (h : (system c).Reachable s) (hexited : ∀ p, (s.process p).pc = .exited) :
    Over c s := by
  obtain ⟨hinv, hrelay⟩ := inv_of_reachable h
  have hlength := (Latency.share_whole (share_rest hinv hrelay (.inr (hexited .parent)))).2 rfl
  have hall : s.events.length = c.rounds * Latency.pingPong.length := by
    rw [hlength, Nat.mul_comm]
    rfl
  refine ⟨hexited, ?_, sem_exited hinv hrelay hexited⟩
  unfold State.posts
  rw [Latency.eq_repeated_of_length hrelay hall, filterMap_repeated]
  rfl

/-- **`semaphore` ends** with every post of every round made and taken. -/
theorem semaphore_terminates (c : Config) (r : (system c).Behaviour) (hfair : r.WeaklyFair id) :
    ∃ i, ∀ j, i ≤ j → Over c (r.state j) := by
  obtain ⟨i, hi, hstay⟩ := r.terminates (ranked c) (fun s hs hmore => by
    obtain ⟨hinv, hrelay⟩ := inv_of_reachable hs
    exact canProgress hinv hrelay hmore) hfair
  refine ⟨i, fun j hij => ?_⟩
  rw [hstay j hij]
  exact over_of_exited (r.reachable i) hi

theorem semaphore_terminates_two :
    ∃ r : (system ⟨2, 3⟩).Behaviour, r.WeaklyFair id ∧
      ∃ i, ∀ j, i ≤ j → Over ⟨2, 3⟩ (r.state j) := by
  obtain ⟨r, _, hfair⟩ := System.exists_weaklyFair (ranked ⟨2, 3⟩) (s := State.fresh) rfl id
  exact ⟨r, hfair, semaphore_terminates ⟨2, 3⟩ r hfair⟩

end Semaphore

/-! ## §4. `condition_variable`. -/

namespace ConditionVariable

open Latency (Party Config both both_lt)

variable {c : Config} {s s' : State} {p : Party}

/-- The threads without spurious wake-ups, of which there could be any
number. -/
def quiet (c : Config) : System State Party where
  init s := s = State.fresh
  step := runStep c

theorem reachable_of_quiet (h : (quiet c).Reachable s) : (system c).Reachable s := by
  refine System.reachable_map (S := quiet c) (T := system c) (I := fun _ => True) id
    (fun _ _ => trivial) (fun _ ht => ht) ?_ h
  intro t p t' _ hs
  exact System.Steps.single (a := .run p) hs

/-- Steps left in the body of the loop, and behind `notify_one` the wake-up it
may cause. -/
def Pc.left : Party → Pc → Nat
  | .parent, .locking => 13
  | .parent, .setting => 12
  | .parent, .unlocking => 11
  | .parent, .notifying => 10
  | .parent, .acquiring | .parent, .waking => 6
  | .parent, .checking => 5
  | .parent, .entering => 4
  | .parent, .sleeping => 3
  | .parent, .clearing => 2
  | .parent, .releasing => 1
  | .child, .acquiring | .child, .waking => 13
  | .child, .checking => 12
  | .child, .entering => 11
  | .child, .sleeping => 10
  | .child, .clearing => 9
  | .child, .releasing => 8
  | .child, .locking => 7
  | .child, .setting => 6
  | .child, .unlocking => 5
  | .child, .notifying => 4
  | _, _ => 0

/-- Steps left to a party in its iteration; the parent ahead of it has those of
both threads. -/
def Process.rank (c : Config) (p : Party) (q : Process) : Nat :=
  match q.pc with
  | .idle => if p = .parent then 28 * c.loopSize + 29 else 0
  | .head => 14 * (c.loopSize - q.i) + 14
  | .returned => 2
  | .resetting => 1
  | .exited => 0
  | pc => 14 * (c.loopSize - q.i) + pc.left p

def State.rank (c : Config) (s : State) : Nat :=
  (c.total - s.iteration) * (28 * c.loopSize + 30) + both fun p => (s.process p).rank c p

theorem rank_moved {q : Process} (hprocess : s'.process = Function.update s.process p q)
    (hiteration : s'.iteration = s.iteration) (hlt : q.rank c p < (s.process p).rank c p) :
    s'.rank c < s.rank c := by
  unfold State.rank
  rw [hiteration, hprocess]
  refine Nat.add_lt_add_left (both_lt (p := p) ?_ fun r hr => ?_) _
  · rw [Function.update_self]
    exact hlt
  · rw [Function.update_of_ne hr]

theorem rank_inBody {q : Process} (h : q.pc.inBody = true) (p : Party) :
    q.rank c p = 14 * (c.loopSize - q.i) + q.pc.left p := by
  obtain ⟨pc, i⟩ := q
  cases pc <;> first | rfl | cases h

/-- Within the body a party goes down its table. -/
theorem rank_within {q : Process} {pc₀ pc : Pc} (hpc : q.pc = pc₀) (hin : pc₀.inBody = true)
    (hin' : pc.inBody = true) (hleft : pc.left p < pc₀.left p) :
    (q.goto pc).rank c p < q.rank c p := by
  subst hpc
  have hne : pc ≠ .head := by
    rintro rfl
    cases hin'
  have hi : (q.goto pc).i = q.i := if_neg hne
  rw [rank_inBody hin, rank_inBody (q := q.goto pc) hin', hi]
  exact Nat.add_lt_add_left hleft _

/-- Back to the head of the loop. -/
theorem rank_back {q : Process} {pc₀ : Pc} (hpc : q.pc = pc₀) (hin : pc₀.inBody = true)
    (hlt : q.i < c.loopSize) {n : Nat} (hn : n < pc₀.left p) :
    (q.goto .head).rank c p + n < q.rank c p := by
  subst hpc
  rw [rank_inBody hin]
  show 14 * (c.loopSize - (q.i + 1)) + 14 + n < _
  omega

/-- A wake-up is paid for by the `notify_one` that causes it. -/
theorem rank_notify (hne : (s.process p).pc = .notifying) (hlt : (s.process p).i < c.loopSize) :
    State.rank c (notifyOne (s.goto p (afterNotify p)) p.other) < s.rank c := by
  have hself : ((s.process p).goto (afterNotify p)).rank c p + 3 < (s.process p).rank c p := by
    cases p with
    | child => exact rank_back hne rfl hlt (by decide)
    | parent =>
        have hbefore := rank_inBody (c := c) (q := s.process .parent) (by rw [hne]; rfl) .parent
        rw [hbefore, hne]
        exact Nat.add_lt_add_left (show 6 + 3 < 10 by decide) _
  unfold notifyOne
  have hother : (s.goto p (afterNotify p)).process p.other = s.process p.other :=
    State.goto_process_of_ne (Party.other_ne p)
  split
  next hsleeping =>
    rw [hother] at hsleeping
    have hwoken : ((s.process p.other).goto .waking).rank c p.other =
        (s.process p.other).rank c p.other + 3 := by
      rw [rank_inBody rfl, rank_inBody (by rw [hsleeping]; rfl), hsleeping]
      cases p <;> rfl
    refine Nat.add_lt_add_left ?_ _
    have hparty : ∀ q, (((s.goto p (afterNotify p)).goto p.other .waking).process q).rank c q =
        if q = p then ((s.process p).goto (afterNotify p)).rank c p
        else (s.process p.other).rank c p.other + 3 := by
      intro q
      by_cases hq : q = p
      · subst hq
        rw [if_pos rfl, State.goto_process_of_ne (Ne.symm (Party.other_ne q)),
          State.goto_process_self]
      · rw [if_neg hq, Party.eq_other_of_ne hq, State.goto_process_self, hother, hwoken]
    unfold both
    dsimp only
    rw [hparty, hparty]
    cases p with
    | parent =>
        rw [if_pos rfl, if_neg nofun]
        show _ + ((s.process .child).rank c .child + 3) < _
        omega
    | child =>
        rw [if_neg nofun, if_pos rfl]
        show (s.process .parent).rank c .parent + 3 + _ < _
        omega
  next =>
    refine rank_moved rfl rfl ?_
    omega

/-- **Every step of a thread lowers what is left.** -/
theorem flipStep_rank (hcounted : (s.process p).Counted c) (hs : flipStep c s p = some s') :
    s'.rank c < s.rank c := by
  have hin : ∀ {pc₀ : Pc}, (s.process p).pc = pc₀ → pc₀.inBody = true →
      (s.process p).i < c.loopSize := by
    intro pc₀ hpc hbody
    subst hpc
    exact (counted_inBody hbody).mp hcounted
  unfold flipStep at hs
  cases hpc : (s.process p).pc with
  | head =>
      have hrank : (s.process p).rank c p = 14 * (c.loopSize - (s.process p).i) + 14 := by
        unfold Process.rank
        rw [hpc]
      rw [hpc] at hs
      obtain ⟨hlt, rfl⟩ | ⟨hge, rfl⟩ := System.branch_cases hs
      · refine rank_moved rfl rfl ?_
        rw [hrank]
        cases p <;> exact Nat.add_lt_add_left (show 13 < 14 by decide) _
      · refine rank_moved rfl rfl ?_
        rw [hrank]
        show 2 < _
        omega
  | locking =>
      rw [hpc] at hs
      obtain ⟨_, rfl⟩ := System.guard_cases hs
      exact rank_moved rfl rfl (rank_within hpc rfl rfl (by cases p <;> decide))
  | setting =>
      rw [hpc] at hs
      injection hs with hs
      subst hs
      exact rank_moved rfl rfl (rank_within hpc rfl rfl (by cases p <;> decide))
  | unlocking =>
      rw [hpc] at hs
      injection hs with hs
      subst hs
      exact rank_moved rfl rfl (rank_within hpc rfl rfl (by cases p <;> decide))
  | notifying =>
      rw [hpc] at hs
      injection hs with hs
      subst hs
      exact rank_notify hpc (hin hpc rfl)
  | acquiring | waking =>
      rw [hpc] at hs
      obtain ⟨_, rfl⟩ := System.guard_cases hs
      exact rank_moved rfl rfl (rank_within hpc rfl rfl (by cases p <;> decide))
  | checking =>
      rw [hpc] at hs
      obtain ⟨_, rfl⟩ | ⟨_, rfl⟩ := System.branch_cases hs
      · exact rank_moved rfl rfl (rank_within hpc rfl rfl (by cases p <;> decide))
      · exact rank_moved rfl rfl (rank_within hpc rfl rfl (by cases p <;> decide))
  | entering | clearing =>
      rw [hpc] at hs
      injection hs with hs
      subst hs
      exact rank_moved rfl rfl (rank_within hpc rfl rfl (by cases p <;> decide))
  | releasing =>
      rw [hpc] at hs
      injection hs with hs
      subst hs
      refine rank_moved rfl rfl ?_
      cases p with
      | parent => exact rank_back (n := 0) hpc rfl (hin hpc rfl) (by decide)
      | child => exact rank_within hpc rfl rfl (by decide)
  | idle | sleeping | returned | resetting | exited =>
      rw [hpc] at hs
      cases hs

/-- **Every step lowers what is left.** -/
theorem runStep_rank (hinv : Inv c s) (hs : runStep c s p = some s') : s'.rank c < s.rank c := by
  have hflip : ∀ {t : State}, flipStep c s p = some t → t.rank c < s.rank c :=
    fun ht => flipStep_rank (hinv.turns.control.counted p) ht
  unfold runStep at hs
  cases p with
  | child => exact hflip hs
  | parent =>
      cases hpc : (s.process .parent).pc with
      | idle =>
          have hrank : (s.process .parent).rank c .parent = 28 * c.loopSize + 29 := by
            unfold Process.rank
            rw [hpc]
            rfl
          rw [hpc] at hs
          obtain ⟨_, rfl⟩ | ⟨_, rfl⟩ := System.branch_cases hs
          · refine Nat.add_lt_add_left ?_ _
            show 14 * (c.loopSize - 0) + 14 + (14 * (c.loopSize - 0) + 14) <
              (s.process .parent).rank c .parent + (s.process .child).rank c .child
            omega
          · refine rank_moved rfl rfl ?_
            rw [hrank]
            exact Nat.succ_pos _
      | returned =>
          rw [hpc] at hs
          obtain ⟨_, rfl⟩ := System.guard_cases hs
          refine rank_moved rfl rfl ?_
          unfold Process.rank
          rw [hpc]
          exact Nat.lt_succ_self 1
      | resetting =>
          rw [hpc] at hs
          injection hs with hs
          subst hs
          have hlt := hinv.turns.control.running .parent (by rw [hpc]; rfl)
          exact next_round_lt hlt (Nat.lt_succ_self _)
      | _ =>
          rw [hpc] at hs
          exact hflip hs

theorem ranked (c : Config) : (quiet c).Ranked (State.rank c) := by
  intro s p s' hreach hs _
  exact runStep_rank (inv_of_reachable (reachable_of_quiet hreach)).1 hs

/-- Whoever goes elsewhere is not the one to exit. -/
theorem exited_of_goto (s : State) (p : Party) (pc : Pc) (hne : pc ≠ .exited)
    (hgone : ((s.goto p pc).process .parent).pc = .exited) :
    (s.process .parent).pc = .exited := by
  by_cases hp : p = .parent
  · subst hp
    rw [State.goto_process_self] at hgone
    exact absurd hgone hne
  · rw [State.goto_process_of_ne (Ne.symm hp)] at hgone
    exact hgone

/-- No statement of the two functions is the end of the parent. -/
theorem flipStep_exited (hs : flipStep c s p = some s')
    (hexited : (s'.process .parent).pc = .exited) :
    (s.process .parent).pc = .exited ∧ s'.iteration = s.iteration := by
  cases flipStep_move hs with
  | launch => cases hexited
  | quit hpc | join hpc | reset hpc =>
      unfold flipStep at hs
      rw [hpc] at hs
      cases hs
  | enter => exact ⟨exited_of_goto s p (first p) (by cases p <;> nofun) hexited, rfl⟩
  | release => exact ⟨exited_of_goto s p (afterRelease p) (by cases p <;> nofun) hexited, rfl⟩
  | notify =>
      unfold notifyOne at hexited ⊢
      split at hexited
      next hsleeping =>
        rw [if_pos hsleeping]
        have hgone := exited_of_goto _ _ .waking nofun hexited
        exact ⟨exited_of_goto s p (afterNotify p) (by cases p <;> nofun) hgone, rfl⟩
      next hsleeping =>
        rw [if_neg hsleeping]
        exact ⟨exited_of_goto s p (afterNotify p) (by cases p <;> nofun) hexited, rfl⟩
  | finish => exact ⟨exited_of_goto s p .returned nofun hexited, rfl⟩
  | lock => exact ⟨exited_of_goto s p .setting nofun hexited, rfl⟩
  | set => exact ⟨exited_of_goto s p .unlocking nofun hexited, rfl⟩
  | unlock => exact ⟨exited_of_goto s p .notifying nofun hexited, rfl⟩
  | acquire => exact ⟨exited_of_goto s p .checking nofun hexited, rfl⟩
  | pass => exact ⟨exited_of_goto s p .clearing nofun hexited, rfl⟩
  | fail => exact ⟨exited_of_goto s p .entering nofun hexited, rfl⟩
  | sleep => exact ⟨exited_of_goto s p .sleeping nofun hexited, rfl⟩
  | wake => exact ⟨exited_of_goto s p .waking nofun hexited, rfl⟩
  | clear => exact ⟨exited_of_goto s p .releasing nofun hexited, rfl⟩

/-- The parent is through with all iterations. -/
theorem iteration_of_exited (h : (system c).Reachable s)
    (hpc : (s.process .parent).pc = .exited) : s.iteration = c.total := by
  have hle := (inv_of_reachable h).1.turns.control.bound
  refine Nat.le_antisymm hle ?_
  refine System.invariant (I := fun s => (s.process .parent).pc = .exited → c.total ≤ s.iteration)
    ?_ ?_ h hpc
  · intro t ht hexited
    rw [show t = State.fresh from ht] at hexited
    cases hexited
  · intro t a t' ih hs hexited
    cases a with
    | spurious p =>
        obtain ⟨_, rfl⟩ := System.guard_cases hs
        exact ih (exited_of_goto t p .waking nofun hexited)
    | run p =>
        have hflip : flipStep c t p = some t' → c.total ≤ t'.iteration := by
          intro ht
          obtain ⟨hbefore, hsame⟩ := flipStep_exited ht hexited
          rw [hsame]
          exact ih hbefore
        change runStep c t p = some t' at hs
        unfold runStep at hs
        split at hs
        next hpc =>
          obtain ⟨_, rfl⟩ | ⟨hge, rfl⟩ := System.branch_cases hs
          · cases hexited
          · exact Nat.le_of_not_lt hge
        next hpc =>
          obtain ⟨_, rfl⟩ := System.guard_cases hs
          cases hexited
        next hpc =>
          injection hs with hs
          subst hs
          cases hexited
        next => exact hflip hs

/-- The benchmark is over. -/
structure Over (c : Config) (s : State) : Prop where
  exited : (s.process .parent).pc = .exited
  events : s.events = repeated Latency.pingPong c.rounds

theorem over_of_exited (h : (system c).Reachable s) (hpc : (s.process .parent).pc = .exited) :
    Over c s := by
  obtain ⟨hinv, hrelay⟩ := inv_of_reachable h
  have hshare := share_eq hinv.turns hrelay .parent
  rw [made_idle hinv.turns (by rw [hpc]; rfl), iteration_of_exited h hpc] at hshare
  have hlength := (Latency.share_whole hshare).2 rfl
  refine ⟨hpc, Latency.eq_repeated_of_length hrelay ?_⟩
  rw [hlength, Nat.mul_comm]
  rfl

/-- The threads without spurious wake-ups from wherever the benchmark can be. -/
def resumed (c : Config) : System State Party where
  init := (system c).Reachable
  step := runStep c

theorem reachable_of_resumed (h : (resumed c).Reachable s) : (system c).Reachable s := by
  refine System.invariant (S := resumed c) (I := (system c).Reachable) (fun t ht => ht) ?_ h
  intro t p t' ht hs
  exact ht.tail (a := .run p) trivial hs

/-- **The two threads end**, with every signal of every round set and
consumed. -/
theorem resumed_ends (r : (resumed c).Behaviour) (hfair : r.WeaklyFair id) :
    ∃ i, ∀ j, i ≤ j → Over c (r.state j) := by
  have hranked : (resumed c).Ranked (State.rank c) := by
    intro s p s' hreach hs _
    exact runStep_rank (inv_of_reachable (reachable_of_resumed hreach)).1 hs
  obtain ⟨i, hi, hstay⟩ := r.terminates hranked (fun s hs hpc => by
    obtain ⟨hinv, hrelay⟩ := inv_of_reachable (reachable_of_resumed hs)
    have hgo : ∃ p, runStep c s p ≠ none := by
      by_contra hnone
      push Not at hnone
      exact not_stuck hinv hrelay hpc hnone
    obtain ⟨p, hp⟩ := hgo
    obtain ⟨s', hs'⟩ := Option.ne_none_iff_exists'.mp hp
    refine ⟨p, s', hs', ?_⟩
    rintro rfl
    exact Nat.lt_irrefl _ (runStep_rank hinv hs')) hfair
  refine ⟨i, fun j hij => ?_⟩
  rw [hstay j hij]
  exact over_of_exited (reachable_of_resumed (r.reachable i)) hi

/-- No thread is passed over; a spurious wake-up is nobody's turn. -/
def FairToThreads (r : (system c).Behaviour) : Prop :=
  ∀ p i, (∀ j, i ≤ j → ∃ s', (resumed c).Moves id p (r.state j) s') →
    ∃ j, i ≤ j ∧ (resumed c).Moves id p (r.state j) (r.state (j + 1))

/-- Nobody wakes without reason any more. -/
def QuietFrom (r : (system c).Behaviour) (i : Nat) : Prop :=
  ∀ j, i ≤ j → r.state (j + 1) = r.state j ∨ ∃ p, runStep c (r.state j) p = some (r.state (j + 1))

/-- The benchmark ends behind the last spurious wake-up. -/
theorem ends_of_quietFrom {r : (system c).Behaviour} (hfair : FairToThreads r) {i : Nat}
    (hquiet : QuietFrom r i) : ∃ k, ∀ j, k ≤ j → Over c (r.state j) := by
  obtain ⟨k, hk⟩ := resumed_ends (r.rest i (r.reachable i) hquiet)
    (System.Behaviour.weaklyFair_rest hfair)
  refine ⟨i + k, fun j hj => ?_⟩
  obtain ⟨m, rfl⟩ := Nat.exists_eq_add_of_le hj
  rw [Nat.add_assoc]
  exact hk (k + m) (Nat.le_add_right k m)

/-- **`condition_variable` ends**, with every signal of every round set and
consumed, if nobody wakes without reason. -/
theorem conditionVariable_terminates (c : Config) (r : (quiet c).Behaviour)
    (hfair : r.WeaklyFair id) : ∃ i, ∀ j, i ≤ j → Over c (r.state j) := by
  let whole : (system c).Behaviour :=
    ⟨r.state, r.start, fun i => (r.next i).imp_right fun ⟨p, hp⟩ => ⟨.run p, hp⟩⟩
  have hwhole : FairToThreads whole := hfair
  exact ends_of_quietFrom hwhole (i := 0) fun j _ => r.next j

theorem conditionVariable_terminates_two :
    ∃ r : (quiet ⟨2, 3⟩).Behaviour, r.WeaklyFair id ∧
      ∃ i, ∀ j, i ≤ j → Over ⟨2, 3⟩ (r.state j) := by
  obtain ⟨r, _, hfair⟩ := System.exists_weaklyFair (ranked ⟨2, 3⟩) (s := State.fresh) rfl id
  exact ⟨r, hfair, conditionVariable_terminates ⟨2, 3⟩ r hfair⟩

/-- **Spurious wake-ups cost nothing but time.**  However many there are, if
they come to an end so does the benchmark, with every signal of every round
set and consumed once. -/
theorem conditionVariable_outlasts (c : Config) (r : (system c).Behaviour)
    (hfair : FairToThreads r) (i : Nat) (hquiet : QuietFrom r i) :
    ∃ k, ∀ j, k ≤ j → Over c (r.state j) :=
  ends_of_quietFrom hfair hquiet

/-- Behind the last iteration nobody has a step left. -/
theorem step_eq_none (hparent : (s.process .parent).pc = .exited)
    (hchild : (s.process .child).pc = .idle) (a : Action) : step c s a = none := by
  cases a with
  | run p =>
      show runStep c s p = none
      unfold runStep flipStep
      cases p with
      | parent => rw [hparent]
      | child => rw [hchild]
  | spurious p =>
      refine if_neg ?_
      cases p with
      | parent =>
          rw [hparent]
          nofun
      | child =>
          rw [hchild]
          nofun

/-- One round in which the parent wakes without reason, and the end. -/
def wokenOnce : List Action := oneRound ++ List.replicate 3 (.run .parent)

theorem conditionVariable_outlasts_once :
    ∃ r : (system ⟨1, 1⟩).Behaviour, FairToThreads r ∧ QuietFrom r wokenOnce.length ∧
      ∃ k, ∀ j, k ≤ j → Over ⟨1, 1⟩ (r.state j) := by
  have hrun : ((system ⟨1, 1⟩).exec State.fresh wokenOnce).any (fun t =>
      decide ((t.process .parent).pc = .exited ∧ (t.process .child).pc = .idle)) = true := by
    decide +kernel
  obtain ⟨t, hexec, hpcs⟩ := (Option.any_eq_true _ _).mp hrun
  obtain ⟨hparent, hchild⟩ := of_decide_eq_true hpcs
  have hinit : (system ⟨1, 1⟩).init State.fresh := rfl
  have hstate := fun j (hj : wokenOnce.length ≤ j) =>
    System.Behaviour.ofSchedule_state hinit hexec hj
  have hfair : FairToThreads (System.Behaviour.ofSchedule wokenOnce hinit hexec) := by
    intro p i henabled
    obtain ⟨s', q, _, hs, _⟩ := henabled (i + wokenOnce.length) (Nat.le_add_right i _)
    rw [hstate _ (Nat.le_add_left _ i)] at hs
    have hnone := step_eq_none (c := ⟨1, 1⟩) hparent hchild (.run q)
    exact absurd (hnone.symm.trans hs) nofun
  have hquiet : QuietFrom (System.Behaviour.ofSchedule wokenOnce hinit hexec)
      wokenOnce.length := by
    intro j hj
    left
    rw [hstate j hj, hstate (j + 1) (Nat.le_succ_of_le hj)]
  exact ⟨_, hfair, hquiet, conditionVariable_outlasts ⟨1, 1⟩ _ hfair _ hquiet⟩

end ConditionVariable

end Akbench
