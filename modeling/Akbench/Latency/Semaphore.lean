/-
  Akbench.Latency.Semaphore
  ─────────────────────────
  **`semaphore`: TWO PROCESSES IN STEP BY TWO COUNTERS.**

  A party waits on the semaphore that bears its name and posts that of the
  other.  The loops of the two processes are counted separately, and there is
  no barrier between the iterations.

  Both processes open the semaphores before their loops and close them
  behind; this succeeds here, and nobody else uses the semaphores.  The parent
  unlinks them once `waitpid` has returned.

    • §3 — posts and waits are `relay pingPong`, and the two counters are what
      is left of it;
    • §5 — the parent takes its time only where the child has finished the
      iteration before.
-/
import Akbench.Latency.Parties

namespace Akbench.Semaphore

open Latency

/-! ## §1. The code. -/

/-- Where a process is. -/
inductive Pc where
  /-- At the head of the loop over iterations. -/
  | head
  /-- Before the parent reads `start_time`. -/
  | starting
  /-- At the head of the loop over rounds. -/
  | loop
  | posting
  | waiting
  /-- Before the parent reads `end_time`. -/
  | ending
  /-- The parent in `waitpid`. -/
  | reaping
  | exited
  deriving DecidableEq, Repr

structure Process where
  pc : Pc
  i : Nat
  j : Nat
  deriving DecidableEq, Repr

/-- `sem p` is the semaphore named for `p`; `events` is read by no step. -/
structure State where
  process : Party → Process
  sem : Party → Nat
  events : List Event

def State.become (s : State) (p : Party) (q : Process) : State :=
  { s with process := Function.update s.process p q }

/-- Behind the `sem_post` of party `p`. -/
def afterPost : Party → Process → Process
  | .parent, q => { q with pc := .waiting }
  | .child, q => { q with pc := .loop, j := q.j + 1 }

/-- Behind the `sem_wait` of party `p`. -/
def afterWait : Party → Process → Process
  | .parent, q => { q with pc := .loop, j := q.j + 1 }
  | .child, q => { q with pc := .posting }

/-- `sem_post` on the semaphore of the other. -/
def semPost (s : State) (p : Party) : State :=
  { s.become p (afterPost p (s.process p)) with
    sem := Function.update s.sem p.other (s.sem p.other + 1)
    events := s.events ++ [(p, .signal)] }

/-- `sem_wait` on its own semaphore. -/
def semWait (s : State) (p : Party) : Option State :=
  if 0 < s.sem p then
    some { s.become p (afterWait p (s.process p)) with
      sem := Function.update s.sem p (s.sem p - 1)
      events := s.events ++ [(p, .consume)] }
  else none

/-- `ParentProcess`, and `waitpid` behind it. -/
def parentStep (c : Config) (s : State) : Option State :=
  let q := s.process .parent
  match q.pc with
  | .head =>
      if q.i < c.total then some (s.become .parent { q with pc := .starting })
      else some (s.become .parent { q with pc := .reaping })
  -- `start_time` is read, and `j` starts again
  | .starting => some (s.become .parent { q with pc := .loop, j := 0 })
  | .loop =>
      if q.j < c.loopSize then some (s.become .parent { q with pc := .posting })
      else some (s.become .parent { q with pc := .ending })
  | .posting => some (semPost s .parent)
  | .waiting => semWait s .parent
  -- `end_time` is read; `j` is out of scope
  | .ending => some (s.become .parent { pc := .head, i := q.i + 1, j := 0 })
  -- `waitpid`
  | .reaping =>
      if (s.process .child).pc = .exited then some (s.become .parent { q with pc := .exited })
      else none
  | .exited => none

/-- `ChildProcess`. -/
def childStep (c : Config) (s : State) : Option State :=
  let q := s.process .child
  match q.pc with
  | .head =>
      if q.i < c.total then some (s.become .child { q with pc := .loop, j := 0 })
      else some (s.become .child { q with pc := .exited })
  | .loop =>
      if q.j < c.loopSize then some (s.become .child { q with pc := .waiting })
      else some (s.become .child { pc := .head, i := q.i + 1, j := 0 })
  | .waiting => semWait s .child
  | .posting => some (semPost s .child)
  | .starting | .ending | .reaping | .exited => none

/-- Both semaphores are made with value 0, before `fork`. -/
def State.fresh : State where
  process := fun _ => ⟨.head, 0, 0⟩
  sem := fun _ => 0
  events := []

def system (c : Config) : System State Party where
  init s := s = State.fresh
  step s p :=
    match p with
    | .parent => parentStep c s
    | .child => childStep c s

/-! ## §2. What a step can do. -/

@[simp] theorem State.become_process_self (s : State) (p : Party) (q : Process) :
    (s.become p q).process p = q :=
  Function.update_self _ _ _

theorem State.become_process_of_ne {s : State} {p r : Party} {q : Process} (hr : r ≠ p) :
    (s.become p q).process r = s.process r :=
  Function.update_of_ne hr _ _

/-- A process goes on by itself. -/
inductive Goes (c : Config) (q : Process) : Party → Process → Prop where
  | begin (hpc : q.pc = .head) (hlt : q.i < c.total) :
      Goes c q .parent { q with pc := .starting }
  | start (hpc : q.pc = .starting) : Goes c q .parent { q with pc := .loop, j := 0 }
  | enter (hpc : q.pc = .head) (hlt : q.i < c.total) :
      Goes c q .child { q with pc := .loop, j := 0 }
  | post (hpc : q.pc = .loop) (hlt : q.j < c.loopSize) :
      Goes c q .parent { q with pc := .posting }
  | wait (hpc : q.pc = .loop) (hlt : q.j < c.loopSize) :
      Goes c q .child { q with pc := .waiting }
  | stop (hpc : q.pc = .loop) (hge : c.loopSize ≤ q.j) :
      Goes c q .parent { q with pc := .ending }
  | next (hpc : q.pc = .ending) : Goes c q .parent { pc := .head, i := q.i + 1, j := 0 }
  | again (hpc : q.pc = .loop) (hge : c.loopSize ≤ q.j) :
      Goes c q .child { pc := .head, i := q.i + 1, j := 0 }
  | close (hpc : q.pc = .head) (hge : c.total ≤ q.i) :
      Goes c q .parent { q with pc := .reaping }
  | exit (hpc : q.pc = .head) (hge : c.total ≤ q.i) : Goes c q .child { q with pc := .exited }
  | reap (hpc : q.pc = .reaping) : Goes c q .parent { q with pc := .exited }

/-- A step of party `p`. -/
inductive Move (c : Config) (s : State) (p : Party) : State → Prop where
  | go {q : Process} (hgo : Goes c (s.process p) p q) : Move c s p (s.become p q)
  | post (hpc : (s.process p).pc = .posting) : Move c s p (semPost s p)
  | wait (hpc : (s.process p).pc = .waiting) (hsem : 0 < s.sem p) :
      Move c s p { s.become p (afterWait p (s.process p)) with
        sem := Function.update s.sem p (s.sem p - 1)
        events := s.events ++ [(p, .consume)] }

variable {c : Config} {s s' : State} {p : Party}

theorem semWait_move (hpc : (s.process p).pc = .waiting) (hs : semWait s p = some s') :
    Move c s p s' := by
  obtain ⟨hsem, rfl⟩ := System.guard_cases hs
  exact .wait hpc hsem

theorem parentStep_move (hs : parentStep c s = some s') : Move c s .parent s' := by
  unfold parentStep at hs
  dsimp only at hs
  cases hpc : (s.process .parent).pc with
  | head =>
      rw [hpc] at hs
      obtain ⟨hlt, rfl⟩ | ⟨hge, rfl⟩ := System.branch_cases hs
      · exact .go (.begin hpc hlt)
      · exact .go (.close hpc (Nat.le_of_not_lt hge))
  | starting =>
      rw [hpc] at hs
      injection hs with hs
      subst hs
      exact .go (.start hpc)
  | loop =>
      rw [hpc] at hs
      obtain ⟨hlt, rfl⟩ | ⟨hge, rfl⟩ := System.branch_cases hs
      · exact .go (.post hpc hlt)
      · exact .go (.stop hpc (Nat.le_of_not_lt hge))
  | posting =>
      rw [hpc] at hs
      injection hs with hs
      subst hs
      exact .post hpc
  | waiting =>
      rw [hpc] at hs
      exact semWait_move hpc hs
  | ending =>
      rw [hpc] at hs
      injection hs with hs
      subst hs
      exact .go (.next hpc)
  | reaping =>
      rw [hpc] at hs
      obtain ⟨_, rfl⟩ := System.guard_cases hs
      exact .go (.reap hpc)
  | exited =>
      rw [hpc] at hs
      cases hs

theorem childStep_move (hs : childStep c s = some s') : Move c s .child s' := by
  unfold childStep at hs
  dsimp only at hs
  cases hpc : (s.process .child).pc with
  | head =>
      rw [hpc] at hs
      obtain ⟨hlt, rfl⟩ | ⟨hge, rfl⟩ := System.branch_cases hs
      · exact .go (.enter hpc hlt)
      · exact .go (.exit hpc (Nat.le_of_not_lt hge))
  | loop =>
      rw [hpc] at hs
      obtain ⟨hlt, rfl⟩ | ⟨hge, rfl⟩ := System.branch_cases hs
      · exact .go (.wait hpc hlt)
      · exact .go (.again hpc (Nat.le_of_not_lt hge))
  | waiting =>
      rw [hpc] at hs
      exact semWait_move hpc hs
  | posting =>
      rw [hpc] at hs
      injection hs with hs
      subst hs
      exact .post hpc
  | starting | ending | reaping | exited =>
      rw [hpc] at hs
      cases hs

/-- **Every step is a move.** -/
theorem step_move (hs : (system c).step s p = some s') : Move c s p s' := by
  cases p with
  | parent => exact parentStep_move hs
  | child => exact childStep_move hs

/-! ## §3. The invariant. -/

/-- The events a party has made in its round. -/
def Pc.offset (p : Party) : Pc → Nat
  | .posting => p.signalling
  | .waiting => p.awaiting
  | _ => 0

/-- The events a party has made, read off where it is. -/
def eventsMade (c : Config) (p : Party) (q : Process) : Nat :=
  2 * c.round q.i q.j + q.pc.offset p

/-- The loop counters of a process, by where it is; only the parent takes its
time and waits for the other to exit. -/
def Process.Counted (c : Config) (p : Party) (q : Process) : Prop :=
  match q.pc with
  | .head => q.i ≤ c.total ∧ q.j = 0
  | .starting => (q.i < c.total ∧ q.j = 0) ∧ p = .parent
  | .loop => q.i < c.total ∧ q.j ≤ c.loopSize
  | .posting | .waiting => q.i < c.total ∧ q.j < c.loopSize
  | .ending => (q.i < c.total ∧ q.j = c.loopSize) ∧ p = .parent
  | .reaping => (q.i = c.total ∧ q.j = 0) ∧ p = .parent
  | .exited => q.i = c.total ∧ q.j = 0

/-- The semaphore of `p` behind `n` events. -/
def semAfter (p : Party) (n : Nat) : Nat := (pending p.other n).toNat

/-- Everything that holds in every run. -/
structure Inv (c : Config) (s : State) : Prop where
  counted : ∀ p, (s.process p).Counted c p
  made : ∀ p, s.events.countP (fun e => e.1 = p) = eventsMade c p (s.process p)
  sem : ∀ p, s.sem p = semAfter p s.events.length

theorem inv_fresh (c : Config) : Inv c State.fresh := by
  refine ⟨fun _ => ⟨Nat.zero_le _, rfl⟩, ?_, ?_⟩
  · intro p
    show 0 = 2 * c.round 0 0 + Pc.offset p .head
    rw [c.round_zero]
    cases p <;> rfl
  · intro p
    cases p <;> rfl

/-- A process that goes on by itself has its counters right, and has made as
many events as before. -/
theorem Goes.keeps {q q' : Process} (hgo : Goes c q p q') (hq : q.Counted c p) :
    q'.Counted c p ∧ eventsMade c p q' = eventsMade c p q := by
  obtain ⟨pc, i, j⟩ := q
  have hround := c.round_next i
  unfold Process.Counted at hq
  cases hgo with
  | begin hpc hlt =>
      cases hpc
      obtain ⟨_, hj⟩ := hq
      exact ⟨⟨⟨hlt, hj⟩, rfl⟩, rfl⟩
  | start hpc =>
      cases hpc
      obtain ⟨⟨hlt, hj⟩, _⟩ := hq
      have hj' : j = 0 := hj
      subst hj'
      exact ⟨⟨hlt, Nat.zero_le _⟩, rfl⟩
  | enter hpc hlt =>
      cases hpc
      obtain ⟨_, hj⟩ := hq
      have hj' : j = 0 := hj
      subst hj'
      exact ⟨⟨hlt, Nat.zero_le _⟩, rfl⟩
  | post hpc hlt | wait hpc hlt =>
      cases hpc
      exact ⟨⟨hq.1, hlt⟩, rfl⟩
  | stop hpc hge =>
      cases hpc
      exact ⟨⟨⟨hq.1, Nat.le_antisymm hq.2 hge⟩, rfl⟩, rfl⟩
  -- all rounds of iteration `i` are none of iteration `i + 1`
  | next hpc =>
      cases hpc
      obtain ⟨⟨hlt, hj⟩, _⟩ := hq
      have hj' : j = c.loopSize := hj
      subst hj'
      refine ⟨⟨hlt, rfl⟩, ?_⟩
      unfold eventsMade
      rw [hround]
      rfl
  | again hpc hge =>
      cases hpc
      obtain ⟨hlt, hj⟩ := hq
      have hj' : j = c.loopSize := Nat.le_antisymm hj hge
      subst hj'
      refine ⟨⟨hlt, rfl⟩, ?_⟩
      unfold eventsMade
      rw [hround]
      rfl
  | close hpc hge =>
      cases hpc
      obtain ⟨hle, hj⟩ := hq
      exact ⟨⟨⟨Nat.le_antisymm hle hge, hj⟩, rfl⟩, rfl⟩
  | exit hpc hge =>
      cases hpc
      obtain ⟨hle, hj⟩ := hq
      exact ⟨⟨Nat.le_antisymm hle hge, hj⟩, rfl⟩
  | reap hpc =>
      cases hpc
      exact ⟨hq.1, rfl⟩

/-! ## §4. One event after the other. -/

theorem semAfter_pos {n : Nat} : 0 < semAfter p n ↔ pending p.other n = true := by
  unfold semAfter
  cases pending p.other n <;> decide

/-- A post is one unit more for the other, -/
theorem semAfter_signal {n : Nat} (h : n % 4 = slot p .signal) (r : Party) :
    semAfter r (n + 1) = Function.update (fun r => semAfter r n) p.other
      (semAfter p.other n + 1) r := by
  obtain ⟨⟨hbefore, hafter⟩, hother, hother'⟩ := pending_signal h
  unfold semAfter
  by_cases hr : r = p.other
  · subst hr
    rw [Function.update_self, Party.other_other, hbefore, hafter]
    rfl
  · rw [Function.update_of_ne hr]
    have hrp : r = p := by rw [Party.eq_other_of_ne hr, Party.other_other]
    rw [hrp, hother, hother']

/-- a wait one less for oneself. -/
theorem semAfter_consume {n : Nat} (h : n % 4 = slot p .consume) (r : Party) :
    semAfter r (n + 1) = Function.update (fun r => semAfter r n) p (semAfter p n - 1) r := by
  obtain ⟨⟨hbefore, hafter⟩, hother, hother'⟩ := pending_consume h
  unfold semAfter
  by_cases hr : r = p
  · subst hr
    rw [Function.update_self, hbefore, hafter]
    rfl
  · rw [Function.update_of_ne hr, Party.eq_other_of_ne hr, Party.other_other, hother, hother']

/-- How far the events are is known from where any of the two is. -/
theorem Inv.share_eq (h : Inv c s) (hrelay : (relay pingPong c.rounds).Reachable s.events)
    (p : Party) : p.share s.events.length = eventsMade c p (s.process p) := by
  rw [← h.made p, countP_pingPong hrelay p]

/-- Before a post or a wait there are rounds left. -/
theorem Inv.round_lt (h : Inv c s)
    (hpc : (s.process p).pc = .posting ∨ (s.process p).pc = .waiting) :
    c.round (s.process p).i (s.process p).j + 1 ≤ c.rounds := by
  have hcounted := h.counted p
  unfold Process.Counted at hcounted
  have hlt : (s.process p).i < c.total ∧ (s.process p).j < c.loopSize := by
    obtain hpc | hpc := hpc
    · rwa [hpc] at hcounted
    · rwa [hpc] at hcounted
  exact c.round_lt_rounds hlt.1 hlt.2

/-- A post is due whenever its process comes to it, -/
theorem Inv.due_post (h : Inv c s) (hrelay : (relay pingPong c.rounds).Reachable s.events)
    (hpc : (s.process p).pc = .posting) :
    s.events.length % 4 = slot p .signal ∧ s.events.length < c.rounds * 4 := by
  have hround := h.round_lt (.inl hpc)
  have hshare := h.share_eq hrelay p
  unfold eventsMade at hshare
  rw [hpc] at hshare
  obtain ⟨hslot, hlt⟩ := due_signal hshare
  exact ⟨hslot, by omega⟩

/-- a wait when there is a unit for it. -/
theorem Inv.due_wait (h : Inv c s) (hrelay : (relay pingPong c.rounds).Reachable s.events)
    (hpc : (s.process p).pc = .waiting) (hsem : 0 < s.sem p) :
    s.events.length % 4 = slot p .consume ∧ s.events.length < c.rounds * 4 := by
  have hround := h.round_lt (.inr hpc)
  have hshare := h.share_eq hrelay p
  unfold eventsMade at hshare
  rw [hpc] at hshare
  rw [h.sem] at hsem
  obtain ⟨hslot, hlt⟩ := due_consume hshare (semAfter_pos.mp hsem)
  exact ⟨hslot, by omega⟩

/-- **Step lemma for an event.** -/
theorem Inv.event (h : Inv c s) {op : Op} {q : Process} {sem : Party → Nat}
    (hcounted : q.Counted c p) (hmade : eventsMade c p q = eventsMade c p (s.process p) + 1)
    (hsem : ∀ r, sem r = semAfter r (s.events.length + 1)) :
    Inv c { s.become p q with sem := sem, events := s.events ++ [(p, op)] } := by
  refine ⟨?_, ?_, ?_⟩
  · intro r
    show Process.Counted c r ((s.become p q).process r)
    by_cases hr : r = p
    · subst hr
      rwa [State.become_process_self]
    · rw [State.become_process_of_ne hr]
      exact h.counted r
  · refine countP_event (fun e : Event => e.1) rfl h.made ?_ ?_
    · show eventsMade c p ((s.become p q).process p) = _
      rwa [State.become_process_self]
    · intro r hr
      show eventsMade c r ((s.become p q).process r) = _
      rw [State.become_process_of_ne hr]
  · intro r
    show sem r = semAfter r (s.events ++ [(p, op)]).length
    rw [List.length_append]
    exact hsem r

/-- **Step lemma for a process going on.** -/
theorem Inv.go (h : Inv c s) {q : Process} (hgo : Goes c (s.process p) p q) :
    Inv c (s.become p q) := by
  obtain ⟨hcounted, hmade⟩ := hgo.keeps (h.counted p)
  refine ⟨?_, ?_, h.sem⟩
  · intro r
    by_cases hr : r = p
    · subst hr
      rwa [State.become_process_self]
    · rw [State.become_process_of_ne hr]
      exact h.counted r
  · intro r
    refine (h.made r).trans ?_
    by_cases hr : r = p
    · subst hr
      rw [State.become_process_self, hmade]
    · rw [State.become_process_of_ne hr]

/-- Behind a post the counters are right, and it has been made. -/
theorem afterPost_keeps {q : Process} (hpc : q.pc = .posting) (hq : q.Counted c p) :
    (afterPost p q).Counted c p ∧ eventsMade c p (afterPost p q) = eventsMade c p q + 1 := by
  unfold Process.Counted at hq
  rw [hpc] at hq
  cases p with
  | parent =>
      refine ⟨hq, ?_⟩
      unfold eventsMade
      rw [hpc]
      rfl
  | child =>
      refine ⟨⟨hq.1, hq.2⟩, ?_⟩
      unfold eventsMade
      rw [hpc]
      simp only [afterPost, Pc.offset, Party.signalling, Config.round_succ]
      omega

/-- Behind a wait likewise. -/
theorem afterWait_keeps {q : Process} (hpc : q.pc = .waiting) (hq : q.Counted c p) :
    (afterWait p q).Counted c p ∧ eventsMade c p (afterWait p q) = eventsMade c p q + 1 := by
  unfold Process.Counted at hq
  rw [hpc] at hq
  cases p with
  | parent =>
      refine ⟨⟨hq.1, hq.2⟩, ?_⟩
      unfold eventsMade
      rw [hpc]
      simp only [afterWait, Pc.offset, Party.awaiting, Config.round_succ]
      omega
  | child =>
      refine ⟨hq, ?_⟩
      unfold eventsMade
      rw [hpc]
      rfl

/-- **Every move keeps the invariant, and its event is the one that is due.** -/
theorem Inv.move (h : Inv c s) (hrelay : (relay pingPong c.rounds).Reachable s.events)
    (hmove : Move c s p s') :
    Inv c s' ∧ (relay pingPong c.rounds).Steps (fun _ _ => True) s.events s'.events := by
  -- both counters are read off the number of events
  have hsems : s.sem = fun r => semAfter r s.events.length := funext h.sem
  cases hmove with
  | go hgo => exact ⟨h.go hgo, .refl _⟩
  | post hpc =>
      obtain ⟨hslot, hlt⟩ := h.due_post hrelay hpc
      obtain ⟨hcounted, hmade⟩ := afterPost_keeps hpc (h.counted p)
      refine ⟨h.event hcounted hmade ?_, pingPong_next hslot hlt⟩
      intro r
      rw [semAfter_signal hslot, hsems]
  | wait hpc hsem =>
      obtain ⟨hslot, hlt⟩ := h.due_wait hrelay hpc hsem
      obtain ⟨hcounted, hmade⟩ := afterWait_keeps hpc (h.counted p)
      refine ⟨h.event hcounted hmade ?_, pingPong_next hslot hlt⟩
      intro r
      rw [semAfter_consume hslot, hsems]

/-- **The benchmark refines the relay.** -/
theorem inv_of_reachable (h : (system c).Reachable s) :
    Inv c s ∧ (relay pingPong c.rounds).Reachable s.events := by
  refine System.simulates State.events ?_ ?_ h
  · intro t ht
    rw [show t = State.fresh from ht]
    exact ⟨inv_fresh c, rfl⟩
  · intro t p t' hinv hrelay hs
    exact hinv.move hrelay (step_move hs)

/-! ## §5. Progress. -/

section

variable (h : Inv c s) (hrelay : (relay pingPong c.rounds).Reachable s.events)
include h hrelay

/-- A process that has left its loops has made all events of all
iterations. -/
theorem share_rest (hpc : (s.process p).pc = .reaping ∨ (s.process p).pc = .exited) :
    p.share s.events.length = 2 * c.rounds := by
  have hcounted := h.counted p
  unfold Process.Counted at hcounted
  rw [h.share_eq hrelay]
  unfold eventsMade Config.rounds Config.round
  obtain hpc | hpc := hpc
  · rw [hpc] at hcounted ⊢
    rw [hcounted.1.1, hcounted.1.2]
    rfl
  · rw [hpc] at hcounted ⊢
    rw [hcounted.1, hcounted.2]
    rfl

/-- A process that waits for a unit waits for the other to post, and there are
rounds left. -/
theorem waits (hpc : (s.process p).pc = .waiting) (hsem : ¬ 0 < s.sem p) :
    (s.events.length % 4 = slot p.other .signal ∨
      (s.events.length + 1) % 4 = slot p.other .signal) ∧
    s.events.length + 2 ≤ 4 * c.rounds := by
  have hround := h.round_lt (.inr hpc)
  have hshare := h.share_eq hrelay p
  rw [h.sem, semAfter_pos, Bool.not_eq_true] at hsem
  unfold eventsMade at hshare
  rw [hpc] at hshare
  obtain ⟨hturn, hle⟩ := awaits hshare hsem
  exact ⟨hturn, by omega⟩

end

/-- What keeps a process from going on. -/
inductive Blocked (s : State) (p : Party) : Prop where
  | waiting (hpc : (s.process p).pc = .waiting) (hsem : ¬ 0 < s.sem p)
  | reaping (hpc : (s.process p).pc = .reaping) (hp : p = .parent)
      (hchild : (s.process .child).pc ≠ .exited)
  | exited (hpc : (s.process p).pc = .exited)

/-- A step to another place is progress, -/
theorem canProgress_become {q : Process} (hs : (system c).step s p = some (s.become p q))
    (hne : q.pc ≠ (s.process p).pc) : (system c).CanProgress s := by
  refine .of_step (f := fun u => (u.process p).pc) hs ?_
  rwa [State.become_process_self]

/-- and so is the head of a loop, in or out. -/
theorem canProgress_head {b : Prop} [Decidable b] {q q' : Process}
    (hs : (system c).step s p = if b then some (s.become p q) else some (s.become p q'))
    (hne : q.pc ≠ (s.process p).pc) (hne' : q'.pc ≠ (s.process p).pc) :
    (system c).CanProgress s := by
  refine .of_branch (f := fun u => (u.process p).pc) hs ?_ ?_
  · rwa [State.become_process_self]
  · rwa [State.become_process_self]

/-- So is a post or a wait. -/
theorem canProgress_event {s' : State} {e : Event} (hs : (system c).step s p = some s')
    (hevents : s'.events = s.events ++ [e]) : (system c).CanProgress s := by
  refine .of_step (f := fun u => u.events.length) hs ?_
  rw [hevents, List.length_append, List.length_singleton]
  omega

/-- Who cannot go on with its wait finds no unit. -/
theorem sem_of_stuck (hs : (system c).step s p = semWait s p)
    (hstuck : ¬ (system c).CanProgress s) : ¬ 0 < s.sem p := by
  intro hsem
  unfold semWait at hs
  rw [if_pos hsem] at hs
  exact hstuck (canProgress_event hs rfl)

theorem parent_blocked (hstuck : ¬ (system c).CanProgress s) : Blocked s .parent := by
  have hstep : (system c).step s .parent = parentStep c s := rfl
  unfold parentStep at hstep
  dsimp only at hstep
  cases hpc : (s.process .parent).pc with
  | head =>
      rw [hpc] at hstep
      exact absurd (canProgress_head hstep (by rw [hpc]; nofun) (by rw [hpc]; nofun)) hstuck
  | loop =>
      rw [hpc] at hstep
      exact absurd (canProgress_head hstep (by rw [hpc]; nofun) (by rw [hpc]; nofun)) hstuck
  | starting | ending =>
      rw [hpc] at hstep
      exact absurd (canProgress_become hstep (by rw [hpc]; nofun)) hstuck
  | posting =>
      rw [hpc] at hstep
      exact absurd (canProgress_event hstep rfl) hstuck
  | waiting =>
      rw [hpc] at hstep
      exact .waiting hpc (sem_of_stuck hstep hstuck)
  | reaping =>
      refine .reaping hpc rfl ?_
      intro hchild
      rw [hpc] at hstep
      dsimp only at hstep
      rw [if_pos hchild] at hstep
      exact hstuck (canProgress_become hstep (by rw [hpc]; nofun))
  | exited => exact .exited hpc

theorem child_blocked (h : Inv c s) (hstuck : ¬ (system c).CanProgress s) :
    Blocked s .child := by
  have hcounted := h.counted .child
  unfold Process.Counted at hcounted
  have hstep : (system c).step s .child = childStep c s := rfl
  unfold childStep at hstep
  dsimp only at hstep
  cases hpc : (s.process .child).pc with
  | head =>
      rw [hpc] at hstep
      exact absurd (canProgress_head hstep (by rw [hpc]; nofun) (by rw [hpc]; nofun)) hstuck
  | loop =>
      rw [hpc] at hstep
      exact absurd (canProgress_head hstep (by rw [hpc]; nofun) (by rw [hpc]; nofun)) hstuck
  | posting =>
      rw [hpc] at hstep
      exact absurd (canProgress_event hstep rfl) hstuck
  | waiting =>
      rw [hpc] at hstep
      exact .waiting hpc (sem_of_stuck hstep hstuck)
  -- these are the parent's
  | starting | ending | reaping =>
      rw [hpc] at hcounted
      cases hcounted.2
  | exited => exact .exited hpc

/-- **Nobody waits for somebody who waits.** -/
theorem canProgress (h : Inv c s) (hrelay : (relay pingPong c.rounds).Reachable s.events)
    (hexited : ¬ ∀ p, (s.process p).pc = .exited) : (system c).CanProgress s := by
  by_contra hstuck
  -- once the parent is through, the child has every unit it needs
  have hrest : (s.process .parent).pc = .reaping ∨ (s.process .parent).pc = .exited →
      (s.process .child).pc = .exited := by
    intro hparent
    have hshare := share_rest h hrelay hparent
    rw [Party.share_parent] at hshare
    cases child_blocked h hstuck with
    | waiting hchild hsem =>
        have hwait := waits h hrelay hchild hsem
        omega
    | reaping _ hp => cases hp
    | exited hchild => exact hchild
  cases parent_blocked hstuck with
  | waiting hparent hsem =>
      have hwait := waits h hrelay hparent hsem
      simp only [Party.other, slot] at hwait
      cases child_blocked h hstuck with
      -- each waits for the other to post: the number of events has two remainders
      | waiting hchild hsem' =>
          have hwait' := waits h hrelay hchild hsem'
          simp only [Party.other, slot] at hwait'
          omega
      | reaping _ hp => cases hp
      -- the child has made all of its posts
      | exited hchild =>
          have hshare := share_rest h hrelay (.inr hchild)
          rw [Party.share_child] at hshare
          omega
  | reaping hparent _ hchild => exact hchild (hrest (.inl hparent))
  | exited hparent =>
      have hchild := hrest (.inr hparent)
      refine hexited ?_
      intro p
      cases p with
      | parent => exact hparent
      | child => exact hchild

/-! ## §6. In step. -/

def poster? (e : Event) : Option Party := if e.2 = .signal then some e.1 else none

/-- The posts so far, by who posted. -/
def State.posts (s : State) : List Party := s.events.filterMap poster?

/-- **The parent starts its clock** behind all posts and waits of the
iterations before, the child's as well. -/
theorem count_starting (h : Inv c s) (hrelay : (relay pingPong c.rounds).Reachable s.events)
    (hpc : (s.process .parent).pc = .starting) (e : Event) :
    s.events.count e = (s.process .parent).i * c.loopSize := by
  have hshare := h.share_eq hrelay .parent
  have hcounted := h.counted .parent
  unfold Process.Counted at hcounted
  unfold eventsMade Config.round at hshare
  rw [hpc] at hshare hcounted
  rw [hcounted.1.2] at hshare
  -- the parent alone tells: its last wait took the child's last post
  have hlength := (share_whole hshare).2 rfl
  obtain ⟨p, op⟩ := e
  have hslot : slot p op ≤ 3 := by
    cases p <;> cases op <;> decide
  rw [count_pingPong hrelay]
  omega

/-- Where both have exited no unit is left. -/
theorem sem_exited (h : Inv c s) (hrelay : (relay pingPong c.rounds).Reachable s.events)
    (hexited : ∀ p, (s.process p).pc = .exited) (p : Party) : s.sem p = 0 := by
  have hlength := (share_whole (share_rest h hrelay (.inr (hexited .parent)))).2 rfl
  have hpending : pending p.other s.events.length = false := by
    rw [not_pending_iff]
    cases p <;> simp only [Party.other, slot] <;> omega
  rw [h.sem]
  unfold semAfter
  rw [hpending]
  rfl

theorem sem_le_one (h : Inv c s) : s.sem .parent + s.sem .child ≤ 1 := by
  rw [h.sem, h.sem]
  unfold semAfter
  cases hpending : pending (Party.child.other) s.events.length with
  -- a unit of one semaphore rules out one of the other
  | true =>
      have hother := pending_other hpending
      rw [Party.other_other] at hother
      show (pending .child _).toNat + _ ≤ 1
      rw [hother]
      decide
  | false =>
      cases pending (Party.parent.other) s.events.length <;> decide

/-- **The two processes stay in step.** -/
theorem semaphore_in_step (c : Config) {s : State} (h : (system c).Reachable s) :
    s.sem .parent + s.sem .child ≤ 1 ∧
    s.posts <+: repeated [.parent, .child] c.rounds ∧
    ((s.process .parent).pc = .starting →
      s.events.count (.child, .consume) = (s.process .parent).i * c.loopSize ∧
      s.events.count (.child, .signal) = (s.process .parent).i * c.loopSize) ∧
    ((¬ ∀ p, (s.process p).pc = .exited) → (system c).CanProgress s) ∧
    ((∀ p, (s.process p).pc = .exited) → ∀ p, s.sem p = 0) := by
  obtain ⟨hinv, hrelay⟩ := inv_of_reachable h
  refine ⟨sem_le_one hinv, ?_, ?_, canProgress hinv hrelay, sem_exited hinv hrelay⟩
  · have hposts := (relay_reachable_iff.mp hrelay).filterMap poster?
    rwa [filterMap_repeated] at hposts
  · intro hpc
    exact ⟨count_starting hinv hrelay hpc _, count_starting hinv hrelay hpc _⟩

/-- An iteration of one round, up to the start of the next. -/
def oneIteration : List Party :=
  [.parent, .parent, .parent, .child, .child, .parent, .child, .child, .parent, .parent, .parent,
    .parent]

theorem semaphore_in_step_second :
    ∃ s, (system ⟨1, 2⟩).Reachable s ∧ (s.process .parent).pc = .starting ∧
      (s.process .parent).i = 1 ∧ s.posts <+: [.parent, .child, .parent, .child] ∧
      s.events.count (.child, .signal) = 1 ∧ (system ⟨1, 2⟩).CanProgress s := by
  have hrun : ∃ s, (system ⟨1, 2⟩).Reachable s ∧
      ((s.process .parent).pc = .starting ∧ (s.process .parent).i = 1) :=
    System.exists_reachable_of_exec oneIteration rfl (by decide)
  obtain ⟨s, hreach, hpc, hi⟩ := hrun
  obtain ⟨_, hposts, hstart, hprogress, _⟩ := semaphore_in_step ⟨1, 2⟩ hreach
  have hcount := (hstart hpc).2
  rw [hi] at hcount
  refine ⟨s, hreach, hpc, hi, hposts, hcount, hprogress ?_⟩
  intro hexited
  have hparent := hexited .parent
  rw [hpc] at hparent
  cases hparent

end Akbench.Semaphore
