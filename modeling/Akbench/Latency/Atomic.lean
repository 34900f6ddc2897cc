/-
  Akbench.Latency.Atomic
  ──────────────────────
  **`atomic` AND `atomic_rel_acq`: FOUR TRIPS A ROUND.**

  Each party stores to its own flag and polls that of the other.  In a round
  the parent's flag goes up, then the child's, then the parent's goes down,
  then the child's; every store waits for the one before to be seen.  The
  child's thread is made anew in each iteration and joined at its end, the
  flags are never reset.

  The two benchmarks are the same but for the memory orders: a load and a
  store are one step each here.

    • §3 — what a step can do;
    • §5 — the stores and the polls that see them are `relay handshake`, and a
      one-bit flag tells a poll of round `i + 1` from one of round `i`;
    • §6 — somebody can always do more than poll in vain.
-/
import Akbench.Latency.Parties

namespace Akbench.Atomic

open Latency

/-! ## §1. The code. -/

/-- Where a party is. -/
inductive Pc where
  /-- The parent at the head of the loop over iterations; the child without a
  thread. -/
  | idle
  /-- At the head of the loop of `ParentFlip` or `ChildFlip`. -/
  | head
  | storing (value : Bool)
  /-- Before it loads the other's flag, for as long as that is not `value`. -/
  | polling (value : Bool)
  /-- Behind the loop; the parent is at `join`. -/
  | returned
  | exited
  deriving DecidableEq, Repr

structure Process where
  pc : Pc
  i : Nat
  deriving DecidableEq, Repr

/-- A store, or the load that ends a poll, with its value. -/
abbrev Event := Latency.Event × Bool

/-- `events` is read by no step. -/
structure State where
  iteration : Nat
  process : Party → Process
  flag : Party → Bool
  events : List Event

/-- The first statement of the body. -/
def first : Party → Pc
  | .parent => .storing true
  | .child => .polling true

/-- Behind `store(value)`. -/
def afterStore : Party → Bool → Pc
  | .parent, value => .polling value
  | .child, true => .polling false
  | .child, false => .head

/-- Behind the poll for `value`. -/
def afterPoll : Party → Bool → Pc
  | .parent, true => .storing false
  | .parent, false => .head
  | .child, value => .storing value

/-- On to `pc`; `++i` on the way back to the head. -/
def Process.goto (q : Process) (pc : Pc) : Process where
  pc := pc
  i := if pc = .head then q.i + 1 else q.i

def State.goto (s : State) (p : Party) (pc : Pc) : State :=
  { s with process := Function.update s.process p ((s.process p).goto pc) }

@[simp] theorem State.goto_process_self (s : State) (p : Party) (pc : Pc) :
    (s.goto p pc).process p = (s.process p).goto pc :=
  Function.update_self _ _ _

theorem State.goto_process_of_ne {s : State} {p q : Party} {pc : Pc} (hq : q ≠ p) :
    (s.goto p pc).process q = s.process q :=
  Function.update_of_ne hq _ _

/-- `ParentFlip` and `ChildFlip`. -/
def flipStep (c : Config) (s : State) (p : Party) : Option State :=
  match (s.process p).pc with
  | .head =>
      if (s.process p).i < c.loopSize then some (s.goto p (first p))
      else some (s.goto p .returned)
  | .storing value =>
      some { s.goto p (afterStore p value) with
        flag := Function.update s.flag p value
        events := s.events ++ [((p, .signal), value)] }
  -- one turn of the `while`; it stays where it is if the poll fails
  | .polling value =>
      if s.flag p.other = value then
        some { s.goto p (afterPoll p value) with
          events := s.events ++ [((p, .consume), value)] }
      else some s
  | .idle | .returned | .exited => none

/-- `RunAtomicLatencyBenchmark` around them. -/
def step (c : Config) (s : State) (p : Party) : Option State :=
  match p, (s.process p).pc with
  | .parent, .idle =>
      if s.iteration < c.total then some { s with process := fun _ => ⟨.head, 0⟩ }
      else some (s.goto .parent .exited)
  -- `child_thread.join()`; the flags stay as they are
  | .parent, .returned =>
      if (s.process .child).pc = .returned then
        some { s with iteration := s.iteration + 1, process := fun _ => ⟨.idle, 0⟩ }
      else none
  | _, _ => flipStep c s p

/-- Both flags are false at first. -/
def State.fresh : State where
  iteration := 0
  process := fun _ => ⟨.idle, 0⟩
  flag := fun _ => false
  events := []

def system (c : Config) : System State Party where
  init s := s = State.fresh
  step := step c

/-! ## §2. The order of the events. -/

/-- A round: ping-pong with `true`, then with `false`. -/
def handshake : List Event := pingPong.map (·, true) ++ pingPong.map (·, false)

/-- The stores of a round. -/
def trips : List (Party × Bool) :=
  [(.parent, true), (.child, true), (.parent, false), (.child, false)]

def Event.store? (e : Event) : Option (Party × Bool) :=
  if e.1.2 = .signal then some (e.1.1, e.2) else none

/-- The stores so far. -/
def State.stores (s : State) : List (Party × Bool) := s.events.filterMap Event.store?

theorem countP_handshake {rounds : Nat} {t : List Event}
    (h : (relay handshake rounds).Reachable t) (p : Party) :
    t.countP (fun e => e.1.1 = p) = p.share t.length := by
  refine countP_share (by decide) (m := 2) rfl p _ ?_ h
  cases p <;> decide

/-- The place of a statement among the events of a round. -/
def slot : Party → Op → Bool → Nat
  | .parent, .signal, true => 0
  | .child, .consume, true => 1
  | .child, .signal, true => 2
  | .parent, .consume, true => 3
  | .parent, .signal, false => 4
  | .child, .consume, false => 5
  | .child, .signal, false => 6
  | .parent, .consume, false => 7

theorem handshake_slot (p : Party) (op : Op) (value : Bool) :
    handshake[slot p op value]? = some ((p, op), value) := by
  cases p <;> cases op <;> cases value <;> rfl

/-- The flag of `p` behind `n` events. -/
def flagAfter : Party → Nat → Bool
  | .parent, n => decide (1 ≤ n % 8 ∧ n % 8 ≤ 4)
  | .child, n => decide (3 ≤ n % 8 ∧ n % 8 ≤ 6)

/-- A store is there at once, -/
theorem flagAfter_signal {n : Nat} {value : Bool} {p : Party}
    (h : n % 8 = slot p .signal value) : flagAfter p (n + 1) = value := by
  cases p <;> cases value <;> simp only [slot] at h <;>
    simp only [flagAfter, decide_eq_true_eq, decide_eq_false_iff_not] <;> omega

/-- and changes no other flag; a load changes none. -/
theorem flagAfter_other {n : Nat} {value : Bool} {p q : Party} {op : Op}
    (h : n % 8 = slot p op value) (hother : op = .signal → q ≠ p) :
    flagAfter q (n + 1) = flagAfter q n := by
  cases op with
  | signal =>
      have hq := Party.eq_other_of_ne (hother rfl)
      subst hq
      cases p <;> cases value <;> simp only [slot] at h <;>
        simp only [Party.other, flagAfter, decide_eq_decide] <;> omega
  | consume =>
      cases p <;> cases value <;> cases q <;> simp only [slot] at h <;>
        simp only [flagAfter, decide_eq_decide] <;> omega

/-! ## §3. What a step can do. -/

/-- A step of party `p`. -/
inductive Move (c : Config) (s : State) : Party → State → Prop where
  | launch (hpc : (s.process .parent).pc = .idle) (hlt : s.iteration < c.total) :
      Move c s .parent { s with process := fun _ => ⟨.head, 0⟩ }
  | quit (hpc : (s.process .parent).pc = .idle) (hge : c.total ≤ s.iteration) :
      Move c s .parent (s.goto .parent .exited)
  | join (hpc : (s.process .parent).pc = .returned)
      (hchild : (s.process .child).pc = .returned) :
      Move c s .parent { s with iteration := s.iteration + 1, process := fun _ => ⟨.idle, 0⟩ }
  | enter {p : Party} (hpc : (s.process p).pc = .head) (hlt : (s.process p).i < c.loopSize) :
      Move c s p (s.goto p (first p))
  | finish {p : Party} (hpc : (s.process p).pc = .head) (hge : c.loopSize ≤ (s.process p).i) :
      Move c s p (s.goto p .returned)
  | store {p : Party} {value : Bool} (hpc : (s.process p).pc = .storing value) :
      Move c s p { s.goto p (afterStore p value) with
        flag := Function.update s.flag p value
        events := s.events ++ [((p, .signal), value)] }
  | load {p : Party} {value : Bool} (hpc : (s.process p).pc = .polling value)
      (hflag : s.flag p.other = value) :
      Move c s p { s.goto p (afterPoll p value) with
        events := s.events ++ [((p, .consume), value)] }
  | spin {p : Party} {value : Bool} (hpc : (s.process p).pc = .polling value) : Move c s p s

variable {c : Config} {s s' : State} {p : Party}

theorem flipStep_move (hs : flipStep c s p = some s') : Move c s p s' := by
  unfold flipStep at hs
  cases hpc : (s.process p).pc with
  | head =>
      rw [hpc] at hs
      obtain ⟨hlt, rfl⟩ | ⟨hge, rfl⟩ := System.branch_cases hs
      · exact .enter hpc hlt
      · exact .finish hpc (Nat.le_of_not_lt hge)
  | storing value =>
      rw [hpc] at hs
      injection hs with hs
      subst hs
      exact .store hpc
  | polling value =>
      rw [hpc] at hs
      obtain ⟨hflag, rfl⟩ | ⟨_, rfl⟩ := System.branch_cases hs
      · exact .load hpc hflag
      · exact .spin hpc
  | idle | returned | exited =>
      rw [hpc] at hs
      cases hs

/-- **Every step is a move.** -/
theorem step_move (hs : step c s p = some s') : Move c s p s' := by
  unfold step at hs
  split at hs
  next hpc =>
    obtain ⟨hlt, rfl⟩ | ⟨hge, rfl⟩ := System.branch_cases hs
    · exact .launch hpc hlt
    · exact .quit hpc (Nat.le_of_not_lt hge)
  next hpc =>
    obtain ⟨hchild, rfl⟩ := System.guard_cases hs
    exact .join hpc hchild
  next => exact flipStep_move hs

/-! ## §4. The invariant. -/

/-- Before a store, or a poll. -/
def statement : Op → Bool → Pc
  | .signal, value => .storing value
  | .consume, value => .polling value

def behind : Op → Party → Bool → Pc
  | .signal => afterStore
  | .consume => afterPoll

/-- The events a party has made in its round. -/
def Pc.offset : Party → Pc → Nat
  | .parent, .polling true => 1
  | .parent, .storing false => 2
  | .parent, .polling false => 3
  | .child, .storing true => 1
  | .child, .polling false => 2
  | .child, .storing false => 3
  | _, _ => 0

/-- The events a party has made, read off where it is. -/
def eventsMade (c : Config) (k : Nat) (p : Party) (q : Process) : Nat :=
  4 * c.round k q.i + q.pc.offset p

/-- In an iteration. -/
def Pc.isRunning : Pc → Bool
  | .idle | .exited => false
  | _ => true

/-- The loop counter of a party, by where it is. -/
def Process.Counted (c : Config) (q : Process) : Prop :=
  match q.pc with
  | .idle | .exited => q.i = 0
  | .head => q.i ≤ c.loopSize
  | .storing _ | .polling _ => q.i < c.loopSize
  | .returned => q.i = c.loopSize

/-- Everything that holds in every run. -/
structure Inv (c : Config) (s : State) : Prop where
  control : Control c (fun q : Process => q.pc.isRunning) (Process.Counted c) s.iteration s.process
  made : ∀ p, s.events.countP (fun e => e.1.1 = p) =
    eventsMade c s.iteration p (s.process p)
  flag : ∀ p, s.flag p = flagAfter p s.events.length

theorem inv_fresh (c : Config) : Inv c State.fresh := by
  refine ⟨.uniform (Nat.zero_le _) nofun rfl, ?_, ?_⟩
  · intro p
    show 0 = 4 * c.round 0 0 + Pc.offset p .idle
    rw [c.round_zero]
    cases p <;> rfl
  · intro p
    cases p <;> rfl

/-! ## §5. One event after the other. -/

theorem isRunning_statement (op : Op) (value : Bool) : (statement op value).isRunning = true := by
  cases op <;> rfl

theorem isRunning_behind (op : Op) (p : Party) (value : Bool) :
    (behind op p value).isRunning = true := by
  cases op <;> cases p <;> cases value <;> rfl

/-- A party that has made an event is one event further. -/
theorem made_behind {q : Process} {op : Op} {value : Bool} (hpc : q.pc = statement op value)
    (k : Nat) (p : Party) :
    eventsMade c k p (q.goto (behind op p value)) = eventsMade c k p q + 1 := by
  obtain ⟨pc, i⟩ := q
  have hpc' : pc = statement op value := hpc
  subst hpc'
  have hnext := c.round_succ k i
  unfold eventsMade
  -- only behind the last statement of the body is `++i` counted
  cases op <;> cases p <;> cases value <;>
    simp only [statement, behind, afterStore, afterPoll, Process.goto, Pc.offset, reduceCtorEq,
      if_true, if_false] <;>
    omega

theorem counted_behind {q : Process} {op : Op} {value : Bool} (hpc : q.pc = statement op value)
    (hq : q.Counted c) (p : Party) : (q.goto (behind op p value)).Counted c := by
  have hlt : q.i < c.loopSize := by
    unfold Process.Counted at hq
    rw [hpc] at hq
    cases op <;> exact hq
  cases op <;> cases p <;> cases value <;> exact hlt

/-- How far the events are is known from where any of the two is. -/
theorem Inv.share_eq (h : Inv c s) (hrelay : (relay handshake c.rounds).Reachable s.events)
    (p : Party) : p.share s.events.length = eventsMade c s.iteration p (s.process p) := by
  rw [← h.made p, countP_handshake hrelay p]

/-- Inside of the loop the iteration has rounds left. -/
theorem Inv.round_in (h : Inv c s) {op : Op} {value : Bool}
    (hpc : (s.process p).pc = statement op value) :
    c.round s.iteration (s.process p).i + 1 ≤ c.round s.iteration c.loopSize := by
  have hcounted := h.control.counted p
  unfold Process.Counted at hcounted
  rw [hpc] at hcounted
  apply c.round_lt
  cases op <;> exact hcounted

theorem Inv.round_lt (h : Inv c s) {op : Op} {value : Bool}
    (hpc : (s.process p).pc = statement op value) :
    c.round s.iteration (s.process p).i + 1 ≤ c.rounds := by
  have hlt := h.control.running p (by rw [hpc]; exact isRunning_statement op value)
  exact Nat.le_trans (h.round_in hpc) (c.round_le_rounds hlt)

/-- **What a party is about to do is due**: before a store always, before a
poll when the flag has the value that ends it. -/
theorem Inv.due (h : Inv c s) (hrelay : (relay handshake c.rounds).Reachable s.events) {op : Op}
    {value : Bool} (hpc : (s.process p).pc = statement op value)
    (hload : op = .consume → s.flag p.other = value) :
    s.events.length % 8 = slot p op value ∧ s.events.length < c.rounds * 8 := by
  -- the events of `p` leave two numbers of events in all, and before a poll
  -- the flag tells which
  have hround := h.round_lt hpc
  have hshare := h.share_eq hrelay p
  unfold eventsMade at hshare
  rw [hpc] at hshare
  generalize c.round s.iteration (s.process p).i = g at hshare hround
  cases op with
  | signal =>
      cases p <;> cases value <;>
        simp only [Party.share, statement, Pc.offset] at hshare <;>
        simp only [slot] <;> omega
  | consume =>
      have hflag := hload rfl
      rw [h.flag] at hflag
      cases p <;> cases value <;>
        simp only [Party.share, statement, Pc.offset] at hshare <;>
        simp only [Party.other, flagAfter, decide_eq_true_eq, decide_eq_false_iff_not] at hflag <;>
        simp only [slot] <;> omega

/-- **Step lemma for an event.** -/
theorem Inv.event (h : Inv c s) {op : Op} {value : Bool} {flag : Party → Bool}
    (hpc : (s.process p).pc = statement op value)
    (hflag : ∀ q, flag q = flagAfter q (s.events.length + 1)) :
    Inv c { s.goto p (behind op p value) with
      flag := flag
      events := s.events ++ [((p, op), value)] } := by
  refine ⟨h.control.update ?_ (counted_behind hpc (h.control.counted p) p), ?_, ?_⟩
  · rw [hpc, isRunning_statement]
    exact isRunning_behind op p value
  · refine countP_event (fun e : Event => e.1.1) rfl h.made ?_ ?_
    · show eventsMade c s.iteration p ((s.goto p _).process p) = _
      rw [State.goto_process_self, made_behind hpc]
    · intro q hq
      show eventsMade c s.iteration q ((s.goto p _).process q) = _
      rw [State.goto_process_of_ne hq]
  · intro q
    show flag q = flagAfter q (s.events ++ [((p, op), value)]).length
    rw [List.length_append]
    exact hflag q

/-- A party goes on without an event. -/
theorem Inv.goto (h : Inv c s) {pc : Pc} (hrun : pc.isRunning = (s.process p).pc.isRunning)
    (hcounted : ((s.process p).goto pc).Counted c)
    (hmade : eventsMade c s.iteration p ((s.process p).goto pc) =
      eventsMade c s.iteration p (s.process p)) : Inv c (s.goto p pc) := by
  refine ⟨h.control.update hrun hcounted, ?_, h.flag⟩
  intro q
  refine (h.made q).trans ?_
  show _ = eventsMade c s.iteration q ((s.goto p pc).process q)
  by_cases hq : q = p
  · subst hq
    rw [State.goto_process_self, hmade]
  · rw [State.goto_process_of_ne hq]

/-- Outside of the loop nothing of the round is done. -/
theorem eventsMade_idle {q : Process} (hrun : q.pc.isRunning = false) (hq : q.Counted c) (k : Nat)
    (p : Party) : eventsMade c k p q = 4 * c.round k 0 := by
  obtain ⟨pc, i⟩ := q
  unfold eventsMade
  cases pc with
  | idle | exited =>
      have hi : i = 0 := hq
      subst hi
      cases p <;> rfl
  | head | storing | polling | returned => cases hrun

theorem Inv.launch (h : Inv c s) (hpc : (s.process .parent).pc = .idle)
    (hlt : s.iteration < c.total) : Inv c { s with process := fun _ => ⟨.head, 0⟩ } := by
  refine ⟨.uniform h.control.bound (fun _ => hlt) (Nat.zero_le _), ?_, h.flag⟩
  intro p
  have hrun := h.control.isRunning_eq p
  rw [hpc] at hrun
  refine (h.made p).trans ?_
  rw [eventsMade_idle hrun (h.control.counted p)]
  cases p <;> rfl

theorem Inv.quit (h : Inv c s) (hpc : (s.process .parent).pc = .idle) :
    Inv c (s.goto .parent .exited) := by
  have hidle : (s.process .parent).i = 0 := by
    have hcounted := h.control.counted .parent
    unfold Process.Counted at hcounted
    rwa [hpc] at hcounted
  refine h.goto (by rw [hpc]; rfl) hidle ?_
  rw [eventsMade_idle (by rw [hpc]; rfl) (h.control.counted .parent)]
  exact eventsMade_idle (q := (s.process .parent).goto .exited) rfl hidle _ _

/-- The iteration that ends has played all of its rounds. -/
theorem Inv.join (h : Inv c s) (hparent : (s.process .parent).pc = .returned)
    (hchild : (s.process .child).pc = .returned) :
    Inv c { s with iteration := s.iteration + 1, process := fun _ => ⟨.idle, 0⟩ } := by
  have hlt := h.control.running .parent (by rw [hparent]; rfl)
  refine ⟨.uniform hlt nofun rfl, ?_, h.flag⟩
  intro p
  have hpc : (s.process p).pc = .returned := by
    cases p with
    | parent => exact hparent
    | child => exact hchild
  have hi : (s.process p).i = c.loopSize := by
    have hcounted := h.control.counted p
    unfold Process.Counted at hcounted
    rwa [hpc] at hcounted
  refine (h.made p).trans ?_
  unfold eventsMade
  rw [hpc, hi, ← c.round_next]
  cases p <;> rfl

/-- **Every move keeps the invariant, and its event is the one that is due.** -/
theorem Inv.move (h : Inv c s) (hrelay : (relay handshake c.rounds).Reachable s.events)
    (hmove : Move c s p s') :
    Inv c s' ∧
      (relay handshake c.rounds).Steps (fun _ _ => True) s.events s'.events := by
  have hnext : ∀ {op value}, (s.process p).pc = statement op value →
      (op = .consume → s.flag p.other = value) →
      (relay handshake c.rounds).Steps (fun _ _ => True) s.events
        (s.events ++ [((p, op), value)]) := by
    intro op value hpc hload
    obtain ⟨hslot, hlt⟩ := h.due hrelay hpc hload
    refine relay_next hlt ?_
    show handshake[s.events.length % 8]? = _
    rw [hslot]
    exact handshake_slot p op value
  have hcounted := h.control.counted p
  unfold Process.Counted at hcounted
  cases hmove with
  | launch hpc hlt => exact ⟨h.launch hpc hlt, .refl _⟩
  | quit hpc hge => exact ⟨h.quit hpc, .refl _⟩
  | join hpc hchild => exact ⟨h.join hpc hchild, .refl _⟩
  | enter hpc hlt =>
      refine ⟨h.goto (by rw [hpc]; cases p <;> rfl) ?_ ?_, .refl _⟩
      · cases p <;> exact hlt
      · unfold eventsMade
        rw [hpc]
        cases p <;> rfl
  | finish hpc hge =>
      rw [hpc] at hcounted
      refine ⟨h.goto (by rw [hpc]; rfl) (Nat.le_antisymm hcounted hge) ?_, .refl _⟩
      unfold eventsMade
      rw [hpc]
      cases p <;> rfl
  | @store _ value hpc =>
      have hpc' : (s.process p).pc = statement .signal value := hpc
      have hslot := (h.due hrelay hpc' nofun).1
      refine ⟨h.event hpc' ?_, hnext hpc' nofun⟩
      intro q
      -- the flag of `p` is the value stored, and the other's stays
      by_cases hq : q = p
      · subst hq
        rw [Function.update_self]
        exact (flagAfter_signal hslot).symm
      · rw [Function.update_of_ne hq, h.flag q]
        exact (flagAfter_other hslot fun _ => hq).symm
  | @load _ value hpc hflag =>
      have hpc' : (s.process p).pc = statement .consume value := hpc
      have hslot := (h.due hrelay hpc' fun _ => hflag).1
      refine ⟨h.event hpc' ?_, hnext hpc' fun _ => hflag⟩
      intro q
      exact (h.flag q).trans (flagAfter_other hslot nofun).symm
  | spin => exact ⟨h, .refl _⟩

/-- **The benchmark refines the relay.** -/
theorem inv_of_reachable (h : (system c).Reachable s) :
    Inv c s ∧ (relay handshake c.rounds).Reachable s.events := by
  refine System.simulates State.events ?_ ?_ h
  · intro t ht
    rw [show t = State.fresh from ht]
    exact ⟨inv_fresh c, rfl⟩
  · intro t p t' hinv hrelay hs
    exact hinv.move hrelay (step_move hs)

/-! ## §6. Progress. -/

/-- Inside of its loop a party takes the steps of its function. -/
theorem step_eq_flipStep (hrun : (s.process p).pc.isRunning = true)
    (hpc : (s.process p).pc ≠ .returned) : step c s p = flipStep c s p := by
  unfold step
  split
  next hidle =>
    rw [hidle] at hrun
    cases hrun
  next hreturned => exact absurd hreturned hpc
  next => rfl

/-- A party that cannot go on polls in vain or has returned. -/
theorem blocked_cases (hrun : (s.process p).pc.isRunning = true)
    (hstuck : ¬ (system c).CanProgress s) :
    (∃ value, (s.process p).pc = .polling value ∧ s.flag p.other ≠ value) ∨
      (s.process p).pc = .returned := by
  by_cases hreturned : (s.process p).pc = .returned
  · exact .inr hreturned
  left
  have hstep := step_eq_flipStep (c := c) hrun hreturned
  -- a store and a poll that ends make the events longer
  have hlength : ∀ e : Event, (s.events ++ [e]).length ≠ s.events.length := by
    intro e
    rw [List.length_append, List.length_singleton]
    omega
  unfold flipStep at hstep
  cases hpc : (s.process p).pc with
  | head =>
      -- in and out of the loop the party leaves the head
      exfalso
      rw [hpc] at hstep
      have hleave : ∀ pc, pc ≠ .head → ((s.goto p pc).process p).pc ≠ (s.process p).pc := by
        intro pc hne
        rw [State.goto_process_self, hpc]
        exact hne
      refine hstuck (.of_branch (f := fun u => (u.process p).pc) hstep (hleave _ ?_)
        (hleave .returned nofun))
      cases p <;> nofun
  | storing value =>
      exfalso
      rw [hpc] at hstep
      exact hstuck (.of_step (f := fun u => u.events.length) hstep (hlength _))
  | polling value =>
      refine ⟨value, rfl, ?_⟩
      intro hflag
      rw [hpc] at hstep
      dsimp only at hstep
      rw [if_pos hflag] at hstep
      exact hstuck (.of_step (f := fun u => u.events.length) hstep (hlength _))
  | returned => exact absurd hpc hreturned
  | idle | exited =>
      rw [hpc] at hrun
      cases hrun

section

variable (h : Inv c s) (hrelay : (relay handshake c.rounds).Reachable s.events)
include h hrelay

/-- The parent polls in vain until the child has stored. -/
theorem parent_polls {value : Bool} (hpc : (s.process .parent).pc = .polling value)
    (hflag : s.flag .child ≠ value) :
    (s.events.length % 4 = 1 ∨ s.events.length % 4 = 2) ∧
      s.events.length + 2 ≤ 8 * c.round s.iteration c.loopSize := by
  have hshare := h.share_eq hrelay .parent
  have hpolling : (s.process .parent).pc = statement .consume value := hpc
  have hround := h.round_in hpolling
  unfold eventsMade at hshare
  rw [hpc] at hshare
  rw [h.flag] at hflag
  generalize c.round s.iteration (s.process .parent).i = g at hshare hround
  cases value <;>
    simp only [Party.share_parent, Pc.offset] at hshare <;>
    simp only [flagAfter, ne_eq, decide_eq_true_eq, decide_eq_false_iff_not] at hflag <;> omega

/-- The child polls in vain until the parent has stored. -/
theorem child_polls {value : Bool} (hpc : (s.process .child).pc = .polling value)
    (hflag : s.flag .parent ≠ value) :
    (s.events.length % 4 = 3 ∨ s.events.length % 4 = 0) ∧
      s.events.length + 4 ≤ 8 * c.round s.iteration c.loopSize := by
  have hshare := h.share_eq hrelay .child
  have hpolling : (s.process .child).pc = statement .consume value := hpc
  have hround := h.round_in hpolling
  unfold eventsMade at hshare
  rw [hpc] at hshare
  rw [h.flag] at hflag
  generalize c.round s.iteration (s.process .child).i = g at hshare hround
  cases value <;>
    simp only [Party.share_child, Pc.offset] at hshare <;>
    simp only [flagAfter, ne_eq, decide_eq_true_eq, decide_eq_false_iff_not] at hflag <;> omega

/-- A party that has returned has made all its events of the iteration. -/
theorem share_returned (hpc : (s.process p).pc = .returned) :
    p.share s.events.length = 4 * c.round s.iteration c.loopSize := by
  have hcounted := h.control.counted p
  unfold Process.Counted at hcounted
  rw [hpc] at hcounted
  rw [h.share_eq hrelay]
  unfold eventsMade
  rw [hpc, hcounted]
  cases p <;> rfl

/-- **Nobody waits for somebody who waits.** -/
theorem canProgress (hpc : (s.process .parent).pc ≠ .exited) : (system c).CanProgress s := by
  by_contra hstuck
  have hchange : ∀ u, step c s .parent = some u →
      (u.process .parent).pc ≠ (s.process .parent).pc → False := by
    intro u hu hne
    exact hstuck (.of_step (f := fun u => (u.process .parent).pc) hu hne)
  cases hrun : (s.process .parent).pc.isRunning with
  | false =>
      -- between two iterations
      have hidle : (s.process .parent).pc = .idle := by
        cases hcase : (s.process .parent).pc with
        | idle => rfl
        | exited => exact absurd hcase hpc
        | head | storing | polling | returned =>
            rw [hcase] at hrun
            cases hrun
      have hstep : (system c).step s .parent = step c s .parent := rfl
      unfold step at hstep
      rw [hidle] at hstep
      refine hstuck (.of_branch (f := fun u => (u.process .parent).pc) hstep ?_ ?_)
      · rw [hidle]
        nofun
      · rw [hidle]
        nofun
  | true =>
      have hrunChild : (s.process .child).pc.isRunning = true := h.control.together.trans hrun
      obtain ⟨v, hparent, hchildFlag⟩ | hparent := blocked_cases hrun hstuck
      -- the parent polls in vain: the child has not stored yet
      · have hwait := parent_polls h hrelay hparent hchildFlag
        obtain ⟨w, hchild, hparentFlag⟩ | hchild := blocked_cases hrunChild hstuck
        -- nor has the parent, and the two remainders differ
        · have hwait' := child_polls h hrelay hchild hparentFlag
          omega
        -- the child has returned, so it has stored
        · have hshare := share_returned h hrelay hchild
          rw [Party.share_child] at hshare
          omega
      · obtain ⟨w, hchild, hparentFlag⟩ | hchild := blocked_cases hrunChild hstuck
        -- the parent has returned, so it has
        · have hwait := child_polls h hrelay hchild hparentFlag
          have hshare := share_returned h hrelay hparent
          rw [Party.share_parent] at hshare
          omega
        · -- both have returned: the parent joins
          refine hchange
            { s with iteration := s.iteration + 1, process := fun _ => ⟨.idle, 0⟩ } ?_ ?_
          · unfold step
            rw [hparent]
            exact if_pos hchild
          · rw [hparent]
            nofun

end

/-! ## §7. The trips. -/

section

variable (h : Inv c s) (hrelay : (relay handshake c.rounds).Reachable s.events)
include h hrelay

/-- Between two iterations every event of the iterations so far has
happened. -/
theorem length_between (hrun : (s.process .parent).pc.isRunning = false) :
    s.events.length = 8 * (c.loopSize * s.iteration) := by
  have hshare := h.share_eq hrelay .parent
  rw [eventsMade_idle hrun (h.control.counted .parent), Party.share_parent] at hshare
  have hround : c.round s.iteration 0 = c.loopSize * s.iteration := by
    unfold Config.round
    rw [Nat.add_zero, Nat.mul_comm]
  rw [hround] at hshare
  omega

theorem flag_between (hrun : (s.process .parent).pc.isRunning = false) (p : Party) :
    s.flag p = false := by
  rw [h.flag, length_between h hrelay hrun]
  cases p <;> simp only [flagAfter, decide_eq_false_iff_not] <;> omega

theorem stores_between (hrun : (s.process .parent).pc.isRunning = false) :
    s.stores.length = 4 * c.loopSize * s.iteration := by
  have height : handshake.length = 8 := rfl
  have hfour : handshake.countP (fun e => e.store?.isSome) = 4 := rfl
  unfold State.stores
  rw [List.length_filterMap_eq_countP, relay_countP (by decide) hrelay, height, hfour,
    length_between h hrelay hrun, Nat.mul_div_cancel_left _ (by decide), Nat.mul_mod_right,
    List.take_zero, List.countP_nil, Nat.add_zero, Nat.mul_assoc 4, Nat.mul_comm]

end

/-- **Four trips a round.**  The stores follow the rounds, each is seen before
the next is made, and an iteration ends with `4 * loop_size` stores more and
both flags down. -/
theorem atomic_trips (c : Config) {s : State} (h : (system c).Reachable s) :
    s.stores <+: repeated trips c.rounds ∧
    s.events <+: repeated handshake c.rounds ∧
    ((s.process .parent).pc ≠ .exited → (system c).CanProgress s) ∧
    ((s.process .parent).pc = .idle ∨ (s.process .parent).pc = .exited →
      (∀ p, s.flag p = false) ∧ s.stores.length = 4 * c.loopSize * s.iteration) := by
  obtain ⟨hinv, hrelay⟩ := inv_of_reachable h
  have hprefix := relay_reachable_iff.mp hrelay
  refine ⟨?_, hprefix, canProgress hinv hrelay, ?_⟩
  -- the stores of a prefix of the rounds are a prefix of the stores
  · have hstores := hprefix.filterMap Event.store?
    rwa [filterMap_repeated] at hstores
  · intro hpc
    have hrun : (s.process .parent).pc.isRunning = false := by
      obtain hpc | hpc := hpc
      · rw [hpc]
        rfl
      · rw [hpc]
        rfl
    exact ⟨flag_between hinv hrelay hrun, stores_between hinv hrelay hrun⟩

/-- One iteration of one round, with a poll in vain. -/
def oneRound : List Party :=
  [.parent, .child, .child, .parent, .parent, .child, .child, .parent, .parent, .child, .child,
    .parent, .parent, .child, .parent]

theorem atomic_trips_one_round :
    ∃ s, (system ⟨1, 1⟩).Reachable s ∧ (s.process .parent).pc = .idle ∧ s.iteration = 1 ∧
      s.stores <+: trips ∧ s.stores.length = 4 ∧ s.flag .child = false := by
  have hrun : ∃ s, (system ⟨1, 1⟩).Reachable s ∧
      ((s.process .parent).pc = .idle ∧ s.iteration = 1) :=
    System.exists_reachable_of_exec oneRound rfl (by decide)
  obtain ⟨s, hreach, hpc, hiteration⟩ := hrun
  obtain ⟨hstores, _, _, hend⟩ := atomic_trips ⟨1, 1⟩ hreach
  obtain ⟨hflag, hlength⟩ := hend (.inl hpc)
  rw [hiteration] at hlength
  exact ⟨s, hreach, hpc, hiteration, hstores, hlength, hflag .child⟩

end Akbench.Atomic
