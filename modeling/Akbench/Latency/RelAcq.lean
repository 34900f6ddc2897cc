/-
  Akbench.Latency.RelAcq
  ──────────────────────
  **`atomic_rel_acq` WITH ITS MEMORY ORDERS.**

  The flags are stored with `memory_order_relaxed` and loaded with
  `memory_order_acquire`.  No store releases, so no load synchronizes with one:
  what is left of memory is the coherence of each flag, and that a thread's
  start and end order it with its parent.  A load may be given an old value.

    • `flipStep`, `step` — the code over histories, with the place each load
      reads as part of the action;
    • `load_newest` — **a load that ends a poll has read the newest store**;
    • `refines` — so the benchmark is the one with sequentially consistent
      flags, whose polls fail now and then for no reason;
    • `rel_acq_trips` — four trips a round, here too.
-/
import Akbench.Latency.Atomic
import Akbench.Lib.Coherence

namespace Akbench.RelAcq

open Latency (Party Config Op)
open Atomic (Pc Process Event first afterStore afterPoll handshake)

/-! ## §1. The code. -/

/-- `events` is read by no step. -/
structure State where
  iteration : Nat
  process : Party → Process
  /-- The stores of each party to its own flag. -/
  history : Party → History Bool
  /-- The newest place in the other's history each party has seen. -/
  seen : Party → Nat
  events : List Event

def State.goto (s : State) (p : Party) (pc : Pc) : State :=
  { s with process := Function.update s.process p ((s.process p).goto pc) }

/-- `p` has loaded from place `k`. -/
def State.see (s : State) (p : Party) (k : Nat) : State :=
  { s with seen := Function.update s.seen p k }

/-- `ParentFlip` and `ChildFlip`; a load reads at place `k`. -/
def flipStep (c : Config) (s : State) (p : Party) (k : Nat) : Option State :=
  match (s.process p).pc with
  | .head =>
      if (s.process p).i < c.loopSize then some (s.goto p (first p))
      else some (s.goto p .returned)
  | .storing value =>
      some { s.goto p (afterStore p value) with
        history := Function.update s.history p ((s.history p).store value)
        events := s.events ++ [((p, .signal), value)] }
  | .polling value =>
      -- nothing older than what has been seen, and nothing that is not there
      if s.seen p ≤ k ∧ k ≤ (s.history p.other).stores then
        if (s.history p.other).read k = some value then
          some { (s.see p k).goto p (afterPoll p value) with
            events := s.events ++ [((p, .consume), value)] }
        else some (s.see p k)
      else none
  | .idle | .returned | .exited => none

/-- `RunAtomicRelAcqLatencyBenchmark` around them. -/
def step (c : Config) (s : State) (a : Party × Nat) : Option State :=
  match a.1, (s.process a.1).pc with
  -- the child's thread starts behind everything its parent has stored
  | .parent, .idle =>
      if s.iteration < c.total then
        some { s.see .child (s.history .parent).stores with process := fun _ => ⟨.head, 0⟩ }
      else some (s.goto .parent .exited)
  -- `child_thread.join()`: the parent goes on behind everything the child has
  | .parent, .returned =>
      if (s.process .child).pc = .returned then
        some { s.see .parent (s.history .child).stores with
          iteration := s.iteration + 1
          process := fun _ => ⟨.idle, 0⟩ }
      else none
  | _, _ => flipStep c s a.1 a.2

/-- Both flags are false at first. -/
def State.fresh : State where
  iteration := 0
  process := fun _ => ⟨.idle, 0⟩
  history := fun _ => .fresh false
  seen := fun _ => 0
  events := []

def system (c : Config) : System State (Party × Nat) where
  init s := s = State.fresh
  step := step c

/-- The benchmark with flags that everybody sees at once. -/
def State.view (s : State) : Atomic.State where
  iteration := s.iteration
  process := s.process
  flag p := (s.history p).latest
  events := s.events

/-! ## §2. Stores and loads by number. -/

/-- The stores of a party among `n` events. -/
def stored : Party → Nat → Nat
  | .parent, n => (n + 3) / 4
  | .child, n => (n + 1) / 4

/-- The loads that ended a poll of a party among `n` events. -/
def loaded : Party → Nat → Nat
  | .parent, n => n / 4
  | .child, n => (n + 2) / 4

/-- The flags go up and down in turn. -/
def valueAt (k : Nat) : Bool := k % 2 == 1

/-- What holds of the memory in every run. -/
structure Coherent (s : State) : Prop where
  stores : ∀ p, (s.history p).stores = stored p s.events.length
  values : ∀ p k, k ≤ (s.history p).stores → (s.history p).read k = some (valueAt k)
  /-- Nobody forgets what a poll has ended with. -/
  seen_ge : ∀ p, loaded p s.events.length ≤ s.seen p
  seen_le : ∀ p, s.seen p ≤ (s.history p.other).stores

variable {c : Config} {s s' : State} {p q : Party} {k : Nat} {value : Bool}

theorem Coherent.latest (h : Coherent s) (p : Party) :
    (s.history p).latest = valueAt (s.history p).stores := by
  have hread := h.values p _ (Nat.le_refl _)
  rw [History.read_stores, Option.some.injEq] at hread
  exact hread

theorem coherent_fresh : Coherent State.fresh where
  stores p := by cases p <;> rfl
  values p k hk := by
    have hzero : k = 0 := Nat.le_zero.mp hk
    subst hzero
    rfl
  seen_ge p := by cases p <;> exact Nat.le_refl 0
  seen_le p := Nat.le_refl 0

/-- Before a poll the other's stores are seen, but for one at most. -/
theorem polls (hinv : Atomic.Inv c s.view)
    (hrelay : (relay handshake c.rounds).Reachable s.events)
    (hpc : (s.process p).pc = .polling value) :
    stored p.other s.events.length ≤ loaded p s.events.length + 1 ∧
      valueAt (loaded p s.events.length) = !value := by
  have hshare := hinv.share_eq hrelay p
  have hpc' : (s.view.process p).pc = .polling value := hpc
  unfold Atomic.eventsMade at hshare
  rw [hpc'] at hshare
  have hlength : s.view.events.length = s.events.length := rfl
  rw [hlength] at hshare
  generalize c.round s.view.iteration (s.view.process p).i = g at hshare
  cases p <;> cases value <;>
    simp only [Party.share_parent, Party.share_child, Pc.offset] at hshare <;>
    simp only [Party.other, stored, loaded, valueAt, beq_eq_false_iff_ne, beq_iff_eq, Bool.not_true,
      Bool.not_false, ne_eq] <;>
    omega

/-- **A load that ends a poll has read the newest store.** -/
theorem load_newest (h : Coherent s) (hinv : Atomic.Inv c s.view)
    (hrelay : (relay handshake c.rounds).Reachable s.events)
    (hpc : (s.process p).pc = .polling value) (hseen : s.seen p ≤ k)
    (hread : (s.history p.other).read k = some value) :
    k = (s.history p.other).stores ∧ (s.history p.other).latest = value := by
  obtain ⟨hle, hstale⟩ := polls hinv hrelay hpc
  rw [← h.stores] at hle
  have hbound := Nat.le_trans (h.seen_ge p) hseen
  refine History.newest_of_fresh hbound hle ?_ hread
  rw [h.values _ _ (Nat.le_trans hbound (History.le_of_read hread)), hstale]
  cases value <;> nofun

/-! ## §3. Every step is one of the benchmark with sequential consistency. -/

/-- Around a store. -/
theorem stored_signal {n : Nat} (h : n % 8 = Atomic.slot p .signal value) :
    stored p (n + 1) = stored p n + 1 ∧ valueAt (stored p n + 1) = value ∧
      stored p.other (n + 1) = stored p.other n ∧ ∀ q, loaded q (n + 1) = loaded q n := by
  refine ⟨?_, ?_, ?_, fun q => ?_⟩
  · cases p <;> cases value <;> simp only [Atomic.slot] at h <;> simp only [stored] <;> omega
  · cases p <;> cases value <;> simp only [Atomic.slot] at h <;>
      simp only [stored, valueAt, beq_eq_false_iff_ne, beq_iff_eq, ne_eq] <;> omega
  · cases p <;> cases value <;> simp only [Atomic.slot] at h <;>
      simp only [stored, Party.other] <;> omega
  · cases p <;> cases value <;> cases q <;> simp only [Atomic.slot] at h <;>
      simp only [loaded] <;> omega

/-- Around a load that ends a poll. -/
theorem loaded_consume {n : Nat} (h : n % 8 = Atomic.slot p .consume value) :
    loaded p (n + 1) = stored p.other n ∧ loaded p.other (n + 1) = loaded p.other n ∧
      ∀ q, stored q (n + 1) = stored q n := by
  refine ⟨by cases p <;> rfl, ?_, fun q => ?_⟩
  · cases p <;> cases value <;> simp only [Atomic.slot] at h <;>
      simp only [loaded, Party.other] <;> omega
  · cases p <;> cases value <;> cases q <;> simp only [Atomic.slot] at h <;>
      simp only [stored] <;> omega

/-- Memory does not depend on where the threads are. -/
theorem Coherent.congr (h : Coherent s) (hhistory : s'.history = s.history)
    (hseen : s'.seen = s.seen) (hevents : s'.events = s.events) : Coherent s' := by
  refine ⟨?_, ?_, ?_, ?_⟩
  · rw [hhistory, hevents]
    exact h.stores
  · rw [hhistory]
    exact h.values
  · rw [hseen, hevents]
    exact h.seen_ge
  · rw [hhistory, hseen]
    exact h.seen_le

/-- Whoever loads sees no less than before. -/
theorem Coherent.see (h : Coherent s) (hseen : s.seen p ≤ k)
    (hk : k ≤ (s.history p.other).stores) : Coherent (s.see p k) := by
  refine ⟨h.stores, h.values, fun q => ?_, fun q => ?_⟩
  · show _ ≤ Function.update s.seen p k q
    by_cases hq : q = p
    · rw [hq, Function.update_self]
      exact Nat.le_trans (h.seen_ge p) hseen
    · rw [Function.update_of_ne hq]
      exact h.seen_ge q
  · show Function.update s.seen p k q ≤ _
    by_cases hq : q = p
    · rw [hq, Function.update_self]
      exact hk
    · rw [Function.update_of_ne hq]
      exact h.seen_le q

theorem Coherent.see_all (h : Coherent s) (p : Party) :
    Coherent (s.see p (s.history p.other).stores) :=
  h.see (h.seen_le p) (Nat.le_refl _)

/-- A store, in its turn. -/
theorem Coherent.store (h : Coherent s) (hslot : s.events.length % 8 = Atomic.slot p .signal value)
    (pc : Pc) : Coherent { s.goto p pc with
      history := Function.update s.history p ((s.history p).store value)
      events := s.events ++ [((p, .signal), value)] } := by
  obtain ⟨hself, hvalue, hother, hloaded⟩ := stored_signal hslot
  have hlength : (s.events ++ [((p, Op.signal), value)]).length = s.events.length + 1 := by
    rw [List.length_append]
    rfl
  have hstores : ∀ q, (s.history q).stores ≤
      (Function.update s.history p ((s.history p).store value) q).stores := by
    intro q
    by_cases hq : q = p
    · rw [hq, Function.update_self, History.stores_store]
      exact Nat.le_succ _
    · exact Nat.le_of_eq (by rw [Function.update_of_ne hq])
  refine ⟨fun q => ?_, fun q k hk => ?_, fun q => ?_, fun q => ?_⟩
  · show (Function.update s.history p _ q).stores = stored q (s.events ++ _).length
    rw [hlength]
    by_cases hq : q = p
    · rw [hq, Function.update_self, History.stores_store, h.stores, hself]
    · rw [Function.update_of_ne hq, h.stores, Party.eq_other_of_ne hq, hother]
  · change k ≤ (Function.update s.history p _ q).stores at hk
    show (Function.update s.history p _ q).read k = _
    by_cases hq : q = p
    · rw [hq, Function.update_self] at hk ⊢
      rw [History.stores_store] at hk
      by_cases hle : k ≤ (s.history p).stores
      · rw [History.read_store hle]
        exact h.values p k hle
      · -- the new value is the one that is due
        have hnew : k = (s.history p).stores + 1 := by omega
        rw [hnew, History.read_store_self, h.stores, hvalue]
    · rw [Function.update_of_ne hq] at hk ⊢
      exact h.values q k hk
  · show loaded q (s.events ++ _).length ≤ s.seen q
    rw [hlength, hloaded]
    exact h.seen_ge q
  · exact Nat.le_trans (h.seen_le q) (hstores q.other)

/-- A load that ends a poll, in its turn. -/
theorem Coherent.load (h : Coherent s) (hslot : s.events.length % 8 = Atomic.slot p .consume value)
    (pc : Pc) : Coherent { (s.see p (s.history p.other).stores).goto p pc with
      events := s.events ++ [((p, .consume), value)] } := by
  obtain ⟨hself, hother, hstored⟩ := loaded_consume hslot
  have hlength : (s.events ++ [((p, Op.consume), value)]).length = s.events.length + 1 := by
    rw [List.length_append]
    rfl
  have hsee := h.see_all p
  refine ⟨fun q => ?_, h.values, fun q => ?_, hsee.seen_le⟩
  · show (s.history q).stores = stored q (s.events ++ _).length
    rw [hlength, hstored, h.stores]
  · show loaded q (s.events ++ _).length ≤ Function.update s.seen p (s.history p.other).stores q
    rw [hlength]
    by_cases hq : q = p
    · exact Nat.le_of_eq (by rw [hq, Function.update_self, hself, h.stores])
    · rw [Function.update_of_ne hq, Party.eq_other_of_ne hq, hother]
      exact h.seen_ge p.other

/-- The view of a store. -/
theorem view_store (s : State) (p : Party) (value : Bool) :
    (fun q => (Function.update s.history p ((s.history p).store value) q).latest) =
      Function.update (fun q => (s.history q).latest) p value := by
  funext q
  by_cases hq : q = p
  · rw [hq, Function.update_self, Function.update_self, History.latest_store]
  · rw [Function.update_of_ne hq, Function.update_of_ne hq]

/-- The functions the threads run. -/
theorem flipStep_refines (h : Coherent s) (hinv : Atomic.Inv c s.view)
    (hrelay : (relay handshake c.rounds).Reachable s.events) (hs : flipStep c s p k = some s') :
    Coherent s' ∧ (s'.view = s.view ∨ Atomic.flipStep c s.view p = some s'.view) := by
  unfold flipStep at hs
  unfold Atomic.flipStep
  have hview : (s.view.process p).pc = (s.process p).pc := rfl
  rw [hview]
  cases hpc : (s.process p).pc with
  | head =>
      rw [hpc] at hs
      dsimp only at hs ⊢
      obtain ⟨hlt, rfl⟩ | ⟨hge, rfl⟩ := System.branch_cases hs
      · exact ⟨h.congr rfl rfl rfl, .inr (if_pos hlt)⟩
      · exact ⟨h.congr rfl rfl rfl, .inr (if_neg hge)⟩
  | storing value =>
      rw [hpc] at hs
      injection hs with hs
      subst hs
      have hpc' : (s.view.process p).pc = Atomic.statement .signal value := hpc
      have hdue := hinv.due hrelay hpc' nofun
      refine ⟨h.store hdue.1 _, .inr ?_⟩
      unfold State.view
      dsimp only
      rw [view_store]
      rfl
  | polling value =>
      rw [hpc] at hs
      dsimp only at hs ⊢
      split at hs
      next hk =>
        split at hs
        next hread =>
          injection hs with hs
          subst hs
          obtain ⟨hnewest, hlatest⟩ := load_newest h hinv hrelay hpc hk.1 hread
          have hpc' : (s.view.process p).pc = Atomic.statement .consume value := hpc
          have hdue := hinv.due hrelay hpc' fun _ => hlatest
          subst hnewest
          exact ⟨h.load hdue.1 _, .inr (if_pos hlatest)⟩
        next =>
          injection hs with hs
          subst hs
          exact ⟨h.see hk.1 hk.2, .inl rfl⟩
      next => cases hs
  | idle | returned | exited =>
      rw [hpc] at hs
      cases hs

/-- **Step lemma.** -/
theorem step_refines (h : Coherent s) (hinv : Atomic.Inv c s.view)
    (hrelay : (relay handshake c.rounds).Reachable s.events)
    (hs : step c s (p, k) = some s') :
    Coherent s' ∧ (s'.view = s.view ∨ Atomic.step c s.view p = some s'.view) := by
  unfold step at hs
  unfold Atomic.step
  have hview : s.view.process = s.process := rfl
  rw [hview]
  dsimp only at hs
  cases p with
  | child => exact flipStep_refines h hinv hrelay hs
  | parent =>
      cases hpc : (s.process .parent).pc with
      | idle =>
          rw [hpc] at hs
          obtain ⟨hlt, rfl⟩ | ⟨hge, rfl⟩ := System.branch_cases hs
          · exact ⟨(h.see_all .child).congr rfl rfl rfl, .inr (if_pos hlt)⟩
          · exact ⟨h.congr rfl rfl rfl, .inr (if_neg hge)⟩
      | returned =>
          rw [hpc] at hs
          obtain ⟨hchild, rfl⟩ := System.guard_cases hs
          exact ⟨(h.see_all .parent).congr rfl rfl rfl, .inr (if_pos hchild)⟩
      | head | storing | polling | exited =>
          rw [hpc] at hs
          exact flipStep_refines h hinv hrelay hs

/-- **The benchmark refines the one with sequential consistency.** -/
theorem refines (h : (system c).Reachable s) :
    Coherent s ∧ (Atomic.system c).Reachable s.view := by
  refine System.simulates State.view ?_ ?_ h
  · intro t ht
    rw [show t = State.fresh from ht]
    exact ⟨coherent_fresh, rfl⟩
  · intro t a t' hcoherent hreach hs
    obtain ⟨hinv, hrelay⟩ := Atomic.inv_of_reachable hreach
    obtain ⟨hcoherent', hsame | hstep⟩ := step_refines hcoherent hinv hrelay hs
    · rw [hsame]
      exact ⟨hcoherent', .refl _⟩
    · exact ⟨hcoherent', System.Steps.single hstep⟩

/-! ## §4. And the other way round. -/

/-- A thread that is given the newest value takes the step it would take with
sequential consistency. -/
theorem flipStep_of_view (h : Coherent s) {t : Atomic.State}
    (hs : Atomic.flipStep c s.view p = some t) (hne : t ≠ s.view) :
    ∃ s', flipStep c s p (s.history p.other).stores = some s' ∧ s'.view = t := by
  unfold Atomic.flipStep at hs
  unfold flipStep
  rw [show (s.view.process p).pc = (s.process p).pc from rfl] at hs
  cases hpc : (s.process p).pc with
  | head =>
      rw [hpc] at hs
      dsimp only at hs ⊢
      obtain ⟨hlt, rfl⟩ | ⟨hge, rfl⟩ := System.branch_cases hs
      · exact ⟨_, if_pos hlt, rfl⟩
      · exact ⟨_, if_neg hge, rfl⟩
  | storing value =>
      rw [hpc] at hs
      injection hs with hs
      refine ⟨_, rfl, ?_⟩
      rw [← hs]
      unfold State.view
      dsimp only
      rw [view_store]
      rfl
  | polling value =>
      rw [hpc] at hs
      dsimp only at hs ⊢
      obtain ⟨hflag, rfl⟩ | ⟨_, rfl⟩ := System.branch_cases hs
      · have hlatest : (s.history p.other).latest = value := hflag
        have hread : (s.history p.other).read (s.history p.other).stores = some value := by
          rw [History.read_stores, hlatest]
        rw [if_pos ⟨h.seen_le p, Nat.le_refl _⟩, if_pos hread]
        exact ⟨_, rfl, rfl⟩
      · exact absurd rfl hne
  | idle | returned | exited =>
      rw [hpc] at hs
      cases hs

theorem step_of_view (h : Coherent s) {t : Atomic.State} (hs : Atomic.step c s.view p = some t)
    (hne : t ≠ s.view) :
    ∃ s', step c s (p, (s.history p.other).stores) = some s' ∧ s'.view = t := by
  unfold Atomic.step at hs
  unfold step
  rw [show (s.view.process p).pc = (s.process p).pc from rfl] at hs
  cases p with
  | child => exact flipStep_of_view h hs hne
  | parent =>
      cases hpc : (s.process .parent).pc with
      | idle =>
          rw [hpc] at hs
          dsimp only at hs ⊢
          obtain ⟨hlt, rfl⟩ | ⟨hge, rfl⟩ := System.branch_cases hs
          · exact ⟨_, if_pos hlt, rfl⟩
          · exact ⟨_, if_neg hge, rfl⟩
      | returned =>
          rw [hpc] at hs
          obtain ⟨hchild, rfl⟩ := System.guard_cases hs
          exact ⟨_, if_pos hchild, rfl⟩
      | head | storing | polling | exited =>
          rw [hpc] at hs
          exact flipStep_of_view h hs hne

/-- **Old values keep nobody from going on.** -/
theorem canProgress (h : (system c).Reachable s) (hpc : (s.process .parent).pc ≠ .exited) :
    (system c).CanProgress s := by
  obtain ⟨hcoherent, hreach⟩ := refines h
  obtain ⟨hinv, hrelay⟩ := Atomic.inv_of_reachable hreach
  obtain ⟨p, t, hstep, hne⟩ := Atomic.canProgress hinv hrelay hpc
  obtain ⟨s', hs', hview⟩ := step_of_view hcoherent hstep hne
  refine ⟨(p, _), s', hs', ?_⟩
  rintro rfl
  exact hne hview.symm

/-! ## §5. The trips. -/

/-- What holds of every state of a run. -/
structure Trips (c : Config) (s : State) : Prop where
  /-- With flags that everybody sees at once the benchmark gets here too. -/
  consistent : (Atomic.system c).Reachable s.view
  stores : s.view.stores <+: repeated Atomic.trips c.rounds
  events : s.events <+: repeated handshake c.rounds
  /-- A load that ends a poll reads the newest store. -/
  newest : ∀ p value k, (s.process p).pc = .polling value → s.seen p ≤ k →
    (s.history p.other).read k = some value → k = (s.history p.other).stores
  progress : (s.process .parent).pc ≠ .exited → (system c).CanProgress s
  /-- Between iterations both flags are down, and each iteration made
  `4 * loop_size` stores. -/
  between : (s.process .parent).pc = .idle ∨ (s.process .parent).pc = .exited →
    (∀ p, (s.history p).latest = false) ∧ s.view.stores.length = 4 * c.loopSize * s.iteration

/-- **Four trips a round, with stores that do not release.**  Whatever old
values the loads are given, the stores follow the rounds, each is seen before
the next is made, and the benchmark does what it does with sequential
consistency. -/
theorem rel_acq_trips (c : Config) {s : State} (h : (system c).Reachable s) : Trips c s := by
  obtain ⟨hcoherent, hreach⟩ := refines h
  obtain ⟨hinv, hrelay⟩ := Atomic.inv_of_reachable hreach
  have hprefix := relay_reachable_iff.mp hrelay
  refine ⟨hreach, ?_, hprefix, fun p value k hpc hseen hread => ?_, canProgress h, fun hpc => ?_⟩
  · have hstores := hprefix.filterMap Atomic.Event.store?
    rwa [filterMap_repeated] at hstores
  · exact (load_newest hcoherent hinv hrelay hpc hseen hread).1
  · have hrun : (s.view.process .parent).pc.isRunning = false := by
      obtain hpc | hpc := hpc
      · rw [show (s.view.process .parent).pc = _ from hpc]
        rfl
      · rw [show (s.view.process .parent).pc = _ from hpc]
        rfl
    exact ⟨Atomic.flag_between hinv hrelay hrun, Atomic.stores_between hinv hrelay hrun⟩

/-- The child has stored, and the parent is given the value before that. -/
theorem rel_acq_trips_stale : ∃ s, (system ⟨1, 1⟩).Reachable s ∧ Trips ⟨1, 1⟩ s ∧
    s.seen .parent = 0 ∧ (s.history .child).latest = true ∧
    ((step ⟨1, 1⟩ s (.parent, 0)).map fun t => (t.process .parent).pc) =
      some (.polling true) := by
  obtain ⟨s, hreach, hstate⟩ : ∃ s, (system ⟨1, 1⟩).Reachable s ∧
      (s.seen .parent = 0 ∧ (s.history .child).latest = true ∧
        ((step ⟨1, 1⟩ s (.parent, 0)).map fun t => (t.process .parent).pc) =
          some (.polling true)) :=
    System.exists_reachable_of_exec
      [(.parent, 0), (.parent, 0), (.parent, 0), (.child, 0), (.child, 1), (.child, 0)]
      (s := State.fresh) rfl (by decide)
  exact ⟨s, hreach, rel_acq_trips ⟨1, 1⟩ hreach, hstate⟩

end Akbench.RelAcq
