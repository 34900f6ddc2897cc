/-
  Akbench.Latency.Handover
  ────────────────────────
  **NO SIGNAL IS LOST.**

  `notify_one` runs behind the scope of the lock, so it may come before, while
  or after the other goes to sleep.  It never comes too late: who has found the
  predicate false holds the mutex until it is asleep, and whoever sets the flag
  from there on still has its `notify_one` ahead.

    • §1 `Turns` — how far the parties are, against the signals so far;
    • §2 `Locks.Agree` — one party at a time under a mutex;
    • §3 `Aware` — what a party on its way to sleep, or asleep, knows of the
      flag;
    • §5 — the signals are `relay pingPong`, and somebody who runs can always
      go on.
-/
import Akbench.Latency.ConditionVariable
import Akbench.Lib.Locks

namespace Akbench.ConditionVariable

open Latency

variable {c : Config} {s s' : State} {p : Party}
variable {k : Nat} {process : Party → Process} {ready : Party → Bool} {events : List Event}

/-! ## §1. Turns. -/

/-- The events a party has made in its round. -/
def Pc.offset (p : Party) : Pc → Nat
  | .locking | .setting => p.signalling
  | .unlocking | .notifying => p.signalling + 1
  | .acquiring | .checking | .entering | .sleeping | .waking | .clearing => p.awaiting
  | .releasing => p.awaiting + 1
  | .idle | .head | .returned | .resetting | .exited => 0

/-- The events a party has made, read off where it is. -/
def eventsMade (c : Config) (k : Nat) (p : Party) (q : Process) : Nat :=
  2 * c.round k q.i + q.pc.offset p

/-- In an iteration. -/
def Pc.isRunning : Pc → Bool
  | .idle | .exited => false
  | _ => true

/-- In the body of the loop. -/
def Pc.inBody : Pc → Bool
  | .idle | .head | .returned | .resetting | .exited => false
  | _ => true

/-- The loop counter of a party, by where it is. -/
def Process.Counted (c : Config) (q : Process) : Prop :=
  match q.pc with
  | .idle | .exited => q.i = 0
  | .head => q.i ≤ c.loopSize
  | .returned | .resetting => q.i = c.loopSize
  | _ => q.i < c.loopSize

/-- How far the parties are, against the signals so far. -/
structure Turns (c : Config) (k : Nat) (process : Party → Process) (ready : Party → Bool)
    (events : List Event) : Prop where
  control : Control c (fun q : Process => q.pc.isRunning) (Process.Counted c) k process
  made : ∀ p, events.countP (fun e => e.1 = p) = eventsMade c k p (process p)
  ready : ∀ p, ready p = pending p events.length

theorem isRunning_of_inBody {pc : Pc} (h : pc.inBody = true) : pc.isRunning = true := by
  cases pc <;> first | rfl | cases h

theorem counted_inBody {q : Process} (h : q.pc.inBody = true) :
    q.Counted c ↔ q.i < c.loopSize := by
  obtain ⟨pc, i⟩ := q
  cases pc <;> first | exact Iff.rfl | cases h

/-- A party goes on without an event. -/
theorem Turns.goto (h : Turns c k process ready events) {pc₀ pc : Pc}
    (hpc : (process p).pc = pc₀) (hrun : pc.isRunning = pc₀.isRunning)
    (hcounted : ((process p).goto pc).Counted c)
    (hmade : eventsMade c k p ((process p).goto pc) = eventsMade c k p (process p)) :
    Turns c k (Function.update process p ((process p).goto pc)) ready events := by
  subst hpc
  refine ⟨h.control.update hrun hcounted, ?_, h.ready⟩
  intro q
  refine (h.made q).trans ?_
  by_cases hq : q = p
  · subst hq
    rw [Function.update_self, hmade]
  · rw [Function.update_of_ne hq]

/-- It stays in the body, -/
theorem Turns.within (h : Turns c k process ready events) {pc₀ pc : Pc}
    (hpc : (process p).pc = pc₀) (hin : pc₀.inBody = true) (hin' : pc.inBody = true)
    (hoffset : pc.offset p = pc₀.offset p) :
    Turns c k (Function.update process p ((process p).goto pc)) ready events := by
  subst hpc
  have hne : pc ≠ .head := by
    intro hpc
    rw [hpc] at hin'
    cases hin'
  -- inside of the body the loop counter stays
  have hi : ((process p).goto pc).i = (process p).i := if_neg hne
  refine h.goto rfl ?_ ?_ ?_
  · rw [isRunning_of_inBody hin, isRunning_of_inBody hin']
  · rw [counted_inBody hin', hi]
    exact (counted_inBody hin).mp (h.control.counted p)
  · unfold eventsMade
    rw [hi]
    exact congrArg _ hoffset

/-- or goes back to the head of the loop. -/
theorem Turns.back (h : Turns c k process ready events) {pc₀ : Pc} (hpc : (process p).pc = pc₀)
    (hin : pc₀.inBody = true) (hoffset : pc₀.offset p = 2) :
    Turns c k (Function.update process p ((process p).goto .head)) ready events := by
  subst hpc
  have hlt := (counted_inBody hin).mp (h.control.counted p)
  refine h.goto rfl (isRunning_of_inBody hin).symm hlt ?_
  unfold eventsMade
  rw [hoffset]
  -- both events of the round are behind: `++i` counts them as a round
  show 2 * c.round k ((process p).i + 1) + 0 = _
  rw [c.round_succ]
  omega

/-- A party makes an event. -/
theorem Turns.event (h : Turns c k process ready events) {pc₀ pc : Pc} {op : Op}
    {ready' : Party → Bool} (hpc : (process p).pc = pc₀) (hin : pc₀.inBody = true)
    (hin' : pc.inBody = true) (hoffset : pc.offset p = pc₀.offset p + 1)
    (hready : ∀ q, ready' q = pending q (events.length + 1)) :
    Turns c k (Function.update process p ((process p).goto pc)) ready'
      (events ++ [(p, op)]) := by
  subst hpc
  have hne : pc ≠ .head := by
    intro hpc
    rw [hpc] at hin'
    cases hin'
  have hi : ((process p).goto pc).i = (process p).i := if_neg hne
  -- one event more for `p`, and none for the other
  refine ⟨h.control.update ?_ ?_, ?_, ?_⟩
  · rw [isRunning_of_inBody hin]
    exact isRunning_of_inBody hin'
  · rw [counted_inBody hin', hi]
    exact (counted_inBody hin).mp (h.control.counted p)
  · refine countP_event (fun e : Event => e.1) rfl h.made ?_ ?_
    · rw [Function.update_self]
      unfold eventsMade
      rw [hi]
      show _ + pc.offset p = _
      rw [hoffset, Nat.add_assoc]
    · intro q hq
      rw [Function.update_of_ne hq]
  · intro q
    rw [List.length_append]
    exact hready q

section

variable (h : Turns c k process ready events)
include h

/-- Outside of the loop nothing of the round is done. -/
theorem made_idle (hrun : (process p).pc.isRunning = false) :
    eventsMade c k p (process p) = 2 * c.round k 0 := by
  have hcounted := h.control.counted p
  unfold Process.Counted at hcounted
  unfold eventsMade
  cases hpc : (process p).pc with
  | idle | exited =>
      rw [hpc] at hcounted
      rw [hcounted]
      rfl
  | _ =>
      rw [hpc] at hrun
      cases hrun

/-- Behind the loop all of the iteration is. -/
theorem made_returned (hpc : (process p).pc = .returned ∨ (process p).pc = .resetting) :
    eventsMade c k p (process p) = 2 * c.round k c.loopSize := by
  have hcounted := h.control.counted p
  unfold Process.Counted at hcounted
  unfold eventsMade
  obtain hpc | hpc := hpc
  · rw [hpc] at hcounted ⊢
    rw [hcounted]
    rfl
  · rw [hpc] at hcounted ⊢
    rw [hcounted]
    rfl

/-- In the body the iteration has rounds left. -/
theorem round_in (hin : (process p).pc.inBody = true) :
    c.round k (process p).i + 1 ≤ c.round k c.loopSize ∧
      c.round k c.loopSize ≤ c.rounds :=
  ⟨c.round_lt ((counted_inBody hin).mp (h.control.counted p)),
    c.round_le_rounds (h.control.running p (isRunning_of_inBody hin))⟩

/-- How far the events are is known from where any of the two is. -/
theorem share_eq (hrelay : (relay pingPong c.rounds).Reachable events) (p : Party) :
    p.share events.length = eventsMade c k p (process p) := by
  rw [← h.made p, countP_pingPong hrelay p]

end

/-! ## §2. Mutexes. -/

/-- The mutex a party is under. -/
def Pc.inside (p : Party) : Pc → Option Party
  | .setting | .unlocking => some p
  | .checking | .entering | .clearing | .releasing => some p.other
  | _ => none

/-- Every mutex is held by who is under it. -/
def Locked (holder : Party → Option Party) (process : Party → Process) : Prop :=
  Locks.Agree holder fun q => (process q).pc.inside q

theorem inside_update (process : Party → Process) (p : Party) (pc : Pc) :
    (fun q => (Function.update process p ((process p).goto pc) q).pc.inside q) =
      Function.update (fun q => (process q).pc.inside q) p (pc.inside p) := by
  funext q
  by_cases hq : q = p
  · subst hq
    rw [Function.update_self, Function.update_self]
    rfl
  · rw [Function.update_of_ne hq, Function.update_of_ne hq]

variable {holder : Party → Option Party}

theorem Locked.goto (h : Locked holder process) {pc₀ pc : Pc} (hpc : (process p).pc = pc₀)
    (hsame : pc.inside p = pc₀.inside p) :
    Locked holder (Function.update process p ((process p).goto pc)) := by
  subst hpc
  unfold Locked
  rw [inside_update, hsame, Function.update_eq_self]
  exact h

theorem Locked.take (h : Locked holder process) {pc₀ pc : Pc} {l : Party}
    (hpc : (process p).pc = pc₀) (hfree : holder l = none) (hout : pc₀.inside p = none)
    (hin : pc.inside p = some l) :
    Locked (Function.update holder l (some p))
      (Function.update process p ((process p).goto pc)) := by
  subst hpc
  unfold Locked
  rw [inside_update, hin]
  exact Locks.Agree.take h hfree hout

theorem Locked.give (h : Locked holder process) {pc₀ pc : Pc} {l : Party}
    (hpc : (process p).pc = pc₀) (hin : pc₀.inside p = some l) (hout : pc.inside p = none) :
    Locked (Function.update holder l none) (Function.update process p ((process p).goto pc)) := by
  subst hpc
  unfold Locked
  rw [inside_update, hout]
  exact Locks.Agree.give h hin

/-- Nobody is under a mutex, before and after. -/
theorem Locked.outside (h : Locked holder process) {process' : Party → Process}
    (hout : ∀ q, (process q).pc.inside q = none) (hout' : ∀ q, (process' q).pc.inside q = none) :
    Locked holder process' := by
  intro l q
  dsimp only
  rw [hout' q, ← hout q]
  exact h l q

/-! ## §3. Who goes to sleep. -/

/-- The flag is set, `notify_one` still to come. -/
def Pc.isNotifying : Pc → Bool
  | .unlocking | .notifying => true
  | _ => false

/-- What party `p` knows of the flag it waits for. -/
def Aware (process : Party → Process) (ready : Party → Bool) (p : Party) : Prop :=
  match (process p).pc with
  | .entering => ready p.other = false
  | .sleeping => ready p.other = true → (process p.other).pc.isNotifying = true
  | .clearing => ready p.other = true
  | _ => True

/-- Where `Aware` says nothing. -/
def Pc.isPlain : Pc → Bool
  | .entering | .sleeping | .clearing => false
  | _ => true

theorem aware_plain (h : (process p).pc.isPlain = true) : Aware process ready p := by
  unfold Aware
  cases hpc : (process p).pc with
  | entering | sleeping | clearing =>
      rw [hpc] at h
      cases h
  | _ => trivial

/-- What the other knows when `p` goes on: a `notify_one` that is to come is
still to come. -/
theorem aware_other (h : Aware process ready p.other) {pc : Pc} {ready' : Party → Bool}
    (hready : ready' p = ready p)
    (hnotify : (process p.other).pc = .sleeping → (process p).pc.isNotifying = true →
      pc.isNotifying = true) :
    Aware (Function.update process p ((process p).goto pc)) ready' p.other := by
  unfold Aware at h ⊢
  rw [Party.other_other] at h
  rw [Party.other_other, Function.update_of_ne p.other_ne, Function.update_self, hready]
  cases hpc : (process p.other).pc with
  | sleeping =>
      rw [hpc] at h
      intro hset
      exact hnotify hpc (h hset)
  | entering | clearing =>
      rw [hpc] at h
      exact h
  | _ => trivial

/-- A party goes on, and what it knows itself is known. -/
theorem aware_goto (h : ∀ q, Aware process ready q) {pc : Pc}
    (hnotify : (process p).pc.isNotifying = true → pc.isNotifying = true)
    (hself : Aware (Function.update process p ((process p).goto pc)) ready p) (q : Party) :
    Aware (Function.update process p ((process p).goto pc)) ready q := by
  by_cases hq : q = p
  · subst hq
    exact hself
  · rw [Party.eq_other_of_ne hq]
    exact aware_other (h p.other) rfl fun _ => hnotify

/-- Nothing to know. -/
theorem aware_self {pc : Pc} (hplain : pc.isPlain = true) :
    Aware (Function.update process p ((process p).goto pc)) ready p := by
  apply aware_plain
  rw [Function.update_self]
  exact hplain

/-! ## §4. The invariant. -/

/-- A thread that is joined has returned, and only the parent resets. -/
structure Joined (process : Party → Process) : Prop where
  returned : (process .parent).pc = .resetting → (process .child).pc = .returned
  child : (process .child).pc ≠ .resetting

theorem Joined.goto (h : Joined process) {pc₀ pc : Pc} (hpc : (process p).pc = pc₀)
    (hne : pc₀ ≠ .returned) (hne' : pc ≠ .resetting) :
    Joined (Function.update process p ((process p).goto pc)) := by
  subst hpc
  cases p with
  | parent =>
      refine ⟨?_, h.child⟩
      intro hresetting
      rw [Function.update_self] at hresetting
      exact absurd hresetting hne'
  | child =>
      refine ⟨?_, ?_⟩
      · intro hresetting
        rw [Function.update_of_ne (by decide)] at hresetting
        exact absurd (h.returned hresetting) hne
      · rw [Function.update_self]
        exact hne'

/-- Everything that holds in every run. -/
structure Inv (c : Config) (s : State) : Prop where
  turns : Turns c s.iteration s.process s.ready s.events
  locked : Locked s.holder s.process
  aware : ∀ p, Aware s.process s.ready p
  joined : Joined s.process

theorem inv_fresh (c : Config) : Inv c State.fresh := by
  refine ⟨⟨.uniform (Nat.zero_le _) nofun rfl, ?_, ?_⟩, ?_, fun _ => trivial, ⟨nofun, nofun⟩⟩
  · intro p
    show 0 = 2 * c.round 0 0 + Pc.offset p .idle
    rw [c.round_zero]
    rfl
  · intro p
    cases p <;> rfl
  · intro l q
    exact ⟨nofun, nofun⟩

/-- A party goes on and the flags stay. -/
theorem Inv.goto (h : Inv c s) (holder : Party → Option Party) {pc₀ pc : Pc}
    (hpc : (s.process p).pc = pc₀)
    (hturns : Turns c s.iteration (Function.update s.process p ((s.process p).goto pc)) s.ready
      s.events)
    (hlocked : Locked holder (Function.update s.process p ((s.process p).goto pc)))
    (hself : Aware (Function.update s.process p ((s.process p).goto pc)) s.ready p)
    (hnotify : pc₀.isNotifying = true → pc.isNotifying = true) (hne : pc₀ ≠ .returned)
    (hne' : pc ≠ .resetting) : Inv c { s.goto p pc with holder := holder } := by
  subst hpc
  exact ⟨hturns, hlocked, aware_goto h.aware hnotify hself, h.joined.goto rfl hne hne'⟩

theorem Inv.launch (h : Inv c s) (hpc : (s.process .parent).pc = .idle)
    (hlt : s.iteration < c.total) : Inv c { s with process := fun _ => ⟨.head, 0⟩ } := by
  have hrun : ∀ p, (s.process p).pc.isRunning = false := by
    intro p
    rw [h.turns.control.isRunning_eq p, hpc]
    rfl
  refine ⟨⟨.uniform h.turns.control.bound (fun _ => hlt) (Nat.zero_le _), ?_, h.turns.ready⟩,
    h.locked.outside ?_ fun _ => rfl, fun _ => trivial, ⟨nofun, nofun⟩⟩
  · intro p
    refine (h.turns.made p).trans ?_
    rw [made_idle h.turns (hrun p)]
    rfl
  · intro p
    have hidle := hrun p
    cases hcase : (s.process p).pc with
    | idle | exited => rfl
    | _ =>
        rw [hcase] at hidle
        cases hidle

theorem Inv.quit (h : Inv c s) (hpc : (s.process .parent).pc = .idle) :
    Inv c (s.goto .parent .exited) := by
  have hidle : (s.process .parent).i = 0 := by
    have hcounted := h.turns.control.counted .parent
    unfold Process.Counted at hcounted
    rwa [hpc] at hcounted
  refine h.goto s.holder hpc (h.turns.goto hpc rfl hidle ?_) (h.locked.goto hpc rfl)
    (aware_self rfl) nofun nofun nofun
  unfold eventsMade
  rw [hpc]
  rfl

theorem Inv.join (h : Inv c s) (hparent : (s.process .parent).pc = .returned)
    (hchild : (s.process .child).pc = .returned) : Inv c (s.goto .parent .resetting) := by
  have hcounted := h.turns.control.counted .parent
  unfold Process.Counted at hcounted
  rw [hparent] at hcounted
  refine ⟨h.turns.goto hparent rfl hcounted ?_, h.locked.goto hparent rfl, ?_,
    ⟨fun _ => hchild, h.joined.child⟩⟩
  · unfold eventsMade
    rw [hparent]
    rfl
  · refine aware_goto h.aware ?_ (aware_self rfl)
    rw [hparent]
    nofun

section

variable (h : Inv c s) (hrelay : (relay pingPong c.rounds).Reachable s.events)
include h hrelay

/-- Behind the loop of the parent no signal is left. -/
theorem length_returned
    (hpc : (s.process .parent).pc = .returned ∨ (s.process .parent).pc = .resetting) :
    s.events.length = 4 * c.round s.iteration c.loopSize := by
  have hshare := share_eq h.turns hrelay .parent
  rw [made_returned h.turns hpc] at hshare
  exact (share_whole hshare).2 rfl

theorem ready_returned
    (hpc : (s.process .parent).pc = .returned ∨ (s.process .parent).pc = .resetting) (p : Party) :
    s.ready p = false := by
  rw [h.turns.ready, length_returned h hrelay hpc, not_pending_iff]
  cases p <;> simp only [slot] <;> omega

/-- The flags are reset to what they are. -/
theorem Inv.reset (hpc : (s.process .parent).pc = .resetting) :
    Inv c { s with
      iteration := s.iteration + 1
      process := fun _ => ⟨.idle, 0⟩
      ready := fun _ => false } := by
  have hlt := h.turns.control.running .parent (by rw [hpc]; rfl)
  -- nothing is lost by the reset: the flags are down already
  have hboth : ∀ p, (s.process p).pc = .returned ∨ (s.process p).pc = .resetting := by
    intro p
    cases p with
    | parent => exact .inr hpc
    | child => exact .inl (h.joined.returned hpc)
  refine ⟨⟨.uniform hlt nofun rfl, ?_, ?_⟩, h.locked.outside ?_ fun _ => rfl, fun _ => trivial,
    ⟨nofun, nofun⟩⟩
  · intro p
    refine (h.turns.made p).trans ?_
    rw [made_returned h.turns (hboth p), ← c.round_next]
    rfl
  · intro p
    exact (ready_returned h hrelay (.inr hpc) p).symm.trans (h.turns.ready p)
  · intro p
    obtain hcase | hcase := hboth p
    · rw [hcase]
      rfl
    · rw [hcase]
      rfl

/-- A party that is to set its flag has its turn: the flag is down. -/
theorem due_set (hpc : (s.process p).pc = .setting) :
    s.events.length % 4 = slot p .signal ∧ s.events.length < c.rounds * 4 := by
  have hround := round_in (p := p) h.turns (by rw [hpc]; rfl)
  have hshare := share_eq h.turns hrelay p
  unfold eventsMade at hshare
  rw [hpc] at hshare
  obtain ⟨hslot, hlt⟩ := due_signal hshare
  exact ⟨hslot, by omega⟩

/-- A party that is to clear the other's flag has its turn: the flag is up. -/
theorem due_clear (hpc : (s.process p).pc = .clearing) :
    s.events.length % 4 = slot p .consume ∧ s.events.length < c.rounds * 4 := by
  have hround := round_in (p := p) h.turns (by rw [hpc]; rfl)
  have hshare := share_eq h.turns hrelay p
  have haware := h.aware p
  unfold Aware at haware
  rw [hpc] at haware
  have hpending : pending p.other s.events.length = true := (h.turns.ready _).symm.trans haware
  unfold eventsMade at hshare
  rw [hpc] at hshare
  obtain ⟨hslot, hlt⟩ := due_consume hshare hpending
  exact ⟨hslot, by omega⟩

/-- **A party sets its flag.**  The other is not between its predicate and its
sleep: it would be under the mutex. -/
theorem Inv.set (hpc : (s.process p).pc = .setting) :
    Inv c { s.goto p .unlocking with
      ready := Function.update s.ready p true
      events := s.events ++ [(p, .signal)] } := by
  obtain ⟨⟨hdown, hup⟩, hother, hother'⟩ := pending_signal (due_set h hrelay hpc).1
  refine ⟨h.turns.event hpc rfl rfl rfl ?_, h.locked.goto hpc rfl, ?_, h.joined.goto hpc nofun
    nofun⟩
  · intro q
    show Function.update s.ready p true q = pending q (s.events.length + 1)
    by_cases hq : q = p
    · subst hq
      rw [Function.update_self, hup]
    · rw [Function.update_of_ne hq, h.turns.ready, Party.eq_other_of_ne hq, hother, hother']
  · intro q
    by_cases hq : q = p
    · subst hq
      exact aware_self rfl
    · rw [Party.eq_other_of_ne hq]
      have haware := h.aware p.other
      unfold Aware at haware ⊢
      dsimp only [State.goto]
      rw [Party.other_other] at haware ⊢
      rw [Function.update_of_ne p.other_ne, Function.update_self]
      cases hcase : (s.process p.other).pc with
      | entering =>
          -- between its predicate and its sleep the other would be under this mutex
          have hin : (s.process p).pc.inside p = some p := by rw [hpc]; rfl
          have hin' : (s.process p.other).pc.inside p.other = some p := by
            rw [hcase]
            exact congrArg some p.other_other
          exact absurd (Locks.Agree.unique h.locked hin' hin) p.other_ne
      | sleeping =>
          -- `notify_one` is the next but one statement of `p`
          intro _
          rw [Function.update_self]
          rfl
      | clearing => rfl
      | _ => trivial

/-- **A party clears the other's flag.** -/
theorem Inv.clear (hpc : (s.process p).pc = .clearing) :
    Inv c { s.goto p .releasing with
      ready := Function.update s.ready p.other false
      events := s.events ++ [(p, .consume)] } := by
  obtain ⟨⟨hup, hdown⟩, hown, hown'⟩ := pending_consume (due_clear h hrelay hpc).1
  refine ⟨h.turns.event hpc rfl rfl rfl ?_, h.locked.goto hpc rfl, ?_, h.joined.goto hpc nofun
    nofun⟩
  · intro q
    show Function.update s.ready p.other false q = pending q (s.events.length + 1)
    by_cases hq : q = p.other
    · subst hq
      rw [Function.update_self, hdown]
    · have hqp : q = p := by rw [Party.eq_other_of_ne hq, Party.other_other]
      rw [Function.update_of_ne hq, h.turns.ready, hqp, hown, hown']
  · intro q
    by_cases hq : q = p
    · subst hq
      exact aware_self rfl
    · rw [Party.eq_other_of_ne hq]
      refine aware_other (h.aware p.other) (Function.update_of_ne p.other_ne.symm _ _) ?_
      rw [hpc]
      intro _
      nofun

end

/-- **A party notifies.**  If the other is asleep it is not any more. -/
theorem Inv.notify (h : Inv c s) (hpc : (s.process p).pc = .notifying) :
    Inv c (notifyOne (s.goto p (afterNotify p)) p.other) := by
  have hturns : Turns c s.iteration
      (Function.update s.process p ((s.process p).goto (afterNotify p))) s.ready s.events := by
    cases p with
    | parent => exact h.turns.within hpc rfl rfl rfl
    | child => exact h.turns.back hpc rfl rfl
  have hlocked : Locked s.holder
      (Function.update s.process p ((s.process p).goto (afterNotify p))) := by
    refine h.locked.goto hpc ?_
    cases p <;> rfl
  have hjoined : Joined (Function.update s.process p ((s.process p).goto (afterNotify p))) := by
    refine h.joined.goto hpc nofun ?_
    cases p <;> nofun
  have hplain : (afterNotify p).isPlain = true := by
    cases p <;> rfl
  unfold notifyOne
  split
  next hasleep =>
    -- both parties have moved: `p` on, and the other out of its sleep
    refine ⟨hturns.within hasleep rfl rfl rfl, hlocked.goto hasleep rfl, ?_,
      hjoined.goto hasleep nofun nofun⟩
    intro q
    apply aware_plain
    dsimp only [State.goto]
    by_cases hq : q = p.other
    · subst hq
      rw [Function.update_self]
      rfl
    · have hqp : q = p := by rw [Party.eq_other_of_ne hq, Party.other_other]
      rw [Function.update_of_ne hq, hqp, Function.update_self]
      exact hplain
  next hawake =>
    -- nobody to wake: whoever comes later will find the flag up
    rw [State.goto_process_of_ne p.other_ne] at hawake
    refine ⟨hturns, hlocked, ?_, hjoined⟩
    intro q
    by_cases hq : q = p
    · subst hq
      exact aware_self hplain
    · rw [Party.eq_other_of_ne hq]
      exact aware_other (h.aware p.other) rfl fun hasleep => absurd hasleep hawake

/-- A party off to sleep found the flag down. -/
theorem aware_sleep (h : Inv c s) (hpc : (s.process p).pc = .entering) :
    Aware (Function.update s.process p ((s.process p).goto .sleeping)) s.ready p := by
  have haware := h.aware p
  unfold Aware at haware ⊢
  rw [hpc] at haware
  rw [Function.update_self]
  intro hup
  rw [haware] at hup
  cases hup

/-- What the predicate has said. -/
theorem aware_check (process : Party → Process) (ready : Party → Bool) (p : Party) :
    (ready p.other = true →
      Aware (Function.update process p ((process p).goto .clearing)) ready p) ∧
    (ready p.other = false →
      Aware (Function.update process p ((process p).goto .entering)) ready p) := by
  unfold Aware
  rw [Function.update_self, Function.update_self]
  exact ⟨id, id⟩

/-- **Every move keeps the invariant, and its event is the one that is due.** -/
theorem Inv.move (h : Inv c s) (hrelay : (relay pingPong c.rounds).Reachable s.events)
    (hmove : Move c s p s') :
    Inv c s' ∧ (relay pingPong c.rounds).Steps (fun _ _ => True) s.events s'.events := by
  -- only `set` and `clear` make an event
  cases hmove with
  | launch hpc hlt => exact ⟨h.launch hpc hlt, .refl _⟩
  | quit hpc => exact ⟨h.quit hpc, .refl _⟩
  | join hpc hchild => exact ⟨h.join hpc hchild, .refl _⟩
  | reset hpc => exact ⟨h.reset hrelay hpc, .refl _⟩
  | enter hpc hlt =>
      refine ⟨h.goto s.holder hpc (h.turns.goto hpc ?_ ?_ ?_) (h.locked.goto hpc ?_)
        (aware_self ?_) nofun nofun ?_, .refl _⟩
      · cases p <;> rfl
      · cases p <;> exact hlt
      · unfold eventsMade
        rw [hpc]
        cases p <;> rfl
      · cases p <;> rfl
      · cases p <;> rfl
      · cases p <;> nofun
  | finish hpc hge =>
      have hcounted := h.turns.control.counted p
      unfold Process.Counted at hcounted
      rw [hpc] at hcounted
      refine ⟨h.goto s.holder hpc (h.turns.goto hpc rfl (Nat.le_antisymm hcounted hge) ?_)
        (h.locked.goto hpc rfl) (aware_self rfl) nofun nofun nofun, .refl _⟩
      unfold eventsMade
      rw [hpc]
      rfl
  | lock hpc hfree =>
      exact ⟨h.goto _ hpc (h.turns.within hpc rfl rfl rfl) (h.locked.take hpc hfree rfl rfl)
        (aware_self rfl) nofun nofun nofun, .refl _⟩
  | set hpc =>
      obtain ⟨hslot, hlt⟩ := due_set h hrelay hpc
      exact ⟨h.set hrelay hpc, pingPong_next hslot hlt⟩
  | unlock hpc =>
      exact ⟨h.goto _ hpc (h.turns.within hpc rfl rfl rfl) (h.locked.give hpc rfl rfl)
        (aware_self rfl) id nofun nofun, .refl _⟩
  | notify hpc =>
      refine ⟨h.notify hpc, ?_⟩
      unfold notifyOne
      split
      next => exact .refl _
      next => exact .refl _
  | acquire hpc hfree =>
      obtain hpc | hpc := hpc
      · exact ⟨h.goto _ hpc (h.turns.within hpc rfl rfl rfl) (h.locked.take hpc hfree rfl rfl)
          (aware_self rfl) nofun nofun nofun, .refl _⟩
      · exact ⟨h.goto _ hpc (h.turns.within hpc rfl rfl rfl) (h.locked.take hpc hfree rfl rfl)
          (aware_self rfl) nofun nofun nofun, .refl _⟩
  | pass hpc hready =>
      exact ⟨h.goto s.holder hpc (h.turns.within hpc rfl rfl rfl) (h.locked.goto hpc rfl)
        ((aware_check _ _ p).1 hready) nofun nofun nofun, .refl _⟩
  | fail hpc hready =>
      exact ⟨h.goto s.holder hpc (h.turns.within hpc rfl rfl rfl) (h.locked.goto hpc rfl)
        ((aware_check _ _ p).2 hready) nofun nofun nofun, .refl _⟩
  | sleep hpc =>
      exact ⟨h.goto _ hpc (h.turns.within hpc rfl rfl rfl) (h.locked.give hpc rfl rfl)
        (aware_sleep h hpc) nofun nofun nofun, .refl _⟩
  | wake hpc =>
      exact ⟨h.goto s.holder hpc (h.turns.within hpc rfl rfl rfl) (h.locked.goto hpc rfl)
        (aware_self rfl) nofun nofun nofun, .refl _⟩
  | clear hpc =>
      obtain ⟨hslot, hlt⟩ := due_clear h hrelay hpc
      exact ⟨h.clear hrelay hpc, pingPong_next hslot hlt⟩
  | release hpc =>
      have hturns : Turns c s.iteration
          (Function.update s.process p ((s.process p).goto (afterRelease p))) s.ready
          s.events := by
        cases p with
        | parent => exact h.turns.back hpc rfl rfl
        | child => exact h.turns.within hpc rfl rfl rfl
      refine ⟨h.goto _ hpc hturns (h.locked.give hpc rfl ?_) (aware_self ?_) nofun nofun ?_,
        .refl _⟩
      · cases p <;> rfl
      · cases p <;> rfl
      · cases p <;> nofun

/-- **The benchmark refines the relay.** -/
theorem inv_of_reachable (h : (system c).Reachable s) :
    Inv c s ∧ (relay pingPong c.rounds).Reachable s.events := by
  refine System.simulates State.events ?_ ?_ h
  · intro t ht
    rw [show t = State.fresh from ht]
    exact ⟨inv_fresh c, rfl⟩
  · intro t a t' hinv hrelay hs
    obtain ⟨p, hmove⟩ := step_move hs
    exact hinv.move hrelay hmove

/-! ## §5. Progress. -/

/-- No party can go on by itself. -/
def Stuck (c : Config) (s : State) : Prop := ∀ p, runStep c s p = none

/-- Inside of its function a party takes the steps of it. -/
theorem runStep_eq_flipStep (hidle : (s.process p).pc ≠ .idle)
    (hreturned : (s.process p).pc ≠ .returned) (hresetting : (s.process p).pc ≠ .resetting) :
    runStep c s p = flipStep c s p := by
  unfold runStep
  split
  next hpc => exact absurd hpc hidle
  next hpc => exact absurd hpc hreturned
  next hpc => exact absurd hpc hresetting
  next => rfl

/-- Who is under a mutex can go on, so all of them are free. -/
theorem holder_of_stuck (h : Inv c s) (hstuck : Stuck c s) (l : Party) : s.holder l = none := by
  cases hholder : s.holder l with
  | none => rfl
  | some q =>
      exfalso
      -- no statement under a mutex waits for anything
      have hinside := (h.locked l q).mp hholder
      have hnone := hstuck q
      dsimp only at hinside
      have hflip := runStep_eq_flipStep (c := c) (s := s) (p := q)
      unfold flipStep at hflip
      cases hpc : (s.process q).pc with
      | setting | unlocking | entering | clearing | releasing =>
          rw [hpc] at hflip
          rw [hflip nofun nofun nofun] at hnone
          cases hnone
      | checking =>
          rw [hpc] at hflip
          rw [hflip nofun nofun nofun] at hnone
          exact System.branch_ne_none hnone
      -- elsewhere a party is under no mutex
      | _ =>
          rw [hpc] at hinside
          cases hinside

/-- A party that runs and cannot go on is asleep or has returned. -/
theorem blocked_cases (h : Inv c s) (hstuck : Stuck c s)
    (hrun : (s.process p).pc.isRunning = true) :
    (s.process p).pc = .sleeping ∨ (s.process p).pc = .returned := by
  have hfree := holder_of_stuck h hstuck
  have hnone := hstuck p
  have hflip := runStep_eq_flipStep (c := c) (s := s) (p := p)
  unfold flipStep State.lock at hflip
  cases hpc : (s.process p).pc with
  | sleeping => exact .inl rfl
  | returned => exact .inr rfl
  | idle | exited =>
      rw [hpc] at hrun
      cases hrun
  | resetting =>
      exfalso
      cases p with
      | parent =>
          unfold runStep at hnone
          rw [hpc] at hnone
          cases hnone
      | child => exact h.joined.child hpc
  -- the mutexes are free
  | locking | acquiring | waking =>
      exfalso
      rw [hpc] at hflip
      rw [hflip nofun nofun nofun] at hnone
      dsimp only at hnone
      rw [if_pos (hfree _)] at hnone
      cases hnone
  -- two ways on
  | head | checking =>
      exfalso
      rw [hpc] at hflip
      rw [hflip nofun nofun nofun] at hnone
      exact System.branch_ne_none hnone
  | setting | unlocking | notifying | entering | clearing | releasing =>
      exfalso
      rw [hpc] at hflip
      rw [hflip nofun nofun nofun] at hnone
      cases hnone

section

variable (h : Inv c s) (hrelay : (relay pingPong c.rounds).Reachable s.events)
include h hrelay

/-- **Nobody sleeps through a signal.**  Who sleeps while the other neither
runs nor has a `notify_one` to make waits for a signal that is not there. -/
theorem sleeper_awaits (hpc : (s.process p).pc = .sleeping)
    (hother : (s.process p.other).pc.isNotifying = false) :
    (s.events.length % 4 = slot p.other .signal ∨
      (s.events.length + 1) % 4 = slot p.other .signal) ∧
    s.events.length + 2 ≤ 4 * c.round s.iteration c.loopSize := by
  have hround := round_in (p := p) h.turns (by rw [hpc]; rfl)
  have hshare := share_eq h.turns hrelay p
  unfold eventsMade at hshare
  rw [hpc] at hshare
  have haware := h.aware p
  unfold Aware at haware
  rw [hpc] at haware
  -- an up flag would have its `notify_one` still ahead
  have hdown : s.ready p.other = false := by
    rw [Bool.eq_false_iff]
    intro hup
    rw [haware hup] at hother
    cases hother
  rw [h.turns.ready] at hdown
  obtain ⟨hturn, hle⟩ := awaits hshare hdown
  exact ⟨hturn, by omega⟩

/-- **Nobody waits for somebody who waits.** -/
theorem not_stuck (hpc : (s.process .parent).pc ≠ .exited) : ¬ Stuck c s := by
  intro hstuck
  have hparentStep := hstuck .parent
  have hrun : (s.process .parent).pc.isRunning = true := by
    cases hcase : (s.process .parent).pc with
    | idle =>
        -- between two iterations
        exfalso
        unfold runStep at hparentStep
        rw [hcase] at hparentStep
        exact System.branch_ne_none hparentStep
    | exited => exact absurd hcase hpc
    | _ => rfl
  have hquiet : ∀ q, (s.process q).pc = .sleeping ∨ (s.process q).pc = .returned →
      (s.process q).pc.isNotifying = false := by
    rintro q (hcase | hcase)
    · rw [hcase]
      rfl
    · rw [hcase]
      rfl
  have hparent := blocked_cases h hstuck hrun
  have hchild := blocked_cases h hstuck ((h.turns.control.isRunning_eq .child).trans hrun)
  have hchildQuiet := hquiet .child hchild
  have hparentQuiet := hquiet .parent hparent
  obtain hparent | hparent := hparent
  -- the parent sleeps: the child would have to signal
  · have hwait := sleeper_awaits h hrelay hparent hchildQuiet
    obtain hchild | hchild := hchild
    -- it sleeps as well: the number of events has two remainders
    · have hwait' := sleeper_awaits h hrelay hchild hparentQuiet
      simp only [Party.other, slot] at hwait hwait'
      omega
    -- it has returned, with all of its signals made
    · have hshare := share_eq h.turns hrelay .child
      rw [made_returned h.turns (.inl hchild)] at hshare
      have hle := (share_whole hshare).1
      omega
  · obtain hchild | hchild := hchild
    -- the parent has returned, so no signal is missing
    · have hwait := sleeper_awaits h hrelay hchild hparentQuiet
      have hlength := length_returned h hrelay (.inl hparent)
      omega
    · -- both have returned: the parent joins
      unfold runStep at hparentStep
      rw [hparent] at hparentStep
      dsimp only at hparentStep
      rw [if_pos hchild] at hparentStep
      cases hparentStep

end

/-! ## §6. The handover. -/

/-- **No signal is lost.**  The flags are never up together, and none is set
that is up; the child consumes the parent's signal once and before it signals
itself; until the parent exits somebody can go on, without any spurious
wake-up; and both flags are down where both threads have returned. -/
theorem conditionVariable_handover (c : Config) {s : State} (h : (system c).Reachable s) :
    ¬ (s.ready .parent = true ∧ s.ready .child = true) ∧
    (∀ p, (s.process p).pc = .setting → s.ready p = false) ∧
    s.events <+: repeated pingPong c.rounds ∧
    (s.events.count (.child, .signal) ≤ s.events.count (.child, .consume) ∧
      s.events.count (.child, .consume) ≤ s.events.count (.parent, .signal) ∧
      s.events.count (.parent, .signal) ≤ s.events.count (.child, .consume) + 1) ∧
    ((s.process .parent).pc ≠ .exited → ∃ p s', (system c).step s (.run p) = some s') ∧
    ((s.process .parent).pc = .returned ∨ (s.process .parent).pc = .resetting →
      (∀ p, s.ready p = false) ∧
      ∀ e, s.events.count e = c.round s.iteration c.loopSize) := by
  obtain ⟨hinv, hrelay⟩ := inv_of_reachable h
  refine ⟨?_, ?_, relay_reachable_iff.mp hrelay, ?_, ?_, ?_⟩
  · rintro ⟨hparent, hchild⟩
    rw [hinv.turns.ready] at hparent hchild
    have hdown := pending_other hparent
    rw [show Party.parent.other = .child from rfl, hchild] at hdown
    cases hdown
  · intro p hpc
    rw [hinv.turns.ready]
    exact (pending_signal (due_set hinv hrelay hpc).1).1.1
  -- `i`-th signal, its consumption, `i`-th answer: three counts of one length
  · rw [count_pingPong hrelay, count_pingPong hrelay, count_pingPong hrelay]
    simp only [slot]
    omega
  · intro hpc
    by_contra hnone
    refine not_stuck hinv hrelay hpc ?_
    intro p
    cases hstep : runStep c s p with
    | none => rfl
    | some t => exact absurd ⟨p, t, hstep⟩ hnone
  · intro hpc
    refine ⟨ready_returned hinv hrelay hpc, ?_⟩
    rintro ⟨p, op⟩
    have hslot : slot p op ≤ 3 := by
      cases p <;> cases op <;> decide
    rw [count_pingPong hrelay, length_returned hinv hrelay hpc]
    omega

/-- A round in which the child is woken by the parent, and the parent without
reason. -/
def oneRound : List Action :=
  List.flatten
    [[.run .parent], List.replicate 4 (.run .child), List.replicate 8 (.run .parent),
      [.spurious .parent], List.replicate 9 (.run .child), List.replicate 5 (.run .parent)]

theorem conditionVariable_handover_one_round :
    ∃ s, (system ⟨1, 1⟩).Reachable s ∧ (s.process .parent).pc = .returned ∧ s.iteration = 0 ∧
      s.events <+: pingPong ∧ s.events.count (.child, .consume) = 1 ∧ s.ready .child = false ∧
      ∃ p s', (system ⟨1, 1⟩).step s (.run p) = some s' := by
  have hrun : ∃ s, (system ⟨1, 1⟩).Reachable s ∧
      ((s.process .parent).pc = .returned ∧ s.iteration = 0) :=
    System.exists_reachable_of_exec oneRound rfl (by decide +kernel)
  obtain ⟨s, hreach, hpc, hiteration⟩ := hrun
  obtain ⟨_, _, hevents, _, hprogress, hend⟩ := conditionVariable_handover ⟨1, 1⟩ hreach
  obtain ⟨hready, hcount⟩ := hend (.inl hpc)
  have hone := hcount (.child, .consume)
  rw [hiteration] at hone
  refine ⟨s, hreach, hpc, hiteration, hevents, hone, hready .child, hprogress ?_⟩
  rw [hpc]
  nofun

end Akbench.ConditionVariable
