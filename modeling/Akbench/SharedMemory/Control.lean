/-
  Akbench.SharedMemory.Control
  ────────────────────────────
  **WHERE THE TWO PROCESSES CAN BE.**

  Each iteration crosses the barrier `n_pipeline + 3` times on either side,
  so the two processes run in lockstep; the crossing ahead of all iterations
  counts as the last one of a round 0.

    • `Control.move` — a `Move` keeps the lockstep;
    • `Control.near` — while one process is between the first and the last
      barrier of an iteration, so is the other, or in one of them;
    • `Control.sender_of_working` — the steps of the two pipeline loops.
-/
import Akbench.SharedMemory.Moves

namespace Akbench.SharedMemory

variable {c : Session} {p q : Side} {b b' : Rendezvous Side} {bad : Prop}

/-! ## §1. Positions as places of the lockstep. -/

/-- Crossings of the iteration entered; past the pipeline loop, besides those
of the loop. -/
def Stage.entered (program : Program) : Stage → Nat
  | .generating | .start | .create | .resize | .map | .arrive1 | .exited | .refused => 0
  | .clear =>
      match program with
      | .shm => 0
      | .mmap => 1
  | .wait1 | .joinOpen | .joinStat | .joinMap | .arrive2 | .failed => 1
  | .first | .wait2 | .loop => 2
  | .wait0 | .wait3 | .verifying | .unmap | .unlink | .aborted => 3

/-- Crossings of the iteration left; past the pipeline loop, besides those of
the loop. -/
def Stage.left (program : Program) : Stage → Nat
  | .generating | .start | .create | .resize | .map | .arrive1 | .wait1 | .exited | .refused => 0
  | .clear =>
      match program with
      | .shm => 0
      | .mmap => 1
  | .joinOpen | .joinStat | .joinMap | .arrive2 | .wait2 | .failed => 1
  | .first | .wait0 | .loop | .wait3 => 2
  | .verifying | .unmap | .unlink | .aborted => 3

/-- Past the pipeline loop of its round. -/
def Stage.late : Stage → Bool
  | .first | .wait0 | .wait3 | .verifying | .unmap | .unlink | .aborted => true
  | _ => false

/-- Ahead of all iterations. -/
def Stage.ahead : Stage → Bool
  | .first | .wait0 => true
  | _ => false

/-- The stages of an iteration. -/
def Stage.running : Stage → Bool
  | .first | .wait0 | .generating | .start | .exited | .refused => false
  | _ => true

/-- The crossings of one iteration. -/
def Params.period (c : Params) : Nat := c.nPipeline + 3

/-- The crossings a round 0 lacks. -/
def Params.offset (c : Params) : Nat :=
  match c.program with
  | .shm => c.period
  | .mmap => c.nPipeline + 2

def Position.place (c : Session) (x : Position) : Place :=
  if x.stage = .loop then loopPlace (x.iteration + 1) 2 x.i x.pc
  else
    let round := if x.stage.ahead then 0 else x.iteration + 1
    let base := if x.stage.late then c.nPipeline else 0
    ⟨round, base + x.stage.entered c.program, base + x.stage.left c.program⟩

/-- A stage `p` can be in. -/
def OnRoute (program : Program) (p : Side) (st : Stage) : Prop :=
  after program p st ≠ .failed ∨ st = .exited ∨ (st = .aborted ∧ p = .receiver) ∨
    (st = .refused ∧ p = .sender)

instance (program : Program) (p : Side) (st : Stage) : Decidable (OnRoute program p st) :=
  inferInstanceAs (Decidable (_ ∨ _ ∨ _ ∨ _))

/-- What holds of a position by itself. -/
structure Position.Valid (c : Session) (p : Side) (x : Position) : Prop where
  onRoute : OnRoute c.program p x.stage
  bound : x.iteration ≤ c.total
  running : x.stage.running = true → x.iteration < c.total
  ahead : x.stage.ahead = true → x.iteration = 0
  exited : x.stage = .exited → x.iteration = c.total
  /-- `GenerateDataToSend` aborts on small sizes only. -/
  refused : x.stage = .refused → c.dataSize ≤ checksumSize
  counted : x.stage = .loop → x.i + x.pc.entered ≤ c.nPipeline

/-- The two processes and the barrier. -/
structure Control (c : Session) (b : Rendezvous Side) (pos : Side → Position) : Prop where
  lockstep : Lockstep c.period c.offset b fun p => (pos p).place c
  valid : ∀ p, (pos p).Valid c p

variable {x x' : Position}

theorem onRoute_after : ∀ program p st, after program p st ≠ .failed →
    OnRoute program p (after program p st) := by
  decide

theorem onRoute_start : ∀ program p, OnRoute program p .start := by
  decide

theorem receiver_of_verifying : ∀ program p, OnRoute program p .verifying → p = .receiver := by
  decide

theorem sender_of_generating : ∀ program p, OnRoute program p .generating → p = .sender := by
  decide

/-- A stage after one of an iteration is one of an iteration, or the head of
the next one. -/
theorem running_after : ∀ program p st,
    after program p st ≠ .failed → after program p st ≠ .start →
    (after program p st).running = true → st.running = true ∨ st = .start := by
  decide

theorem ahead_after : ∀ program p st, after program p st ≠ .failed →
    (after program p st).ahead = true → st.ahead = true := by
  decide

theorem after_ne_exited : ∀ program p st, after program p st ≠ .exited := by
  decide

theorem after_ne_refused : ∀ program p st, after program p st ≠ .refused := by
  decide

theorem after_eq_loop : ∀ program p st, after program p st = .loop → st = .wait2 := by
  decide

/-- **A `Move` keeps what holds of a position.** -/
theorem Move.valid (hmove : Move c p bad b x b' x') (h : x.Valid c p)
    (halive : x'.stage ≠ .failed) : x'.Valid c p := by
  have hstep : ∀ i pc, after c.program p x.stage ≠ .failed →
      (x.stage = .start → x.iteration < c.total) →
      (x.stage = .wait2 → i + pc.entered ≤ c.nPipeline) →
      Position.Valid c p ⟨after c.program p x.stage, x.iteration, i, pc⟩ := by
    intro i pc hne hrun hloop
    refine ⟨onRoute_after _ _ _ hne, h.bound, ?_, ?_, ?_, ?_, ?_⟩
    · intro hrunning
      by_cases hstart : after c.program p x.stage = .start
      · have hnot : (after c.program p x.stage).running = false := by rw [hstart]; rfl
        rw [hnot] at hrunning
        cases hrunning
      · rcases running_after _ _ _ hne hstart hrunning with hr | hr
        · exact h.running hr
        · exact hrun hr
    · intro hahead
      exact h.ahead (ahead_after _ _ _ hne hahead)
    · intro hexit
      exact absurd hexit (after_ne_exited _ _ _)
    · intro hrefused
      exact absurd hrefused (after_ne_refused _ _ _)
    · intro hl
      exact hloop (after_eq_loop _ _ _ hl)
  cases hmove with
  | arrive hst =>
      apply hstep _ _ halive
      all_goals
        intro heq
        rw [heq] at hst
        cases hst
  | leave hst hcan =>
      apply hstep _ _ halive
      all_goals
        intro heq
        rw [heq] at hst
        cases hst
  | commence hst hcan =>
      apply hstep _ _ halive
      all_goals
        intro heq
        rw [heq] at hst
        cases hst
  | enter hst hcan =>
      apply hstep _ _ halive
      · intro heq
        rw [heq] at hst
        cases hst
      · intro _
        exact Nat.zero_le _
  | quiet hst hrun hnext =>
      apply hstep _ _ halive hrun
      intro heq
      rw [heq] at hst
      cases hst
  | exit hst hge =>
      have hb := h.bound
      exact ⟨.inr (.inl rfl), hb, nofun, nofun, fun _ => Nat.le_antisymm hb hge, nofun, nofun⟩
  | refuse hst hsmall =>
      have hroute := h.onRoute
      rw [hst] at hroute
      exact ⟨.inr (.inr (.inr ⟨rfl, sender_of_generating _ _ hroute⟩)), h.bound, nofun, nofun, nofun,
        fun _ => hsmall, nofun⟩
  | again hst hnext =>
      have hlt : x.iteration < c.total := by
        apply h.running
        rcases hst with h1 | h1 <;> rw [h1] <;> rfl
      exact ⟨onRoute_start _ _, hlt, nofun, nofun, nofun, nofun, nofun⟩
  | abort hst =>
      have hroute := h.onRoute
      rw [hst] at hroute
      have hlt : x.iteration < c.total := by
        apply h.running
        rw [hst]
        rfl
      exact ⟨.inr (.inr (.inl ⟨rfl, receiver_of_verifying _ _ hroute⟩)), h.bound, fun _ => hlt, nofun,
        nofun, nofun, nofun⟩
  | fail hbad => exact absurd rfl halive
  | work hst hloop =>
      refine ⟨h.onRoute, h.bound, h.running, h.ahead, h.exited, h.refused, ?_⟩
      intro _
      have hcount := h.counted hst
      obtain ⟨st, k, i, pc⟩ := x
      dsimp only at hloop hcount ⊢
      cases hloop with
      | arrive hlt => exact hlt
      | leave => exact hcount
      | work hleft hleft' =>
          rw [LoopPc.entered_of_left hleft] at hcount
          rw [LoopPc.entered_of_left hleft']
          exact hcount
      | next hleft =>
          rw [LoopPc.entered_of_left hleft] at hcount
          exact hcount
  | close hst hpc hn =>
      apply hstep _ _ halive
      all_goals
        intro heq
        rw [heq] at hst
        cases hst

/-- Only a failing call ends a process in `failed`. -/
theorem Move.alive (hmove : Move c p bad b x b' x') (h : OnRoute c.program p x.stage)
    (hgood : ¬ bad) : x'.stage ≠ .failed := by
  have hnext : x.stage ≠ .exited → x.stage ≠ .aborted → x.stage ≠ .refused →
      after c.program p x.stage ≠ .failed := by
    intro hexited haborted hrefused
    rcases h with h | h | h | h
    · exact h
    · exact absurd h hexited
    · exact absurd h.1 haborted
    · exact absurd h.1 hrefused
  cases hmove with
  | arrive hst =>
      apply hnext
      all_goals
        intro heq
        rw [heq] at hst
        cases hst
  | leave hst hcan =>
      apply hnext
      all_goals
        intro heq
        rw [heq] at hst
        cases hst
  | commence hst hcan =>
      apply hnext
      all_goals
        intro heq
        rw [heq] at hst
        cases hst
  | enter hst hcan =>
      apply hnext
      all_goals
        intro heq
        rw [heq] at hst
        cases hst
  | quiet hst hrun hstart =>
      apply hnext
      all_goals
        intro heq
        rw [heq] at hst
        cases hst
  | refuse hst hsmall => nofun
  | exit hst hge => nofun
  | again hst hstart => nofun
  | abort hst => nofun
  | fail hbad => exact absurd hbad hgood
  | work hst hloop =>
      intro heq
      dsimp only at heq
      rw [heq] at hst
      cases hst
  | close hst hpc hn =>
      apply hnext
      all_goals
        intro heq
        rw [heq] at hst
        cases hst

/-- Where a `Move` leads. -/
theorem Move.next (hmove : Move c p bad b x b' x') (halive : x'.stage ≠ .failed) :
    (x'.stage = after c.program p x.stage ∧ (x'.stage ≠ .start → x'.iteration = x.iteration)) ∨
      (x.stage = .loop ∧ x'.stage = .loop ∧ x'.iteration = x.iteration) ∨
      (x.stage = .start ∧ x'.stage = .exited) ∨ (x.stage = .verifying ∧ x'.stage = .aborted) ∨
      (x.stage = .generating ∧ x'.stage = .refused) := by
  cases hmove with
  | arrive hst => exact .inl ⟨rfl, fun _ => rfl⟩
  | leave hst hcan => exact .inl ⟨rfl, fun _ => rfl⟩
  | commence hst hcan => exact .inl ⟨rfl, fun _ => rfl⟩
  | enter hst hcan => exact .inl ⟨rfl, fun _ => rfl⟩
  | quiet hst hrun hstart => exact .inl ⟨rfl, fun _ => rfl⟩
  | exit hst hge => exact .inr (.inr (.inl ⟨hst, rfl⟩))
  | again hst hstart => exact .inl ⟨hstart.symm, fun h => absurd rfl h⟩
  | abort hst => exact .inr (.inr (.inr (.inl ⟨hst, rfl⟩)))
  | refuse hst hsmall => exact .inr (.inr (.inr (.inr ⟨hst, rfl⟩)))
  | fail hbad => exact absurd rfl halive
  | work hst hloop => exact .inr (.inl ⟨hst, hst, rfl⟩)
  | close hst hpc hn => exact .inl ⟨rfl, fun _ => rfl⟩

/-! ## §2. The lockstep. -/

theorem place_of_ne_loop (hne : x.stage ≠ .loop) :
    x.place c = ⟨if x.stage.ahead then 0 else x.iteration + 1,
      (if x.stage.late then c.nPipeline else 0) + x.stage.entered c.program,
      (if x.stage.late then c.nPipeline else 0) + x.stage.left c.program⟩ := by
  unfold Position.place
  rw [if_neg hne]

theorem place_of_loop (hst : x.stage = .loop) :
    x.place c = loopPlace (x.iteration + 1) 2 x.i x.pc := by
  unfold Position.place
  rw [if_pos hst]

/-- Stages of the same round. -/
def SameRound (st st' : Stage) : Prop :=
  st ≠ .loop ∧ st' ≠ .loop ∧ st'.ahead = st.ahead ∧ st'.late = st.late

instance (st st' : Stage) : Decidable (SameRound st st') :=
  inferInstanceAs (Decidable (_ ∧ _ ∧ _ ∧ _))

theorem after_arriving : ∀ program p st, st.arriving = true → after program p st ≠ .failed →
    SameRound st (after program p st) ∧
      (after program p st).entered program = st.entered program + 1 ∧
      (after program p st).left program = st.left program := by
  decide

theorem after_leaving : ∀ program p st, st.leaving = true → after program p st ≠ .failed →
    SameRound st (after program p st) ∧
      (after program p st).entered program = st.entered program ∧
      (after program p st).left program = st.left program + 1 ∧
      st.left program < st.entered program := by
  decide

theorem after_quiet : ∀ program p st, st.quiet = true →
    (after program p st = .start → st = .generating) → after program p st ≠ .failed →
    SameRound st (after program p st) ∧
      (after program p st).entered program = st.entered program ∧
      (after program p st).left program = st.left program := by
  decide

theorem after_wait0 : ∀ program p, after program p .wait0 ≠ .failed →
    after program p .wait0 = .start ∨ after program p .wait0 = .generating := by
  decide

theorem after_wait2 : ∀ program p, after program p .wait2 = .loop := by
  decide

theorem after_loop : ∀ program p, after program p .loop = .wait3 := by
  decide

/-- A party that changes to a stage of the same round. -/
theorem place_of_sameRound {st : Stage} (h : SameRound x.stage st) :
    Position.place c { x with stage := st } = ⟨(x.place c).round,
      (if x.stage.late then c.nPipeline else 0) + st.entered c.program,
      (if x.stage.late then c.nPipeline else 0) + st.left c.program⟩ := by
  obtain ⟨hne, hne', hahead, hlate⟩ := h
  rw [place_of_ne_loop hne, place_of_ne_loop hne']
  dsimp only
  rw [hahead, hlate]

/-- Nobody has entered more crossings than a round has. -/
theorem place_entered_le (h : x.Valid c p) : (x.place c).entered ≤ c.period := by
  have hle : ∀ program st, Stage.entered program st ≤ 3 := by decide
  have hst := hle c.program x.stage
  unfold Params.period
  by_cases hloop : x.stage = .loop
  · have hcount := h.counted hloop
    rw [place_of_loop hloop]
    show 2 + x.i + x.pc.entered ≤ c.nPipeline + 3
    omega
  · rw [place_of_ne_loop hloop]
    dsimp only
    split
    next => omega
    next => omega

/-- **A `Move` keeps the lockstep.** -/
theorem Move.lockstep {place place' : Side → Place} (hmove : Move c p bad b x b' x')
    (h : x.Valid c p) (halive : x'.stage ≠ .failed) (hlock : Lockstep c.period c.offset b place)
    (hx : place p = x.place c) (hx' : place' p = x'.place c)
    (hother : ∀ q, q ≠ p → place' q = place q) : Lockstep c.period c.offset b' place' := by
  -- no stage of a round counts more crossings than the round has
  have hle : (place' p).entered ≤ c.period := by
    rw [hx']
    exact place_entered_le (hmove.valid h halive)
  cases hmove with
  | arrive hst =>
      obtain ⟨hround, he, hl⟩ := after_arriving _ _ _ hst halive
      have hnew := place_of_sameRound (c := c) hround
      rw [he, hl] at hnew
      rw [hnew] at hx'
      have hold := place_of_ne_loop (c := c) hround.1
      apply hlock.arrive hother
      · rw [hx', hx]
      · rw [hx', hx, hold]
        rfl
      · rw [hx', hx, hold]
      · exact hle
  | leave hst hcan =>
      obtain ⟨hround, he, hl, hin⟩ := after_leaving _ _ _ hst halive
      have hnew := place_of_sameRound (c := c) hround
      rw [he, hl] at hnew
      rw [hnew] at hx'
      have hold := place_of_ne_loop (c := c) hround.1
      apply hlock.leave hother
      · rw [hx', hx]
      · rw [hx', hx, hold]
      · rw [hx', hx, hold]
        rfl
      · rw [hx, hold]
        exact Nat.add_lt_add_left hin _
      · exact hcan
  | commence hst hcan =>
      obtain ⟨st, k, i, pc⟩ := x
      dsimp only at hst
      subst hst
      have hk : k = 0 := h.ahead rfl
      have hnew : Position.place c ⟨after c.program p .wait0, 0, i, pc⟩ = ⟨1, 0, 0⟩ := by
        rcases after_wait0 _ _ halive with hstart | hstart
        · rw [hstart]
          rfl
        · rw [hstart]
          rfl
      dsimp only at hx'
      rw [hk, hnew] at hx'
      -- the crossing ends round 0, and round 1 begins
      have hmid : Lockstep c.period c.offset (b.leave p)
          (Function.update place p ⟨0, c.nPipeline + 3, c.nPipeline + 3⟩) := by
        apply hlock.leave (fun q hq => Function.update_of_ne hq ..)
        · rw [Function.update_self, hx]
          rfl
        · rw [Function.update_self, hx]
          rfl
        · rw [Function.update_self, hx]
          rfl
        · rw [hx]
          exact Nat.lt_succ_self _
        · exact hcan
      apply hmid.stay (p := p)
      · intro q hq
        rw [Function.update_of_ne hq, hother q hq]
      · right
        rw [Function.update_self, hx']
        exact ⟨rfl, rfl⟩
  | enter hst hcan =>
      obtain ⟨st, k, i, pc⟩ := x
      dsimp only at hst
      subst hst
      rw [place_of_loop (after_wait2 _ _)] at hx'
      apply hlock.leave hother
      · rw [hx', hx]
        rfl
      · rw [hx', hx]
        show 2 + 0 + 0 = 0 + 2
        rfl
      · rw [hx', hx]
        show 2 + 0 + 0 = 0 + 1 + 1
        rfl
      · rw [hx]
        show 0 + 1 < 0 + 2
        omega
      · exact hcan
  | quiet hst hrun hnext =>
      obtain ⟨hround, he, hl⟩ := after_quiet _ _ _ hst hnext halive
      have hnew := place_of_sameRound (c := c) hround
      rw [he, hl] at hnew
      rw [hnew] at hx'
      apply hlock.stay hother
      left
      rw [hx', hx, place_of_ne_loop hround.1]
  | refuse hst hsmall =>
      obtain ⟨st, k, i, pc⟩ := x
      dsimp only at hst
      subst hst
      apply hlock.stay hother
      left
      rw [hx', hx]
      rfl
  | exit hst hge =>
      obtain ⟨st, k, i, pc⟩ := x
      dsimp only at hst
      subst hst
      apply hlock.stay hother
      left
      rw [hx', hx]
      rfl
  | again hst hnext =>
      obtain ⟨st, k, i, pc⟩ := x
      apply hlock.stay hother
      right
      rw [hx', hx]
      rcases hst with heq | heq
      · dsimp only at heq
        subst heq
        exact ⟨rfl, rfl⟩
      · dsimp only at heq
        subst heq
        exact ⟨rfl, rfl⟩
  | abort hst =>
      obtain ⟨st, k, i, pc⟩ := x
      dsimp only at hst
      subst hst
      apply hlock.stay hother
      left
      rw [hx', hx]
      rfl
  | fail hbad => exact absurd rfl halive
  | work hst hloop =>
      rw [place_of_loop hst] at hx
      have hst' : ∀ i pc, Position.stage { x with i := i, pc := pc } = .loop := fun _ _ => hst
      rw [place_of_loop (hst' _ _)] at hx'
      apply hloop.lockstep hlock ?_ hx hx' hother
      unfold Params.period
      omega
  | close hst hpc hn =>
      obtain ⟨st, k, i, pc⟩ := x
      dsimp only at hst hpc hn
      subst hst
      subst hpc
      -- behind the loop the place no longer depends on `i`
      have hcount : i + 0 ≤ c.nPipeline := h.counted rfl
      have hi : i = c.nPipeline := by omega
      subst hi
      dsimp only at hx'
      rw [after_loop] at hx'
      apply hlock.arrive hother
      · rw [hx', hx]
        rfl
      · rw [hx', hx]
        show c.nPipeline + 3 = 2 + c.nPipeline + 0 + 1
        omega
      · rw [hx', hx]
        show c.nPipeline + 2 = 2 + c.nPipeline + 0
        omega
      · exact hle

/-- A `Move` of one process and none of the other. -/
theorem Control.move {pos pos' : Side → Position} (h : Control c b pos)
    (hmove : Move c p bad b (pos p) b' (pos' p)) (hother : ∀ q, q ≠ p → pos' q = pos q)
    (halive : (pos' p).stage ≠ .failed) : Control c b' pos' where
  lockstep := by
    apply hmove.lockstep (h.valid p) halive h.lockstep rfl rfl
    intro q hq
    rw [hother q hq]
  valid q := by
    by_cases hq : q = p
    · rw [hq]
      exact hmove.valid (h.valid p) halive
    · rw [hother q hq]
      exact h.valid q

theorem onRoute_entry : ∀ program p, OnRoute program p (Program.entry program p) := by
  decide

theorem entry_facts : ∀ program p, (Program.entry program p).running = false ∧
    Program.entry program p ≠ .exited ∧ Program.entry program p ≠ .refused ∧
    Program.entry program p ≠ .loop := by
  decide

theorem place_entry (c : Session) (p : Side) (i : Nat) (pc : LoopPc) :
    Position.place c ⟨c.program.entry p, 0, i, pc⟩ =
      match c.program with
      | .shm => ⟨1, 0, 0⟩
      | .mmap => ⟨0, c.nPipeline + 2, c.nPipeline + 2⟩ := by
  unfold Position.place
  cases c.program with
  | shm => cases p <;> rfl
  | mmap => rfl

/-- Both processes about to begin. -/
theorem control_fresh (c : Session) :
    Control c (State.fresh c).barrier (State.fresh c).position where
  lockstep := by
    have hplace : ∀ p, ((State.fresh c).position p).place c = _ := fun p => place_entry c p _ _
    refine ⟨?_, ?_, ?_, ?_, Rendezvous.safe_fresh⟩
    all_goals
      intro p
      rw [hplace p]
      cases hprogram : c.program with
      | shm => simp [State.fresh, Params.offset, Params.period, hprogram]
      | mmap => simp [State.fresh, Params.offset, Params.period, hprogram]
  valid p := by
    obtain ⟨hrunning, hexited, hrefused, hloop⟩ := entry_facts c.program p
    refine ⟨onRoute_entry _ _, Nat.zero_le _, fun hrun => ?_, fun _ => rfl,
      fun heq => absurd heq hexited, fun heq => absurd heq hrefused, fun heq => absurd heq hloop⟩
    have hrun' : (c.program.entry p).running = true := hrun
    rw [hrunning] at hrun'
    cases hrun'

/-! ## §3. Where the other process is. -/

/-- Past the first barrier of the iteration and short of the last one. -/
def Stage.midway : Stage → Bool
  | .joinOpen | .joinStat | .joinMap | .arrive2 | .wait2 | .loop => true
  | _ => false

/-- In the first barrier of the iteration, past it, or in the last one. -/
def Stage.near (program : Program) : Stage → Bool
  | .wait1 | .joinOpen | .joinStat | .joinMap | .arrive2 | .wait2 | .loop | .wait3 => true
  | .clear =>
      match program with
      | .shm => false
      | .mmap => true
  | _ => false

theorem near_of_crossings : ∀ program p st, OnRoute program p st → st ≠ .loop →
    st.ahead = false → (st.late = true → st.left program ≤ 2) →
    (st.late = false → 1 ≤ st.entered program) → st.near program = true := by
  decide

theorem place_of_midway (h : x.Valid c p) (hmid : x.stage.midway = true) :
    (x.place c).round = x.iteration + 1 ∧ 1 ≤ (x.place c).left ∧
      (x.place c).entered < c.period := by
  by_cases hloop : x.stage = .loop
  · have hcount := h.counted hloop
    rw [place_of_loop hloop]
    unfold Params.period
    refine ⟨rfl, ?_, ?_⟩
    · show 1 ≤ 2 + x.i + x.pc.left
      omega
    · show 2 + x.i + x.pc.entered < c.nPipeline + 3
      omega
  · have hfacts : ∀ program st, Stage.midway st = true → st ≠ .loop →
        st.ahead = false ∧ st.late = false ∧ 1 ≤ st.left program ∧ st.entered program ≤ 2 := by
      decide
    obtain ⟨hahead, hlate, hleft, hentered⟩ := hfacts c.program _ hmid hloop
    rw [place_of_ne_loop hloop, hahead, hlate]
    unfold Params.period
    refine ⟨rfl, ?_, ?_⟩
    · show 1 ≤ 0 + x.stage.left c.program
      omega
    · show 0 + x.stage.entered c.program < c.nPipeline + 3
      omega

/-- **While one process is midway the other is near, in the same
iteration.** -/
theorem Control.near {pos : Side → Position} (h : Control c b pos)
    (hmid : (pos p).stage.midway = true) (q : Side) :
    (pos q).iteration = (pos p).iteration ∧ (pos q).stage.near c.program = true := by
  obtain ⟨hround, hpast, hshort⟩ := place_of_midway (h.valid p) hmid
  obtain ⟨hsame, hentered, hleft⟩ := h.lockstep.together hpast hshort q
  rw [hround] at hsame
  by_cases hloop : (pos q).stage = .loop
  · rw [place_of_loop hloop] at hsame
    have hk : (pos q).iteration + 1 = (pos p).iteration + 1 := hsame
    refine ⟨by omega, ?_⟩
    rw [hloop]
    rfl
  · rw [place_of_ne_loop hloop] at hsame hentered hleft
    dsimp only at hsame hentered hleft
    -- a process short of its first iteration is still in round 0
    have hahead : (pos q).stage.ahead = false := by
      by_contra hne
      rw [if_pos (by simpa using hne)] at hsame
      omega
    rw [hahead] at hsame
    have hk : (pos q).iteration + 1 = (pos p).iteration + 1 := hsame
    refine ⟨by omega, ?_⟩
    apply near_of_crossings _ _ _ (h.valid q).onRoute hloop hahead
    · intro hlate
      rw [if_pos hlate] at hleft
      unfold Params.period at hshort
      omega
    · intro hlate
      rw [if_neg (by rw [hlate]; nofun)] at hentered
      omega

/-- **While the receiver is at work in its pipeline loop** the sender is in
the same step or at the end of it, or out of its own loop. -/
theorem Control.sender_of_working {pos : Side → Position} (h : Control c b pos)
    (hst : (pos .receiver).stage = .loop) (hwork : (pos .receiver).pc.left = 1) :
    ((pos .sender).stage = .loop ∧
        (pos .receiver).i + 1 ≤ (pos .sender).i + (pos .sender).pc.entered ∧
        (pos .sender).i + (pos .sender).pc.left ≤ (pos .receiver).i + 1) ∨
      ((pos .sender).stage = .wait3 ∧ c.nPipeline ≤ (pos .receiver).i + 1) := by
  have hmid : (pos .receiver).stage.midway = true := by rw [hst]; rfl
  obtain ⟨hround, hpast, hshort⟩ := place_of_midway (h.valid .receiver) hmid
  obtain ⟨hsame, hentered, hleft⟩ := h.lockstep.together hpast hshort .sender
  have hnear := (h.near hmid .sender).2
  rw [place_of_loop hst] at hentered hleft
  have hwork' := LoopPc.entered_of_left hwork
  have hcount := (h.valid .receiver).counted hst
  by_cases hloop : (pos .sender).stage = .loop
  · left
    rw [place_of_loop hloop] at hentered hleft
    have he : 2 + (pos .receiver).i + (pos .receiver).pc.left ≤
        2 + (pos .sender).i + (pos .sender).pc.entered := hentered
    have hl : 2 + (pos .sender).i + (pos .sender).pc.left ≤
        2 + (pos .receiver).i + (pos .receiver).pc.entered := hleft
    exact ⟨hloop, by omega, by omega⟩
  · right
    rw [place_of_ne_loop hloop] at hentered hleft
    have he : 2 + (pos .receiver).i + (pos .receiver).pc.left ≤
        (if (pos .sender).stage.late then c.nPipeline else 0) +
          (pos .sender).stage.entered c.program := hentered
    have hl : (if (pos .sender).stage.late then c.nPipeline else 0) +
          (pos .sender).stage.left c.program ≤
        2 + (pos .receiver).i + (pos .receiver).pc.entered := hleft
    have hfacts : ∀ program st, Stage.near program st = true → st ≠ .loop → st ≠ .wait3 →
        st.late = false ∧ st.entered program ≤ 2 := by
      decide
    by_cases hwait : (pos .sender).stage = .wait3
    · rw [hwait] at hl
      have hl' : c.nPipeline + 2 ≤ 2 + (pos .receiver).i + (pos .receiver).pc.entered := hl
      exact ⟨hwait, by omega⟩
    · -- short of its loop the sender has not entered enough crossings
      obtain ⟨hlate, hle⟩ := hfacts _ _ hnear hloop hwait
      rw [hlate] at he
      have he' : 2 + (pos .receiver).i + (pos .receiver).pc.left ≤
          0 + (pos .sender).stage.entered c.program := he
      omega

/-- A process in the last barrier of an iteration has left the second one, so
nobody is ahead of it. -/
theorem Control.not_wait3 {pos : Side → Position} (h : Control c b pos)
    (hst : (pos p).stage = .arrive2) (q : Side) : (pos q).stage ≠ .wait3 := by
  intro hq
  have hmid : (pos p).stage.midway = true := by rw [hst]; rfl
  obtain ⟨-, hpast, hshort⟩ := place_of_midway (h.valid p) hmid
  obtain ⟨-, -, hleft⟩ := h.lockstep.together hpast hshort q
  rw [place_of_ne_loop (by rw [hq]; nofun), place_of_ne_loop (by rw [hst]; nofun), hq, hst] at hleft
  have hleft' : c.nPipeline + 2 ≤ 0 + 1 := hleft
  omega

/-- The sender has entered its pipeline loop in this iteration. -/
def Stage.past : Stage → Bool
  | .loop | .wait3 | .unmap => true
  | _ => false

/-- In an earlier iteration than `k`, or short of the pipeline loop of it. -/
def Position.Before (x : Position) (k : Nat) : Prop :=
  x.iteration < k ∨ (x.iteration = k ∧ x.stage.past = false)

theorem past_after : ∀ program st, after program .sender st ≠ .failed → st ≠ .unmap →
    (after program .sender st).past = false → st.past = false := by
  decide

/-- **The sender gets no further back.** -/
theorem Move.before {k : Nat} (hmove : Move c .sender bad b x b' x') (halive : x'.stage ≠ .failed)
    (h : x'.Before k) : x.Before k := by
  have hafter : x'.stage = after c.program .sender x.stage → x'.iteration = x.iteration →
      x.stage ≠ .unmap → x.Before k := by
    intro hst hk hne
    rcases h with hlt | ⟨heq, hpast⟩
    · rw [hk] at hlt
      exact .inl hlt
    · rw [hk] at heq
      rw [hst] at hpast halive
      exact .inr ⟨heq, past_after _ _ halive hne hpast⟩
  cases hmove with
  | arrive hst | leave hst _ | commence hst _ | enter hst _ | close hst _ _ =>
      -- none of these stages is the end of an iteration
      apply hafter rfl rfl
      intro heq
      rw [heq] at hst
      cases hst
  | quiet hst hrun hstart =>
      apply hafter rfl rfl
      intro heq
      have hend : ∀ program, after program .sender .unmap = .start := by decide
      rw [heq] at hstart
      exact absurd (hstart (hend _)) nofun
  | refuse hst hsmall =>
      rcases h with hlt | ⟨hk, -⟩
      · exact .inl hlt
      · refine .inr ⟨hk, ?_⟩
        rw [hst]
        rfl
  | exit hst hge =>
      rcases h with hlt | ⟨hk, -⟩
      · exact .inl hlt
      · refine .inr ⟨hk, ?_⟩
        rw [hst]
        rfl
  | again hst hstart =>
      left
      rcases h with hlt | ⟨hk, -⟩
      · have hlt' : x.iteration + 1 < k := hlt
        omega
      · have hk' : x.iteration + 1 = k := hk
        omega
  | abort hst =>
      rcases h with hlt | ⟨hk, -⟩
      · exact .inl hlt
      · refine .inr ⟨hk, ?_⟩
        rw [hst]
        rfl
  | fail hbad => exact absurd rfl halive
  | work hst hloop => exact h

end Akbench.SharedMemory
