/-
  Akbench.Benchmark.SharedMemory
  ──────────────────────────────
  **`RunShmBandwidthBenchmark` AND `RunMmapBandwidthBenchmark`, FROM `fork()`
  TO THE LAST DESTRUCTOR.**

  `Akbench.SharedMemory` over `SenseReversingBarrier` itself.  The pipeline
  calls `Wait()` once per step, `mmap_bandwidth` once more ahead of all
  iterations, so the number of calls depends on sizes and program.

    • `kind` — a stage is inside a call, about to begin one, or apart from
      the barrier;
    • `rankOf_lt` — what every step lowers;
    • `shared_memory_benchmark` — no call fails and nobody aborts, and every
      weakly fair run ends with both returned and the barrier's names
      unlinked.
-/
import Akbench.Benchmark.Processes
import Akbench.SharedMemory.Freshness
import Akbench.Common.Generate

namespace Akbench.SharedMemory

open Benchmark (Protocol Completed processes)

variable {c : Session} {s s' : State} {p q : Side} {b : Rendezvous Side}

/-! ## §1. The processes as users of a barrier. -/

def LoopPc.status : LoopPc → Client.Status
  | .waiting => .calling
  | .top | .sizing | .copying | .closing => .running

def Position.status (x : Position) : Client.Status :=
  match x.stage with
  | .wait0 | .wait1 | .wait2 | .wait3 => .calling
  | .loop => x.pc.status
  | .exited => .returned
  | _ => .running

def client (c : Session) : Client Side State Side where
  system := sessionSystem c
  owner := id
  barrier := State.barrier
  withBarrier s b := { s with barrier := b }
  status s p := (s.position p).status

/-- Inside a call outside the pipeline loop. -/
def Stage.calling : Stage → Bool
  | .wait0 | .wait1 | .wait2 | .wait3 => true
  | _ => false

/-- Neither in a call nor in the pipeline loop, and not over. -/
def Stage.apart : Stage → Bool
  | .wait0 | .wait1 | .wait2 | .wait3 | .loop | .exited => false
  | _ => true

theorem status_of_calling {x : Position} (h : x.stage.calling = true) : x.status = .calling := by
  obtain ⟨st, k, i, pc⟩ := x
  cases st <;> first | rfl | cases h

theorem status_of_apart {x : Position} (h : x.stage.apart = true) : x.status = .running := by
  obtain ⟨st, k, i, pc⟩ := x
  cases st <;> first | rfl | cases h

theorem status_of_loop {x : Position} (h : x.stage = .loop) : x.status = x.pc.status := by
  unfold Position.status
  rw [h]

theorem calling_after_arriving : ∀ program p st, OnRoute program p st → st.arriving = true →
    (after program p st).calling = true := by
  decide

theorem apart_after_wait : ∀ program p st, OnRoute program p st →
    st = .wait0 ∨ st = .wait1 ∨ st = .wait3 → (after program p st).apart = true := by
  decide

theorem apart_after_quiet : ∀ program p st, OnRoute program p st →
    st.quiet = true ∨ st = .unlink → (after program p st).apart = true := by
  decide

theorem apart_of_quiet : ∀ st : Stage, st.quiet = true ∨ st = .unlink → st.apart = true := by
  decide

theorem go_position_self (s : State) (p : Side) (st : Stage) :
    (s.go p st).position p = ⟨st, (s.party p).iteration, s.loopI p, s.loopPc p⟩ := by
  unfold State.position State.go
  rw [State.become_self]
  rfl

theorem go_position_of_ne (s : State) (st : Stage) (h : q ≠ p) :
    (s.go p st).position q = s.position q := by
  have hparty : (s.go p st).party q = s.party q := Function.update_of_ne h _ _
  unfold State.position
  rw [hparty]
  rfl

/-! ### Steps apart from the barrier do not read it. -/

theorem use_barrier (s : State) (p : Side) (id : Option Nat) (call call' : Nat → State)
    (b : Rendezvous Side) (hcall : ∀ n, call' n = { call n with barrier := b }) :
    State.use { s with barrier := b } p id call' =
      (s.use p id call).map fun s => { s with barrier := b } := by
  cases id with
  | none => rfl
  | some n => exact congrArg some (hcall n)

theorem openCreate_barrier (s : State) (p : Side) (b : Rendezvous Side) :
    openCreate c { s with barrier := b } p =
      ({ (openCreate c s p).1 with barrier := b }, (openCreate c s p).2) := by
  obtain ⟨_, party, sendLoop, receiveLoop, name, object, created⟩ := s
  cases name with
  | none => rfl
  | some id =>
      unfold openCreate
      cases c.program <;> rfl

theorem goOn_barrier (s : State) (p : Side) (x : Party) (st : Stage) (b : Rendezvous Side) :
    State.goOn { s with barrier := b } p x st = { s.goOn p x st with barrier := b } := by
  unfold State.goOn
  split <;> rfl

theorem sessionStep_barrier (hst : (s.party p).stage.quiet = true ∨ (s.party p).stage = .unlink)
    (b : Rendezvous Side) :
    sessionStep c { s with barrier := b } p =
      (sessionStep c s p).map fun s => { s with barrier := b } := by
  unfold sessionStep
  dsimp only
  cases h : (s.party p).stage with
  | generating | start =>
      dsimp only
      split <;> rfl
  | create =>
      dsimp only
      rw [openCreate_barrier]
      rfl
  | resize | map | clear | joinOpen | joinStat | joinMap =>
      exact use_barrier s p _ _ _ b fun _ => rfl
  | verifying =>
      dsimp only
      split <;> rfl
  | unmap => exact congrArg some (goOn_barrier s p _ _ b)
  | unlink => exact congrArg some (goOn_barrier { s with name := none } p _ _ b)
  | first | wait0 | arrive1 | wait1 | arrive2 | wait2 | loop | wait3 | exited | failed | aborted
  | refused =>
      rw [h] at hst
      rcases hst with hst | hst <;> cases hst

/-! ### What each stage is to the barrier. -/

theorem go_status_of_ne (s : State) (st : Stage) (q : Side) (h : q ≠ p) :
    (client c).status (s.go p st) q = (client c).status s q :=
  congrArg Position.status (go_position_of_ne s st h)

theorem kind_arriving (hroute : OnRoute c.program p (s.party p).stage)
    (hst : (s.party p).stage.arriving = true) : (client c).Kind s p := by
  refine .arrives (s.go p (after c.program p (s.party p).stage)) (fun b => ?_) ?_ ?_
    (go_status_of_ne s _)
  · show sessionStep c { s with barrier := b } p = _
    unfold sessionStep
    dsimp only
    cases h : (s.party p).stage with
    | first | arrive1 | arrive2 => rfl
    | _ =>
        rw [h] at hst
        cases hst
  · apply status_of_apart
    have hfacts : ∀ st : Stage, st.arriving = true → st.apart = true := by decide
    exact hfacts _ hst
  · apply status_of_calling
    have hstage := congrArg Position.stage
      (go_position_self s p (after c.program p (s.party p).stage))
    exact (congrArg Stage.calling hstage).trans (calling_after_arriving _ _ _ hroute hst)

theorem kind_leaving (hroute : OnRoute c.program p (s.party p).stage)
    (hst : (s.party p).stage = .wait0 ∨ (s.party p).stage = .wait1 ∨ (s.party p).stage = .wait3) :
    (client c).Kind s p := by
  refine .leaves (s.go p (after c.program p (s.party p).stage)) (fun b hcan => ?_)
    (fun b hcan => ?_) ?_ ?_ (go_status_of_ne s _)
  · show sessionStep c { s with barrier := b } p = _
    unfold sessionStep
    dsimp only
    rcases hst with h | h | h <;> rw [h] <;> exact if_pos hcan
  · show sessionStep c { s with barrier := b } p = _
    unfold sessionStep
    dsimp only
    rcases hst with h | h | h <;> rw [h] <;> exact if_neg hcan
  · apply status_of_calling
    show (s.party p).stage.calling = true
    rcases hst with h | h | h <;> rw [h] <;> rfl
  · have happart := status_of_apart (x := (s.go p (after c.program p (s.party p).stage)).position p)
      (by
        rw [go_position_self]
        exact apart_after_wait _ _ _ hroute hst)
    intro hcalling
    have heq := happart.symm.trans hcalling
    cases heq

/-- The next stages of the iteration, up to the pipeline loop or out of it. -/
theorem kind_quiet (hinv : SessionInv c s)
    (hst : (s.party p).stage.quiet = true ∨ (s.party p).stage = .unlink) :
    (client c).Kind s p := by
  have hroute : OnRoute c.program p (s.party p).stage := (hinv.control.valid p).onRoute
  refine .apart (sessionStep c s p) (sessionStep_barrier hst)
    (status_of_apart (apart_of_quiet _ hst)) fun t ht => ?_
  obtain ⟨hmove, hother, halive⟩ := hinv.store.position hinv.control ht
  refine ⟨?_, fun q hq => congrArg Position.status (hother q hq).position⟩
  have hloop : (s.party p).stage ≠ .loop := by
    intro h
    rw [h] at hst
    rcases hst with h | h <;> cases h
  show (t.position p).status ≠ .calling
  rcases hmove.next halive with ⟨hnext, _⟩ | ⟨hnext, _⟩ | ⟨_, hnext⟩ | ⟨_, hnext⟩ | ⟨_, hnext⟩
  · rw [status_of_apart]
    · nofun
    · rw [hnext]
      exact apart_after_quiet _ _ _ hroute hst
  · exact absurd hnext hloop
  all_goals
    unfold Position.status
    rw [hnext]
    nofun

/-- Into the pipeline loop. -/
theorem kind_wait2 (hst : (s.party p).stage = .wait2) : (client c).Kind s p := by
  have hstep : ∀ b, sessionStep c { s with barrier := b } p =
      if b.CanLeave p then
        some { resetLoop c (s.go p .loop) p with barrier := b.leave p }
      else none := by
    intro b
    unfold sessionStep
    dsimp only
    rw [hst]
    dsimp only
    rw [after_wait2]
    cases p <;> rfl
  refine .leaves (resetLoop c (s.go p .loop) p) (fun b hcan => ?_) (fun b hcan => ?_) ?_ ?_ ?_
  · exact (hstep b).trans (if_pos hcan)
  · exact (hstep b).trans (if_neg hcan)
  · apply status_of_calling
    show (s.party p).stage.calling = true
    rw [hst]
    rfl
  · have hposition : ((resetLoop c (s.go p .loop) p).position p).status = .running := by
      cases p with
      | sender =>
          have hloop := congrArg Position.stage (go_position_self s .sender .loop)
          exact (status_of_loop hloop : Position.status ⟨_, _, 0, .top⟩ = _)
      | receiver =>
          have hloop := congrArg Position.stage (go_position_self s .receiver .loop)
          exact (status_of_loop hloop : Position.status ⟨_, _, 0, .top⟩ = _)
    intro hcalling
    have heq := hposition.symm.trans hcalling
    cases heq
  · intro q hq
    have hsame := go_status_of_ne (c := c) s .loop q hq
    cases p with
    | sender =>
        cases q with
        | sender => exact absurd rfl hq
        | receiver => exact hsame
    | receiver =>
        cases q with
        | sender => exact hsame
        | receiver => exact absurd rfl hq

/-! ### The pipeline loops. -/

variable {stamp : Nat} {m m' : Buffer} {l l' : SendLoop} {r r' : ReceiveLoop}

/-- At work the sender's loop does not read the barrier. -/
theorem sendTurn_at_work (c : Params) (stamp : Nat) (m : Buffer) (hwork : l.pc.left = 1) :
    ∃ m' l', l'.pc.status = .running ∧ ∀ b, sendTurn c stamp b m l = some (b, m', l') := by
  obtain ⟨pc, i, bytesSent, sizeToSend, copied⟩ := l
  cases pc with
  | top | waiting => cases hwork
  | sizing | closing => exact ⟨_, _, rfl, fun _ => rfl⟩
  | copying =>
      by_cases hlt : copied < sizeToSend
      · refine ⟨_, _, ?_, fun b => if_pos hlt⟩
        rfl
      · refine ⟨_, _, ?_, fun b => if_neg hlt⟩
        rfl

theorem receiveTurn_at_work (c : Params) (m : Buffer) (hwork : r.pc.left = 1) :
    ∃ r', r'.pc.status = .running ∧ ∀ b, receiveTurn c b m r = some (b, r') := by
  obtain ⟨pc, i, bytesReceived, sizeToReceive, copied, receivedData⟩ := r
  cases pc with
  | top | waiting => cases hwork
  | sizing | closing => exact ⟨_, rfl, fun _ => rfl⟩
  | copying =>
      by_cases hlt : copied < sizeToReceive
      · refine ⟨_, ?_, fun b => if_pos hlt⟩
        rfl
      · refine ⟨_, ?_, fun b => if_neg hlt⟩
        rfl

theorem step_of_loop (hst : (s.party p).stage = .loop) :
    sessionStep c s p = loopStep c s p .wait3 := by
  unfold sessionStep
  dsimp only
  rw [hst]
  dsimp only
  rw [after_loop]

theorem kind_close (hst : (s.party p).stage = .loop) {id : Nat}
    (hmap : (s.party p).mapping = some id) (hpc : s.loopPc p = .top)
    (hsend : p = .sender → s.sendLoop.Over c.toParams)
    (hreceive : p = .receiver → s.receiveLoop.Over c.toParams) : (client c).Kind s p := by
  refine .arrives (s.go p .wait3) (fun b => ?_) ?_ ?_ (go_status_of_ne s _)
  · refine (step_of_loop (s := { s with barrier := b }) hst).trans ?_
    unfold loopStep
    dsimp only
    rw [hmap]
    cases p with
    | sender => exact if_pos (hsend rfl)
    | receiver => exact if_pos (hreceive rfl)
  · refine (status_of_loop hst).trans ?_
    show (s.loopPc p).status = _
    rw [hpc]
    rfl
  · have hstage := congrArg Position.stage (go_position_self s p .wait3)
    exact status_of_calling (congrArg Stage.calling hstage)

/-- A step of the sender's loop at barrier `b`. -/
theorem loopStep_sender {id : Nat} (hmap : (s.party .sender).mapping = some id)
    (hopen : ¬ s.sendLoop.Over c.toParams) (b : Rendezvous Side) {b' : Rendezvous Side} {m : Buffer}
    {l : SendLoop} (hturn : sendTurn c.toParams (s.party .sender).iteration b (s.object id).memory
      s.sendLoop = some (b', m, l)) :
    loopStep c { s with barrier := b } .sender .wait3 =
      some { s.store id { s.object id with memory := m } with barrier := b', sendLoop := l } := by
  unfold loopStep
  dsimp only
  rw [hmap]
  dsimp only
  rw [if_neg hopen, hturn]
  rfl

theorem kind_send (hst : (s.party .sender).stage = .loop) {id : Nat}
    (hmap : (s.party .sender).mapping = some id) (hopen : ¬ s.sendLoop.Over c.toParams) :
    (client c).Kind s .sender := by
  let t (m : Buffer) (l : SendLoop) : State :=
    { s.store id { s.object id with memory := m } with sendLoop := l }
  have hself : ∀ m l, (client c).status (t m l) .sender = l.pc.status := fun _ _ =>
    status_of_loop hst
  have hother : ∀ m l q, q ≠ .sender →
      (client c).status (t m l) q = (client c).status s q := by
    intro m l q hq
    cases q with
    | sender => exact absurd rfl hq
    | receiver => rfl
  have hat : (client c).status s .sender = s.sendLoop.pc.status := status_of_loop hst
  have hstep : ∀ (b b' : Rendezvous Side) m l, sendTurn c.toParams (s.party .sender).iteration b
      (s.object id).memory s.sendLoop = some (b', m, l) →
      sessionStep c { s with barrier := b } .sender = some { t m l with barrier := b' } :=
    fun b b' m l hturn => (step_of_loop (s := { s with barrier := b }) hst).trans
      (loopStep_sender hmap hopen b hturn)
  cases hpc : s.sendLoop.pc with
  | top =>
      have hlt : s.sendLoop.i < c.nPipeline := by
        by_contra hge
        exact hopen ⟨hpc, Nat.le_of_not_lt hge⟩
      refine .arrives (t (s.object id).memory { s.sendLoop with pc := .waiting })
        (fun b => hstep b _ _ _ ?_) (by rw [hpc] at hat; exact hat) (hself _ _) (hother _ _)
      unfold sendTurn
      rw [hpc]
      exact if_pos hlt
  | waiting =>
      refine .leaves (t (s.object id).memory { s.sendLoop with pc := .sizing })
        (fun b hcan => hstep b _ _ _ ?_) (fun b hcan => ?_) (by rw [hpc] at hat; exact hat) ?_
        (hother _ _)
      · unfold sendTurn
        rw [hpc]
        exact if_pos hcan
      · refine (step_of_loop (s := { s with barrier := b }) hst).trans ?_
        unfold loopStep
        dsimp only
        rw [hmap]
        dsimp only
        rw [if_neg hopen]
        unfold sendTurn
        rw [hpc]
        dsimp only
        rw [if_neg (show ¬ b.CanLeave .sender from hcan)]
      · show (client c).status (t _ _) .sender ≠ _
        rw [hself]
        nofun
  | sizing | copying | closing =>
      obtain ⟨m, l, hrun, hturn⟩ := sendTurn_at_work c.toParams (s.party .sender).iteration
        (s.object id).memory (l := s.sendLoop) (by rw [hpc]; rfl)
      refine .stays (t m l) (fun b => hstep b b m l (hturn b)) (by rw [hpc] at hat; exact hat) ?_
        (hother _ _)
      show (client c).status (t _ _) .sender ≠ _
      rw [hself, hrun]
      nofun

theorem loopStep_receiver {id : Nat} (hmap : (s.party .receiver).mapping = some id)
    (hopen : ¬ s.receiveLoop.Over c.toParams) (b : Rendezvous Side) {b' : Rendezvous Side}
    {r : ReceiveLoop} (hturn : receiveTurn c.toParams b (s.object id).memory s.receiveLoop =
      some (b', r)) :
    loopStep c { s with barrier := b } .receiver .wait3 =
      some { s with barrier := b', receiveLoop := r } := by
  unfold loopStep
  dsimp only
  rw [hmap]
  dsimp only
  rw [if_neg hopen, hturn]

theorem kind_receive (hst : (s.party .receiver).stage = .loop) {id : Nat}
    (hmap : (s.party .receiver).mapping = some id) (hopen : ¬ s.receiveLoop.Over c.toParams) :
    (client c).Kind s .receiver := by
  let t (r : ReceiveLoop) : State := { s with receiveLoop := r }
  have hself : ∀ r, (client c).status (t r) .receiver = r.pc.status := fun _ => status_of_loop hst
  have hother : ∀ r q, q ≠ .receiver → (client c).status (t r) q = (client c).status s q := by
    intro r q hq
    cases q with
    | sender => rfl
    | receiver => exact absurd rfl hq
  have hat : (client c).status s .receiver = s.receiveLoop.pc.status := status_of_loop hst
  have hstep : ∀ (b b' : Rendezvous Side) r, receiveTurn c.toParams b (s.object id).memory
      s.receiveLoop = some (b', r) →
      sessionStep c { s with barrier := b } .receiver = some { t r with barrier := b' } :=
    fun b b' r hturn => (step_of_loop (s := { s with barrier := b }) hst).trans
      (loopStep_receiver hmap hopen b hturn)
  cases hpc : s.receiveLoop.pc with
  | top =>
      have hlt : s.receiveLoop.i < c.nPipeline := by
        by_contra hge
        exact hopen ⟨hpc, Nat.le_of_not_lt hge⟩
      refine .arrives (t { s.receiveLoop with pc := .waiting })
        (fun b => hstep b _ _ ?_) (by rw [hpc] at hat; exact hat) (hself _) (hother _)
      unfold receiveTurn
      rw [hpc]
      exact if_pos hlt
  | waiting =>
      refine .leaves (t { s.receiveLoop with pc := .sizing })
        (fun b hcan => hstep b _ _ ?_) (fun b hcan => ?_) (by rw [hpc] at hat; exact hat) ?_
        (hother _)
      · unfold receiveTurn
        rw [hpc]
        exact if_pos hcan
      · refine (step_of_loop (s := { s with barrier := b }) hst).trans ?_
        unfold loopStep
        dsimp only
        rw [hmap]
        dsimp only
        rw [if_neg hopen]
        unfold receiveTurn
        rw [hpc]
        dsimp only
        rw [if_neg (show ¬ b.CanLeave .receiver from hcan)]
      · show (client c).status (t _) .receiver ≠ _
        rw [hself]
        nofun
  | sizing | copying | closing =>
      obtain ⟨r, hrun, hturn⟩ := receiveTurn_at_work c.toParams (s.object id).memory
        (r := s.receiveLoop) (by rw [hpc]; rfl)
      refine .stays (t r) (fun b => hstep b b r (hturn b)) (by rw [hpc] at hat; exact hat) ?_
        (hother _)
      show (client c).status (t _) .receiver ≠ _
      rw [hself, hrun]
      nofun

/-- **What a step is to the barrier**, by the stage it begins in. -/
theorem kind (hinv : SessionInv c s) (p : Side) : (client c).Kind s p := by
  have hroute : OnRoute c.program p (s.party p).stage := (hinv.control.valid p).onRoute
  cases hst : (s.party p).stage with
  | first | arrive1 | arrive2 => exact kind_arriving hroute (by rw [hst]; rfl)
  | wait0 => exact kind_leaving hroute (.inl hst)
  | wait1 => exact kind_leaving hroute (.inr (.inl hst))
  | wait3 => exact kind_leaving hroute (.inr (.inr hst))
  | wait2 => exact kind_wait2 hst
  | generating | start | create | resize | map | clear | joinOpen | joinStat | joinMap | verifying
  | unmap =>
      exact kind_quiet hinv (.inl (by rw [hst]; rfl))
  | unlink => exact kind_quiet hinv (.inr hst)
  | exited | failed | aborted | refused =>
      refine .blocked fun b => ?_
      show sessionStep c { s with barrier := b } p = none
      unfold sessionStep
      dsimp only
      rw [hst]
  | loop =>
      obtain ⟨id, -, hmap, -⟩ := hinv.store.mapping_of_loop hinv.control hst
      cases p with
      | sender =>
          by_cases hover : s.sendLoop.Over c.toParams
          · exact kind_close hst hmap hover.1 (fun _ => hover) nofun
          · exact kind_send hst hmap hover
      | receiver =>
          by_cases hover : s.receiveLoop.Over c.toParams
          · exact kind_close hst hmap hover.1 nofun (fun _ => hover)
          · exact kind_receive hst hmap hover

/-- **The shared-memory benchmarks use their barrier as a barrier.** -/
theorem lawful (c : Session) : (client c).Lawful where
  barrier_with _ _ := rfl
  with_with _ _ _ := rfl
  with_barrier _ := rfl
  status_with _ _ := by
    funext p
    cases p <;> rfl
  init s hs := by
    rw [show s = State.fresh c from hs]
    refine ⟨rfl, fun p => ?_⟩
    have hfacts : ∀ program p, (Program.entry program p).apart = true := by decide
    have hrun : ((State.fresh c).position p).status = .running :=
      status_of_apart (hfacts c.program p)
    show ((State.fresh c).position p).status ≠ _
    rw [hrun]
    nofun
  kind s hs p := kind (sessionInv_of_reachable hs) p
  acts p := ⟨p, rfl⟩

/-- Nobody enters more crossings than a whole run has. -/
theorem SessionInv.entered_le (h : SessionInv c s) (p : Side) :
    s.barrier.entered p ≤ c.crossings := by
  have hvalid := h.control.valid p
  have hentered := h.control.lockstep.entered p
  have hle := place_entered_le hvalid
  have hbound : ((s.position p).place c).round * c.period + ((s.position p).place c).entered ≤
      (c.total + 1) * c.period := by
    -- the crossings of a round not behind the last iteration
    have hwithin : ∀ k, k ≤ c.total → k * c.period + ((s.position p).place c).entered ≤
        (c.total + 1) * c.period := by
      intro k hk
      calc k * c.period + ((s.position p).place c).entered
          ≤ k * c.period + c.period := Nat.add_le_add_left hle _
        _ = (k + 1) * c.period := (Nat.succ_mul k c.period).symm
        _ ≤ (c.total + 1) * c.period := Nat.mul_le_mul_right _ (Nat.succ_le_succ hk)
    by_cases hloop : (s.position p).stage = .loop
    · have hlt := hvalid.running (by rw [hloop]; rfl)
      have hround : ((s.position p).place c).round = (s.position p).iteration + 1 := by
        rw [place_of_loop hloop]
        rfl
      rw [hround]
      exact hwithin _ hlt
    · cases hahead : (s.position p).stage.ahead with
      | true =>
          have hround : ((s.position p).place c).round = 0 := by
            rw [place_of_ne_loop hloop, hahead]
            rfl
          rw [hround]
          exact hwithin 0 (Nat.zero_le _)
      | false =>
          have hround : ((s.position p).place c).round = (s.position p).iteration + 1 := by
            rw [place_of_ne_loop hloop, hahead]
            rfl
          rw [hround]
          cases hrun : (s.position p).stage.running with
          | true =>
              exact hwithin _ (hvalid.running hrun)
          | false =>
              -- at the head of the loop or behind it nothing of the round is entered
              have hfacts : ∀ program st, Stage.running st = false → st.ahead = false →
                  st.late = false ∧ st.entered program = 0 := by decide
              obtain ⟨hlate, hzero⟩ := hfacts c.program _ hrun hahead
              have hnone : ((s.position p).place c).entered = 0 := by
                rw [place_of_ne_loop hloop, hlate, hzero]
                rfl
              rw [hnone]
              exact Nat.mul_le_mul_right _ (Nat.succ_le_succ hvalid.bound)
  have hmul : (c.total + 1) * (c.nPipeline + 3) = c.total * (c.nPipeline + 3) + (c.nPipeline + 3) :=
    Nat.succ_mul _ _
  unfold Params.offset at hentered
  unfold Params.period at hentered hbound
  unfold Session.crossings
  cases hprogram : c.program with
  | shm =>
      simp only [hprogram] at hentered
      show s.barrier.entered p ≤ c.total * (c.nPipeline + 3)
      omega
  | mmap =>
      simp only [hprogram] at hentered
      show s.barrier.entered p ≤ c.total * (c.nPipeline + 3) + 1
      omega

theorem counted (c : Session) : (client c).Counted c.crossings where
  entered_le s hs p := (sessionInv_of_reachable hs).entered_le p
  left_eq s hs p hret := by
    have hst : (s.party p).stage = .exited := by
      have hret' : (s.position p).status = .returned := hret
      unfold Position.status at hret'
      cases h : (s.party p).stage with
      | exited => rfl
      | loop =>
          rw [show (s.position p).stage = .loop from h] at hret'
          cases hpc : (s.position p).pc <;> rw [hpc] at hret' <;> cases hret'
      | _ =>
          rw [show (s.position p).stage = _ from h] at hret'
          cases hret'
    exact ((sessionInv_of_reachable hs).crossings hst).2

/-! ## §2. What is left to do. -/

/-- Steps left in a step of a pipeline loop, with `left` bytes to copy. -/
def LoopPc.todo (c : Params) (left : Nat) : LoopPc → Nat
  | .top => c.bufferSize + 4
  | .waiting => c.bufferSize + 3
  | .sizing => c.bufferSize + 2
  | .copying => left + 1
  | .closing => 0

def SendLoop.rank (c : Params) (l : SendLoop) : Nat :=
  (c.nPipeline - l.i) * (c.bufferSize + 5) + l.pc.todo c (l.sizeToSend - l.copied)

def ReceiveLoop.rank (c : Params) (r : ReceiveLoop) : Nat :=
  (c.nPipeline - r.i) * (c.bufferSize + 5) + r.pc.todo c (r.sizeToReceive - r.copied)

/-- Steps of a whole pipeline loop. -/
def Params.loopLength (c : Params) : Nat := c.nPipeline * (c.bufferSize + 5) + (c.bufferSize + 4)

/-- Where a stage is in its iteration, counted from the end. -/
def Stage.steps (program : Program) : Stage → Nat
  | .first => 21
  | .wait0 => 20
  | .generating => 19
  | .start => 18
  | .create => 17
  | .resize => 16
  | .map => 15
  | .clear =>
      match program with
      | .shm => 14
      | .mmap => 9
  | .arrive1 => 13
  | .wait1 => 12
  | .joinOpen => 11
  | .joinStat => 10
  | .joinMap => 9
  | .arrive2 => 8
  | .wait2 => 7
  | .loop => 6
  | .wait3 => 5
  | .verifying => 4
  | .unmap => 3
  | .unlink => 2
  | .exited | .failed | .aborted | .refused => 0

/-- Steps left in an iteration; `n` are those of the pipeline loop. -/
def Stage.rank (c : Params) (n : Nat) (st : Stage) : Nat :=
  if st = .loop then 6 + n
  else if 6 < st.steps c.program then st.steps c.program + c.loopLength
  else st.steps c.program

def Position.rank (c : Session) (n : Nat) (x : Position) : Nat :=
  (c.total - x.iteration) * (c.loopLength + 19) + x.stage.rank c.toParams n

def State.loopRank (c : Session) (s : State) : Side → Nat
  | .sender => s.sendLoop.rank c.toParams
  | .receiver => s.receiveLoop.rank c.toParams

/-- Steps left to `p`. -/
def State.rankOf (c : Session) (s : State) (p : Side) : Nat :=
  (s.position p).rank c (s.loopRank c p)

/-- Steps left. -/
def State.rank (c : Session) (s : State) : Nat := ∑ p, s.rankOf c p

theorem steps_after : ∀ program p st, after program p st ≠ .failed →
    (after program p st = .start → st = .wait0 ∨ st = .generating) →
    (after program p st).steps program < st.steps program := by
  decide

theorem Stage.rank_lt {c : Params} {n n' : Nat} {st t : Stage}
    (hlt : t.steps c.program < st.steps c.program) (hfrom : st ≠ .loop)
    (hto : t = .loop → n' = c.loopLength) : t.rank c n' < st.rank c n := by
  unfold Stage.rank
  rw [if_neg hfrom]
  by_cases hloop : t = .loop
  · -- the pipeline begins, and all of it is ahead
    subst hloop
    have hsix : Stage.steps c.program .loop = 6 := rfl
    rw [if_pos rfl, hto rfl, if_pos (by omega)]
    omega
  · rw [if_neg hloop]
    split
    next => rw [if_pos (by omega)]; omega
    next =>
      split
      next => omega
      next => exact hlt

/-- **A `Move` outside the pipeline loop lowers what is left.** -/
theorem Move.rank {bad : Prop} {b b' : Rendezvous Side} {x x' : Position} {n n' : Nat}
    (hmove : Move c p bad b x b' x') (hvalid : x.Valid c p) (halive : x'.stage ≠ .failed)
    (hfrom : x.stage ≠ .loop) (hto : x'.stage = .loop → n' = c.loopLength) :
    x'.rank c n' < x.rank c n := by
  have hnext : x'.stage = after c.program p x.stage → x'.iteration = x.iteration →
      (after c.program p x.stage = .start → x.stage = .wait0 ∨ x.stage = .generating) →
      x'.rank c n' < x.rank c n := by
    intro hst hk hstart
    unfold Position.rank
    rw [hk]
    refine Nat.add_lt_add_left (Stage.rank_lt ?_ hfrom hto) _
    rw [hst] at halive ⊢
    exact steps_after _ _ _ halive hstart
  have hend : ∀ {st : Stage}, x.stage = st → st ≠ .unmap → st ≠ .unlink →
      after c.program p x.stage = .start → x.stage = .wait0 ∨ x.stage = .generating := by
    intro st hst hunmap hunlink heq
    by_contra hne
    rw [not_or] at hne
    subst hst
    exact after_ne_start _ _ _ ⟨hne.1, hne.2, hunmap, hunlink⟩ heq
  cases hmove with
  | arrive hst | leave hst | commence hst | enter hst =>
      apply hnext rfl rfl
      apply hend rfl
      all_goals
        intro heq
        rw [heq] at hst
        cases hst
  | quiet hst hrun hstart => exact hnext rfl rfl fun heq => .inr (hstart heq)
  | refuse hst hsmall =>
      refine Nat.add_lt_add_left (Stage.rank_lt (t := .refused) ?_ hfrom nofun) _
      rw [hst]
      exact Nat.succ_pos 18
  | exit hst hge =>
      refine Nat.add_lt_add_left (Stage.rank_lt (t := .exited) ?_ hfrom nofun) _
      rw [hst]
      exact Nat.succ_pos 17
  | again hst hstart =>
      have hlt : x.iteration < c.total := by
        apply hvalid.running
        rcases hst with h | h <;> rw [h] <;> rfl
      refine next_round_lt hlt ?_
      show 18 + c.loopLength < c.loopLength + 19
      omega
  | abort hst =>
      refine Nat.add_lt_add_left (Stage.rank_lt (t := .aborted) ?_ hfrom nofun) _
      rw [hst]
      exact Nat.succ_pos 3
  | fail => exact absurd rfl halive
  | work hst => exact absurd hst hfrom
  | close hst => exact absurd hst hfrom

theorem sendTurn_rank {c : Params} {b b' : Rendezvous Side} (hin : l.i + l.pc.entered ≤ c.nPipeline)
    (hs : sendTurn c stamp b m l = some (b', m', l')) : l'.rank c < l.rank c := by
  obtain ⟨pc, i, bytesSent, sizeToSend, copied⟩ := l
  unfold sendTurn at hs
  cases pc with
  | top | waiting =>
      dsimp only at hs
      split at hs
      next =>
        cases hs
        exact Nat.add_lt_add_left (Nat.lt_succ_self _) _
      next => cases hs
  | sizing =>
      cases hs
      refine Nat.add_lt_add_left ?_ _
      show min (sub64 c.dataSize bytesSent) c.bufferSize - 0 + 1 < c.bufferSize + 2
      omega
  | copying =>
      dsimp only at hs
      split at hs
      next hlt =>
        cases hs
        refine Nat.add_lt_add_left ?_ _
        show sizeToSend - (copied + 1) + 1 < sizeToSend - copied + 1
        omega
      next =>
        cases hs
        exact Nat.add_lt_add_left (Nat.succ_pos _) _
  | closing =>
      cases hs
      exact next_round_lt hin (Nat.lt_succ_self _)

theorem receiveTurn_rank {c : Params} {b b' : Rendezvous Side}
    (hin : r.i + r.pc.entered ≤ c.nPipeline)
    (hsize : r'.pc = .copying → r'.sizeToReceive ≤ c.bufferSize)
    (hs : receiveTurn c b m r = some (b', r')) : r'.rank c < r.rank c := by
  obtain ⟨pc, i, bytesReceived, sizeToReceive, copied, receivedData⟩ := r
  unfold receiveTurn at hs
  cases pc with
  | top | waiting =>
      dsimp only at hs
      split at hs
      next =>
        cases hs
        exact Nat.add_lt_add_left (Nat.lt_succ_self _) _
      next => cases hs
  | sizing =>
      cases hs
      have hle : (m.dataSize (slot .receiver i)).value ≤ c.bufferSize := hsize rfl
      refine Nat.add_lt_add_left ?_ _
      show (m.dataSize (slot .receiver i)).value - 0 + 1 < c.bufferSize + 2
      omega
  | copying =>
      dsimp only at hs
      split at hs
      next hlt =>
        cases hs
        refine Nat.add_lt_add_left ?_ _
        show sizeToReceive - (copied + 1) + 1 < sizeToReceive - copied + 1
        omega
      next =>
        cases hs
        exact Nat.add_lt_add_left (Nat.succ_pos _) _
  | closing =>
      cases hs
      exact next_round_lt hin (Nat.lt_succ_self _)

theorem loopRank_fresh (c : Session) : SendLoop.rank c.toParams .fresh = c.loopLength ∧
    ReceiveLoop.rank c.toParams (.fresh c.toParams) = c.loopLength :=
  ⟨rfl, rfl⟩

/-- Whoever enters its pipeline loop has all of it ahead. -/
theorem loopRank_of_enter (hs : sessionStep c s p = some s') (hfrom : (s.party p).stage ≠ .loop)
    (hto : (s'.party p).stage = .loop) (hinv : SessionInv c s) :
    s'.loopRank c p = c.loopLength := by
  obtain ⟨hmove, _, halive⟩ := hinv.store.position hinv.control hs
  have hwait : (s.party p).stage = .wait2 := by
    rcases hmove.next halive with ⟨hnext, _⟩ | ⟨hloop, _⟩ | ⟨_, hnext⟩ | ⟨_, hnext⟩ | ⟨_, hnext⟩
    · exact after_eq_loop _ _ _ (hnext.symm.trans hto)
    · exact absurd hloop hfrom
    all_goals
      have heq := hnext.symm.trans hto
      cases heq
  unfold sessionStep at hs
  dsimp only at hs
  rw [hwait] at hs
  obtain ⟨_, rfl⟩ := System.guard_cases hs
  cases p with
  | sender => exact (loopRank_fresh c).1
  | receiver => exact (loopRank_fresh c).2

/-- **Every step lowers what is left to its process.** -/
theorem rankOf_lt (hinv : SessionInv c s) (hs : sessionStep c s p = some s') :
    s'.rankOf c p < s.rankOf c p := by
  obtain ⟨hmove, _, halive⟩ := hinv.store.position hinv.control hs
  by_cases hfrom : (s.party p).stage = .loop
  · have hin := (hinv.control.valid p).counted hfrom
    have hloop : ∀ {t : State}, t.party p = s.party p → t.loopRank c p < s.loopRank c p →
        t.rankOf c p < s.rankOf c p := by
      intro t hparty hlt
      have hrank : ∀ u : State, u.party p = s.party p → u.rankOf c p =
          (c.total - (s.party p).iteration) * (c.loopLength + 19) + (6 + u.loopRank c p) := by
        intro u hu
        unfold State.rankOf Position.rank Stage.rank
        rw [show (u.position p).stage = .loop from (congrArg Party.stage hu).trans hfrom,
          show (u.position p).iteration = (s.party p).iteration from congrArg Party.iteration hu,
          if_pos rfl]
      rw [hrank t hparty, hrank s rfl]
      omega
    cases sessionStep_cases hs with
    | send id b m l hst hmap hturn => exact hloop rfl (sendTurn_rank hin hturn)
    | receive id b r hst hmap hturn =>
        refine hloop rfl (receiveTurn_rank hin (fun hpc => ?_) hturn)
        have hgot := (hinv.step hs).memory.got
          (by show (s.party .receiver).stage.receiving = true; rw [hst]; rfl)
        have hsized := hgot.sized (.inl hpc)
        have hle := c.off_sub_le r.i
        show r.sizeToReceive ≤ c.bufferSize
        exact Nat.le_trans (Nat.le_of_eq hsized) hle
    | close hst =>
        -- out of the loop, whatever is left of it
        have hposition : (s.arrive p (after c.program p (s.party p).stage)).position p =
            ⟨.wait3, (s.party p).iteration, s.loopI p, s.loopPc p⟩ := by
          rw [hst, after_loop]
          exact go_position_self s p .wait3
        unfold State.rankOf
        rw [hposition]
        refine Nat.add_lt_add_left ?_ _
        rw [show (s.position p).stage = .loop from hst]
        exact Nat.lt_of_lt_of_le (Nat.lt_succ_self 5) (Nat.le_add_right 6 _)
    | fail hbad => exact absurd hbad (hinv.store.good hinv.control p)
    | leave hst =>
        rw [hfrom] at hst
        rcases hst with hst | hst <;> cases hst
    | arrive hst | generate hst | refuse hst | begin hst | exit hst | create hst | resize _ hst | map _ hst | clear _ hst
    | joinOpen _ hst | joinStat _ hst | joinMap _ hst | enter hst | verify hst | abort hst
    | unmap hst | unlink hst =>
        rw [hfrom] at hst
        cases hst
  · refine hmove.rank (hinv.control.valid p) halive hfrom fun hto => ?_
    exact loopRank_of_enter hs hfrom hto hinv

theorem Unmoved.rankOf (h : Unmoved s s' q) : s'.rankOf c q = s.rankOf c q := by
  have hloop : s'.loopRank c q = s.loopRank c q := by
    cases q with
    | sender => exact congrArg (SendLoop.rank c.toParams) (h.sendLoop rfl)
    | receiver => exact congrArg (ReceiveLoop.rank c.toParams) (h.receiveLoop rfl)
  unfold State.rankOf
  rw [h.position, hloop]

theorem ranked (c : Session) : (sessionSystem c).Ranked (State.rank c) := by
  intro s p s' hreach hs _
  have hinv := sessionInv_of_reachable hreach
  obtain ⟨_, hother, _⟩ := hinv.store.position hinv.control hs
  exact sum_rank_lt (rankOf_lt hinv hs) fun q hq => (hother q hq).rankOf

/-! ## §3. The whole benchmark. -/

theorem protocol (hgood : verifyDataReceived c.payload c.dataSize = some true) :
    Protocol (client c) c.crossings (State.rank c) where
  lawful := lawful c
  counted := counted c
  ranked := ranked c
  progress s hreach hmore := by
    have hinv := sessionInv_of_reachable hreach
    refine hinv.progress hgood fun hall => hmore fun p => ?_
    show (s.position p).status = .returned
    unfold Position.status
    rw [show (s.position p).stage = .exited from hall p]

/-- What holds of the processes at every moment. -/
structure Undisturbed (c : Session) (s : State) : Prop where
  /-- No call fails. -/
  alive : ∀ p, (s.party p).stage ≠ .failed
  /-- `GenerateDataToSend` succeeds. -/
  generated : ∀ p, (s.party p).stage ≠ .refused
  /-- No verification fails. -/
  verified : ∀ p, (s.party p).stage ≠ .aborted
  /-- What is verified is what was sent. -/
  whole : (s.party .receiver).stage = .verifying → s.receiveLoop.receivedData = c.payload

theorem SessionInv.undisturbed (h : SessionInv c s)
    (hgood : verifyDataReceived c.payload c.dataSize = some true)
    (hsum : c.dataSize + c.bufferSize < wordSize) : Undisturbed c s where
  alive p := by
    have hfacts : ∀ program p st, OnRoute program p st → st ≠ .failed := by decide
    exact hfacts _ _ _ (h.control.valid p).onRoute
  generated p := (h.not_aborted hgood p).2
  verified p := (h.not_aborted hgood p).1
  whole hst := by
    have hn := c.nPipeline_eq (by omega) (by omega)
    have hgot := h.memory.got (by rw [hst]; rfl)
    exact hgot.payload (h.memory.receiveOver (by rw [hst]; rfl)) hn

end Akbench.SharedMemory
