/-
  Akbench.SharedMemory.Moves
  ──────────────────────────
  **THE STEPS OF A PROCESS, the shared objects aside.**

  `PartyStep` is all that a step of a process can do.  A process is at a
  `Position`: its stage, its iteration and its place in the pipeline loop.
  `Move` is all that a step can do to the barrier and to the position, and
  `sessionStep_move` says so: what holds of positions is shown of `Move` alone.
-/
import Akbench.SharedMemory.Session

namespace Akbench.SharedMemory

/-! ## §1. Positions. -/

structure Position where
  stage : Stage
  iteration : Nat
  /-- The step of the pipeline loop. -/
  i : Nat
  pc : LoopPc
  deriving DecidableEq, Repr

/-- The step `p`'s loop is in. -/
def State.loopI (s : State) : Side → Nat
  | .sender => s.sendLoop.i
  | .receiver => s.receiveLoop.i

/-- Where in it `p`'s loop is. -/
def State.loopPc (s : State) : Side → LoopPc
  | .sender => s.sendLoop.pc
  | .receiver => s.receiveLoop.pc

def State.position (s : State) (p : Side) : Position :=
  ⟨(s.party p).stage, (s.party p).iteration, s.loopI p, s.loopPc p⟩

/-- Stages that enter the barrier. -/
def Stage.arriving : Stage → Bool
  | .first | .arrive1 | .arrive2 => true
  | _ => false

/-- Stages inside a barrier whose end changes nothing else. -/
def Stage.leaving : Stage → Bool
  | .wait1 | .wait3 => true
  | _ => false

/-- The stages that a process takes one after the other without the
barrier. -/
def Stage.quiet : Stage → Bool
  | .generating | .start | .create | .resize | .map | .clear | .joinOpen | .joinStat | .joinMap
  | .verifying | .unmap => true
  | _ => false

/-- `p`'s next call fails: it is on a descriptor, a pointer or a name that
stands for nothing. -/
def State.Failing (s : State) (p : Side) : Prop :=
  (((s.party p).stage = .resize ∨ (s.party p).stage = .map ∨ (s.party p).stage = .joinStat ∨
      (s.party p).stage = .joinMap) ∧ (s.party p).fd = none) ∨
    (((s.party p).stage = .clear ∨ (s.party p).stage = .loop) ∧ (s.party p).mapping = none) ∨
    ((s.party p).stage = .joinOpen ∧ s.name = none)

variable {c : Session} {s s' : State} {p q : Side} {b b' : Rendezvous Side} {bad : Prop}

/-! ## §2. What a step can do. -/

/-- A step of a process, by the stage it is in. -/
inductive PartyStep (c : Session) (s : State) : Side → State → Prop where
  | arrive {p : Side} (hst : (s.party p).stage.arriving = true) :
      PartyStep c s p (s.arrive p (after c.program p (s.party p).stage))
  | leave {p : Side} (hst : (s.party p).stage = .wait0 ∨ (s.party p).stage.leaving = true)
      (hcan : s.barrier.CanLeave p) :
      PartyStep c s p (s.leave p (after c.program p (s.party p).stage))
  | generate {p : Side} (hst : (s.party p).stage = .generating)
      (hsize : checksumSize < c.dataSize) :
      PartyStep c s p (s.go p (after c.program p (s.party p).stage))
  | refuse {p : Side} (hst : (s.party p).stage = .generating)
      (hsmall : c.dataSize ≤ checksumSize) : PartyStep c s p (s.go p .refused)
  | begin {p : Side} (hst : (s.party p).stage = .start) (hlt : (s.party p).iteration < c.total) :
      PartyStep c s p (s.go p (after c.program p (s.party p).stage))
  | exit {p : Side} (hst : (s.party p).stage = .start) (hge : c.total ≤ (s.party p).iteration) :
      PartyStep c s p (s.go p .exited)
  | create {p : Side} (hst : (s.party p).stage = .create) :
      PartyStep c s p ((openCreate c s p).1.become p { s.party p with
        stage := after c.program p (s.party p).stage
        fd := some (openCreate c s p).2 })
  | resize {p : Side} (id : Nat) (hst : (s.party p).stage = .resize)
      (hid : (s.party p).fd = some id) :
      PartyStep c s p ((s.store id { s.object id with size := c.totalSize }).go p
        (after c.program p (s.party p).stage))
  | map {p : Side} (id : Nat) (hst : (s.party p).stage = .map)
      (hid : (s.party p).fd = some id) :
      PartyStep c s p (s.become p { s.party p with
        stage := after c.program p (s.party p).stage
        mapping := some id
        length := c.totalSize })
  | clear {p : Side} (id : Nat) (hst : (s.party p).stage = .clear)
      (hid : (s.party p).mapping = some id) :
      PartyStep c s p
        ((s.store id { s.object id with memory := Buffer.zero (s.party p).iteration }).go p
          (after c.program p (s.party p).stage))
  | joinOpen {p : Side} (id : Nat) (hst : (s.party p).stage = .joinOpen)
      (hid : s.name = some id) :
      PartyStep c s p (s.become p { s.party p with
        stage := after c.program p (s.party p).stage
        fd := some id })
  | joinStat {p : Side} (id : Nat) (hst : (s.party p).stage = .joinStat)
      (hid : (s.party p).fd = some id) :
      PartyStep c s p (s.become p { s.party p with
        stage := after c.program p (s.party p).stage
        stSize := (s.object id).size })
  | joinMap {p : Side} (id : Nat) (hst : (s.party p).stage = .joinMap)
      (hid : (s.party p).fd = some id) :
      PartyStep c s p (s.become p { s.party p with
        stage := after c.program p (s.party p).stage
        mapping := some id
        length := joinSize c (s.party p) })
  /-- Into the pipeline loop. -/
  | enter {p : Side} (hst : (s.party p).stage = .wait2) (hcan : s.barrier.CanLeave p) :
      PartyStep c s p (resetLoop c (s.leave p (after c.program p (s.party p).stage)) p)
  | send (id : Nat) (b : Rendezvous Side) (m : Buffer) (l : SendLoop)
      (hst : (s.party .sender).stage = .loop) (hmap : (s.party .sender).mapping = some id)
      (hturn : sendTurn c.toParams (s.party .sender).iteration s.barrier (s.object id).memory
        s.sendLoop = some (b, m, l)) :
      PartyStep c s .sender { s.store id { s.object id with memory := m } with
        barrier := b
        sendLoop := l }
  | receive (id : Nat) (b : Rendezvous Side) (l : ReceiveLoop)
      (hst : (s.party .receiver).stage = .loop) (hmap : (s.party .receiver).mapping = some id)
      (hturn : receiveTurn c.toParams s.barrier (s.object id).memory s.receiveLoop =
        some (b, l)) :
      PartyStep c s .receiver { s with barrier := b, receiveLoop := l }
  /-- Out of the pipeline loop, into the barrier after it. -/
  | close {p : Side} (hst : (s.party p).stage = .loop)
      (hsend : p = .sender → s.sendLoop.Over c.toParams)
      (hreceive : p = .receiver → s.receiveLoop.Over c.toParams) :
      PartyStep c s p (s.arrive p (after c.program p (s.party p).stage))
  | verify {p : Side} (hst : (s.party p).stage = .verifying)
      (hok : verifyDataReceived s.receiveLoop.receivedData c.dataSize = some true) :
      PartyStep c s p (s.go p (after c.program p (s.party p).stage))
  | abort {p : Side} (hst : (s.party p).stage = .verifying)
      (hbad : verifyDataReceived s.receiveLoop.receivedData c.dataSize ≠ some true) :
      PartyStep c s p (s.go p .aborted)
  | unmap {p : Side} (hst : (s.party p).stage = .unmap) :
      PartyStep c s p (s.goOn p { s.party p with fd := none, mapping := none }
        (after c.program p (s.party p).stage))
  | unlink {p : Side} (hst : (s.party p).stage = .unlink) :
      PartyStep c s p ({ s with name := none }.goOn p (s.party p)
        (after c.program p (s.party p).stage))
  | fail {p : Side} (hbad : s.Failing p) : PartyStep c s p (s.go p .failed)

/-- What a call makes of something, and of nothing. -/
theorem use_cases {id : Option Nat} {call : Nat → State} (hs : s.use p id call = some s') :
    (∃ n, id = some n ∧ s' = call n) ∨ (id = none ∧ s' = s.go p .failed) := by
  unfold State.use at hs
  split at hs
  next n =>
    injection hs with hs
    exact .inl ⟨n, rfl, hs.symm⟩
  next =>
    injection hs with hs
    exact .inr ⟨rfl, hs.symm⟩

/-- **The steps of the pipeline loop**, and the first step after it. -/
theorem loopStep_cases (hst : (s.party p).stage = .loop)
    (hs : loopStep c s p (after c.program p (s.party p).stage) = some s') :
    PartyStep c s p s' := by
  unfold loopStep at hs
  split at hs
  next hmap =>
    injection hs with hs
    subst hs
    exact .fail (.inr (.inl ⟨.inr hst, hmap⟩))
  next id hmap =>
    cases p with
    | sender =>
        dsimp only at hs
        split at hs
        next hover =>
          injection hs with hs
          subst hs
          exact .close hst (fun _ => hover) nofun
        next =>
          split at hs
          next b m l hturn =>
            injection hs with hs
            subst hs
            exact .send id b m l hst hmap hturn
          next => cases hs
    | receiver =>
        dsimp only at hs
        split at hs
        next hover =>
          injection hs with hs
          subst hs
          exact .close hst nofun (fun _ => hover)
        next =>
          split at hs
          next b l hturn =>
            injection hs with hs
            subst hs
            exact .receive id b l hst hmap hturn
          next => cases hs

/-- **Every step is a `PartyStep`.** -/
theorem sessionStep_cases (hs : sessionStep c s p = some s') : PartyStep c s p s' := by
  unfold sessionStep at hs
  dsimp only at hs
  split at hs
  -- `first`, `arrive1`, `arrive2`
  iterate 3
    next hst =>
      injection hs with hs
      subst hs
      exact .arrive (congrArg Stage.arriving hst)
  -- `wait0`, `wait1`, `wait3`
  next hst =>
    obtain ⟨hcan, rfl⟩ := System.guard_cases hs
    exact .leave (.inl hst) hcan
  iterate 2
    next hst =>
      obtain ⟨hcan, rfl⟩ := System.guard_cases hs
      exact .leave (.inr (congrArg Stage.leaving hst)) hcan
  next hst =>
    obtain ⟨hsize, rfl⟩ | ⟨hsmall, rfl⟩ := System.branch_cases hs
    · exact .generate hst hsize
    · exact .refuse hst (Nat.le_of_not_lt hsmall)
  next hst =>
    obtain ⟨hlt, rfl⟩ | ⟨hge, rfl⟩ := System.branch_cases hs
    · exact .begin hst hlt
    · exact .exit hst (Nat.le_of_not_lt hge)
  next hst =>
    injection hs with hs
    subst hs
    exact .create hst
  -- `resize`, `map`, `clear`, `joinOpen`, `joinStat`, `joinMap`
  next hst =>
    obtain ⟨id, hid, rfl⟩ | ⟨hid, rfl⟩ := use_cases hs
    · exact .resize id hst hid
    · exact .fail (.inl ⟨.inl hst, hid⟩)
  next hst =>
    obtain ⟨id, hid, rfl⟩ | ⟨hid, rfl⟩ := use_cases hs
    · exact .map id hst hid
    · exact .fail (.inl ⟨.inr (.inl hst), hid⟩)
  next hst =>
    obtain ⟨id, hid, rfl⟩ | ⟨hid, rfl⟩ := use_cases hs
    · exact .clear id hst hid
    · exact .fail (.inr (.inl ⟨.inl hst, hid⟩))
  next hst =>
    obtain ⟨id, hid, rfl⟩ | ⟨hid, rfl⟩ := use_cases hs
    · exact .joinOpen id hst hid
    · exact .fail (.inr (.inr ⟨hst, hid⟩))
  next hst =>
    obtain ⟨id, hid, rfl⟩ | ⟨hid, rfl⟩ := use_cases hs
    · exact .joinStat id hst hid
    · exact .fail (.inl ⟨.inr (.inr (.inl hst)), hid⟩)
  next hst =>
    obtain ⟨id, hid, rfl⟩ | ⟨hid, rfl⟩ := use_cases hs
    · exact .joinMap id hst hid
    · exact .fail (.inl ⟨.inr (.inr (.inr hst)), hid⟩)
  next hst =>
    obtain ⟨hcan, rfl⟩ := System.guard_cases hs
    exact .enter hst hcan
  next hst => exact loopStep_cases hst hs
  next hst =>
    obtain ⟨hok, rfl⟩ | ⟨hbad, rfl⟩ := System.branch_cases hs
    · exact .verify hst hok
    · exact .abort hst hbad
  next hst =>
    injection hs with hs
    subst hs
    exact .unmap hst
  next hst =>
    injection hs with hs
    subst hs
    exact .unlink hst
  all_goals cases hs

/-! ## §3. What it does to barrier and position. -/

/-- What one step of a process does to the barrier and to its position;
`bad` says when it may fail. -/
inductive Move (c : Session) (p : Side) (bad : Prop) (b : Rendezvous Side) :
    Position → Rendezvous Side → Position → Prop where
  | arrive {x : Position} (hst : x.stage.arriving = true) :
      Move c p bad b x (b.arrive p) { x with stage := after c.program p x.stage }
  | leave {x : Position} (hst : x.stage.leaving = true) (hcan : b.CanLeave p) :
      Move c p bad b x (b.leave p) { x with stage := after c.program p x.stage }
  /-- Out of the barrier ahead of all iterations. -/
  | commence {x : Position} (hst : x.stage = .wait0) (hcan : b.CanLeave p) :
      Move c p bad b x (b.leave p) { x with stage := after c.program p x.stage }
  /-- Into the pipeline loop. -/
  | enter {x : Position} (hst : x.stage = .wait2) (hcan : b.CanLeave p) :
      Move c p bad b x (b.leave p) { x with stage := after c.program p x.stage, i := 0, pc := .top }
  | quiet {x : Position} (hst : x.stage.quiet = true)
      (hrun : x.stage = .start → x.iteration < c.total)
      (hnext : after c.program p x.stage = .start → x.stage = .generating) :
      Move c p bad b x b { x with stage := after c.program p x.stage }
  | refuse {x : Position} (hst : x.stage = .generating) (hsmall : c.dataSize ≤ checksumSize) :
      Move c p bad b x b { x with stage := .refused }
  | exit {x : Position} (hst : x.stage = .start) (hge : c.total ≤ x.iteration) :
      Move c p bad b x b { x with stage := .exited }
  /-- To the next iteration. -/
  | again {x : Position} (hst : x.stage = .unmap ∨ x.stage = .unlink)
      (hnext : after c.program p x.stage = .start) :
      Move c p bad b x b { x with stage := .start, iteration := x.iteration + 1 }
  | abort {x : Position} (hst : x.stage = .verifying) :
      Move c p bad b x b { x with stage := .aborted }
  | fail {x : Position} (hbad : bad) : Move c p bad b x b { x with stage := .failed }
  /-- Inside the pipeline loop. -/
  | work {x : Position} {b' : Rendezvous Side} {pc : LoopPc} {i : Nat} (hst : x.stage = .loop)
      (hmove : LoopMove c.toParams p b x.pc x.i b' pc i) :
      Move c p bad b x b' { x with i := i, pc := pc }
  /-- Out of the pipeline loop, into the barrier after it. -/
  | close {x : Position} (hst : x.stage = .loop) (hpc : x.pc = .top)
      (hn : c.nPipeline ≤ x.i) :
      Move c p bad b x (b.arrive p) { x with stage := after c.program p x.stage }

/-- `q` and its loop stay as they are. -/
structure Unmoved (s s' : State) (q : Side) : Prop where
  party : s'.party q = s.party q
  sendLoop : q = .sender → s'.sendLoop = s.sendLoop
  receiveLoop : q = .receiver → s'.receiveLoop = s.receiveLoop

theorem Unmoved.position (h : Unmoved s s' q) : s'.position q = s.position q := by
  unfold State.position
  rw [h.party]
  cases q with
  | sender =>
      show Position.mk _ _ s'.sendLoop.i s'.sendLoop.pc = _
      rw [h.sendLoop rfl]
      rfl
  | receiver =>
      show Position.mk _ _ s'.receiveLoop.i s'.receiveLoop.pc = _
      rw [h.receiveLoop rfl]
      rfl

/-- A step outside the pipeline loop moves one process. -/
theorem moved {x : Party} (hparty : s'.party = Function.update s.party p x)
    (hsend : s'.sendLoop = s.sendLoop) (hreceive : s'.receiveLoop = s.receiveLoop)
    (hmove : Move c p (s.Failing p) s.barrier (s.position p) s'.barrier
      ⟨x.stage, x.iteration, s.loopI p, s.loopPc p⟩) :
    Move c p (s.Failing p) s.barrier (s.position p) s'.barrier (s'.position p) ∧
      ∀ q, q ≠ p → Unmoved s s' q := by
  have hi : s'.loopI = s.loopI := by
    funext q
    cases q with
    | sender => exact congrArg SendLoop.i hsend
    | receiver => exact congrArg ReceiveLoop.i hreceive
  have hpc : s'.loopPc = s.loopPc := by
    funext q
    cases q with
    | sender => exact congrArg SendLoop.pc hsend
    | receiver => exact congrArg ReceiveLoop.pc hreceive
  have hself : s'.position p = ⟨x.stage, x.iteration, s.loopI p, s.loopPc p⟩ := by
    unfold State.position
    rw [hi, hpc, hparty, Function.update_self]
  rw [hself]
  refine ⟨hmove, ?_⟩
  intro q hq
  refine ⟨?_, fun _ => hsend, fun _ => hreceive⟩
  rw [hparty, Function.update_of_ne hq]

/-- Into the pipeline loop. -/
theorem moved_of_reset (hst : (s.party p).stage = .wait2) (hcan : s.barrier.CanLeave p)
    (hs : s' = resetLoop c (s.leave p (after c.program p (s.party p).stage)) p) :
    Move c p (s.Failing p) s.barrier (s.position p) s'.barrier (s'.position p) ∧
      ∀ q, q ≠ p → Unmoved s s' q := by
  subst hs
  have hmove : Move c p (s.Failing p) s.barrier (s.position p) _ _ := .enter hst hcan
  have hparty : (s.leave p (after c.program p (s.party p).stage)).party p =
      { s.party p with stage := after c.program p (s.party p).stage } := Function.update_self ..
  have hne : ∀ q, q ≠ p → (s.leave p (after c.program p (s.party p).stage)).party q = s.party q :=
    fun q hq => Function.update_of_ne hq ..
  cases p with
  | sender =>
      constructor
      · show Move c .sender _ _ _ _ ⟨((s.leave .sender _).party .sender).stage,
          ((s.leave .sender _).party .sender).iteration, 0, .top⟩
        rw [hparty]
        exact hmove
      · intro q hq
        exact ⟨hne q hq, fun heq => absurd heq hq, fun _ => rfl⟩
  | receiver =>
      constructor
      · show Move c .receiver _ _ _ _ ⟨((s.leave .receiver _).party .receiver).stage,
          ((s.leave .receiver _).party .receiver).iteration, 0, .top⟩
        rw [hparty]
        exact hmove
      · intro q hq
        exact ⟨hne q hq, fun _ => rfl, fun heq => absurd heq hq⟩

theorem openCreate_same (c : Session) (s : State) (p : Side) :
    (openCreate c s p).1.party = s.party ∧ (openCreate c s p).1.barrier = s.barrier ∧
      (openCreate c s p).1.sendLoop = s.sendLoop ∧
      (openCreate c s p).1.receiveLoop = s.receiveLoop := by
  unfold openCreate
  split
  next => exact ⟨rfl, rfl, rfl, rfl⟩
  next =>
    split
    next => exact ⟨rfl, rfl, rfl, rfl⟩
    next => exact ⟨rfl, rfl, rfl, rfl⟩

/-- Only the last stage of an iteration leads to the next one, and the stages
ahead of all iterations to the first. -/
theorem after_ne_start : ∀ program p st,
    st ≠ .wait0 ∧ st ≠ .generating ∧ st ≠ .unmap ∧ st ≠ .unlink → after program p st ≠ .start := by
  decide

/-- A stage of the iteration that leads on to another one. -/
theorem Move.on {x : Position} (hst : x.stage.quiet = true) (hne : x.stage ≠ .start)
    (hend : x.stage ≠ .unmap) :
    Move c p bad b x b { x with stage := after c.program p x.stage } := by
  apply Move.quiet hst
  · intro heq
    exact absurd heq hne
  · intro hstart
    by_contra hgen
    refine absurd hstart (after_ne_start _ _ _ ⟨?_, hgen, hend, ?_⟩)
    all_goals
      intro heq
      rw [heq] at hst
      cases hst

/-- **Every step of a process is a `Move`.** -/
theorem sessionStep_move (hroute : (s.party p).stage = .unlink → after c.program p .unlink = .start)
    (hs : sessionStep c s p = some s') :
    Move c p (s.Failing p) s.barrier (s.position p) s'.barrier (s'.position p) ∧
      ∀ q, q ≠ p → Unmoved s s' q := by
  have hon : ∀ {st : Stage}, (s.party p).stage = st → st.quiet = true → st ≠ .start →
      st ≠ .unmap → Move c p (s.Failing p) s.barrier (s.position p) s.barrier
        { s.position p with stage := after c.program p (s.party p).stage } := by
    intro st hst hquiet hne hend
    subst hst
    exact .on hquiet hne hend
  cases sessionStep_cases hs with
  | arrive hst => exact moved rfl rfl rfl (.arrive hst)
  | leave hst hcan =>
      obtain hst | hst := hst
      · exact moved rfl rfl rfl (.commence hst hcan)
      · exact moved rfl rfl rfl (.leave hst hcan)
  | generate hst hsize => exact moved rfl rfl rfl (hon hst rfl nofun nofun)
  | refuse hst hsmall => exact moved rfl rfl rfl (.refuse hst hsmall)
  | begin hst hlt =>
      have hquiet : (s.party p).stage.quiet = true := by rw [hst]; rfl
      have hne : after c.program p (s.party p).stage ≠ .start := by
        rw [hst]
        exact after_ne_start _ _ _ ⟨nofun, nofun, nofun, nofun⟩
      exact moved rfl rfl rfl (.quiet hquiet (fun _ => hlt) fun heq => absurd heq hne)
  | exit hst hge => exact moved rfl rfl rfl (.exit hst hge)
  | create hst =>
      obtain ⟨hparty, hb, hsend, hreceive⟩ := openCreate_same c s p
      refine moved (x := ?_) ?_ hsend hreceive ?_
      · exact { s.party p with
          stage := after c.program p (s.party p).stage
          fd := some (openCreate c s p).2 }
      · show Function.update (openCreate c s p).1.party p _ = _
        rw [hparty]
      · show Move c p (s.Failing p) s.barrier (s.position p) (openCreate c s p).1.barrier _
        rw [hb]
        exact hon hst rfl nofun nofun
  | resize id hst hid => exact moved rfl rfl rfl (hon hst rfl nofun nofun)
  | map id hst hid => exact moved rfl rfl rfl (hon hst rfl nofun nofun)
  | clear id hst hid => exact moved rfl rfl rfl (hon hst rfl nofun nofun)
  | joinOpen id hst hid => exact moved rfl rfl rfl (hon hst rfl nofun nofun)
  | joinStat id hst hid => exact moved rfl rfl rfl (hon hst rfl nofun nofun)
  | joinMap id hst hid => exact moved rfl rfl rfl (hon hst rfl nofun nofun)
  | enter hst hcan => exact moved_of_reset hst hcan rfl
  | send id b m l hst hmap hturn =>
      refine ⟨.work hst (sendTurn_move hturn), ?_⟩
      intro q hq
      exact ⟨rfl, fun heq => absurd heq hq, fun _ => rfl⟩
  | receive id b l hst hmap hturn =>
      refine ⟨.work hst (receiveTurn_move hturn), ?_⟩
      intro q hq
      exact ⟨rfl, fun _ => rfl, fun heq => absurd heq hq⟩
  | close hst hsend hreceive =>
      cases p with
      | sender => exact moved rfl rfl rfl (.close hst (hsend rfl).1 (hsend rfl).2)
      | receiver => exact moved rfl rfl rfl (.close hst (hreceive rfl).1 (hreceive rfl).2)
  | verify hst hok => exact moved rfl rfl rfl (hon hst rfl nofun nofun)
  | abort hst hbad => exact moved rfl rfl rfl (.abort hst)
  | unmap hst =>
      unfold State.goOn
      split
      next hend =>
        rw [hend]
        exact moved rfl rfl rfl (.again (.inl hst) hend)
      next hend =>
        have hquiet : (s.party p).stage.quiet = true := by rw [hst]; rfl
        have hne : (s.party p).stage ≠ .start := by rw [hst]; nofun
        exact moved rfl rfl rfl
          (.quiet hquiet (fun heq => absurd heq hne) fun heq => absurd heq hend)
  | unlink hst =>
      have hend : after c.program p (s.party p).stage = .start := by
        rw [hst]
        exact hroute hst
      unfold State.goOn
      rw [if_pos hend, hend]
      exact moved rfl rfl rfl (.again (.inr hst) hend)
  | fail hbad => exact moved rfl rfl rfl (.fail hbad)

end Akbench.SharedMemory
