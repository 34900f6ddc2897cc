/-
  Akbench.SharedMemory.Freshness
  ──────────────────────────────
  **SESSIONS OF `shm_bandwidth` AND `mmap_bandwidth` STAY FRESH.**

  What the three layers of `SessionInv` mean for a run: the processes cross
  the barrier equally often, and neither waits in vain for one that has not
  aborted; each works, from its `mmap` to the end of its loop, on the object
  set up in its own iteration; and nothing of an earlier iteration is read.
-/
import Akbench.SharedMemory.Memory

namespace Akbench.SharedMemory

variable {c : Session} {s s' : State} {p q : Side}

/-! ## §1. Progress. -/

/-- Inside a `barrier.Wait()`. -/
def State.Waiting (s : State) (p : Side) : Prop :=
  (s.party p).stage = .wait0 ∨ (s.party p).stage = .wait1 ∨ (s.party p).stage = .wait2 ∨
    (s.party p).stage = .wait3 ∨ ((s.party p).stage = .loop ∧ s.loopPc p = .waiting)

/-- The process is over, one way or another. -/
def Stage.stopped : Stage → Bool
  | .exited | .failed | .aborted | .refused => true
  | _ => false

theorem use_isSome (s : State) (p : Side) (id : Option Nat) (call : Nat → State) :
    ∃ s', s.use p id call = some s' := by
  unfold State.use
  split
  next id => exact ⟨_, rfl⟩
  next => exact ⟨_, rfl⟩

/-- Outside the pipeline loop only a closed barrier blocks. -/
theorem sessionStep_isSome (c : Session) (hst : (s.party p).stage.stopped = false)
    (hloop : (s.party p).stage ≠ .loop) (hcan : s.Waiting p → s.barrier.CanLeave p) :
    ∃ s', sessionStep c s p = some s' := by
  unfold sessionStep
  dsimp only
  split
  -- `first`, `arrive1`, `arrive2`
  iterate 3
    next => exact ⟨_, rfl⟩
  -- `wait0`, `wait1`, `wait3`
  next hw => exact ⟨_, if_pos (hcan (.inl hw))⟩
  next hw => exact ⟨_, if_pos (hcan (.inr (.inl hw)))⟩
  next hw => exact ⟨_, if_pos (hcan (.inr (.inr (.inr (.inl hw)))))⟩
  -- `generating`, `start`
  iterate 2
    next =>
      split
      next => exact ⟨_, rfl⟩
      next => exact ⟨_, rfl⟩
  next => exact ⟨_, rfl⟩
  -- `resize`, `map`, `clear`, `joinOpen`, `joinStat`, `joinMap`
  iterate 6
    next => exact use_isSome s p _ _
  next hw => exact ⟨_, if_pos (hcan (.inr (.inr (.inl hw))))⟩
  next hl => exact absurd hl hloop
  next =>
    split
    next => exact ⟨_, rfl⟩
    next => exact ⟨_, rfl⟩
  next => exact ⟨_, rfl⟩
  next => exact ⟨_, rfl⟩
  -- `exited`, `failed`, `aborted`, `refused`
  iterate 4
    next hw =>
      rw [hw] at hst
      cases hst

/-- No `Move` outside the pipeline loop leaves a process where it is. -/
theorem Move.ne {bad : Prop} {b b' : Rendezvous Side} {x x' : Position}
    (hmove : Move c p bad b x b' x') (hroute : OnRoute c.program p x.stage) (hgood : ¬ bad)
    (hloop : x.stage ≠ .loop) : x' ≠ x := by
  have hfacts : ∀ program p st, after program p st = st → st = .failed := by decide
  have halive := hmove.alive hroute hgood
  have hafter : x'.stage = after c.program p x.stage → x' ≠ x := by
    intro hst heq
    rw [heq] at hst halive
    exact halive (hfacts _ _ _ hst.symm)
  cases hmove with
  | arrive hst => exact hafter rfl
  | leave hst hcan => exact hafter rfl
  | commence hst hcan => exact hafter rfl
  | enter hst hcan => exact hafter rfl
  | quiet hst hrun hstart => exact hafter rfl
  | refuse hst | exit hst =>
      intro heq
      rw [← heq] at hst
      cases hst
  | again hst hstart =>
      intro heq
      exact absurd (congrArg Position.iteration heq) (Nat.succ_ne_self x.iteration)
  | abort hst =>
      intro heq
      rw [← heq] at hst
      cases hst
  | fail hbad => exact absurd hbad hgood
  | work hst => exact absurd hst hloop
  | close hst => exact absurd hst hloop

/-- **A process can move**, unless it is over or waits at a closed
barrier. -/
theorem SessionInv.moves (h : SessionInv c s) (hst : (s.party p).stage.stopped = false)
    (hcan : s.Waiting p → s.barrier.CanLeave p) : (sessionSystem c).CanProgress s := by
  by_cases hloop : (s.party p).stage = .loop
  · obtain ⟨id, -, hmap, -⟩ := h.store.mapping_of_loop h.control hloop
    have hstep : sessionStep c s p = loopStep c s p (after c.program p (s.party p).stage) := by
      unfold sessionStep
      simp only [hloop]
    cases p with
    | sender =>
        by_cases hover : s.sendLoop.Over c.toParams
        · refine ⟨.sender,
            s.arrive .sender (after c.program .sender (s.party .sender).stage), ?_, ?_⟩
          · show sessionStep c s .sender = _
            rw [hstep]
            unfold loopStep
            simp only [hmap]
            exact if_pos hover
          · intro heq
            have hstage := congrArg (fun t : State => (t.party .sender).stage) heq
            unfold State.arrive State.go at hstage
            rw [State.become_self, hloop, after_loop] at hstage
            cases hstage
        · obtain ⟨b, m, l, hturn, hne⟩ := sendTurn_progress c.toParams
            (s.party .sender).iteration (s.object id).memory hover
            fun hw => hcan (.inr (.inr (.inr (.inr ⟨hloop, hw⟩))))
          refine ⟨.sender, { s.store id { s.object id with memory := m } with
            barrier := b, sendLoop := l }, ?_, ?_⟩
          · show sessionStep c s .sender = _
            rw [hstep]
            unfold loopStep
            simp only [hmap]
            rw [if_neg hover, hturn]
          · intro heq
            exact hne (congrArg State.sendLoop heq)
    | receiver =>
        by_cases hover : s.receiveLoop.Over c.toParams
        · refine ⟨.receiver,
            s.arrive .receiver (after c.program .receiver (s.party .receiver).stage), ?_, ?_⟩
          · show sessionStep c s .receiver = _
            rw [hstep]
            unfold loopStep
            simp only [hmap]
            exact if_pos hover
          · intro heq
            have hstage := congrArg (fun t : State => (t.party .receiver).stage) heq
            unfold State.arrive State.go at hstage
            rw [State.become_self, hloop, after_loop] at hstage
            cases hstage
        · obtain ⟨b, l, hturn, hne⟩ := receiveTurn_progress c.toParams
            (s.object id).memory hover
            fun hw => hcan (.inr (.inr (.inr (.inr ⟨hloop, hw⟩))))
          refine ⟨.receiver, { s with barrier := b, receiveLoop := l }, ?_, ?_⟩
          · show sessionStep c s .receiver = _
            rw [hstep]
            unfold loopStep
            simp only [hmap]
            rw [if_neg hover, hturn]
          · intro heq
            exact hne (congrArg State.receiveLoop heq)
  · obtain ⟨s', hs⟩ := sessionStep_isSome c hst hloop hcan
    obtain ⟨hmove, -, -⟩ := h.store.position h.control hs
    refine ⟨p, s', hs, ?_⟩
    rintro rfl
    exact hmove.ne (h.control.valid p).onRoute (h.store.good h.control p) hloop rfl

/-- A process that has exited holds the other one up no more. -/
theorem SessionInv.canLeave_of_exited (h : SessionInv c s) (hw : s.Waiting p)
    (hexited : ∀ q, q ≠ p → (s.party q).stage = .exited) : s.barrier.CanLeave p := by
  apply h.control.lockstep.canLeave_of_finished
  intro q hq
  have hq' : (s.position q).stage = .exited := hexited q hq
  have hk : (s.position q).iteration = c.total := (h.control.valid q).exited hq'
  have hround : ((s.position q).place c).round = c.total + 1 := by
    rw [place_of_ne_loop (by rw [hq']; nofun), hq', hk]
    rfl
  show ((s.position p).place c).round < ((s.position q).place c).round
  rw [hround]
  have hvalid := h.control.valid p
  by_cases hloop : (s.position p).stage = .loop
  · rw [place_of_loop hloop]
    show (s.position p).iteration + 1 < c.total + 1
    have hlt := hvalid.running (by rw [hloop]; rfl)
    omega
  · rw [place_of_ne_loop hloop]
    dsimp only
    split
    next => omega
    next hahead =>
      have hrunning : (s.position p).stage.running = true := by
        have hw' : (s.position p).stage = .wait0 ∨ (s.position p).stage = .wait1 ∨
            (s.position p).stage = .wait2 ∨ (s.position p).stage = .wait3 ∨
            ((s.position p).stage = .loop ∧ s.loopPc p = .waiting) := hw
        rcases hw' with heq | heq | heq | heq | heq
        · rw [heq] at hahead
          exact absurd rfl hahead
        · rw [heq]; rfl
        · rw [heq]; rfl
        · rw [heq]; rfl
        · exact absurd heq.1 hloop
      have hlt := hvalid.running hrunning
      omega

/-- With a payload that verifies nobody aborts. -/
theorem SessionInv.not_aborted (h : SessionInv c s)
    (hgood : verifyDataReceived c.payload c.dataSize = some true) (p : Side) :
    (s.party p).stage ≠ .aborted ∧ (s.party p).stage ≠ .refused := by
  have hroute : OnRoute c.program p (s.party p).stage := (h.control.valid p).onRoute
  refine ⟨?_, not_refused_of_verified (h.control.valid p).refused hgood⟩
  intro haborted
  cases p with
  | sender =>
      have hfacts : ∀ program st, OnRoute program .sender st → st ≠ .aborted := by decide
      exact hfacts _ _ hroute haborted
  | receiver => exact h.memory.verdict haborted hgood

/-- **No reachable state is stuck** before both processes have exited, with a
payload that verifies. -/
theorem SessionInv.progress (h : SessionInv c s)
    (hgood : verifyDataReceived c.payload c.dataSize = some true)
    (hopen : ¬ ∀ p, (s.party p).stage = .exited) : (sessionSystem c).CanProgress s := by
  have hstopped : ∀ p, (s.party p).stage ≠ .exited → (s.party p).stage.stopped = false := by
    intro p hne
    have hroute : OnRoute c.program p (s.party p).stage := (h.control.valid p).onRoute
    have hfacts : ∀ program p st, OnRoute program p st → st ≠ .exited → st ≠ .aborted →
        st ≠ .refused → st.stopped = false := by decide
    obtain ⟨haborted, hrefused⟩ := h.not_aborted hgood p
    exact hfacts _ _ _ hroute hne haborted hrefused
  by_cases hs : (s.party .sender).stage = .exited
  · have hr : (s.party .receiver).stage ≠ .exited := by
      intro hr
      apply hopen
      intro p
      cases p with
      | sender => exact hs
      | receiver => exact hr
    apply h.moves (p := .receiver) (hstopped _ hr)
    intro hw
    apply h.canLeave_of_exited hw
    intro q hq
    cases q with
    | sender => exact hs
    | receiver => exact absurd rfl hq
  · by_cases hr : (s.party .receiver).stage = .exited
    · apply h.moves (p := .sender) (hstopped _ hs)
      intro hw
      apply h.canLeave_of_exited hw
      intro q hq
      cases q with
      | sender => exact absurd rfl hq
      | receiver => exact hr
    · rcases s.barrier.canLeave_or with hcan | hcan
      · exact h.moves (p := .sender) (hstopped _ hs) fun _ => hcan
      · exact h.moves (p := .receiver) (hstopped _ hr) fun _ => hcan

/-! ## §2. What is read is of this iteration. -/

/-- The iteration in which a cell was written. -/
def Buffer.stamp (m : Buffer) : Cell → Nat
  | .size slot => (m.dataSize slot).stamp
  | .byte position => (m.data position).stamp

/-- Where a cell ends, from the beginning of the mapping. -/
def Cell.stop : Cell → Nat
  | .size slot => 8 * slot + 8
  | .byte position => 16 + position + 1

/-- Cells of the two slots are inside a buffer of `total_size` bytes. -/
theorem Cell.stop_le (c : Params) {x : Cell} (h : x.slot c < 2) :
    x.stop ≤ 16 + 2 * c.bufferSize := by
  cases x with
  | size slot =>
      have hslot : slot < 2 := h
      show 8 * slot + 8 ≤ 16 + 2 * c.bufferSize
      omega
  | byte position =>
      have hposition : position < 2 * c.bufferSize := (Nat.div_lt_iff_lt_mul c.bufferSize_pos).mp h
      show 16 + position + 1 ≤ 16 + 2 * c.bufferSize
      omega

/-- The cell `p`'s next step touches in its pipeline loop. -/
def State.touched (c : Session) (s : State) : Side → Option Cell
  | .sender => s.sendLoop.touched c.toParams
  | .receiver => s.receiveLoop.touched c.toParams

theorem SessionInv.touched_slot (h : SessionInv c s) (hst : (s.party p).stage = .loop) {x : Cell}
    (hx : x ∈ s.touched c p) : x.slot c.toParams < 2 := by
  cases p with
  | sender =>
      obtain ⟨id, hown, -⟩ := h.store.mapping_of_loop h.control hst
      have hsent := h.memory.sent (.inl hst) id hown.fd
      rw [(hsent.touched_slot hx).2]
      exact slot_lt _ _
  | receiver =>
      have hgot := h.memory.got (by rw [hst]; rfl)
      rw [(hgot.touched_slot hx).2]
      exact slot_lt _ _

/-! ## §3. Fresh sessions. -/

/-- Between the `mmap` of an iteration and the end of its pipeline loop; all
reads and writes of the mapping are in `clear` and `loop`. -/
def Stage.mapped : Stage → Bool
  | .clear | .arrive2 | .wait2 | .loop => true
  | _ => false

/-- The crossings of a whole run. -/
def Session.crossings (c : Session) : Nat :=
  match c.program with
  | .shm => c.total * (c.nPipeline + 3)
  | .mmap => c.total * (c.nPipeline + 3) + 1

theorem SessionInv.crossings (h : SessionInv c s) (hst : (s.party p).stage = .exited) :
    s.barrier.entered p = c.crossings ∧ s.barrier.left p = c.crossings := by
  have hst' : (s.position p).stage = .exited := hst
  have hk := (h.control.valid p).exited hst'
  have hplace : (s.position p).place c = ⟨c.total + 1, 0, 0⟩ := by
    rw [place_of_ne_loop (by rw [hst']; nofun), hst', hk]
    rfl
  have hentered := h.control.lockstep.entered p
  have hleft := h.control.lockstep.left p
  rw [hplace] at hentered hleft
  have hmul : (c.total + 1) * (c.nPipeline + 3) = c.total * (c.nPipeline + 3) + (c.nPipeline + 3) :=
    Nat.succ_mul _ _
  unfold Params.offset Params.period at hentered hleft
  unfold Session.crossings
  cases hprogram : c.program with
  | shm =>
      simp only [hprogram] at hentered hleft
      constructor
      · show s.barrier.entered p = c.total * (c.nPipeline + 3)
        omega
      · show s.barrier.left p = c.total * (c.nPipeline + 3)
        omega
  | mmap =>
      simp only [hprogram] at hentered hleft
      constructor
      · show s.barrier.entered p = c.total * (c.nPipeline + 3) + 1
        omega
      · show s.barrier.left p = c.total * (c.nPipeline + 3) + 1
        omega

/-- What `p` has mapped is the creator's object, as set up in `p`'s
iteration. -/
theorem SessionInv.mapped (h : SessionInv c s) (hst : (s.party p).stage.mapped = true) :
    ∃ id, Owner c s id ∧ (s.party p).mapping = some id ∧
      (s.object id).setUp = (s.party p).iteration ∧ (s.object id).size = c.totalSize ∧
      (s.party p).length = c.totalSize := by
  have hroute : OnRoute c.program p (s.party p).stage := (h.control.valid p).onRoute
  rcases creator_or_joiner c.program p with rfl | rfl
  · have hfacts : ∀ st, Stage.mapped st = true → st.opened = true ∧ st ≠ .resize ∧ st ≠ .map := by
      decide
    obtain ⟨hopened, hresize, hmap⟩ := hfacts _ hst
    obtain ⟨id, hid⟩ := h.store.owner hopened
    have hmapping := hid.mapping hresize hmap
    exact ⟨id, hid, hmapping.1, hid.setUp, hid.size hresize, hmapping.2⟩
  · have hfacts : ∀ program st, OnRoute program (Program.joiner program) st →
        Stage.mapped st = true →
        st.joined = true ∧ st.midway = true ∧ st ≠ .joinStat ∧ st ≠ .joinMap := by
      decide
    obtain ⟨hjoined, hmid, hstat, hmap⟩ := hfacts _ _ hroute hst
    obtain ⟨id, hid, hresize, -⟩ := h.store.owner_of_midway h.control hmid
    have hmapping := (h.store.joined hjoined).mapping hstat hmap
    have hsame : (s.party c.program.creator).iteration = (s.party c.program.joiner).iteration :=
      (h.control.near hmid c.program.creator).1
    rw [hid.fd] at hmapping
    refine ⟨id, hid, hmapping.1, ?_, hid.size hresize, hmapping.2⟩
    rw [hid.setUp, hsame]

/-- At the opening of the pipeline both sizes are 0. -/
theorem SessionInv.opening (h : SessionInv c s)
    (hopen : ∀ q, (s.party q).stage = .loop ∧ s.loopI q = 0 ∧ s.loopPc q = .waiting) {id j : Nat}
    (hid : (s.party p).mapping = some id) (hj : j < 2) :
    (s.object id).memory.dataSize j = ⟨0, (s.party p).iteration⟩ := by
  obtain ⟨hst, hi, -⟩ := hopen .sender
  have hi' : s.sendLoop.i = 0 := hi
  obtain ⟨n, hown, hmap, -⟩ := h.store.mapping_of_loop h.control (hopen p).1
  rw [hid] at hmap
  injection hmap with hmap
  subst hmap
  have hsame : (s.party p).iteration = (s.party .sender).iteration :=
    (h.control.near (p := .sender)
      (by show (s.party .sender).stage.midway = true; rw [hst]; rfl) p).1
  have hsent := h.memory.sent (.inl hst) id hown.fd
  rw [hsame]
  have hcases : j = 0 ∨ j = 1 := by omega
  rcases hcases with rfl | rfl
  · exact hsent.opening hi'
  · have hready := hsent.ready.size
    rw [hi'] at hready
    have hready' : (s.object id).memory.dataSize 1 =
        ⟨c.off 0 - c.off 0, (s.party .sender).iteration⟩ := hready
    rw [hready', Nat.sub_self]

/-- Two iterations of the smallest frame that verifies. -/
def Session.sample : Session :=
  ⟨⟨.mmap, 129, 129, List.replicate 129 0, List.length_replicate, by decide, by decide, by decide,
    by decide⟩, 2⟩

/-- Six bytes. -/
def Session.small : Session :=
  { Session.sample with
    program := .shm
    dataSize := 6
    payload := [6, 5, 4, 3, 2, 1]
    payload_length := rfl
    dataSize_pos := by decide
    dataSize_lt := by decide }

end Akbench.SharedMemory
