/-
  Akbench.SharedMemory.Memory
  ───────────────────────────
  **WHAT IS IN THE SHARED OBJECT.**

  From the moment the creator has zeroed the object until the sender enters
  its pipeline loop both sizes are 0; from then on the sender guarantees
  `Sent`.  Whatever is in the object was written in this iteration.

    • `sessionStep_memoryMove` — what a step does to bytes and loops;
    • `Memory.ready` — what the receiver is about to read is there;
    • `Memory.step` — all of it is kept.
-/
import Akbench.SharedMemory.Store

namespace Akbench.SharedMemory

variable {c : Session} {s s' : State} {p q : Side}

/-! ## §1. What a step does to the memory. -/

/-- Stages that neither write shared memory nor run the pipeline loop. -/
def Stage.inert : Stage → Bool
  | .create | .clear | .wait2 | .loop => false
  | _ => true

/-- No byte changes, and no loop. -/
structure SameMemory (s s' : State) : Prop where
  memory : ∀ id, (s'.object id).memory = (s.object id).memory
  sendLoop : s'.sendLoop = s.sendLoop
  receiveLoop : s'.receiveLoop = s.receiveLoop

/-- What one step of `p` does to the memory and to its loop. -/
inductive MemoryMove (c : Session) (p : Side) (s s' : State) : Prop where
  | keep (hst : (s.party p).stage.inert = true) (hsame : SameMemory s s')
  | create (hst : (s.party p).stage = .create) (hsend : s'.sendLoop = s.sendLoop)
      (hreceive : s'.receiveLoop = s.receiveLoop)
  | clear (id : Nat) (hst : (s.party p).stage = .clear) (hid : (s.party p).mapping = some id)
      (hzero : (s'.object id).memory = Buffer.zero (s.party p).iteration)
      (hsend : s'.sendLoop = s.sendLoop) (hreceive : s'.receiveLoop = s.receiveLoop)
  | enter (hst : (s.party p).stage = .wait2)
      (hmemory : ∀ id, (s'.object id).memory = (s.object id).memory)
      (hsend : p = .sender → s'.sendLoop = .fresh)
      (hreceive : p = .receiver → s'.receiveLoop = .fresh c.toParams)
      (hstage : (s'.party p).stage = .loop)
  | close (hst : (s.party p).stage = .loop) (hsame : SameMemory s s')
      (hsend : p = .sender → s.sendLoop.Over c.toParams)
      (hreceive : p = .receiver → s.receiveLoop.Over c.toParams)
      (hstage : (s'.party p).stage = .wait3)
  | send (id : Nat) (b : Rendezvous Side) (m : Buffer) (l : SendLoop) (hp : p = .sender)
      (hst : (s.party .sender).stage = .loop) (hid : (s.party .sender).mapping = some id)
      (hturn : sendTurn c.toParams (s.party .sender).iteration s.barrier (s.object id).memory
        s.sendLoop = some (b, m, l))
      (hmemory : (s'.object id).memory = m) (hloop : s'.sendLoop = l)
      (hstage : (s'.party .sender).stage = .loop)
  | receive (id : Nat) (b : Rendezvous Side) (l : ReceiveLoop) (hp : p = .receiver)
      (hst : (s.party .receiver).stage = .loop) (hid : (s.party .receiver).mapping = some id)
      (hturn : receiveTurn c.toParams s.barrier (s.object id).memory s.receiveLoop = some (b, l))
      (hmemory : ∀ id, (s'.object id).memory = (s.object id).memory) (hloop : s'.receiveLoop = l)
      (hstage : (s'.party .receiver).stage = .loop)
  | fail (hbad : s.Failing p)

theorem sameMemory_of_eq (hobject : s'.object = s.object) (hsend : s'.sendLoop = s.sendLoop)
    (hreceive : s'.receiveLoop = s.receiveLoop) : SameMemory s s' :=
  ⟨fun _ => by rw [hobject], hsend, hreceive⟩

theorem Stage.inert_of_barrier : ∀ st, Stage.arriving st = true ∨ Stage.leaving st = true →
    st.inert = true := by
  decide

/-- **Every step of a process is a `MemoryMove`.** -/
theorem sessionStep_memoryMove (hs : sessionStep c s p = some s') : MemoryMove c p s s' := by
  have hinert : ∀ {st : Stage}, (s.party p).stage = st → st.inert = true →
      (s.party p).stage.inert = true := by
    intro st hst hk
    rw [hst]
    exact hk
  cases sessionStep_cases hs with
  | arrive hst =>
      exact .keep (Stage.inert_of_barrier _ (.inl hst)) (sameMemory_of_eq rfl rfl rfl)
  | leave hst hcan =>
      have hk : (s.party p).stage.inert = true := by
        obtain hst | hst := hst
        · exact hinert hst rfl
        · exact Stage.inert_of_barrier _ (.inr hst)
      exact .keep hk (sameMemory_of_eq rfl rfl rfl)
  | generate hst hsize => exact .keep (hinert hst rfl) (sameMemory_of_eq rfl rfl rfl)
  | refuse hst hsmall => exact .keep (hinert hst rfl) (sameMemory_of_eq rfl rfl rfl)
  | begin hst hlt => exact .keep (hinert hst rfl) (sameMemory_of_eq rfl rfl rfl)
  | exit hst hge => exact .keep (hinert hst rfl) (sameMemory_of_eq rfl rfl rfl)
  | create hst =>
      obtain ⟨-, -, hsend, hreceive⟩ := openCreate_same c s p
      exact .create hst hsend hreceive
  | resize id hst hid =>
      refine .keep (hinert hst rfl) ⟨?_, rfl, rfl⟩
      intro j
      show (Function.update s.object id _ j).memory = (s.object j).memory
      by_cases hj : j = id
      · rw [hj, Function.update_self]
      · rw [Function.update_of_ne hj]
  | map id hst hid => exact .keep (hinert hst rfl) (sameMemory_of_eq rfl rfl rfl)
  | clear id hst hid =>
      refine .clear id hst hid ?_ rfl rfl
      show (Function.update s.object id _ id).memory = _
      rw [Function.update_self]
  | joinOpen id hst hid => exact .keep (hinert hst rfl) (sameMemory_of_eq rfl rfl rfl)
  | joinStat id hst hid => exact .keep (hinert hst rfl) (sameMemory_of_eq rfl rfl rfl)
  | joinMap id hst hid => exact .keep (hinert hst rfl) (sameMemory_of_eq rfl rfl rfl)
  | enter hst hcan =>
      have hstage : ((s.leave p (after c.program p (s.party p).stage)).party p).stage = .loop := by
        show ((s.go p _).party p).stage = .loop
        unfold State.go
        rw [State.become_self, hst]
        exact after_wait2 _ _
      cases p with
      | sender => exact .enter hst (fun _ => rfl) (fun _ => rfl) nofun hstage
      | receiver => exact .enter hst (fun _ => rfl) nofun (fun _ => rfl) hstage
  | send id b m l hst hmap hturn =>
      refine .send id b m l rfl hst hmap hturn ?_ rfl hst
      show (Function.update s.object id _ id).memory = m
      rw [Function.update_self]
  | receive id b l hst hmap hturn =>
      exact .receive id b l rfl hst hmap hturn (fun _ => rfl) rfl hst
  | close hst hsend hreceive =>
      refine .close hst (sameMemory_of_eq rfl rfl rfl) hsend hreceive ?_
      show ((s.go p _).party p).stage = .wait3
      unfold State.go
      rw [State.become_self, hst]
      exact after_loop _ _
  | verify hst hok => exact .keep (hinert hst rfl) (sameMemory_of_eq rfl rfl rfl)
  | abort hst hbad => exact .keep (hinert hst rfl) (sameMemory_of_eq rfl rfl rfl)
  | unmap hst =>
      unfold State.goOn
      split
      next => exact .keep (hinert hst rfl) (sameMemory_of_eq rfl rfl rfl)
      next => exact .keep (hinert hst rfl) (sameMemory_of_eq rfl rfl rfl)
  | unlink hst =>
      unfold State.goOn
      split
      next => exact .keep (hinert hst rfl) (sameMemory_of_eq rfl rfl rfl)
      next => exact .keep (hinert hst rfl) (sameMemory_of_eq rfl rfl rfl)
  | fail hbad => exact .fail hbad

/-- The receiver aborts on data that does not verify. -/
theorem verdict_of_step (hst : (s.party p).stage = .verifying)
    (hs : sessionStep c s p = some s') (haborted : (s'.party p).stage = .aborted) :
    verifyDataReceived s.receiveLoop.receivedData c.dataSize ≠ some true := by
  unfold sessionStep at hs
  simp only [hst] at hs
  split at hs
  next hok =>
    injection hs with hs
    subst hs
    unfold State.go at haborted
    rw [State.become_self] at haborted
    exact absurd haborted (after_ne_stopped _ _ _).2
  next hbad => exact hbad

/-! ## §2. What is there. -/

/-- The creator has zeroed the object and not left the last barrier. -/
def Stage.cleared (program : Program) : Stage → Bool
  | .arrive1 | .wait1 | .loop | .wait3 =>
      match program with
      | .shm => true
      | .mmap => false
  | .arrive2 | .wait2 => true
  | _ => false

/-- The receiver has begun to receive. -/
def Stage.receiving : Stage → Bool
  | .loop | .wait3 | .verifying | .aborted => true
  | _ => false

/-- The receiver has received all it will. -/
def Stage.received : Stage → Bool
  | .wait3 | .verifying | .aborted => true
  | _ => false

/-- The sender's writes of this iteration are what is in the object. -/
def State.Sending (s : State) : Prop :=
  (s.party .sender).stage = .loop ∨
    ((s.party .sender).stage = .wait3 ∧
      ((s.party .receiver).stage = .wait2 ∨ (s.party .receiver).stage = .loop))

structure Memory (c : Session) (s : State) : Prop where
  zeroed : (s.party c.program.creator).stage.cleared c.program = true →
    (s.position .sender).Before (s.party c.program.creator).iteration →
    ∀ id, (s.party c.program.creator).fd = some id →
      ∀ j, (s.object id).memory.dataSize j = ⟨0, (s.party c.program.creator).iteration⟩
  sent : s.Sending → ∀ id, (s.party c.program.creator).fd = some id →
    Sent c.toParams (s.party .sender).iteration (s.object id).memory s.sendLoop
  sendOver : (s.party .sender).stage = .wait3 → s.sendLoop.Over c.toParams
  got : (s.party .receiver).stage.receiving = true → Got c.toParams s.receiveLoop
  receiveOver : (s.party .receiver).stage.received = true → s.receiveLoop.Over c.toParams
  verdict : (s.party .receiver).stage = .aborted →
    verifyDataReceived c.payload c.dataSize ≠ some true

theorem memory_fresh (c : Session) : Memory c (State.fresh c) := by
  have hentry : ∀ program p, (Program.entry program p).cleared program = false ∧
      Program.entry program p ≠ .loop ∧ Program.entry program p ≠ .wait3 ∧
      (Program.entry program p).receiving = false ∧ (Program.entry program p).received = false ∧
      Program.entry program p ≠ .aborted := by
    decide
  obtain ⟨-, hloop, hwait, -, -, -⟩ := hentry c.program .sender
  obtain ⟨-, -, -, hreceiving, hreceived, haborted⟩ := hentry c.program .receiver
  refine ⟨?_, ?_, ?_, ?_, ?_, ?_⟩
  · intro hcleared
    have hcleared' : (c.program.entry c.program.creator).cleared c.program = true := hcleared
    rw [(hentry c.program c.program.creator).1] at hcleared'
    cases hcleared'
  · intro hsending
    rcases hsending with hst | ⟨hst, -⟩
    · exact absurd hst hloop
    · exact absurd hst hwait
  · intro hst
    exact absurd hst hwait
  · intro hst
    have hst' : (c.program.entry .receiver).receiving = true := hst
    rw [hreceiving] at hst'
    cases hst'
  · intro hst
    have hst' : (c.program.entry .receiver).received = true := hst
    rw [hreceived] at hst'
    cases hst'
  · intro hst
    exact absurd hst haborted

/-- **What the receiver is about to read is there.** -/
theorem Memory.ready (h : Memory c s) (hc : Control c s.barrier s.position)
    (hst : (s.party .receiver).stage = .loop)
    (hwork : s.receiveLoop.pc.left = 1) {id : Nat} (hid : Owner c s id) :
    Ready c.toParams (s.party .receiver).iteration (s.object id).memory s.receiveLoop.i := by
  have hsame : (s.party .sender).iteration = (s.party .receiver).iteration :=
    (hc.near (p := .receiver) (by show (s.party .receiver).stage.midway = true; rw [hst]; rfl)
      .sender).1
  rw [← hsame]
  rcases hc.sender_of_working hst hwork with ⟨hloop, hentered, hleft⟩ | ⟨hwait, hn⟩
  · exact (h.sent (.inl hloop) id hid.fd).visible hentered hleft
  · -- the sender is done, and the receiver in its last step
    have hsent := h.sent (.inr ⟨hwait, .inr hst⟩) id hid.fd
    have hover := h.sendOver hwait
    have hgot := (h.got (by rw [hst]; rfl)).inside
    have hwork' := LoopPc.entered_of_left hwork
    have hin := hsent.inside
    have hn' : c.nPipeline ≤ s.receiveLoop.i + 1 := hn
    have hpc := hover.1
    have hge := hover.2
    apply hsent.visible
    · omega
    · rw [hpc]
      show s.sendLoop.i + 0 ≤ _
      omega

/-! ## §3. One step. -/

theorem cleared_after : ∀ program st, Stage.inert st = true →
    (after program (Program.creator program) st).cleared program = true →
    st.cleared program = true := by
  decide

theorem keeping_of_cleared : ∀ program st, Stage.cleared program st = true →
    st.keeping = true := by
  decide

theorem not_past_of_cleared : ∀ st, Stage.cleared .mmap st = true → st.past = false := by
  decide

theorem stages_of_inert : ∀ program p st, Stage.inert st = true →
    after program p st ≠ .loop ∧ after program p st ≠ .wait3 := by
  decide

theorem cleared_of_near : ∀ st, OnRoute .shm .receiver st → Stage.near .shm st = true →
    st.cleared .shm = true := by
  decide

/-- Where the creator comes from matters only if the sender is it. -/
theorem before_of_creator (hother : ∀ q, q ≠ c.program.creator → Unmoved s s' q)
    (hcleared : (s.party c.program.creator).stage.cleared c.program = true)
    (hk : (s'.party c.program.creator).iteration = (s.party c.program.creator).iteration)
    (hbefore : (s'.position .sender).Before (s'.party c.program.creator).iteration) :
    (s.position .sender).Before (s.party c.program.creator).iteration := by
  rw [hk] at hbefore
  cases hprogram : c.program with
  | shm =>
      rw [hprogram] at hother hbefore
      rw [(hother .sender nofun).position] at hbefore
      exact hbefore
  | mmap =>
      rw [hprogram] at hcleared
      exact .inr ⟨rfl, not_past_of_cleared _ hcleared⟩

/-- **The zeroes stay when the creator moves.** -/
theorem Memory.zeroed_step (h : Memory c s) (hstore : Store c s)
    (hc : Control c s.barrier s.position) (hs : sessionStep c s c.program.creator = some s')
    (hcleared : (s'.party c.program.creator).stage.cleared c.program = true)
    (hbefore : (s'.position .sender).Before (s'.party c.program.creator).iteration)
    (id : Nat) (hid : (s'.party c.program.creator).fd = some id) (j : Nat) :
    (s'.object id).memory.dataSize j = ⟨0, (s'.party c.program.creator).iteration⟩ := by
  obtain ⟨-, hother, -⟩ := hstore.position hc hs
  -- from a stage after the zeroing, with no byte changed
  have hkeep : (s.party c.program.creator).stage.cleared c.program = true →
      (s'.party c.program.creator).iteration = (s.party c.program.creator).iteration →
      (∀ n, (s'.object n).memory = (s.object n).memory) →
      (s'.object id).memory.dataSize j = ⟨0, (s'.party c.program.creator).iteration⟩ := by
    intro hcleared' hk hmemory
    have hold := hstore.hold hc hs (keeping_of_cleared _ _ hcleared')
    rw [hold.fd] at hid
    rw [hmemory, hk]
    exact h.zeroed hcleared' (before_of_creator hother hcleared' hk hbefore) id hid j
  have hiter : ∀ st, (s.party c.program.creator).stage = st →
      st ≠ .loop ∧ st ≠ .start ∧ st ≠ .verifying ∧ st ≠ .generating →
      (s'.party c.program.creator).iteration = (s.party c.program.creator).iteration := by
    intro st hst hne
    subst hst
    apply (hstore.next_of_ne hc hs hne).2
    intro heq
    rw [heq] at hcleared
    cases hcleared
  cases sessionStep_memoryMove hs with
  | keep hst hsame =>
      rcases hstore.next hc hs with ⟨hn, hk⟩ | ⟨hn, -⟩ | ⟨-, hn⟩ | ⟨-, hn⟩ | ⟨-, hn⟩
      · refine hkeep ?_ (hk ?_) hsame.memory
        · rw [hn] at hcleared
          exact cleared_after _ _ hst hcleared
        · intro heq
          rw [heq] at hcleared
          cases hcleared
      · rw [hn] at hst
        cases hst
      all_goals
        rw [hn] at hcleared
        cases hcleared
  | create hst =>
      obtain ⟨hn, -⟩ := hstore.next_of_ne hc hs (by rw [hst]; decide)
      rw [hn, hst, (after_creator c.program).1] at hcleared
      cases hcleared
  | clear n hst hn hzero =>
      obtain ⟨id', hown⟩ := hstore.owner (by rw [hst]; rfl)
      have hmap := (hown.mapping (by rw [hst]; nofun) (by rw [hst]; nofun)).1
      rw [(hstore.hold hc hs (by rw [hst]; rfl)).fd, hown.fd, ← hmap, hn] at hid
      injection hid with hid
      subst hid
      rw [hzero, hiter _ hst (by decide)]
      rfl
  | enter hst hmemory hsend hreceive hstage =>
      exact hkeep (by rw [hst]; rfl) (hiter _ hst (by decide)) hmemory
  | close hst hsame hsend hreceive hstage =>
      rw [hstage] at hcleared
      rcases hstore.next hc hs with ⟨hn, hk⟩ | ⟨-, hn, -⟩ | ⟨hn, -⟩ | ⟨hn, -⟩ | ⟨hn, -⟩
      · refine hkeep ?_ (hk (by rw [hstage]; nofun)) hsame.memory
        rw [hst]
        exact hcleared
      · rw [hn] at hstage
        cases hstage
      all_goals
        rw [hst] at hn
        cases hn
  | send n b m l hp hst hn hturn hmemory hloop hstage =>
      have hmmap : c.program = .mmap := by
        cases hprogram : c.program with
        | shm => rw [hprogram] at hp; cases hp
        | mmap => rfl
      rw [hp, hstage, hmmap] at hcleared
      cases hcleared
  | receive n b l hp hst hn hturn hmemory hloop hstage =>
      have hstage' : (s'.party c.program.creator).stage = .loop := by rw [hp]; exact hstage
      have hst' : (s.party c.program.creator).stage = .loop := by rw [hp]; exact hst
      rw [hstage'] at hcleared
      rcases hstore.next hc hs with ⟨hn', -⟩ | ⟨-, -, hk⟩ | ⟨hn', -⟩ | ⟨hn', -⟩ | ⟨hn', -⟩
      · rw [hst', after_loop, hstage'] at hn'
        cases hn'
      · refine hkeep ?_ hk hmemory
        rw [hst']
        exact hcleared
      all_goals
        rw [hst'] at hn'
        cases hn'
  | fail hbad => exact absurd hbad (hstore.good hc _)

/-- **The zeroes stay when the joiner moves**, unless it sends. -/
theorem Memory.zeroed_of_joiner_step (h : Memory c s) (hstore : Store c s)
    (hc : Control c s.barrier s.position) (hs : sessionStep c s c.program.joiner = some s')
    (hcleared : (s'.party c.program.creator).stage.cleared c.program = true)
    (hbefore : (s'.position .sender).Before (s'.party c.program.creator).iteration)
    (id : Nat) (hid : (s'.party c.program.creator).fd = some id) (j : Nat) :
    (s'.object id).memory.dataSize j = ⟨0, (s'.party c.program.creator).iteration⟩ := by
  obtain ⟨hmove, hother, halive⟩ := hstore.position hc hs
  have hroute : OnRoute c.program c.program.joiner (s.party c.program.joiner).stage :=
    (hc.valid _).onRoute
  obtain ⟨hcreate, -, -, hclear, -⟩ := joiner_route _ _ hroute
  obtain ⟨-, hcreator⟩ := hstore.owner_of_joiner_step hc hs
  rw [hcreator] at hcleared hbefore hid ⊢
  have hbefore' : (s.position .sender).Before (s.party c.program.creator).iteration := by
    cases hprogram : c.program with
    | shm =>
        rw [hprogram] at hbefore hmove hs halive
        have hmove' : Move c .sender (s.Failing .sender) s.barrier (s.position .sender) s'.barrier
            (s'.position .sender) := hmove
        exact hmove'.before halive hbefore
    | mmap =>
        rw [hprogram] at hother hbefore
        rw [(hother .sender nofun).position] at hbefore
        exact hbefore
  have hkeep : (∀ n, (s'.object n).memory = (s.object n).memory) →
      (s'.object id).memory.dataSize j = ⟨0, (s.party c.program.creator).iteration⟩ := by
    intro hmemory
    rw [hmemory]
    exact h.zeroed hcleared hbefore' id hid j
  cases sessionStep_memoryMove hs with
  | keep hst hsame => exact hkeep hsame.memory
  | create hst => exact absurd hst hcreate
  | clear n hst => exact absurd hst hclear
  | enter hst hmemory => exact hkeep hmemory
  | close hst hsame => exact hkeep hsame.memory
  | send n b m l hp hst hn hturn hmemory hloop hstage =>
      -- in its loop the sender is not short of it
      have hmid : (s.position .sender).stage.midway = true := by
        show (s.party .sender).stage.midway = true
        rw [hst]
        rfl
      have hsame : (s.party c.program.creator).iteration = (s.party .sender).iteration :=
        (hc.near hmid c.program.creator).1
      rcases hbefore' with hlt | ⟨-, hpast⟩
      · have hlt' : (s.party .sender).iteration < (s.party c.program.creator).iteration := hlt
        omega
      · have hpast' : (s.party .sender).stage.past = false := hpast
        rw [hst] at hpast'
        cases hpast'
  | receive n b l hp hst hn hturn hmemory => exact hkeep hmemory
  | fail hbad => exact absurd hbad (hstore.good hc _)

/-- The creator's descriptor while the object is in use. -/
theorem Store.fd_of_step (h : Store c s) (hc : Control c s.barrier s.position)
    (hs : sessionStep c s p = some s')
    (hkeep : p = c.program.creator → (s.party p).stage.keeping = true) :
    (s'.party c.program.creator).fd = (s.party c.program.creator).fd := by
  by_cases hp : p = c.program.creator
  · have hk := hkeep hp
    subst hp
    exact (h.hold hc hs hk).fd
  · obtain ⟨-, hother, -⟩ := h.position hc hs
    rw [(hother _ (fun heq => hp heq.symm)).party]

/-- When the sender is about to send, both sizes are 0. -/
theorem Memory.zero_of_wait2 (h : Memory c s) (hc : Control c s.barrier s.position)
    (hst : (s.party .sender).stage = .wait2) (id : Nat)
    (hid : (s.party c.program.creator).fd = some id) (j : Nat) :
    (s.object id).memory.dataSize j = ⟨0, (s.party .sender).iteration⟩ := by
  have hmid : (s.position .sender).stage.midway = true := by
    show (s.party .sender).stage.midway = true
    rw [hst]
    rfl
  obtain ⟨hsame, hnear⟩ := hc.near hmid c.program.creator
  have hsame' : (s.party c.program.creator).iteration = (s.party .sender).iteration := hsame
  rw [← hsame']
  apply h.zeroed ?_ ?_ id hid
  · cases hprogram : c.program with
    | shm =>
        have hroute := (hc.valid c.program.creator).onRoute
        rw [hprogram] at hnear hroute
        exact cleared_of_near _ hroute hnear
    | mmap =>
        show (s.party .sender).stage.cleared .mmap = true
        rw [hst]
        rfl
  · right
    refine ⟨hsame'.symm, ?_⟩
    show (s.party .sender).stage.past = false
    rw [hst]
    rfl

/-- **The sender's own step keeps its promise.** -/
theorem Memory.sent_step (h : Memory c s) (hstore : Store c s)
    (hc : Control c s.barrier s.position) (hs : sessionStep c s .sender = some s')
    (hsending : s'.Sending) (id : Nat) (hid : (s'.party c.program.creator).fd = some id) :
    Sent c.toParams (s'.party .sender).iteration (s'.object id).memory s'.sendLoop := by
  have hstage : (s'.party .sender).stage = .loop ∨ (s'.party .sender).stage = .wait3 := by
    rcases hsending with hst | ⟨hst, -⟩
    · exact .inl hst
    · exact .inr hst
  have hfd : (s.party .sender).stage = .wait2 ∨ (s.party .sender).stage = .loop →
      (s'.party c.program.creator).fd = (s.party c.program.creator).fd := by
    intro hst
    apply hstore.fd_of_step hc hs
    intro _
    rcases hst with hst | hst <;> rw [hst] <;> rfl
  have hiter : (s'.party .sender).iteration = (s.party .sender).iteration := by
    rcases hstore.next hc hs with ⟨-, hk⟩ | ⟨-, -, hk⟩ | ⟨-, hn⟩ | ⟨-, hn⟩ | ⟨-, hn⟩
    · apply hk
      intro heq
      rw [heq] at hstage
      rcases hstage with hst | hst <;> cases hst
    · exact hk
    all_goals
      rw [hn] at hstage
      rcases hstage with hst | hst <;> cases hst
  have hfrom : (s.party .sender).stage = .create ∨ (s.party .sender).stage = .clear → False := by
    intro hst
    have hfacts : ∀ program p, after program p .create ≠ .loop ∧
        after program p .create ≠ .wait3 ∧ after program p .clear ≠ .loop ∧
        after program p .clear ≠ .wait3 := by
      decide
    obtain ⟨h1, h2, h3, h4⟩ := hfacts c.program .sender
    rcases hst with hst | hst
    · obtain ⟨hn, -⟩ := hstore.next_of_ne hc hs (by rw [hst]; decide)
      rw [hst] at hn
      rw [hn] at hstage
      exact hstage.elim h1 h2
    · obtain ⟨hn, -⟩ := hstore.next_of_ne hc hs (by rw [hst]; decide)
      rw [hst] at hn
      rw [hn] at hstage
      exact hstage.elim h3 h4
  rw [hiter]
  cases sessionStep_memoryMove hs with
  | keep hst hsame =>
      exfalso
      obtain ⟨h1, h2⟩ := stages_of_inert c.program .sender _ hst
      rcases hstore.next hc hs with ⟨hn, -⟩ | ⟨hn, -⟩ | ⟨-, hn⟩ | ⟨-, hn⟩ | ⟨-, hn⟩
      · rw [hn] at hstage
        exact hstage.elim h1 h2
      · rw [hn] at hst
        cases hst
      all_goals
        rw [hn] at hstage
        rcases hstage with hst | hst <;> cases hst
  | create hst => exact (hfrom (.inl hst)).elim
  | clear n hst => exact (hfrom (.inr hst)).elim
  | enter hst hmemory hsend hreceive =>
      rw [hfd (.inl hst)] at hid
      rw [hsend rfl, hmemory]
      exact sent_fresh (h.zero_of_wait2 hc hst id hid)
  | close hst hsame =>
      rw [hfd (.inr hst)] at hid
      rw [hsame.sendLoop, hsame.memory]
      exact h.sent (.inl hst) id hid
  | send n b m l hp hst hn hturn hmemory hloop =>
      rw [hfd (.inr hst)] at hid
      obtain ⟨id', hown, hmap, -⟩ := hstore.mapping_of_loop hc hst
      rw [hown.fd] at hid
      injection hid with hid
      rw [hn] at hmap
      injection hmap with hmap
      subst hid
      subst hmap
      rw [hmemory, hloop]
      exact sendTurn_sent (h.sent (.inl hst) n hown.fd) hturn
  | receive n b l hp => cases hp
  | fail hbad => exact absurd hbad (hstore.good hc _)

/-- **The receiver's step keeps the sender's promise.** -/
theorem Memory.sent_of_receiver_step (h : Memory c s) (hstore : Store c s)
    (hc : Control c s.barrier s.position) (hs : sessionStep c s .receiver = some s')
    (hsending : s'.Sending) (id : Nat) (hid : (s'.party c.program.creator).fd = some id) :
    Sent c.toParams (s'.party .sender).iteration (s'.object id).memory s'.sendLoop := by
  obtain ⟨-, hother, -⟩ := hstore.position hc hs
  have hsender := hother .sender nofun
  -- the receiver comes to its loop, or to the barrier before it, from close by
  have hwas : s.Sending := by
    rcases hsending with hst | ⟨hst, hst'⟩
    · rw [hsender.party] at hst
      exact .inl hst
    · rw [hsender.party] at hst
      have hfacts : ∀ program p st, (after program p st = .wait2 → st = .arrive2) ∧
          (after program p st = .loop → st = .wait2) := by
        decide
      obtain ⟨h2, hl⟩ := hfacts c.program .receiver (s.party .receiver).stage
      refine .inr ⟨hst, ?_⟩
      rcases hstore.next hc hs with ⟨hn, -⟩ | ⟨hn, -⟩ | ⟨-, hn⟩ | ⟨-, hn⟩ | ⟨-, hn⟩
      · rw [hn] at hst'
        rcases hst' with heq | heq
        · exact absurd hst (hc.not_wait3 (p := .receiver) (h2 heq) .sender)
        · exact .inl (hl heq)
      · exact .inr hn
      all_goals
        rw [hn] at hst'
        rcases hst' with heq | heq <;> cases heq
  have hnear : (s.party .receiver).stage.near c.program = true := by
    rcases hwas with hst | ⟨-, hst | hst⟩
    · exact (hc.near (p := .sender) (by show (s.party .sender).stage.midway = true; rw [hst]; rfl)
        .receiver).2
    · rw [hst]
      rfl
    · rw [hst]
      rfl
  have hroute : OnRoute c.program .receiver (s.party .receiver).stage := (hc.valid _).onRoute
  have hfacts : ∀ program st, OnRoute program .receiver st → Stage.near program st = true →
      st ≠ .create ∧ st ≠ .clear ∧ (.receiver = Program.creator program → st.keeping = true) := by
    decide
  obtain ⟨hcreate, hclear, hkeep⟩ := hfacts _ _ hroute hnear
  rw [hstore.fd_of_step hc hs hkeep] at hid
  have hsame : (∀ n, (s'.object n).memory = (s.object n).memory) →
      Sent c.toParams (s'.party .sender).iteration (s'.object id).memory s'.sendLoop := by
    intro hmemory
    rw [hsender.party, hmemory, hsender.sendLoop rfl]
    exact h.sent hwas id hid
  cases sessionStep_memoryMove hs with
  | keep hst hmem => exact hsame hmem.memory
  | create hst => exact absurd hst hcreate
  | clear n hst => exact absurd hst hclear
  | enter hst hmemory => exact hsame hmemory
  | close hst hmem => exact hsame hmem.memory
  | send n b m l hp => cases hp
  | receive n b l hp hst hn hturn hmemory => exact hsame hmemory
  | fail hbad => exact absurd hbad (hstore.good hc _)

theorem Store.sendOver_step (hstore : Store c s)
    (hc : Control c s.barrier s.position) (hs : sessionStep c s .sender = some s')
    (hst' : (s'.party .sender).stage = .wait3) : s'.sendLoop.Over c.toParams := by
  have hfacts : ∀ program p st, after program p st = .wait3 → st = .loop := by decide
  have hst : (s.party .sender).stage = .loop := by
    rcases hstore.next hc hs with ⟨hn, -⟩ | ⟨hn, -⟩ | ⟨-, hn⟩ | ⟨-, hn⟩ | ⟨-, hn⟩
    · rw [hn] at hst'
      exact hfacts _ _ _ hst'
    · exact hn
    all_goals
      rw [hn] at hst'
      cases hst'
  cases sessionStep_memoryMove hs with
  | keep hst2 => rw [hst] at hst2; cases hst2
  | create hst2 => rw [hst] at hst2; cases hst2
  | clear n hst2 => rw [hst] at hst2; cases hst2
  | enter hst2 => rw [hst] at hst2; cases hst2
  | close hst2 hsame hsend =>
      rw [hsame.sendLoop]
      exact hsend rfl
  | send n b m l hp hst2 hn hturn hmemory hloop hstage =>
      rw [hst'] at hstage
      cases hstage
  | receive n b l hp => cases hp
  | fail hbad => exact absurd hbad (hstore.good hc _)

theorem receiving_after : ∀ program st, Stage.inert st = true →
    ((after program .receiver st).receiving = true →
      st.receiving = true ∧ after program .receiver st ≠ .aborted) ∧
    ((after program .receiver st).received = true → st.received = true) := by
  decide

/-- **The receiver's own step keeps its promise.** -/
theorem Memory.got_step (h : Memory c s) (hstore : Store c s)
    (hc : Control c s.barrier s.position) (hs : sessionStep c s .receiver = some s')
    (hst' : (s'.party .receiver).stage.receiving = true) :
    Got c.toParams s'.receiveLoop ∧
      ((s'.party .receiver).stage.received = true → s'.receiveLoop.Over c.toParams) := by
  cases sessionStep_memoryMove hs with
  | keep hst hsame =>
      obtain ⟨hreceiving, hreceived⟩ := receiving_after c.program _ hst
      rw [hsame.receiveLoop]
      rcases hstore.next hc hs with ⟨hn, -⟩ | ⟨hn, -⟩ | ⟨-, hn⟩ | ⟨hn, -⟩ | ⟨-, hn⟩
      · rw [hn] at hst' ⊢
        exact ⟨h.got (hreceiving hst').1, fun hr => h.receiveOver (hreceived hr)⟩
      · rw [hn] at hst
        cases hst
      · rw [hn] at hst'
        cases hst'
      · exact ⟨h.got (by rw [hn]; rfl), fun _ => h.receiveOver (by rw [hn]; rfl)⟩
      · rw [hn] at hst'
        cases hst'
  | create hst =>
      have hfacts : ∀ program, (after program .receiver .create).receiving = false := by decide
      obtain ⟨hn, -⟩ := hstore.next_of_ne hc hs (by rw [hst]; decide)
      rw [hn, hst, hfacts] at hst'
      cases hst'
  | clear n hst =>
      have hfacts : ∀ program, (after program .receiver .clear).receiving = false := by decide
      obtain ⟨hn, -⟩ := hstore.next_of_ne hc hs (by rw [hst]; decide)
      rw [hn, hst, hfacts] at hst'
      cases hst'
  | enter hst hmemory hsend hreceive hstage =>
      rw [hreceive rfl]
      refine ⟨got_fresh c.toParams, ?_⟩
      intro hr
      rw [hstage] at hr
      cases hr
  | close hst hsame hsend hreceive hstage =>
      rw [hsame.receiveLoop]
      exact ⟨h.got (by rw [hst]; rfl), fun _ => hreceive rfl⟩
  | send n b m l hp => cases hp
  | receive n b l hp hst hn hturn hmemory hloop hstage =>
      obtain ⟨id, hown, hmap, -⟩ := hstore.mapping_of_loop hc hst
      rw [hn] at hmap
      injection hmap with hmap
      subst hmap
      rw [hloop]
      refine ⟨receiveTurn_got (h.got (by rw [hst]; rfl))
        (fun hwork => h.ready hc hst hwork hown) hturn, ?_⟩
      intro hr
      rw [hstage] at hr
      cases hr
  | fail hbad => exact absurd hbad (hstore.good hc _)

/-- **A step keeps the memory in order.** -/
theorem Memory.step (h : Memory c s) (hstore : Store c s) (hc : Control c s.barrier s.position)
    (hs : sessionStep c s p = some s') : Memory c s' := by
  obtain ⟨-, hother, -⟩ := hstore.position hc hs
  have hzeroed : (s'.party c.program.creator).stage.cleared c.program = true →
      (s'.position .sender).Before (s'.party c.program.creator).iteration →
      ∀ id, (s'.party c.program.creator).fd = some id →
        ∀ j, (s'.object id).memory.dataSize j =
          ⟨0, (s'.party c.program.creator).iteration⟩ := by
    rcases creator_or_joiner c.program p with hp | hp
    · rw [hp] at hs
      exact h.zeroed_step hstore hc hs
    · rw [hp] at hs
      exact h.zeroed_of_joiner_step hstore hc hs
  cases p with
  | sender =>
      have hreceiver := hother .receiver nofun
      refine ⟨hzeroed, h.sent_step hstore hc hs, hstore.sendOver_step hc hs, ?_, ?_, ?_⟩
      · rw [hreceiver.party, hreceiver.receiveLoop rfl]
        exact h.got
      · rw [hreceiver.party, hreceiver.receiveLoop rfl]
        exact h.receiveOver
      · rw [hreceiver.party]
        exact h.verdict
  | receiver =>
      have hsender := hother .sender nofun
      refine ⟨hzeroed, h.sent_of_receiver_step hstore hc hs, ?_, ?_, ?_, ?_⟩
      · rw [hsender.party, hsender.sendLoop rfl]
        exact h.sendOver
      · intro hst'
        exact (h.got_step hstore hc hs hst').1
      · intro hst'
        have hfacts : ∀ st, Stage.received st = true → st.receiving = true := by decide
        exact (h.got_step hstore hc hs (hfacts _ hst')).2 hst'
      · intro hst'
        rcases hstore.next hc hs with ⟨hn, -⟩ | ⟨-, hn, -⟩ | ⟨-, hn⟩ | ⟨hn, -⟩ | ⟨-, hn⟩
        · rw [hst'] at hn
          exact absurd hn.symm (after_ne_stopped _ _ _).2
        · rw [hst'] at hn
          cases hn
        · rw [hst'] at hn
          cases hn
        · have hbad := verdict_of_step hn hs hst'
          exact (h.got (by rw [hn]; rfl)).verified (h.receiveOver (by rw [hn]; rfl)) hbad
        · rw [hst'] at hn
          cases hn

/-! ## §4. Every reachable state. -/

/-- The three layers of the invariant. -/
structure SessionInv (c : Session) (s : State) : Prop where
  control : Control c s.barrier s.position
  store : Store c s
  memory : Memory c s

theorem SessionInv.step (h : SessionInv c s) (hs : sessionStep c s p = some s') :
    SessionInv c s' :=
  ⟨h.store.control h.control hs, h.store.step h.control hs, h.memory.step h.store h.control hs⟩

/-- **The invariant of every session.** -/
theorem sessionInv_of_reachable (h : (sessionSystem c).Reachable s) : SessionInv c s := by
  refine System.invariant (I := SessionInv c) ?_ (fun _ _ _ hinv hs => hinv.step hs) h
  rintro s rfl
  exact ⟨control_fresh c, store_fresh c, memory_fresh c⟩

end Akbench.SharedMemory
