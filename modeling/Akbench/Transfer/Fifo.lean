/-
  Akbench.Transfer.Fifo
  ─────────────────────
  **`fifo_bandwidth`: THE FIFO IS REOPENED IN EVERY ITERATION.**

  Each iteration of each process is: open its end, `Wait()`, transfer, close
  its end.  There is no barrier between the close of one iteration and the
  open of the next, so an `open()` may be satisfied by a descriptor of the
  other side's previous iteration, and a FIFO without any descriptor forgets
  its contents.  All these crossings are harmless because a side closes only
  after its part of the transfer, and writes only after a barrier that the
  other side reaches with its end open.

  Of the system: `open()` of one end completes iff the other end is open or is
  itself blocked in `open()`; a `read` returns 0 only when the FIFO is empty
  and no write end is open; a `write` without a read end kills the writer.
-/
import Akbench.Common.Stream

namespace Akbench.Fifo

open Framing (Link Phase slice untag)

/-! ## §1. The two processes. -/

/-- Where `SendProcess` is. -/
inductive SenderPc where
  /-- In `GenerateDataToSend`. -/
  | generating
  /-- At the head of the iteration loop. -/
  | ready
  /-- Blocked in `open(FIFO_PATH, O_WRONLY)`. -/
  | opening
  /-- Its end open, before `barrier.Wait()`. -/
  | opened
  /-- Inside `barrier.Wait()`. -/
  | waiting
  /-- In the `write` loop. -/
  | sending
  /-- Before `close(write_fd)`. -/
  | closing
  | exited
  /-- Aborted in `GenerateDataToSend`. -/
  | aborted
  /-- Killed by a `write` to a FIFO without a reader. -/
  | killed
  deriving DecidableEq, Repr

/-- Where `ReceiveProcess` is. -/
inductive ReceiverPc where
  /-- At the head of the iteration loop. -/
  | ready
  /-- Blocked in `open(FIFO_PATH, O_RDONLY)`. -/
  | opening
  /-- Its end open, before `barrier.Wait()`. -/
  | opened
  /-- Inside `barrier.Wait()`. -/
  | waiting
  /-- In the `read` loop. -/
  | receiving
  /-- Before `VerifyDataReceived`. -/
  | verifying
  /-- Before `close(read_fd)`. -/
  | closing
  | exited
  /-- Aborted: the verification failed. -/
  | aborted
  deriving DecidableEq, Repr

structure Sender where
  pc : SenderPc
  iteration : Nat
  totalSent : Nat
  deriving DecidableEq, Repr

structure Receiver where
  pc : ReceiverPc
  iteration : Nat
  totalReceived : Nat
  receivedData : List UInt8
  deriving DecidableEq, Repr

/-- The two processes, the barrier and the contents of the FIFO. -/
structure State where
  barrier : Rendezvous Side
  sender : Sender
  receiver : Receiver
  fifo : Stream

/-- `write_fd` is open. -/
def SenderPc.hasFifo : SenderPc → Bool
  | .opened | .waiting | .sending | .closing => true
  | .generating | .ready | .opening | .exited | .aborted | .killed => false

/-- `read_fd` is open. -/
def ReceiverPc.hasFifo : ReceiverPc → Bool
  | .opened | .waiting | .receiving | .verifying | .closing => true
  | .ready | .opening | .exited | .aborted => false

/-- Both processes past the constructor of their barrier, the FIFO empty. -/
def State.fresh : State where
  barrier := .fresh
  sender := ⟨.generating, 0, 0⟩
  receiver := ⟨.ready, 0, 0, []⟩
  fifo := []

/-- A FIFO that nobody has open forgets its contents. -/
def State.settle (s : State) : State :=
  if s.sender.pc.hasFifo ∨ s.receiver.pc.hasFifo then s else { s with fifo := [] }

/-! ## §2. Steps. -/

/-- What `SendProcess` makes of a turn of its loop. -/
def afterSend (s : State) : SendTurn → Option State
  | .finished => some { s with sender := { s.sender with pc := .closing } }
  | .wrote fifo totalSent =>
      some { s with fifo := fifo, sender := { s.sender with totalSent := totalSent } }
  -- `SIGPIPE`
  | .noReader => some (State.settle { s with sender := { s.sender with pc := .killed } })
  | .blocked => none

/-- `SendProcess`; `m` is what a `write` accepts. -/
def senderStep (c : Transfer) (s : State) (m : Nat) : Option State :=
  match s.sender.pc with
  -- `GenerateDataToSend`, before the loop
  | .generating =>
      if checksumSize < c.dataSize then
        some { s with sender := { s.sender with pc := .ready } }
      else
        some { s with sender := { s.sender with pc := .aborted } }
  | .ready =>
      if s.sender.iteration < c.total then
        some { s with sender := { s.sender with pc := .opening } }
      else
        some { s with sender := { s.sender with pc := .exited } }
  -- `open(FIFO_PATH, O_WRONLY)` waits for a reader
  | .opening =>
      if s.receiver.pc.hasFifo ∨ s.receiver.pc = .opening then
        some { s with sender := { s.sender with pc := .opened } }
      else none
  | .opened =>
      some { s with
        barrier := s.barrier.arrive .sender
        sender := { s.sender with pc := .waiting } }
  -- `size_t total_sent = 0`
  | .waiting =>
      if s.barrier.CanLeave .sender then
        some { s with
          barrier := s.barrier.leave .sender
          sender := { s.sender with pc := .sending, totalSent := 0 } }
      else none
  | .sending =>
      afterSend s
        (c.sendTurn s.sender.iteration s.sender.totalSent s.fifo s.receiver.pc.hasFifo m)
  | .closing =>
      some (State.settle { s with
        sender := { s.sender with pc := .ready, iteration := s.sender.iteration + 1 } })
  | .exited | .aborted | .killed => none

/-- What `ReceiveProcess` makes of a turn of its loop. -/
def afterReceive (s : State) : ReceiveTurn → Option State
  -- "Sender closed the FIFO prematurely" leads to the verification as well
  | .finished | .endOfFile => some { s with receiver := { s.receiver with pc := .verifying } }
  | .got fifo totalReceived receivedData =>
      some { s with
        fifo := fifo
        receiver := { s.receiver with
          totalReceived := totalReceived, receivedData := receivedData } }
  | .blocked => none

/-- `ReceiveProcess`; `m` is what a `read` returns. -/
def receiverStep (c : Transfer) (s : State) (m : Nat) : Option State :=
  match s.receiver.pc with
  | .ready =>
      if s.receiver.iteration < c.total then
        some { s with receiver := { s.receiver with pc := .opening, receivedData := [] } }
      else
        some { s with receiver := { s.receiver with pc := .exited } }
  -- `open(FIFO_PATH, O_RDONLY)` waits for a writer
  | .opening =>
      if s.sender.pc.hasFifo ∨ s.sender.pc = .opening then
        some { s with receiver := { s.receiver with pc := .opened } }
      else none
  | .opened =>
      some { s with
        barrier := s.barrier.arrive .receiver
        receiver := { s.receiver with pc := .waiting } }
  | .waiting =>
      if s.barrier.CanLeave .receiver then
        some { s with
          barrier := s.barrier.leave .receiver
          receiver := { s.receiver with pc := .receiving, totalReceived := 0 } }
      else none
  | .receiving =>
      afterReceive s
        (c.receiveTurn s.receiver.totalReceived s.receiver.receivedData s.fifo
          s.sender.pc.hasFifo m)
  | .verifying =>
      if verifyDataReceived s.receiver.receivedData c.dataSize = some true then
        some { s with receiver := { s.receiver with pc := .closing } }
      -- `FATAL`: its end is closed with the process
      else
        some (State.settle { s with receiver := { s.receiver with pc := .aborted } })
  | .closing =>
      some (State.settle { s with
        receiver := { s.receiver with pc := .ready, iteration := s.receiver.iteration + 1 } })
  | .exited | .aborted => none

/-- One step of one process.  The number is read only by a `write` or a
`read`: what the kernel accepts or returns. -/
inductive Act where
  | sender (m : Nat)
  | receiver (m : Nat)

def step (c : Transfer) (s : State) : Act → Option State
  | .sender m => senderStep c s m
  | .receiver m => receiverStep c s m

/-- The FIFO benchmark after `mkfifo()` and `fork()`. -/
def system (c : Transfer) : System State Act where
  init s := s = State.fresh
  step := step c

/-! ## §3. The FIFO as a framed link. -/

def SenderPc.phase : SenderPc → Phase
  | .generating | .ready | .opening | .opened | .exited | .aborted => .before
  | .waiting => .waiting
  | .sending | .closing | .killed => .active

def ReceiverPc.phase : ReceiverPc → Phase
  | .ready | .opening | .opened | .exited => .before
  | .waiting => .waiting
  | .receiving | .verifying | .closing | .aborted => .active

/-- The bytes of this iteration's frame written so far. -/
def Sender.sent (p : Sender) : Nat :=
  if p.pc.phase = .active then p.totalSent else 0

/-- The bytes of this iteration read so far. -/
def Receiver.received (p : Receiver) : List UInt8 :=
  if p.pc.phase = .active then p.receivedData else []

def State.link (s : State) : Link UInt8 where
  barrier := s.barrier
  sIter := s.sender.iteration
  sPhase := s.sender.pc.phase
  sent := s.sender.sent
  rIter := s.receiver.iteration
  rPhase := s.receiver.pc.phase
  received := s.receiver.received
  channel := s.fifo

/-- In an iteration, before its transfer. -/
def SenderPc.isBeforeLoop : SenderPc → Bool
  | .opening | .opened | .waiting => true
  | _ => false

def ReceiverPc.isBeforeLoop : ReceiverPc → Bool
  | .opening | .opened | .waiting => true
  | _ => false

/-- Out of the `read` loop, in the same iteration. -/
def ReceiverPc.isPastLoop : ReceiverPc → Bool
  | .verifying | .closing | .aborted => true
  | _ => false

/-- What the link does not show of the sender. -/
structure SenderLocal (c : Transfer) (p : Sender) : Prop where
  alive : p.pc ≠ .killed
  /-- `GenerateDataToSend` aborts on small sizes only. -/
  refused : p.pc = .aborted → c.dataSize ≤ checksumSize
  exited : p.pc = .exited → p.iteration = c.total
  inside : p.pc.isBeforeLoop = true → p.iteration < c.total
  /-- The loop is left with the whole frame written. -/
  sentAll : p.pc = .closing → c.payload.length ≤ p.totalSent

/-- What the link does not show of the receiver. -/
structure ReceiverLocal (c : Transfer) (r : Receiver) : Prop where
  exited : r.pc = .exited → r.iteration = c.total
  inside : r.pc.isBeforeLoop = true → r.iteration < c.total
  emptied : r.pc.isBeforeLoop = true → r.receivedData = []
  counted : r.pc.phase = .active → r.totalReceived = r.receivedData.length
  /-- The loop is left with a whole frame. -/
  whole : r.pc.isPastLoop = true → c.payload.length ≤ r.receivedData.length
  /-- The receiver aborts only on a payload that does not verify. -/
  verdict : r.pc = .aborted → verifyDataReceived c.payload c.dataSize ≠ some true

variable {c : Transfer} {s s' : State} {m : Nat}

abbrev LinkInv (c : Transfer) (s : State) : Prop :=
  Framing.Inv c.payload c.total s.link

theorem Receiver.received_of_active {r : Receiver} (h : r.pc.phase = .active) :
    r.received = r.receivedData :=
  if_pos h

theorem Sender.sent_of_active {p : Sender} (h : p.pc.phase = .active) :
    p.sent = p.totalSent :=
  if_pos h

theorem State.settle_sender (s : State) : s.settle.sender = s.sender := by
  unfold State.settle
  split <;> rfl

theorem State.settle_receiver (s : State) : s.settle.receiver = s.receiver := by
  unfold State.settle
  split <;> rfl

/-- Nothing is forgotten when there is nothing in the FIFO. -/
theorem State.settle_eq (h : s.receiver.pc.hasFifo = false → s.sender.pc.hasFifo = false →
    s.fifo = []) : s.settle = s := by
  unfold State.settle
  split
  next => rfl
  next hnone =>
    rw [not_or, Bool.not_eq_true, Bool.not_eq_true] at hnone
    have hempty := h hnone.2 hnone.1
    cases s
    subst hempty
    rfl

/-- A sender with something left to write has a reader. -/
theorem hasFifo_of_pushing (hr : ReceiverLocal c s.receiver) (hinv : LinkInv c s)
    (hpc : s.sender.pc = .sending) (hlt : s.sender.totalSent < c.payload.length) :
    s.receiver.pc.hasFifo = true := by
  have hact : s.sender.pc.phase = .active := by rw [hpc]; rfl
  have hsent := Sender.sent_of_active hact
  obtain ⟨_, hne, hlack⟩ := hinv.pushing hact (show s.sender.sent < _ by omega)
  have hne' : s.receiver.pc.phase ≠ .before := hne
  cases hrpc : s.receiver.pc with
  | opened | waiting | receiving | verifying | closing => rfl
  | ready | opening | exited =>
      rw [hrpc] at hne'
      exact absurd rfl hne'
  | aborted =>
      have hract : s.receiver.pc.phase = .active := by rw [hrpc]; rfl
      have hshort : s.receiver.received.length < c.payload.length := hlack hract
      rw [Receiver.received_of_active hract] at hshort
      have hwhole := hr.whole (by rw [hrpc]; rfl)
      omega

/-- A receiver that starves has a writer. -/
theorem hasFifo_of_lacking (hp : SenderLocal c s.sender) (hr : ReceiverLocal c s.receiver)
    (hinv : LinkInv c s) (hpc : s.receiver.pc = .receiving)
    (hlt : s.receiver.totalReceived < c.payload.length) (hempty : s.fifo = []) :
    s.sender.pc.hasFifo = true := by
  have hact : s.receiver.pc.phase = .active := by rw [hpc]; rfl
  have hcount := hr.counted hact
  have hrecv : s.link.received.length < c.payload.length := by
    show s.receiver.received.length < _
    rw [Receiver.received_of_active hact]
    omega
  obtain ⟨_, hne, _⟩ := hinv.lacking hact hrecv hempty
  have hne' : s.sender.pc.phase ≠ .before := hne
  cases hspc : s.sender.pc with
  | opened | waiting | sending | closing => rfl
  | generating | ready | opening | exited | aborted =>
      rw [hspc] at hne'
      exact absurd rfl hne'
  | killed => exact absurd hspc hp.alive

/-- A sender past its loop leaves an empty FIFO to a receiver that has closed
its end. -/
theorem empty_of_sender_closing (hinv : LinkInv c s) (hpc : s.sender.pc = .closing)
    (hclosed : s.receiver.pc.phase = .before) : s.fifo = [] := by
  have hact : s.link.sPhase = .active := show s.sender.pc.phase = _ by rw [hpc]; rfl
  have hap := hinv.apart
  rw [hact, show s.link.rPhase = .before from hclosed] at hap
  have hcross : Phase.active.crossed = 1 := rfl
  have hbegun : Phase.before.begun = 0 := rfl
  exact (hinv.behind (by omega)).1

/-- A receiver past its loop leaves an empty FIFO. -/
theorem empty_of_receiver_past (hr : ReceiverLocal c s.receiver) (hinv : LinkInv c s)
    (hpast : s.receiver.pc.isPastLoop = true) : s.fifo = [] := by
  have hact : s.receiver.pc.phase = .active := by
    cases hpc : s.receiver.pc with
    | verifying | closing | aborted => rfl
    | ready | opening | opened | waiting | receiving | exited =>
        rw [hpc] at hpast
        cases hpast
  refine (hinv.complete hact ?_).2.1
  show _ ≤ s.receiver.received.length
  rw [Receiver.received_of_active hact]
  exact hr.whole hpast

theorem phase_of_not_hasFifo {pc : ReceiverPc} (h : pc.hasFifo = false) (hrun : pc ≠ .aborted) :
    pc.phase = .before := by
  cases pc with
  | ready | opening | exited => rfl
  | aborted => exact absurd rfl hrun
  | opened | waiting | receiving | verifying | closing => cases h

/-! ## §4. Every step is a step of the link. -/

/-- **A step of the sender** is a step of the link or invisible to it. -/
theorem senderStep_refines (hp : SenderLocal c s.sender) (hr : ReceiverLocal c s.receiver)
    (hinv : LinkInv c s) (hs : senderStep c s m = some s') :
    SenderLocal c s'.sender ∧ s'.receiver = s.receiver ∧
      (Framing.system c.payload c.total).Steps (fun _ _ => True) s.link s'.link := by
  obtain ⟨b, ⟨pc, i, sent⟩, r, ch⟩ := s
  cases pc with
  | generating =>
      dsimp only [senderStep] at hs
      obtain ⟨_, rfl⟩ | ⟨hsmall, rfl⟩ := System.branch_cases hs
      · exact ⟨⟨nofun, nofun, nofun, nofun, nofun⟩, rfl, .refl _⟩
      · exact ⟨⟨nofun, fun _ => Nat.le_of_not_lt hsmall, nofun, nofun, nofun⟩, rfl, .refl _⟩
  | ready =>
      dsimp only [senderStep] at hs
      split at hs
      next hlt =>
        injection hs with hs
        subst hs
        exact ⟨⟨nofun, nofun, nofun, fun _ => hlt, nofun⟩, rfl, .refl _⟩
      next hge =>
        -- out of the loop: all iterations are done
        injection hs with hs
        subst hs
        have hle : i + 0 ≤ c.total := hinv.sBound
        have htotal : i = c.total := by omega
        exact ⟨⟨nofun, nofun, fun _ => htotal, nofun, nofun⟩, rfl, .refl _⟩
  | opening =>
      dsimp only [senderStep] at hs
      obtain ⟨_, rfl⟩ := System.guard_cases hs
      exact ⟨⟨nofun, nofun, nofun, fun _ => hp.inside rfl, nofun⟩, rfl, .refl _⟩
  | opened =>
      injection hs with hs
      subst hs
      refine ⟨⟨nofun, nofun, nofun, fun _ => hp.inside rfl, nofun⟩, rfl, ?_⟩
      exact System.Steps.single (a := .senderArrive) (if_pos ⟨rfl, hp.inside rfl⟩)
  | waiting =>
      dsimp only [senderStep] at hs
      obtain ⟨hcan, rfl⟩ := System.guard_cases hs
      refine ⟨⟨nofun, nofun, nofun, nofun, nofun⟩, rfl, ?_⟩
      exact System.Steps.single (a := .senderCross) (if_pos ⟨rfl, hcan⟩)
  | sending =>
      change afterSend _ (c.sendTurn i sent ch r.pc.hasFifo m) = some s' at hs
      cases hturn : c.sendTurn i sent ch r.pc.hasFifo m with
      | finished =>
          rw [hturn] at hs
          injection hs with hs
          subst hs
          exact ⟨⟨nofun, nofun, nofun, nofun, fun _ => Transfer.sendTurn_finished hturn⟩, rfl, .refl _⟩
      | wrote fifo total =>
          rw [hturn] at hs
          injection hs with hs
          subst hs
          obtain ⟨hle, htotal, hfifo⟩ := Transfer.sendTurn_wrote hturn
          subst htotal hfifo
          refine ⟨⟨nofun, nofun, nofun, nofun, nofun⟩, rfl, ?_⟩
          exact System.Steps.single (a := .push m) (if_pos ⟨rfl, hle⟩)
      | noReader =>
          obtain ⟨hlt, hnone⟩ := Transfer.sendTurn_noReader hturn
          have hsome := hasFifo_of_pushing hr hinv rfl hlt
          exact absurd (hnone.symm.trans hsome) (by decide)
      | blocked =>
          rw [hturn] at hs
          cases hs
  | closing =>
      have hge : c.payload.length ≤ sent := hp.sentAll rfl
      have hle : sent ≤ c.payload.length := hinv.sent_le
      have hfull : sent = c.payload.length := by omega
      injection hs with hs
      -- closing forgets nothing: a receiver without its end has read it all
      rw [State.settle_eq] at hs
      · subst hs
        refine ⟨⟨nofun, nofun, nofun, nofun, nofun⟩, rfl, ?_⟩
        exact System.Steps.single (a := .senderNext) (if_pos ⟨rfl, hfull⟩)
      · intro hclosed _
        show ch = []
        by_cases hab : r.pc = .aborted
        · exact empty_of_receiver_past hr hinv (by rw [hab]; rfl)
        · exact empty_of_sender_closing hinv rfl (phase_of_not_hasFifo hclosed hab)
  | exited | aborted | killed => cases hs

/-- **A step of the receiver** is a step of the link or invisible to it. -/
theorem receiverStep_refines (hp : SenderLocal c s.sender) (hr : ReceiverLocal c s.receiver)
    (hinv : LinkInv c s) (hs : receiverStep c s m = some s') :
    s'.sender = s.sender ∧ ReceiverLocal c s'.receiver ∧
      (Framing.system c.payload c.total).Steps (fun _ _ => True) s.link s'.link := by
  obtain ⟨b, p, ⟨pc, i, total, data⟩, ch⟩ := s
  cases pc with
  | ready =>
      dsimp only [receiverStep] at hs
      obtain ⟨hlt, rfl⟩ | ⟨hge, rfl⟩ := System.branch_cases hs
      · exact ⟨rfl, ⟨nofun, fun _ => hlt, fun _ => rfl, nofun, nofun, nofun⟩, .refl _⟩
      · have hle : i + 0 ≤ c.total := hinv.rBound
        have htotal : i = c.total := by omega
        exact ⟨rfl, ⟨fun _ => htotal, nofun, nofun, nofun, nofun, nofun⟩, .refl _⟩
  | opening =>
      dsimp only [receiverStep] at hs
      obtain ⟨_, rfl⟩ := System.guard_cases hs
      exact ⟨rfl, ⟨nofun, fun _ => hr.inside rfl, fun _ => hr.emptied rfl, nofun, nofun,
        nofun⟩, .refl _⟩
  | opened =>
      injection hs with hs
      subst hs
      refine ⟨rfl, ⟨nofun, fun _ => hr.inside rfl, fun _ => hr.emptied rfl, nofun, nofun,
        nofun⟩, ?_⟩
      exact System.Steps.single (a := .receiverArrive) (if_pos ⟨rfl, hr.inside rfl⟩)
  | waiting =>
      dsimp only [receiverStep] at hs
      obtain ⟨hcan, rfl⟩ := System.guard_cases hs
      have hempty : data = [] := hr.emptied rfl
      subst hempty
      refine ⟨rfl, ⟨nofun, nofun, nofun, fun _ => rfl, nofun, nofun⟩, ?_⟩
      exact System.Steps.single (a := .receiverCross) (if_pos ⟨rfl, hcan⟩)
  | receiving =>
      have hcount : total = data.length := hr.counted rfl
      change afterReceive _ (c.receiveTurn total data ch p.pc.hasFifo m) = some s' at hs
      cases hturn : c.receiveTurn total data ch p.pc.hasFifo m with
      | finished =>
          rw [hturn] at hs
          injection hs with hs
          subst hs
          have hge := Transfer.receiveTurn_finished hturn
          exact ⟨rfl, ⟨nofun, nofun, nofun, fun _ => hcount, fun _ => hcount ▸ hge, nofun⟩,
            .refl _⟩
      | endOfFile =>
          obtain ⟨hlt, hempty, hnone⟩ := Transfer.receiveTurn_endOfFile hturn
          have hsome := hasFifo_of_lacking hp hr hinv rfl hlt hempty
          exact absurd (hnone.symm.trans hsome) (by decide)
      | got fifo n data' =>
          rw [hturn] at hs
          injection hs with hs
          subst hs
          obtain ⟨hle, hn, hdata, hfifo⟩ := Transfer.receiveTurn_got hturn
          subst hn hdata hfifo
          refine ⟨rfl, ⟨nofun, nofun, nofun, ?_, nofun, nofun⟩, ?_⟩
          · intro _
            show total + m = (data ++ untag (ch.take m)).length
            rw [List.length_append, Framing.length_untag, List.length_take]
            omega
          · exact System.Steps.single (a := .take m) (if_pos ⟨rfl, hle⟩)
      | blocked =>
          rw [hturn] at hs
          cases hs
  | verifying =>
      have hcount : total = data.length := hr.counted rfl
      have hwhole : c.payload.length ≤ data.length := hr.whole rfl
      have hempty : ch = [] := empty_of_receiver_past hr hinv rfl
      dsimp only [receiverStep] at hs
      split at hs
      next =>
        injection hs with hs
        subst hs
        exact ⟨rfl, ⟨nofun, nofun, nofun, fun _ => hcount, fun _ => hwhole, nofun⟩, .refl _⟩
      next hbad =>
        injection hs with hs
        rw [State.settle_eq (fun _ _ => hempty)] at hs
        subst hs
        have hdata : data = c.payload := (hinv.complete rfl hwhole).1
        refine ⟨rfl, ⟨nofun, nofun, nofun, fun _ => hcount, fun _ => hwhole, ?_⟩, .refl _⟩
        intro _
        rw [← hdata]
        exact hbad
  | closing =>
      have hwhole : c.payload.length ≤ data.length := hr.whole rfl
      have hempty : ch = [] := empty_of_receiver_past hr hinv rfl
      injection hs with hs
      rw [State.settle_eq (fun _ _ => hempty)] at hs
      subst hs
      refine ⟨rfl, ⟨nofun, nofun, nofun, nofun, nofun, nofun⟩, ?_⟩
      exact System.Steps.single (a := .receiverNext) (if_pos ⟨rfl, hwhole⟩)
  | exited => cases hs
  | aborted => cases hs

/-- **The FIFO benchmark refines the framed link.** -/
theorem refines (h : (system c).Reachable s) :
    (SenderLocal c s.sender ∧ ReceiverLocal c s.receiver) ∧
      (Framing.system c.payload c.total).Reachable s.link := by
  refine System.simulates (I := fun t => SenderLocal c t.sender ∧ ReceiverLocal c t.receiver)
    State.link ?_ ?_ h
  · intro t ht
    rw [show t = State.fresh from ht]
    exact ⟨⟨⟨nofun, nofun, nofun, nofun, nofun⟩, ⟨nofun, nofun, nofun, nofun, nofun, nofun⟩⟩, rfl⟩
  · intro t a t' hlocal hreach hs
    obtain ⟨hp, hr⟩ := hlocal
    have hinv := Framing.inv_of_reachable hreach
    cases a with
    | sender m =>
        obtain ⟨hp', hkeep, hrun⟩ := senderStep_refines hp hr hinv hs
        exact ⟨⟨hp', hkeep ▸ hr⟩, hrun⟩
    | receiver m =>
        obtain ⟨hkeep, hr', hrun⟩ := receiverStep_refines hp hr hinv hs
        exact ⟨⟨hkeep ▸ hp, hr'⟩, hrun⟩

/-! ## §5. Progress. -/

theorem canProgress_of_sender (hs : senderStep c s m = some s')
    (hne : s'.sender ≠ s.sender) : (system c).CanProgress s :=
  System.CanProgress.of_step (f := State.sender) (a := Act.sender m) hs hne

theorem canProgress_of_receiver (hs : receiverStep c s m = some s')
    (hne : s'.receiver ≠ s.receiver) : (system c).CanProgress s :=
  System.CanProgress.of_step (f := State.receiver) (a := Act.receiver m) hs hne

/-- A sender in `GenerateDataToSend` goes on or aborts. -/
theorem canProgress_of_generating (hpc : s.sender.pc = .generating) :
    (system c).CanProgress s := by
  obtain ⟨b, ⟨pc, i, sent⟩, r, ch⟩ := s
  have hgenerating : pc = .generating := hpc
  subst hgenerating
  exact .of_branch (f := fun s => s.sender.pc) (a := .sender 0) rfl nofun nofun

/-- A sender at the head of its loop goes on. -/
theorem canProgress_of_sender_ready (hpc : s.sender.pc = .ready) : (system c).CanProgress s := by
  obtain ⟨b, ⟨pc, i, sent⟩, r, ch⟩ := s
  have hready : pc = .ready := hpc
  subst hready
  by_cases hlt : i < c.total
  · exact canProgress_of_sender (m := 0) (if_pos hlt) nofun
  · exact canProgress_of_sender (m := 0) (if_neg hlt) nofun

/-- A receiver at the head of its loop goes on. -/
theorem canProgress_of_receiver_ready (hpc : s.receiver.pc = .ready) :
    (system c).CanProgress s := by
  obtain ⟨b, p, ⟨pc, i, total, data⟩, ch⟩ := s
  have hready : pc = .ready := hpc
  subst hready
  by_cases hlt : i < c.total
  · exact canProgress_of_receiver (m := 0) (if_pos hlt) nofun
  · exact canProgress_of_receiver (m := 0) (if_neg hlt) nofun

/-- A sender in `open()` is let in, or the receiver has a step: the only
receiver that is neither open nor opening for good has made all its
iterations, and then so has the sender. -/
theorem canProgress_of_sender_opening (hp : SenderLocal c s.sender)
    (hr : ReceiverLocal c s.receiver) (hinv : LinkInv c s)
    (hrun : s.receiver.pc ≠ .aborted) (hpc : s.sender.pc = .opening) :
    (system c).CanProgress s := by
  obtain ⟨b, ⟨pc, i, sent⟩, r, ch⟩ := s
  have hopening : pc = .opening := hpc
  subst hopening
  cases hrpc : r.pc with
  | opening | opened | waiting | receiving | verifying | closing =>
      have hother : r.pc.hasFifo = true ∨ r.pc = .opening := by
        rw [hrpc]
        decide
      exact canProgress_of_sender (m := 0) (if_pos hother) nofun
  | ready => exact canProgress_of_receiver_ready hrpc
  | aborted => exact absurd hrpc hrun
  | exited =>
      have hlt : i < c.total := hp.inside rfl
      have hdone : r.iteration = c.total := hr.exited hrpc
      have hle : r.iteration ≤ i + 0 := by
        have hap := hinv.apart.2.1
        rw [show (Link.rPhase _ : Phase) = .before from congrArg ReceiverPc.phase hrpc] at hap
        exact hap
      omega

/-- A receiver in `open()` is let in, or the sender has a step. -/
theorem canProgress_of_receiver_opening (hp : SenderLocal c s.sender)
    (hr : ReceiverLocal c s.receiver) (hinv : LinkInv c s)
    (hgenerated : s.sender.pc ≠ .aborted) (hpc : s.receiver.pc = .opening) :
    (system c).CanProgress s := by
  obtain ⟨b, p, ⟨pc, i, total, data⟩, ch⟩ := s
  have hopening : pc = .opening := hpc
  subst hopening
  cases hspc : p.pc with
  | opening | opened | waiting | sending | closing =>
      have hother : p.pc.hasFifo = true ∨ p.pc = .opening := by
        rw [hspc]
        decide
      exact canProgress_of_receiver (m := 0) (if_pos hother) nofun
  | generating => exact canProgress_of_generating hspc
  | ready => exact canProgress_of_sender_ready hspc
  | aborted => exact absurd hspc hgenerated
  | killed => exact absurd hspc hp.alive
  | exited =>
      have hlt : i < c.total := hr.inside rfl
      have hdone : p.iteration = c.total := hp.exited hspc
      have hle : p.iteration ≤ i + 0 := by
        have hap := hinv.apart.1
        rw [show (Link.sPhase _ : Phase) = .before from congrArg SenderPc.phase hspc] at hap
        exact hap
      omega

/-- A sender that the link finds unblocked, if it is not in `open()`, has a
step. -/
theorem canProgress_of_senderReady (hp : SenderLocal c s.sender)
    (hr : ReceiverLocal c s.receiver) (hinv : LinkInv c s) (hrun : s.receiver.pc ≠ .aborted)
    (hgenerated : s.sender.pc ≠ .aborted)
    (hready : Framing.SenderReady c.payload c.total s.link) : (system c).CanProgress s := by
  obtain ⟨b, ⟨pc, i, sent⟩, r, ch⟩ := s
  rcases hready with ⟨hph, hlt⟩ | ⟨hph, hcan⟩ | ⟨hph, hroom⟩
  · cases pc with
    | generating => exact canProgress_of_generating rfl
    | ready => exact canProgress_of_sender_ready rfl
    | opening => exact canProgress_of_sender_opening hp hr hinv hrun rfl
    | opened => exact canProgress_of_sender (m := 0) rfl nofun
    | exited =>
        have htotal : i = c.total := hp.exited rfl
        have hlt' : i < c.total := hlt
        omega
    | aborted => exact absurd rfl hgenerated
    | waiting | sending | closing | killed => cases hph
  · cases pc with
    | waiting => exact canProgress_of_sender (m := 0) (if_pos hcan) nofun
    | generating | ready | opening | opened | sending | closing | exited | aborted | killed =>
        cases hph
  · cases pc with
    | sending =>
        by_cases hlt : sent < c.payload.length
        · -- not done, so the channel is empty and the reader is there
          have hempty : ch = [] := by
            rcases hroom with hfull | hempty
            · have hfull' : sent = c.payload.length := hfull
              omega
            · exact hempty
          subst hempty
          have hturn : c.sendTurn i sent [] r.pc.hasFifo 1 =
              .wrote (slice c.payload i sent 1) (sent + 1) := by
            rw [hasFifo_of_pushing hr hinv rfl hlt]
            exact Transfer.sendTurn_empty hlt
          refine canProgress_of_sender (m := 1) (congrArg (afterSend _) hturn) ?_
          intro heq
          exact absurd (congrArg Sender.totalSent heq) (Nat.succ_ne_self sent)
        · have hturn : c.sendTurn i sent ch r.pc.hasFifo 0 = .finished :=
            Transfer.sendTurn_over (Nat.le_of_not_lt hlt)
          exact canProgress_of_sender (m := 0) (congrArg (afterSend _) hturn) nofun
    | closing =>
        refine canProgress_of_sender (m := 0) rfl ?_
        rw [State.settle_sender]
        exact nofun
    | killed => exact absurd rfl hp.alive
    | generating | ready | opening | opened | waiting | exited | aborted => cases hph

/-- A receiver that the link finds unblocked, if it is not in `open()`, has a
step. -/
theorem canProgress_of_receiverReady (hp : SenderLocal c s.sender)
    (hr : ReceiverLocal c s.receiver) (hinv : LinkInv c s) (hrun : s.receiver.pc ≠ .aborted)
    (hgenerated : s.sender.pc ≠ .aborted)
    (hready : Framing.ReceiverReady c.payload c.total s.link) : (system c).CanProgress s := by
  obtain ⟨b, p, ⟨pc, i, total, data⟩, ch⟩ := s
  rcases hready with ⟨hph, hlt⟩ | ⟨hph, hcan⟩ | ⟨hph, hmore⟩
  · cases pc with
    | ready => exact canProgress_of_receiver_ready rfl
    | opening => exact canProgress_of_receiver_opening hp hr hinv hgenerated rfl
    | opened => exact canProgress_of_receiver (m := 0) rfl nofun
    | exited =>
        have htotal : i = c.total := hr.exited rfl
        have hlt' : i < c.total := hlt
        omega
    | waiting | receiving | verifying | closing | aborted => cases hph
  · cases pc with
    | waiting => exact canProgress_of_receiver (m := 0) (if_pos hcan) nofun
    | ready | opening | opened | receiving | verifying | closing | exited | aborted => cases hph
  · cases pc with
    | receiving =>
        have hcount : total = data.length := hr.counted rfl
        by_cases hlt : total < c.payload.length
        · have hne : ch ≠ [] := by
            rcases hmore with hwhole | hne
            · have hwhole' : c.payload.length ≤ data.length := hwhole
              omega
            · exact hne
          have hturn : c.receiveTurn total data ch p.pc.hasFifo 1 =
              .got (ch.drop 1) (total + 1) (data ++ untag (ch.take 1)) :=
            Transfer.receiveTurn_nonempty hlt hne
          refine canProgress_of_receiver (m := 1) (congrArg (afterReceive _) hturn) ?_
          intro heq
          exact absurd (congrArg Receiver.totalReceived heq) (Nat.succ_ne_self total)
        · have hturn : c.receiveTurn total data ch p.pc.hasFifo 0 = .finished :=
            Transfer.receiveTurn_over (Nat.le_of_not_lt hlt)
          exact canProgress_of_receiver (m := 0) (congrArg (afterReceive _) hturn) nofun
    | verifying =>
        by_cases hgood : verifyDataReceived data c.dataSize = some true
        · exact canProgress_of_receiver (m := 0) (if_pos hgood) nofun
        · refine canProgress_of_receiver (m := 0) (if_neg hgood) ?_
          rw [State.settle_receiver]
          exact nofun
    | closing =>
        refine canProgress_of_receiver (m := 0) rfl ?_
        rw [State.settle_receiver]
        exact nofun
    | aborted => exact absurd rfl hrun
    | ready | opening | opened | waiting | exited => cases hph

/-- **No stuck state** before both processes have returned, with a payload
that verifies. -/
theorem progress (hp : SenderLocal c s.sender) (hr : ReceiverLocal c s.receiver)
    (hinv : LinkInv c s) (hgood : verifyDataReceived c.payload c.dataSize = some true)
    (hmore : ¬ (s.sender.pc = .exited ∧ s.receiver.pc = .exited)) :
    (system c).CanProgress s := by
  have hrun : s.receiver.pc ≠ .aborted := fun habort => hr.verdict habort hgood
  have hgenerated := not_refused_of_verified hp.refused hgood
  by_cases hg : s.sender.pc = .generating
  · exact canProgress_of_generating hg
  by_cases hs : s.sender.pc = .ready
  · exact canProgress_of_sender_ready hs
  by_cases hrd : s.receiver.pc = .ready
  · exact canProgress_of_receiver_ready hrd
  -- somebody is inside an iteration
  have hinside : s.sender.iteration < c.total ∨ s.receiver.iteration < c.total := by
    have hsb : s.sender.iteration + s.sender.pc.phase.begun ≤ c.total := hinv.sBound
    have hrb : s.receiver.iteration + s.receiver.pc.phase.begun ≤ c.total := hinv.rBound
    by_cases hse : s.sender.pc = .exited
    · right
      have hre : s.receiver.pc ≠ .exited := fun hre => hmore ⟨hse, hre⟩
      cases hpc : s.receiver.pc with
      | ready => exact absurd hpc hrd
      | exited => exact absurd hpc hre
      | opening | opened => exact hr.inside (by rw [hpc]; rfl)
      | waiting | receiving | verifying | closing | aborted =>
          rw [hpc] at hrb
          exact hrb
    · left
      cases hpc : s.sender.pc with
      | generating => exact absurd hpc hg
      | ready => exact absurd hpc hs
      | exited => exact absurd hpc hse
      | aborted => exact absurd hpc hgenerated
      | opening | opened => exact hp.inside (by rw [hpc]; rfl)
      | waiting | sending | closing | killed =>
          rw [hpc] at hsb
          exact hsb
  rcases hinv.progress hinside with hready | hready
  · exact canProgress_of_senderReady hp hr hinv hrun hgenerated hready
  · exact canProgress_of_receiverReady hp hr hinv hrun hgenerated hready

/-! ## §6. The reopening protocol is harmless. -/

/-- What holds of every state of the FIFO benchmark. -/
structure Sound (c : Transfer) (s : State) : Prop where
  /-- A `write` finds the read end open, and so kills nobody. -/
  hasReader : s.sender.pc = .sending → s.sender.totalSent < c.dataSize →
    s.receiver.pc.hasFifo = true
  alive : s.sender.pc ≠ .killed
  /-- A `read` before the end of the frame does not see the end of file. -/
  noEof : s.receiver.pc = .receiving → s.receiver.totalReceived < c.dataSize →
    ¬ (s.fifo = [] ∧ s.sender.pc.hasFifo = false)
  /-- Every iteration ends with exactly the frame. -/
  whole : s.receiver.pc = .verifying →
    s.receiver.totalReceived = c.dataSize ∧ s.receiver.receivedData = c.payload
  /-- Only a payload that does not verify makes the receiver abort. -/
  verdict : s.receiver.pc = .aborted → verifyDataReceived c.payload c.dataSize ≠ some true
  /-- Only a size that `GenerateDataToSend` refuses makes the sender abort. -/
  refused : s.sender.pc = .aborted → c.dataSize ≤ checksumSize
  /-- With a larger size and a payload that verifies some step is enabled until
  both have returned. -/
  progress : checksumSize < c.dataSize → verifyDataReceived c.payload c.dataSize = some true →
    ¬ (s.sender.pc = .exited ∧ s.receiver.pc = .exited) → (system c).CanProgress s

/-- **The FIFO reopen protocol**, for every payload, every schedule and all
partial writes and reads. -/
theorem fifo_sound (c : Transfer) (s : State) (h : (system c).Reachable s) : Sound c s := by
  obtain ⟨⟨hp, hr⟩, hreach⟩ := refines h
  have hinv := Framing.inv_of_reachable hreach
  have hlen := c.payload_length
  refine ⟨?_, hp.alive, ?_, ?_, hr.verdict, hp.refused, fun _ => progress hp hr hinv⟩
  · intro hpc hlt
    exact hasFifo_of_pushing hr hinv hpc (by omega)
  · intro hpc hlt hend
    have hopen := hasFifo_of_lacking hp hr hinv hpc (by omega) hend.1
    exact absurd (hend.2.symm.trans hopen) (by decide)
  · intro hpc
    have hact : s.receiver.pc.phase = .active := by rw [hpc]; rfl
    have hrecv := Receiver.received_of_active hact
    have hdata : s.receiver.received = c.payload :=
      (hinv.complete hact (show _ ≤ s.receiver.received.length by
        rw [hrecv]
        exact hr.whole (by rw [hpc]; rfl))).1
    rw [hrecv] at hdata
    refine ⟨?_, hdata⟩
    rw [hr.counted hact, hdata, hlen]

/-- A run of the sample in which the sender has closed and is back in `open()`
for its second iteration while the receiver still reads the first frame. -/
def reopening : List Act :=
  [.sender 0, .sender 0, .receiver 0, .sender 0, .receiver 0, .sender 0, .receiver 0, .sender 0,
    .receiver 0, .sender 100, .sender 37, .sender 0, .sender 0, .receiver 30, .sender 0,
    .receiver 100, .receiver 7, .receiver 0]

theorem fifo_sound_sample :
    ∃ s, (system .sample).Reachable s ∧ s.sender.pc = .opening ∧ s.sender.iteration = 1 ∧
      s.receiver.pc = .verifying ∧ s.receiver.receivedData = List.replicate 137 0 ∧
      (system .sample).CanProgress s := by
  have hrun : ∃ s, (system .sample).Reachable s ∧
      (s.sender.pc = .opening ∧ s.sender.iteration = 1 ∧ s.receiver.pc = .verifying) :=
    System.exists_reachable_of_exec reopening rfl (by decide +kernel)
  obtain ⟨s, hreach, hopening, hiteration, hverifying⟩ := hrun
  have hsound := fifo_sound .sample s hreach
  refine ⟨s, hreach, hopening, hiteration, hverifying, (hsound.whole hverifying).2,
    hsound.progress (by decide) (verifyDataReceived_zero (by decide)) ?_⟩
  rintro ⟨hexited, _⟩
  rw [hopening] at hexited
  cases hexited

/-- A receiver in `open()` gets no further without the sender. -/
theorem stuck_of_aborted (hs : s.sender.pc = .aborted) (hr : s.receiver.pc = .opening) :
    ¬ (system c).CanProgress s := by
  refine System.not_canProgress fun a => ?_
  cases a with
  | sender m =>
      show senderStep c s m = none
      unfold senderStep
      rw [hs]
  | receiver m =>
      show receiverStep c s m = none
      unfold receiverStep
      rw [hr]
      dsimp only
      rw [hs]
      exact if_neg (by decide)

/-- **A size up to `CHECKSUM_SIZE` gets stuck**: the sender aborts in
`GenerateDataToSend`, and the receiver waits for a writer in `open()`. -/
theorem fifo_stuck : ¬ ∀ s, (system .small).Reachable s →
    ¬ (s.sender.pc = .exited ∧ s.receiver.pc = .exited) → (system .small).CanProgress s := by
  intro hall
  have hrun : (system .small).Reachable _ :=
    System.reachable_of_exec [.sender 0, .receiver 0] (s := State.fresh) rfl rfl
  exact stuck_of_aborted rfl rfl (hall _ hrun nofun)

end Akbench.Fifo
