/-
  Akbench.Transfer.Mq
  ───────────────────
  **`mq_bandwidth`: ONE BOUNDED MESSAGE QUEUE FOR ALL ITERATIONS.**

  The frame is cut into messages of `max_msg_size` bytes, the last one
  possibly shorter; the queue holds at most ten messages and blocks the sender
  beyond that.  The receiver stops on byte totals, not on message counts, and
  there is a single barrier per iteration, before the transfer.

  The system refines `Akbench.Framing` with messages for elements and the
  chunks of the payload for the frame.  `mq_open` and `mq_close` do not touch
  the queue and have no step of their own.
-/
import Akbench.Lib.Framing
import Akbench.Lib.Chunks
import Akbench.Common.Checksum

namespace Akbench.Mq

open Framing (Link Phase slice untag)

/-! ## §1. The queue. -/

/-- The arguments of `RunMqBandwidthBenchmark`, and the bytes to send. -/
structure Params where
  /-- `num_warmups + num_iterations`.  With warm-ups that are not negative and
  an iteration at least, `CalculateBandwidth` behind the loops finds what it
  asks for; it is not part of this model. -/
  total : Nat
  dataSize : Nat
  bufferSize : Nat
  /-- `data_to_send`. -/
  payload : List UInt8
  payload_length : payload.length = dataSize
  bufferSize_pos : 0 < bufferSize

/-- `max_msg_size`: the queue's `mq_msgsize` and both processes'
`buffer_size`. -/
def Params.maxMsgSize (c : Params) : Nat := min c.bufferSize 8192

/-- `attr.mq_maxmsg`. -/
def mqMaxmsg : Nat := 10

/-- The queue; the tag is the iteration of the `mq_send`, and no call reads
it. -/
abbrev Queue := List (Nat × List UInt8)

inductive SendResult where
  | sent (queue : Queue)
  | wouldBlock
  /-- `EMSGSIZE`. -/
  | tooLong

/-- `mq_send`. -/
def mqSend (c : Params) (queue : Queue) (iteration : Nat) (message : List UInt8) : SendResult :=
  if c.maxMsgSize < message.length then .tooLong
  else if queue.length < mqMaxmsg then .sent (queue ++ [(iteration, message)])
  else .wouldBlock

inductive ReceiveResult where
  | received (message : List UInt8) (queue : Queue)
  | wouldBlock
  /-- `EMSGSIZE`: the buffer is smaller than `mq_msgsize`. -/
  | tooSmall

/-- `mq_receive` into a buffer of `length` bytes. -/
def mqReceive (c : Params) (queue : Queue) (length : Nat) : ReceiveResult :=
  if length < c.maxMsgSize then .tooSmall
  else
    match queue with
    | [] => .wouldBlock
    | (_, message) :: rest => .received message rest

/-! ## §2. The two processes. -/

/-- Where `SendProcess` is. -/
inductive SenderPc where
  /-- In `GenerateDataToSend`. -/
  | generating
  /-- At the head of the iteration loop. -/
  | ready
  /-- Inside `barrier.Wait()`. -/
  | waiting
  /-- In the `mq_send` loop. -/
  | sending
  | exited
  /-- Aborted in `GenerateDataToSend`. -/
  | aborted
  /-- Aborted: `mq_send` failed. -/
  | failed
  deriving DecidableEq, Repr

/-- Where `ReceiveProcess` is. -/
inductive ReceiverPc where
  /-- At the head of the iteration loop. -/
  | ready
  /-- Inside `barrier.Wait()`. -/
  | waiting
  /-- In the `mq_receive` loop. -/
  | receiving
  /-- Before `VerifyDataReceived`. -/
  | verifying
  | exited
  /-- Aborted: `mq_receive` failed. -/
  | failed
  /-- Aborted: the verification failed. -/
  | aborted
  deriving DecidableEq, Repr

/-- `messages` counts the messages sent in this iteration; the code has no
such counter. -/
structure Sender where
  pc : SenderPc
  iteration : Nat
  totalSent : Nat
  messages : Nat
  deriving DecidableEq, Repr

/-- `messages` are the messages received in this iteration; the code keeps
only their bytes. -/
structure Receiver where
  pc : ReceiverPc
  iteration : Nat
  totalReceived : Nat
  receivedData : List UInt8
  messages : List (List UInt8)
  deriving DecidableEq, Repr

/-- The two processes, the barrier and the queue between them. -/
structure State where
  barrier : Rendezvous Side
  sender : Sender
  receiver : Receiver
  queue : Queue

/-- Both processes past the constructor of their barrier, the queue empty. -/
def State.fresh : State where
  barrier := .fresh
  sender := ⟨.generating, 0, 0, 0⟩
  receiver := ⟨.ready, 0, 0, [], []⟩
  queue := []

/-- The message of the next turn of the sender's loop. -/
def Params.nextMessage (c : Params) (totalSent : Nat) : List UInt8 :=
  (c.payload.drop totalSent).take (min c.maxMsgSize (c.dataSize - totalSent))

/-- What `SendProcess` makes of an `mq_send`. -/
def afterSend (c : Params) (s : State) : SendResult → Option State
  | .sent queue =>
      some { s with
        queue := queue
        sender := { s.sender with
          totalSent := s.sender.totalSent + min c.maxMsgSize (c.dataSize - s.sender.totalSent)
          messages := s.sender.messages + 1 } }
  | .wouldBlock => none
  -- `EMSGSIZE`
  | .tooLong => some { s with sender := { s.sender with pc := .failed } }

/-- `SendProcess`. -/
def senderStep (c : Params) (s : State) : Option State :=
  match s.sender.pc with
  -- `GenerateDataToSend`, before the loop
  | .generating =>
      if checksumSize < c.dataSize then
        some { s with sender := { s.sender with pc := .ready } }
      else
        some { s with sender := { s.sender with pc := .aborted } }
  | .ready =>
      if s.sender.iteration < c.total then
        some { s with
          barrier := s.barrier.arrive .sender
          sender := { s.sender with pc := .waiting } }
      else
        some { s with sender := { s.sender with pc := .exited } }
  -- `size_t total_sent = 0`
  | .waiting =>
      if s.barrier.CanLeave .sender then
        some { s with
          barrier := s.barrier.leave .sender
          sender := { s.sender with pc := .sending, totalSent := 0, messages := 0 } }
      else none
  | .sending =>
      if s.sender.totalSent < c.dataSize then
        afterSend c s
          (mqSend c s.queue s.sender.iteration (c.nextMessage s.sender.totalSent))
      else
        some { s with
          sender := { s.sender with pc := .ready, iteration := s.sender.iteration + 1 } }
  | .exited | .aborted | .failed => none

/-- What `ReceiveProcess` makes of an `mq_receive`. -/
def afterReceive (s : State) : ReceiveResult → Option State
  | .received message queue =>
      if message.length = 0 then
        -- "No more messages from sender": `break`
        some { s with queue := queue, receiver := { s.receiver with pc := .verifying } }
      else
        some { s with
          queue := queue
          receiver := { s.receiver with
            totalReceived := s.receiver.totalReceived + message.length
            receivedData := s.receiver.receivedData ++ message
            messages := s.receiver.messages ++ [message] } }
  | .wouldBlock => none
  -- `EMSGSIZE`
  | .tooSmall => some { s with receiver := { s.receiver with pc := .failed } }

/-- `ReceiveProcess`. -/
def receiverStep (c : Params) (s : State) : Option State :=
  match s.receiver.pc with
  | .ready =>
      if s.receiver.iteration < c.total then
        some { s with
          barrier := s.barrier.arrive .receiver
          receiver := { s.receiver with pc := .waiting, receivedData := [], messages := [] } }
      else
        some { s with receiver := { s.receiver with pc := .exited } }
  | .waiting =>
      if s.barrier.CanLeave .receiver then
        some { s with
          barrier := s.barrier.leave .receiver
          receiver := { s.receiver with pc := .receiving, totalReceived := 0 } }
      else none
  | .receiving =>
      if s.receiver.totalReceived < c.dataSize then
        -- `recv_buffer` has `buffer_size` bytes
        afterReceive s (mqReceive c s.queue c.maxMsgSize)
      else
        some { s with receiver := { s.receiver with pc := .verifying } }
  | .verifying =>
      if verifyDataReceived s.receiver.receivedData c.dataSize = some true then
        some { s with
          receiver := { s.receiver with pc := .ready, iteration := s.receiver.iteration + 1 } }
      else
        some { s with receiver := { s.receiver with pc := .aborted } }
  | .exited | .failed | .aborted => none

def step (c : Params) (s : State) : Side → Option State
  | .sender => senderStep c s
  | .receiver => receiverStep c s

/-- The benchmark after `mq_open(O_CREAT | O_EXCL)` and `fork()`. -/
def system (c : Params) : System State Side where
  init s := s = State.fresh
  step := step c

/-! ## §3. The queue as a framed link. -/

def SenderPc.phase : SenderPc → Phase
  | .generating | .ready | .exited | .aborted => .before
  | .waiting => .waiting
  | .sending | .failed => .active

def ReceiverPc.phase : ReceiverPc → Phase
  | .ready | .exited => .before
  | .waiting => .waiting
  | .receiving | .verifying | .failed | .aborted => .active

/-- The messages of this iteration sent so far. -/
def Sender.sent (p : Sender) : Nat :=
  if p.pc.phase = .active then p.messages else 0

/-- The messages of this iteration received so far. -/
def Receiver.received (r : Receiver) : List (List UInt8) :=
  if r.pc.phase = .active then r.messages else []

def State.link (s : State) : Link (List UInt8) where
  barrier := s.barrier
  sIter := s.sender.iteration
  sPhase := s.sender.pc.phase
  sent := s.sender.sent
  rIter := s.receiver.iteration
  rPhase := s.receiver.pc.phase
  received := s.receiver.received
  channel := s.queue

/-- The messages of one iteration. -/
def Params.frame (c : Params) : List (List UInt8) := chunks c.maxMsgSize c.payload

/-- What the link does not show of the sender. -/
structure SenderLocal (c : Params) (p : Sender) : Prop where
  alive : p.pc ≠ .failed
  /-- `GenerateDataToSend` aborts on small sizes only. -/
  refused : p.pc = .aborted → c.dataSize ≤ checksumSize
  exited : p.pc = .exited → p.iteration = c.total
  /-- Bytes and messages keep pace. -/
  aligned : p.pc = .sending → p.totalSent = min (p.messages * c.maxMsgSize) c.dataSize

/-- What the link does not show of the receiver. -/
structure ReceiverLocal (c : Params) (r : Receiver) : Prop where
  alive : r.pc ≠ .failed
  exited : r.pc = .exited → r.iteration = c.total
  emptied : r.pc = .waiting → r.receivedData = [] ∧ r.messages = []
  counted : r.pc.phase = .active →
    r.totalReceived = r.receivedData.length ∧ r.receivedData = r.messages.flatten
  /-- The loop is left with all messages. -/
  whole : r.pc = .verifying ∨ r.pc = .aborted → c.frame.length ≤ r.messages.length
  /-- The receiver aborts only on a payload that does not verify. -/
  verdict : r.pc = .aborted → verifyDataReceived c.payload c.dataSize ≠ some true

variable {c : Params} {s s' : State}

abbrev LinkInv (c : Params) (s : State) : Prop :=
  Framing.Inv c.frame c.total s.link

theorem Params.maxMsgSize_pos (c : Params) : 0 < c.maxMsgSize := by
  have hb := c.bufferSize_pos
  unfold Params.maxMsgSize
  omega

theorem Params.length_frame (c : Params) :
    c.frame.length = chunkCount c.maxMsgSize c.dataSize := by
  unfold Params.frame
  rw [length_chunks, c.payload_length]

theorem Receiver.received_of_active {r : Receiver} (h : r.pc.phase = .active) :
    r.received = r.messages :=
  if_pos h

/-- **The sender's chunking**: after `j` messages the next one is chunk `j`. -/
theorem Params.nextMessage_eq (c : Params) {totalSent j : Nat}
    (haligned : totalSent = min (j * c.maxMsgSize) c.dataSize) (hlt : totalSent < c.dataSize) :
    c.nextMessage totalSent = chunk c.maxMsgSize c.payload j := by
  have hlen := c.payload_length
  have hpos : totalSent = j * c.maxMsgSize := by omega
  unfold Params.nextMessage chunk
  rw [← hpos]
  by_cases hle : c.maxMsgSize ≤ c.dataSize - totalSent
  · rw [Nat.min_eq_left hle]
  · have hshort : (c.payload.drop totalSent).length ≤ c.dataSize - totalSent := by
      rw [List.length_drop, hlen]
    rw [Nat.min_eq_right (by omega), List.take_of_length_le hshort,
        List.take_of_length_le (by omega)]

/-- **The receiver's accounting**: what it has of the frame's messages, it has
of the payload's bytes. -/
theorem receivedData_eq (hr : ReceiverLocal c s.receiver) (hinv : LinkInv c s)
    (hact : s.receiver.pc.phase = .active) :
    s.receiver.receivedData = c.payload.take (s.receiver.messages.length * c.maxMsgSize) := by
  have hpre : s.receiver.received = c.frame.take s.receiver.received.length :=
    hinv.received_prefix
  rw [Receiver.received_of_active hact] at hpre
  calc s.receiver.receivedData
      = s.receiver.messages.flatten := (hr.counted hact).2
    _ = (c.frame.take s.receiver.messages.length).flatten := congrArg List.flatten hpre
    _ = c.payload.take (s.receiver.messages.length * c.maxMsgSize) :=
        flatten_take_chunks c.maxMsgSize_pos _ _

/-- The receiver's byte total in terms of its messages. -/
theorem totalReceived_eq (hr : ReceiverLocal c s.receiver) (hinv : LinkInv c s)
    (hact : s.receiver.pc.phase = .active) :
    s.receiver.totalReceived = min (s.receiver.messages.length * c.maxMsgSize) c.dataSize := by
  rw [(hr.counted hact).1, receivedData_eq hr hinv hact, List.length_take, c.payload_length]

/-- Bytes are missing exactly when messages are. -/
theorem lacking_iff (hr : ReceiverLocal c s.receiver) (hinv : LinkInv c s)
    (hact : s.receiver.pc.phase = .active) :
    s.receiver.totalReceived < c.dataSize ↔ s.receiver.messages.length < c.frame.length := by
  rw [totalReceived_eq hr hinv hact, c.length_frame, lt_chunkCount c.maxMsgSize_pos]
  omega

/-- Messages in the queue are non-empty and fit. -/
theorem length_of_mem_queue (hinv : LinkInv c s) {x : Nat × List UInt8} (hx : x ∈ s.queue) :
    0 < x.2.length ∧ x.2.length ≤ c.maxMsgSize :=
  length_of_mem_chunks c.maxMsgSize_pos (hinv.mem_frame hx)

/-! ## §4. Every step is a step of the link. -/

/-- `mq_send` of the next chunk never fails. -/
theorem mqSend_chunk (c : Params) (queue : Queue) (i j : Nat) :
    mqSend c queue i (chunk c.maxMsgSize c.payload j) =
      if queue.length < mqMaxmsg then
        .sent (queue ++ [(i, chunk c.maxMsgSize c.payload j)])
      else .wouldBlock := by
  unfold mqSend
  have hle : (chunk c.maxMsgSize c.payload j).length ≤ c.maxMsgSize := by
    rw [length_chunk]
    exact Nat.min_le_left _ _
  rw [if_neg (Nat.not_lt_of_le hle)]

/-- One message is one slice of the frame. -/
theorem slice_one {c : Params} {i j : Nat} (hlt : j * c.maxMsgSize < c.dataSize) :
    slice c.frame i j 1 = [(i, chunk c.maxMsgSize c.payload j)] := by
  unfold slice Params.frame
  rw [drop_chunks c.maxMsgSize_pos (by rw [c.payload_length]; exact hlt)]
  rfl

/-- **A step of the sender** is a step of the link or invisible to it. -/
theorem senderStep_refines (hp : SenderLocal c s.sender) (hinv : LinkInv c s)
    (hs : senderStep c s = some s') :
    SenderLocal c s'.sender ∧ s'.receiver = s.receiver ∧
      (Framing.system c.frame c.total).Steps (fun _ _ => True) s.link s'.link := by
  obtain ⟨b, ⟨pc, i, sent, j⟩, r, q⟩ := s
  cases pc with
  | generating =>
      dsimp only [senderStep] at hs
      obtain ⟨_, rfl⟩ | ⟨hsmall, rfl⟩ := System.branch_cases hs
      · exact ⟨⟨nofun, nofun, nofun, nofun⟩, rfl, .refl _⟩
      · exact ⟨⟨nofun, fun _ => Nat.le_of_not_lt hsmall, nofun, nofun⟩, rfl, .refl _⟩
  | ready =>
      dsimp only [senderStep] at hs
      split at hs
      next hlt =>
        injection hs with hs
        subst hs
        refine ⟨⟨nofun, nofun, nofun, nofun⟩, rfl, ?_⟩
        exact System.Steps.single (a := .senderArrive) (if_pos ⟨rfl, hlt⟩)
      next hge =>
        -- out of the loop: all iterations are done
        injection hs with hs
        subst hs
        have hle : i + 0 ≤ c.total := hinv.sBound
        have htotal : i = c.total := by omega
        exact ⟨⟨nofun, nofun, fun _ => htotal, nofun⟩, rfl, .refl _⟩
  | waiting =>
      dsimp only [senderStep] at hs
      obtain ⟨hcan, rfl⟩ := System.guard_cases hs
      refine ⟨⟨nofun, nofun, nofun, ?_⟩, rfl, ?_⟩
      · intro _
        show 0 = min (0 * c.maxMsgSize) c.dataSize
        omega
      · exact System.Steps.single (a := .senderCross) (if_pos ⟨rfl, hcan⟩)
  | sending =>
      have haligned : sent = min (j * c.maxMsgSize) c.dataSize := hp.aligned rfl
      dsimp only [senderStep] at hs
      split at hs
      next hlt =>
        rw [c.nextMessage_eq haligned hlt, mqSend_chunk] at hs
        have hj : j * c.maxMsgSize < c.dataSize := by omega
        have hframe : j + 1 ≤ c.frame.length := by
          rw [c.length_frame]
          exact (lt_chunkCount c.maxMsgSize_pos).mpr hj
        split at hs
        next =>
          injection hs with hs
          subst hs
          refine ⟨⟨nofun, nofun, nofun, ?_⟩, rfl, ?_⟩
          · intro _
            show sent + min c.maxMsgSize (c.dataSize - sent)
              = min ((j + 1) * c.maxMsgSize) c.dataSize
            rw [Nat.succ_mul]
            omega
          · refine System.Steps.single (a := .push 1) ?_
            refine (if_pos ⟨rfl, hframe⟩).trans ?_
            show some (Link.mk b i .active (j + 1) _ _ _ (q ++ slice c.frame i j 1)) = _
            rw [slice_one hj]
            rfl
        next => cases hs
      next hge =>
        injection hs with hs
        subst hs
        have hle : j ≤ c.frame.length := hinv.sent_le
        have hfull : j = c.frame.length := by
          rw [c.length_frame] at hle ⊢
          have hall := (chunkCount_le (i := j) (n := c.dataSize) c.maxMsgSize_pos).mpr (by omega)
          omega
        refine ⟨⟨nofun, nofun, nofun, nofun⟩, rfl, ?_⟩
        exact System.Steps.single (a := .senderNext) (if_pos ⟨rfl, hfull⟩)
  | exited | aborted | failed => cases hs

/-- **A step of the receiver** is a step of the link or invisible to it. -/
theorem receiverStep_refines (hr : ReceiverLocal c s.receiver) (hinv : LinkInv c s)
    (hs : receiverStep c s = some s') :
    s'.sender = s.sender ∧ ReceiverLocal c s'.receiver ∧
      (Framing.system c.frame c.total).Steps (fun _ _ => True) s.link s'.link := by
  obtain ⟨b, p, ⟨pc, i, total, data, messages⟩, q⟩ := s
  cases pc with
  | ready =>
      dsimp only [receiverStep] at hs
      obtain ⟨hlt, rfl⟩ | ⟨hge, rfl⟩ := System.branch_cases hs
      · refine ⟨rfl, ⟨nofun, nofun, fun _ => ⟨rfl, rfl⟩, nofun, ?_, nofun⟩, ?_⟩
        · intro hor
          rcases hor with hpc | hpc <;> cases hpc
        · exact System.Steps.single (a := .receiverArrive) (if_pos ⟨rfl, hlt⟩)
      · have hle : i + 0 ≤ c.total := hinv.rBound
        have htotal : i = c.total := by omega
        refine ⟨rfl, ⟨nofun, fun _ => htotal, nofun, nofun, ?_, nofun⟩, .refl _⟩
        intro hor
        rcases hor with hpc | hpc <;> cases hpc
  | waiting =>
      dsimp only [receiverStep] at hs
      obtain ⟨hcan, rfl⟩ := System.guard_cases hs
      obtain ⟨hdata, hmessages⟩ : data = [] ∧ messages = [] := hr.emptied rfl
      subst hdata hmessages
      refine ⟨rfl, ⟨nofun, nofun, nofun, fun _ => ⟨rfl, rfl⟩, ?_, nofun⟩, ?_⟩
      · intro hor
        rcases hor with hpc | hpc <;> cases hpc
      · exact System.Steps.single (a := .receiverCross) (if_pos ⟨rfl, hcan⟩)
  | receiving =>
      obtain ⟨hcount, hflat⟩ : total = data.length ∧ data = messages.flatten := hr.counted rfl
      have hlack := lacking_iff hr hinv rfl
      dsimp only at hlack
      dsimp only [receiverStep] at hs
      split at hs
      next hlt =>
        unfold mqReceive at hs
        rw [if_neg (Nat.lt_irrefl _)] at hs
        cases q with
        | nil => cases hs
        | cons x rest =>
            obtain ⟨hpos, hfits⟩ := length_of_mem_queue hinv (x := x) List.mem_cons_self
            change (if x.2.length = 0 then _ else _) = some s' at hs
            rw [if_neg (by omega)] at hs
            injection hs with hs
            subst hs
            refine ⟨rfl, ⟨nofun, nofun, nofun, ?_, ?_, nofun⟩, ?_⟩
            · intro _
              show total + x.2.length = (data ++ x.2).length ∧
                data ++ x.2 = (messages ++ [x.2]).flatten
              rw [List.length_append, List.flatten_append, ← hflat, hcount]
              exact ⟨rfl, by simp⟩
            · intro hor
              rcases hor with hpc | hpc <;> cases hpc
            · exact System.Steps.single (a := .take 1) rfl
      next hge =>
        injection hs with hs
        subst hs
        have hall : c.frame.length ≤ messages.length := by omega
        exact ⟨rfl, ⟨nofun, nofun, nofun, fun _ => ⟨hcount, hflat⟩, fun _ => hall, nofun⟩,
          .refl _⟩
  | verifying =>
      have hcount := hr.counted rfl
      have hwhole : c.frame.length ≤ messages.length := hr.whole (Or.inl rfl)
      dsimp only [receiverStep] at hs
      obtain ⟨_, rfl⟩ | ⟨hbad, rfl⟩ := System.branch_cases hs
      · refine ⟨rfl, ⟨nofun, nofun, nofun, nofun, ?_, nofun⟩, ?_⟩
        · intro hor
          rcases hor with hpc | hpc <;> cases hpc
        · exact System.Steps.single (a := .receiverNext) (if_pos ⟨rfl, hwhole⟩)
      · have hall : messages = c.frame := (hinv.complete rfl hwhole).1
        have hdata : data = c.payload := by
          rw [show data = messages.flatten from hcount.2, hall]
          exact flatten_chunks c.maxMsgSize_pos _
        refine ⟨rfl, ⟨nofun, nofun, nofun, fun _ => hcount, fun _ => hwhole, ?_⟩, .refl _⟩
        intro _
        rw [← hdata]
        exact hbad
  | exited => cases hs
  | failed => cases hs
  | aborted => cases hs

/-- **The message-queue benchmark refines the framed link.** -/
theorem refines (h : (system c).Reachable s) :
    (SenderLocal c s.sender ∧ ReceiverLocal c s.receiver) ∧
      (Framing.system c.frame c.total).Reachable s.link := by
  refine System.simulates (I := fun t => SenderLocal c t.sender ∧ ReceiverLocal c t.receiver)
    State.link ?_ ?_ h
  · intro t ht
    rw [show t = State.fresh from ht]
    refine ⟨⟨⟨nofun, nofun, nofun, nofun⟩, ⟨nofun, nofun, nofun, nofun, ?_, nofun⟩⟩, rfl⟩
    intro hor
    rcases hor with hpc | hpc <;> cases hpc
  · intro t a t' hlocal hreach hs
    obtain ⟨hp, hr⟩ := hlocal
    have hinv := Framing.inv_of_reachable hreach
    cases a with
    | sender =>
        obtain ⟨hp', hkeep, hrun⟩ := senderStep_refines hp hinv hs
        exact ⟨⟨hp', hkeep ▸ hr⟩, hrun⟩
    | receiver =>
        obtain ⟨hkeep, hr', hrun⟩ := receiverStep_refines hr hinv hs
        exact ⟨⟨hkeep ▸ hp, hr'⟩, hrun⟩

/-! ## §5. Progress. -/

theorem canProgress_of_sender (hs : senderStep c s = some s')
    (hne : s'.sender ≠ s.sender) : (system c).CanProgress s :=
  System.CanProgress.of_step (f := State.sender) (a := Side.sender) hs hne

theorem canProgress_of_receiver (hs : receiverStep c s = some s')
    (hne : s'.receiver ≠ s.receiver) : (system c).CanProgress s :=
  System.CanProgress.of_step (f := State.receiver) (a := Side.receiver) hs hne

/-- A sender in `GenerateDataToSend` goes on or aborts. -/
theorem canProgress_of_generating (hpc : s.sender.pc = .generating) :
    (system c).CanProgress s := by
  obtain ⟨b, ⟨pc, i, sent, j⟩, r, q⟩ := s
  have hgenerating : pc = .generating := hpc
  subst hgenerating
  exact .of_branch (f := fun s => s.sender.pc) (a := .sender) rfl nofun nofun

/-- A sender at the head of its loop goes on. -/
theorem canProgress_of_sender_ready (hpc : s.sender.pc = .ready) : (system c).CanProgress s := by
  obtain ⟨b, ⟨pc, i, sent, j⟩, r, q⟩ := s
  have hready : pc = .ready := hpc
  subst hready
  by_cases hlt : i < c.total
  · exact canProgress_of_sender (if_pos hlt) nofun
  · exact canProgress_of_sender (if_neg hlt) nofun

/-- A receiver at the head of its loop goes on. -/
theorem canProgress_of_receiver_ready (hpc : s.receiver.pc = .ready) :
    (system c).CanProgress s := by
  obtain ⟨b, p, ⟨pc, i, total, data, messages⟩, q⟩ := s
  have hready : pc = .ready := hpc
  subst hready
  by_cases hlt : i < c.total
  · exact canProgress_of_receiver (if_pos hlt) nofun
  · exact canProgress_of_receiver (if_neg hlt) nofun

/-- A sender that the link finds unblocked has a step. -/
theorem canProgress_of_senderReady (hp : SenderLocal c s.sender)
    (hgenerated : s.sender.pc ≠ .aborted)
    (hready : Framing.SenderReady c.frame c.total s.link) : (system c).CanProgress s := by
  obtain ⟨b, ⟨pc, i, sent, j⟩, r, q⟩ := s
  rcases hready with ⟨hph, hlt⟩ | ⟨hph, hcan⟩ | ⟨hph, hroom⟩
  · cases pc with
    | generating => exact canProgress_of_generating rfl
    | ready => exact canProgress_of_sender_ready rfl
    | exited =>
        have htotal : i = c.total := hp.exited rfl
        have hlt' : i < c.total := hlt
        omega
    | aborted => exact absurd rfl hgenerated
    | waiting | sending | failed => cases hph
  · cases pc with
    | waiting => exact canProgress_of_sender (if_pos hcan) nofun
    | generating | ready | sending | exited | aborted | failed => cases hph
  · cases pc with
    | sending =>
        have haligned : sent = min (j * c.maxMsgSize) c.dataSize := hp.aligned rfl
        by_cases hlt : sent < c.dataSize
        · -- not done, so the queue is empty and the next message fits
          have hempty : q = [] := by
            rcases hroom with hfull | hempty
            · have hall : j = c.frame.length := hfull
              rw [c.length_frame] at hall
              have hge := (chunkCount_le c.maxMsgSize_pos).mp (Nat.le_of_eq hall.symm)
              omega
            · exact hempty
          subst hempty
          have hsend : mqSend c [] i (c.nextMessage sent) =
              .sent ([] ++ [(i, chunk c.maxMsgSize c.payload j)]) := by
            rw [c.nextMessage_eq haligned hlt, mqSend_chunk]
            rfl
          refine canProgress_of_sender
            ((if_pos hlt).trans (congrArg (afterSend c _) hsend)) ?_
          intro heq
          exact absurd (congrArg Sender.messages heq) (Nat.succ_ne_self j)
        · exact canProgress_of_sender (if_neg hlt) nofun
    | failed => exact absurd rfl hp.alive
    | generating | ready | waiting | exited | aborted => cases hph

/-- A receiver that the link finds unblocked has a step. -/
theorem canProgress_of_receiverReady (hr : ReceiverLocal c s.receiver) (hinv : LinkInv c s)
    (hrun : s.receiver.pc ≠ .aborted)
    (hready : Framing.ReceiverReady c.frame c.total s.link) : (system c).CanProgress s := by
  obtain ⟨b, p, ⟨pc, i, total, data, messages⟩, q⟩ := s
  rcases hready with ⟨hph, hlt⟩ | ⟨hph, hcan⟩ | ⟨hph, hmore⟩
  · cases pc with
    | ready => exact canProgress_of_receiver_ready rfl
    | exited =>
        have htotal : i = c.total := hr.exited rfl
        have hlt' : i < c.total := hlt
        omega
    | waiting | receiving | verifying | failed | aborted => cases hph
  · cases pc with
    | waiting => exact canProgress_of_receiver (if_pos hcan) nofun
    | ready | receiving | verifying | exited | failed | aborted => cases hph
  · cases pc with
    | receiving =>
        have hlack := lacking_iff hr hinv rfl
        dsimp only at hlack
        by_cases hlt : total < c.dataSize
        · cases q with
          | nil =>
              rcases hmore with hwhole | hne
              · have hall : c.frame.length ≤ messages.length := hwhole
                exact absurd (hlack.mp hlt) (Nat.not_lt_of_le hall)
              · exact absurd rfl hne
          | cons x rest =>
              obtain ⟨hpos, _⟩ := length_of_mem_queue hinv (x := x) List.mem_cons_self
              have hget : mqReceive c (x :: rest) c.maxMsgSize = .received x.2 rest :=
                if_neg (Nat.lt_irrefl _)
              refine canProgress_of_receiver
                (((if_pos hlt).trans (congrArg (afterReceive _) hget)).trans
                  (if_neg (by omega))) ?_
              intro heq
              have htotal : total + x.2.length = total := congrArg Receiver.totalReceived heq
              omega
        · exact canProgress_of_receiver (if_neg hlt) nofun
    | verifying =>
        by_cases hgood : verifyDataReceived data c.dataSize = some true
        · exact canProgress_of_receiver (if_pos hgood) nofun
        · exact canProgress_of_receiver (if_neg hgood) nofun
    | failed => exact absurd rfl hr.alive
    | aborted => exact absurd rfl hrun
    | ready | waiting | exited => cases hph

/-- **No stuck state** before both processes have returned, with a payload
that verifies. -/
theorem progress (hp : SenderLocal c s.sender) (hr : ReceiverLocal c s.receiver)
    (hinv : LinkInv c s) (hgood : verifyDataReceived c.payload c.dataSize = some true)
    (hmore : ¬ (s.sender.pc = .exited ∧ s.receiver.pc = .exited)) :
    (system c).CanProgress s := by
  have hrun : s.receiver.pc ≠ .aborted := fun habort => hr.verdict habort hgood
  have hgenerated := not_refused_of_verified hp.refused hgood
  by_cases hg : s.sender.pc = .generating
  · exact canProgress_of_generating hg
  by_cases hs : s.sender.pc = .ready
  · exact canProgress_of_sender_ready hs
  by_cases hrd : s.receiver.pc = .ready
  · exact canProgress_of_receiver_ready hrd
  -- somebody is inside an iteration
  have hinside : s.sender.iteration < c.total ∨ s.receiver.iteration < c.total := by
    have hsb : s.sender.iteration + s.sender.pc.phase.begun ≤ c.total := hinv.sBound
    have hrb : s.receiver.iteration + s.receiver.pc.phase.begun ≤ c.total := hinv.rBound
    by_cases hse : s.sender.pc = .exited
    · right
      have hre : s.receiver.pc ≠ .exited := fun hre => hmore ⟨hse, hre⟩
      cases hpc : s.receiver.pc with
      | ready => exact absurd hpc hrd
      | exited => exact absurd hpc hre
      | waiting | receiving | verifying | failed | aborted =>
          rw [hpc] at hrb
          exact hrb
    · left
      cases hpc : s.sender.pc with
      | generating => exact absurd hpc hg
      | ready => exact absurd hpc hs
      | exited => exact absurd hpc hse
      | aborted => exact absurd hpc hgenerated
      | waiting | sending | failed =>
          rw [hpc] at hsb
          exact hsb
  rcases hinv.progress hinside with hready | hready
  · exact canProgress_of_senderReady hp hgenerated hready
  · exact canProgress_of_receiverReady hr hinv hrun hready

/-! ## §6. The transfer. -/

/-- What holds of every state of the message-queue benchmark. -/
structure Delivered (c : Params) (s : State) : Prop where
  /-- Every message is non-empty and fits `mq_msgsize`, which is also the size
  of the receive buffer; so neither call ever fails. -/
  sizes : ∀ x ∈ s.queue, 0 < x.2.length ∧ x.2.length ≤ c.maxMsgSize
  alive : s.sender.pc ≠ .failed ∧ s.receiver.pc ≠ .failed
  /-- Every iteration delivers `data_size / max_msg_size` rounded up many
  messages, and they make the frame. -/
  whole : s.receiver.pc = .verifying →
    s.receiver.messages.length = chunkCount c.maxMsgSize c.dataSize ∧
    s.receiver.messages.flatten = c.payload ∧
    s.receiver.receivedData = c.payload ∧ s.receiver.totalReceived = c.dataSize
  /-- Whatever an `mq_receive` can return was sent in the reader's
  iteration. -/
  ownMessages : s.receiver.pc = .receiving → ∀ x ∈ s.queue, x.1 = s.receiver.iteration
  /-- The queue is empty when the second side arrives at an iteration's
  barrier: both are inside the same `Wait()`. -/
  emptyAtBarrier : s.sender.pc = .waiting → s.receiver.pc = .waiting →
    s.sender.iteration = s.receiver.iteration → s.queue = []
  /-- Only a payload that does not verify makes the receiver abort. -/
  verdict : s.receiver.pc = .aborted → verifyDataReceived c.payload c.dataSize ≠ some true
  /-- Only a size that `GenerateDataToSend` refuses makes the sender abort. -/
  refused : s.sender.pc = .aborted → c.dataSize ≤ checksumSize
  /-- With a larger size and a payload that verifies some step is enabled until
  both have returned. -/
  progress : checksumSize < c.dataSize → verifyDataReceived c.payload c.dataSize = some true →
    ¬ (s.sender.pc = .exited ∧ s.receiver.pc = .exited) → (system c).CanProgress s

/-- **Message-queue transfer**, for every payload and every schedule. -/
theorem mq_delivered (c : Params) (s : State) (h : (system c).Reachable s) : Delivered c s := by
  obtain ⟨⟨hp, hr⟩, hreach⟩ := refines h
  have hinv := Framing.inv_of_reachable hreach
  refine ⟨fun x hx => length_of_mem_queue hinv hx, ⟨hp.alive, hr.alive⟩, ?_, fun _ => hinv.tags,
    ?_, hr.verdict, hp.refused, fun _ => progress hp hr hinv⟩
  · intro hpc
    have hact : s.receiver.pc.phase = .active := by rw [hpc]; rfl
    have hrecv := Receiver.received_of_active hact
    have hall : s.receiver.received = c.frame :=
      (hinv.complete hact (show _ ≤ s.receiver.received.length by
        rw [hrecv]
        exact hr.whole (Or.inl hpc))).1
    rw [hrecv] at hall
    obtain ⟨hcount, hflat⟩ := hr.counted hact
    have hpayload : s.receiver.messages.flatten = c.payload := by
      rw [hall]
      exact flatten_chunks c.maxMsgSize_pos _
    refine ⟨?_, hpayload, hflat.trans hpayload, ?_⟩
    · rw [hall, c.length_frame]
    · rw [hcount, hflat, hpayload, c.payload_length]
  · intro hs hrw heq
    exact hinv.empty_of_meeting (show s.sender.pc.phase = _ by rw [hs]; rfl)
      (show s.receiver.pc.phase = _ by rw [hrw]; rfl) heq

/-- 150 bytes in messages of 80. -/
def sample : Params := ⟨2, 150, 80, List.replicate 150 0, List.length_replicate, by decide⟩

/-- A run of the sample into its second transfer: two messages for each. -/
def secondTransfer : List Side :=
  [.sender, .sender, .receiver, .sender, .receiver, .sender, .receiver, .sender, .sender, .sender,
    .receiver, .receiver, .receiver, .receiver, .receiver, .sender, .sender, .sender, .receiver,
    .receiver, .receiver]

theorem mq_delivered_sample :
    ∃ s, (system sample).Reachable s ∧ s.receiver.pc = .verifying ∧ s.receiver.iteration = 1 ∧
      s.receiver.messages.length = 2 ∧ s.receiver.receivedData = List.replicate 150 0 ∧
      (system sample).CanProgress s := by
  have hrun : ∃ s, (system sample).Reachable s ∧
      (s.receiver.pc = .verifying ∧ s.receiver.iteration = 1) :=
    System.exists_reachable_of_exec secondTransfer rfl (by decide +kernel)
  obtain ⟨s, hreach, hpc, hiteration⟩ := hrun
  have hdelivered := mq_delivered sample s hreach
  obtain ⟨hcount, _, hdata, _⟩ := hdelivered.whole hpc
  refine ⟨s, hreach, hpc, hiteration, hcount, hdata, hdelivered.progress (by decide)
    (verifyDataReceived_zero (by decide)) ?_⟩
  rintro ⟨_, hexited⟩
  rw [hpc] at hexited
  cases hexited

/-- A receiver in `Wait()` gets no further without the sender. -/
theorem stuck_of_aborted (hs : s.sender.pc = .aborted) (hr : s.receiver.pc = .waiting)
    (hwait : ¬ s.barrier.CanLeave .receiver) : ¬ (system c).CanProgress s := by
  refine System.not_canProgress fun a => ?_
  cases a with
  | sender =>
      show senderStep c s = none
      unfold senderStep
      rw [hs]
  | receiver =>
      show receiverStep c s = none
      unfold receiverStep
      rw [hr]
      exact if_neg hwait

/-- Two bytes. -/
def small : Params := { sample with dataSize := 2, payload := [4, 5], payload_length := rfl }

/-- **A size up to `CHECKSUM_SIZE` gets stuck**: the sender aborts in
`GenerateDataToSend`, and the receiver waits for it in `Wait()`. -/
theorem mq_stuck : ¬ ∀ s, (system small).Reachable s →
    ¬ (s.sender.pc = .exited ∧ s.receiver.pc = .exited) → (system small).CanProgress s := by
  intro hall
  have hrun : (system small).Reachable _ :=
    System.reachable_of_exec [.sender, .receiver] (s := State.fresh) rfl rfl
  exact stuck_of_aborted rfl rfl (by decide) (hall _ hrun nofun)

end Akbench.Mq
