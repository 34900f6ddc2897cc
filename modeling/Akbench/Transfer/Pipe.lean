/-
  Akbench.Transfer.Pipe
  ─────────────────────
  **`pipe_bandwidth`: ONE PIPE FOR ALL ITERATIONS.**

  Both processes make `total` iterations; in each they meet in one `Wait()`
  and then run their loops over the same pipe.  The receiver always asks for
  `buffer_size` bytes and not for the rest of the frame, and there is no
  barrier after the transfer: that it never swallows bytes of the next
  iteration is the content of `pipe_framed`.

  The system is a refinement of `Akbench.Framing`: a `write` is a push, a
  `read` is a take, and what the ends do besides is invisible there.
-/
import Akbench.Common.Stream

namespace Akbench.Pipe

open Framing (Link Phase slice untag)

/-! ## §1. The two processes. -/

/-- Where `SendProcess` is. -/
inductive SenderPc where
  /-- In `GenerateDataToSend`. -/
  | generating
  /-- At the head of the iteration loop. -/
  | ready
  /-- Inside `barrier.Wait()`. -/
  | waiting
  /-- In the `write` loop. -/
  | sending
  /-- Returned, its end of the pipe closed. -/
  | exited
  /-- Aborted in `GenerateDataToSend`. -/
  | aborted
  /-- Killed by a `write` to a pipe without a reader. -/
  | killed
  deriving DecidableEq, Repr

/-- Where `ReceiveProcess` is. -/
inductive ReceiverPc where
  /-- At the head of the iteration loop. -/
  | ready
  /-- Inside `barrier.Wait()`. -/
  | waiting
  /-- In the `read` loop. -/
  | receiving
  /-- Before `VerifyDataReceived`. -/
  | verifying
  /-- Returned, its end of the pipe closed. -/
  | exited
  /-- Aborted: the verification failed. -/
  | aborted
  deriving DecidableEq, Repr

structure Sender where
  pc : SenderPc
  iteration : Nat
  totalSent : Nat
  deriving DecidableEq, Repr

structure Receiver where
  pc : ReceiverPc
  iteration : Nat
  totalReceived : Nat
  receivedData : List UInt8
  deriving DecidableEq, Repr

/-- The two processes, the barrier and the pipe between them. -/
structure State where
  barrier : Rendezvous Side
  sender : Sender
  receiver : Receiver
  pipe : Stream

/-- `write_fd` is open. -/
def SenderPc.hasPipe : SenderPc → Bool
  | .exited | .aborted | .killed => false
  | _ => true

/-- `read_fd` is open. -/
def ReceiverPc.hasPipe : ReceiverPc → Bool
  | .exited | .aborted => false
  | _ => true

/-- Both processes past the constructor of their barrier, the pipe empty. -/
def State.fresh : State where
  barrier := .fresh
  sender := ⟨.generating, 0, 0⟩
  receiver := ⟨.ready, 0, 0, []⟩
  pipe := []

/-! ## §2. Steps. -/

/-- What `SendProcess` makes of a turn of its loop. -/
def afterSend (s : State) : SendTurn → Option State
  | .finished =>
      some { s with sender := { s.sender with pc := .ready, iteration := s.sender.iteration + 1 } }
  | .wrote pipe totalSent =>
      some { s with pipe := pipe, sender := { s.sender with totalSent := totalSent } }
  -- `SIGPIPE`
  | .noReader => some { s with sender := { s.sender with pc := .killed } }
  | .blocked => none

/-- `SendProcess`; `m` is what a `write` accepts. -/
def senderStep (c : Transfer) (s : State) (m : Nat) : Option State :=
  match s.sender.pc with
  -- `GenerateDataToSend`, before the loop
  | .generating =>
      if checksumSize < c.dataSize then
        some { s with sender := { s.sender with pc := .ready } }
      else
        some { s with sender := { s.sender with pc := .aborted } }
  -- into `barrier.Wait()`, or out of the loop and `close(write_fd)`
  | .ready =>
      if s.sender.iteration < c.total then
        some { s with
          barrier := s.barrier.arrive .sender
          sender := { s.sender with pc := .waiting } }
      else
        some { s with sender := { s.sender with pc := .exited } }
  -- `size_t total_sent = 0`
  | .waiting =>
      if s.barrier.CanLeave .sender then
        some { s with
          barrier := s.barrier.leave .sender
          sender := { s.sender with pc := .sending, totalSent := 0 } }
      else none
  | .sending =>
      afterSend s
        (c.sendTurn s.sender.iteration s.sender.totalSent s.pipe s.receiver.pc.hasPipe m)
  | .exited | .aborted | .killed => none

/-- What `ReceiveProcess` makes of a turn of its loop. -/
def afterReceive (s : State) : ReceiveTurn → Option State
  -- "Sender closed the pipe prematurely" leads to the verification as well
  | .finished | .endOfFile => some { s with receiver := { s.receiver with pc := .verifying } }
  | .got pipe totalReceived receivedData =>
      some { s with
        pipe := pipe
        receiver := { s.receiver with
          totalReceived := totalReceived, receivedData := receivedData } }
  | .blocked => none

/-- `ReceiveProcess`; `m` is what a `read` returns. -/
def receiverStep (c : Transfer) (s : State) (m : Nat) : Option State :=
  match s.receiver.pc with
  -- a new `received_data`, empty
  | .ready =>
      if s.receiver.iteration < c.total then
        some { s with
          barrier := s.barrier.arrive .receiver
          receiver := { s.receiver with pc := .waiting, receivedData := [] } }
      else
        some { s with receiver := { s.receiver with pc := .exited } }
  | .waiting =>
      if s.barrier.CanLeave .receiver then
        some { s with
          barrier := s.barrier.leave .receiver
          receiver := { s.receiver with pc := .receiving, totalReceived := 0 } }
      else none
  | .receiving =>
      afterReceive s
        (c.receiveTurn s.receiver.totalReceived s.receiver.receivedData s.pipe
          s.sender.pc.hasPipe m)
  | .verifying =>
      if verifyDataReceived s.receiver.receivedData c.dataSize = some true then
        some { s with
          receiver := { s.receiver with pc := .ready, iteration := s.receiver.iteration + 1 } }
      -- `FATAL`
      else
        some { s with receiver := { s.receiver with pc := .aborted } }
  | .exited | .aborted => none

/-- One step of one process.  The number is read only by a `write` or a
`read`: what the kernel accepts or returns. -/
inductive Act where
  | sender (m : Nat)
  | receiver (m : Nat)

def step (c : Transfer) (s : State) : Act → Option State
  | .sender m => senderStep c s m
  | .receiver m => receiverStep c s m

/-- The pipe benchmark after `pipe()` and `fork()`. -/
def system (c : Transfer) : System State Act where
  init s := s = State.fresh
  step := step c

/-! ## §3. The pipe as a framed link. -/

def SenderPc.phase : SenderPc → Phase
  | .generating | .ready | .exited | .aborted => .before
  | .waiting => .waiting
  | .sending | .killed => .active

def ReceiverPc.phase : ReceiverPc → Phase
  | .ready | .exited => .before
  | .waiting => .waiting
  | .receiving | .verifying | .aborted => .active

/-- The bytes of this iteration's frame written so far. -/
def Sender.sent (p : Sender) : Nat :=
  if p.pc.phase = .active then p.totalSent else 0

/-- The bytes of this iteration read so far. -/
def Receiver.received (p : Receiver) : List UInt8 :=
  if p.pc.phase = .active then p.receivedData else []

def State.link (s : State) : Link UInt8 where
  barrier := s.barrier
  sIter := s.sender.iteration
  sPhase := s.sender.pc.phase
  sent := s.sender.sent
  rIter := s.receiver.iteration
  rPhase := s.receiver.pc.phase
  received := s.receiver.received
  channel := s.pipe

/-- What the link does not show. -/
structure Local (c : Transfer) (s : State) : Prop where
  alive : s.sender.pc ≠ .killed
  /-- `GenerateDataToSend` aborts on small sizes only. -/
  refused : s.sender.pc = .aborted → c.dataSize ≤ checksumSize
  senderExited : s.sender.pc = .exited → s.sender.iteration = c.total
  receiverExited : s.receiver.pc = .exited → s.receiver.iteration = c.total
  emptied : s.receiver.pc = .waiting → s.receiver.receivedData = []
  counted : s.receiver.pc.phase = .active →
    s.receiver.totalReceived = s.receiver.receivedData.length
  /-- The loop is left with a whole frame. -/
  whole : s.receiver.pc = .verifying ∨ s.receiver.pc = .aborted →
    c.payload.length ≤ s.receiver.receivedData.length
  /-- The receiver aborts only on a payload that does not verify. -/
  verdict : s.receiver.pc = .aborted → verifyDataReceived c.payload c.dataSize ≠ some true

variable {c : Transfer} {s s' : State} {m : Nat}

abbrev LinkInv (c : Transfer) (s : State) : Prop :=
  Framing.Inv c.payload c.total s.link

theorem Receiver.received_of_active {r : Receiver} (h : r.pc.phase = .active) :
    r.received = r.receivedData :=
  if_pos h

theorem Sender.sent_of_active {p : Sender} (h : p.pc.phase = .active) :
    p.sent = p.totalSent :=
  if_pos h

/-- A sender with something left to write has a reader. -/
theorem hasPipe_of_pushing (hl : Local c s) (hinv : LinkInv c s)
    (hpc : s.sender.pc = .sending) (hlt : s.sender.totalSent < c.payload.length) :
    s.receiver.pc.hasPipe = true := by
  have hact : s.sender.pc.phase = .active := by rw [hpc]; rfl
  have hsent := Sender.sent_of_active hact
  obtain ⟨_, hne, hlack⟩ := hinv.pushing hact (show s.sender.sent < _ by omega)
  have hne' : s.receiver.pc.phase ≠ .before := hne
  cases hr : s.receiver.pc with
  | ready | waiting | receiving | verifying => rfl
  | exited =>
      rw [hr] at hne'
      exact absurd rfl hne'
  | aborted =>
      have hract : s.receiver.pc.phase = .active := by rw [hr]; rfl
      have hshort : s.receiver.received.length < c.payload.length := hlack hract
      rw [Receiver.received_of_active hract] at hshort
      have hwhole := hl.whole (Or.inr hr)
      omega

/-- A receiver that starves has a writer. -/
theorem hasPipe_of_lacking (hinv : LinkInv c s) (hlocal : Local c s)
    (hpc : s.receiver.pc = .receiving) (hlt : s.receiver.totalReceived < c.payload.length)
    (hempty : s.pipe = []) : s.sender.pc.hasPipe = true := by
  have hact : s.receiver.pc.phase = .active := by rw [hpc]; rfl
  have hcount := hlocal.counted hact
  have hrecv : s.link.received.length < c.payload.length := by
    show s.receiver.received.length < _
    rw [Receiver.received_of_active hact]
    omega
  obtain ⟨_, hne, _⟩ := hinv.lacking hact hrecv hempty
  have hne' : s.sender.pc.phase ≠ .before := hne
  cases hs : s.sender.pc with
  | generating | ready | waiting | sending => rfl
  | exited | aborted =>
      rw [hs] at hne'
      exact absurd rfl hne'
  | killed => exact absurd hs hlocal.alive

/-- **A step of the sender** is a step of the link or invisible to it. -/
theorem senderStep_refines (hl : Local c s) (hinv : LinkInv c s)
    (hs : senderStep c s m = some s') :
    Local c s' ∧ (Framing.system c.payload c.total).Steps (fun _ _ => True) s.link s'.link := by
  obtain ⟨b, ⟨pc, i, sent⟩, r, ch⟩ := s
  cases pc with
  | generating =>
      dsimp only [senderStep] at hs
      obtain ⟨_, rfl⟩ | ⟨hsmall, rfl⟩ := System.branch_cases hs
      · exact ⟨⟨nofun, nofun, nofun, hl.receiverExited, hl.emptied, hl.counted, hl.whole,
          hl.verdict⟩, .refl _⟩
      · exact ⟨⟨nofun, fun _ => Nat.le_of_not_lt hsmall, nofun, hl.receiverExited, hl.emptied,
          hl.counted, hl.whole, hl.verdict⟩, .refl _⟩
  | ready =>
      dsimp only [senderStep] at hs
      split at hs
      next hlt =>
        injection hs with hs
        subst hs
        refine ⟨⟨nofun, nofun, nofun, hl.receiverExited, hl.emptied, hl.counted, hl.whole, hl.verdict⟩,
          ?_⟩
        exact System.Steps.single (a := .senderArrive) (if_pos ⟨rfl, hlt⟩)
      next hge =>
        -- out of the loop: all iterations are done
        injection hs with hs
        subst hs
        have hle : i + 0 ≤ c.total := hinv.sBound
        have htotal : i = c.total := by omega
        exact ⟨⟨nofun, nofun, fun _ => htotal, hl.receiverExited, hl.emptied, hl.counted, hl.whole,
          hl.verdict⟩, .refl _⟩
  | waiting =>
      dsimp only [senderStep] at hs
      obtain ⟨hcan, rfl⟩ := System.guard_cases hs
      refine ⟨⟨nofun, nofun, nofun, hl.receiverExited, hl.emptied, hl.counted, hl.whole, hl.verdict⟩,
        ?_⟩
      exact System.Steps.single (a := .senderCross) (if_pos ⟨rfl, hcan⟩)
  | sending =>
      change afterSend _ (c.sendTurn i sent ch r.pc.hasPipe m) = some s' at hs
      cases hturn : c.sendTurn i sent ch r.pc.hasPipe m with
      | finished =>
          rw [hturn] at hs
          injection hs with hs
          subst hs
          have hge := Transfer.sendTurn_finished hturn
          have hle : sent ≤ c.payload.length := hinv.sent_le
          have hfull : sent = c.payload.length := by omega
          refine ⟨⟨nofun, nofun, nofun, hl.receiverExited, hl.emptied, hl.counted, hl.whole,
            hl.verdict⟩, ?_⟩
          exact System.Steps.single (a := .senderNext) (if_pos ⟨rfl, hfull⟩)
      | wrote pipe total =>
          rw [hturn] at hs
          injection hs with hs
          subst hs
          obtain ⟨hle, htotal, hpipe⟩ := Transfer.sendTurn_wrote hturn
          subst htotal hpipe
          refine ⟨⟨nofun, nofun, nofun, hl.receiverExited, hl.emptied, hl.counted, hl.whole,
            hl.verdict⟩, ?_⟩
          exact System.Steps.single (a := .push m) (if_pos ⟨rfl, hle⟩)
      | noReader =>
          obtain ⟨hlt, hnone⟩ := Transfer.sendTurn_noReader hturn
          have hsome := hasPipe_of_pushing hl hinv rfl hlt
          exact absurd (hnone.symm.trans hsome) (by decide)
      | blocked =>
          rw [hturn] at hs
          cases hs
  | exited | aborted | killed => cases hs

/-- **A step of the receiver** is a step of the link or invisible to it. -/
theorem receiverStep_refines (hl : Local c s) (hinv : LinkInv c s)
    (hs : receiverStep c s m = some s') :
    Local c s' ∧ (Framing.system c.payload c.total).Steps (fun _ _ => True) s.link s'.link := by
  obtain ⟨b, p, ⟨pc, i, total, data⟩, ch⟩ := s
  cases pc with
  | ready =>
      dsimp only [receiverStep] at hs
      obtain ⟨hlt, rfl⟩ | ⟨hge, rfl⟩ := System.branch_cases hs
      · refine ⟨⟨hl.alive, hl.refused, hl.senderExited, nofun, fun _ => rfl, nofun, nofun, nofun⟩, ?_⟩
        exact System.Steps.single (a := .receiverArrive) (if_pos ⟨rfl, hlt⟩)
      · have hle : i + 0 ≤ c.total := hinv.rBound
        have htotal : i = c.total := by omega
        exact ⟨⟨hl.alive, hl.refused, hl.senderExited, fun _ => htotal, nofun, nofun, nofun, nofun⟩, .refl _⟩
  | waiting =>
      dsimp only [receiverStep] at hs
      obtain ⟨hcan, rfl⟩ := System.guard_cases hs
      have hempty : data = [] := hl.emptied rfl
      subst hempty
      refine ⟨⟨hl.alive, hl.refused, hl.senderExited, nofun, nofun, fun _ => rfl, nofun, nofun⟩, ?_⟩
      exact System.Steps.single (a := .receiverCross) (if_pos ⟨rfl, hcan⟩)
  | receiving =>
      have hcount : total = data.length := hl.counted rfl
      change afterReceive _ (c.receiveTurn total data ch p.pc.hasPipe m) = some s' at hs
      cases hturn : c.receiveTurn total data ch p.pc.hasPipe m with
      | finished =>
          rw [hturn] at hs
          injection hs with hs
          subst hs
          have hge := Transfer.receiveTurn_finished hturn
          exact ⟨⟨hl.alive, hl.refused, hl.senderExited, nofun, nofun, fun _ => hcount,
            fun _ => hcount ▸ hge, nofun⟩, .refl _⟩
      | endOfFile =>
          obtain ⟨hlt, hempty, hnone⟩ := Transfer.receiveTurn_endOfFile hturn
          have hsome := hasPipe_of_lacking hinv hl rfl hlt hempty
          exact absurd (hnone.symm.trans hsome) (by decide)
      | got pipe n data' =>
          rw [hturn] at hs
          injection hs with hs
          subst hs
          obtain ⟨hle, hn, hdata, hpipe⟩ := Transfer.receiveTurn_got hturn
          subst hn hdata hpipe
          refine ⟨⟨hl.alive, hl.refused, hl.senderExited, nofun, nofun, ?_, nofun, nofun⟩, ?_⟩
          · intro _
            show total + m = (data ++ untag (ch.take m)).length
            rw [List.length_append, Framing.length_untag, List.length_take]
            omega
          · exact System.Steps.single (a := .take m) (if_pos ⟨rfl, hle⟩)
      | blocked =>
          rw [hturn] at hs
          cases hs
  | verifying =>
      have hcount : total = data.length := hl.counted rfl
      have hwhole : c.payload.length ≤ data.length := hl.whole (Or.inl rfl)
      dsimp only [receiverStep] at hs
      obtain ⟨_, rfl⟩ | ⟨hbad, rfl⟩ := System.branch_cases hs
      · refine ⟨⟨hl.alive, hl.refused, hl.senderExited, nofun, nofun, nofun, nofun, nofun⟩, ?_⟩
        exact System.Steps.single (a := .receiverNext) (if_pos ⟨rfl, hwhole⟩)
      · have hdata : data = c.payload := (hinv.complete rfl hwhole).1
        refine ⟨⟨hl.alive, hl.refused, hl.senderExited, nofun, nofun, fun _ => hcount, fun _ => hwhole, ?_⟩,
          .refl _⟩
        intro _
        rw [← hdata]
        exact hbad
  | exited => cases hs
  | aborted => cases hs

/-- **The pipe benchmark refines the framed link.** -/
theorem refines (h : (system c).Reachable s) :
    Local c s ∧ (Framing.system c.payload c.total).Reachable s.link := by
  refine System.simulates (I := Local c) State.link ?_ ?_ h
  · intro t ht
    rw [show t = State.fresh from ht]
    refine ⟨⟨nofun, nofun, nofun, nofun, nofun, nofun, ?_, nofun⟩, rfl⟩
    intro hor
    rcases hor with hpc | hpc <;> cases hpc
  · intro t a t' hlocal hreach hs
    have hinv := Framing.inv_of_reachable hreach
    cases a with
    | sender m => exact senderStep_refines hlocal hinv hs
    | receiver m => exact receiverStep_refines hlocal hinv hs

/-! ## §4. Progress. -/

theorem canProgress_of_sender (hs : senderStep c s m = some s') (hne : s'.sender ≠ s.sender) :
    (system c).CanProgress s :=
  System.CanProgress.of_step (f := State.sender) (a := Act.sender m) hs hne

theorem canProgress_of_receiver (hs : receiverStep c s m = some s')
    (hne : s'.receiver ≠ s.receiver) : (system c).CanProgress s :=
  System.CanProgress.of_step (f := State.receiver) (a := Act.receiver m) hs hne

/-- A sender in `GenerateDataToSend` goes on or aborts. -/
theorem canProgress_of_generating (hpc : s.sender.pc = .generating) :
    (system c).CanProgress s := by
  obtain ⟨b, ⟨pc, i, sent⟩, r, ch⟩ := s
  have hgenerating : pc = .generating := hpc
  subst hgenerating
  exact .of_branch (f := fun s => s.sender.pc) (a := .sender 0) rfl nofun nofun

/-- A sender at the head of its loop goes on. -/
theorem canProgress_of_sender_ready (hpc : s.sender.pc = .ready) : (system c).CanProgress s := by
  obtain ⟨b, ⟨pc, i, sent⟩, r, ch⟩ := s
  have hready : pc = .ready := hpc
  subst hready
  by_cases hlt : i < c.total
  · exact canProgress_of_sender (m := 0) (if_pos hlt) nofun
  · exact canProgress_of_sender (m := 0) (if_neg hlt) nofun

/-- A receiver at the head of its loop goes on. -/
theorem canProgress_of_receiver_ready (hpc : s.receiver.pc = .ready) :
    (system c).CanProgress s := by
  obtain ⟨b, p, ⟨pc, i, total, data⟩, ch⟩ := s
  have hready : pc = .ready := hpc
  subst hready
  by_cases hlt : i < c.total
  · exact canProgress_of_receiver (m := 0) (if_pos hlt) nofun
  · exact canProgress_of_receiver (m := 0) (if_neg hlt) nofun

/-- A sender that the link finds unblocked has a step. -/
theorem canProgress_of_senderReady (hl : Local c s) (hinv : LinkInv c s)
    (hrun : s.sender.pc ≠ .aborted) (hready : Framing.SenderReady c.payload c.total s.link) :
    (system c).CanProgress s := by
  obtain ⟨b, ⟨pc, i, sent⟩, r, ch⟩ := s
  rcases hready with ⟨hph, hlt⟩ | ⟨hph, hcan⟩ | ⟨hph, hroom⟩
  · cases pc with
    | generating => exact canProgress_of_generating rfl
    | ready => exact canProgress_of_sender_ready rfl
    | exited =>
        have htotal : i = c.total := hl.senderExited rfl
        have hlt' : i < c.total := hlt
        omega
    | aborted => exact absurd rfl hrun
    | waiting | sending | killed => cases hph
  · cases pc with
    | waiting => exact canProgress_of_sender (m := 0) (if_pos hcan) nofun
    | generating | ready | sending | exited | aborted | killed => cases hph
  · cases pc with
    | sending =>
        by_cases hlt : sent < c.payload.length
        · -- not done, so the channel is empty and the reader is there
          have hempty : ch = [] := by
            rcases hroom with hfull | hempty
            · have hfull' : sent = c.payload.length := hfull
              omega
            · exact hempty
          subst hempty
          have hturn : c.sendTurn i sent [] r.pc.hasPipe 1 =
              .wrote (slice c.payload i sent 1) (sent + 1) := by
            rw [hasPipe_of_pushing hl hinv rfl hlt]
            exact Transfer.sendTurn_empty hlt
          refine canProgress_of_sender (m := 1) (congrArg (afterSend _) hturn) ?_
          intro heq
          exact absurd (congrArg Sender.totalSent heq) (Nat.succ_ne_self sent)
        · have hturn : c.sendTurn i sent ch r.pc.hasPipe 0 = .finished :=
            Transfer.sendTurn_over (Nat.le_of_not_lt hlt)
          exact canProgress_of_sender (m := 0) (congrArg (afterSend _) hturn) nofun
    | killed => exact absurd rfl hl.alive
    | generating | ready | waiting | exited | aborted => cases hph

/-- A receiver that the link finds unblocked has a step. -/
theorem canProgress_of_receiverReady (hl : Local c s)
    (hrun : s.receiver.pc ≠ .aborted)
    (hready : Framing.ReceiverReady c.payload c.total s.link) : (system c).CanProgress s := by
  obtain ⟨b, p, ⟨pc, i, total, data⟩, ch⟩ := s
  rcases hready with ⟨hph, hlt⟩ | ⟨hph, hcan⟩ | ⟨hph, hmore⟩
  · cases pc with
    | ready => exact canProgress_of_receiver_ready rfl
    | exited =>
        have htotal : i = c.total := hl.receiverExited rfl
        have hlt' : i < c.total := hlt
        omega
    | waiting | receiving | verifying | aborted => cases hph
  · cases pc with
    | waiting => exact canProgress_of_receiver (m := 0) (if_pos hcan) nofun
    | ready | receiving | verifying | exited | aborted => cases hph
  · cases pc with
    | receiving =>
        have hcount : total = data.length := hl.counted rfl
        by_cases hlt : total < c.payload.length
        · have hne : ch ≠ [] := by
            rcases hmore with hwhole | hne
            · have hwhole' : c.payload.length ≤ data.length := hwhole
              omega
            · exact hne
          have hturn : c.receiveTurn total data ch p.pc.hasPipe 1 =
              .got (ch.drop 1) (total + 1) (data ++ untag (ch.take 1)) :=
            Transfer.receiveTurn_nonempty hlt hne
          refine canProgress_of_receiver (m := 1) (congrArg (afterReceive _) hturn) ?_
          intro heq
          exact absurd (congrArg Receiver.totalReceived heq) (Nat.succ_ne_self total)
        · have hturn : c.receiveTurn total data ch p.pc.hasPipe 0 = .finished :=
            Transfer.receiveTurn_over (Nat.le_of_not_lt hlt)
          exact canProgress_of_receiver (m := 0) (congrArg (afterReceive _) hturn) nofun
    | verifying =>
        by_cases hgood : verifyDataReceived data c.dataSize = some true
        · exact canProgress_of_receiver (m := 0) (if_pos hgood) nofun
        · exact canProgress_of_receiver (m := 0) (if_neg hgood) nofun
    | aborted => exact absurd rfl hrun
    | ready | waiting | exited => cases hph

/-- **No stuck state** before both processes have returned, with a payload
that verifies. -/
theorem progress (hl : Local c s) (hinv : LinkInv c s)
    (hgood : verifyDataReceived c.payload c.dataSize = some true)
    (hmore : ¬ (s.sender.pc = .exited ∧ s.receiver.pc = .exited)) :
    (system c).CanProgress s := by
  have hrun : s.receiver.pc ≠ .aborted := fun habort => hl.verdict habort hgood
  have hgenerated := not_refused_of_verified hl.refused hgood
  by_cases hg : s.sender.pc = .generating
  · exact canProgress_of_generating hg
  by_cases hs : s.sender.pc = .ready
  · exact canProgress_of_sender_ready hs
  by_cases hr : s.receiver.pc = .ready
  · exact canProgress_of_receiver_ready hr
  -- somebody is inside an iteration
  have hinside : s.sender.iteration < c.total ∨ s.receiver.iteration < c.total := by
    have hsb : s.sender.iteration + s.sender.pc.phase.begun ≤ c.total := hinv.sBound
    have hrb : s.receiver.iteration + s.receiver.pc.phase.begun ≤ c.total := hinv.rBound
    by_cases hse : s.sender.pc = .exited
    · right
      have hre : s.receiver.pc ≠ .exited := fun hre => hmore ⟨hse, hre⟩
      cases hpc : s.receiver.pc with
      | ready => exact absurd hpc hr
      | exited => exact absurd hpc hre
      | waiting | receiving | verifying | aborted =>
          rw [hpc] at hrb
          exact hrb
    · left
      cases hpc : s.sender.pc with
      | generating => exact absurd hpc hg
      | ready => exact absurd hpc hs
      | exited => exact absurd hpc hse
      | aborted => exact absurd hpc hgenerated
      | waiting | sending | killed =>
          rw [hpc] at hsb
          exact hsb
  rcases hinv.progress hinside with hready | hready
  · exact canProgress_of_senderReady hl hinv hgenerated hready
  · exact canProgress_of_receiverReady hl hrun hready

/-! ## §5. Framing across iterations. -/

/-- What holds of every state of the pipe benchmark. -/
structure Framed (c : Transfer) (s : State) : Prop where
  /-- Every iteration ends with exactly the frame. -/
  whole : s.receiver.pc = .verifying →
    s.receiver.totalReceived = c.dataSize ∧ s.receiver.receivedData = c.payload
  /-- The pipe is empty when the second side arrives at an iteration's
  barrier: both are inside the same `Wait()`. -/
  emptyAtBarrier : s.sender.pc = .waiting → s.receiver.pc = .waiting →
    s.sender.iteration = s.receiver.iteration → s.pipe = []
  /-- Whatever a `read` can return was written in the reader's iteration. -/
  ownBytes : s.receiver.pc = .receiving → ∀ x ∈ s.pipe, x.1 = s.receiver.iteration
  /-- No `write` finds the read end closed. -/
  alive : s.sender.pc ≠ .killed
  /-- Only a payload that does not verify makes the receiver abort. -/
  verdict : s.receiver.pc = .aborted → verifyDataReceived c.payload c.dataSize ≠ some true
  /-- Only a size that `GenerateDataToSend` refuses makes the sender abort. -/
  refused : s.sender.pc = .aborted → c.dataSize ≤ checksumSize
  /-- With a larger size and a payload that verifies some step is enabled until
  both have returned. -/
  progress : checksumSize < c.dataSize → verifyDataReceived c.payload c.dataSize = some true →
    ¬ (s.sender.pc = .exited ∧ s.receiver.pc = .exited) → (system c).CanProgress s

/-- **Pipe framing across iterations**, for every payload, every schedule and
all partial writes and reads. -/
theorem pipe_framed (c : Transfer) (s : State) (h : (system c).Reachable s) : Framed c s := by
  obtain ⟨hl, hreach⟩ := refines h
  have hinv := Framing.inv_of_reachable hreach
  refine ⟨?_, ?_, ?_, hl.alive, hl.verdict, hl.refused, fun _ => progress hl hinv⟩
  · intro hpc
    have hact : s.receiver.pc.phase = .active := by rw [hpc]; rfl
    have hrecv := Receiver.received_of_active hact
    have hdata : s.receiver.received = c.payload :=
      (hinv.complete hact (show _ ≤ s.receiver.received.length by
        rw [hrecv]
        exact hl.whole (Or.inl hpc))).1
    rw [hrecv] at hdata
    refine ⟨?_, hdata⟩
    rw [hl.counted hact, hdata, c.payload_length]
  · intro hs hr heq
    exact hinv.empty_of_meeting (show s.sender.pc.phase = _ by rw [hs]; rfl)
      (show s.receiver.pc.phase = _ by rw [hr]; rfl) heq
  · intro _
    exact hinv.tags

/-- A run of the sample into its second transfer: the first one's second read
asks for 100 bytes and gets the 37 that are left. -/
def secondFrame : List Act :=
  [.sender 0, .sender 0, .receiver 0, .sender 0, .receiver 0, .sender 100, .receiver 100,
    .sender 37, .sender 0, .sender 0, .receiver 37, .receiver 0, .receiver 0, .receiver 0,
    .receiver 0, .sender 0, .sender 100, .receiver 100, .sender 37, .receiver 37, .receiver 0]

theorem pipe_framed_sample :
    ∃ s, (system .sample).Reachable s ∧ s.receiver.pc = .verifying ∧ s.receiver.iteration = 1 ∧
      s.receiver.totalReceived = 137 ∧ s.receiver.receivedData = List.replicate 137 0 ∧
      (system .sample).CanProgress s := by
  have hrun : ∃ s, (system .sample).Reachable s ∧
      (s.receiver.pc = .verifying ∧ s.receiver.iteration = 1) :=
    System.exists_reachable_of_exec secondFrame rfl (by decide +kernel)
  obtain ⟨s, hreach, hpc, hiteration⟩ := hrun
  have hframed := pipe_framed .sample s hreach
  obtain ⟨htotal, hdata⟩ := hframed.whole hpc
  refine ⟨s, hreach, hpc, hiteration, htotal, hdata, hframed.progress (by decide)
    (verifyDataReceived_zero (by decide)) ?_⟩
  rintro ⟨_, hexited⟩
  rw [hpc] at hexited
  cases hexited

/-- A receiver in `Wait()` gets no further without the sender. -/
theorem stuck_of_aborted (hs : s.sender.pc = .aborted) (hr : s.receiver.pc = .waiting)
    (hwait : ¬ s.barrier.CanLeave .receiver) : ¬ (system c).CanProgress s := by
  refine System.not_canProgress fun a => ?_
  cases a with
  | sender m =>
      show senderStep c s m = none
      unfold senderStep
      rw [hs]
  | receiver m =>
      show receiverStep c s m = none
      unfold receiverStep
      rw [hr]
      exact if_neg hwait

/-- **A size up to `CHECKSUM_SIZE` gets stuck**: the sender aborts in
`GenerateDataToSend`, and the receiver waits for it in `Wait()`. -/
theorem pipe_stuck : ¬ ∀ s, (system .small).Reachable s →
    ¬ (s.sender.pc = .exited ∧ s.receiver.pc = .exited) → (system .small).CanProgress s := by
  intro hall
  have hrun : (system .small).Reachable _ :=
    System.reachable_of_exec [.sender 0, .receiver 0] (s := State.fresh) rfl rfl
  exact stuck_of_aborted rfl rfl (by decide) (hall _ hrun nofun)

end Akbench.Pipe
