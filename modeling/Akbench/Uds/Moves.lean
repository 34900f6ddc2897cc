/-
  Akbench.Uds.Moves
  ─────────────────
  **WHAT ONE STEP OF A UDS PROCESS CAN DO.**

  `SenderMove` and `ReceiverMove` list the effects of a step of either
  process, under the conditions it was taken in, and `senderStep_move` and
  `receiverStep_move` say that there are no others as long as no call fails:
  every invariant is shown of the moves alone.
-/
import Akbench.Uds.Processes
import Akbench.Lib.Lockstep

namespace Akbench.Uds

open Framing (slice untag)

variable {c : Transfer} {s s' : State} {m : Nat}

/-! ## §1. Moves. -/

/-- The sender goes on by itself. -/
inductive SenderGoes (c : Transfer) (p : Sender) : SenderPc → Prop where
  | generated (hpc : p.pc = .generating) (hsize : checksumSize < c.dataSize) :
      SenderGoes c p .ready
  | rejected (hpc : p.pc = .generating) (hsize : c.dataSize ≤ checksumSize) :
      SenderGoes c p .aborted
  | begin (hpc : p.pc = .ready) (hlt : p.iteration < c.total) : SenderGoes c p .connecting
  | exit (hpc : p.pc = .ready) (hge : c.total ≤ p.iteration) : SenderGoes c p .exited
  | finish (hpc : p.pc = .sending) (hall : c.payload.length ≤ p.totalSent) :
      SenderGoes c p .sent

/-- A step of the sender. -/
inductive SenderMove (c : Transfer) (s : State) : State → Prop where
  | go {pc : SenderPc} (hgo : SenderGoes c s.sender pc) : SenderMove c s (s.senderTo pc)
  | retry (hpc : s.sender.pc = .connecting) : SenderMove c s s
  | connect {l : Listener} (hpc : s.sender.pc = .connecting) (hlisten : s.listener = some l)
      (hqueue : l.queue = none) :
      SenderMove c s { s.senderTo .connected with
        listener := some { l with queue := some s.sender.iteration } }
  | arrive1 (hpc : s.sender.pc = .connected) :
      SenderMove c s { s.senderTo .waiting1 with barrier := s.barrier.arrive .sender }
  | leave1 (hpc : s.sender.pc = .waiting1) (hcan : s.barrier.CanLeave .sender) :
      SenderMove c s { s with
        barrier := s.barrier.leave .sender
        sender := { s.sender with pc := .sending, totalSent := 0 } }
  | send {n : Nat} (hpc : s.sender.pc = .sending)
      (hle : s.sender.totalSent + n ≤ c.payload.length) :
      SenderMove c s { s with
        stream := Function.update s.stream s.sender.iteration
          (s.stream s.sender.iteration ++
            slice c.payload s.sender.iteration s.sender.totalSent n)
        sender := { s.sender with totalSent := s.sender.totalSent + n } }
  | arrive2 (hpc : s.sender.pc = .sent) :
      SenderMove c s { s.senderTo .waiting2 with barrier := s.barrier.arrive .sender }
  | leave2 (hpc : s.sender.pc = .waiting2) (hcan : s.barrier.CanLeave .sender) :
      SenderMove c s { s.senderTo .closing with barrier := s.barrier.leave .sender }
  | again (hpc : s.sender.pc = .closing) :
      SenderMove c s { s with
        sender := { s.sender with pc := .ready, iteration := s.sender.iteration + 1 } }

/-- The receiver goes on by itself. -/
inductive ReceiverGoes (c : Transfer) (r : Receiver) : ReceiverPc → Prop where
  | begin (hpc : r.pc = .ready) (hlt : r.iteration < c.total) : ReceiverGoes c r .removing
  | exit (hpc : r.pc = .ready) (hge : c.total ≤ r.iteration) : ReceiverGoes c r .exited
  | finish (hpc : r.pc = .receiving) (hall : c.payload.length ≤ r.totalReceived) :
      ReceiverGoes c r .received
  | rejected (hpc : r.pc = .verifying) (hsize : c.dataSize ≤ checksumSize) :
      ReceiverGoes c r .aborted

/-- A step of the receiver. -/
inductive ReceiverMove (c : Transfer) (s : State) : State → Prop where
  | go {pc : ReceiverPc} (hgo : ReceiverGoes c s.receiver pc) :
      ReceiverMove c s (s.receiverTo pc)
  | remove (hpc : s.receiver.pc = .removing) :
      ReceiverMove c s { s.receiverTo .binding with path := none }
  | bind (hpc : s.receiver.pc = .binding) :
      ReceiverMove c s { s.receiverTo .listening with path := some s.receiver.iteration }
  | listen (hpc : s.receiver.pc = .listening) :
      ReceiverMove c s { s.receiverTo .accepting with
        listener := some ⟨s.receiver.iteration, none⟩ }
  | accept {l : Listener} {j : Nat} (hpc : s.receiver.pc = .accepting)
      (hlisten : s.listener = some l) (hqueue : l.queue = some j) :
      ReceiverMove c s { s.receiverTo .accepted with
        listener := some { l with queue := none }
        conn := some j }
  | arrive1 (hpc : s.receiver.pc = .accepted) :
      ReceiverMove c s { s.receiverTo .waiting1 with barrier := s.barrier.arrive .receiver }
  | leave1 (hpc : s.receiver.pc = .waiting1) (hcan : s.barrier.CanLeave .receiver) :
      ReceiverMove c s { s with
        barrier := s.barrier.leave .receiver
        receiver := { s.receiver with pc := .receiving, totalReceived := 0 } }
  | receive {j n : Nat} (hpc : s.receiver.pc = .receiving) (hconn : s.conn = some j)
      (hle : n ≤ (s.stream j).length) :
      ReceiverMove c s { s with
        stream := Function.update s.stream j ((s.stream j).drop n)
        receiver := { s.receiver with
          totalReceived := s.receiver.totalReceived + n
          readData := s.receiver.readData.take s.receiver.totalReceived ++
            untag ((s.stream j).take n) ++
            s.receiver.readData.drop (s.receiver.totalReceived + n) } }
  | arrive2 (hpc : s.receiver.pc = .received) :
      ReceiverMove c s { s.receiverTo .waiting2 with barrier := s.barrier.arrive .receiver }
  | leave2 (hpc : s.receiver.pc = .waiting2) (hcan : s.barrier.CanLeave .receiver) :
      ReceiverMove c s { s.receiverTo .closingConn with barrier := s.barrier.leave .receiver }
  | closeConn (hpc : s.receiver.pc = .closingConn) :
      ReceiverMove c s { s.receiverTo .closingListener with conn := none }
  | closeListener (hpc : s.receiver.pc = .closingListener) :
      ReceiverMove c s { s.receiverTo .unlinking with listener := none }
  | unlink (hpc : s.receiver.pc = .unlinking) :
      ReceiverMove c s { s.receiverTo .verifying with path := none }
  | again (hpc : s.receiver.pc = .verifying) :
      ReceiverMove c s { s with receiver :=
        { s.receiver with pc := .ready, iteration := s.receiver.iteration + 1 } }

/-- No call of either process fails in its next step. -/
structure Calls (s : State) : Prop where
  /-- `SOCKET_PATH` is free for `bind()`. -/
  bind : s.receiver.pc = .binding → s.path = none
  accept : s.receiver.pc = .accepting → s.listener ≠ none
  /-- `recv()` is on a connection with a sender. -/
  recv : s.receiver.pc = .receiving → s.hasWriter = true
  /-- `send()` is on a connection with a receiver. -/
  send : s.sender.pc = .sending → s.hasReader = true

/-! ## §2. The steps are the moves. -/

/-- A `connect()` that succeeds finds the socket of the path listening, with
nothing queued. -/
theorem connect_eq_some (h : s.connect = some s') :
    ∃ l, s.path = some l.iteration ∧ s.listener = some l ∧ l.queue = none ∧
      s' = { s.senderTo .connected with
        listener := some { l with queue := some s.sender.iteration } } := by
  unfold State.connect at h
  split at h
  next k l hpath hlisten =>
    split at h
    next hguard =>
      injection h with h
      refine ⟨l, ?_, hlisten, hguard.2, h.symm⟩
      rw [hguard.1]
      exact hpath
    next => cases h
  next => cases h

/-- **Every step of the sender is a move.** -/
theorem senderStep_move (hcalls : Calls s) (hs : senderStep c s m = some s') :
    SenderMove c s s' := by
  unfold senderStep at hs
  cases hpc : s.sender.pc with
  | generating =>
      rw [hpc] at hs
      dsimp only at hs
      obtain ⟨hsize, rfl⟩ | ⟨hsize, rfl⟩ := System.branch_cases hs
      · exact .go (.generated hpc hsize)
      · exact .go (.rejected hpc (Nat.le_of_not_lt hsize))
  | ready =>
      rw [hpc] at hs
      dsimp only at hs
      obtain ⟨hlt, rfl⟩ | ⟨hge, rfl⟩ := System.branch_cases hs
      · exact .go (.begin hpc hlt)
      · exact .go (.exit hpc (Nat.le_of_not_lt hge))
  | connecting =>
      rw [hpc] at hs
      dsimp only at hs
      split at hs
      next t hconnect =>
        injection hs with hs
        subst hs
        obtain ⟨l, _, hlisten, hqueue, heq⟩ := connect_eq_some hconnect
        subst heq
        exact .connect hpc hlisten hqueue
      next =>
        injection hs with hs
        subst hs
        exact .retry hpc
  | connected =>
      rw [hpc] at hs
      injection hs with hs
      subst hs
      exact .arrive1 hpc
  | waiting1 =>
      rw [hpc] at hs
      dsimp only at hs
      obtain ⟨hcan, rfl⟩ := System.guard_cases hs
      exact .leave1 hpc hcan
  | sending =>
      rw [hpc] at hs
      dsimp only at hs
      cases hturn : c.sendTurn s.sender.iteration s.sender.totalSent
          (s.stream s.sender.iteration) s.hasReader m with
      | finished =>
          rw [hturn] at hs
          injection hs with hs
          subst hs
          exact .go (.finish hpc (Transfer.sendTurn_finished hturn))
      | wrote stream total =>
          rw [hturn] at hs
          injection hs with hs
          subst hs
          obtain ⟨hle, htotal, hstream⟩ := Transfer.sendTurn_wrote hturn
          subst htotal hstream
          exact .send hpc hle
      | noReader =>
          have hnone := (Transfer.sendTurn_noReader hturn).2
          exact absurd (hnone.symm.trans (hcalls.send hpc)) (by decide)
      | blocked =>
          rw [hturn] at hs
          cases hs
  | sent =>
      rw [hpc] at hs
      injection hs with hs
      subst hs
      exact .arrive2 hpc
  | waiting2 =>
      rw [hpc] at hs
      dsimp only at hs
      obtain ⟨hcan, rfl⟩ := System.guard_cases hs
      exact .leave2 hpc hcan
  | closing =>
      rw [hpc] at hs
      injection hs with hs
      subst hs
      exact .again hpc
  | exited =>
      rw [hpc] at hs
      cases hs
  | aborted =>
      rw [hpc] at hs
      cases hs
  | killed =>
      rw [hpc] at hs
      cases hs

/-- **Every step of the receiver is a move.** -/
theorem receiverStep_move (hcalls : Calls s) (hs : receiverStep c s m = some s') :
    ReceiverMove c s s' := by
  unfold receiverStep at hs
  cases hpc : s.receiver.pc with
  | ready =>
      rw [hpc] at hs
      dsimp only at hs
      obtain ⟨hlt, rfl⟩ | ⟨hge, rfl⟩ := System.branch_cases hs
      · exact .go (.begin hpc hlt)
      · exact .go (.exit hpc (Nat.le_of_not_lt hge))
  | removing =>
      rw [hpc] at hs
      injection hs with hs
      subst hs
      exact .remove hpc
  | binding =>
      rw [hpc] at hs
      dsimp only at hs
      rw [hcalls.bind hpc] at hs
      injection hs with hs
      subst hs
      exact .bind hpc
  | listening =>
      rw [hpc] at hs
      injection hs with hs
      subst hs
      exact .listen hpc
  | accepting =>
      rw [hpc] at hs
      dsimp only at hs
      unfold accept at hs
      split at hs
      next hnone => exact absurd hnone (hcalls.accept hpc)
      next l hlisten =>
        split at hs
        next => cases hs
        next j hqueue =>
          injection hs with hs
          subst hs
          exact .accept hpc hlisten hqueue
  | accepted =>
      rw [hpc] at hs
      injection hs with hs
      subst hs
      exact .arrive1 hpc
  | waiting1 =>
      rw [hpc] at hs
      dsimp only at hs
      obtain ⟨hcan, rfl⟩ := System.guard_cases hs
      exact .leave1 hpc hcan
  | receiving =>
      rw [hpc] at hs
      dsimp only at hs
      have hwriter := hcalls.recv hpc
      split at hs
      next hnone =>
        -- there is a connection, or nobody could be its writer
        unfold State.hasWriter at hwriter
        rw [hnone] at hwriter
        simp at hwriter
      next j hconn =>
        cases hturn : c.receiveTurn s.receiver.totalReceived
            (s.receiver.readData.take s.receiver.totalReceived) (s.stream j) s.hasWriter m with
        | finished =>
            rw [hturn] at hs
            injection hs with hs
            subst hs
            exact .go (.finish hpc (Transfer.receiveTurn_finished hturn))
        | endOfFile =>
            have hnone := (Transfer.receiveTurn_endOfFile hturn).2.2
            exact absurd (hnone.symm.trans hwriter) (by decide)
        | got stream total data =>
            rw [hturn] at hs
            injection hs with hs
            subst hs
            obtain ⟨hle, htotal, hdata, hstream⟩ := Transfer.receiveTurn_got hturn
            subst htotal hdata hstream
            exact .receive hpc hconn hle
        | blocked =>
            rw [hturn] at hs
            cases hs
  | received =>
      rw [hpc] at hs
      injection hs with hs
      subst hs
      exact .arrive2 hpc
  | waiting2 =>
      rw [hpc] at hs
      dsimp only at hs
      obtain ⟨hcan, rfl⟩ := System.guard_cases hs
      exact .leave2 hpc hcan
  | closingConn =>
      rw [hpc] at hs
      injection hs with hs
      subst hs
      exact .closeConn hpc
  | closingListener =>
      rw [hpc] at hs
      injection hs with hs
      subst hs
      exact .closeListener hpc
  | unlinking =>
      rw [hpc] at hs
      injection hs with hs
      subst hs
      exact .unlink hpc
  | verifying =>
      rw [hpc] at hs
      dsimp only at hs
      split at hs
      next hnone =>
        injection hs with hs
        subst hs
        exact .go (.rejected hpc ((verifyDataReceived_eq_none _ _).mp hnone))
      next =>
        injection hs with hs
        subst hs
        exact .again hpc
  | exited =>
      rw [hpc] at hs
      cases hs
  | failed =>
      rw [hpc] at hs
      cases hs
  | aborted =>
      rw [hpc] at hs
      cases hs

end Akbench.Uds
