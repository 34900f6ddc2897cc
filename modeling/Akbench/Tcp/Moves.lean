/-
  Akbench.Tcp.Moves
  ─────────────────
  **WHAT ONE STEP OF A TCP PROCESS CAN DO.**

  `SenderMove` and `ReceiverMove` list the effects of a step of either
  process, the three `Wait()`s of an iteration being one case, and
  `senderStep_move` and `receiverStep_move` say that there are no others as
  long as no call fails: every invariant is shown of the moves alone.
-/
import Akbench.Tcp.Processes
import Akbench.Lib.Lockstep

namespace Akbench.Tcp

open Framing (slice untag)

variable {c : Transfer} {s s' : State} {m : Nat}

/-! ## §1. Moves. -/

/-- The sender goes on by itself. -/
inductive SenderGoes (c : Transfer) (p : Sender) : SenderPc → Prop where
  | generate (hpc : p.pc = .generating) (hsize : checksumSize < c.dataSize) :
      SenderGoes c p .ready
  | refuse (hpc : p.pc = .generating) (hsmall : c.dataSize ≤ checksumSize) :
      SenderGoes c p .aborted
  | begin (hpc : p.pc = .ready) (hlt : p.iteration < c.total) : SenderGoes c p .created
  | exit (hpc : p.pc = .ready) (hge : c.total ≤ p.iteration) : SenderGoes c p .exited
  | finish (hpc : p.pc = .sending) (hall : c.payload.length ≤ p.totalSent) :
      SenderGoes c p .shutting
  | shut (hpc : p.pc = .shutting) : SenderGoes c p .sent

/-- Into a `Wait()`. -/
inductive SenderArrives : SenderPc → SenderPc → Prop where
  | first : SenderArrives .created .waiting1
  | second : SenderArrives .connected .waiting2
  | third : SenderArrives .sent .waiting3

/-- Out of a `Wait()`, but for the second. -/
inductive SenderLeaves : SenderPc → SenderPc → Prop where
  | first : SenderLeaves .waiting1 .connecting
  | third : SenderLeaves .waiting3 .closing

/-- A step of the sender. -/
inductive SenderMove (c : Transfer) (s : State) : State → Prop where
  | go {pc : SenderPc} (hgo : SenderGoes c s.sender pc) : SenderMove c s (s.senderTo pc)
  | arrive {pc : SenderPc} (harrive : SenderArrives s.sender.pc pc) :
      SenderMove c s { s.senderTo pc with barrier := s.barrier.arrive .sender }
  | leave {pc : SenderPc} (hleave : SenderLeaves s.sender.pc pc)
      (hcan : s.barrier.CanLeave .sender) :
      SenderMove c s { s.senderTo pc with barrier := s.barrier.leave .sender }
  | retry (hpc : s.sender.pc = .connecting) : SenderMove c s s
  | connect {l : Listener} (hpc : s.sender.pc = .connecting) (hlisten : s.listener = some l) :
      SenderMove c s { s.senderTo .connected with
        listener := some { l with queue := l.queue ++ [s.sender.iteration] } }
  | start (hpc : s.sender.pc = .waiting2) (hcan : s.barrier.CanLeave .sender) :
      SenderMove c s { s with
        barrier := s.barrier.leave .sender
        sender := { s.sender with pc := .sending, totalSent := 0 } }
  | send {n : Nat} (hpc : s.sender.pc = .sending)
      (hle : s.sender.totalSent + n ≤ c.payload.length) :
      SenderMove c s { s with
        stream := Function.update s.stream s.sender.iteration
          (s.stream s.sender.iteration ++
            slice c.payload s.sender.iteration s.sender.totalSent n)
        sender := { s.sender with totalSent := s.sender.totalSent + n } }
  | again (hpc : s.sender.pc = .closing) :
      SenderMove c s { s with
        sender := { s.sender with pc := .ready, iteration := s.sender.iteration + 1 } }

/-- The receiver goes on by itself. -/
inductive ReceiverGoes (c : Transfer) (r : Receiver) : ReceiverPc → Prop where
  | begin (hpc : r.pc = .ready) (hlt : r.iteration < c.total) : ReceiverGoes c r .binding
  | exit (hpc : r.pc = .ready) (hge : c.total ≤ r.iteration) : ReceiverGoes c r .exited
  | finish (hpc : r.pc = .receiving) (hall : c.payload.length ≤ r.totalReceived) :
      ReceiverGoes c r .received
  | verified (hpc : r.pc = .verifying) : ReceiverGoes c r .closingConn

/-- Into a `Wait()`. -/
inductive ReceiverArrives : ReceiverPc → ReceiverPc → Prop where
  | first : ReceiverArrives .listened .waiting1
  | second : ReceiverArrives .accepted .waiting2
  | third : ReceiverArrives .received .waiting3

/-- Out of a `Wait()`, but for the second. -/
inductive ReceiverLeaves : ReceiverPc → ReceiverPc → Prop where
  | first : ReceiverLeaves .waiting1 .accepting
  | third : ReceiverLeaves .waiting3 .verifying

/-- A step of the receiver. -/
inductive ReceiverMove (c : Transfer) (s : State) : State → Prop where
  | go {pc : ReceiverPc} (hgo : ReceiverGoes c s.receiver pc) :
      ReceiverMove c s (s.receiverTo pc)
  | arrive {pc : ReceiverPc} (harrive : ReceiverArrives s.receiver.pc pc) :
      ReceiverMove c s { s.receiverTo pc with barrier := s.barrier.arrive .receiver }
  | leave {pc : ReceiverPc} (hleave : ReceiverLeaves s.receiver.pc pc)
      (hcan : s.barrier.CanLeave .receiver) :
      ReceiverMove c s { s.receiverTo pc with barrier := s.barrier.leave .receiver }
  | bind (hpc : s.receiver.pc = .binding) :
      ReceiverMove c s { s.receiverTo .listening with port := some s.receiver.iteration }
  | listen (hpc : s.receiver.pc = .listening) :
      ReceiverMove c s { s.receiverTo .listened with
        listener := some ⟨s.receiver.iteration, []⟩ }
  | accept {l : Listener} {j : Nat} {rest : List Nat} (hpc : s.receiver.pc = .accepting)
      (hlisten : s.listener = some l) (hqueue : l.queue = j :: rest) :
      ReceiverMove c s { s with
        listener := some { l with queue := rest }
        conn := some j
        receiver := { s.receiver with
          pc := .accepted
          receivedData := List.replicate c.dataSize 0 } }
  | start (hpc : s.receiver.pc = .waiting2) (hcan : s.barrier.CanLeave .receiver) :
      ReceiverMove c s { s with
        barrier := s.barrier.leave .receiver
        receiver := { s.receiver with pc := .receiving, totalReceived := 0 } }
  | receive {j n : Nat} (hpc : s.receiver.pc = .receiving) (hconn : s.conn = some j)
      (hle : n ≤ (s.stream j).length) :
      ReceiverMove c s { s with
        stream := Function.update s.stream j ((s.stream j).drop n)
        receiver := { s.receiver with
          totalReceived := s.receiver.totalReceived + n
          receivedData := overwrite s.receiver.receivedData s.receiver.totalReceived
            (untag ((s.stream j).take n)) } }
  | reject (hpc : s.receiver.pc = .verifying)
      (hbad : verifyDataReceived s.receiver.receivedData c.dataSize ≠ some true) :
      ReceiverMove c s
        { s.receiverTo .aborted with port := none, listener := none, conn := none }
  | closeConn (hpc : s.receiver.pc = .closingConn) :
      ReceiverMove c s { s.receiverTo .closingListener with conn := none }
  | again (hpc : s.receiver.pc = .closingListener) :
      ReceiverMove c s { s with
        port := none
        listener := none
        receiver := { s.receiver with pc := .ready, iteration := s.receiver.iteration + 1 } }

/-- No call of either process fails in its next step. -/
structure Calls (c : Transfer) (s : State) : Prop where
  /-- The port is free for `bind()`. -/
  bind : s.receiver.pc = .binding → s.port = none
  accept : s.receiver.pc = .accepting → s.listener ≠ none
  conn : s.receiver.pc = .receiving → s.conn ≠ none
  /-- Whatever `recv()` returns fits into `received_data`. -/
  fits : s.receiver.pc = .receiving → ∀ j, s.conn = some j →
    s.receiver.totalReceived + (s.stream j).length ≤ s.receiver.receivedData.length
  /-- `recv()` does not return 0 before the end of the frame. -/
  recv : s.receiver.pc = .receiving → ∀ j, s.conn = some j →
    s.receiver.totalReceived < c.payload.length → s.stream j = [] → s.hasWriter j = true
  /-- `send()` is on a connection with a receiver. -/
  send : s.sender.pc = .sending → s.hasReader = true

/-! ## §2. The steps are the moves. -/

/-- Into a `Wait()` and out of it. -/
theorem sender_arrives {pc pc' : SenderPc} (hpc : s.sender.pc = pc)
    (harrive : SenderArrives pc pc') :
    SenderMove c s { s.senderTo pc' with barrier := s.barrier.arrive .sender } := by
  subst hpc
  exact .arrive harrive

theorem sender_leaves {pc pc' : SenderPc} (hpc : s.sender.pc = pc)
    (hleave : SenderLeaves pc pc')
    (hs : (if s.barrier.CanLeave .sender then
      some { s.senderTo pc' with barrier := s.barrier.leave .sender } else none) = some s') :
    SenderMove c s s' := by
  subst hpc
  obtain ⟨hcan, rfl⟩ := System.guard_cases hs
  exact .leave hleave hcan

/-- A turn of the `send` loop. -/
theorem afterSend_move (hcalls : Calls c s) (hpc : s.sender.pc = .sending)
    (hs : afterSend s (c.sendTurn s.sender.iteration s.sender.totalSent
      (s.stream s.sender.iteration) s.hasReader m) = some s') : SenderMove c s s' := by
  cases hturn : c.sendTurn s.sender.iteration s.sender.totalSent
      (s.stream s.sender.iteration) s.hasReader m with
  | finished =>
      rw [hturn] at hs
      injection hs with hs
      subst hs
      exact .go (.finish hpc (Transfer.sendTurn_finished hturn))
  | wrote stream total =>
      rw [hturn] at hs
      injection hs with hs
      subst hs
      obtain ⟨hle, htotal, hstream⟩ := Transfer.sendTurn_wrote hturn
      subst htotal hstream
      exact .send hpc hle
  | noReader =>
      have hnone := (Transfer.sendTurn_noReader hturn).2
      exact absurd (hnone.symm.trans (hcalls.send hpc)) (by decide)
  | blocked =>
      rw [hturn] at hs
      cases hs

/-- **Every step of the sender is a move.** -/
theorem senderStep_move (hcalls : Calls c s) (hs : senderStep c s m = some s') :
    SenderMove c s s' := by
  unfold senderStep at hs
  cases hpc : s.sender.pc with
  | generating =>
      rw [hpc] at hs
      dsimp only at hs
      obtain ⟨hsize, rfl⟩ | ⟨hsmall, rfl⟩ := System.branch_cases hs
      · exact .go (.generate hpc hsize)
      · exact .go (.refuse hpc (Nat.le_of_not_lt hsmall))
  | ready =>
      rw [hpc] at hs
      dsimp only at hs
      obtain ⟨hlt, rfl⟩ | ⟨hge, rfl⟩ := System.branch_cases hs
      · exact .go (.begin hpc hlt)
      · exact .go (.exit hpc (Nat.le_of_not_lt hge))
  | created =>
      rw [hpc] at hs
      injection hs with hs
      subst hs
      exact sender_arrives hpc .first
  | waiting1 =>
      rw [hpc] at hs
      exact sender_leaves hpc .first hs
  | connecting =>
      rw [hpc] at hs
      dsimp only at hs
      split at hs
      next t hconnect =>
        injection hs with hs
        subst hs
        obtain ⟨l, hlisten, heq⟩ := Option.map_eq_some_iff.mp hconnect
        subst heq
        exact .connect hpc hlisten
      next =>
        injection hs with hs
        subst hs
        exact .retry hpc
  | connected =>
      rw [hpc] at hs
      injection hs with hs
      subst hs
      exact sender_arrives hpc .second
  | waiting2 =>
      rw [hpc] at hs
      dsimp only at hs
      obtain ⟨hcan, rfl⟩ := System.guard_cases hs
      exact .start hpc hcan
  | sending =>
      rw [hpc] at hs
      exact afterSend_move hcalls hpc hs
  | shutting =>
      rw [hpc] at hs
      injection hs with hs
      subst hs
      exact .go (.shut hpc)
  | sent =>
      rw [hpc] at hs
      injection hs with hs
      subst hs
      exact sender_arrives hpc .third
  | waiting3 =>
      rw [hpc] at hs
      exact sender_leaves hpc .third hs
  | closing =>
      rw [hpc] at hs
      injection hs with hs
      subst hs
      exact .again hpc
  | exited | aborted | killed =>
      rw [hpc] at hs
      cases hs

/-- Into a `Wait()` and out of it. -/
theorem receiver_arrives {pc pc' : ReceiverPc} (hpc : s.receiver.pc = pc)
    (harrive : ReceiverArrives pc pc') :
    ReceiverMove c s { s.receiverTo pc' with barrier := s.barrier.arrive .receiver } := by
  subst hpc
  exact .arrive harrive

theorem receiver_leaves {pc pc' : ReceiverPc} (hpc : s.receiver.pc = pc)
    (hleave : ReceiverLeaves pc pc')
    (hs : (if s.barrier.CanLeave .receiver then
      some { s.receiverTo pc' with barrier := s.barrier.leave .receiver } else none) = some s') :
    ReceiverMove c s s' := by
  subst hpc
  obtain ⟨hcan, rfl⟩ := System.guard_cases hs
  exact .leave hleave hcan

/-- A turn of the `recv` loop. -/
theorem afterReceive_move (hcalls : Calls c s) (hpc : s.receiver.pc = .receiving) {j : Nat}
    (hconn : s.conn = some j)
    (hs : afterReceive s j (c.receiveTurn s.receiver.totalReceived [] (s.stream j)
      (s.hasWriter j) m) = some s') : ReceiverMove c s s' := by
  cases hturn : c.receiveTurn s.receiver.totalReceived [] (s.stream j) (s.hasWriter j) m with
  | finished =>
      rw [hturn] at hs
      injection hs with hs
      subst hs
      exact .go (.finish hpc (Transfer.receiveTurn_finished hturn))
  | endOfFile =>
      obtain ⟨hlt, hempty, hnone⟩ := Transfer.receiveTurn_endOfFile hturn
      have hwriter := hcalls.recv hpc j hconn hlt hempty
      exact absurd (hnone.symm.trans hwriter) (by decide)
  | got stream total recvBuffer =>
      obtain ⟨hle, htotal, hbuffer, hstream⟩ := Transfer.receiveTurn_got hturn
      have hfits := hcalls.fits hpc j hconn
      have hlen : recvBuffer.length = m := by
        rw [hbuffer, List.nil_append, Framing.length_untag, List.length_take,
          Nat.min_eq_left hle]
      rw [hturn] at hs
      unfold afterReceive at hs
      dsimp only at hs
      rw [if_pos (by omega)] at hs
      injection hs with hs
      subst hs htotal hstream
      rw [hbuffer, List.nil_append]
      exact .receive hpc hconn hle
  | blocked =>
      rw [hturn] at hs
      cases hs

/-- **Every step of the receiver is a move.** -/
theorem receiverStep_move (hcalls : Calls c s) (hs : receiverStep c s m = some s') :
    ReceiverMove c s s' := by
  unfold receiverStep at hs
  cases hpc : s.receiver.pc with
  | ready =>
      rw [hpc] at hs
      dsimp only at hs
      obtain ⟨hlt, rfl⟩ | ⟨hge, rfl⟩ := System.branch_cases hs
      · exact .go (.begin hpc hlt)
      · exact .go (.exit hpc (Nat.le_of_not_lt hge))
  | binding =>
      rw [hpc] at hs
      dsimp only at hs
      rw [hcalls.bind hpc] at hs
      injection hs with hs
      subst hs
      exact .bind hpc
  | listening =>
      rw [hpc] at hs
      injection hs with hs
      subst hs
      exact .listen hpc
  | listened =>
      rw [hpc] at hs
      injection hs with hs
      subst hs
      exact receiver_arrives hpc .first
  | waiting1 =>
      rw [hpc] at hs
      exact receiver_leaves hpc .first hs
  | accepting =>
      rw [hpc] at hs
      dsimp only at hs
      unfold accept at hs
      split at hs
      next hnone => exact absurd hnone (hcalls.accept hpc)
      next l hlisten =>
        split at hs
        next => cases hs
        next j rest hqueue =>
          injection hs with hs
          subst hs
          exact .accept hpc hlisten hqueue
  | accepted =>
      rw [hpc] at hs
      injection hs with hs
      subst hs
      exact receiver_arrives hpc .second
  | waiting2 =>
      rw [hpc] at hs
      dsimp only at hs
      obtain ⟨hcan, rfl⟩ := System.guard_cases hs
      exact .start hpc hcan
  | receiving =>
      rw [hpc] at hs
      dsimp only at hs
      split at hs
      next hnone => exact absurd hnone (hcalls.conn hpc)
      next j hconn => exact afterReceive_move hcalls hpc hconn hs
  | received =>
      rw [hpc] at hs
      injection hs with hs
      subst hs
      exact receiver_arrives hpc .third
  | waiting3 =>
      rw [hpc] at hs
      exact receiver_leaves hpc .third hs
  | verifying =>
      rw [hpc] at hs
      dsimp only at hs
      obtain ⟨_, rfl⟩ | ⟨hbad, rfl⟩ := System.branch_cases hs
      · exact .go (.verified hpc)
      · exact .reject hpc hbad
  | closingConn =>
      rw [hpc] at hs
      injection hs with hs
      subst hs
      exact .closeConn hpc
  | closingListener =>
      rw [hpc] at hs
      injection hs with hs
      subst hs
      exact .again hpc
  | exited | failed | overrun | aborted =>
      rw [hpc] at hs
      cases hs

end Akbench.Tcp
