/-
  Akbench.Uds.Deadlock
  ────────────────────
  **WHEN `uds_bandwidth` CAN GET STUCK.**

  After its second `Wait()` the sender may call `connect()` while the
  receiver still has the listening socket of the same iteration open.  The
  call succeeds, the receiver closes the socket and with it the connection,
  and then waits in `accept()` for a sender that waits in `Wait()`.

    • `Inv.progress` — a sender that is not orphaned holds nobody up;
    • `Doomed.step`, `Doomed.stuck` — an orphaned sender stays one, and the
      two processes come to a halt;
    • `not_doomed` — only such a `connect()` orphans a sender;
    • `uds_session` — so the session is free of deadlock exactly when no such
      call is made.
-/
import Akbench.Uds.Delivery

namespace Akbench.Uds

open Framing (slice untag)

variable {c : Transfer} {s s' : State} {m : Nat}

/-! ## §1. Progress. -/

theorem canProgress_of_sender (hs : senderStep c s m = some s')
    (hne : s'.sender ≠ s.sender) : (system c).CanProgress s :=
  System.CanProgress.of_step (f := State.sender) (a := Act.sender m) hs hne

theorem canProgress_of_receiver (hs : receiverStep c s m = some s')
    (hne : s'.receiver ≠ s.receiver) : (system c).CanProgress s :=
  System.CanProgress.of_step (f := State.receiver) (a := Act.receiver m) hs hne

/-- The sender's next step waits for nobody. -/
def SenderPc.isFree : SenderPc → Bool
  | .generating | .ready | .connected | .sent | .closing => true
  | _ => false

/-- The receiver's next step waits for nobody. -/
def ReceiverPc.isFree : ReceiverPc → Bool
  | .accepting | .waiting1 | .receiving | .waiting2 | .exited | .failed | .aborted => false
  | _ => true

theorem sender_pc_ne {p : Sender} {pc : SenderPc} (hpc : p.pc ≠ pc) {i n : Nat} :
    (⟨pc, i, n⟩ : Sender) ≠ p := by
  intro heq
  rw [← heq] at hpc
  exact hpc rfl

theorem receiver_pc_ne {r : Receiver} {pc : ReceiverPc} (hpc : r.pc ≠ pc) {i n : Nat}
    {data : List UInt8} : (⟨pc, i, n, data⟩ : Receiver) ≠ r := by
  intro heq
  rw [← heq] at hpc
  exact hpc rfl

/-- Where a sender that waits for nobody goes next. -/
theorem senderStep_of_free (hfree : s.sender.pc.isFree = true) :
    ∃ s', senderStep c s 0 = some s' ∧ s'.sender ≠ s.sender := by
  unfold senderStep
  cases hpc : s.sender.pc with
  | generating =>
      by_cases hsize : checksumSize < c.dataSize
      · exact ⟨_, if_pos hsize, sender_pc_ne (by rw [hpc]; nofun)⟩
      · exact ⟨_, if_neg hsize, sender_pc_ne (by rw [hpc]; nofun)⟩
  | ready =>
      by_cases hlt : s.sender.iteration < c.total
      · exact ⟨_, if_pos hlt, sender_pc_ne (by rw [hpc]; nofun)⟩
      · exact ⟨_, if_neg hlt, sender_pc_ne (by rw [hpc]; nofun)⟩
  | connected | sent | closing => exact ⟨_, rfl, sender_pc_ne (by rw [hpc]; nofun)⟩
  | connecting | waiting1 | sending | waiting2 | exited | aborted | killed =>
      rw [hpc] at hfree
      cases hfree

/-- Where a receiver that waits for nobody goes next. -/
theorem receiverStep_of_free (hinv : Inv c s) (hfree : s.receiver.pc.isFree = true) :
    ∃ s', receiverStep c s 0 = some s' ∧ s'.receiver ≠ s.receiver := by
  unfold receiverStep
  cases hpc : s.receiver.pc with
  | ready =>
      by_cases hlt : s.receiver.iteration < c.total
      · exact ⟨_, if_pos hlt, receiver_pc_ne (by rw [hpc]; nofun)⟩
      · exact ⟨_, if_neg hlt, receiver_pc_ne (by rw [hpc]; nofun)⟩
  | binding =>
      rw [hinv.calls.bind hpc]
      exact ⟨_, rfl, receiver_pc_ne (by rw [hpc]; nofun)⟩
  | verifying =>
      cases verifyDataReceived s.receiver.readData c.dataSize with
      | none => exact ⟨_, rfl, receiver_pc_ne (by rw [hpc]; nofun)⟩
      | some _ => exact ⟨_, rfl, receiver_pc_ne (by rw [hpc]; nofun)⟩
  | removing | listening | accepted | received | closingConn | closingListener | unlinking =>
      exact ⟨_, rfl, receiver_pc_ne (by rw [hpc]; nofun)⟩
  | accepting | waiting1 | receiving | waiting2 | exited | failed | aborted =>
      rw [hpc] at hfree
      cases hfree

theorem canProgress_of_sender_free (hfree : s.sender.pc.isFree = true) :
    (system c).CanProgress s := by
  obtain ⟨s', hs, hne⟩ := senderStep_of_free (c := c) hfree
  exact canProgress_of_sender hs hne

theorem canProgress_of_receiver_free (hinv : Inv c s) (hfree : s.receiver.pc.isFree = true) :
    (system c).CanProgress s := by
  obtain ⟨s', hs, hne⟩ := receiverStep_of_free hinv hfree
  exact canProgress_of_receiver hs hne

/-- Inside a `barrier.Wait()`. -/
def SenderPc.isWaiting : SenderPc → Bool
  | .waiting1 | .waiting2 => true
  | _ => false

/-- Inside a `barrier.Wait()`. -/
def ReceiverPc.isWaiting : ReceiverPc → Bool
  | .waiting1 | .waiting2 => true
  | _ => false

theorem canProgress_of_sender_waiting (hwait : s.sender.pc.isWaiting = true)
    (hcan : s.barrier.CanLeave .sender) : (system c).CanProgress s := by
  have hstep : ∃ s', senderStep c s 0 = some s' ∧ s'.sender ≠ s.sender := by
    unfold senderStep
    cases hpc : s.sender.pc with
    | waiting1 | waiting2 => exact ⟨_, if_pos hcan, sender_pc_ne (by rw [hpc]; nofun)⟩
    | generating | ready | connecting | connected | sending | sent | closing | exited | aborted
    | killed =>
        rw [hpc] at hwait
        cases hwait
  obtain ⟨s', hs, hne⟩ := hstep
  exact canProgress_of_sender hs hne

theorem canProgress_of_receiver_waiting (hwait : s.receiver.pc.isWaiting = true)
    (hcan : s.barrier.CanLeave .receiver) : (system c).CanProgress s := by
  have hstep : ∃ s', receiverStep c s 0 = some s' ∧ s'.receiver ≠ s.receiver := by
    unfold receiverStep
    cases hpc : s.receiver.pc with
    | waiting1 | waiting2 => exact ⟨_, if_pos hcan, receiver_pc_ne (by rw [hpc]; nofun)⟩
    | ready | removing | binding | listening | accepting | accepted | receiving | received
    | closingConn | closingListener | unlinking | verifying | exited | failed | aborted =>
        rw [hpc] at hwait
        cases hwait
  obtain ⟨s', hs, hne⟩ := hstep
  exact canProgress_of_receiver hs hne

/-- Of two processes inside the barrier one can leave. -/
theorem canProgress_of_both_waiting (hs : s.sender.pc.isWaiting = true)
    (hr : s.receiver.pc.isWaiting = true) : (system c).CanProgress s := by
  rcases Rendezvous.canLeave_or s.barrier with hcan | hcan
  · exact canProgress_of_sender_waiting hs hcan
  · exact canProgress_of_receiver_waiting hr hcan

/-- **`connect()` while the receiver listens** succeeds. -/
theorem Inv.connect (h : Inv c s) (hpc : s.sender.pc = .connecting) {l : Listener}
    (hl : s.listener = some l) :
    s.connect = some { s.senderTo .connected with
      listener := some { l with queue := some s.sender.iteration } } := by
  obtain ⟨hlisten, hiter⟩ := h.sockets.listener_iteration hl
  have hpath := h.sockets.path
  have hbound : s.receiver.pc.isBound = true := by
    cases hr : s.receiver.pc with
    | listening | accepting | accepted | waiting1 | receiving | received | waiting2
    | closingConn | closingListener | unlinking => rfl
    | ready | removing | binding | verifying | exited | failed | aborted =>
        rw [hr] at hlisten
        cases hlisten
  rw [hbound, if_pos rfl] at hpath
  have hqueue : l.queue = none := by
    have hnone := h.meeting.queued_none (by rw [hpc]; rfl)
    unfold State.queued at hnone
    rw [hl] at hnone
    exact hnone
  unfold State.connect
  rw [hpath, hl]
  exact if_pos ⟨hiter, hqueue⟩

theorem senderStep_connect (hpc : s.sender.pc = .connecting) (hconnect : s.connect = some s') :
    senderStep c s m = some s' := by
  unfold senderStep
  rw [hpc]
  dsimp only
  rw [hconnect]

theorem Inv.canProgress_of_connecting (h : Inv c s) (hpc : s.sender.pc = .connecting)
    (hlisten : s.receiver.pc.isListening = true) : (system c).CanProgress s := by
  obtain ⟨l, hl, _⟩ := h.sockets.exists_listener hlisten
  refine canProgress_of_sender (m := 0) (senderStep_connect hpc (h.connect hpc hl)) ?_
  exact sender_pc_ne (by rw [hpc]; nofun)

/-- A connection that ran dry before the end of the frame has a sender with
more to send. -/
theorem Inv.sending_of_dry (h : Inv c s) (hpc : s.receiver.pc = .receiving)
    (hpush : s.sender.pc.isPushing = true)
    (hlt : s.receiver.totalReceived < c.payload.length)
    (hempty : s.stream s.receiver.iteration = []) :
    s.sender.pc = .sending ∧ s.sender.totalSent < c.payload.length := by
  obtain ⟨hsame, _⟩ := h.of_receiving hpc
  have htaken : s.receiver.taken = s.receiver.totalReceived :=
    Receiver.taken_of_taking (by rw [hpc]; rfl)
  have hsent := Sender.sentBytes_of_pushing hpush
  have hflight := h.flow.inFlight hsame
  have hle := h.flow.taken_le hsame
  rw [htaken, hsent] at hflight hle
  have hbound := h.sites.sender.sent_le hpush
  have hshort : s.sender.totalSent < c.payload.length := by
    have hlen : (s.stream s.receiver.iteration).length =
        s.sender.totalSent - s.receiver.totalReceived := by
      rw [hflight, Framing.length_slice (by omega)]
    rw [hempty, List.length_nil] at hlen
    omega
  refine ⟨?_, hshort⟩
  cases hspc : s.sender.pc with
  | sending => rfl
  | sent | waiting2 | closing =>
      have hall := h.sites.sender.sentAll (by rw [hspc]; rfl)
      omega
  | generating | ready | connecting | connected | waiting1 | exited | aborted | killed =>
      rw [hspc] at hpush
      cases hpush

/-- A `send` of one byte into an empty connection. -/
theorem Inv.senderStep_send (h : Inv c s) (hpc : s.sender.pc = .sending)
    (hlt : s.sender.totalSent < c.payload.length)
    (hempty : s.stream s.sender.iteration = []) :
    senderStep c s 1 = some { s with
      stream := Function.update s.stream s.sender.iteration
        (slice c.payload s.sender.iteration s.sender.totalSent 1)
      sender := { s.sender with totalSent := s.sender.totalSent + 1 } } := by
  unfold senderStep
  rw [hpc]
  dsimp only
  rw [hempty, h.calls.send hpc, Transfer.sendTurn_empty hlt]
  rfl

theorem senderStep_finish (hpc : s.sender.pc = .sending)
    (hge : c.payload.length ≤ s.sender.totalSent) :
    senderStep c s m = some (s.senderTo .sent) := by
  unfold senderStep
  rw [hpc]
  dsimp only
  rw [Transfer.sendTurn_over hge]
  rfl

/-- What a turn of the `recv` loop comes to. -/
theorem Inv.receiverStep_receiving (h : Inv c s) (hpc : s.receiver.pc = .receiving) :
    receiverStep c s m = afterReceive s s.receiver.iteration
      (c.receiveTurn s.receiver.totalReceived
        (s.receiver.readData.take s.receiver.totalReceived) (s.stream s.receiver.iteration)
        s.hasWriter m) := by
  unfold receiverStep
  rw [hpc, h.sockets.conn_eq (by rw [hpc]; rfl)]

/-- A `recv` of one byte from a connection that holds something. -/
theorem Inv.receiverStep_receive (h : Inv c s) (hpc : s.receiver.pc = .receiving)
    (hlt : s.receiver.totalReceived < c.payload.length)
    (hne : s.stream s.receiver.iteration ≠ []) :
    ∃ s', receiverStep c s 1 = some s' ∧ s'.sender = s.sender ∧
      s'.receiver.pc = .receiving ∧ s'.receiver.iteration = s.receiver.iteration ∧
      s'.receiver.totalReceived = s.receiver.totalReceived + 1 := by
  rw [h.receiverStep_receiving hpc, Transfer.receiveTurn_nonempty hlt hne]
  exact ⟨_, rfl, rfl, hpc, rfl, rfl⟩

theorem Inv.receiverStep_finish (h : Inv c s) (hpc : s.receiver.pc = .receiving)
    (hge : c.payload.length ≤ s.receiver.totalReceived) :
    receiverStep c s m = some (s.receiverTo .received) := by
  rw [h.receiverStep_receiving hpc, Transfer.receiveTurn_over hge]
  rfl

/-- A receiver in its loop reads, or the sender writes. -/
theorem Inv.canProgress_of_receiving (h : Inv c s) (hpc : s.receiver.pc = .receiving)
    (hpush : s.sender.pc.isPushing = true) : (system c).CanProgress s := by
  by_cases hlt : s.receiver.totalReceived < c.payload.length
  · by_cases hempty : s.stream s.receiver.iteration = []
    · obtain ⟨hspc, hshort⟩ := h.sending_of_dry hpc hpush hlt hempty
      rw [← (h.of_receiving hpc).1] at hempty
      refine canProgress_of_sender (h.senderStep_send hspc hshort hempty) ?_
      intro heq
      exact absurd (congrArg Sender.totalSent heq) (Nat.succ_ne_self _)
    · obtain ⟨s', hs, _, _, _, hnext⟩ := h.receiverStep_receive hpc hlt hempty
      refine canProgress_of_receiver hs ?_
      intro heq
      rw [heq] at hnext
      exact absurd hnext.symm (Nat.succ_ne_self _)
  · refine canProgress_of_receiver (m := 0)
      (h.receiverStep_finish hpc (Nat.le_of_not_lt hlt)) ?_
    exact receiver_pc_ne (by rw [hpc]; nofun)

/-- A queued connection is accepted. -/
theorem canProgress_of_queued (hpc : s.receiver.pc = .accepting) {j : Nat}
    (hq : s.queued = some j) : (system c).CanProgress s := by
  have hstep : ∃ s', receiverStep c s 0 = some s' ∧ s'.receiver ≠ s.receiver := by
    unfold receiverStep
    rw [hpc]
    dsimp only
    unfold accept
    obtain ⟨l, hl, hlq⟩ := Option.bind_eq_some_iff.mp hq
    rw [hl]
    dsimp only
    rw [hlq]
    exact ⟨_, rfl, receiver_pc_ne (by rw [hpc]; nofun)⟩
  obtain ⟨s', hs, hne⟩ := hstep
  exact canProgress_of_receiver hs hne

/-! ## §2. Nobody else is ever stuck. -/

/-- Where else the sender may have to wait. -/
theorem SenderPc.waits {pc : SenderPc} (hfree : pc.isFree = false) (hab : pc ≠ .aborted)
    (hkill : pc ≠ .killed) :
    pc.isWaiting = true ∨ pc = .connecting ∨ pc = .sending ∨ pc = .exited := by
  cases pc with
  | generating | ready | connected | sent | closing => cases hfree
  | aborted => exact absurd rfl hab
  | killed => exact absurd rfl hkill
  | connecting | waiting1 | sending | waiting2 | exited => decide

/-- Where else the receiver may have to wait. -/
theorem ReceiverPc.waits {pc : ReceiverPc} (hfree : pc.isFree = false) (hab : pc ≠ .aborted)
    (halive : pc ≠ .failed) :
    pc.isWaiting = true ∨ pc = .accepting ∨ pc = .receiving ∨ pc = .exited := by
  cases pc with
  | ready | removing | binding | listening | accepted | received | closingConn | closingListener
  | unlinking | verifying => cases hfree
  | aborted => exact absurd rfl hab
  | failed => exact absurd rfl halive
  | accepting | waiting1 | receiving | waiting2 | exited => decide

theorem SenderPc.isRunning_of_isWaiting {pc : SenderPc} (h : pc.isWaiting = true) :
    pc.isRunning = true := by
  cases pc with
  | waiting1 | waiting2 => rfl
  | generating | ready | connecting | connected | sending | sent | closing | exited | aborted
  | killed => cases h

theorem ReceiverPc.isRunning_of_isWaiting {pc : ReceiverPc} (h : pc.isWaiting = true) :
    pc.isRunning = true := by
  cases pc with
  | waiting1 | waiting2 => rfl
  | ready | removing | binding | listening | accepting | accepted | receiving | received
  | closingConn | closingListener | unlinking | verifying | exited | failed | aborted => cases h

theorem ReceiverPc.isListening_of_isWaiting {pc : ReceiverPc} (h : pc.isWaiting = true) :
    pc.isListening = true := by
  cases pc with
  | waiting1 | waiting2 => rfl
  | ready | removing | binding | listening | accepting | accepted | receiving | received
  | closingConn | closingListener | unlinking | verifying | exited | failed | aborted => cases h

/-- Nobody waits for a receiver that has made all its iterations. -/
theorem Sites.canLeave_of_receiver_exited (h : Sites c s) (hwait : s.sender.pc.isWaiting = true)
    (hr : s.receiver.pc = .exited) : s.barrier.CanLeave .sender := by
  have hdone := h.receiver.exited hr
  have hlt := h.sender.running (SenderPc.isRunning_of_isWaiting hwait)
  have hle : s.sender.pc.entered ≤ 2 := h.lockstep.entered_le .sender
  rw [h.canLeave_sender]
  omega

/-- Nobody waits for a sender that has made all its iterations. -/
theorem Sites.canLeave_of_sender_exited (h : Sites c s) (hwait : s.receiver.pc.isWaiting = true)
    (hs : s.sender.pc = .exited) : s.barrier.CanLeave .receiver := by
  have hdone := h.sender.exited hs
  have hlt := h.receiver.running (ReceiverPc.isRunning_of_isWaiting hwait)
  have hle : s.receiver.pc.entered ≤ 2 := h.lockstep.entered_le .receiver
  rw [h.canLeave_receiver]
  omega

/-- A receiver in `accept()` has neither a sender in its loop nor one that is
through. -/
theorem Sites.not_accepting (h : Sites c s) (hs : s.sender.pc = .sending ∨ s.sender.pc = .exited) :
    s.receiver.pc ≠ .accepting := by
  intro hpc
  have hap := h.apart
  have hlt := h.receiver.running (by rw [hpc]; rfl)
  have he : ReceiverPc.accepting.entered = 0 := rfl
  have hl : ReceiverPc.accepting.left = 0 := rfl
  rw [hpc] at hap
  rcases hs with hs | hs
  · have hse : SenderPc.sending.entered = 1 := rfl
    have hsl : SenderPc.sending.left = 1 := rfl
    rw [hs] at hap
    omega
  · have hdone := h.sender.exited hs
    have hsl : SenderPc.exited.left = 0 := rfl
    rw [hs] at hap
    omega

/-- A receiver that is through has no sender before it. -/
theorem Sites.not_receiver_exited (h : Sites c s)
    (hs : s.sender.pc = .connecting ∨ s.sender.pc = .sending) : s.receiver.pc ≠ .exited := by
  intro hpc
  have hap := h.apart.2
  have hdone := h.receiver.exited hpc
  have hl : ReceiverPc.exited.left = 0 := rfl
  rw [hpc] at hap
  rcases hs with hs | hs
  · have hlt := h.sender.running (by rw [hs]; rfl)
    have he : SenderPc.connecting.entered = 0 := rfl
    rw [hs] at hap
    omega
  · have hlt := h.sender.running (by rw [hs]; rfl)
    have he : SenderPc.sending.entered = 1 := rfl
    rw [hs] at hap
    omega

/-- **`accept()`**: the sender's connection is queued, or the sender is still
in the second `Wait()` of the iteration before. -/
theorem Inv.canProgress_of_accepting (h : Inv c s)
    (hfine : s.sender.pc.isHeld = true → ¬ s.Orphaned) (hpc : s.receiver.pc = .accepting)
    (hwait : s.sender.pc.isWaiting = true) : (system c).CanProgress s := by
  cases hs : s.sender.pc with
  | waiting1 =>
      have hheld : s.sender.pc.isHeld = true := by rw [hs]; rfl
      rcases h.meeting.met hheld with ⟨_, hlink | hlink⟩ | horphan
      · rw [hpc] at hlink
        cases hlink.1
      · exact canProgress_of_queued hpc hlink.2
      · exact absurd horphan (hfine hheld)
  | waiting2 =>
      have hap := h.sites.apart.2
      rw [hpc, hs] at hap
      have he : ReceiverPc.accepting.entered = 0 := rfl
      have hl : ReceiverPc.accepting.left = 0 := rfl
      have hse : SenderPc.waiting2.entered = 2 := rfl
      have hsl : SenderPc.waiting2.left = 1 := rfl
      have hap' := h.sites.apart.1
      rw [hpc, hs] at hap'
      refine canProgress_of_sender_waiting hwait ?_
      rw [h.sites.canLeave_sender, hs, hpc]
      omega
  | generating | ready | connecting | connected | sending | sent | closing | exited | aborted
  | killed =>
      rw [hs] at hwait
      cases hwait

/-- **`recv()`**: the sender can leave its first `Wait()`, or one of the two
has bytes to move. -/
theorem Inv.canProgress_of_receiving_waiting (h : Inv c s) (hpc : s.receiver.pc = .receiving)
    (hwait : s.sender.pc.isWaiting = true) : (system c).CanProgress s := by
  cases hs : s.sender.pc with
  | waiting1 =>
      obtain ⟨hsame, _⟩ := h.of_receiving hpc
      refine canProgress_of_sender_waiting hwait ?_
      rw [h.sites.canLeave_sender, hs, hpc, hsame]
      exact Nat.le_refl _
  | waiting2 => exact h.canProgress_of_receiving hpc (by rw [hs]; rfl)
  | generating | ready | connecting | connected | sending | sent | closing | exited | aborted
  | killed =>
      rw [hs] at hwait
      cases hwait

/-- **`send()`** to a receiver inside a `Wait()`: the receiver can leave it, or
the frame is out. -/
theorem Inv.canProgress_of_sending (h : Inv c s) (hpc : s.sender.pc = .sending)
    (hwait : s.receiver.pc.isWaiting = true) : (system c).CanProgress s := by
  obtain ⟨hsame, _⟩ := h.of_sending hpc
  cases hr : s.receiver.pc with
  | waiting1 =>
      refine canProgress_of_receiver_waiting hwait ?_
      rw [h.sites.canLeave_receiver, hr, hpc, hsame]
      exact Nat.le_refl _
  | waiting2 =>
      -- the receiver has the whole frame, so all of it was sent
      have hwhole := h.sites.receiver.whole (by rw [hr]; rfl)
      have hle := h.flow.taken_le hsame.symm
      rw [Receiver.taken_of_taking (by rw [hr]; rfl),
        Sender.sentBytes_of_pushing (by rw [hpc]; rfl)] at hle
      refine canProgress_of_sender (m := 0)
        (senderStep_finish hpc (Nat.le_trans hwhole hle)) ?_
      exact sender_pc_ne (by rw [hpc]; nofun)
  | ready | removing | binding | listening | accepting | accepted | receiving | received
  | closingConn | closingListener | unlinking | verifying | exited | failed | aborted =>
      rw [hr] at hwait
      cases hwait

/-- **A sender that is not orphaned holds nobody up**: some step is enabled
until both processes have made all their iterations. -/
theorem Inv.progress (h : Inv c s) (hsize : checksumSize < c.dataSize)
    (hfine : s.sender.pc.isHeld = true → ¬ s.Orphaned) (hmore : ¬ s.Finished) :
    (system c).CanProgress s := by
  by_cases hsfree : s.sender.pc.isFree = true
  · exact canProgress_of_sender_free hsfree
  have hrejected : s.sender.pc ≠ .aborted := by
    intro hpc
    have hle := h.sites.sender.rejected hpc
    omega
  have hrejected' : s.receiver.pc ≠ .aborted := by
    intro hpc
    have hle := h.sites.receiver.rejected hpc
    omega
  by_cases hrfree : s.receiver.pc.isFree = true
  · exact canProgress_of_receiver_free h hrfree
  have hsender := SenderPc.waits (Bool.eq_false_iff.mpr hsfree) hrejected h.sites.sender.alive
  have hreceiver :=
    ReceiverPc.waits (Bool.eq_false_iff.mpr hrfree) hrejected' h.sites.receiver.alive
  rcases hreceiver with hr | hr | hr | hr
  · rcases hsender with hs | hs | hs | hs
    · exact canProgress_of_both_waiting hs hr
    · exact h.canProgress_of_connecting hs (ReceiverPc.isListening_of_isWaiting hr)
    · exact h.canProgress_of_sending hs hr
    · exact canProgress_of_receiver_waiting hr (h.sites.canLeave_of_sender_exited hr hs)
  · rcases hsender with hs | hs | hs
    · exact h.canProgress_of_accepting hfine hr hs
    · exact h.canProgress_of_connecting hs (by rw [hr]; rfl)
    · exact absurd hr (h.sites.not_accepting hs)
  · rcases hsender with hs | hs | hs | hs
    · exact h.canProgress_of_receiving_waiting hr hs
    · exact h.canProgress_of_connecting hs (by rw [hr]; rfl)
    · exact h.canProgress_of_receiving hr (by rw [hs]; rfl)
    · obtain ⟨_, hconnected⟩ := h.of_receiving hr
      rw [hs] at hconnected
      cases hconnected
  · rcases hsender with hs | hs | hs | hs
    · exact canProgress_of_sender_waiting hs (h.sites.canLeave_of_receiver_exited hs hr)
    · exact absurd hr (h.sites.not_receiver_exited (.inl hs))
    · exact absurd hr (h.sites.not_receiver_exited (.inr hs))
    · exact absurd ⟨hs, hr⟩ hmore

/-! ## §3. An orphaned sender. -/

/-- The sender waits for a receiver that will never have its connection. -/
def State.Doomed (s : State) : Prop :=
  s.sender.pc.isHeld = true ∧ s.Orphaned

theorem State.Doomed.not_finished (h : s.Doomed) : ¬ s.Finished := by
  intro hfin
  have hheld := h.1
  rw [hfin.1] at hheld
  cases hheld

/-- **An orphan is one for good**, whatever the two processes do. -/
theorem State.Doomed.step {a : Act} (h : s.Doomed) (hinv : Inv c s)
    (hs : step c s a = some s') : s'.Doomed := by
  obtain ⟨hheld, horphan⟩ := h
  cases a with
  | receiver m =>
      have hmove := receiverStep_move hinv.calls hs
      refine ⟨?_, horphan.receiver_move hinv.sites hinv.sockets hheld hmove⟩
      rw [hmove.sender_eq]
      exact hheld
  | sender m =>
      have hmove := senderStep_move hinv.calls hs
      cases hmove with
      | arrive1 hpc => exact ⟨rfl, horphan⟩
      | leave1 hpc hcan => exact absurd hcan (not_canLeave_of_orphaned hinv.sites hpc horphan)
      | go hgo =>
          cases hgo with
          | generated hpc _ | rejected hpc _ | begin hpc _ | exit hpc _ | finish hpc _ =>
              rw [hpc] at hheld
              cases hheld
      | retry hpc | connect hpc _ _ | send hpc _ | arrive2 hpc | leave2 hpc _ | again hpc =>
          rw [hpc] at hheld
          cases hheld

/-- The steps of the sender that are left. -/
def SenderPc.rank : SenderPc → Nat
  | .connected => 1
  | _ => 0

/-- The steps of the receiver that are left before it is in `accept()`. -/
def ReceiverPc.rank : ReceiverPc → Nat
  | .waiting2 => 9
  | .closingConn => 8
  | .closingListener => 7
  | .unlinking => 6
  | .verifying => 5
  | .ready => 4
  | .removing => 3
  | .binding => 2
  | .listening => 1
  | _ => 0

def State.rank (s : State) : Nat := s.sender.pc.rank + s.receiver.pc.rank

/-- A receiver on its way to `accept()` gets nearer. -/
theorem State.Doomed.receiver_nearer (h : s.Doomed) (hinv : Inv c s)
    (hpc : s.receiver.pc ≠ .accepting) :
    ∃ s', receiverStep c s 0 = some s' ∧ s'.sender = s.sender ∧
      s'.receiver.pc.rank < s.receiver.pc.rank := by
  obtain ⟨hheld, horphan⟩ := h
  have hrun := hinv.sites.sender.running (SenderPc.left_of_isHeld hheld).2.2.1
  have hgen : checksumSize < c.dataSize := by
    apply hinv.sites.sender.generated
    all_goals
      intro hbad
      rw [hbad] at hheld
      cases hheld
  have hwhere := horphan.closing_or_opening
  unfold receiverStep
  cases hr : s.receiver.pc with
  | waiting2 =>
      have hcan : s.barrier.CanLeave .receiver := by
        rw [hinv.sites.canLeave_receiver, hr]
        rcases horphan with ⟨hnext, _⟩ | ⟨_, ho, _⟩
        · have he : ReceiverPc.waiting2.entered = 2 := rfl
          omega
        · rw [hr] at ho
          cases ho
      exact ⟨_, if_pos hcan, rfl, show 8 < 9 by decide⟩
  | closingConn => exact ⟨_, rfl, rfl, show 7 < 8 by decide⟩
  | closingListener => exact ⟨_, rfl, rfl, show 6 < 7 by decide⟩
  | unlinking => exact ⟨_, rfl, rfl, show 5 < 6 by decide⟩
  | verifying =>
      cases hv : verifyDataReceived s.receiver.readData c.dataSize with
      | none =>
          have hle := (verifyDataReceived_eq_none _ _).mp hv
          omega
      | some _ => exact ⟨_, rfl, rfl, show 4 < 5 by decide⟩
  | ready =>
      have hlt : s.receiver.iteration < c.total := by
        rcases horphan with ⟨hnext, _⟩ | ⟨hsame, _, _⟩
        · omega
        · omega
      exact ⟨_, if_pos hlt, rfl, show 3 < 4 by decide⟩
  | removing => exact ⟨_, rfl, rfl, show 2 < 3 by decide⟩
  | binding =>
      rw [hinv.calls.bind hr]
      exact ⟨_, rfl, rfl, show 1 < 2 by decide⟩
  | listening => exact ⟨_, rfl, rfl, show 0 < 1 by decide⟩
  | accepting => exact absurd hr hpc
  | accepted | waiting1 | receiving | received | exited | failed | aborted =>
      rw [hr] at hwhere
      rcases hwhere with hbad | hbad <;> cases hbad

/-- With the sender in `Wait()` and the receiver in `accept()`, that is
that. -/
theorem State.Doomed.halted (h : s.Doomed) (hinv : Inv c s) (hs : s.sender.pc = .waiting1)
    (hr : s.receiver.pc = .accepting) : ¬ (system c).CanProgress s := by
  have horphan := h.2
  rintro ⟨a, s', hstep, _⟩
  cases a with
  | sender m =>
      have hnone : senderStep c s m = none := by
        unfold senderStep
        rw [hs]
        exact if_neg (not_canLeave_of_orphaned hinv.sites hs horphan)
      rw [show senderStep c s m = some s' from hstep] at hnone
      cases hnone
  | receiver m =>
      have hmove := receiverStep_move hinv.calls hstep
      have horphan' := horphan.receiver_move hinv.sites hinv.sockets h.1 hmove
      cases hmove with
      | accept hpc _ _ =>
          rcases horphan'.closing_or_opening with hbad | hbad <;> cases hbad
      | go hgo =>
          cases hgo with
          | begin hpc _ | exit hpc _ | finish hpc _ | rejected hpc _ =>
              rw [hr] at hpc
              cases hpc
      | remove hpc | bind hpc | listen hpc | arrive1 hpc | leave1 hpc _ | receive hpc _ _
      | arrive2 hpc | leave2 hpc _ | closeConn hpc | closeListener hpc | unlink hpc
      | again hpc =>
          rw [hr] at hpc
          cases hpc

/-- **An orphaned sender and its receiver come to a halt.** -/
theorem State.Doomed.stuck (hreach : (system c).Reachable s) (h : s.Doomed) :
    ∃ t, (system c).Steps (fun _ _ => True) s t ∧ t.Doomed ∧ ¬ (system c).CanProgress t := by
  generalize hn : s.rank = n
  induction n using Nat.strong_induction_on generalizing s with
  | _ n ih =>
      have hinv := inv_of_reachable hreach
      -- a step that brings them nearer, and the induction hypothesis after it
      have hnearer : ∀ a s', Uds.step c s a = some s' → s'.rank < s.rank →
          ∃ t, (system c).Steps (fun _ _ => True) s t ∧ t.Doomed ∧
            ¬ (system c).CanProgress t := by
        intro a s' hs hlt
        obtain ⟨t, hrun, hd, hstuck⟩ :=
          ih s'.rank (hn ▸ hlt) (hreach.tail trivial hs) (h.step hinv hs) rfl
        exact ⟨t, (System.Steps.single hs).trans hrun, hd, hstuck⟩
      by_cases hr : s.receiver.pc = .accepting
      · cases hpc : s.sender.pc with
        | waiting1 => exact ⟨s, .refl s, h, h.halted hinv hpc hr⟩
        | connected =>
            have hstep : Uds.step c s (.sender 0) =
                some { s.senderTo .waiting1 with barrier := s.barrier.arrive .sender } := by
              show senderStep c s 0 = _
              unfold senderStep
              rw [hpc]
            refine hnearer (.sender 0) _ hstep ?_
            show 0 + s.receiver.pc.rank < s.sender.pc.rank + s.receiver.pc.rank
            rw [hpc]
            exact Nat.add_lt_add_right (show 0 < 1 by decide) _
        | generating | ready | connecting | sending | sent | waiting2 | closing | exited
        | aborted | killed =>
            have hheld := h.1
            rw [hpc] at hheld
            cases hheld
      · obtain ⟨s', hs, hsender, hlt⟩ := h.receiver_nearer hinv hr
        refine hnearer (.receiver 0) s' hs ?_
        unfold State.rank
        rw [hsender]
        exact Nat.add_lt_add_left hlt _

/-! ## §4. Who orphans a sender. -/

/-- A `connect()` to the listening socket of the iteration before. -/
theorem Inv.doomed_of_stale (h : Inv c s) (hstale : s.ListenerStale)
    (hs : senderStep c s m = some s') : s'.Doomed := by
  obtain ⟨hpc, l, hl, hlt⟩ := hstale
  obtain ⟨hlisten, hiter⟩ := h.sockets.listener_iteration hl
  rw [senderStep_connect hpc (h.connect hpc hl)] at hs
  injection hs with hs
  subst hs
  refine ⟨rfl, ?_⟩
  rcases meeting_of_connect h.meeting h.sites hpc hlisten with ⟨_, hsame⟩ | horphan
  · omega
  · exact .inl horphan

/-- **Nothing else orphans a sender.** -/
theorem Inv.not_doomed {a : Act} (h : Inv c s) (hfine : ¬ s.Doomed) (htimely : Timely s a)
    (hs : Uds.step c s a = some s') : ¬ s'.Doomed := by
  rintro ⟨hheld', horphan'⟩
  cases a with
  | receiver m =>
      have hmove := receiverStep_move h.calls hs
      rw [hmove.sender_eq] at hheld'
      rcases h.meeting.met hheld' with hlink | horphan
      · exact (hlink.receiver_move h.sites hheld' hmove).not_orphaned horphan'
      · exact hfine ⟨hheld', horphan⟩
  | sender m =>
      have hmove := senderStep_move h.calls hs
      cases hmove with
      | connect hpc hlisten hqueue =>
          obtain ⟨hl, hiter⟩ := h.sockets.listener_iteration hlisten
          rcases horphan' with ⟨hnext, _⟩ | ⟨_, _, hnone⟩
          · have hnext' : s.sender.iteration = s.receiver.iteration + 1 := hnext
            refine htimely ⟨hpc, _, hlisten, ?_⟩
            omega
          · cases hnone
      | arrive1 hpc => exact hfine ⟨by rw [hpc]; rfl, horphan'⟩
      | retry hpc => exact hfine ⟨hheld', horphan'⟩
      | send hpc _ =>
          have hbad : s.sender.pc.isHeld = true := hheld'
          rw [hpc] at hbad
          cases hbad
      | go hgo =>
          cases hgo with
          | generated _ _ | rejected _ _ | begin _ _ | exit _ _ | finish _ _ => cases hheld'
      | leave1 _ _ | arrive2 _ | leave2 _ _ | again _ => cases hheld'

/-- In a run without such a call nobody is orphaned. -/
theorem not_doomed_of_timely (h : (system c).ReachableVia Timely s) : ¬ s.Doomed := by
  have hboth : Inv c s ∧ ¬ s.Doomed := by
    refine System.invariantVia (I := fun t => Inv c t ∧ ¬ t.Doomed) ?_ ?_ h
    · intro t ht
      refine ⟨inv_of_reachable (.of_init ht), ?_⟩
      rw [show t = State.fresh c from ht]
      rintro ⟨hheld, _⟩
      cases hheld
    · intro t a t' ⟨hinv, hfine⟩ htimely hs
      exact ⟨hinv.step hs, hinv.not_doomed hfine htimely hs⟩
  exact hboth.2

/-- With one iteration there is no earlier listening socket. -/
theorem Inv.timely_of_single (h : Inv c s) (htotal : c.total = 1) (a : Act) : Timely s a := by
  cases a with
  | receiver m => trivial
  | sender m =>
      rintro ⟨hpc, l, _, hlt⟩
      have hrun := h.sites.sender.running (by rw [hpc]; rfl)
      omega

theorem timely_of_single (htotal : c.total = 1) (h : (system c).Reachable s) :
    (system c).ReachableVia Timely s := by
  obtain ⟨s₀, hinit, hrun⟩ := h
  refine ⟨s₀, hinit, ?_⟩
  induction hrun with
  | refl => exact .refl _
  | tail hprev _ hs ih =>
      have hinv := inv_of_reachable ⟨s₀, hinit, hprev⟩
      exact ih.tail (hinv.timely_of_single htotal _) hs

/-! ## §5. Runs that get stuck. -/

/-- What freedom from deadlock comes to in a state. -/
def Sound (c : Transfer) (s : State) : Prop :=
  s.Paired ∧ (¬ s.Finished → (system c).CanProgress s)

/-- A size that `GenerateDataToSend` rejects leaves the receiver in
`accept()`. -/
theorem stuck_of_rejected (hsize : c.dataSize ≤ checksumSize) (htotal : 1 ≤ c.total) :
    ∃ s, (system c).Reachable s ∧ ¬ s.Finished ∧ ¬ (system c).CanProgress s := by
  have hnot : ¬ checksumSize < c.dataSize := by omega
  have hpos : 0 < c.total := htotal
  refine ⟨{ State.fresh c with
      sender := ⟨.aborted, 0, 0⟩
      receiver := ⟨.accepting, 0, 0, List.replicate c.dataSize 0⟩
      path := some 0
      listener := some ⟨0, none⟩ }, ?_, ?_, ?_⟩
  · apply System.reachable_of_exec
      [.sender 0, .receiver 0, .receiver 0, .receiver 0, .receiver 0] (s := State.fresh c) rfl
    simp [System.exec, system, step, senderStep, receiverStep, State.fresh, State.senderTo,
      State.receiverTo, hnot, hpos]
  · intro hfin
    cases hfin.1
  · refine System.not_canProgress fun a => ?_
    cases a with
    | sender m => rfl
    | receiver m => rfl

/-- Both processes in the loops of their first iteration, with `j` bytes sent
and received. -/
def State.Transferring (s : State) (j : Nat) : Prop :=
  s.sender = ⟨.sending, 0, j⟩ ∧ s.receiver.pc = .receiving ∧ s.receiver.iteration = 0 ∧
    s.receiver.totalReceived = j

/-- The first iteration up to the first `Wait()`. -/
theorem exists_transferring (hsize : checksumSize < c.dataSize) (htotal : 1 ≤ c.total) :
    ∃ s, (system c).Reachable s ∧ s.Transferring 0 := by
  have hpos : 0 < c.total := htotal
  refine ⟨{ State.fresh c with
      barrier :=
        (((Rendezvous.fresh.arrive .sender).arrive .receiver).leave .sender).leave .receiver
      sender := ⟨.sending, 0, 0⟩
      receiver := ⟨.receiving, 0, 0, List.replicate c.dataSize 0⟩
      path := some 0
      listener := some ⟨0, none⟩
      conn := some 0 }, ?_, rfl, rfl, rfl, rfl⟩
  apply System.reachable_of_exec
    [.sender 0, .sender 0, .receiver 0, .receiver 0, .receiver 0, .receiver 0, .sender 0,
      .receiver 0, .sender 0, .receiver 0, .sender 0, .receiver 0] (s := State.fresh c) rfl
  simp [System.exec, system, step, senderStep, receiverStep, State.fresh, State.senderTo,
    State.receiverTo, State.connect, accept, hsize, hpos, Rendezvous.canLeave_sender,
    Rendezvous.canLeave_receiver]

theorem reachable_sender (h : (system c).Reachable s) (hs : senderStep c s m = some s') :
    (system c).Reachable s' :=
  System.ReachableVia.tail (a := .sender m) h trivial hs

theorem reachable_receiver (h : (system c).Reachable s) (hs : receiverStep c s m = some s') :
    (system c).Reachable s' :=
  System.ReachableVia.tail (a := .receiver m) h trivial hs

/-- One byte over the connection. -/
theorem transferring_succ {j : Nat} (hreach : (system c).Reachable s) (h : s.Transferring j)
    (hlt : j < c.payload.length) : ∃ t, (system c).Reachable t ∧ t.Transferring (j + 1) := by
  obtain ⟨hsender, hpc, hiter, htotal⟩ := h
  have hinv := inv_of_reachable hreach
  have hspc : s.sender.pc = .sending := by rw [hsender]
  have hsent : s.sender.totalSent = j := by rw [hsender]
  have hsame : s.sender.iteration = s.receiver.iteration := by rw [hsender, hiter]
  -- nothing is in flight
  have hempty : s.stream s.sender.iteration = [] := by
    have hflight := hinv.flow.inFlight hsame
    rw [Receiver.taken_of_taking (by rw [hpc]; rfl),
      Sender.sentBytes_of_pushing (by rw [hspc]; rfl), hsent, htotal, Nat.sub_self] at hflight
    rw [hsame, hflight]
    rfl
  have hsend := hinv.senderStep_send hspc (by omega) hempty
  have hreach' := reachable_sender hreach hsend
  have hne : Function.update s.stream s.sender.iteration
      (slice c.payload s.sender.iteration s.sender.totalSent 1) s.receiver.iteration ≠ [] := by
    rw [← hsame, Function.update_self]
    intro hnil
    have hlen : (slice c.payload s.sender.iteration s.sender.totalSent 1).length = 1 :=
      Framing.length_slice (by omega)
    rw [hnil] at hlen
    cases hlen
  obtain ⟨t, hs, hsender', hpc', hiter', htotal'⟩ :=
    (inv_of_reachable hreach').receiverStep_receive hpc (by rw [htotal]; exact hlt) hne
  refine ⟨t, reachable_receiver hreach' hs, ?_, hpc', ?_, ?_⟩
  · rw [hsender']
    show (⟨s.sender.pc, s.sender.iteration, s.sender.totalSent + 1⟩ : Sender) = _
    rw [hsender]
  · rw [hiter']
    exact hiter
  · rw [htotal']
    show s.receiver.totalReceived + 1 = j + 1
    rw [htotal]

theorem exists_transferred (hsize : checksumSize < c.dataSize) (htotal : 1 ≤ c.total) {j : Nat}
    (hj : j ≤ c.payload.length) : ∃ s, (system c).Reachable s ∧ s.Transferring j := by
  induction j with
  | zero => exact exists_transferring hsize htotal
  | succ j ih =>
      obtain ⟨s, hreach, h⟩ := ih (by omega)
      exact transferring_succ hreach h (by omega)

/-- With two iterations or more the sender can be back at `connect()` while
the receiver is still in its second `Wait()`. -/
theorem exists_stale (hsize : checksumSize < c.dataSize) (htotal : 2 ≤ c.total) :
    ∃ s, (system c).Reachable s ∧ s.ListenerStale := by
  obtain ⟨s, hreach, hsender, hpc, hiter, hall⟩ :=
    exists_transferred hsize (by omega) (Nat.le_refl c.payload.length)
  obtain ⟨b, p, ⟨pc, k, total, data⟩, path, listener, conn, stream⟩ := s
  dsimp only at hsender hpc hiter hall
  subst hsender hpc hiter hall
  -- both leave their loops and enter the second `Wait()`
  have hreach₁ := reachable_sender (m := 0) hreach
    (senderStep_finish rfl (Nat.le_refl c.payload.length))
  have hreach₂ := reachable_receiver (m := 0) hreach₁
    ((inv_of_reachable hreach₁).receiverStep_finish rfl (Nat.le_refl c.payload.length))
  have hreach₃ := reachable_sender (m := 0) hreach₂ rfl
  have hreach₄ := reachable_receiver (m := 0) hreach₃ rfl
  -- the sender leaves it alone
  have hcan := (inv_of_reachable hreach₄).sites.canLeave_sender.mpr (Nat.le_refl 2)
  have hreach₅ := reachable_sender (m := 0) hreach₄ (if_pos hcan)
  have hreach₆ := reachable_sender (m := 0) hreach₅ rfl
  have hreach₇ := reachable_sender (m := 0) hreach₆ (if_pos (show 0 + 1 < c.total by omega))
  refine ⟨_, hreach₇, rfl, ?_⟩
  obtain ⟨l, hl, hl'⟩ := (inv_of_reachable hreach₇).sockets.exists_listener rfl
  refine ⟨l, hl, ?_⟩
  rw [hl']
  exact Nat.zero_lt_one

/-! ## §6. The session. -/

/-- The values of `uds_bandwidth_test`: three iterations of 256 bytes. -/
def testTransfer : Transfer :=
  ⟨3, 256, 256, List.replicate 256 0, 1024, List.length_replicate, Nat.succ_pos 255,
    Nat.succ_pos 1023⟩

/-- **The UDS session.**  What the receiver accepts is always of its own
iteration.  In a run without a `connect()` to the listening socket of an
earlier iteration no state is stuck; after such a call one always can be.  So
no run gets stuck exactly when there is one iteration only, of a size that
`GenerateDataToSend` accepts. -/
theorem uds_session (c : Transfer) (htotal : 1 ≤ c.total) :
    (checksumSize < c.dataSize →
      ∀ s, (system c).ReachableVia Timely s → Sound c s) ∧
    (∀ s, (system c).Reachable s → s.Paired) ∧
    (∀ s m s', (system c).Reachable s → s.ListenerStale → senderStep c s m = some s' →
      ∃ t, (system c).Steps (fun _ _ => True) s' t ∧ ¬ t.Finished ∧
        ¬ (system c).CanProgress t) ∧
    ((∀ s, (system c).Reachable s → Sound c s) ↔
      checksumSize < c.dataSize ∧ c.total = 1) := by
  have htimely : checksumSize < c.dataSize →
      ∀ s, (system c).ReachableVia Timely s → Sound c s := by
    intro hsize s h
    have hinv := inv_of_reachable h.reachable
    refine ⟨hinv.paired, hinv.progress hsize ?_⟩
    intro hheld horphan
    exact not_doomed_of_timely h ⟨hheld, horphan⟩
  have hstale : ∀ s m s', (system c).Reachable s → s.ListenerStale →
      senderStep c s m = some s' →
      ∃ t, (system c).Steps (fun _ _ => True) s' t ∧ ¬ t.Finished ∧
        ¬ (system c).CanProgress t := by
    intro s m s' h hstale hs
    have hdoomed := (inv_of_reachable h).doomed_of_stale hstale hs
    obtain ⟨t, hrun, hd, hstuck⟩ := hdoomed.stuck (reachable_sender h hs)
    exact ⟨t, hrun, hd.not_finished, hstuck⟩
  refine ⟨htimely, fun s h => (inv_of_reachable h).paired, hstale, ?_⟩
  constructor
  · intro hall
    have hsize : checksumSize < c.dataSize := by
      by_contra hsmall
      obtain ⟨s, hreach, hmore, hstuck⟩ := stuck_of_rejected (Nat.le_of_not_lt hsmall) htotal
      exact hstuck ((hall s hreach).2 hmore)
    refine ⟨hsize, ?_⟩
    by_contra hmany
    obtain ⟨s, hreach, hst⟩ := exists_stale hsize (show 2 ≤ c.total by omega)
    obtain ⟨hpc, l, hl, hlt⟩ := hst
    have hconnect := senderStep_connect (c := c) (m := 0) hpc
      ((inv_of_reachable hreach).connect hpc hl)
    obtain ⟨t, hrun, hmore, hstuck⟩ := hstale s 0 _ hreach ⟨hpc, l, hl, hlt⟩ hconnect
    have hsound := hall t ((reachable_sender hreach hconnect).steps hrun)
    exact hstuck (hsound.2 hmore)
  · intro ⟨hsize, hone⟩ s h
    exact htimely hsize s (timely_of_single hone h)

/-- Both processes up to the first `connect()`. -/
def opening : List Act := List.replicate 2 (.sender 0) ++ List.replicate 4 (.receiver 0)

/-- From there into the second `Wait()` of the iteration. -/
def frame : List Act :=
  [.sender 0, .receiver 0, .sender 0, .receiver 0, .sender 0, .receiver 0, .sender 256, .sender 0,
    .receiver 256, .receiver 0, .sender 0, .receiver 0]

/-- Two iterations, with the receiver in `accept()` before the sender leaves
its second `Wait()`. -/
def timelyConnect : List Act :=
  List.flatten [opening, frame, List.replicate 9 (.receiver 0), List.replicate 3 (.sender 0), frame]

/-- A run of the test in which both `connect()`s meet the socket of their
iteration, and which is not stuck at the end of the second. -/
theorem uds_session_test :
    ∃ s, (system testTransfer).ReachableVia Timely s ∧ s.receiver.iteration = 1 ∧
      s.receiver.pc = .waiting2 ∧ Sound testTransfer s := by
  have hrun : ∃ s, ((system testTransfer).restrict Timely).Reachable s ∧
      (s.receiver.iteration = 1 ∧ s.receiver.pc = .waiting2) :=
    System.exists_reachable_of_exec timelyConnect rfl (by decide +kernel)
  obtain ⟨s, hreach, hiteration, hpc⟩ := hrun
  have hvia := System.ReachableVia.of_restrict hreach
  have hsession := uds_session testTransfer (by decide)
  exact ⟨s, hvia, hiteration, hpc, hsession.1 (by decide) s hvia⟩

/-- The first iteration, the sender's second `connect()` before the receiver
is out of `Wait()`, and the rest of the receiver's calls. -/
def staleConnect : List Act :=
  List.flatten [opening, frame, List.replicate 5 (.sender 0), List.replicate 9 (.receiver 0)]

/-- **The session of the test can get stuck.** -/
theorem uds_session_stuck : ¬ ∀ s, (system testTransfer).Reachable s → Sound testTransfer s := by
  intro hall
  have hrun : ∃ s, (system testTransfer).Reachable s ∧
      (s.sender.pc = .waiting1 ∧ s.sender.iteration = 1 ∧ s.receiver.pc = .accepting ∧
        s.receiver.iteration = 1 ∧ s.queued = none) :=
    System.exists_reachable_of_exec staleConnect rfl (by decide +kernel)
  obtain ⟨s, hreach, hs, hsi, hr, hri, hqueue⟩ := hrun
  have hdoomed : s.Doomed := by
    refine ⟨by rw [hs]; rfl, .inr ⟨by rw [hsi, hri], by rw [hr]; rfl, hqueue⟩⟩
  have hsound := hall s hreach
  exact hdoomed.halted (inv_of_reachable hreach) hs hr (hsound.2 hdoomed.not_finished)

end Akbench.Uds
