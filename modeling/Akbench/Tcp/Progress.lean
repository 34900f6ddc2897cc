/-
  Akbench.Tcp.Progress
  ────────────────────
  **NEITHER PROCESS EVER WAITS IN VAIN.**

  A process can wait in a `Wait()`, in `connect()`, in `accept()`, in `send()`
  and in `recv()`.  Whichever pair of these the two are in, one of them can go
  on.  Only a process that has aborted leaves the other waiting, and that takes
  a size that `GenerateDataToSend` refuses or data that does not verify.

    • `Inv.canProgress_of_connecting` — `connect()` finds its listener;
    • `Inv.canProgress_of_accepting` — `accept()` has a connection queued or a
      sender on its way;
    • `Inv.canProgress_of_receiving` — `recv()` has bytes or a sender with more;
    • `Inv.progress` — so no state is stuck before both are through, with data
      that verifies;
    • `tcp_session`, `tcp_stuck` — the session, and how it gets stuck.
-/
import Akbench.Tcp.Delivery

namespace Akbench.Tcp

open Framing (slice untag)

variable {c : Transfer} {s s' : State} {m : Nat}

/-! ## §1. Steps that wait for nobody. -/

theorem canProgress_of_sender (hs : senderStep c s m = some s')
    (hne : s'.sender ≠ s.sender) : (system c).CanProgress s :=
  System.CanProgress.of_step (f := State.sender) (a := Act.sender m) hs hne

theorem canProgress_of_receiver (hs : receiverStep c s m = some s')
    (hne : s'.receiver ≠ s.receiver) : (system c).CanProgress s :=
  System.CanProgress.of_step (f := State.receiver) (a := Act.receiver m) hs hne

theorem sender_pc_ne {p : Sender} {pc : SenderPc} (hpc : p.pc ≠ pc) {i n : Nat} :
    (⟨pc, i, n⟩ : Sender) ≠ p := by
  intro heq
  rw [← heq] at hpc
  exact hpc rfl

theorem receiver_pc_ne {r : Receiver} {pc : ReceiverPc} (hpc : r.pc ≠ pc) {i n : Nat}
    {data : List UInt8} : (⟨pc, i, n, data⟩ : Receiver) ≠ r := by
  intro heq
  rw [← heq] at hpc
  exact hpc rfl

/-- The sender's next step waits for nobody. -/
def SenderPc.isFree : SenderPc → Bool
  | .generating | .ready | .created | .connected | .shutting | .sent | .closing => true
  | _ => false

/-- The receiver's next step waits for nobody. -/
def ReceiverPc.isFree : ReceiverPc → Bool
  | .ready | .binding | .listening | .listened | .accepted | .received | .verifying
  | .closingConn | .closingListener => true
  | _ => false

/-- Inside a `barrier.Wait()`. -/
def SenderPc.isWaiting : SenderPc → Bool
  | .waiting1 | .waiting2 | .waiting3 => true
  | _ => false

/-- Inside a `barrier.Wait()`. -/
def ReceiverPc.isWaiting : ReceiverPc → Bool
  | .waiting1 | .waiting2 | .waiting3 => true
  | _ => false

/-- Where else the sender may have to wait. -/
theorem SenderPc.waits {pc : SenderPc} (hfree : pc.isFree = false) (halive : pc ≠ .killed)
    (hgenerated : pc ≠ .aborted) :
    pc.isWaiting = true ∨ pc = .connecting ∨ pc = .sending ∨ pc = .exited := by
  cases pc with
  | generating | ready | created | connected | shutting | sent | closing => cases hfree
  | killed => exact absurd rfl halive
  | aborted => exact absurd rfl hgenerated
  | waiting1 | connecting | waiting2 | sending | waiting3 | exited => decide

/-- Where else the receiver may have to wait. -/
theorem ReceiverPc.waits {pc : ReceiverPc} (hfree : pc.isFree = false)
    (halive : pc ≠ .failed ∧ pc ≠ .overrun) (hrun : pc ≠ .aborted) :
    pc.isWaiting = true ∨ pc = .accepting ∨ pc = .receiving ∨ pc = .exited := by
  cases pc with
  | ready | binding | listening | listened | accepted | received | verifying | closingConn
  | closingListener => cases hfree
  | failed => exact absurd rfl halive.1
  | overrun => exact absurd rfl halive.2
  | aborted => exact absurd rfl hrun
  | waiting1 | accepting | waiting2 | receiving | waiting3 | exited => decide

theorem SenderPc.isRunning_of_isWaiting {pc : SenderPc} (h : pc.isWaiting = true) :
    pc.isRunning = true := by
  cases pc with
  | generating | ready | exited | aborted => cases h
  | created | waiting1 | connecting | connected | waiting2 | sending | shutting | sent | waiting3
  | closing | killed => rfl

theorem ReceiverPc.isRunning_of_isWaiting {pc : ReceiverPc} (h : pc.isWaiting = true) :
    pc.isRunning = true := by
  cases pc with
  | ready | exited => cases h
  | binding | listening | listened | waiting1 | accepting | accepted | waiting2 | receiving
  | received | waiting3 | verifying | closingConn | closingListener | failed | overrun
  | aborted => rfl

theorem canProgress_of_sender_free (hfree : s.sender.pc.isFree = true) :
    (system c).CanProgress s := by
  have hstep : ∃ s', senderStep c s 0 = some s' ∧ s'.sender ≠ s.sender := by
    unfold senderStep
    cases hpc : s.sender.pc with
    | generating =>
        by_cases hsize : checksumSize < c.dataSize
        · exact ⟨_, if_pos hsize, sender_pc_ne (by rw [hpc]; nofun)⟩
        · exact ⟨_, if_neg hsize, sender_pc_ne (by rw [hpc]; nofun)⟩
    | ready =>
        by_cases hlt : s.sender.iteration < c.total
        · exact ⟨_, if_pos hlt, sender_pc_ne (by rw [hpc]; nofun)⟩
        · exact ⟨_, if_neg hlt, sender_pc_ne (by rw [hpc]; nofun)⟩
    | created | connected | shutting | sent | closing =>
        exact ⟨_, rfl, sender_pc_ne (by rw [hpc]; nofun)⟩
    | waiting1 | connecting | waiting2 | sending | waiting3 | exited | aborted | killed =>
        rw [hpc] at hfree
        cases hfree
  obtain ⟨s', hs, hne⟩ := hstep
  exact canProgress_of_sender hs hne

theorem Inv.canProgress_of_receiver_free (h : Inv c s) (hfree : s.receiver.pc.isFree = true) :
    (system c).CanProgress s := by
  have hstep : ∃ s', receiverStep c s 0 = some s' ∧ s'.receiver ≠ s.receiver := by
    unfold receiverStep
    cases hpc : s.receiver.pc with
    | ready =>
        by_cases hlt : s.receiver.iteration < c.total
        · exact ⟨_, if_pos hlt, receiver_pc_ne (by rw [hpc]; nofun)⟩
        · exact ⟨_, if_neg hlt, receiver_pc_ne (by rw [hpc]; nofun)⟩
    | binding =>
        rw [h.calls.bind hpc]
        exact ⟨_, rfl, receiver_pc_ne (by rw [hpc]; nofun)⟩
    | verifying =>
        by_cases hgood : verifyDataReceived s.receiver.receivedData c.dataSize = some true
        · exact ⟨_, if_pos hgood, receiver_pc_ne (by rw [hpc]; nofun)⟩
        · exact ⟨_, if_neg hgood, receiver_pc_ne (by rw [hpc]; nofun)⟩
    | listening | listened | accepted | received | closingConn | closingListener =>
        exact ⟨_, rfl, receiver_pc_ne (by rw [hpc]; nofun)⟩
    | waiting1 | accepting | waiting2 | receiving | waiting3 | exited | failed | overrun
    | aborted =>
        rw [hpc] at hfree
        cases hfree
  obtain ⟨s', hs, hne⟩ := hstep
  exact canProgress_of_receiver hs hne

/-! ## §2. The barrier. -/

theorem canProgress_of_sender_waiting (hwait : s.sender.pc.isWaiting = true)
    (hcan : s.barrier.CanLeave .sender) : (system c).CanProgress s := by
  have hstep : ∃ s', senderStep c s 0 = some s' ∧ s'.sender ≠ s.sender := by
    unfold senderStep
    cases hpc : s.sender.pc with
    | waiting1 | waiting2 | waiting3 =>
        exact ⟨_, if_pos hcan, sender_pc_ne (by rw [hpc]; nofun)⟩
    | generating | ready | created | connecting | connected | sending | shutting | sent | closing
    | exited | aborted | killed =>
        rw [hpc] at hwait
        cases hwait
  obtain ⟨s', hs, hne⟩ := hstep
  exact canProgress_of_sender hs hne

theorem canProgress_of_receiver_waiting (hwait : s.receiver.pc.isWaiting = true)
    (hcan : s.barrier.CanLeave .receiver) : (system c).CanProgress s := by
  have hstep : ∃ s', receiverStep c s 0 = some s' ∧ s'.receiver ≠ s.receiver := by
    unfold receiverStep
    cases hpc : s.receiver.pc with
    | waiting1 | waiting2 | waiting3 =>
        exact ⟨_, if_pos hcan, receiver_pc_ne (by rw [hpc]; nofun)⟩
    | ready | binding | listening | listened | accepting | accepted | receiving | received
    | verifying | closingConn | closingListener | exited | failed | overrun | aborted =>
        rw [hpc] at hwait
        cases hwait
  obtain ⟨s', hs, hne⟩ := hstep
  exact canProgress_of_receiver hs hne

/-- Of two processes inside the barrier one can leave. -/
theorem canProgress_of_both_waiting (hs : s.sender.pc.isWaiting = true)
    (hr : s.receiver.pc.isWaiting = true) : (system c).CanProgress s := by
  rcases Rendezvous.canLeave_or s.barrier with hcan | hcan
  · exact canProgress_of_sender_waiting hs hcan
  · exact canProgress_of_receiver_waiting hr hcan

/-- Nobody waits for a receiver that has made all its iterations. -/
theorem Sites.canLeave_of_receiver_exited (h : Sites c s) (hwait : s.sender.pc.isWaiting = true)
    (hr : s.receiver.pc = .exited) : s.barrier.CanLeave .sender := by
  have hdone := h.receiver.exited hr
  have hle := h.sender_left_le
  have hlt := h.sender.running (SenderPc.isRunning_of_isWaiting hwait)
  rw [h.canLeave_sender]
  omega

/-- Nobody waits for a sender that has made all its iterations. -/
theorem Sites.canLeave_of_sender_exited (h : Sites c s) (hwait : s.receiver.pc.isWaiting = true)
    (hs : s.sender.pc = .exited) : s.barrier.CanLeave .receiver := by
  have hdone := h.sender.exited hs
  have hle := h.receiver_left_le
  have hlt := h.receiver.running (ReceiverPc.isRunning_of_isWaiting hwait)
  rw [h.canLeave_receiver]
  omega

/-! ## §3. `connect()` and `accept()`. -/

/-- **`connect()`** succeeds at the first attempt. -/
theorem Inv.canProgress_of_connecting (h : Inv c s) (hpc : s.sender.pc = .connecting) :
    (system c).CanProgress s := by
  obtain ⟨_, _, hlisten⟩ := h.sites.of_between (by rw [hpc]; rfl)
  obtain ⟨l, hl, _⟩ := h.sockets.exists_listener hlisten
  have hstep : senderStep c s 0 = some { s.senderTo .connected with
      listener := some { l with queue := l.queue ++ [s.sender.iteration] } } := by
    unfold senderStep State.connect
    rw [hpc, hl]
    rfl
  refine canProgress_of_sender hstep ?_
  exact sender_pc_ne (by rw [hpc]; nofun)

/-- A queued connection is accepted. -/
theorem canProgress_of_queued (hpc : s.receiver.pc = .accepting) {l : Listener}
    (hl : s.listener = some l) {j : Nat} {rest : List Nat} (hqueue : l.queue = j :: rest) :
    (system c).CanProgress s := by
  have hstep : ∃ s', receiverStep c s 0 = some s' ∧ s'.receiver ≠ s.receiver := by
    unfold receiverStep
    rw [hpc]
    dsimp only
    unfold accept
    rw [hl]
    dsimp only
    rw [hqueue]
    exact ⟨_, rfl, receiver_pc_ne (by rw [hpc]; nofun)⟩
  obtain ⟨s', hs, hne⟩ := hstep
  exact canProgress_of_receiver hs hne

/-- **`accept()`** has the sender's connection before it, or the sender can
leave its first `Wait()`. -/
theorem Inv.canProgress_of_accepting (h : Inv c s) (hpc : s.receiver.pc = .accepting)
    (hwait : s.sender.pc.isWaiting = true) : (system c).CanProgress s := by
  have hap := h.sites.apart
  rw [hpc] at hap
  have he : ReceiverPc.accepting.entered = 1 := rfl
  have hl : ReceiverPc.accepting.left = 1 := rfl
  cases hs : s.sender.pc with
  | waiting1 =>
      refine canProgress_of_sender_waiting hwait ?_
      rw [h.sites.canLeave_sender, hs, hpc]
      rw [hs] at hap
      have hse : SenderPc.waiting1.entered = 1 := rfl
      omega
  | waiting2 =>
      obtain ⟨l, hlisten, _⟩ := h.sockets.exists_listener (by rw [hpc]; rfl)
      have hqueue := h.meeting.backlog l hlisten
      rw [hs, hpc] at hqueue
      exact canProgress_of_queued hpc hlisten hqueue
  | waiting3 =>
      rw [hs] at hap
      have hse : SenderPc.waiting3.entered = 3 := rfl
      have hsl : SenderPc.waiting3.left = 2 := rfl
      exfalso
      omega
  | generating | ready | created | connecting | connected | sending | shutting | sent | closing
  | exited | aborted | killed =>
      rw [hs] at hwait
      cases hwait

/-- A sender past its second `Wait()`, or through, has no receiver in
`accept()`. -/
theorem Sites.not_accepting (h : Sites c s) (hs : s.sender.pc = .sending ∨ s.sender.pc = .exited) :
    s.receiver.pc ≠ .accepting := by
  intro hpc
  have hap := h.apart
  have hlt := h.receiver.running (by rw [hpc]; rfl)
  have he : ReceiverPc.accepting.entered = 1 := rfl
  have hl : ReceiverPc.accepting.left = 1 := rfl
  rw [hpc] at hap
  rcases hs with hs | hs
  · have hse : SenderPc.sending.entered = 2 := rfl
    have hsl : SenderPc.sending.left = 2 := rfl
    rw [hs] at hap
    omega
  · have hdone := h.sender.exited hs
    have hsl : SenderPc.exited.left = 0 := rfl
    rw [hs] at hap
    omega

/-! ## §4. `send()` and `recv()`. -/

/-- A `send` of one byte into an empty connection. -/
theorem Inv.senderStep_send (h : Inv c s) (hpc : s.sender.pc = .sending)
    (hlt : s.sender.totalSent < c.payload.length)
    (hempty : s.stream s.sender.iteration = []) :
    senderStep c s 1 = some { s with
      stream := Function.update s.stream s.sender.iteration
        (slice c.payload s.sender.iteration s.sender.totalSent 1)
      sender := { s.sender with totalSent := s.sender.totalSent + 1 } } := by
  unfold senderStep
  rw [hpc]
  dsimp only
  rw [hempty, h.calls.send hpc, Transfer.sendTurn_empty hlt]
  rfl

theorem senderStep_finish (hpc : s.sender.pc = .sending)
    (hge : c.payload.length ≤ s.sender.totalSent) :
    senderStep c s m = some (s.senderTo .shutting) := by
  unfold senderStep
  rw [hpc]
  dsimp only
  rw [Transfer.sendTurn_over hge]
  rfl

/-- What a turn of the `recv` loop comes to. -/
theorem Inv.receiverStep_receiving (h : Inv c s) (hpc : s.receiver.pc = .receiving) :
    receiverStep c s m = afterReceive s s.receiver.iteration
      (c.receiveTurn s.receiver.totalReceived [] (s.stream s.receiver.iteration)
        (s.hasWriter s.receiver.iteration) m) := by
  unfold receiverStep
  rw [hpc, h.sockets.conn_eq (by rw [hpc]; rfl)]

/-- A `recv` of one byte from a connection that holds something. -/
theorem Inv.receiverStep_receive (h : Inv c s) (hpc : s.receiver.pc = .receiving)
    (hlt : s.receiver.totalReceived < c.payload.length)
    (hne : s.stream s.receiver.iteration ≠ []) :
    ∃ s', receiverStep c s 1 = some s' ∧
      s'.receiver.totalReceived = s.receiver.totalReceived + 1 := by
  have hone : 1 ≤ (s.stream s.receiver.iteration).length := List.length_pos_iff.mpr hne
  have hfits := h.calls.fits hpc _ (h.sockets.conn_eq (by rw [hpc]; rfl))
  rw [h.receiverStep_receiving hpc, Transfer.receiveTurn_nonempty hlt hne]
  unfold afterReceive
  dsimp only
  rw [if_pos]
  · exact ⟨_, rfl, rfl⟩
  · rw [List.nil_append, Framing.length_untag, List.length_take, Nat.min_eq_left hone]
    omega

theorem Inv.receiverStep_finish (h : Inv c s) (hpc : s.receiver.pc = .receiving)
    (hge : c.payload.length ≤ s.receiver.totalReceived) :
    receiverStep c s m = some (s.receiverTo .received) := by
  rw [h.receiverStep_receiving hpc, Transfer.receiveTurn_over hge]
  rfl

/-- **`recv()`** has bytes before it, or the sender can go on. -/
theorem Inv.canProgress_of_receiving (h : Inv c s) (hpc : s.receiver.pc = .receiving) :
    (system c).CanProgress s := by
  obtain ⟨hsame, _⟩ := h.sites.of_receiving hpc
  by_cases hlt : s.receiver.totalReceived < c.payload.length
  · by_cases hempty : s.stream s.receiver.iteration = []
    · rcases h.of_dry hpc hlt hempty with hs | ⟨hs, hshort⟩
      · refine canProgress_of_sender_waiting (by rw [hs]; rfl) ?_
        rw [h.sites.canLeave_sender, hs, hpc, hsame]
        exact Nat.le_refl _
      · rw [← hsame] at hempty
        refine canProgress_of_sender (h.senderStep_send hs hshort hempty) ?_
        intro heq
        exact absurd (congrArg Sender.totalSent heq) (Nat.succ_ne_self _)
    · obtain ⟨s', hs, hnext⟩ := h.receiverStep_receive hpc hlt hempty
      refine canProgress_of_receiver hs ?_
      intro heq
      rw [heq] at hnext
      exact absurd hnext.symm (Nat.succ_ne_self _)
  · refine canProgress_of_receiver (m := 0)
      (h.receiverStep_finish hpc (Nat.le_of_not_lt hlt)) ?_
    exact receiver_pc_ne (by rw [hpc]; nofun)

/-- **`send()`** to a receiver inside a `Wait()`: the receiver can leave it, or
the frame is out. -/
theorem Inv.canProgress_of_sending (h : Inv c s) (hpc : s.sender.pc = .sending)
    (hwait : s.receiver.pc.isWaiting = true) : (system c).CanProgress s := by
  obtain ⟨hsame, hentered, _⟩ := h.sites.of_sending hpc
  cases hr : s.receiver.pc with
  | waiting1 =>
      rw [hr] at hentered
      exact absurd hentered (by decide)
  | waiting2 =>
      refine canProgress_of_receiver_waiting hwait ?_
      rw [h.sites.canLeave_receiver, hr, hpc, hsame]
      exact Nat.le_refl _
  | waiting3 =>
      -- the receiver has the whole frame, so all of it was sent
      have hwhole := h.sites.receiver.whole (by rw [hr]; rfl)
      have hle := h.flow.taken_le hsame.symm
      rw [Receiver.taken_of_taking (by rw [hr]; rfl),
        Sender.sentBytes_of_pushing (by rw [hpc]; rfl)] at hle
      refine canProgress_of_sender (m := 0)
        (senderStep_finish hpc (Nat.le_trans hwhole hle)) ?_
      exact sender_pc_ne (by rw [hpc]; nofun)
  | ready | binding | listening | listened | accepting | accepted | receiving | received
  | verifying | closingConn | closingListener | exited | failed | overrun | aborted =>
      rw [hr] at hwait
      cases hwait

/-! ## §5. The session. -/

/-- **No state is stuck** before both processes have made all their
iterations, with a payload that verifies. -/
theorem Inv.progress (h : Inv c s)
    (hgood : verifyDataReceived c.payload c.dataSize = some true) (hmore : ¬ s.Finished) :
    (system c).CanProgress s := by
  have hrun : s.receiver.pc ≠ .aborted := fun habort => h.verdict habort hgood
  have hgenerated := not_refused_of_verified h.sites.sender.refused hgood
  by_cases hsfree : s.sender.pc.isFree = true
  · exact canProgress_of_sender_free hsfree
  by_cases hrfree : s.receiver.pc.isFree = true
  · exact h.canProgress_of_receiver_free hrfree
  have hsender := SenderPc.waits (Bool.eq_false_iff.mpr hsfree) h.sites.sender.alive hgenerated
  have hreceiver := ReceiverPc.waits (Bool.eq_false_iff.mpr hrfree) h.sites.receiver.alive hrun
  rcases hreceiver with hr | hr | hr | hr
  · rcases hsender with hs | hs | hs | hs
    · exact canProgress_of_both_waiting hs hr
    · exact h.canProgress_of_connecting hs
    · exact h.canProgress_of_sending hs hr
    · exact canProgress_of_receiver_waiting hr (h.sites.canLeave_of_sender_exited hr hs)
  · rcases hsender with hs | hs | hs
    · exact h.canProgress_of_accepting hr hs
    · exact h.canProgress_of_connecting hs
    · exact absurd hr (h.sites.not_accepting hs)
  · exact h.canProgress_of_receiving hr
  · rcases hsender with hs | hs | hs | hs
    · exact canProgress_of_sender_waiting hs (h.sites.canLeave_of_receiver_exited hs hr)
    · exact h.canProgress_of_connecting hs
    · obtain ⟨_, hentered, _⟩ := h.sites.of_sending hs
      rw [hr] at hentered
      exact absurd hentered (by decide)
    · exact absurd ⟨hs, hr⟩ hmore

/-- What holds in every state of a session. -/
structure Session (c : Transfer) (s : State) : Prop where
  /-- `connect()` is called while the listening socket of the sender's
  iteration is open. -/
  listening : s.sender.pc = .connecting →
    ∃ l, s.listener = some l ∧ l.iteration = s.sender.iteration
  /-- What `accept()` returns is the connection the sender made in the
  receiver's iteration. -/
  accepts : s.receiver.pc = .accepting → ∀ l j rest, s.listener = some l →
    l.queue = j :: rest → j = s.sender.iteration ∧ j = s.receiver.iteration
  /-- `conn_fd` stays that connection. -/
  paired : ∀ j, s.conn = some j → j = s.receiver.iteration
  /-- No call fails on either side. -/
  alive : s.sender.pc ≠ .killed ∧ s.receiver.pc ≠ .failed
  /-- No `memcpy` leaves `received_data`. -/
  inBounds : s.receiver.pc ≠ .overrun
  /-- Past its loop the receiver has the frame. -/
  delivered : s.receiver.pc.isPastLoop = true →
    s.receiver.totalReceived = c.dataSize ∧ s.receiver.receivedData = c.payload
  /-- Only a payload that does not verify makes the receiver abort. -/
  verdict : s.receiver.pc = .aborted → verifyDataReceived c.payload c.dataSize ≠ some true
  /-- Only a size that `GenerateDataToSend` refuses makes the sender abort. -/
  refused : s.sender.pc = .aborted → c.dataSize ≤ checksumSize
  /-- With a larger size and a payload that verifies some step is enabled until
  both have returned. -/
  progress : checksumSize < c.dataSize → verifyDataReceived c.payload c.dataSize = some true →
    ¬ s.Finished → (system c).CanProgress s

/-- **The TCP session**, for every payload, every schedule and all partial
sends and receives. -/
theorem tcp_session (c : Transfer) (s : State) (h : (system c).Reachable s) : Session c s := by
  have hinv := inv_of_reachable h
  refine ⟨?_, ?_, ?_, ⟨hinv.sites.sender.alive, hinv.sites.receiver.alive.1⟩,
    hinv.sites.receiver.alive.2, hinv.delivered, hinv.verdict,
    hinv.sites.sender.refused, fun _ => hinv.progress⟩
  · intro hpc
    obtain ⟨hsame, _, hlisten⟩ := hinv.sites.of_between (by rw [hpc]; rfl)
    obtain ⟨l, hl, hiter⟩ := hinv.sockets.exists_listener hlisten
    exact ⟨l, hl, hiter.trans hsame⟩
  · intro hpc l j rest hl hqueue
    exact ⟨(hinv.meeting.of_accepting hl hqueue).2.1,
      hinv.meeting.accepts_own hinv.sites l j rest hpc hl hqueue⟩
  · intro j hj
    exact (hinv.sockets.conn_iteration hj).2

/-- The values of `tcp_bandwidth_test`: three iterations of 1024 bytes. -/
def testTransfer : Transfer :=
  ⟨3, 1024, 1024, List.replicate 1024 0, 4096, List.length_replicate, by decide, by decide⟩

/-- A frame sent at once and received in two pieces. -/
def firstFrame : List Act :=
  List.flatten
    [List.replicate 3 (.sender 0), List.replicate 4 (.receiver 0),
      List.replicate 3 (.sender 0), List.replicate 3 (.receiver 0),
      [.sender 0, .receiver 0, .sender 1024, .receiver 1000, .receiver 24, .receiver 0]]

/-- At the end of it the receiver has the frame, and somebody can go on. -/
theorem tcp_session_test :
    ∃ s, (system testTransfer).Reachable s ∧ s.receiver.pc = .received ∧
      s.receiver.totalReceived = 1024 ∧ s.receiver.receivedData = testTransfer.payload ∧
      (system testTransfer).CanProgress s := by
  have hrun : ∃ s, (system testTransfer).Reachable s ∧ s.receiver.pc = .received :=
    System.exists_reachable_of_exec firstFrame rfl (by decide +kernel)
  obtain ⟨s, hreach, hpc⟩ := hrun
  have hsession := tcp_session testTransfer s hreach
  obtain ⟨htotal, hdata⟩ := hsession.delivered (by rw [hpc]; rfl)
  refine ⟨s, hreach, hpc, htotal, hdata, hsession.progress (by decide)
    (verifyDataReceived_zero (by decide)) ?_⟩
  intro hfin
  rw [hfin.2] at hpc
  cases hpc

/-- A receiver in its first `Wait()` gets no further without the sender. -/
theorem stuck_of_aborted (hs : s.sender.pc = .aborted) (hr : s.receiver.pc = .waiting1)
    (hwait : ¬ s.barrier.CanLeave .receiver) : ¬ (system c).CanProgress s := by
  refine System.not_canProgress fun a => ?_
  cases a with
  | sender m =>
      show senderStep c s m = none
      unfold senderStep
      rw [hs]
  | receiver m =>
      show receiverStep c s m = none
      unfold receiverStep
      rw [hr]
      exact if_neg hwait

/-- **A size up to `CHECKSUM_SIZE` gets stuck**: the sender aborts in
`GenerateDataToSend`, and the receiver waits for it with its socket
listening. -/
theorem tcp_stuck : ¬ ∀ s, (system .small).Reachable s → ¬ s.Finished →
    (system .small).CanProgress s := by
  intro hall
  have hrun : (system .small).Reachable _ :=
    System.reachable_of_exec
      [.sender 0, .receiver 0, .receiver 0, .receiver 0, .receiver 0] (s := State.fresh) rfl rfl
  exact stuck_of_aborted rfl rfl (by decide) (hall _ hrun (by decide))

end Akbench.Tcp
