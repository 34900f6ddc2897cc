/-
  Akbench.Tcp.Delivery
  ────────────────────
  **WHAT A CONNECTION CARRIES.**

  Every connection has a stream of its own, and the second and the third
  `Wait()` of an iteration bracket the transfer on both sides.

    • `Flow` — the bytes between what the sender sent and what the receiver
      took are in flight, and `received_data` begins with what was taken;
    • `Inv`, `inv_of_reachable` — everything that holds in every run;
    • `Inv.calls` — no call fails, and no `memcpy` leaves `received_data`;
    • `Inv.delivered` — the loop ends with the sender's frame.
-/
import Akbench.Tcp.Pairing

namespace Akbench.Tcp

open Framing (slice untag)

variable {c : Transfer} {s s' : State} {m : Nat}

/-! ## §1. Bytes in flight. -/

/-- The bytes of this iteration sent so far. -/
def Sender.sentBytes (p : Sender) : Nat :=
  if p.pc.isPushing then p.totalSent else 0

/-- The bytes of this iteration received so far. -/
def Receiver.taken (r : Receiver) : Nat :=
  if r.pc.isTaking then r.totalReceived else 0

/-- `received_data` was made in this iteration. -/
def ReceiverPc.hasData : ReceiverPc → Bool
  | .accepted | .waiting2 | .receiving | .received | .waiting3 | .verifying | .closingConn
  | .closingListener | .aborted => true
  | _ => false

/-- Where the bytes of a frame are. -/
structure Flow (c : Transfer) (s : State) : Prop where
  /-- Nothing was sent yet on later connections. -/
  untouched : ∀ j, s.sender.iteration < j ∨
    (j = s.sender.iteration ∧ s.sender.pc.isPushing = false) → s.stream j = []
  inFlight : s.sender.iteration = s.receiver.iteration →
    s.stream s.receiver.iteration = slice c.payload s.receiver.iteration s.receiver.taken
      (s.sender.sentBytes - s.receiver.taken)
  taken_le : s.sender.iteration = s.receiver.iteration →
    s.receiver.taken ≤ s.sender.sentBytes
  bound : s.receiver.taken ≤ c.payload.length
  length : s.receiver.pc.hasData = true → s.receiver.receivedData.length = c.dataSize
  data : s.receiver.receivedData.take s.receiver.taken = c.payload.take s.receiver.taken

theorem flow_fresh (c : Transfer) : Flow c State.fresh :=
  ⟨fun _ _ => rfl, fun _ => rfl, fun _ => Nat.le_refl 0, Nat.zero_le _, nofun, rfl⟩

/-- A step that leaves the bytes alone. -/
theorem Flow.frame (h : Flow c s) (hstream : s'.stream = s.stream)
    (hsi : s'.sender.iteration = s.sender.iteration)
    (hpush : s'.sender.pc.isPushing = false → s.sender.pc.isPushing = false)
    (hsent : s'.sender.sentBytes = s.sender.sentBytes)
    (hri : s'.receiver.iteration = s.receiver.iteration)
    (htaken : s'.receiver.taken = s.receiver.taken)
    (hhas : s'.receiver.pc.hasData = true → s.receiver.pc.hasData = true)
    (hdata : s'.receiver.receivedData = s.receiver.receivedData) : Flow c s' := by
  refine ⟨?_, ?_, ?_, ?_, ?_, ?_⟩
  · intro j hj
    rw [hsi] at hj
    rw [hstream]
    exact h.untouched j (hj.imp_right fun ⟨heq, hp⟩ => ⟨heq, hpush hp⟩)
  · rw [hstream, hsi, hri, htaken, hsent]
    exact h.inFlight
  · rw [hsi, hri, htaken, hsent]
    exact h.taken_le
  · rw [htaken]
    exact h.bound
  · rw [hdata]
    exact fun hhas' => h.length (hhas hhas')
  · rw [hdata, htaken]
    exact h.data

theorem Sender.sentBytes_of_free {p : Sender} (h : p.pc.isPushing = false) : p.sentBytes = 0 := by
  unfold Sender.sentBytes
  rw [h]
  rfl

theorem Sender.sentBytes_of_pushing {p : Sender} (h : p.pc.isPushing = true) :
    p.sentBytes = p.totalSent := by
  unfold Sender.sentBytes
  rw [h]
  rfl

theorem Receiver.taken_of_free {r : Receiver} (h : r.pc.isTaking = false) : r.taken = 0 := by
  unfold Receiver.taken
  rw [h]
  rfl

theorem Receiver.taken_of_taking {r : Receiver} (h : r.pc.isTaking = true) :
    r.taken = r.totalReceived := by
  unfold Receiver.taken
  rw [h]
  rfl

/-- A change of position that keeps the count. -/
theorem Sender.sentBytes_of_eq {p : Sender} {pc : SenderPc} (h : pc.isPushing = p.pc.isPushing) :
    Sender.sentBytes { p with pc := pc } = p.sentBytes := by
  unfold Sender.sentBytes
  dsimp only
  rw [h]

theorem Receiver.taken_of_eq {r : Receiver} {pc : ReceiverPc} (h : pc.isTaking = r.pc.isTaking) :
    Receiver.taken { r with pc := pc } = r.taken := by
  unfold Receiver.taken
  dsimp only
  rw [h]

theorem SenderLocal.sentBytes_le {p : Sender} (h : SenderLocal c p) :
    p.sentBytes ≤ c.payload.length := by
  unfold Sender.sentBytes
  split
  next hpush => exact h.sent_le hpush
  next => exact Nat.zero_le _

/-- Before its second `Wait()` is over the sender has sent nothing. -/
theorem SenderPc.isPushing_of_left {pc : SenderPc} (h : pc.left ≤ 1) : pc.isPushing = false := by
  cases pc with
  | generating | ready | created | waiting1 | connecting | connected | waiting2 | exited
  | aborted | killed => rfl
  | sending | shutting | sent | waiting3 | closing => exact absurd h (by decide)

/-- Before its second `Wait()` is over the receiver has taken nothing. -/
theorem ReceiverPc.isTaking_of_left {pc : ReceiverPc} (h : pc.left ≤ 1) :
    pc.isTaking = false := by
  cases pc with
  | ready | binding | listening | listened | waiting1 | accepting | accepted | waiting2 | exited
  | failed | overrun => rfl
  | receiving | received | waiting3 | verifying | closingConn | closingListener | aborted =>
      exact absurd h (by decide)

/-- Past its loop it has taken what it has. -/
theorem ReceiverPc.isTaking_of_isPastLoop {pc : ReceiverPc} (h : pc.isPastLoop = true) :
    pc.isTaking = true ∧ pc.hasData = true := by
  cases pc with
  | received | waiting3 | verifying | closingConn | closingListener | aborted => decide
  | ready | binding | listening | listened | waiting1 | accepting | accepted | waiting2
  | receiving | exited | failed | overrun => cases h

theorem SenderGoes.isPushing {p : Sender} {pc : SenderPc} (h : SenderGoes c p pc) :
    pc.isPushing = p.pc.isPushing := by
  cases h with
  | generate hpc _ | refuse hpc _ | begin hpc _ | exit hpc _ | finish hpc _ | shut hpc =>
      rw [hpc]
      rfl

theorem SenderArrives.isPushing {pc pc' : SenderPc} (h : SenderArrives pc pc') :
    pc'.isPushing = pc.isPushing := by
  cases h <;> rfl

theorem SenderLeaves.isPushing {pc pc' : SenderPc} (h : SenderLeaves pc pc') :
    pc'.isPushing = pc.isPushing := by
  cases h <;> rfl

/-- A step of the sender to another position. -/
theorem Flow.senderTo (h : Flow c s) {pc : SenderPc} (hpush : pc.isPushing = s.sender.pc.isPushing)
    (hstream : s'.stream = s.stream) (hsender : s'.sender = { s.sender with pc := pc })
    (hreceiver : s'.receiver = s.receiver) : Flow c s' := by
  apply h.frame hstream
  · rw [hsender]
  · rw [hsender]
    exact fun hp => hpush.symm.trans hp
  · rw [hsender]
    exact Sender.sentBytes_of_eq hpush
  · rw [hreceiver]
  · rw [hreceiver]
  · rw [hreceiver]
    exact id
  · rw [hreceiver]

/-- **A move of the sender keeps the flow.** -/
theorem Flow.sender_move (h : Flow c s) (hsites : Sites c s) (hmove : SenderMove c s s') :
    Flow c s' := by
  cases hmove with
  | go hgo => exact h.senderTo hgo.isPushing rfl rfl rfl
  | arrive harrive => exact h.senderTo harrive.isPushing rfl rfl rfl
  | leave hleave _ => exact h.senderTo hleave.isPushing rfl rfl rfl
  | retry hpc => exact h
  | connect hpc _ =>
      have hsame : SenderPc.connected.isPushing = s.sender.pc.isPushing := by rw [hpc]; rfl
      exact h.senderTo hsame rfl rfl rfl
  | start hpc hcan =>
      have hfree : s.sender.pc.isPushing = false := by rw [hpc]; rfl
      exact h.frame rfl rfl nofun (Sender.sentBytes_of_free hfree).symm rfl rfl id rfl
  | @send n hpc hle =>
      have hpush : s.sender.pc.isPushing = true := by rw [hpc]; rfl
      have hsent := Sender.sentBytes_of_pushing hpush
      have hsent' : Sender.sentBytes { s.sender with totalSent := s.sender.totalSent + n } =
          s.sender.totalSent + n := Sender.sentBytes_of_pushing hpush
      refine ⟨?_, ?_, ?_, h.bound, h.length, h.data⟩
      · intro j hj
        have hlt : s.sender.iteration < j := by
          rcases hj with hlt | ⟨_, hfree⟩
          · exact hlt
          · rw [show s.sender.pc.isPushing = true from hpush] at hfree
            cases hfree
        show Function.update s.stream s.sender.iteration _ j = []
        rw [Function.update_of_ne (Nat.ne_of_gt hlt)]
        exact h.untouched j (.inl hlt)
      · intro hsame
        have hsame' : s.sender.iteration = s.receiver.iteration := hsame
        have hle' := h.taken_le hsame'
        have hold := h.inFlight hsame'
        rw [hsent] at hle' hold
        show Function.update s.stream s.sender.iteration _ s.receiver.iteration =
          slice c.payload s.receiver.iteration s.receiver.taken (Sender.sentBytes _ - _)
        rw [hsent', hsame', Function.update_self, hold]
        exact Framing.slice_sent _ _ hle' n
      · intro hsame
        have hle' := h.taken_le hsame
        show s.receiver.taken ≤ Sender.sentBytes _
        rw [hsent']
        omega
  | again hpc =>
      have hap := hsites.apart
      rw [hpc] at hap
      have hl : SenderPc.closing.left = 3 := rfl
      have he : SenderPc.closing.entered = 3 := rfl
      have huntouched : ∀ j, s.sender.iteration + 1 ≤ j → s.stream j = [] :=
        fun j hj => h.untouched j (.inl hj)
      -- a receiver in the next iteration is before its first `Wait()`
      have hfree : s.sender.iteration + 1 = s.receiver.iteration → s.receiver.taken = 0 := by
        intro hnext
        apply Receiver.taken_of_free
        apply ReceiverPc.isTaking_of_left
        omega
      refine ⟨?_, ?_, ?_, h.bound, h.length, h.data⟩
      · intro j hj
        apply huntouched
        rcases hj with hlt | ⟨heq, _⟩
        · exact Nat.le_of_lt hlt
        · exact Nat.le_of_eq heq.symm
      · intro hnext
        show s.stream s.receiver.iteration = slice _ _ s.receiver.taken (0 - _)
        rw [hfree hnext, huntouched _ (Nat.le_of_eq hnext)]
        rfl
      · intro hnext
        show s.receiver.taken ≤ 0
        rw [hfree hnext]

theorem ReceiverGoes.flow {r : Receiver} {pc : ReceiverPc} (h : ReceiverGoes c r pc) :
    pc.isTaking = r.pc.isTaking ∧ (pc.hasData = true → r.pc.hasData = true) := by
  cases h with
  | begin hpc _ | exit hpc _ | finish hpc _ | verified hpc =>
      rw [hpc]
      decide

theorem ReceiverArrives.flow {pc pc' : ReceiverPc} (h : ReceiverArrives pc pc') :
    pc'.isTaking = pc.isTaking ∧ (pc'.hasData = true → pc.hasData = true) := by
  cases h <;> decide

theorem ReceiverLeaves.flow {pc pc' : ReceiverPc} (h : ReceiverLeaves pc pc') :
    pc'.isTaking = pc.isTaking ∧ (pc'.hasData = true → pc.hasData = true) := by
  cases h <;> decide

/-- A step of the receiver to another position. -/
theorem Flow.receiverTo (h : Flow c s) {pc : ReceiverPc}
    (hflow : pc.isTaking = s.receiver.pc.isTaking ∧
      (pc.hasData = true → s.receiver.pc.hasData = true))
    (hstream : s'.stream = s.stream) (hsender : s'.sender = s.sender)
    (hreceiver : s'.receiver = { s.receiver with pc := pc }) : Flow c s' := by
  apply h.frame hstream
  · rw [hsender]
  · rw [hsender]
    exact id
  · rw [hsender]
  · rw [hreceiver]
  · rw [hreceiver]
    exact Receiver.taken_of_eq hflow.1
  · rw [hreceiver]
    exact hflow.2
  · rw [hreceiver]

/-- A receiver in its loop is in the sender's iteration. -/
theorem Sites.of_receiving (h : Sites c s) (hpc : s.receiver.pc = .receiving) :
    s.sender.iteration = s.receiver.iteration ∧ 2 ≤ s.sender.pc.entered := by
  have hap := h.apart
  have hs := h.sender_left_le
  rw [hpc] at hap
  have hl : ReceiverPc.receiving.left = 2 := rfl
  have he : ReceiverPc.receiving.entered = 2 := rfl
  omega

/-- A sender in its loop is in the receiver's iteration. -/
theorem Sites.of_sending (h : Sites c s) (hpc : s.sender.pc = .sending) :
    s.receiver.iteration = s.sender.iteration ∧ 2 ≤ s.receiver.pc.entered ∧
      s.receiver.pc.left ≤ 2 := by
  have hap := h.apart
  have hr := h.receiver_left_le
  rw [hpc] at hap
  have hl : SenderPc.sending.left = 2 := rfl
  have he : SenderPc.sending.entered = 2 := rfl
  omega

/-- What a receiver in its loop has before it. -/
theorem Flow.of_receiving (h : Flow c s) (hsites : Sites c s) (hpc : s.receiver.pc = .receiving) :
    s.stream s.receiver.iteration = slice c.payload s.receiver.iteration s.receiver.totalReceived
        (s.sender.sentBytes - s.receiver.totalReceived) ∧
      s.receiver.totalReceived ≤ s.sender.sentBytes ∧
      s.receiver.receivedData.length = c.payload.length := by
  have htaken : s.receiver.taken = s.receiver.totalReceived :=
    Receiver.taken_of_taking (by rw [hpc]; rfl)
  obtain ⟨hsame, _⟩ := hsites.of_receiving hpc
  have hflight := h.inFlight hsame
  have hle := h.taken_le hsame
  rw [htaken] at hflight hle
  have hlen := h.length (by rw [hpc]; rfl)
  exact ⟨hflight, hle, hlen.trans c.payload_length.symm⟩

/-- **What arrives follows what has arrived.** -/
theorem Flow.receive (h : Flow c s) (hsites : Sites c s) (hsockets : Sockets s) {j n : Nat}
    (hpc : s.receiver.pc = .receiving) (hconn : s.conn = some j)
    (hle : n ≤ (s.stream j).length) :
    Flow c { s with
      stream := Function.update s.stream j ((s.stream j).drop n)
      receiver := { s.receiver with
        totalReceived := s.receiver.totalReceived + n
        receivedData := overwrite s.receiver.receivedData s.receiver.totalReceived
          (untag ((s.stream j).take n)) } } := by
  have htaken' : ∀ data, Receiver.taken
      { s.receiver with totalReceived := s.receiver.totalReceived + n, receivedData := data } =
      s.receiver.totalReceived + n :=
    fun _ => Receiver.taken_of_taking (by rw [hpc]; rfl)
  have htaken : s.receiver.taken = s.receiver.totalReceived :=
    Receiver.taken_of_taking (by rw [hpc]; rfl)
  -- the connection is that of the sender's iteration, which is the same
  obtain ⟨_, hj⟩ := hsockets.conn_iteration hconn
  subst hj
  obtain ⟨hflight, hsofar, hlen⟩ := h.of_receiving hsites hpc
  have hsent := hsites.sender.sentBytes_le
  have hn : n ≤ s.sender.sentBytes - s.receiver.totalReceived := by
    rw [hflight] at hle
    exact Nat.le_trans hle (Framing.length_slice_le ..)
  have hbytes : untag ((s.stream s.receiver.iteration).take n) =
      (c.payload.drop s.receiver.totalReceived).take n := by
    rw [hflight]
    exact Framing.untag_take_slice _ _ _ hn
  have hcount : (untag ((s.stream s.receiver.iteration).take n)).length = n := by
    rw [Framing.length_untag, List.length_take, Nat.min_eq_left hle]
  have hold := h.data
  rw [htaken] at hold
  obtain ⟨hlen', hdata⟩ := buffer_received hold hlen
    (show s.receiver.totalReceived + n ≤ _ by omega) hbytes
  refine ⟨?_, ?_, ?_, ?_, ?_, ?_⟩
  · exact fun i hi => update_drop_eq_nil (h.untouched i hi) _ n
  · intro _
    show Function.update s.stream s.receiver.iteration _ s.receiver.iteration =
      slice _ _ (Receiver.taken _) (_ - Receiver.taken _)
    rw [htaken', Function.update_self, hflight, Framing.drop_slice, Nat.sub_sub]
  · intro _
    show Receiver.taken _ ≤ s.sender.sentBytes
    rw [htaken']
    omega
  · show Receiver.taken _ ≤ c.payload.length
    rw [htaken']
    omega
  · intro _
    show (overwrite _ _ _).length = c.dataSize
    unfold overwrite
    rw [hcount]
    exact hlen'.trans c.payload_length
  · show List.take (Receiver.taken _) (overwrite _ _ _) = List.take (Receiver.taken _) _
    rw [htaken']
    unfold overwrite
    rw [hcount]
    exact hdata

/-- **A move of the receiver keeps the flow.** -/
theorem Flow.receiver_move (h : Flow c s) (hsites : Sites c s) (hsockets : Sockets s)
    (hmove : ReceiverMove c s s') : Flow c s' := by
  cases hmove with
  | go hgo => exact h.receiverTo hgo.flow rfl rfl rfl
  | arrive harrive => exact h.receiverTo harrive.flow rfl rfl rfl
  | leave hleave _ => exact h.receiverTo hleave.flow rfl rfl rfl
  | bind hpc =>
      have hflow : ReceiverPc.listening.isTaking = s.receiver.pc.isTaking ∧
          (ReceiverPc.listening.hasData = true → s.receiver.pc.hasData = true) := by
        rw [hpc]
        decide
      exact h.receiverTo hflow rfl rfl rfl
  | listen hpc =>
      have hflow : ReceiverPc.listened.isTaking = s.receiver.pc.isTaking ∧
          (ReceiverPc.listened.hasData = true → s.receiver.pc.hasData = true) := by
        rw [hpc]
        decide
      exact h.receiverTo hflow rfl rfl rfl
  | accept hpc _ _ =>
      have hfree : s.receiver.pc.isTaking = false := by rw [hpc]; rfl
      have htaken := Receiver.taken_of_free hfree
      have hflight := h.inFlight
      have hle := h.taken_le
      rw [htaken] at hflight hle
      exact ⟨h.untouched, hflight, hle, Nat.zero_le _, fun _ => List.length_replicate, rfl⟩
  | start hpc _ =>
      have hfree : s.receiver.pc.isTaking = false := by rw [hpc]; rfl
      refine h.frame rfl rfl id rfl rfl (Receiver.taken_of_free hfree).symm ?_ rfl
      rw [hpc]
      exact id
  | receive hpc hconn hle => exact h.receive hsites hsockets hpc hconn hle
  | reject hpc _ =>
      have hflow : ReceiverPc.aborted.isTaking = s.receiver.pc.isTaking ∧
          (ReceiverPc.aborted.hasData = true → s.receiver.pc.hasData = true) := by
        rw [hpc]
        decide
      exact h.receiverTo hflow rfl rfl rfl
  | closeConn hpc =>
      have hflow : ReceiverPc.closingListener.isTaking = s.receiver.pc.isTaking ∧
          (ReceiverPc.closingListener.hasData = true → s.receiver.pc.hasData = true) := by
        rw [hpc]
        decide
      exact h.receiverTo hflow rfl rfl rfl
  | again hpc =>
      have hap := hsites.apart
      rw [hpc] at hap
      have hl : ReceiverPc.closingListener.left = 3 := rfl
      have he : ReceiverPc.closingListener.entered = 3 := rfl
      -- a sender in the next iteration is before its first `Wait()`
      have hfree : s.sender.iteration = s.receiver.iteration + 1 →
          s.sender.pc.isPushing = false := by
        intro hnext
        apply SenderPc.isPushing_of_left
        omega
      refine ⟨h.untouched, ?_, ?_, Nat.zero_le _, nofun, rfl⟩
      · intro hnext
        have hnext' : s.sender.iteration = s.receiver.iteration + 1 := hnext
        show s.stream (s.receiver.iteration + 1) = slice _ _ 0 (s.sender.sentBytes - 0)
        rw [h.untouched _ (.inr ⟨hnext'.symm, hfree hnext'⟩),
          Sender.sentBytes_of_free (hfree hnext')]
        rfl
      · intro _
        exact Nat.zero_le _

/-! ## §2. The invariant. -/

/-- Everything that holds in every run. -/
structure Inv (c : Transfer) (s : State) : Prop where
  sites : Sites c s
  sockets : Sockets s
  meeting : Meeting s
  flow : Flow c s
  /-- Only a payload that does not verify makes the receiver abort. -/
  verdict : s.receiver.pc = .aborted → verifyDataReceived c.payload c.dataSize ≠ some true

/-- **A whole frame is the sender's.** -/
theorem Flow.whole (h : Flow c s) (htaking : s.receiver.pc.isTaking = true)
    (hhas : s.receiver.pc.hasData = true) (hall : c.payload.length ≤ s.receiver.totalReceived) :
    s.receiver.receivedData = c.payload := by
  have hdata := h.data
  have hlen := h.length hhas
  rw [Receiver.taken_of_taking htaking, List.take_of_length_le hall,
    List.take_of_length_le] at hdata
  · exact hdata
  · rw [hlen, ← c.payload_length]
    exact hall

/-- What is in flight to a receiver in its loop is at most what it lacks. -/
theorem Inv.length_stream (h : Inv c s) (hpc : s.receiver.pc = .receiving) :
    (s.stream s.receiver.iteration).length =
      s.sender.sentBytes - s.receiver.totalReceived ∧
      s.receiver.totalReceived ≤ s.sender.sentBytes ∧
      s.sender.sentBytes ≤ c.payload.length := by
  obtain ⟨hflight, hle, _⟩ := h.flow.of_receiving h.sites hpc
  have hsent := h.sites.sender.sentBytes_le
  refine ⟨?_, hle, hsent⟩
  rw [hflight, Framing.length_slice (by omega)]

/-- **A connection that ran dry before the end of the frame** has a sender that
has not sent everything. -/
theorem Inv.of_dry (h : Inv c s) (hpc : s.receiver.pc = .receiving)
    (hlt : s.receiver.totalReceived < c.payload.length)
    (hempty : s.stream s.receiver.iteration = []) :
    s.sender.pc = .waiting2 ∨
      (s.sender.pc = .sending ∧ s.sender.totalSent < c.payload.length) := by
  obtain ⟨hlen, hle, _⟩ := h.length_stream hpc
  obtain ⟨_, hentered⟩ := h.sites.of_receiving hpc
  rw [hempty, List.length_nil] at hlen
  have hshort : s.sender.sentBytes < c.payload.length := by omega
  have hpast : s.sender.pc.isPastLoop = true → s.sender.pc.isPushing = true → False := by
    intro hpast hpush
    have hall := h.sites.sender.sentAll hpast
    rw [Sender.sentBytes_of_pushing hpush] at hshort
    omega
  cases hs : s.sender.pc with
  | waiting2 => exact .inl rfl
  | sending =>
      rw [Sender.sentBytes_of_pushing (by rw [hs]; rfl)] at hshort
      exact .inr ⟨rfl, hshort⟩
  | shutting | sent | waiting3 | closing =>
      rw [hs] at hpast
      exact (hpast rfl rfl).elim
  | killed => exact absurd hs h.sites.sender.alive
  | generating | ready | created | waiting1 | connecting | connected | exited | aborted =>
      rw [hs] at hentered
      exact absurd hentered (by decide)

/-- A sender in its loop has a receiver with the connection. -/
theorem Inv.of_sending (h : Inv c s) (hpc : s.sender.pc = .sending) :
    s.conn = some s.sender.iteration := by
  obtain ⟨hsame, hentered, hleft⟩ := h.sites.of_sending hpc
  rw [← hsame]
  apply h.sockets.conn_eq
  cases hr : s.receiver.pc with
  | waiting2 | receiving | received | waiting3 => rfl
  | overrun => exact absurd hr h.sites.receiver.alive.2
  | ready | binding | listening | listened | waiting1 | accepting | accepted | exited | failed =>
      rw [hr] at hentered
      exact absurd hentered (by decide)
  | verifying | closingConn | closingListener | aborted =>
      rw [hr] at hleft
      exact absurd hleft (by decide)

/-- **No call fails**, and what arrives fits. -/
theorem Inv.calls (h : Inv c s) : Calls c s := by
  refine ⟨?_, ?_, ?_, ?_, ?_, ?_⟩
  · intro hpc
    have hport := h.sockets.port
    rw [hpc] at hport
    exact hport
  · intro hpc hnone
    obtain ⟨l, hl, _⟩ := h.sockets.exists_listener (by rw [hpc]; rfl)
    rw [hnone] at hl
    cases hl
  · intro hpc hnone
    rw [h.sockets.conn_eq (by rw [hpc]; rfl)] at hnone
    cases hnone
  · intro hpc j hconn
    obtain ⟨_, hj⟩ := h.sockets.conn_iteration hconn
    subst hj
    obtain ⟨hlen, hle, hsent⟩ := h.length_stream hpc
    obtain ⟨_, _, hdata⟩ := h.flow.of_receiving h.sites hpc
    omega
  · intro hpc j hconn hlt hempty
    obtain ⟨_, hj⟩ := h.sockets.conn_iteration hconn
    subst hj
    obtain ⟨hsame, _⟩ := h.sites.of_receiving hpc
    unfold State.hasWriter
    rcases h.of_dry hpc hlt hempty with hs | ⟨hs, _⟩
    · simp [hs, hsame, SenderPc.isWriting]
    · simp [hs, hsame, SenderPc.isWriting]
  · intro hpc
    unfold State.hasReader
    rw [h.of_sending hpc]
    simp

/-- **Every step keeps the invariant.** -/
theorem Inv.step {a : Act} (h : Inv c s) (hs : step c s a = some s') : Inv c s' := by
  cases a with
  | sender m =>
      have hmove := senderStep_move h.calls hs
      refine ⟨h.sites.sender_move hmove, h.sockets.sender_move hmove,
        h.meeting.sender_move h.sites hmove, h.flow.sender_move h.sites hmove, ?_⟩
      rw [hmove.receiver_eq]
      exact h.verdict
  | receiver m =>
      have hmove := receiverStep_move h.calls hs
      refine ⟨h.sites.receiver_move hmove,
        h.sockets.receiver_move hmove (h.meeting.accepts_own h.sites),
        h.meeting.receiver_move h.sites hmove,
        h.flow.receiver_move h.sites h.sockets hmove, ?_⟩
      intro habort
      cases hmove with
      | reject hpc hbad =>
          have hall := h.sites.receiver.whole (by rw [hpc]; rfl)
          rw [h.flow.whole (by rw [hpc]; rfl) (by rw [hpc]; rfl) hall] at hbad
          exact hbad
      | go hgo => cases hgo <;> cases habort
      | @arrive pc harrive =>
          have hpc : pc = .aborted := habort
          subst hpc
          generalize s.receiver.pc = old at harrive
          cases harrive
      | @leave pc hleave _ =>
          have hpc : pc = .aborted := habort
          subst hpc
          generalize s.receiver.pc = old at hleave
          cases hleave
      | receive hpc _ _ =>
          have hpc' : s.receiver.pc = .aborted := habort
          rw [hpc] at hpc'
          cases hpc'
      | bind _ | listen _ | accept _ _ _ | start _ _ | closeConn _ | again _ => cases habort

theorem inv_of_reachable (h : (system c).Reachable s) : Inv c s := by
  refine System.invariant (I := Inv c) ?_ ?_ h
  · intro t ht
    rw [show t = State.fresh from ht]
    exact ⟨sites_fresh c, sockets_fresh, meeting_fresh, flow_fresh c, nofun⟩
  · intro t a t' hinv hs
    exact hinv.step hs

/-- **The loop ends with the sender's frame.** -/
theorem Inv.delivered (h : Inv c s) (hpast : s.receiver.pc.isPastLoop = true) :
    s.receiver.totalReceived = c.dataSize ∧ s.receiver.receivedData = c.payload := by
  obtain ⟨htaking, hhas⟩ := ReceiverPc.isTaking_of_isPastLoop hpast
  have hall := h.sites.receiver.whole hpast
  have hbound := h.flow.bound
  have hlen := c.payload_length
  rw [Receiver.taken_of_taking htaking] at hbound
  exact ⟨by omega, h.flow.whole htaking hhas hall⟩

end Akbench.Tcp
