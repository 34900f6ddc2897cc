/-
  Akbench.Uds.Delivery
  ────────────────────
  **WHAT A CONNECTION CARRIES.**

  Every connection has a stream of its own, and the two `Wait()`s of an
  iteration bracket the transfer on both sides.

    • `Flow` — the bytes between what the sender sent and what the receiver
      took are in flight, and `read_data` begins with what was taken;
    • `Inv`, `inv_of_reachable` — everything that holds in every run;
    • `paired`, `delivered` — the connection accepted is of the receiver's
      iteration, and carries the sender's frame.
-/
import Akbench.Uds.Pairing

namespace Akbench.Uds

open Framing (slice untag)

variable {c : Transfer} {s s' : State} {m : Nat}

/-! ## §1. Bytes in flight. -/

/-- The bytes of this iteration sent so far. -/
def Sender.sentBytes (p : Sender) : Nat :=
  if p.pc.isPushing then p.totalSent else 0

/-- The bytes of this iteration received so far. -/
def Receiver.taken (r : Receiver) : Nat :=
  if r.pc.isTaking then r.totalReceived else 0

/-- Where the bytes of a frame are. -/
structure Flow (c : Transfer) (s : State) : Prop where
  /-- Nothing was sent yet on later connections. -/
  untouched : ∀ j, s.sender.iteration < j ∨
    (j = s.sender.iteration ∧ s.sender.pc.isPushing = false) → s.stream j = []
  inFlight : s.sender.iteration = s.receiver.iteration →
    s.stream s.receiver.iteration = slice c.payload s.receiver.iteration s.receiver.taken
      (s.sender.sentBytes - s.receiver.taken)
  taken_le : s.sender.iteration = s.receiver.iteration →
    s.receiver.taken ≤ s.sender.sentBytes
  length : s.receiver.readData.length = c.dataSize
  data : s.receiver.readData.take s.receiver.taken = c.payload.take s.receiver.taken

theorem flow_fresh (c : Transfer) : Flow c (State.fresh c) :=
  ⟨fun _ _ => rfl, fun _ => rfl, fun _ => Nat.le_refl 0, List.length_replicate, rfl⟩

/-- A step that leaves the bytes alone. -/
theorem Flow.frame (h : Flow c s) (hstream : s'.stream = s.stream)
    (hsi : s'.sender.iteration = s.sender.iteration)
    (hpush : s'.sender.pc.isPushing = false → s.sender.pc.isPushing = false)
    (hsent : s'.sender.sentBytes = s.sender.sentBytes)
    (hri : s'.receiver.iteration = s.receiver.iteration)
    (htaken : s'.receiver.taken = s.receiver.taken)
    (hdata : s'.receiver.readData = s.receiver.readData) : Flow c s' := by
  refine ⟨?_, ?_, ?_, ?_, ?_⟩
  · intro j hj
    rw [hsi] at hj
    rw [hstream]
    exact h.untouched j (hj.imp_right fun ⟨heq, hp⟩ => ⟨heq, hpush hp⟩)
  · rw [hstream, hsi, hri, htaken, hsent]
    exact h.inFlight
  · rw [hsi, hri, htaken, hsent]
    exact h.taken_le
  · rw [hdata]
    exact h.length
  · rw [hdata, htaken]
    exact h.data

theorem Sender.sentBytes_of_free {p : Sender} (h : p.pc.isPushing = false) : p.sentBytes = 0 := by
  unfold Sender.sentBytes
  rw [h]
  rfl

theorem Sender.sentBytes_of_pushing {p : Sender} (h : p.pc.isPushing = true) :
    p.sentBytes = p.totalSent := by
  unfold Sender.sentBytes
  rw [h]
  rfl

theorem Receiver.taken_of_free {r : Receiver} (h : r.pc.isTaking = false) : r.taken = 0 := by
  unfold Receiver.taken
  rw [h]
  rfl

theorem Receiver.taken_of_taking {r : Receiver} (h : r.pc.isTaking = true) :
    r.taken = r.totalReceived := by
  unfold Receiver.taken
  rw [h]
  rfl

theorem SenderLocal.sentBytes_le {p : Sender} (h : SenderLocal c p) :
    p.sentBytes ≤ c.payload.length := by
  unfold Sender.sentBytes
  split
  next hpush => exact h.sent_le hpush
  next => exact Nat.zero_le _

/-- Before its first `Wait()` is over the sender has sent nothing. -/
theorem SenderPc.isPushing_of_left {pc : SenderPc} (h : pc.left = 0) : pc.isPushing = false := by
  cases pc with
  | generating | ready | connecting | connected | waiting1 | exited | aborted | killed => rfl
  | sending | sent | waiting2 | closing => cases h

/-- Before its first `Wait()` is over the receiver has taken nothing. -/
theorem ReceiverPc.isTaking_of_left {pc : ReceiverPc} (h : pc.left = 0) :
    pc.isTaking = false := by
  cases pc with
  | ready | removing | binding | listening | accepting | accepted | waiting1 | exited
  | failed => rfl
  | receiving | received | waiting2 | closingConn | closingListener | unlinking | verifying
  | aborted => cases h

/-- **A move of the sender keeps the flow.** -/
theorem Flow.sender_move (h : Flow c s) (hsites : Sites c s) (hmove : SenderMove c s s') :
    Flow c s' := by
  cases hmove with
  | go hgo =>
      cases hgo with
      | generated hpc _ | rejected hpc _ | begin hpc _ | exit hpc _ =>
          have hfree : s.sender.pc.isPushing = false := by rw [hpc]; rfl
          exact h.frame rfl rfl (fun _ => hfree) (Sender.sentBytes_of_free hfree).symm rfl rfl rfl
      | finish hpc hall =>
          have hpush : s.sender.pc.isPushing = true := by rw [hpc]; rfl
          exact h.frame rfl rfl nofun (Sender.sentBytes_of_pushing hpush).symm rfl rfl rfl
  | retry hpc => exact h
  | connect hpc _ _ | arrive1 hpc =>
      have hfree : s.sender.pc.isPushing = false := by rw [hpc]; rfl
      exact h.frame rfl rfl (fun _ => hfree) (Sender.sentBytes_of_free hfree).symm rfl rfl rfl
  | leave1 hpc hcan =>
      have hfree : s.sender.pc.isPushing = false := by rw [hpc]; rfl
      exact h.frame rfl rfl nofun (Sender.sentBytes_of_free hfree).symm rfl rfl rfl
  | @send n hpc hle =>
      have hpush : s.sender.pc.isPushing = true := by rw [hpc]; rfl
      have hsent := Sender.sentBytes_of_pushing hpush
      have hsent' : Sender.sentBytes { s.sender with totalSent := s.sender.totalSent + n } =
          s.sender.totalSent + n := Sender.sentBytes_of_pushing hpush
      refine ⟨?_, ?_, ?_, h.length, h.data⟩
      · intro j hj
        have hlt : s.sender.iteration < j := by
          rcases hj with hlt | ⟨_, hfree⟩
          · exact hlt
          · rw [show s.sender.pc.isPushing = true from hpush] at hfree
            cases hfree
        show Function.update s.stream s.sender.iteration _ j = []
        rw [Function.update_of_ne (Nat.ne_of_gt hlt)]
        exact h.untouched j (.inl hlt)
      · intro hsame
        have hsame' : s.sender.iteration = s.receiver.iteration := hsame
        have hle' := h.taken_le hsame'
        have hold := h.inFlight hsame'
        rw [hsent] at hle' hold
        show Function.update s.stream s.sender.iteration _ s.receiver.iteration =
          slice c.payload s.receiver.iteration s.receiver.taken (Sender.sentBytes _ - _)
        rw [hsent', hsame', Function.update_self, hold]
        exact Framing.slice_sent _ _ hle' n
      · intro hsame
        have hle' := h.taken_le hsame
        show s.receiver.taken ≤ Sender.sentBytes _
        rw [hsent']
        omega
  | arrive2 hpc =>
      have hpush : s.sender.pc.isPushing = true := by rw [hpc]; rfl
      exact h.frame rfl rfl nofun (Sender.sentBytes_of_pushing hpush).symm rfl rfl rfl
  | leave2 hpc hcan =>
      have hpush : s.sender.pc.isPushing = true := by rw [hpc]; rfl
      exact h.frame rfl rfl nofun (Sender.sentBytes_of_pushing hpush).symm rfl rfl rfl
  | again hpc =>
      have hap := hsites.apart
      rw [hpc] at hap
      have hl : SenderPc.closing.left = 2 := rfl
      have he : SenderPc.closing.entered = 2 := rfl
      have huntouched : ∀ j, s.sender.iteration + 1 ≤ j → s.stream j = [] :=
        fun j hj => h.untouched j (.inl hj)
      -- a receiver in the next iteration is before its first `Wait()`
      have hfree : s.sender.iteration + 1 = s.receiver.iteration → s.receiver.taken = 0 := by
        intro hnext
        apply Receiver.taken_of_free
        apply ReceiverPc.isTaking_of_left
        omega
      refine ⟨?_, ?_, ?_, h.length, h.data⟩
      · intro j hj
        apply huntouched
        rcases hj with hlt | ⟨heq, _⟩
        · exact Nat.le_of_lt hlt
        · exact Nat.le_of_eq heq.symm
      · intro hnext
        show s.stream s.receiver.iteration = slice _ _ s.receiver.taken (0 - _)
        rw [hfree hnext, huntouched _ (Nat.le_of_eq hnext)]
        rfl
      · intro hnext
        show s.receiver.taken ≤ 0
        rw [hfree hnext]

/-- **What arrives follows what has arrived.** -/
theorem Flow.receive (h : Flow c s) (hsites : Sites c s) (hsockets : Sockets s) {j n : Nat}
    (hpc : s.receiver.pc = .receiving) (hconn : s.conn = some j)
    (hle : n ≤ (s.stream j).length) :
    Flow c { s with
      stream := Function.update s.stream j ((s.stream j).drop n)
      receiver := { s.receiver with
        totalReceived := s.receiver.totalReceived + n
        readData := s.receiver.readData.take s.receiver.totalReceived ++
          untag ((s.stream j).take n) ++
          s.receiver.readData.drop (s.receiver.totalReceived + n) } } := by
  have htaking : s.receiver.pc.isTaking = true := by rw [hpc]; rfl
  have htaken := Receiver.taken_of_taking htaking
  have htaken' : ∀ data, Receiver.taken
      { s.receiver with totalReceived := s.receiver.totalReceived + n, readData := data } =
      s.receiver.totalReceived + n := fun _ => Receiver.taken_of_taking htaking
  -- the connection is that of the sender's iteration, which is the same
  obtain ⟨_, hj⟩ := hsockets.conn_iteration hconn
  subst hj
  have hap := hsites.apart
  rw [hpc] at hap
  have hl : ReceiverPc.receiving.left = 1 := rfl
  have he : ReceiverPc.receiving.entered = 1 := rfl
  have hsel : s.sender.pc.entered ≤ 2 := hsites.lockstep.entered_le .sender
  have hsle : s.sender.pc.left ≤ s.sender.pc.entered := hsites.lockstep.left_le .sender
  have hsent := hsites.sender.sentBytes_le
  by_cases hsame : s.sender.iteration = s.receiver.iteration
  · have hflight := h.inFlight hsame
    have htle := h.taken_le hsame
    rw [htaken] at hflight htle
    have hn : n ≤ s.sender.sentBytes - s.receiver.totalReceived := by
      rw [hflight] at hle
      exact Nat.le_trans hle (Framing.length_slice_le ..)
    have hbytes : untag ((s.stream s.receiver.iteration).take n) =
        (c.payload.drop s.receiver.totalReceived).take n := by
      rw [hflight]
      exact Framing.untag_take_slice _ _ _ hn
    have hold := h.data
    rw [htaken] at hold
    obtain ⟨hlen, hdata⟩ := buffer_received hold (h.length.trans c.payload_length.symm)
      (show s.receiver.totalReceived + n ≤ _ by omega) hbytes
    refine ⟨?_, ?_, ?_, ?_, ?_⟩
    · exact fun i hi => update_drop_eq_nil (h.untouched i hi) _ n
    · intro _
      show Function.update s.stream s.receiver.iteration _ s.receiver.iteration =
        slice _ _ (Receiver.taken _) (_ - Receiver.taken _)
      rw [htaken', Function.update_self, hflight, Framing.drop_slice, Nat.sub_sub]
    · intro _
      show Receiver.taken _ ≤ s.sender.sentBytes
      rw [htaken']
      omega
    · exact hlen.trans c.payload_length
    · show List.take (Receiver.taken _) _ = List.take (Receiver.taken _) _
      rw [htaken']
      exact hdata
  · exfalso
    omega

/-- **A move of the receiver keeps the flow.** -/
theorem Flow.receiver_move (h : Flow c s) (hsites : Sites c s) (hsockets : Sockets s)
    (hmove : ReceiverMove c s s') : Flow c s' := by
  cases hmove with
  | go hgo =>
      cases hgo with
      | begin hpc _ | exit hpc _ =>
          have hfree : s.receiver.pc.isTaking = false := by rw [hpc]; rfl
          exact h.frame rfl rfl id rfl rfl (Receiver.taken_of_free hfree).symm rfl
      | finish hpc _ | rejected hpc _ =>
          have htaking : s.receiver.pc.isTaking = true := by rw [hpc]; rfl
          exact h.frame rfl rfl id rfl rfl (Receiver.taken_of_taking htaking).symm rfl
  | remove hpc | bind hpc | listen hpc | accept hpc _ _ | arrive1 hpc | leave1 hpc _ =>
      have hfree : s.receiver.pc.isTaking = false := by rw [hpc]; rfl
      exact h.frame rfl rfl id rfl rfl (Receiver.taken_of_free hfree).symm rfl
  | arrive2 hpc | leave2 hpc _ | closeConn hpc | closeListener hpc | unlink hpc =>
      have htaking : s.receiver.pc.isTaking = true := by rw [hpc]; rfl
      exact h.frame rfl rfl id rfl rfl (Receiver.taken_of_taking htaking).symm rfl
  | receive hpc hconn hle => exact h.receive hsites hsockets hpc hconn hle
  | again hpc =>
      have hap := hsites.apart
      rw [hpc] at hap
      have hl : ReceiverPc.verifying.left = 2 := rfl
      have he : ReceiverPc.verifying.entered = 2 := rfl
      -- a sender in the next iteration is before its first `Wait()`
      have hfree : s.sender.iteration = s.receiver.iteration + 1 →
          s.sender.pc.isPushing = false := by
        intro hnext
        apply SenderPc.isPushing_of_left
        omega
      refine ⟨h.untouched, ?_, ?_, h.length, rfl⟩
      · intro hnext
        have hnext' : s.sender.iteration = s.receiver.iteration + 1 := hnext
        show s.stream (s.receiver.iteration + 1) = slice _ _ 0 (s.sender.sentBytes - 0)
        rw [h.untouched _ (.inr ⟨hnext'.symm, hfree hnext'⟩),
          Sender.sentBytes_of_free (hfree hnext')]
        rfl
      · intro _
        exact Nat.zero_le _

/-! ## §2. The invariant. -/

/-- Everything that holds in every run. -/
structure Inv (c : Transfer) (s : State) : Prop where
  sites : Sites c s
  sockets : Sockets s
  meeting : Meeting s
  flow : Flow c s

/-- A sender in its loop has the receiver of its iteration at the other end. -/
theorem Inv.of_sending (h : Inv c s) (hpc : s.sender.pc = .sending) :
    s.receiver.iteration = s.sender.iteration ∧ s.receiver.pc.hasConn = true := by
  have hap := h.sites.apart
  rw [hpc] at hap
  have hl : SenderPc.sending.left = 1 := rfl
  have he : SenderPc.sending.entered = 1 := rfl
  have hrle : s.receiver.pc.left ≤ s.receiver.pc.entered := h.sites.lockstep.left_le .receiver
  have hre : s.receiver.pc.entered ≤ 2 := h.sites.lockstep.entered_le .receiver
  have hsame : s.receiver.iteration = s.sender.iteration := by omega
  refine ⟨hsame, ?_⟩
  have hin : 1 ≤ s.receiver.pc.entered ∧ s.receiver.pc.left ≤ 1 := by omega
  cases hr : s.receiver.pc with
  | waiting1 | receiving | received | waiting2 => rfl
  | ready | removing | binding | listening | accepting | accepted | exited | failed =>
      rw [hr] at hin
      exact absurd hin.1 (by decide)
  | closingConn | closingListener | unlinking | verifying | aborted =>
      rw [hr] at hin
      exact absurd hin.2 (by decide)

/-- A receiver in its loop has the sender of its iteration at the other
end. -/
theorem Inv.of_receiving (h : Inv c s) (hpc : s.receiver.pc = .receiving) :
    s.sender.iteration = s.receiver.iteration ∧ s.sender.pc.isConnected = true := by
  have hap := h.sites.apart
  rw [hpc] at hap
  have hl : ReceiverPc.receiving.left = 1 := rfl
  have he : ReceiverPc.receiving.entered = 1 := rfl
  rcases h.meeting.past (by rw [hpc]; rfl) with hlt | ⟨hsame, hconn⟩
  · exfalso
    omega
  · exact ⟨hsame.symm, hconn⟩

/-- **No call fails.** -/
theorem Inv.calls (h : Inv c s) : Calls s := by
  refine ⟨?_, ?_, ?_, ?_⟩
  · intro hpc
    have hpath := h.sockets.path
    rw [hpc] at hpath
    exact hpath
  · intro hpc hnone
    obtain ⟨l, hl, _⟩ := h.sockets.exists_listener (by rw [hpc]; rfl)
    rw [hnone] at hl
    cases hl
  · intro hpc
    obtain ⟨hsame, hconn⟩ := h.of_receiving hpc
    unfold State.hasWriter
    rw [hconn, hsame, h.sockets.conn_eq (by rw [hpc]; rfl)]
    simp
  · intro hpc
    obtain ⟨hsame, hconn⟩ := h.of_sending hpc
    unfold State.hasReader
    rw [h.sockets.conn_eq hconn, hsame]
    simp

/-- **Every step keeps the invariant.** -/
theorem Inv.step {a : Act} (h : Inv c s) (hs : step c s a = some s') : Inv c s' := by
  cases a with
  | sender m =>
      have hmove := senderStep_move h.calls hs
      exact ⟨h.sites.sender_move hmove, h.sockets.sender_move hmove,
        h.meeting.sender_move h.sites h.sockets hmove, h.flow.sender_move h.sites hmove⟩
  | receiver m =>
      have hmove := receiverStep_move h.calls hs
      have hpair : ∀ j, s.receiver.pc = .accepting → s.queued = some j →
          j = s.receiver.iteration := fun _ hpc hq => h.meeting.of_accepting hpc hq
      exact ⟨h.sites.receiver_move hmove, h.sockets.receiver_move hmove hpair,
        h.meeting.receiver_move h.sites h.sockets hmove,
        h.flow.receiver_move h.sites h.sockets hmove⟩

theorem inv_of_reachable (h : (system c).Reachable s) : Inv c s := by
  refine System.invariant (I := Inv c) ?_ ?_ h
  · intro t ht
    rw [show t = State.fresh c from ht]
    exact ⟨sites_fresh c, sockets_fresh c, meeting_fresh c, flow_fresh c⟩
  · intro t a t' hinv hs
    exact hinv.step hs

/-- **The connection accepted in iteration `k` is the one the sender opened
in its iteration `k`**, in every run. -/
theorem Inv.paired (h : Inv c s) : s.Paired :=
  fun _ hj => (h.sockets.conn_iteration hj).2

/-- **Every iteration delivers the frame.** -/
theorem Inv.delivered (h : Inv c s) (hpc : s.receiver.pc = .verifying) :
    s.receiver.readData = c.payload := by
  have hwhole := h.sites.receiver.whole (by rw [hpc]; rfl)
  have htaken : s.receiver.taken = s.receiver.totalReceived :=
    Receiver.taken_of_taking (by rw [hpc]; rfl)
  have hdata := h.flow.data
  rw [htaken, List.take_of_length_le hwhole, List.take_of_length_le] at hdata
  · exact hdata
  · rw [h.flow.length, ← c.payload_length]
    exact hwhole

end Akbench.Uds
