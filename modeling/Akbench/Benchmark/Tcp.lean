/-
  Akbench.Benchmark.Tcp
  ─────────────────────
  **`RunTcpBandwidthBenchmark`, FROM `fork()` TO THE LAST DESTRUCTOR.**

  `Akbench.Tcp` over `SenseReversingBarrier` itself, with three calls of
  `Wait()` per iteration and process.  `connect()` is retried until it
  succeeds; a retry that fails changes nothing, so a fair run cannot consist
  of retries.

    • `protocol` — what the class and the sockets ask of each other;
    • `tcp_benchmark` — no call fails and nobody aborts, and every weakly fair
      run ends with both returned and the barrier's names unlinked.
-/
import Akbench.Benchmark.Processes
import Akbench.Tcp.Progress
import Akbench.Common.Generate

namespace Akbench.Tcp

open Framing (slice untag)
open Benchmark (crossings_le Protocol Completed processes forall_ne_sender forall_ne_receiver)

variable {c : Transfer} {s s' : State} {m : Nat}

/-! ## §1. The processes as users of a barrier. -/

def SenderPc.status : SenderPc → Client.Status
  | .waiting1 | .waiting2 | .waiting3 => .calling
  | .exited => .returned
  | .generating | .ready | .created | .connecting | .connected | .sending | .shutting | .sent
  | .closing | .aborted | .killed => .running

def ReceiverPc.status : ReceiverPc → Client.Status
  | .waiting1 | .waiting2 | .waiting3 => .calling
  | .exited => .returned
  | .ready | .binding | .listening | .listened | .accepting | .accepted | .receiving | .received
  | .verifying | .closingConn | .closingListener | .failed | .overrun | .aborted => .running

def client (c : Transfer) : Client Side State Act where
  system := system c
  owner
    | .sender _ => .sender
    | .receiver _ => .receiver
  barrier := State.barrier
  withBarrier s b := { s with barrier := b }
  status s
    | .sender => s.sender.pc.status
    | .receiver => s.receiver.pc.status

theorem afterSend_barrier (s : State) (b : Rendezvous Side) (t : SendTurn) :
    afterSend { s with barrier := b } t =
      (afterSend s t).map fun s => { s with barrier := b } := by
  cases t <;> rfl

theorem afterReceive_barrier (s : State) (b : Rendezvous Side) (j : Nat) (t : ReceiveTurn) :
    afterReceive { s with barrier := b } j t =
      (afterReceive s j t).map fun s => { s with barrier := b } := by
  cases t with
  | finished | endOfFile | blocked => rfl
  | got =>
      dsimp only [afterReceive]
      split <;> rfl

theorem accept_barrier (s : State) (b : Rendezvous Side) :
    accept c { s with barrier := b } = (accept c s).map fun s => { s with barrier := b } := by
  obtain ⟨_, p, r, port, listener, conn, stream⟩ := s
  rcases listener with _ | ⟨k, _ | ⟨j, rest⟩⟩ <;> rfl

theorem kind_sender (s : State) (m : Nat) : (client c).Kind s (.sender m) := by
  obtain ⟨b, ⟨pc, i, sent⟩, r, port, listener, conn, stream⟩ := s
  cases pc with
  | generating =>
      by_cases hsize : checksumSize < c.dataSize
      · exact .stays ⟨b, ⟨.ready, i, sent⟩, r, port, listener, conn, stream⟩
          (fun _ => if_pos hsize) rfl nofun (forall_ne_sender rfl)
      · exact .stays ⟨b, ⟨.aborted, i, sent⟩, r, port, listener, conn, stream⟩
          (fun _ => if_neg hsize) rfl nofun (forall_ne_sender rfl)
  | ready =>
      by_cases hlt : i < c.total
      · exact .stays ⟨b, ⟨.created, i, sent⟩, r, port, listener, conn, stream⟩
          (fun _ => if_pos hlt) rfl nofun (forall_ne_sender rfl)
      · exact .stays ⟨b, ⟨.exited, i, sent⟩, r, port, listener, conn, stream⟩
          (fun _ => if_neg hlt) rfl nofun (forall_ne_sender rfl)
  | created =>
      exact .arrives ⟨b, ⟨.waiting1, i, sent⟩, r, port, listener, conn, stream⟩ (fun _ => rfl) rfl
        rfl (forall_ne_sender rfl)
  | waiting1 =>
      exact .leaves ⟨b, ⟨.connecting, i, sent⟩, r, port, listener, conn, stream⟩
        (fun _ hcan => if_pos hcan) (fun _ hcan => if_neg hcan) rfl nofun (forall_ne_sender rfl)
  | connecting =>
      cases listener with
      | none =>
          -- `ECONNREFUSED`: nothing changes
          exact .stays ⟨b, ⟨.connecting, i, sent⟩, r, port, none, conn, stream⟩ (fun _ => rfl) rfl
            nofun (forall_ne_sender rfl)
      | some l =>
          exact .stays ⟨b, ⟨.connected, i, sent⟩, r, port, some { l with queue := l.queue ++ [i] },
            conn, stream⟩ (fun _ => rfl) rfl nofun (forall_ne_sender rfl)
  | connected =>
      exact .arrives ⟨b, ⟨.waiting2, i, sent⟩, r, port, listener, conn, stream⟩ (fun _ => rfl) rfl
        rfl (forall_ne_sender rfl)
  | waiting2 =>
      exact .leaves ⟨b, ⟨.sending, i, 0⟩, r, port, listener, conn, stream⟩
        (fun _ hcan => if_pos hcan) (fun _ hcan => if_neg hcan) rfl nofun (forall_ne_sender rfl)
  | sending =>
      let s : State := ⟨b, ⟨.sending, i, sent⟩, r, port, listener, conn, stream⟩
      refine .apart (afterSend s (c.sendTurn i sent (stream i) s.hasReader m))
        (fun b' => afterSend_barrier s b' _) rfl ?_
      intro t ht
      cases hturn : c.sendTurn i sent (stream i) s.hasReader m with
      | blocked =>
          rw [hturn] at ht
          cases ht
      | finished | wrote | noReader =>
          rw [hturn] at ht
          injection ht with ht
          subst ht
          exact ⟨nofun, forall_ne_sender rfl⟩
  | shutting =>
      exact .stays ⟨b, ⟨.sent, i, sent⟩, r, port, listener, conn, stream⟩ (fun _ => rfl) rfl nofun
        (forall_ne_sender rfl)
  | sent =>
      exact .arrives ⟨b, ⟨.waiting3, i, sent⟩, r, port, listener, conn, stream⟩ (fun _ => rfl) rfl
        rfl (forall_ne_sender rfl)
  | waiting3 =>
      exact .leaves ⟨b, ⟨.closing, i, sent⟩, r, port, listener, conn, stream⟩
        (fun _ hcan => if_pos hcan) (fun _ hcan => if_neg hcan) rfl nofun (forall_ne_sender rfl)
  | closing =>
      exact .stays ⟨b, ⟨.ready, i + 1, sent⟩, r, port, listener, conn, stream⟩ (fun _ => rfl) rfl
        nofun (forall_ne_sender rfl)
  | exited | aborted | killed => exact .blocked fun _ => rfl

theorem kind_receiver (s : State) (m : Nat) : (client c).Kind s (.receiver m) := by
  obtain ⟨b, p, ⟨pc, i, total, data⟩, port, listener, conn, stream⟩ := s
  cases pc with
  | ready =>
      by_cases hlt : i < c.total
      · exact .stays ⟨b, p, ⟨.binding, i, total, data⟩, port, listener, conn, stream⟩
          (fun _ => if_pos hlt) rfl nofun (forall_ne_receiver rfl)
      · exact .stays ⟨b, p, ⟨.exited, i, total, data⟩, port, listener, conn, stream⟩
          (fun _ => if_neg hlt) rfl nofun (forall_ne_receiver rfl)
  | binding =>
      cases port with
      | none =>
          exact .stays ⟨b, p, ⟨.listening, i, total, data⟩, some i, listener, conn, stream⟩
            (fun _ => rfl) rfl nofun (forall_ne_receiver rfl)
      | some j =>
          exact .stays ⟨b, p, ⟨.failed, i, total, data⟩, some j, listener, conn, stream⟩
            (fun _ => rfl) rfl nofun (forall_ne_receiver rfl)
  | listening =>
      exact .stays ⟨b, p, ⟨.listened, i, total, data⟩, port, some ⟨i, []⟩, conn, stream⟩
        (fun _ => rfl) rfl nofun (forall_ne_receiver rfl)
  | listened =>
      exact .arrives ⟨b, p, ⟨.waiting1, i, total, data⟩, port, listener, conn, stream⟩
        (fun _ => rfl) rfl rfl (forall_ne_receiver rfl)
  | waiting1 =>
      exact .leaves ⟨b, p, ⟨.accepting, i, total, data⟩, port, listener, conn, stream⟩
        (fun _ hcan => if_pos hcan) (fun _ hcan => if_neg hcan) rfl nofun (forall_ne_receiver rfl)
  | accepting =>
      let s : State := ⟨b, p, ⟨.accepting, i, total, data⟩, port, listener, conn, stream⟩
      refine .apart (accept c s) (fun b' => accept_barrier s b') rfl ?_
      intro t ht
      rcases listener with _ | ⟨k, _ | ⟨j, rest⟩⟩
      · injection ht with ht
        subst ht
        exact ⟨nofun, forall_ne_receiver rfl⟩
      · cases ht
      · injection ht with ht
        subst ht
        exact ⟨nofun, forall_ne_receiver rfl⟩
  | accepted =>
      exact .arrives ⟨b, p, ⟨.waiting2, i, total, data⟩, port, listener, conn, stream⟩
        (fun _ => rfl) rfl rfl (forall_ne_receiver rfl)
  | waiting2 =>
      exact .leaves ⟨b, p, ⟨.receiving, i, 0, data⟩, port, listener, conn, stream⟩
        (fun _ hcan => if_pos hcan) (fun _ hcan => if_neg hcan) rfl nofun (forall_ne_receiver rfl)
  | receiving =>
      cases conn with
      | none =>
          exact .stays ⟨b, p, ⟨.failed, i, total, data⟩, port, listener, none, stream⟩
            (fun _ => rfl) rfl nofun (forall_ne_receiver rfl)
      | some j =>
          let s : State := ⟨b, p, ⟨.receiving, i, total, data⟩, port, listener, some j, stream⟩
          refine .apart (afterReceive s j (c.receiveTurn total [] (stream j) (s.hasWriter j) m))
            (fun b' => afterReceive_barrier s b' j _) rfl ?_
          intro t ht
          cases hturn : c.receiveTurn total [] (stream j) (s.hasWriter j) m with
          | blocked =>
              rw [hturn] at ht
              cases ht
          | finished | endOfFile =>
              rw [hturn] at ht
              injection ht with ht
              subst ht
              exact ⟨nofun, forall_ne_receiver rfl⟩
          | got =>
              rw [hturn] at ht
              dsimp only [afterReceive] at ht
              obtain ⟨_, rfl⟩ | ⟨_, rfl⟩ := System.branch_cases ht
              · exact ⟨nofun, forall_ne_receiver rfl⟩
              · exact ⟨nofun, forall_ne_receiver rfl⟩
  | received =>
      exact .arrives ⟨b, p, ⟨.waiting3, i, total, data⟩, port, listener, conn, stream⟩
        (fun _ => rfl) rfl rfl (forall_ne_receiver rfl)
  | waiting3 =>
      exact .leaves ⟨b, p, ⟨.verifying, i, total, data⟩, port, listener, conn, stream⟩
        (fun _ hcan => if_pos hcan) (fun _ hcan => if_neg hcan) rfl nofun (forall_ne_receiver rfl)
  | verifying =>
      by_cases hgood : verifyDataReceived data c.dataSize = some true
      · exact .stays ⟨b, p, ⟨.closingConn, i, total, data⟩, port, listener, conn, stream⟩
          (fun _ => if_pos hgood) rfl nofun (forall_ne_receiver rfl)
      · exact .stays ⟨b, p, ⟨.aborted, i, total, data⟩, none, none, none, stream⟩
          (fun _ => if_neg hgood) rfl nofun (forall_ne_receiver rfl)
  | closingConn =>
      exact .stays ⟨b, p, ⟨.closingListener, i, total, data⟩, port, listener, none, stream⟩
        (fun _ => rfl) rfl nofun (forall_ne_receiver rfl)
  | closingListener =>
      exact .stays ⟨b, p, ⟨.ready, i + 1, total, data⟩, none, none, conn, stream⟩
        (fun _ => rfl) rfl nofun (forall_ne_receiver rfl)
  | exited | failed | overrun | aborted => exact .blocked fun _ => rfl

/-- **The TCP benchmark uses its barrier as a barrier.** -/
theorem lawful (c : Transfer) : (client c).Lawful where
  barrier_with _ _ := rfl
  with_with _ _ _ := rfl
  with_barrier _ := rfl
  status_with _ _ := by
    funext p
    cases p <;> rfl
  init s hs := by
    rw [show s = State.fresh from hs]
    refine ⟨rfl, fun p => ?_⟩
    cases p <;> nofun
  kind s _ a := by
    cases a with
    | sender m => exact kind_sender s m
    | receiver m => exact kind_receiver s m
  acts p := by
    cases p with
    | sender => exact ⟨.sender 0, rfl⟩
    | receiver => exact ⟨.receiver 0, rfl⟩

theorem SenderPc.entered_of_not_running {pc : SenderPc} (h : pc.isRunning = false) :
    pc.entered = 0 := by
  cases pc with
  | generating | ready | exited | aborted => rfl
  | created | waiting1 | connecting | connected | waiting2 | sending | shutting | sent | waiting3
  | closing | killed => cases h

theorem ReceiverPc.entered_of_not_running {pc : ReceiverPc} (h : pc.isRunning = false) :
    pc.entered = 0 := by
  cases pc with
  | ready | exited => rfl
  | binding | listening | listened | waiting1 | accepting | accepted | waiting2 | receiving
  | received | waiting3 | verifying | closingConn | closingListener | failed | overrun
  | aborted => cases h

/-- Each process crosses its barrier three times per iteration. -/
theorem counted (c : Transfer) : (client c).Counted (c.total * 3) where
  entered_le s hs p := by
    have hsites := (inv_of_reachable hs).sites
    have hentered := hsites.lockstep.entered p
    refine Nat.le_trans (Nat.le_of_eq hentered) ?_
    cases p with
    | sender =>
        exact crossings_le hsites.sender.bound hsites.sender.running
          SenderPc.entered_of_not_running hsites.sender_left_le.2
    | receiver =>
        exact crossings_le hsites.receiver.bound hsites.receiver.running
          ReceiverPc.entered_of_not_running hsites.receiver_left_le.2
  left_eq s hs p hret := by
    have hsites := (inv_of_reachable hs).sites
    have hleft := hsites.lockstep.left p
    refine hleft.trans ?_
    cases p with
    | sender =>
        have hpc : s.sender.pc = .exited := by
          cases hpc : s.sender.pc <;> simp [client, hpc, SenderPc.status] at hret ⊢
        show s.sender.iteration * 3 + s.sender.pc.left = _
        rw [hpc, hsites.sender.exited hpc]
        rfl
    | receiver =>
        have hpc : s.receiver.pc = .exited := by
          cases hpc : s.receiver.pc <;> simp [client, hpc, ReceiverPc.status] at hret ⊢
        show s.receiver.iteration * 3 + s.receiver.pc.left = _
        rw [hpc, hsites.receiver.exited hpc]
        rfl

/-! ## §2. What is left to do. -/

/-- Steps left in the sender's iteration. -/
def Sender.todo (c : Transfer) (p : Sender) : Nat :=
  match p.pc with
  | .generating => c.payload.length + 12
  | .ready => c.payload.length + 11
  | .created => c.payload.length + 10
  | .waiting1 => c.payload.length + 9
  | .connecting => c.payload.length + 8
  | .connected => c.payload.length + 7
  | .waiting2 => c.payload.length + 6
  | .sending => c.payload.length - p.totalSent + 5
  | .shutting => 4
  | .sent => 3
  | .waiting3 => 2
  | .closing => 1
  | .exited | .aborted | .killed => 0

/-- Steps left in the receiver's. -/
def Receiver.todo (c : Transfer) (r : Receiver) : Nat :=
  match r.pc with
  | .ready => c.payload.length + 14
  | .binding => c.payload.length + 13
  | .listening => c.payload.length + 12
  | .listened => c.payload.length + 11
  | .waiting1 => c.payload.length + 10
  | .accepting => c.payload.length + 9
  | .accepted => c.payload.length + 8
  | .waiting2 => c.payload.length + 7
  | .receiving => c.payload.length - r.totalReceived + 6
  | .received => 5
  | .waiting3 => 4
  | .verifying => 3
  | .closingConn => 2
  | .closingListener => 1
  | .exited | .failed | .overrun | .aborted => 0

/-- Steps left to the sender. -/
def Sender.rank (c : Transfer) (p : Sender) : Nat :=
  (c.total - p.iteration) * (c.payload.length + 12) + p.todo c

/-- Steps left to the receiver. -/
def Receiver.rank (c : Transfer) (r : Receiver) : Nat :=
  (c.total - r.iteration) * (c.payload.length + 15) + r.todo c

/-- Steps left. -/
def State.rank (c : Transfer) (s : State) : Nat := s.sender.rank c + s.receiver.rank c

theorem Sender.rank_lt {p p' : Sender} (hiter : p'.iteration = p.iteration)
    (h : p'.todo c < p.todo c) : p'.rank c < p.rank c := by
  unfold Sender.rank
  rw [hiter]
  exact Nat.add_lt_add_left h _

theorem Receiver.rank_lt {r r' : Receiver} (hiter : r'.iteration = r.iteration)
    (h : r'.todo c < r.todo c) : r'.rank c < r.rank c := by
  unfold Receiver.rank
  rw [hiter]
  exact Nat.add_lt_add_left h _

/-- Every move of the sender but a failed `connect()`. -/
theorem SenderMove.rank (h : SenderMove c s s') (hp : SenderLocal c s.sender) (hne : s' ≠ s) :
    s'.sender.rank c < s.sender.rank c := by
  cases h with
  | go hgo =>
      refine Sender.rank_lt rfl ?_
      cases hgo with
      | generate hpc | refuse hpc | begin hpc | exit hpc | finish hpc | shut hpc =>
          simp only [State.senderTo, Sender.todo, hpc]
          omega
  | @arrive pc harrive =>
      refine Sender.rank_lt rfl ?_
      generalize hpc : s.sender.pc = old at harrive
      cases harrive with
      | first | second | third =>
          simp only [State.senderTo, Sender.todo, hpc]
          omega
  | @leave pc hleave =>
      refine Sender.rank_lt rfl ?_
      generalize hpc : s.sender.pc = old at hleave
      cases hleave with
      | first | third =>
          simp only [State.senderTo, Sender.todo, hpc]
          omega
  | retry => exact absurd rfl hne
  | connect hpc =>
      refine Sender.rank_lt rfl ?_
      simp only [State.senderTo, Sender.todo, hpc]
      omega
  | start hpc =>
      refine Sender.rank_lt rfl ?_
      simp only [Sender.todo, hpc]
      omega
  | @send n hpc hle =>
      refine Sender.rank_lt rfl ?_
      simp only [Sender.todo, hpc]
      have hpos : n ≠ 0 := by
        -- a `send` of nothing would have changed nothing
        rintro rfl
        apply hne
        have hnone : slice c.payload s.sender.iteration s.sender.totalSent 0 = [] := rfl
        rw [hnone, List.append_nil, Function.update_eq_self]
        rfl
      omega
  | again hpc =>
      have hlt := hp.running (by rw [hpc]; rfl)
      exact next_round_lt hlt (Nat.lt_succ_self _)

theorem ReceiverMove.rank (h : ReceiverMove c s s') (hr : ReceiverLocal c s.receiver)
    (hbound : s'.receiver.pc = .receiving → s'.receiver.totalReceived ≤ c.payload.length)
    (hne : s' ≠ s) : s'.receiver.rank c < s.receiver.rank c := by
  cases h with
  | go hgo =>
      refine Receiver.rank_lt rfl ?_
      cases hgo with
      | begin hpc | exit hpc | finish hpc | verified hpc =>
          simp only [State.receiverTo, Receiver.todo, hpc]
          omega
  | @arrive pc harrive =>
      refine Receiver.rank_lt rfl ?_
      generalize hpc : s.receiver.pc = old at harrive
      cases harrive with
      | first | second | third =>
          simp only [State.receiverTo, Receiver.todo, hpc]
          omega
  | @leave pc hleave =>
      refine Receiver.rank_lt rfl ?_
      generalize hpc : s.receiver.pc = old at hleave
      cases hleave with
      | first | third =>
          simp only [State.receiverTo, Receiver.todo, hpc]
          omega
  | bind hpc | listen hpc | closeConn hpc | reject hpc =>
      refine Receiver.rank_lt rfl ?_
      simp only [State.receiverTo, Receiver.todo, hpc]
      omega
  | accept hpc | start hpc =>
      refine Receiver.rank_lt rfl ?_
      simp only [Receiver.todo, hpc]
      omega
  | @receive j n hpc hconn hle =>
      have hle' : s.receiver.totalReceived + n ≤ c.payload.length := hbound hpc
      refine Receiver.rank_lt rfl ?_
      simp only [Receiver.todo, hpc]
      have hpos : n ≠ 0 := by
        rintro rfl
        apply hne
        have hsame : overwrite s.receiver.receivedData s.receiver.totalReceived
            (untag ((s.stream j).take 0)) = s.receiver.receivedData := overwrite_nil _ _
        rw [hsame, List.drop_zero, Function.update_eq_self]
        rfl
      omega
  | again hpc =>
      have hlt := hr.running (by rw [hpc]; rfl)
      exact next_round_lt hlt (Nat.lt_succ_self _)

theorem ranked (c : Transfer) : (system c).Ranked (State.rank c) := by
  intro s a s' hreach hs hne
  have hinv := inv_of_reachable hreach
  unfold State.rank
  cases a with
  | sender m =>
      have hmove := senderStep_move hinv.calls hs
      rw [hmove.receiver_eq]
      exact Nat.add_lt_add_right (hmove.rank hinv.sites.sender hne) _
  | receiver m =>
      have hmove := receiverStep_move hinv.calls hs
      have hbound := (inv_of_reachable (hreach.tail trivial hs)).flow.bound
      rw [hmove.sender_eq]
      refine Nat.add_lt_add_left (hmove.rank hinv.sites.receiver (fun hpc => ?_) hne) _
      rwa [Receiver.taken_of_taking (by rw [hpc]; rfl)] at hbound

/-! ## §3. The whole benchmark. -/

/-- A payload that verifies is all the protocol needs to come to its end. -/
theorem protocol (hgood : verifyDataReceived c.payload c.dataSize = some true) :
    Protocol (client c) (c.total * 3) (State.rank c) where
  lawful := lawful c
  counted := counted c
  ranked := ranked c
  progress s hreach hmore := by
    have hinv := inv_of_reachable hreach
    refine hinv.progress hgood ?_
    rintro ⟨hse, hre⟩
    refine hmore fun p => ?_
    cases p with
    | sender =>
        show s.sender.pc.status = _
        rw [hse]
        rfl
    | receiver =>
        show s.receiver.pc.status = _
        rw [hre]
        rfl

/-- What holds of the processes at every moment. -/
structure Undisturbed (c : Transfer) (s : State) : Prop where
  /-- `GenerateDataToSend` succeeds. -/
  generated : s.sender.pc ≠ .aborted
  /-- No call fails, and no `memcpy` leaves `received_data`. -/
  alive : s.sender.pc ≠ .killed ∧ s.receiver.pc ≠ .failed ∧ s.receiver.pc ≠ .overrun
  /-- No verification fails. -/
  verified : s.receiver.pc ≠ .aborted
  /-- What is verified is what was sent. -/
  whole : s.receiver.pc = .verifying → s.receiver.receivedData = c.payload

theorem Inv.undisturbed (h : Inv c s)
    (hgood : verifyDataReceived c.payload c.dataSize = some true) : Undisturbed c s where
  generated := not_refused_of_verified h.sites.sender.refused hgood
  alive := ⟨h.sites.sender.alive, h.sites.receiver.alive⟩
  verified habort := h.verdict habort hgood
  whole hpc := (h.delivered (by rw [hpc]; rfl)).2

/-- **The TCP benchmark, run over `SenseReversingBarrier`**: with generated
data and at least one iteration, however the constructors, the sections of
`Wait()`, the calls on the sockets, partial sends and receives and the
destructors of the two processes interleave, no call fails and nobody aborts,
only whole frames are verified, and every weakly fair run ends with both
processes returned, three calls of `Wait()` per iteration made, and neither
name of the barrier left. -/
theorem tcp_benchmark (c : Transfer) (draws : Nat → UInt64) (hsize : checksumSize < c.dataSize)
    (hword : c.dataSize < wordSize) (hdata : generateDataToSend draws c.dataSize = some c.payload)
    (hpos : 1 ≤ c.total) :
    (∀ x, (processes (client c)).Reachable x → Undisturbed c x.1) ∧
      ∀ r : (processes (client c)).Behaviour, r.WeaklyFair (client c).owner →
        ∃ i, ∀ j, i ≤ j → Completed (client c) (c.total * 3) (r.state j) := by
  have hgood := verified_of_generated hsize hword hdata
  refine ⟨fun x hx => ?_, (protocol hgood).completes (by omega)⟩
  have hinv := inv_of_reachable (Benchmark.refines (lawful c) (counted c) hx)
  have h := hinv.undisturbed hgood
  exact ⟨h.generated, h.alive, h.verified, h.whole⟩

theorem tcp_benchmark_nine :
    ∃ (c : Transfer) (r : (processes (client c)).Behaviour), c.dataSize = 137 ∧
      (∀ i, Undisturbed c (r.state i).1) ∧
      ∃ i, ∀ j, i ≤ j → Completed (client c) 6 (r.state j) := by
  have hsize : checksumSize < 137 := by decide
  have hword : 137 < wordSize := by decide
  obtain ⟨data, hgen, hlen, hgood⟩ := exists_generated UInt64.ofNat hsize hword
  let c : Transfer := ⟨2, 137, 64, data, 100, hlen, by decide, by decide⟩
  obtain ⟨r, hfair⟩ := (protocol (c := c) hgood).exists_weaklyFair (s := State.fresh) rfl
  obtain ⟨hall, hend⟩ := tcp_benchmark c UInt64.ofNat hsize hword hgen (Nat.le_succ 1)
  exact ⟨c, r, rfl, fun i => hall _ (r.reachable i), hend r hfair⟩

end Akbench.Tcp
