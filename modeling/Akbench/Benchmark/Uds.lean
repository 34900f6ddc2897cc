/-
  Akbench.Benchmark.Uds
  ─────────────────────
  **`RunUdsBandwidthBenchmark`, FROM `fork()` TO THE LAST DESTRUCTOR.**

  `Akbench.Uds` over `SenseReversingBarrier` itself, with two calls of
  `Wait()` per iteration and process.  This session can get stuck
  (`Akbench.Uds.Deadlock`), so its fair runs end in one of two ways, and which
  of the two it is depends on one kind of step alone.

    • `bounded` — what the class and the sockets ask of each other;
    • `doomed_iff` — a sender is orphaned exactly by a `connect()` to the
      listening socket of an earlier iteration;
    • `uds_benchmark` — no call fails, every frame is whole, and every weakly
      fair run comes to rest: with both processes returned and the barrier's
      names unlinked if there was no such `connect()`, else with the receiver
      in `accept()` and the sender in `Wait()`.
-/
import Akbench.Benchmark.Processes
import Akbench.Uds.Deadlock
import Akbench.Common.Generate

namespace Akbench.Uds

open Framing (slice untag)
open Client.Status (running_ne returned_ne)
open Benchmark (crossings_le Bounded Completed processes protocolState forall_ne_sender
  forall_ne_receiver)

variable {c : Transfer} {s s' : State} {m : Nat}

/-! ## §1. The processes as users of a barrier. -/

def SenderPc.status : SenderPc → Client.Status
  | .waiting1 | .waiting2 => .calling
  | .exited => .returned
  | .generating | .ready | .connecting | .connected | .sending | .sent | .closing | .aborted
  | .killed => .running

def ReceiverPc.status : ReceiverPc → Client.Status
  | .waiting1 | .waiting2 => .calling
  | .exited => .returned
  | .ready | .removing | .binding | .listening | .accepting | .accepted | .receiving | .received
  | .closingConn | .closingListener | .unlinking | .verifying | .failed | .aborted => .running

def client (c : Transfer) : Client Side State Act where
  system := system c
  owner
    | .sender _ => .sender
    | .receiver _ => .receiver
  barrier := State.barrier
  withBarrier s b := { s with barrier := b }
  status s
    | .sender => s.sender.pc.status
    | .receiver => s.receiver.pc.status

theorem afterSend_barrier (s : State) (b : Rendezvous Side) (t : SendTurn) :
    afterSend { s with barrier := b } t =
      (afterSend s t).map fun s => { s with barrier := b } := by
  cases t <;> rfl

theorem afterReceive_barrier (s : State) (b : Rendezvous Side) (j : Nat) (t : ReceiveTurn) :
    afterReceive { s with barrier := b } j t =
      (afterReceive s j t).map fun s => { s with barrier := b } := by
  cases t <;> rfl

theorem accept_barrier (s : State) (b : Rendezvous Side) :
    accept { s with barrier := b } = (accept s).map fun s => { s with barrier := b } := by
  obtain ⟨_, p, r, path, listener, conn, stream⟩ := s
  rcases listener with _ | ⟨k, _ | j⟩ <;> rfl

theorem connect_barrier (s : State) (b : Rendezvous Side) :
    State.connect { s with barrier := b } =
      s.connect.map fun s => { s with barrier := b } := by
  obtain ⟨_, p, r, path, listener, conn, stream⟩ := s
  rcases path with _ | k
  · rfl
  · rcases listener with _ | l
    · rfl
    · dsimp only [State.connect]
      split <;> rfl

theorem senderStep_connecting (hpc : s.sender.pc = .connecting) :
    senderStep c s m = some (s.connect.getD s) := by
  unfold senderStep
  rw [hpc]
  dsimp only
  cases s.connect <;> rfl

theorem receiverStep_verifying (hpc : s.receiver.pc = .verifying) :
    receiverStep c s m = some ((verifyDataReceived s.receiver.readData c.dataSize).elim
      (s.receiverTo .aborted) fun _ => { s with receiver :=
        { s.receiver with pc := .ready, iteration := s.receiver.iteration + 1 } }) := by
  unfold receiverStep
  rw [hpc]
  dsimp only
  cases verifyDataReceived s.receiver.readData c.dataSize <;> rfl

theorem kind_sender (s : State) (m : Nat) : (client c).Kind s (.sender m) := by
  obtain ⟨b, ⟨pc, i, sent⟩, r, path, listener, conn, stream⟩ := s
  cases pc with
  | generating =>
      by_cases hsize : checksumSize < c.dataSize
      · exact .stays ⟨b, ⟨.ready, i, sent⟩, r, path, listener, conn, stream⟩
          (fun _ => if_pos hsize) rfl running_ne (forall_ne_sender rfl)
      · exact .stays ⟨b, ⟨.aborted, i, sent⟩, r, path, listener, conn, stream⟩
          (fun _ => if_neg hsize) rfl running_ne (forall_ne_sender rfl)
  | ready =>
      by_cases hlt : i < c.total
      · exact .stays ⟨b, ⟨.connecting, i, sent⟩, r, path, listener, conn, stream⟩
          (fun _ => if_pos hlt) rfl running_ne (forall_ne_sender rfl)
      · exact .stays ⟨b, ⟨.exited, i, sent⟩, r, path, listener, conn, stream⟩
          (fun _ => if_neg hlt) rfl returned_ne (forall_ne_sender rfl)
  | connecting =>
      let s : State := ⟨b, ⟨.connecting, i, sent⟩, r, path, listener, conn, stream⟩
      have hconnect := connect_barrier s
      cases hs : s.connect with
      | none =>
          -- `ENOENT` or `ECONNREFUSED`: nothing changes
          refine .stays s (fun b' => ?_) rfl running_ne (forall_ne_sender rfl)
          have hstep := senderStep_connecting (c := c) (m := m) (s := { s with barrier := b' }) rfl
          rw [hconnect, hs] at hstep
          exact hstep
      | some t =>
          obtain ⟨l, _, _, _, rfl⟩ := connect_eq_some hs
          refine .stays ⟨b, ⟨.connected, i, sent⟩, r, path, some { l with queue := some i }, conn,
            stream⟩ (fun b' => ?_) rfl running_ne (forall_ne_sender rfl)
          have hstep := senderStep_connecting (c := c) (m := m) (s := { s with barrier := b' }) rfl
          rw [hconnect, hs] at hstep
          exact hstep
  | connected =>
      exact .arrives ⟨b, ⟨.waiting1, i, sent⟩, r, path, listener, conn, stream⟩ (fun _ => rfl) rfl
        rfl (forall_ne_sender rfl)
  | waiting1 =>
      exact .leaves ⟨b, ⟨.sending, i, 0⟩, r, path, listener, conn, stream⟩
        (fun _ hcan => if_pos hcan) (fun _ hcan => if_neg hcan) rfl running_ne (forall_ne_sender rfl)
  | sending =>
      let s : State := ⟨b, ⟨.sending, i, sent⟩, r, path, listener, conn, stream⟩
      refine .apart (afterSend s (c.sendTurn i sent (stream i) s.hasReader m))
        (fun b' => afterSend_barrier s b' _) rfl ?_
      intro t ht
      cases hturn : c.sendTurn i sent (stream i) s.hasReader m with
      | blocked =>
          rw [hturn] at ht
          cases ht
      | finished | wrote | noReader =>
          rw [hturn] at ht
          injection ht with ht
          subst ht
          exact ⟨running_ne, forall_ne_sender rfl⟩
  | sent =>
      exact .arrives ⟨b, ⟨.waiting2, i, sent⟩, r, path, listener, conn, stream⟩ (fun _ => rfl) rfl
        rfl (forall_ne_sender rfl)
  | waiting2 =>
      exact .leaves ⟨b, ⟨.closing, i, sent⟩, r, path, listener, conn, stream⟩
        (fun _ hcan => if_pos hcan) (fun _ hcan => if_neg hcan) rfl running_ne (forall_ne_sender rfl)
  | closing =>
      exact .stays ⟨b, ⟨.ready, i + 1, sent⟩, r, path, listener, conn, stream⟩ (fun _ => rfl) rfl
        running_ne (forall_ne_sender rfl)
  | exited | aborted | killed => exact .blocked fun _ => rfl

theorem kind_receiver (s : State) (m : Nat) : (client c).Kind s (.receiver m) := by
  obtain ⟨b, p, ⟨pc, i, total, data⟩, path, listener, conn, stream⟩ := s
  cases pc with
  | ready =>
      by_cases hlt : i < c.total
      · exact .stays ⟨b, p, ⟨.removing, i, total, data⟩, path, listener, conn, stream⟩
          (fun _ => if_pos hlt) rfl running_ne (forall_ne_receiver rfl)
      · exact .stays ⟨b, p, ⟨.exited, i, total, data⟩, path, listener, conn, stream⟩
          (fun _ => if_neg hlt) rfl returned_ne (forall_ne_receiver rfl)
  | removing =>
      exact .stays ⟨b, p, ⟨.binding, i, total, data⟩, none, listener, conn, stream⟩
        (fun _ => rfl) rfl running_ne (forall_ne_receiver rfl)
  | binding =>
      cases path with
      | none =>
          exact .stays ⟨b, p, ⟨.listening, i, total, data⟩, some i, listener, conn, stream⟩
            (fun _ => rfl) rfl running_ne (forall_ne_receiver rfl)
      | some j =>
          exact .stays ⟨b, p, ⟨.failed, i, total, data⟩, some j, listener, conn, stream⟩
            (fun _ => rfl) rfl running_ne (forall_ne_receiver rfl)
  | listening =>
      exact .stays ⟨b, p, ⟨.accepting, i, total, data⟩, path, some ⟨i, none⟩, conn, stream⟩
        (fun _ => rfl) rfl running_ne (forall_ne_receiver rfl)
  | accepting =>
      let s : State := ⟨b, p, ⟨.accepting, i, total, data⟩, path, listener, conn, stream⟩
      refine .apart (accept s) (fun b' => accept_barrier s b') rfl ?_
      intro t ht
      rcases listener with _ | ⟨k, _ | j⟩
      · injection ht with ht
        subst ht
        exact ⟨running_ne, forall_ne_receiver rfl⟩
      · cases ht
      · injection ht with ht
        subst ht
        exact ⟨running_ne, forall_ne_receiver rfl⟩
  | accepted =>
      exact .arrives ⟨b, p, ⟨.waiting1, i, total, data⟩, path, listener, conn, stream⟩
        (fun _ => rfl) rfl rfl (forall_ne_receiver rfl)
  | waiting1 =>
      exact .leaves ⟨b, p, ⟨.receiving, i, 0, data⟩, path, listener, conn, stream⟩
        (fun _ hcan => if_pos hcan) (fun _ hcan => if_neg hcan) rfl running_ne
        (forall_ne_receiver rfl)
  | receiving =>
      cases conn with
      | none =>
          exact .stays ⟨b, p, ⟨.failed, i, total, data⟩, path, listener, none, stream⟩
            (fun _ => rfl) rfl running_ne (forall_ne_receiver rfl)
      | some j =>
          let s : State := ⟨b, p, ⟨.receiving, i, total, data⟩, path, listener, some j, stream⟩
          refine .apart (afterReceive s j
              (c.receiveTurn total (data.take total) (stream j) s.hasWriter m))
            (fun b' => afterReceive_barrier s b' j _) rfl ?_
          intro t ht
          cases hturn : c.receiveTurn total (data.take total) (stream j) s.hasWriter m with
          | blocked =>
              rw [hturn] at ht
              cases ht
          | finished | endOfFile | got =>
              rw [hturn] at ht
              injection ht with ht
              subst ht
              exact ⟨running_ne, forall_ne_receiver rfl⟩
  | received =>
      exact .arrives ⟨b, p, ⟨.waiting2, i, total, data⟩, path, listener, conn, stream⟩
        (fun _ => rfl) rfl rfl (forall_ne_receiver rfl)
  | waiting2 =>
      exact .leaves ⟨b, p, ⟨.closingConn, i, total, data⟩, path, listener, conn, stream⟩
        (fun _ hcan => if_pos hcan) (fun _ hcan => if_neg hcan) rfl running_ne
        (forall_ne_receiver rfl)
  | closingConn =>
      exact .stays ⟨b, p, ⟨.closingListener, i, total, data⟩, path, listener, none, stream⟩
        (fun _ => rfl) rfl running_ne (forall_ne_receiver rfl)
  | closingListener =>
      exact .stays ⟨b, p, ⟨.unlinking, i, total, data⟩, path, none, conn, stream⟩
        (fun _ => rfl) rfl running_ne (forall_ne_receiver rfl)
  | unlinking =>
      exact .stays ⟨b, p, ⟨.verifying, i, total, data⟩, none, listener, conn, stream⟩
        (fun _ => rfl) rfl running_ne (forall_ne_receiver rfl)
  | verifying =>
      have hstep := fun b' => receiverStep_verifying (c := c) (m := m)
        (s := ⟨b', p, ⟨.verifying, i, total, data⟩, path, listener, conn, stream⟩) rfl
      cases hv : verifyDataReceived data c.dataSize with
      | none =>
          refine .stays ⟨b, p, ⟨.aborted, i, total, data⟩, path, listener, conn, stream⟩
            (fun b' => (hstep b').trans ?_) rfl running_ne (forall_ne_receiver rfl)
          show some (Option.elim (verifyDataReceived data c.dataSize) _ _) = _
          rw [hv]
          rfl
      | some verdict =>
          refine .stays ⟨b, p, ⟨.ready, i + 1, total, data⟩, path, listener, conn, stream⟩
            (fun b' => (hstep b').trans ?_) rfl running_ne (forall_ne_receiver rfl)
          show some (Option.elim (verifyDataReceived data c.dataSize) _ _) = _
          rw [hv]
          rfl
  | exited | failed | aborted => exact .blocked fun _ => rfl

/-- **The UDS benchmark uses its barrier as a barrier.** -/
theorem lawful (c : Transfer) : (client c).Lawful where
  barrier_with _ _ := rfl
  with_with _ _ _ := rfl
  with_barrier _ := rfl
  status_with _ _ := by
    funext p
    cases p <;> rfl
  init s hs := by
    rw [show s = State.fresh c from hs]
    refine ⟨rfl, fun p => ?_⟩
    cases p <;> nofun
  kind s _ a := by
    cases a with
    | sender m => exact kind_sender s m
    | receiver m => exact kind_receiver s m
  acts p := by
    cases p with
    | sender => exact ⟨.sender 0, rfl⟩
    | receiver => exact ⟨.receiver 0, rfl⟩

theorem SenderPc.entered_of_not_running {pc : SenderPc} (halive : pc ≠ .killed)
    (h : pc.isRunning = false) : pc.entered = 0 := by
  cases pc with
  | generating | ready | exited | aborted => rfl
  | killed => exact absurd rfl halive
  | connecting | connected | waiting1 | sending | sent | waiting2 | closing => cases h

theorem ReceiverPc.entered_of_not_running {pc : ReceiverPc} (h : pc.isRunning = false) :
    pc.entered = 0 := by
  cases pc with
  | ready | exited | failed => rfl
  | removing | binding | listening | accepting | accepted | waiting1 | receiving | received
  | waiting2 | closingConn | closingListener | unlinking | verifying | aborted => cases h

/-- Each process crosses its barrier twice per iteration. -/
theorem counted (c : Transfer) : (client c).Counted (c.total * 2) where
  entered_le s hs p := by
    have hsites := (inv_of_reachable hs).sites
    have hentered := hsites.lockstep.entered p
    have hle := hsites.lockstep.entered_le p
    refine Nat.le_trans (Nat.le_of_eq hentered) ?_
    cases p with
    | sender =>
        exact crossings_le hsites.sender.bound hsites.sender.running
          (SenderPc.entered_of_not_running hsites.sender.alive) hle
    | receiver =>
        exact crossings_le hsites.receiver.bound hsites.receiver.running
          ReceiverPc.entered_of_not_running hle
  left_eq s hs p hret := by
    have hsites := (inv_of_reachable hs).sites
    have hleft := hsites.lockstep.left p
    refine hleft.trans ?_
    cases p with
    | sender =>
        have hpc : s.sender.pc = .exited := by
          cases hpc : s.sender.pc <;> simp [client, hpc, SenderPc.status] at hret ⊢
        show s.sender.iteration * 2 + s.sender.pc.left = _
        rw [hpc, hsites.sender.exited hpc]
        rfl
    | receiver =>
        have hpc : s.receiver.pc = .exited := by
          cases hpc : s.receiver.pc <;> simp [client, hpc, ReceiverPc.status] at hret ⊢
        show s.receiver.iteration * 2 + s.receiver.pc.left = _
        rw [hpc, hsites.receiver.exited hpc]
        rfl

/-! ## §2. What is left to do. -/

/-- Steps left in the sender's iteration. -/
def Sender.todo (c : Transfer) (p : Sender) : Nat :=
  match p.pc with
  | .generating => c.payload.length + 10
  | .ready => c.payload.length + 9
  | .connecting => c.payload.length + 8
  | .connected => c.payload.length + 7
  | .waiting1 => c.payload.length + 6
  | .sending => c.payload.length - p.totalSent + 5
  | .sent => 4
  | .waiting2 => 3
  | .closing => 2
  | .exited | .aborted | .killed => 0

/-- Steps left in the receiver's. -/
def Receiver.todo (c : Transfer) (r : Receiver) : Nat :=
  match r.pc with
  | .ready => c.payload.length + 15
  | .removing => c.payload.length + 14
  | .binding => c.payload.length + 13
  | .listening => c.payload.length + 12
  | .accepting => c.payload.length + 11
  | .accepted => c.payload.length + 10
  | .waiting1 => c.payload.length + 9
  | .receiving => c.payload.length - r.totalReceived + 8
  | .received => 7
  | .waiting2 => 6
  | .closingConn => 5
  | .closingListener => 4
  | .unlinking => 3
  | .verifying => 2
  | .exited | .failed | .aborted => 0

/-- Steps left to the sender. -/
def Sender.rankOf (c : Transfer) (p : Sender) : Nat :=
  (c.total - p.iteration) * (c.payload.length + 10) + p.todo c

/-- Steps left to the receiver. -/
def Receiver.rankOf (c : Transfer) (r : Receiver) : Nat :=
  (c.total - r.iteration) * (c.payload.length + 16) + r.todo c

/-- Steps left. -/
def State.rankOf (c : Transfer) (s : State) : Nat := s.sender.rankOf c + s.receiver.rankOf c

theorem Sender.rankOf_lt {p p' : Sender} (hiter : p'.iteration = p.iteration)
    (h : p'.todo c < p.todo c) : p'.rankOf c < p.rankOf c := by
  unfold Sender.rankOf
  rw [hiter]
  exact Nat.add_lt_add_left h _

theorem Receiver.rankOf_lt {r r' : Receiver} (hiter : r'.iteration = r.iteration)
    (h : r'.todo c < r.todo c) : r'.rankOf c < r.rankOf c := by
  unfold Receiver.rankOf
  rw [hiter]
  exact Nat.add_lt_add_left h _

/-- Every move of the sender but a failed `connect()`. -/
theorem SenderMove.rank (h : SenderMove c s s') (hp : SenderLocal c s.sender) (hne : s' ≠ s) :
    s'.sender.rankOf c < s.sender.rankOf c := by
  cases h with
  | go hgo =>
      refine Sender.rankOf_lt rfl ?_
      cases hgo with
      | generated hpc | rejected hpc | begin hpc | exit hpc | finish hpc =>
          simp only [State.senderTo, Sender.todo, hpc]
          omega
  | retry => exact absurd rfl hne
  | connect hpc | arrive1 hpc | arrive2 hpc | leave2 hpc =>
      refine Sender.rankOf_lt rfl ?_
      simp only [State.senderTo, Sender.todo, hpc]
      omega
  | leave1 hpc =>
      refine Sender.rankOf_lt rfl ?_
      simp only [Sender.todo, hpc]
      omega
  | @send n hpc hle =>
      refine Sender.rankOf_lt rfl ?_
      simp only [Sender.todo, hpc]
      have hpos : n ≠ 0 := by
        -- a `send` of nothing would have changed nothing
        rintro rfl
        apply hne
        have hnone : slice c.payload s.sender.iteration s.sender.totalSent 0 = [] := rfl
        rw [hnone, List.append_nil, Function.update_eq_self]
        rfl
      omega
  | again hpc =>
      have hlt := hp.running (by rw [hpc]; rfl)
      exact next_round_lt hlt (Nat.lt_succ_self _)

theorem ReceiverMove.rank (h : ReceiverMove c s s') (hr : ReceiverLocal c s.receiver)
    (hbound : s'.receiver.pc = .receiving → s'.receiver.totalReceived ≤ c.payload.length)
    (hne : s' ≠ s) : s'.receiver.rankOf c < s.receiver.rankOf c := by
  cases h with
  | go hgo =>
      refine Receiver.rankOf_lt rfl ?_
      cases hgo with
      | begin hpc | exit hpc | finish hpc | rejected hpc =>
          simp only [State.receiverTo, Receiver.todo, hpc]
          omega
  | remove hpc | bind hpc | listen hpc | accept hpc | arrive1 hpc | arrive2 hpc | leave2 hpc
  | closeConn hpc | closeListener hpc | unlink hpc =>
      refine Receiver.rankOf_lt rfl ?_
      simp only [State.receiverTo, Receiver.todo, hpc]
      omega
  | leave1 hpc =>
      refine Receiver.rankOf_lt rfl ?_
      simp only [Receiver.todo, hpc]
      omega
  | @receive j n hpc hconn hle =>
      have hle' : s.receiver.totalReceived + n ≤ c.payload.length := hbound hpc
      refine Receiver.rankOf_lt rfl ?_
      simp only [Receiver.todo, hpc]
      have hpos : n ≠ 0 := by
        rintro rfl
        apply hne
        have hsame : s.receiver.readData.take s.receiver.totalReceived ++
            untag ((s.stream j).take 0) ++
            s.receiver.readData.drop (s.receiver.totalReceived + 0) = s.receiver.readData := by
          rw [List.take_zero]
          show _ ++ [] ++ _ = _
          rw [List.append_nil, Nat.add_zero, List.take_append_drop]
        rw [hsame, List.drop_zero, Function.update_eq_self]
        rfl
      omega
  | again hpc =>
      have hlt := hr.running (by rw [hpc]; rfl)
      exact next_round_lt hlt (Nat.lt_succ_self _)

theorem ranked (c : Transfer) : (system c).Ranked (State.rankOf c) := by
  intro s a s' hreach hs hne
  have hinv := inv_of_reachable hreach
  unfold State.rankOf
  cases a with
  | sender m =>
      have hmove := senderStep_move hinv.calls hs
      rw [hmove.receiver_eq]
      exact Nat.add_lt_add_right (hmove.rank hinv.sites.sender hne) _
  | receiver m =>
      have hmove := receiverStep_move hinv.calls hs
      have hinv' := inv_of_reachable (hreach.tail trivial hs)
      rw [hmove.sender_eq]
      refine Nat.add_lt_add_left (hmove.rank hinv.sites.receiver (fun hpc => ?_) hne) _
      -- nobody receives more than has been sent
      have hle := hinv'.flow.taken_le (hinv'.of_receiving hpc).1
      rw [Receiver.taken_of_taking (by rw [hpc]; rfl)] at hle
      exact Nat.le_trans hle hinv'.sites.sender.sentBytes_le

theorem bounded (c : Transfer) : Bounded (client c) (c.total * 2) (State.rankOf c) :=
  ⟨lawful c, counted c, ranked c⟩

/-! ## §3. The step that decides. -/

/-- The sender has just made a `connect()` to the listening socket of an
earlier iteration. -/
def LateConnect (s s' : State) : Prop :=
  s.ListenerStale ∧ s'.sender.pc = .connected

/-- **A sender is orphaned by such a step, and by no other.** -/
theorem doomed_iff (v : (system c).Behaviour) (i : Nat) :
    (v.state i).Doomed ↔ ∃ j, j < i ∧ LateConnect (v.state j) (v.state (j + 1)) := by
  induction i with
  | zero =>
      rw [show v.state 0 = State.fresh c from v.start]
      constructor
      · intro hdoomed
        cases hdoomed.1
      · rintro ⟨j, hj, _⟩
        exact absurd hj (Nat.not_lt_zero j)
  | succ i ih =>
      have hinv := inv_of_reachable (v.reachable i)
      have hearlier : (∃ j, j < i ∧ LateConnect (v.state j) (v.state (j + 1))) →
          ∃ j, j < i + 1 ∧ LateConnect (v.state j) (v.state (j + 1)) := by
        rintro ⟨j, hj, hlate⟩
        exact ⟨j, Nat.lt_succ_of_lt hj, hlate⟩
      have hsplit : (∃ j, j < i + 1 ∧ LateConnect (v.state j) (v.state (j + 1))) →
          (v.state i).Doomed ∨ LateConnect (v.state i) (v.state (i + 1)) := by
        rintro ⟨j, hj, hlate⟩
        rcases Nat.lt_succ_iff_lt_or_eq.mp hj with hlt | rfl
        · exact .inl (ih.mpr ⟨j, hlt, hlate⟩)
        · exact .inr hlate
      rcases v.next i with hsame | ⟨a, ha⟩
      · rw [hsame]
        refine ih.trans ⟨hearlier, fun hex => ?_⟩
        rcases hsplit hex with hdoomed | ⟨⟨hpc, _⟩, hpc'⟩
        · exact ih.mp hdoomed
        · rw [hsame, hpc] at hpc'
          cases hpc'
      · have hs : step c (v.state i) a = some (v.state (i + 1)) := ha
        constructor
        · intro hdoomed
          by_cases hbefore : (v.state i).Doomed
          · exact hearlier (ih.mp hbefore)
          by_cases htimely : Timely (v.state i) a
          · exact absurd hdoomed (hinv.not_doomed hbefore htimely hs)
          cases a with
          | receiver m => exact absurd trivial htimely
          | sender m =>
              -- such a `connect()` succeeds
              have hstale : (v.state i).ListenerStale := Classical.not_not.mp htimely
              obtain ⟨hpc, l, hl, _⟩ := hstale
              have hconnect := senderStep_connect (c := c) (m := m) hpc (hinv.connect hpc hl)
              rw [show senderStep c (v.state i) m = some (v.state (i + 1)) from hs] at hconnect
              injection hconnect with hconnect
              exact ⟨i, Nat.lt_succ_self i, Classical.not_not.mp htimely, by rw [hconnect]; rfl⟩
        · intro hex
          rcases hsplit hex with hbefore | ⟨hstale, hpc'⟩
          · exact hbefore.step hinv hs
          · cases a with
            | sender m => exact hinv.doomed_of_stale hstale hs
            | receiver m =>
                have hmove := receiverStep_move hinv.calls hs
                rw [hmove.sender_eq, hstale.1] at hpc'
                cases hpc'

/-! ## §4. The whole benchmark. -/

/-- What holds of the processes at every moment. -/
structure Undisturbed (c : Transfer) (s : State) : Prop where
  /-- No call fails. -/
  alive : s.sender.pc ≠ .killed ∧ s.receiver.pc ≠ .failed
  /-- Neither `GenerateDataToSend` nor `VerifyDataReceived` aborts. -/
  accepted : s.sender.pc ≠ .aborted ∧ s.receiver.pc ≠ .aborted
  /-- The connection is one the sender opened in the receiver's iteration. -/
  paired : s.Paired
  /-- What is verified is what was sent. -/
  whole : s.receiver.pc = .verifying → s.receiver.readData = c.payload

theorem Inv.undisturbed (h : Inv c s) (hsize : checksumSize < c.dataSize) :
    Undisturbed c s where
  alive := ⟨h.sites.sender.alive, h.sites.receiver.alive⟩
  accepted := by
    constructor
    · intro hpc
      have hle := h.sites.sender.rejected hpc
      omega
    · intro hpc
      have hle := h.sites.receiver.rejected hpc
      omega
  paired := h.paired
  whole := h.delivered

/-- The receiver waits for a connection, the sender for the receiver. -/
structure Halted (s : State) : Prop where
  sender : s.sender.pc = .waiting1
  receiver : s.receiver.pc = .accepting

/-- **An orphan that has come to rest.** -/
theorem State.Doomed.rest (h : s.Doomed) (hinv : Inv c s) (hstuck : ¬ (system c).CanProgress s) :
    Halted s where
  sender := by
    cases hpc : s.sender.pc with
    | waiting1 => rfl
    | connected => exact absurd (canProgress_of_sender_free (by rw [hpc]; rfl)) hstuck
    | generating | ready | connecting | sending | sent | waiting2 | closing | exited | aborted
    | killed =>
        have hheld := h.1
        rw [hpc] at hheld
        cases hheld
  receiver := by
    by_contra hpc
    obtain ⟨s', hs, _, hlt⟩ := h.receiver_nearer hinv hpc
    refine hstuck (canProgress_of_receiver hs fun heq => ?_)
    rw [heq] at hlt
    exact Nat.lt_irrefl _ hlt

theorem returned_iff (s : State) : (∀ p, (client c).status s p = .returned) ↔ s.Finished := by
  have hsender : s.sender.pc.status = .returned ↔ s.sender.pc = .exited := by
    cases s.sender.pc <;> simp [SenderPc.status]
  have hreceiver : s.receiver.pc.status = .returned ↔ s.receiver.pc = .exited := by
    cases s.receiver.pc <;> simp [ReceiverPc.status]
  constructor
  · intro hall
    exact ⟨hsender.mp (hall .sender), hreceiver.mp (hall .receiver)⟩
  · rintro ⟨hs, hr⟩ p
    cases p with
    | sender => exact hsender.mpr hs
    | receiver => exact hreceiver.mpr hr

/-- **The UDS benchmark, run over `SenseReversingBarrier`**: with a size that
`GenerateDataToSend` accepts and at least one iteration, however the
constructors, the sections of `Wait()`, the calls on the sockets and the
destructors interleave, no call fails, nobody aborts, and what is verified is
the frame.  Every weakly fair run comes to rest: completed exactly if no
`connect()` met the listening socket of an earlier iteration, and otherwise
with the receiver in `accept()` and the sender in `Wait()`. -/
theorem uds_benchmark (c : Transfer) (hsize : checksumSize < c.dataSize) (hpos : 1 ≤ c.total) :
    (∀ x, (processes (client c)).Reachable x → Undisturbed c x.1) ∧
      ∀ r : (processes (client c)).Behaviour, r.WeaklyFair (client c).owner →
        ∃ i, (∀ j, i ≤ j → r.state j = r.state i) ∧
          (Completed (client c) (c.total * 2) (r.state i) ↔
            ∀ j, ¬ LateConnect (r.state j).1 (r.state (j + 1)).1) ∧
          (¬ Completed (client c) (c.total * 2) (r.state i) → Halted (r.state i).1) := by
  refine ⟨fun x hx => ?_, fun r hfair => ?_⟩
  · have hinv := inv_of_reachable (Benchmark.refines (lawful c) (counted c) hx)
    have h := hinv.undisturbed hsize
    exact ⟨h.alive, h.accepted, h.paired, h.whole⟩
  let v : (system c).Behaviour := (bounded c).viewed r
  have hinv : ∀ i, Inv c (v.state i) := fun i => inv_of_reachable (v.reachable i)
  obtain ⟨i, hrest, hstay⟩ := (bounded c).settles (by omega) r hfair
  -- where it rests without being complete, the sender is an orphan
  have hdoomed : ¬ Completed (client c) (c.total * 2) (r.state i) →
      (v.state i).Doomed ∧ ¬ (system c).CanProgress (v.state i) := by
    intro hmore
    rcases hrest with hdone | ⟨hmissing, hstuck⟩
    · exact absurd hdone hmore
    refine ⟨?_, hstuck⟩
    by_contra hfine
    refine hstuck ((hinv i).progress hsize (fun hheld horphan => hfine ⟨hheld, horphan⟩) ?_)
    intro hfin
    exact hmissing ((returned_iff (r.state i).1).mpr hfin)
  refine ⟨i, hstay, ?_, fun hmore => ?_⟩
  · constructor
    · intro hdone j hlate
      have hd : (v.state (i + j + 1)).Doomed := (doomed_iff v _).mpr ⟨j, by omega, hlate⟩
      refine hd.not_finished ?_
      have hfin : (r.state (i + j + 1)).1.Finished := by
        rw [hstay (i + j + 1) (by omega)]
        exact (returned_iff _).mp hdone.returned
      exact hfin
    · intro hnever
      by_contra hmore
      obtain ⟨j, _, hlate⟩ := (doomed_iff v i).mp (hdoomed hmore).1
      exact hnever j hlate
  · obtain ⟨hd, hstuck⟩ := hdoomed hmore
    have h := hd.rest (hinv i) hstuck
    exact ⟨h.sender, h.receiver⟩

/-- The session of the test. -/
theorem uds_benchmark_test :
    ∃ r : (processes (client testTransfer)).Behaviour,
      (∀ i, Undisturbed testTransfer (r.state i).1) ∧
      ∃ i, (∀ j, i ≤ j → r.state j = r.state i) ∧
        (Completed (client testTransfer) 6 (r.state i) ↔
          ∀ j, ¬ LateConnect (r.state j).1 (r.state (j + 1)).1) ∧
        (¬ Completed (client testTransfer) 6 (r.state i) → Halted (r.state i).1) := by
  obtain ⟨r, hfair⟩ := (bounded testTransfer).exists_weaklyFair (s := State.fresh testTransfer) rfl
  obtain ⟨hall, hend⟩ := uds_benchmark testTransfer (by decide) (by decide)
  exact ⟨r, fun i => hall _ (r.reachable i), hend r hfair⟩

end Akbench.Uds
