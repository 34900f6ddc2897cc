/-
  Akbench.Benchmark.Fifo
  ──────────────────────
  **`RunFifoBandwidthBenchmark`, FROM `fork()` TO THE LAST DESTRUCTOR.**

  `Akbench.Transfer.Fifo` over `SenseReversingBarrier` itself.  Between two
  crossings each process closes and reopens its end of the FIFO, so an
  `open()` may be waiting while the other process is still inside `Wait()`,
  in its constructor or already in its destructor.

    • `protocol` — what the class and the FIFO ask of each other;
    • `fifo_benchmark` — nobody is killed or aborts, and every weakly fair run
      ends with both returned and the barrier's names unlinked.
-/
import Akbench.Benchmark.Processes
import Akbench.Transfer.Fifo
import Akbench.Common.Generate

namespace Akbench.Fifo

open Benchmark (Protocol Completed processes forall_ne_sender forall_ne_receiver)

variable {c : Transfer} {s s' : State} {m : Nat}

/-! ## §1. The processes as users of a barrier. -/

def SenderPc.status : SenderPc → Client.Status
  | .waiting => .calling
  | .exited => .returned
  | .generating | .ready | .opening | .opened | .sending | .closing | .aborted | .killed => .running

def ReceiverPc.status : ReceiverPc → Client.Status
  | .waiting => .calling
  | .exited => .returned
  | .ready | .opening | .opened | .receiving | .verifying | .closing | .aborted => .running

def client (c : Transfer) : Client Side State Act where
  system := system c
  owner
    | .sender _ => .sender
    | .receiver _ => .receiver
  barrier := State.barrier
  withBarrier s b := { s with barrier := b }
  status s
    | .sender => s.sender.pc.status
    | .receiver => s.receiver.pc.status

theorem settle_barrier (s : State) (b : Rendezvous Side) :
    State.settle { s with barrier := b } = { s.settle with barrier := b } := by
  unfold State.settle
  split <;> rfl

theorem afterSend_barrier (s : State) (b : Rendezvous Side) (t : SendTurn) :
    afterSend { s with barrier := b } t =
      (afterSend s t).map fun s => { s with barrier := b } := by
  cases t with
  | finished | wrote | blocked => rfl
  | noReader => exact congrArg some (settle_barrier { s with sender := _ } b)

theorem afterReceive_barrier (s : State) (b : Rendezvous Side) (t : ReceiveTurn) :
    afterReceive { s with barrier := b } t =
      (afterReceive s t).map fun s => { s with barrier := b } := by
  cases t <;> rfl

/-- The two processes keep their positions when the FIFO settles. -/
theorem settle_status (s : State) : (client c).status s.settle = (client c).status s := by
  funext p
  cases p with
  | sender => exact congrArg (fun p => SenderPc.status p.pc) s.settle_sender
  | receiver => exact congrArg (fun r => ReceiverPc.status r.pc) s.settle_receiver

theorem kind_sender (s : State) (m : Nat) : (client c).Kind s (.sender m) := by
  obtain ⟨b, ⟨pc, i, sent⟩, r, ch⟩ := s
  cases pc with
  | generating =>
      by_cases hsize : checksumSize < c.dataSize
      · exact .stays ⟨b, ⟨.ready, i, sent⟩, r, ch⟩ (fun _ => if_pos hsize) rfl nofun
          (forall_ne_sender rfl)
      · exact .stays ⟨b, ⟨.aborted, i, sent⟩, r, ch⟩ (fun _ => if_neg hsize) rfl nofun
          (forall_ne_sender rfl)
  | ready =>
      by_cases hlt : i < c.total
      · exact .stays ⟨b, ⟨.opening, i, sent⟩, r, ch⟩ (fun _ => if_pos hlt) rfl nofun
          (forall_ne_sender rfl)
      · exact .stays ⟨b, ⟨.exited, i, sent⟩, r, ch⟩ (fun _ => if_neg hlt) rfl nofun
          (forall_ne_sender rfl)
  | opening =>
      by_cases hopen : r.pc.hasFifo ∨ r.pc = .opening
      · exact .stays ⟨b, ⟨.opened, i, sent⟩, r, ch⟩ (fun _ => if_pos hopen) rfl nofun
          (forall_ne_sender rfl)
      · exact .blocked fun _ => if_neg hopen
  | opened =>
      exact .arrives ⟨b, ⟨.waiting, i, sent⟩, r, ch⟩ (fun _ => rfl) rfl rfl (forall_ne_sender rfl)
  | waiting =>
      exact .leaves ⟨b, ⟨.sending, i, 0⟩, r, ch⟩ (fun _ hcan => if_pos hcan)
        (fun _ hcan => if_neg hcan) rfl nofun (forall_ne_sender rfl)
  | sending =>
      refine .apart (afterSend ⟨b, ⟨.sending, i, sent⟩, r, ch⟩
        (c.sendTurn i sent ch r.pc.hasFifo m)) (fun b' => afterSend_barrier _ b' _) rfl ?_
      intro t ht
      cases hturn : c.sendTurn i sent ch r.pc.hasFifo m with
      | blocked =>
          rw [hturn] at ht
          cases ht
      | finished | wrote =>
          rw [hturn] at ht
          injection ht with ht
          subst ht
          exact ⟨nofun, forall_ne_sender rfl⟩
      | noReader =>
          rw [hturn] at ht
          injection ht with ht
          rw [← ht, settle_status]
          exact ⟨nofun, forall_ne_sender rfl⟩
  | closing =>
      refine .stays (State.settle ⟨b, ⟨.ready, i + 1, sent⟩, r, ch⟩)
        (fun b' => congrArg some (settle_barrier ⟨b, ⟨.ready, i + 1, sent⟩, r, ch⟩ b')) rfl ?_ ?_
      · rw [settle_status]
        nofun
      · rw [settle_status]
        exact forall_ne_sender rfl
  | exited | aborted | killed => exact .blocked fun _ => rfl

theorem kind_receiver (s : State) (m : Nat) : (client c).Kind s (.receiver m) := by
  obtain ⟨b, p, ⟨pc, i, total, data⟩, ch⟩ := s
  cases pc with
  | ready =>
      by_cases hlt : i < c.total
      · exact .stays ⟨b, p, ⟨.opening, i, total, []⟩, ch⟩ (fun _ => if_pos hlt) rfl nofun
          (forall_ne_receiver rfl)
      · exact .stays ⟨b, p, ⟨.exited, i, total, data⟩, ch⟩ (fun _ => if_neg hlt) rfl nofun
          (forall_ne_receiver rfl)
  | opening =>
      by_cases hopen : p.pc.hasFifo ∨ p.pc = .opening
      · exact .stays ⟨b, p, ⟨.opened, i, total, data⟩, ch⟩ (fun _ => if_pos hopen) rfl nofun
          (forall_ne_receiver rfl)
      · exact .blocked fun _ => if_neg hopen
  | opened =>
      exact .arrives ⟨b, p, ⟨.waiting, i, total, data⟩, ch⟩ (fun _ => rfl) rfl rfl
        (forall_ne_receiver rfl)
  | waiting =>
      exact .leaves ⟨b, p, ⟨.receiving, i, 0, data⟩, ch⟩ (fun _ hcan => if_pos hcan)
        (fun _ hcan => if_neg hcan) rfl nofun (forall_ne_receiver rfl)
  | receiving =>
      refine .apart (afterReceive ⟨b, p, ⟨.receiving, i, total, data⟩, ch⟩
        (c.receiveTurn total data ch p.pc.hasFifo m)) (fun b' => afterReceive_barrier _ b' _) rfl ?_
      intro t ht
      cases hturn : c.receiveTurn total data ch p.pc.hasFifo m with
      | blocked =>
          rw [hturn] at ht
          cases ht
      | finished | endOfFile | got =>
          rw [hturn] at ht
          injection ht with ht
          subst ht
          exact ⟨nofun, forall_ne_receiver rfl⟩
  | verifying =>
      by_cases hgood : verifyDataReceived data c.dataSize = some true
      · exact .stays ⟨b, p, ⟨.closing, i, total, data⟩, ch⟩ (fun _ => if_pos hgood) rfl nofun
          (forall_ne_receiver rfl)
      · refine .stays (State.settle ⟨b, p, ⟨.aborted, i, total, data⟩, ch⟩) (fun b' => ?_) rfl ?_ ?_
        · exact (if_neg hgood).trans
            (congrArg some (settle_barrier ⟨b, p, ⟨.aborted, i, total, data⟩, ch⟩ b'))
        · rw [settle_status]
          nofun
        · rw [settle_status]
          exact forall_ne_receiver rfl
  | closing =>
      refine .stays (State.settle ⟨b, p, ⟨.ready, i + 1, total, data⟩, ch⟩)
        (fun b' => congrArg some (settle_barrier ⟨b, p, ⟨.ready, i + 1, total, data⟩, ch⟩ b')) rfl
        ?_ ?_
      · rw [settle_status]
        nofun
      · rw [settle_status]
        exact forall_ne_receiver rfl
  | exited | aborted => exact .blocked fun _ => rfl

/-- **The FIFO benchmark uses its barrier as a barrier.** -/
theorem lawful (c : Transfer) : (client c).Lawful where
  barrier_with _ _ := rfl
  with_with _ _ _ := rfl
  with_barrier _ := rfl
  status_with _ _ := by
    funext p
    cases p <;> rfl
  init s hs := by
    rw [show s = State.fresh from hs]
    refine ⟨rfl, fun p => ?_⟩
    cases p <;> nofun
  kind s _ a := by
    cases a with
    | sender m => exact kind_sender s m
    | receiver m => exact kind_receiver s m
  acts p := by
    cases p with
    | sender => exact ⟨.sender 0, rfl⟩
    | receiver => exact ⟨.receiver 0, rfl⟩

/-- Each process crosses its barrier once per iteration. -/
theorem counted (c : Transfer) : (client c).Counted c.total where
  entered_le s hs p := by
    have hinv := Framing.inv_of_reachable (refines hs).2
    cases p with
    | sender => exact Nat.le_trans (Nat.le_of_eq hinv.sEntered) hinv.sBound
    | receiver => exact Nat.le_trans (Nat.le_of_eq hinv.rEntered) hinv.rBound
  left_eq s hs p hret := by
    obtain ⟨⟨hp, hr⟩, hreach⟩ := refines hs
    have hinv := Framing.inv_of_reachable hreach
    cases p with
    | sender =>
        have hpc : s.sender.pc = .exited := by
          cases hpc : s.sender.pc <;> simp [client, hpc, SenderPc.status] at hret ⊢
        have hleft : s.barrier.left .sender = s.sender.iteration + s.sender.pc.phase.crossed :=
          hinv.sLeft
        rw [hpc, hp.exited hpc] at hleft
        exact hleft
    | receiver =>
        have hpc : s.receiver.pc = .exited := by
          cases hpc : s.receiver.pc <;> simp [client, hpc, ReceiverPc.status] at hret ⊢
        have hleft : s.barrier.left .receiver =
            s.receiver.iteration + s.receiver.pc.phase.crossed := hinv.rLeft
        rw [hpc, hr.exited hpc] at hleft
        exact hleft

/-! ## §2. What is left to do. -/

/-- Steps left in the sender's iteration. -/
def Sender.left (c : Transfer) (p : Sender) : Nat :=
  match p.pc with
  | .generating => c.payload.length + 7
  | .ready => c.payload.length + 6
  | .opening => c.payload.length + 5
  | .opened => c.payload.length + 4
  | .waiting => c.payload.length + 3
  | .sending => c.payload.length - p.totalSent + 2
  | .closing => 1
  | .exited | .aborted | .killed => 0

/-- Steps left in the receiver's. -/
def Receiver.left (c : Transfer) (r : Receiver) : Nat :=
  match r.pc with
  | .ready => c.payload.length + 7
  | .opening => c.payload.length + 6
  | .opened => c.payload.length + 5
  | .waiting => c.payload.length + 4
  | .receiving => c.payload.length - r.totalReceived + 3
  | .verifying => 2
  | .closing => 1
  | .exited | .aborted => 0

/-- Steps left to the sender. -/
def Sender.rank (c : Transfer) (p : Sender) : Nat :=
  (c.total - p.iteration) * (c.payload.length + 7) + p.left c

/-- Steps left to the receiver. -/
def Receiver.rank (c : Transfer) (r : Receiver) : Nat :=
  (c.total - r.iteration) * (c.payload.length + 8) + r.left c

/-- Steps left. -/
def State.rank (c : Transfer) (s : State) : Nat := s.sender.rank c + s.receiver.rank c

theorem senderStep_rank (hinv : LinkInv c s) (hs : senderStep c s m = some s') :
    s'.sender.rank c < s.sender.rank c := by
  obtain ⟨b, ⟨pc, i, sent⟩, r, ch⟩ := s
  cases pc with
  | generating | ready =>
      dsimp only [senderStep] at hs
      obtain ⟨_, rfl⟩ | ⟨_, rfl⟩ := System.branch_cases hs
      · exact Nat.add_lt_add_left (Nat.lt_succ_self _) _
      · exact Nat.add_lt_add_left (Nat.succ_pos _) _
  | opening | waiting =>
      dsimp only [senderStep] at hs
      obtain ⟨_, rfl⟩ := System.guard_cases hs
      exact Nat.add_lt_add_left (Nat.lt_succ_self _) _
  | opened =>
      injection hs with hs
      subst hs
      exact Nat.add_lt_add_left (Nat.lt_succ_self _) _
  | sending =>
      change afterSend _ (c.sendTurn i sent ch r.pc.hasFifo m) = some s' at hs
      cases hturn : c.sendTurn i sent ch r.pc.hasFifo m with
      | blocked =>
          rw [hturn] at hs
          cases hs
      | finished =>
          rw [hturn] at hs
          injection hs with hs
          subst hs
          refine Nat.add_lt_add_left ?_ _
          show 1 < c.payload.length - sent + 2
          omega
      | wrote fifo total =>
          rw [hturn] at hs
          injection hs with hs
          subst hs
          obtain ⟨hmore, hle⟩ := Transfer.sendTurn_advances hturn
          refine Nat.add_lt_add_left ?_ _
          show c.payload.length - total + 2 < c.payload.length - sent + 2
          omega
      | noReader =>
          rw [hturn] at hs
          injection hs with hs
          rw [← hs, State.settle_sender]
          exact Nat.add_lt_add_left (Nat.succ_pos _) _
  | closing =>
      have hround : i + 1 ≤ c.total := hinv.sBound
      injection hs with hs
      rw [← hs, State.settle_sender]
      exact next_round_lt hround (Nat.lt_succ_self _)
  | exited | aborted | killed => cases hs

theorem receiverStep_rank (hinv : LinkInv c s) (hs : receiverStep c s m = some s') :
    s'.receiver.rank c < s.receiver.rank c := by
  obtain ⟨b, p, ⟨pc, i, total, data⟩, ch⟩ := s
  cases pc with
  | ready =>
      dsimp only [receiverStep] at hs
      obtain ⟨_, rfl⟩ | ⟨_, rfl⟩ := System.branch_cases hs
      · exact Nat.add_lt_add_left (Nat.lt_succ_self _) _
      · exact Nat.add_lt_add_left (Nat.succ_pos _) _
  | opening | waiting =>
      dsimp only [receiverStep] at hs
      obtain ⟨_, rfl⟩ := System.guard_cases hs
      exact Nat.add_lt_add_left (Nat.lt_succ_self _) _
  | opened =>
      injection hs with hs
      subst hs
      exact Nat.add_lt_add_left (Nat.lt_succ_self _) _
  | receiving =>
      change afterReceive _ (c.receiveTurn total data ch p.pc.hasFifo m) = some s' at hs
      cases hturn : c.receiveTurn total data ch p.pc.hasFifo m with
      | blocked =>
          rw [hturn] at hs
          cases hs
      | finished | endOfFile =>
          rw [hturn] at hs
          injection hs with hs
          subst hs
          refine Nat.add_lt_add_left ?_ _
          show 2 < c.payload.length - total + 3
          omega
      | got fifo n data' =>
          rw [hturn] at hs
          injection hs with hs
          subst hs
          obtain ⟨hmore, hlt⟩ := Transfer.receiveTurn_advances hturn
          refine Nat.add_lt_add_left ?_ _
          show c.payload.length - n + 3 < c.payload.length - total + 3
          omega
  | verifying =>
      dsimp only [receiverStep] at hs
      obtain ⟨_, rfl⟩ | ⟨_, rfl⟩ := System.branch_cases hs
      · exact Nat.add_lt_add_left (Nat.lt_succ_self _) _
      · rw [State.settle_receiver]
        exact Nat.add_lt_add_left (Nat.succ_pos _) _
  | closing =>
      have hround : i + 1 ≤ c.total := hinv.rBound
      injection hs with hs
      rw [← hs, State.settle_receiver]
      exact next_round_lt hround (Nat.lt_succ_self _)
  | exited | aborted => cases hs

theorem ranked (c : Transfer) : (system c).Ranked (State.rank c) := by
  intro s a s' hreach hs _
  obtain ⟨⟨hp, hr⟩, hlink⟩ := refines hreach
  have hinv := Framing.inv_of_reachable hlink
  unfold State.rank
  cases a with
  | sender m =>
      rw [(senderStep_refines hp hr hinv hs).2.1]
      exact Nat.add_lt_add_right (senderStep_rank hinv hs) _
  | receiver m =>
      rw [(receiverStep_refines hp hr hinv hs).1]
      exact Nat.add_lt_add_left (receiverStep_rank hinv hs) _

/-! ## §3. The whole benchmark. -/

/-- A payload that verifies is all the protocol needs to come to its end. -/
theorem protocol (hgood : verifyDataReceived c.payload c.dataSize = some true) :
    Protocol (client c) c.total (State.rank c) where
  lawful := lawful c
  counted := counted c
  ranked := ranked c
  progress s hreach hmore := by
    obtain ⟨⟨hp, hr⟩, hlink⟩ := refines hreach
    refine progress hp hr (Framing.inv_of_reachable hlink) hgood ?_
    rintro ⟨hse, hre⟩
    refine hmore fun p => ?_
    cases p with
    | sender =>
        show s.sender.pc.status = _
        rw [hse]
        rfl
    | receiver =>
        show s.receiver.pc.status = _
        rw [hre]
        rfl

/-- What holds of the processes at every moment. -/
structure Undisturbed (c : Transfer) (s : State) : Prop where
  /-- `GenerateDataToSend` succeeds. -/
  generated : s.sender.pc ≠ .aborted
  /-- No `write` finds the read end closed. -/
  alive : s.sender.pc ≠ .killed
  /-- No verification fails. -/
  verified : s.receiver.pc ≠ .aborted
  /-- What is verified is what was sent. -/
  whole : s.receiver.pc = .verifying → s.receiver.receivedData = c.payload

theorem undisturbed (hp : SenderLocal c s.sender) (hr : ReceiverLocal c s.receiver)
    (hinv : LinkInv c s) (hgood : verifyDataReceived c.payload c.dataSize = some true) :
    Undisturbed c s where
  generated := not_refused_of_verified hp.refused hgood
  alive := hp.alive
  verified habort := hr.verdict habort hgood
  whole hpc := by
    have hact : s.receiver.pc.phase = .active := by rw [hpc]; rfl
    have hrecv := Receiver.received_of_active hact
    rw [← hrecv]
    refine (hinv.complete hact ?_).1
    show _ ≤ s.receiver.received.length
    rw [hrecv]
    exact hr.whole (by rw [hpc]; rfl)

/-- **The FIFO benchmark, run over `SenseReversingBarrier`**: with generated
data and at least one iteration, however the constructors, the sections of
`Wait()`, `open()`, partial writes and reads, `close()` and the destructors of
the two processes interleave, nobody is killed and nobody aborts, only whole
frames are verified, and every weakly fair run ends with both processes
returned after all iterations and neither name of the barrier left. -/
theorem fifo_benchmark (c : Transfer) (draws : Nat → UInt64) (hsize : checksumSize < c.dataSize)
    (hword : c.dataSize < wordSize) (hdata : generateDataToSend draws c.dataSize = some c.payload)
    (hpos : 1 ≤ c.total) :
    (∀ x, (processes (client c)).Reachable x → Undisturbed c x.1) ∧
      ∀ r : (processes (client c)).Behaviour, r.WeaklyFair (client c).owner →
        ∃ i, ∀ j, i ≤ j → Completed (client c) c.total (r.state j) := by
  have hgood := verified_of_generated hsize hword hdata
  refine ⟨fun x hx => ?_, (protocol hgood).completes hpos⟩
  obtain ⟨⟨hp, hr⟩, hlink⟩ := refines (Benchmark.refines (lawful c) (counted c) hx)
  have h := undisturbed hp hr (Framing.inv_of_reachable hlink) hgood
  exact ⟨h.generated, h.alive, h.verified, h.whole⟩

theorem fifo_benchmark_nine :
    ∃ (c : Transfer) (r : (processes (client c)).Behaviour), c.dataSize = 137 ∧
      (∀ i, Undisturbed c (r.state i).1) ∧
      ∃ i, ∀ j, i ≤ j → Completed (client c) 2 (r.state j) := by
  have hsize : checksumSize < 137 := by decide
  have hword : 137 < wordSize := by decide
  obtain ⟨data, hgen, hlen, hgood⟩ := exists_generated UInt64.ofNat hsize hword
  let c : Transfer := ⟨2, 137, 64, data, 100, hlen, by decide, by decide⟩
  obtain ⟨r, hfair⟩ := (protocol (c := c) hgood).exists_weaklyFair (s := State.fresh) rfl
  obtain ⟨hall, hend⟩ := fifo_benchmark c UInt64.ofNat hsize hword hgen (Nat.le_succ 1)
  exact ⟨c, r, rfl, fun i => hall _ (r.reachable i), hend r hfair⟩

end Akbench.Fifo
