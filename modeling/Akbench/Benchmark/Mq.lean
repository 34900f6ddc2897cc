/-
  Akbench.Benchmark.Mq
  ────────────────────
  **`RunMqBandwidthBenchmark`, FROM `fork()` TO THE LAST DESTRUCTOR.**

  `Akbench.Transfer.Mq` over `SenseReversingBarrier` itself.

    • `protocol` — what the class and the queue ask of each other;
    • `mq_benchmark` — no call fails and nobody aborts, and every weakly fair
      run ends with both returned and the barrier's names unlinked.
-/
import Akbench.Benchmark.Processes
import Akbench.Transfer.Mq
import Akbench.Common.Generate

namespace Akbench.Mq

open Benchmark (Protocol Completed processes forall_ne_sender forall_ne_receiver)

variable {c : Params} {s s' : State}

/-! ## §1. The processes as users of a barrier. -/

def SenderPc.status : SenderPc → Client.Status
  | .waiting => .calling
  | .exited => .returned
  | .generating | .ready | .sending | .aborted | .failed => .running

def ReceiverPc.status : ReceiverPc → Client.Status
  | .waiting => .calling
  | .exited => .returned
  | .ready | .receiving | .verifying | .failed | .aborted => .running

def client (c : Params) : Client Side State Side where
  system := system c
  owner := id
  barrier := State.barrier
  withBarrier s b := { s with barrier := b }
  status s
    | .sender => s.sender.pc.status
    | .receiver => s.receiver.pc.status

theorem afterSend_barrier (s : State) (b : Rendezvous Side) (t : SendResult) :
    afterSend c { s with barrier := b } t =
      (afterSend c s t).map fun s => { s with barrier := b } := by
  cases t <;> rfl

theorem afterReceive_barrier (s : State) (b : Rendezvous Side) (t : ReceiveResult) :
    afterReceive { s with barrier := b } t =
      (afterReceive s t).map fun s => { s with barrier := b } := by
  cases t with
  | wouldBlock | tooSmall => rfl
  | received message queue =>
      dsimp only [afterReceive]
      split <;> rfl

theorem kind_sender (s : State) : (client c).Kind s .sender := by
  obtain ⟨b, ⟨pc, i, sent, j⟩, r, q⟩ := s
  cases pc with
  | generating =>
      by_cases hsize : checksumSize < c.dataSize
      · exact .stays ⟨b, ⟨.ready, i, sent, j⟩, r, q⟩ (fun _ => if_pos hsize) rfl nofun
          (forall_ne_sender rfl)
      · exact .stays ⟨b, ⟨.aborted, i, sent, j⟩, r, q⟩ (fun _ => if_neg hsize) rfl nofun
          (forall_ne_sender rfl)
  | ready =>
      by_cases hlt : i < c.total
      · exact .arrives ⟨b, ⟨.waiting, i, sent, j⟩, r, q⟩ (fun _ => if_pos hlt) rfl rfl
          (forall_ne_sender rfl)
      · exact .stays ⟨b, ⟨.exited, i, sent, j⟩, r, q⟩ (fun _ => if_neg hlt) rfl nofun
          (forall_ne_sender rfl)
  | waiting =>
      exact .leaves ⟨b, ⟨.sending, i, 0, 0⟩, r, q⟩ (fun _ hcan => if_pos hcan)
        (fun _ hcan => if_neg hcan) rfl nofun (forall_ne_sender rfl)
  | sending =>
      by_cases hlt : sent < c.dataSize
      · refine .apart (afterSend c ⟨b, ⟨.sending, i, sent, j⟩, r, q⟩
          (mqSend c q i (c.nextMessage sent))) (fun b' => ?_) rfl ?_
        · exact (if_pos hlt).trans (afterSend_barrier _ b' _)
        · intro t ht
          cases hsend : mqSend c q i (c.nextMessage sent) with
          | wouldBlock =>
              rw [hsend] at ht
              cases ht
          | sent | tooLong =>
              rw [hsend] at ht
              injection ht with ht
              subst ht
              exact ⟨nofun, forall_ne_sender rfl⟩
      · exact .stays ⟨b, ⟨.ready, i + 1, sent, j⟩, r, q⟩ (fun _ => if_neg hlt) rfl nofun
          (forall_ne_sender rfl)
  | exited | aborted | failed => exact .blocked fun _ => rfl

theorem afterReceive_status {b : Rendezvous Side} {p : Sender} {i total : Nat}
    {data : List UInt8} {messages : List (List UInt8)} {q : Queue} {result : ReceiveResult}
    {t : State}
    (ht : afterReceive ⟨b, p, ⟨.receiving, i, total, data, messages⟩, q⟩ result = some t) :
    t.sender = p ∧ t.receiver.pc.status = .running := by
  cases result with
  | wouldBlock => cases ht
  | tooSmall =>
      injection ht with ht
      subst ht
      exact ⟨rfl, rfl⟩
  | received message queue =>
      dsimp only [afterReceive] at ht
      obtain ⟨_, rfl⟩ | ⟨_, rfl⟩ := System.branch_cases ht <;> exact ⟨rfl, rfl⟩

theorem kind_receiver (s : State) : (client c).Kind s .receiver := by
  obtain ⟨b, p, ⟨pc, i, total, data, messages⟩, q⟩ := s
  cases pc with
  | ready =>
      by_cases hlt : i < c.total
      · exact .arrives ⟨b, p, ⟨.waiting, i, total, [], []⟩, q⟩ (fun _ => if_pos hlt) rfl rfl
          (forall_ne_receiver rfl)
      · exact .stays ⟨b, p, ⟨.exited, i, total, data, messages⟩, q⟩ (fun _ => if_neg hlt) rfl
          nofun (forall_ne_receiver rfl)
  | waiting =>
      exact .leaves ⟨b, p, ⟨.receiving, i, 0, data, messages⟩, q⟩ (fun _ hcan => if_pos hcan)
        (fun _ hcan => if_neg hcan) rfl nofun (forall_ne_receiver rfl)
  | receiving =>
      by_cases hlt : total < c.dataSize
      · refine .apart (afterReceive ⟨b, p, ⟨.receiving, i, total, data, messages⟩, q⟩
          (mqReceive c q c.maxMsgSize)) (fun b' => ?_) rfl ?_
        · exact (if_pos hlt).trans (afterReceive_barrier _ b' _)
        · intro t ht
          obtain ⟨hsender, hstatus⟩ := afterReceive_status ht
          refine ⟨?_, forall_ne_receiver ?_⟩
          · show t.receiver.pc.status ≠ _
            rw [hstatus]
            nofun
          · show t.sender.pc.status = _
            rw [hsender]
            rfl
      · exact .stays ⟨b, p, ⟨.verifying, i, total, data, messages⟩, q⟩ (fun _ => if_neg hlt) rfl
          nofun (forall_ne_receiver rfl)
  | verifying =>
      by_cases hgood : verifyDataReceived data c.dataSize = some true
      · exact .stays ⟨b, p, ⟨.ready, i + 1, total, data, messages⟩, q⟩ (fun _ => if_pos hgood) rfl
          nofun (forall_ne_receiver rfl)
      · exact .stays ⟨b, p, ⟨.aborted, i, total, data, messages⟩, q⟩ (fun _ => if_neg hgood) rfl
          nofun (forall_ne_receiver rfl)
  | exited | failed | aborted => exact .blocked fun _ => rfl

/-- **The message-queue benchmark uses its barrier as a barrier.** -/
theorem lawful (c : Params) : (client c).Lawful where
  barrier_with _ _ := rfl
  with_with _ _ _ := rfl
  with_barrier _ := rfl
  status_with _ _ := by
    funext p
    cases p <;> rfl
  init s hs := by
    rw [show s = State.fresh from hs]
    refine ⟨rfl, fun p => ?_⟩
    cases p <;> nofun
  kind s _ a := by
    cases a with
    | sender => exact kind_sender s
    | receiver => exact kind_receiver s
  acts p := ⟨p, rfl⟩

/-- Each process crosses its barrier once per iteration. -/
theorem counted (c : Params) : (client c).Counted c.total where
  entered_le s hs p := by
    have hinv := Framing.inv_of_reachable (refines hs).2
    cases p with
    | sender => exact Nat.le_trans (Nat.le_of_eq hinv.sEntered) hinv.sBound
    | receiver => exact Nat.le_trans (Nat.le_of_eq hinv.rEntered) hinv.rBound
  left_eq s hs p hret := by
    obtain ⟨⟨hp, hr⟩, hreach⟩ := refines hs
    have hinv := Framing.inv_of_reachable hreach
    cases p with
    | sender =>
        have hpc : s.sender.pc = .exited := by
          cases hpc : s.sender.pc <;> simp [client, hpc, SenderPc.status] at hret ⊢
        have hleft : s.barrier.left .sender = s.sender.iteration + s.sender.pc.phase.crossed :=
          hinv.sLeft
        rw [hpc, hp.exited hpc] at hleft
        exact hleft
    | receiver =>
        have hpc : s.receiver.pc = .exited := by
          cases hpc : s.receiver.pc <;> simp [client, hpc, ReceiverPc.status] at hret ⊢
        have hleft : s.barrier.left .receiver =
            s.receiver.iteration + s.receiver.pc.phase.crossed := hinv.rLeft
        rw [hpc, hr.exited hpc] at hleft
        exact hleft

/-! ## §2. What is left to do. -/

/-- Steps left in the sender's iteration. -/
def Sender.left (c : Params) (p : Sender) : Nat :=
  match p.pc with
  | .generating => c.dataSize + 4
  | .ready => c.dataSize + 3
  | .waiting => c.dataSize + 2
  | .sending => c.dataSize - p.totalSent + 1
  | .exited | .aborted | .failed => 0

/-- Steps left in the receiver's. -/
def Receiver.left (c : Params) (r : Receiver) : Nat :=
  match r.pc with
  | .ready => c.dataSize + 4
  | .waiting => c.dataSize + 3
  | .receiving => c.dataSize - r.totalReceived + 2
  | .verifying => 1
  | .exited | .failed | .aborted => 0

/-- Steps left to the sender. -/
def Sender.rank (c : Params) (p : Sender) : Nat :=
  (c.total - p.iteration) * (c.dataSize + 4) + p.left c

/-- Steps left to the receiver. -/
def Receiver.rank (c : Params) (r : Receiver) : Nat :=
  (c.total - r.iteration) * (c.dataSize + 5) + r.left c

/-- Steps left. -/
def State.rank (c : Params) (s : State) : Nat := s.sender.rank c + s.receiver.rank c

theorem senderStep_rank (hinv : LinkInv c s) (hs : senderStep c s = some s') :
    s'.sender.rank c < s.sender.rank c := by
  obtain ⟨b, ⟨pc, i, sent, j⟩, r, q⟩ := s
  cases pc with
  | generating | ready =>
      dsimp only [senderStep] at hs
      obtain ⟨_, rfl⟩ | ⟨_, rfl⟩ := System.branch_cases hs
      · exact Nat.add_lt_add_left (Nat.lt_succ_self _) _
      · exact Nat.add_lt_add_left (Nat.succ_pos _) _
  | waiting =>
      dsimp only [senderStep] at hs
      obtain ⟨_, rfl⟩ := System.guard_cases hs
      exact Nat.add_lt_add_left (Nat.lt_succ_self _) _
  | sending =>
      have hround : i + 1 ≤ c.total := hinv.sBound
      dsimp only [senderStep] at hs
      split at hs
      next hlt =>
        cases hsend : mqSend c q i (c.nextMessage sent) with
        | wouldBlock =>
            rw [hsend] at hs
            cases hs
        | sent queue =>
            rw [hsend] at hs
            injection hs with hs
            subst hs
            -- no message is empty
            have hmsg := c.maxMsgSize_pos
            refine Nat.add_lt_add_left ?_ _
            show c.dataSize - (sent + min c.maxMsgSize (c.dataSize - sent)) + 1 <
              c.dataSize - sent + 1
            omega
        | tooLong =>
            rw [hsend] at hs
            injection hs with hs
            subst hs
            exact Nat.add_lt_add_left (Nat.succ_pos _) _
      next =>
        injection hs with hs
        subst hs
        exact next_round_lt hround (Nat.lt_succ_self _)
  | exited | aborted | failed => cases hs

theorem receiverStep_rank (hinv : LinkInv c s) (hs : receiverStep c s = some s') :
    s'.receiver.rank c < s.receiver.rank c := by
  obtain ⟨b, p, ⟨pc, i, total, data, messages⟩, q⟩ := s
  cases pc with
  | ready =>
      dsimp only [receiverStep] at hs
      obtain ⟨_, rfl⟩ | ⟨_, rfl⟩ := System.branch_cases hs
      · exact Nat.add_lt_add_left (Nat.lt_succ_self _) _
      · exact Nat.add_lt_add_left (Nat.succ_pos _) _
  | waiting =>
      dsimp only [receiverStep] at hs
      obtain ⟨_, rfl⟩ := System.guard_cases hs
      exact Nat.add_lt_add_left (Nat.lt_succ_self _) _
  | receiving =>
      have hlower : ∀ n, n < c.dataSize - total + 2 →
          (c.total - i) * (c.dataSize + 5) + n <
            (c.total - i) * (c.dataSize + 5) + (c.dataSize - total + 2) :=
        fun _ hn => Nat.add_lt_add_left hn _
      dsimp only [receiverStep] at hs
      split at hs
      next hlt =>
        cases hreceive : mqReceive c q c.maxMsgSize with
        | wouldBlock =>
            rw [hreceive] at hs
            cases hs
        | tooSmall =>
            rw [hreceive] at hs
            injection hs with hs
            subst hs
            exact hlower 0 (Nat.succ_pos _)
        | received message queue =>
            rw [hreceive] at hs
            dsimp only [afterReceive] at hs
            obtain ⟨_, rfl⟩ | ⟨hne, rfl⟩ := System.branch_cases hs
            · exact hlower 1 (by omega)
            · exact hlower (c.dataSize - (total + message.length) + 2) (by omega)
      next =>
        injection hs with hs
        subst hs
        exact hlower 1 (by omega)
  | verifying =>
      have hround : i + 1 ≤ c.total := hinv.rBound
      dsimp only [receiverStep] at hs
      obtain ⟨_, rfl⟩ | ⟨_, rfl⟩ := System.branch_cases hs
      · exact next_round_lt hround (Nat.lt_succ_self _)
      · exact Nat.add_lt_add_left (Nat.succ_pos _) _
  | exited | failed | aborted => cases hs

theorem ranked (c : Params) : (system c).Ranked (State.rank c) := by
  intro s a s' hreach hs _
  obtain ⟨⟨hp, hr⟩, hlink⟩ := refines hreach
  have hinv := Framing.inv_of_reachable hlink
  unfold State.rank
  cases a with
  | sender =>
      rw [(senderStep_refines hp hinv hs).2.1]
      exact Nat.add_lt_add_right (senderStep_rank hinv hs) _
  | receiver =>
      rw [(receiverStep_refines hr hinv hs).1]
      exact Nat.add_lt_add_left (receiverStep_rank hinv hs) _

/-! ## §3. The whole benchmark. -/

/-- A payload that verifies is all the protocol needs to come to its end. -/
theorem protocol (hgood : verifyDataReceived c.payload c.dataSize = some true) :
    Protocol (client c) c.total (State.rank c) where
  lawful := lawful c
  counted := counted c
  ranked := ranked c
  progress s hreach hmore := by
    obtain ⟨⟨hp, hr⟩, hlink⟩ := refines hreach
    refine progress hp hr (Framing.inv_of_reachable hlink) hgood ?_
    rintro ⟨hse, hre⟩
    refine hmore fun p => ?_
    cases p with
    | sender =>
        show s.sender.pc.status = _
        rw [hse]
        rfl
    | receiver =>
        show s.receiver.pc.status = _
        rw [hre]
        rfl

/-- What holds of the processes at every moment. -/
structure Undisturbed (c : Params) (s : State) : Prop where
  /-- `GenerateDataToSend` succeeds. -/
  generated : s.sender.pc ≠ .aborted
  /-- No call on the queue fails. -/
  alive : s.sender.pc ≠ .failed ∧ s.receiver.pc ≠ .failed
  /-- No verification fails. -/
  verified : s.receiver.pc ≠ .aborted
  /-- What is verified is what was sent. -/
  whole : s.receiver.pc = .verifying → s.receiver.receivedData = c.payload

theorem undisturbed (hp : SenderLocal c s.sender) (hr : ReceiverLocal c s.receiver)
    (hinv : LinkInv c s) (hgood : verifyDataReceived c.payload c.dataSize = some true) :
    Undisturbed c s where
  generated := not_refused_of_verified hp.refused hgood
  alive := ⟨hp.alive, hr.alive⟩
  verified habort := hr.verdict habort hgood
  whole hpc := by
    have hact : s.receiver.pc.phase = .active := by rw [hpc]; rfl
    have hrecv := Receiver.received_of_active hact
    have hall : s.receiver.received = c.frame := by
      refine (hinv.complete hact ?_).1
      show _ ≤ s.receiver.received.length
      rw [hrecv]
      exact hr.whole (.inl hpc)
    calc s.receiver.receivedData
        = s.receiver.messages.flatten := (hr.counted hact).2
      _ = c.frame.flatten := by rw [← hrecv, hall]
      _ = c.payload := flatten_chunks c.maxMsgSize_pos _

/-- **The message-queue benchmark, run over `SenseReversingBarrier`**: with
generated data and at least one iteration, however the constructors, the
sections of `Wait()`, the calls on the queue and the destructors of the two
processes interleave, no call fails and nobody aborts, only whole frames are
verified, and every weakly fair run ends with both processes returned after
all iterations and neither name of the barrier left. -/
theorem mq_benchmark (c : Params) (draws : Nat → UInt64) (hsize : checksumSize < c.dataSize)
    (hword : c.dataSize < wordSize) (hdata : generateDataToSend draws c.dataSize = some c.payload)
    (hpos : 1 ≤ c.total) :
    (∀ x, (processes (client c)).Reachable x → Undisturbed c x.1) ∧
      ∀ r : (processes (client c)).Behaviour, r.WeaklyFair (client c).owner →
        ∃ i, ∀ j, i ≤ j → Completed (client c) c.total (r.state j) := by
  have hgood := verified_of_generated hsize hword hdata
  refine ⟨fun x hx => ?_, (protocol hgood).completes hpos⟩
  obtain ⟨⟨hp, hr⟩, hlink⟩ := refines (Benchmark.refines (lawful c) (counted c) hx)
  have h := undisturbed hp hr (Framing.inv_of_reachable hlink) hgood
  exact ⟨h.generated, h.alive, h.verified, h.whole⟩

theorem mq_benchmark_nine :
    ∃ (c : Params) (r : (processes (client c)).Behaviour), c.dataSize = 137 ∧
      (∀ i, Undisturbed c (r.state i).1) ∧
      ∃ i, ∀ j, i ≤ j → Completed (client c) 2 (r.state j) := by
  have hsize : checksumSize < 137 := by decide
  have hword : 137 < wordSize := by decide
  obtain ⟨data, hgen, hlen, hgood⟩ := exists_generated UInt64.ofNat hsize hword
  let c : Params := ⟨2, 137, 64, data, hlen, by decide⟩
  obtain ⟨r, hfair⟩ := (protocol (c := c) hgood).exists_weaklyFair (s := State.fresh) rfl
  obtain ⟨hall, hend⟩ := mq_benchmark c UInt64.ofNat hsize hword hgen (Nat.le_succ 1)
  exact ⟨c, r, rfl, fun i => hall _ (r.reachable i), hend r hfair⟩

end Akbench.Mq
