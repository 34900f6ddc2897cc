/-
  Akbench.Uds.Pairing
  ───────────────────
  **WHICH CONNECTION THE RECEIVER ACCEPTS.**

  A sender that has called `connect()` is either `Linked` to the receiver of
  its own iteration, or `Orphaned`: it is queued on the listening socket of
  the iteration before, which the receiver is about to close, or was and is
  not any more.

    • `Meeting` — one of the two holds, in every run;
    • `Meeting.sender_move`, `Meeting.receiver_move` — every move keeps it;
    • `Meeting.of_accepting` — what is queued for an `accept()` is of the
      receiver's own iteration.
-/
import Akbench.Uds.Session

namespace Akbench.Uds

variable {c : Transfer} {s s' : State}

/-! ## §1. Linked or orphaned. -/

/-- Connected, and not past the first `Wait()`. -/
def SenderPc.isHeld : SenderPc → Bool
  | .connected | .waiting1 => true
  | _ => false

/-- From the second `Wait()` to the end of the iteration. -/
def ReceiverPc.isClosing : ReceiverPc → Bool
  | .waiting2 | .closingConn | .closingListener | .unlinking | .verifying => true
  | _ => false

/-- From the head of the iteration to `accept()`. -/
def ReceiverPc.isOpening : ReceiverPc → Bool
  | .ready | .removing | .binding | .listening | .accepting => true
  | _ => false

/-- The receiver of the sender's iteration has accepted the sender's
connection, or has it queued and is in `accept()`. -/
def State.Linked (s : State) : Prop :=
  s.receiver.iteration = s.sender.iteration ∧
    ((s.receiver.pc.hasConn = true ∧ s.queued = none) ∨
      (s.receiver.pc = .accepting ∧ s.queued = some s.sender.iteration))

/-- The sender's connection is on a listening socket that the receiver is
closing, or was on one that is closed. -/
def State.Orphaned (s : State) : Prop :=
  (s.sender.iteration = s.receiver.iteration + 1 ∧ s.receiver.pc.isClosing = true) ∨
    (s.sender.iteration = s.receiver.iteration ∧ s.receiver.pc.isOpening = true ∧
      s.queued = none)

/-- How the sender's connection and the receiver's sockets go together. -/
structure Meeting (s : State) : Prop where
  queued : ∀ j, s.queued = some j → j = s.sender.iteration ∧ s.sender.pc.isHeld = true
  past : s.receiver.pc.hasConn = true → s.receiver.iteration < s.sender.iteration ∨
    (s.receiver.iteration = s.sender.iteration ∧ s.sender.pc.isConnected = true)
  met : s.sender.pc.isHeld = true → s.Linked ∨ s.Orphaned

theorem meeting_fresh (c : Transfer) : Meeting (State.fresh c) :=
  ⟨nofun, nofun, nofun⟩

theorem SenderPc.left_of_isHeld {pc : SenderPc} (h : pc.isHeld = true) :
    pc.left = 0 ∧ pc.entered ≤ 1 ∧ pc.isRunning = true ∧ pc.isConnected = true := by
  cases pc with
  | connected | waiting1 => decide
  | generating | ready | connecting | sending | sent | waiting2 | closing | exited | aborted
  | killed => cases h

/-- Nothing is queued for a sender that is not at its `connect()` or the
`Wait()` after it. -/
theorem Meeting.queued_none (h : Meeting s) (hheld : s.sender.pc.isHeld = false) :
    s.queued = none := by
  cases hq : s.queued with
  | none => rfl
  | some j =>
      have hsome := (h.queued j hq).2
      rw [hheld] at hsome
      cases hsome

/-- A receiver that is linked has the connection, or is about to accept it. -/
def ReceiverPc.isMeeting : ReceiverPc → Bool
  | .accepting | .accepted | .waiting1 | .receiving | .received | .waiting2
  | .closingConn => true
  | _ => false

theorem State.Linked.isMeeting (h : s.Linked) : s.receiver.pc.isMeeting = true := by
  obtain ⟨_, ⟨hconn, _⟩ | ⟨hpc, _⟩⟩ := h
  · cases hr : s.receiver.pc with
    | accepted | waiting1 | receiving | received | waiting2 | closingConn => rfl
    | ready | removing | binding | listening | accepting | closingListener | unlinking
    | verifying | exited | failed | aborted =>
        rw [hr] at hconn
        cases hconn
  · rw [hpc]
    rfl

/-- A linked receiver that moves on with the connection. -/
theorem State.Linked.go (h : s.Linked) (hsender : s'.sender = s.sender)
    (hiter : s'.receiver.iteration = s.receiver.iteration) (hqueued : s'.queued = s.queued)
    (hpc : s.receiver.pc ≠ .accepting) (hconn : s'.receiver.pc.hasConn = true) : s'.Linked := by
  obtain ⟨hsame, ⟨_, hnone⟩ | ⟨haccept, _⟩⟩ := h
  · refine ⟨?_, .inl ⟨hconn, ?_⟩⟩
    · rw [hsender, hiter]
      exact hsame
    · rw [hqueued]
      exact hnone
  · exact absurd haccept hpc

/-- An orphan stays one while the receiver goes through its calls. -/
theorem State.Orphaned.go (h : s.Orphaned) (hsender : s'.sender = s.sender)
    (hiter : s'.receiver.iteration = s.receiver.iteration)
    (hclosing : s.receiver.pc.isClosing = true → s'.receiver.pc.isClosing = true)
    (hopening : s.receiver.pc.isOpening = true → s.queued = none →
      s'.receiver.pc.isOpening = true ∧ s'.queued = none) : s'.Orphaned := by
  unfold State.Orphaned
  rw [hsender, hiter]
  rcases h with ⟨hnext, hc⟩ | ⟨hsame, ho, hq⟩
  · exact .inl ⟨hnext, hclosing hc⟩
  · exact .inr ⟨hsame, hopening ho hq⟩

theorem State.Orphaned.closing_or_opening (h : s.Orphaned) :
    s.receiver.pc.isClosing = true ∨ s.receiver.pc.isOpening = true := by
  rcases h with ⟨_, hc⟩ | ⟨_, ho, _⟩
  · exact .inl hc
  · exact .inr ho

/-- Nobody is both. -/
theorem State.Linked.not_orphaned (h : s.Linked) : ¬ s.Orphaned := by
  obtain ⟨hsame, hlink⟩ := h
  rintro (⟨hnext, _⟩ | ⟨_, hopening, hnone⟩)
  · omega
  · rcases hlink with ⟨hconn, _⟩ | ⟨_, hsome⟩
    · cases hr : s.receiver.pc with
      | ready | removing | binding | listening | accepting =>
          rw [hr] at hconn
          cases hconn
      | accepted | waiting1 | receiving | received | waiting2 | closingConn | closingListener
      | unlinking | verifying | exited | failed | aborted =>
          rw [hr] at hopening
          cases hopening
    · rw [hnone] at hsome
      cases hsome

/-- **What is queued for an `accept()` is of the receiver's iteration.** -/
theorem Meeting.of_accepting (h : Meeting s) (hpc : s.receiver.pc = .accepting) {j : Nat}
    (hq : s.queued = some j) : j = s.receiver.iteration := by
  obtain ⟨hj, hheld⟩ := h.queued j hq
  rcases h.met hheld with hlink | ⟨_, hc⟩ | ⟨_, _, hnone⟩
  · rw [hj, hlink.1]
  · rw [hpc] at hc
    cases hc
  · rw [hq] at hnone
    cases hnone

/-- A sender whose connection is queued nowhere it will be accepted cannot
leave its first `Wait()`. -/
theorem not_canLeave_of_orphaned (hsites : Sites c s) (hpc : s.sender.pc = .waiting1)
    (horphan : s.Orphaned) : ¬ s.barrier.CanLeave .sender := by
  rw [hsites.canLeave_sender, hpc]
  show ¬ s.sender.iteration * 2 + 1 ≤ _
  rcases horphan with ⟨hnext, hclosing⟩ | ⟨hsame, hopening, _⟩
  · have hentered : s.receiver.pc.entered ≤ 2 := hsites.lockstep.entered_le .receiver
    omega
  · have hentered : s.receiver.pc.entered = 0 := by
      cases hr : s.receiver.pc <;> first | rfl | (rw [hr] at hopening; cases hopening)
    omega

/-- Where a `connect()` that succeeds leads. -/
theorem meeting_of_connect (h : Meeting s) (hsites : Sites c s) (hpc : s.sender.pc = .connecting)
    (hlisten : s.receiver.pc.isListening = true) :
    (s.receiver.pc = .accepting ∧ s.receiver.iteration = s.sender.iteration) ∨
      (s.sender.iteration = s.receiver.iteration + 1 ∧ s.receiver.pc.isClosing = true) := by
  have hap := hsites.apart
  rw [hpc] at hap
  have hleft : SenderPc.connecting.left = 0 := rfl
  have hentered : SenderPc.connecting.entered = 0 := rfl
  rw [hleft, hentered] at hap
  have hpast : s.receiver.pc.hasConn = true → s.receiver.iteration < s.sender.iteration := by
    intro hconn
    rcases h.past hconn with hlt | ⟨_, hbad⟩
    · exact hlt
    · rw [hpc] at hbad
      cases hbad
  cases hr : s.receiver.pc with
  | accepting =>
      rw [hr] at hap
      have he : ReceiverPc.accepting.entered = 0 := rfl
      have hl : ReceiverPc.accepting.left = 0 := rfl
      exact .inl ⟨rfl, by omega⟩
  | accepted =>
      rw [hr] at hap hpast
      have he : ReceiverPc.accepted.entered = 0 := rfl
      have hlt := hpast rfl
      omega
  | waiting1 =>
      rw [hr] at hap hpast
      have he : ReceiverPc.waiting1.entered = 1 := rfl
      have hlt := hpast rfl
      omega
  | receiving =>
      rw [hr] at hap hpast
      have he : ReceiverPc.receiving.entered = 1 := rfl
      have hlt := hpast rfl
      omega
  | received =>
      rw [hr] at hap hpast
      have he : ReceiverPc.received.entered = 1 := rfl
      have hlt := hpast rfl
      omega
  | waiting2 =>
      rw [hr] at hap hpast
      have he : ReceiverPc.waiting2.entered = 2 := rfl
      have hlt := hpast rfl
      exact .inr ⟨by omega, rfl⟩
  | closingConn =>
      rw [hr] at hap hpast
      have he : ReceiverPc.closingConn.entered = 2 := rfl
      have hlt := hpast rfl
      exact .inr ⟨by omega, rfl⟩
  | closingListener =>
      rw [hr] at hap
      have he : ReceiverPc.closingListener.entered = 2 := rfl
      have hl : ReceiverPc.closingListener.left = 2 := rfl
      exact .inr ⟨by omega, rfl⟩
  | ready | removing | binding | listening | unlinking | verifying | exited | failed | aborted =>
      rw [hr] at hlisten
      cases hlisten

/-- A step of the sender that does not concern its connection. -/
theorem Meeting.sender_frame (h : Meeting s) (hlistener : s'.listener = s.listener)
    (hreceiver : s'.receiver = s.receiver) (hiter : s'.sender.iteration = s.sender.iteration)
    (hheld : s'.sender.pc.isHeld = s.sender.pc.isHeld)
    (hconn : s.sender.pc.isConnected = true → s'.sender.pc.isConnected = true) : Meeting s' := by
  have hqueued : s'.queued = s.queued := congrArg (Option.bind · Listener.queue) hlistener
  refine ⟨?_, ?_, ?_⟩
  · intro j hj
    rw [hiter, hheld]
    exact h.queued j (hqueued ▸ hj)
  · intro hhas
    rw [hreceiver] at hhas
    rw [hreceiver, hiter]
    rcases h.past hhas with hlt | ⟨heq, hc⟩
    · exact .inl hlt
    · exact .inr ⟨heq, hconn hc⟩
  · intro hh
    rw [hheld] at hh
    unfold State.Linked State.Orphaned
    rw [hqueued, hreceiver, hiter]
    exact h.met hh

/-- A sender that is not held, before and after. -/
theorem meeting_of_free (hlistener : s'.listener = s.listener)
    (hreceiver : s'.receiver = s.receiver) (hqueue : s.queued = none)
    (hheld : s'.sender.pc.isHeld = false)
    (hpast : s.receiver.pc.hasConn = true → s.receiver.iteration < s'.sender.iteration ∨
      (s.receiver.iteration = s'.sender.iteration ∧ s'.sender.pc.isConnected = true)) :
    Meeting s' := by
  have hqueued : s'.queued = s.queued := congrArg (Option.bind · Listener.queue) hlistener
  refine ⟨?_, ?_, ?_⟩
  · intro j hj
    rw [hqueued, hqueue] at hj
    cases hj
  · intro hhas
    rw [hreceiver] at hhas ⊢
    exact hpast hhas
  · intro hh
    rw [hheld] at hh
    cases hh

/-- **A move of the sender keeps the meeting.** -/
theorem Meeting.sender_move (h : Meeting s) (hsites : Sites c s) (hsockets : Sockets s)
    (hmove : SenderMove c s s') : Meeting s' := by
  cases hmove with
  | go hgo =>
      cases hgo with
      | generated hpc _ | rejected hpc _ | begin hpc _ | exit hpc _ =>
          refine h.sender_frame rfl rfl rfl ?_ ?_
          · rw [hpc]
            rfl
          · rw [hpc]
            nofun
      | finish hpc hall =>
          refine h.sender_frame rfl rfl rfl ?_ (fun _ => rfl)
          rw [hpc]
          rfl
  | retry hpc => exact h
  | connect hpc hlisten hqueue =>
      have hplace := meeting_of_connect h hsites hpc (hsockets.listener_iteration hlisten).1
      refine ⟨?_, ?_, ?_⟩
      · intro j hj
        injection hj with hj
        exact ⟨hj.symm, rfl⟩
      · intro hhas
        rcases h.past hhas with hlt | ⟨_, hbad⟩
        · exact .inl hlt
        · rw [hpc] at hbad
          cases hbad
      · intro _
        rcases hplace with ⟨haccept, hsame⟩ | horphan
        · exact .inl ⟨hsame, .inr ⟨haccept, rfl⟩⟩
        · exact .inr (.inl horphan)
  | arrive1 hpc =>
      refine h.sender_frame rfl rfl rfl ?_ (fun _ => rfl)
      rw [hpc]
      rfl
  | leave1 hpc hcan =>
      have hheld : s.sender.pc.isHeld = true := by rw [hpc]; rfl
      -- the receiver has entered its first `Wait()`, so it has the connection
      have hlinked : s.receiver.iteration = s.sender.iteration ∧ s.queued = none := by
        rcases h.met hheld with ⟨hsame, hlink | hlink⟩ | horphan
        · exact ⟨hsame, hlink.2⟩
        · exfalso
          rw [hsites.canLeave_sender, hpc, hlink.1] at hcan
          have hs : SenderPc.waiting1.entered = 1 := rfl
          have hr : ReceiverPc.accepting.entered = 0 := rfl
          omega
        · exact absurd hcan (not_canLeave_of_orphaned hsites hpc horphan)
      exact meeting_of_free rfl rfl hlinked.2 rfl (fun _ => .inr ⟨hlinked.1, rfl⟩)
  | send hpc hle => exact h.sender_frame rfl rfl rfl rfl id
  | arrive2 hpc =>
      refine h.sender_frame rfl rfl rfl ?_ (fun _ => rfl)
      rw [hpc]
      rfl
  | leave2 hpc hcan =>
      refine h.sender_frame rfl rfl rfl ?_ (fun _ => rfl)
      rw [hpc]
      rfl
  | again hpc =>
      refine meeting_of_free rfl rfl (h.queued_none (by rw [hpc]; rfl)) rfl ?_
      intro hhas
      left
      show s.receiver.iteration < s.sender.iteration + 1
      rcases h.past hhas with hlt | ⟨heq, _⟩
      · omega
      · omega

/-- A step of the receiver that queues nothing and accepts nothing. -/
theorem Meeting.receiver_frame (h : Meeting s)
    (hqueued : ∀ j, s'.queued = some j → s.queued = some j)
    (hsender : s'.sender = s.sender) (hiter : s'.receiver.iteration = s.receiver.iteration)
    (hconn : s'.receiver.pc.hasConn = true → s.receiver.pc.hasConn = true)
    (hmet : s.sender.pc.isHeld = true → s'.Linked ∨ s'.Orphaned) : Meeting s' := by
  refine ⟨?_, ?_, ?_⟩
  · intro j hj
    rw [hsender]
    exact h.queued j (hqueued j hj)
  · intro hhas
    rw [hiter, hsender]
    exact h.past (hconn hhas)
  · intro hheld
    rw [hsender] at hheld
    exact hmet hheld

/-- **What is linked stays linked**: the receiver closes nothing before the
sender is past its first `Wait()`. -/
theorem State.Linked.receiver_move (h : s.Linked) (hsites : Sites c s)
    (hheld : s.sender.pc.isHeld = true) (hmove : ReceiverMove c s s') : s'.Linked := by
  have hmeeting := h.isMeeting
  obtain ⟨_, hle, _, _⟩ := SenderPc.left_of_isHeld hheld
  cases hmove with
  | go hgo =>
      cases hgo with
      | begin hpc _ | exit hpc _ | rejected hpc _ =>
          rw [hpc] at hmeeting
          cases hmeeting
      | finish hpc _ => exact h.go rfl rfl rfl (by rw [hpc]; nofun) rfl
  | remove hpc | bind hpc | listen hpc | closeListener hpc | unlink hpc | again hpc =>
      rw [hpc] at hmeeting
      cases hmeeting
  | accept _ _ _ => exact ⟨h.1, .inl ⟨rfl, rfl⟩⟩
  | arrive1 hpc | leave1 hpc _ | arrive2 hpc => exact h.go rfl rfl rfl (by rw [hpc]; nofun) rfl
  | receive _ _ _ => exact h
  | leave2 hpc hcan =>
      -- it leaves with a sender that has entered its own second `Wait()`
      rw [hsites.canLeave_receiver, hpc, h.1] at hcan
      have he : ReceiverPc.waiting2.entered = 2 := rfl
      omega
  | closeConn hpc =>
      have hap := hsites.apart.2
      rw [hpc, h.1] at hap
      have hl : ReceiverPc.closingConn.left = 2 := rfl
      omega

/-- **An orphan stays an orphan**: nobody ever accepts its connection. -/
theorem State.Orphaned.receiver_move (h : s.Orphaned) (hsites : Sites c s)
    (hsockets : Sockets s) (hheld : s.sender.pc.isHeld = true) (hmove : ReceiverMove c s s') :
    s'.Orphaned := by
  have hwhere := h.closing_or_opening
  cases hmove with
  | go hgo =>
      cases hgo with
      | begin hpc _ =>
          refine h.go rfl rfl ?_ (fun _ hq => ⟨rfl, hq⟩)
          rw [hpc]
          nofun
      | exit hpc hge =>
          -- a receiver that is done has no sender waiting for it
          have hlt := hsites.sender.running (SenderPc.left_of_isHeld hheld).2.2.1
          rcases h with ⟨_, hc⟩ | ⟨hsame, _, _⟩
          · rw [hpc] at hc
            cases hc
          · omega
      | finish hpc _ =>
          rw [hpc] at hwhere
          rcases hwhere with hbad | hbad <;> cases hbad
      | rejected hpc hsize =>
          have hgen : checksumSize < c.dataSize := by
            apply hsites.sender.generated
            all_goals
              intro hbad
              rw [hbad] at hheld
              cases hheld
          omega
  | remove hpc | bind hpc =>
      refine h.go rfl rfl ?_ (fun _ hq => ⟨rfl, hq⟩)
      rw [hpc]
      nofun
  | listen hpc =>
      refine h.go rfl rfl ?_ (fun _ _ => ⟨rfl, rfl⟩)
      rw [hpc]
      nofun
  | accept hpc hlisten hqueue =>
      rcases h with ⟨_, hc⟩ | ⟨_, _, hnone⟩
      · rw [hpc] at hc
        cases hc
      · unfold State.queued at hnone
        rw [hlisten] at hnone
        exact absurd (hqueue.symm.trans hnone) nofun
  | arrive1 hpc | leave1 hpc _ | receive hpc _ _ | arrive2 hpc =>
      rw [hpc] at hwhere
      rcases hwhere with hbad | hbad <;> cases hbad
  | leave2 hpc _ | closeConn hpc | closeListener hpc | unlink hpc =>
      refine h.go rfl rfl (fun _ => rfl) ?_
      rw [hpc]
      nofun
  | again hpc =>
      rcases h with ⟨hnext, _⟩ | ⟨_, ho, _⟩
      · -- nothing is queued once the listening socket is closed
        have hmap := hsockets.listener
        rw [hpc] at hmap
        refine .inr ⟨hnext, rfl, ?_⟩
        show s.listener.bind Listener.queue = none
        rw [Option.map_eq_none_iff.mp hmap]
        rfl
      · rw [hpc] at ho
        cases ho

/-- **A move of the receiver keeps the meeting.** -/
theorem Meeting.receiver_move (h : Meeting s) (hsites : Sites c s) (hsockets : Sockets s)
    (hmove : ReceiverMove c s s') : Meeting s' := by
  have hsender := hmove.sender_eq
  have hmet : s.sender.pc.isHeld = true → s'.Linked ∨ s'.Orphaned := by
    intro hheld
    rcases h.met hheld with hlink | horphan
    · exact .inl (hlink.receiver_move hsites hheld hmove)
    · exact .inr (horphan.receiver_move hsites hsockets hheld hmove)
  cases hmove with
  | go hgo =>
      refine h.receiver_frame (fun _ hj => hj) hsender rfl ?_ hmet
      cases hgo with
      | begin _ _ | exit _ _ | rejected _ _ => nofun
      | finish hpc _ =>
          intro _
          rw [hpc]
          rfl
  | remove _ | bind _ | closeConn _ | unlink _ =>
      exact h.receiver_frame (fun _ hj => hj) hsender rfl nofun hmet
  | listen _ | closeListener _ => exact h.receiver_frame nofun hsender rfl nofun hmet
  | @accept l j hpc hlisten hqueue =>
      have hq : s.queued = some j := by
        unfold State.queued
        rw [hlisten]
        exact hqueue
      obtain ⟨hj, hheld⟩ := h.queued j hq
      refine ⟨nofun, ?_, hmet⟩
      intro _
      right
      exact ⟨(h.of_accepting hpc hq).symm.trans hj, (SenderPc.left_of_isHeld hheld).2.2.2⟩
  | arrive1 hpc | leave1 hpc _ | arrive2 hpc | leave2 hpc _ =>
      refine h.receiver_frame (fun _ hj => hj) hsender rfl ?_ hmet
      intro _
      rw [hpc]
      rfl
  | receive _ _ _ => exact h.receiver_frame (fun _ hj => hj) hsender rfl id hmet
  | again _ => exact ⟨h.queued, nofun, hmet⟩

end Akbench.Uds
