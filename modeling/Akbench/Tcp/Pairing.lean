/-
  Akbench.Tcp.Pairing
  ───────────────────
  **WHICH LISTENER A `connect()` FINDS, AND WHAT AN `accept()` RETURNS.**

  Between the first crossing of an iteration and the second the listening
  socket of that iteration is open, and nothing but the connection of that
  iteration is ever in its backlog.

    • `Sockets` — the port, the listening socket and the connection are those
      of the receiver's iteration;
    • `Sites.of_connecting` — where the receiver is when `connect()` is called;
    • `Meeting` — what is in the backlog, and whom an accepted connection is
      to;
    • `Meeting.of_accepting` — what is accepted is the connection of the
      sender's iteration, which is the receiver's.
-/
import Akbench.Tcp.Session

namespace Akbench.Tcp

variable {c : Transfer} {s s' : State}

/-! ## §1. The sockets of the receiver. -/

/-- Its socket is bound to the port. -/
def ReceiverPc.isBound : ReceiverPc → Bool
  | .ready | .binding | .exited | .failed | .overrun | .aborted => false
  | _ => true

/-- Its socket is listening. -/
def ReceiverPc.isListening : ReceiverPc → Bool
  | .ready | .binding | .listening | .exited | .failed | .overrun | .aborted => false
  | _ => true

/-- `conn_fd` is open. -/
def ReceiverPc.hasConn : ReceiverPc → Bool
  | .accepted | .waiting2 | .receiving | .received | .waiting3 | .verifying | .closingConn => true
  | _ => false

/-- The receiver's sockets are those of its iteration. -/
structure Sockets (s : State) : Prop where
  port : s.port = if s.receiver.pc.isBound then some s.receiver.iteration else none
  listener : s.listener.map Listener.iteration =
    if s.receiver.pc.isListening then some s.receiver.iteration else none
  conn : s.conn = if s.receiver.pc.hasConn then some s.receiver.iteration else none

theorem sockets_fresh : Sockets State.fresh :=
  ⟨rfl, rfl, rfl⟩

theorem Sockets.exists_listener (h : Sockets s) (hlisten : s.receiver.pc.isListening = true) :
    ∃ l, s.listener = some l ∧ l.iteration = s.receiver.iteration := by
  have hmap := h.listener
  rw [hlisten, if_pos rfl] at hmap
  exact Option.map_eq_some_iff.mp hmap

theorem Sockets.conn_iteration (h : Sockets s) {j : Nat} (hj : s.conn = some j) :
    s.receiver.pc.hasConn = true ∧ j = s.receiver.iteration := by
  have hconn := h.conn
  rw [hj] at hconn
  split at hconn
  next hhas =>
    injection hconn with hconn
    exact ⟨hhas, hconn⟩
  next => cases hconn

theorem Sockets.conn_eq (h : Sockets s) (hhas : s.receiver.pc.hasConn = true) :
    s.conn = some s.receiver.iteration := by
  have hconn := h.conn
  rw [hhas, if_pos rfl] at hconn
  exact hconn

/-- The sender touches no socket of the receiver, but for the backlog. -/
theorem Sockets.sender_move (h : Sockets s) (hmove : SenderMove c s s') : Sockets s' := by
  cases hmove with
  | go _ | arrive _ | leave _ _ | retry _ | start _ _ | send _ _ | again _ =>
      exact ⟨h.port, h.listener, h.conn⟩
  | connect hpc hlisten =>
      refine ⟨h.port, ?_, h.conn⟩
      have hmap := h.listener
      rw [hlisten] at hmap
      exact hmap

/-- A step of the receiver that leaves its sockets alone. -/
theorem Sockets.frame (h : Sockets s) (hport : s'.port = s.port)
    (hlistener : s'.listener = s.listener) (hconn : s'.conn = s.conn)
    (hiter : s'.receiver.iteration = s.receiver.iteration)
    (hbound : s'.receiver.pc.isBound = s.receiver.pc.isBound)
    (hlistening : s'.receiver.pc.isListening = s.receiver.pc.isListening)
    (hhas : s'.receiver.pc.hasConn = s.receiver.pc.hasConn) : Sockets s' := by
  refine ⟨?_, ?_, ?_⟩
  · rw [hport, hbound, hiter]
    exact h.port
  · rw [hlistener, hlistening, hiter]
    exact h.listener
  · rw [hconn, hhas, hiter]
    exact h.conn

theorem ReceiverGoes.sockets {r : Receiver} {pc : ReceiverPc} (h : ReceiverGoes c r pc) :
    (r.pc = .ready ∧ pc = .binding) ∨ (r.pc = .ready ∧ pc = .exited) ∨
      (pc.isBound = r.pc.isBound ∧ pc.isListening = r.pc.isListening ∧
        pc.hasConn = r.pc.hasConn) := by
  cases h with
  | begin hpc _ => exact .inl ⟨hpc, rfl⟩
  | exit hpc _ => exact .inr (.inl ⟨hpc, rfl⟩)
  | finish hpc _ | verified hpc =>
      rw [hpc]
      exact .inr (.inr ⟨rfl, rfl, rfl⟩)

theorem ReceiverArrives.sockets {pc pc' : ReceiverPc} (h : ReceiverArrives pc pc') :
    pc'.isBound = pc.isBound ∧ pc'.isListening = pc.isListening ∧ pc'.hasConn = pc.hasConn := by
  cases h <;> decide

theorem ReceiverLeaves.sockets {pc pc' : ReceiverPc} (h : ReceiverLeaves pc pc') :
    pc'.isBound = pc.isBound ∧ pc'.isListening = pc.isListening ∧ pc'.hasConn = pc.hasConn := by
  cases h <;> decide

/-- **A move of the receiver keeps its sockets**, provided what it accepts is
of its own iteration. -/
theorem Sockets.receiver_move (h : Sockets s) (hmove : ReceiverMove c s s')
    (hpair : ∀ l j rest, s.receiver.pc = .accepting → s.listener = some l →
      l.queue = j :: rest → j = s.receiver.iteration) : Sockets s' := by
  have hport := h.port
  have hlistener := h.listener
  have hconn := h.conn
  cases hmove with
  | go hgo =>
      obtain ⟨hpc, hpc'⟩ | ⟨hpc, hpc'⟩ | ⟨hbound, hlistening, hhas⟩ := hgo.sockets
      · subst hpc'
        exact h.frame rfl rfl rfl rfl (by rw [hpc]; rfl) (by rw [hpc]; rfl) (by rw [hpc]; rfl)
      · subst hpc'
        exact h.frame rfl rfl rfl rfl (by rw [hpc]; rfl) (by rw [hpc]; rfl) (by rw [hpc]; rfl)
      · exact h.frame rfl rfl rfl rfl hbound hlistening hhas
  | arrive harrive =>
      obtain ⟨hbound, hlistening, hhas⟩ := harrive.sockets
      exact h.frame rfl rfl rfl rfl hbound hlistening hhas
  | leave hleave _ =>
      obtain ⟨hbound, hlistening, hhas⟩ := hleave.sockets
      exact h.frame rfl rfl rfl rfl hbound hlistening hhas
  | bind hpc =>
      rw [hpc] at hlistener hconn
      exact ⟨rfl, hlistener, hconn⟩
  | listen hpc =>
      rw [hpc] at hport hconn
      exact ⟨hport, rfl, hconn⟩
  | accept hpc hlisten hqueue =>
      have hj := hpair _ _ _ hpc hlisten hqueue
      subst hj
      rw [hpc] at hport hlistener
      rw [hlisten] at hlistener
      exact ⟨hport, hlistener, rfl⟩
  | start hpc _ =>
      rw [hpc] at hport hlistener hconn
      exact ⟨hport, hlistener, hconn⟩
  | receive _ _ _ => exact ⟨hport, hlistener, hconn⟩
  | reject _ _ => exact ⟨rfl, rfl, rfl⟩
  | closeConn hpc =>
      rw [hpc] at hport hlistener
      exact ⟨hport, hlistener, rfl⟩
  | again hpc =>
      rw [hpc] at hconn
      exact ⟨rfl, rfl, hconn⟩

/-! ## §2. Who is where. -/

/-- `connect()` has succeeded, and the sender is not past the second
`Wait()`. -/
def SenderPc.isHeld : SenderPc → Bool
  | .connected | .waiting2 => true
  | _ => false

/-- `sock_fd` is connected. -/
def SenderPc.isConnected : SenderPc → Bool
  | .connected | .waiting2 | .sending | .shutting | .sent | .waiting3 | .closing => true
  | _ => false

/-- From the first `Wait()` to the end of `accept()`. -/
def ReceiverPc.isBefore : ReceiverPc → Bool
  | .waiting1 | .accepting => true
  | _ => false

/-- It has accepted and is not past the second `Wait()`. -/
def ReceiverPc.isHeld : ReceiverPc → Bool
  | .accepted | .waiting2 => true
  | _ => false

theorem ReceiverPc.entered_of_isBefore {pc : ReceiverPc} (h : pc.isBefore = true) :
    pc.entered = 1 := by
  cases pc with
  | waiting1 | accepting => rfl
  | ready | binding | listening | listened | accepted | waiting2 | receiving | received | waiting3
  | verifying | closingConn | closingListener | exited | failed | overrun | aborted => cases h

theorem ReceiverPc.entered_of_isHeld {pc : ReceiverPc} (h : pc.isHeld = true) :
    pc.entered ≤ 2 := by
  cases pc with
  | accepted | waiting2 => decide
  | ready | binding | listening | listened | waiting1 | accepting | receiving | received
  | waiting3 | verifying | closingConn | closingListener | exited | failed | overrun
  | aborted => cases h

/-- Past the first crossing and not past the third the socket listens. -/
theorem ReceiverPc.isListening_of_crossings {pc : ReceiverPc} (hentered : 1 ≤ pc.entered)
    (hleft : pc.left ≤ 2) (halive : pc ≠ .overrun) : pc.isListening = true := by
  cases pc with
  | waiting1 | accepting | accepted | waiting2 | receiving | received | waiting3 => rfl
  | ready | binding | listening | listened | exited | failed => exact absurd hentered (by decide)
  | verifying | closingConn | closingListener | aborted => exact absurd hleft (by decide)
  | overrun => exact absurd rfl halive

/-- Before the second crossing is over there is an `accept()` to make, or it
was made. -/
theorem ReceiverPc.isBefore_or_isHeld {pc : ReceiverPc} (hentered : 1 ≤ pc.entered)
    (hleft : pc.left ≤ 1) : pc.isBefore = true ∨ pc.isHeld = true := by
  cases pc with
  | waiting1 | accepting => exact .inl rfl
  | accepted | waiting2 => exact .inr rfl
  | ready | binding | listening | listened | exited | failed => exact absurd hentered (by decide)
  | receiving | received | waiting3 | verifying | closingConn | closingListener | overrun
  | aborted => exact absurd hleft (by decide)

theorem SenderPc.left_of_isHeld {pc : SenderPc} (h : pc.isHeld = true) :
    pc.left = 1 ∧ pc.entered ≤ 2 ∧ pc.isConnected = true := by
  cases pc with
  | connected | waiting2 => decide
  | generating | ready | created | waiting1 | connecting | sending | shutting | sent | waiting3
  | closing | exited | aborted | killed => cases h

/-- **Between its first crossing and its second** the sender has the receiver
of its own iteration before it, with the listening socket open. -/
theorem Sites.of_between (h : Sites c s) (hleft : s.sender.pc.left = 1) :
    s.receiver.iteration = s.sender.iteration ∧ 1 ≤ s.receiver.pc.entered ∧
      s.receiver.pc.isListening = true := by
  have hap := h.apart
  have hr := h.receiver_left_le
  have hentered : s.sender.pc.entered ≤ 2 := by
    cases hpc : s.sender.pc with
    | connecting | connected | waiting2 => decide
    | generating | ready | created | waiting1 | sending | shutting | sent | waiting3 | closing
    | exited | aborted | killed =>
        rw [hpc] at hleft
        cases hleft
  have hsame : s.receiver.iteration = s.sender.iteration := by omega
  have hentered' : 1 ≤ s.receiver.pc.entered := by omega
  exact ⟨hsame, hentered',
    ReceiverPc.isListening_of_crossings hentered' (by omega) h.receiver.alive.2⟩

/-- **When `connect()` is called** the receiver has not left its second
crossing. -/
theorem Sites.of_connecting (h : Sites c s) (hpc : s.sender.pc = .connecting) :
    s.receiver.pc.isBefore = true ∨ s.receiver.pc.isHeld = true := by
  obtain ⟨hsame, hentered, _⟩ := h.of_between (by rw [hpc]; rfl)
  have hap := h.apart.2
  rw [hpc, hsame] at hap
  have he : SenderPc.connecting.entered = 1 := rfl
  exact ReceiverPc.isBefore_or_isHeld hentered (by omega)

/-! ## §3. The backlog. -/

/-- How the sender's connection and the receiver's sockets go together. -/
structure Meeting (s : State) : Prop where
  backlog : ∀ l, s.listener = some l → l.queue =
    if s.sender.pc.isHeld ∧ s.receiver.pc.isBefore then [s.sender.iteration] else []
  met : s.receiver.pc.isHeld = true →
    s.receiver.iteration = s.sender.iteration ∧ s.sender.pc.isConnected = true

theorem meeting_fresh : Meeting State.fresh :=
  ⟨nofun, nofun⟩

/-- Nothing is queued for a sender that has not connected or has been
accepted. -/
theorem Meeting.queue_nil (h : Meeting s) {l : Listener} (hl : s.listener = some l)
    (hnot : ¬ (s.sender.pc.isHeld = true ∧ s.receiver.pc.isBefore = true)) : l.queue = [] := by
  rw [h.backlog l hl]
  exact if_neg hnot

/-- **What is accepted** is the one connection queued, of the sender's
iteration. -/
theorem Meeting.of_accepting (h : Meeting s) {l : Listener} {j : Nat} {rest : List Nat}
    (hl : s.listener = some l) (hqueue : l.queue = j :: rest) :
    s.sender.pc.isHeld = true ∧ j = s.sender.iteration ∧ rest = [] := by
  have hbacklog := h.backlog l hl
  rw [hqueue] at hbacklog
  split at hbacklog
  next hheld =>
    injection hbacklog with hj hrest
    exact ⟨hheld.1, hj, hrest⟩
  next => cases hbacklog

/-- A step of the sender that does not concern its connection. -/
theorem Meeting.sender_frame (h : Meeting s) (hlistener : s'.listener = s.listener)
    (hreceiver : s'.receiver = s.receiver) (hiter : s'.sender.iteration = s.sender.iteration)
    (hheld : s'.sender.pc.isHeld = s.sender.pc.isHeld)
    (hconn : s.sender.pc.isConnected = true → s'.sender.pc.isConnected = true) :
    Meeting s' := by
  refine ⟨?_, ?_⟩
  · rw [hlistener, hreceiver, hiter, hheld]
    exact h.backlog
  · rw [hreceiver, hiter]
    intro hmet
    obtain ⟨hsame, hc⟩ := h.met hmet
    exact ⟨hsame, hconn hc⟩

theorem SenderGoes.meeting {p : Sender} {pc : SenderPc} (h : SenderGoes c p pc) :
    pc.isHeld = p.pc.isHeld ∧ (p.pc.isConnected = true → pc.isConnected = true) := by
  cases h with
  | generate hpc _ | refuse hpc _ | begin hpc _ | exit hpc _ | finish hpc _ | shut hpc =>
      rw [hpc]
      decide

theorem SenderArrives.meeting {pc pc' : SenderPc} (h : SenderArrives pc pc') :
    pc'.isHeld = pc.isHeld ∧ (pc.isConnected = true → pc'.isConnected = true) := by
  cases h <;> decide

theorem SenderLeaves.meeting {pc pc' : SenderPc} (h : SenderLeaves pc pc') :
    pc'.isHeld = pc.isHeld ∧ (pc.isConnected = true → pc'.isConnected = true) := by
  cases h <;> decide

/-- **A move of the sender keeps the meeting.** -/
theorem Meeting.sender_move (h : Meeting s) (hsites : Sites c s)
    (hmove : SenderMove c s s') : Meeting s' := by
  cases hmove with
  | go hgo =>
      obtain ⟨hheld, hconn⟩ := hgo.meeting
      exact h.sender_frame rfl rfl rfl hheld hconn
  | arrive harrive =>
      obtain ⟨hheld, hconn⟩ := harrive.meeting
      exact h.sender_frame rfl rfl rfl hheld hconn
  | leave hleave _ =>
      obtain ⟨hheld, hconn⟩ := hleave.meeting
      exact h.sender_frame rfl rfl rfl hheld hconn
  | retry hpc => exact h
  | @connect l hpc hlisten =>
      have hwhere := hsites.of_connecting hpc
      have hnone : l.queue = [] := h.queue_nil hlisten (by rw [hpc]; nofun)
      -- a receiver that has accepted has a sender that has connected
      have hbefore : s.receiver.pc.isBefore = true := by
        rcases hwhere with hbefore | hheld
        · exact hbefore
        · have hconn := (h.met hheld).2
          rw [hpc] at hconn
          cases hconn
      refine ⟨?_, ?_⟩
      · intro l' hl'
        injection hl' with hl'
        subst hl'
        show l.queue ++ [s.sender.iteration] = _
        rw [hnone, if_pos ⟨rfl, hbefore⟩]
        rfl
      · intro hheld
        exact ⟨(h.met hheld).1, rfl⟩
  | start hpc hcan =>
      -- it leaves with a receiver that has entered its own second `Wait()`
      have hcan' := hsites.canLeave_sender.mp hcan
      obtain ⟨hsame, _, _⟩ := hsites.of_between (by rw [hpc]; rfl)
      have hentered : 2 ≤ s.receiver.pc.entered := by
        rw [hpc, hsame] at hcan'
        have he : SenderPc.waiting2.entered = 2 := rfl
        omega
      have hafter : ¬ s.receiver.pc.isBefore = true := by
        intro hbefore
        have hone := ReceiverPc.entered_of_isBefore hbefore
        omega
      refine ⟨?_, ?_⟩
      · intro l hl
        rw [h.queue_nil hl (fun hboth => hafter hboth.2)]
        exact (if_neg (fun hboth => hafter hboth.2)).symm
      · intro hheld
        exact ⟨hsame, rfl⟩
  | send hpc hle => exact h.sender_frame rfl rfl rfl rfl id
  | again hpc =>
      have hap := hsites.apart.1
      rw [hpc] at hap
      have hl : SenderPc.closing.left = 3 := rfl
      refine ⟨?_, ?_⟩
      · intro l hl
        rw [h.queue_nil hl (by rw [hpc]; nofun)]
        exact (if_neg nofun).symm
      · intro hheld
        -- nobody who has accepted is behind a sender that is through
        exfalso
        obtain ⟨hsame, _⟩ := h.met hheld
        have hentered := ReceiverPc.entered_of_isHeld hheld
        dsimp only at hentered
        omega

/-- A step of the receiver that does not concern the backlog. -/
theorem Meeting.receiver_frame (h : Meeting s) (hlistener : s'.listener = s.listener)
    (hsender : s'.sender = s.sender) (hiter : s'.receiver.iteration = s.receiver.iteration)
    (hbefore : s'.receiver.pc.isBefore = s.receiver.pc.isBefore)
    (hheld : s'.receiver.pc.isHeld = true → s.receiver.pc.isHeld = true) : Meeting s' := by
  refine ⟨?_, ?_⟩
  · rw [hlistener, hsender, hbefore]
    exact h.backlog
  · rw [hsender, hiter]
    exact fun hmet => h.met (hheld hmet)

theorem ReceiverGoes.meeting {r : Receiver} {pc : ReceiverPc} (h : ReceiverGoes c r pc) :
    pc.isBefore = r.pc.isBefore ∧ (pc.isHeld = true → r.pc.isHeld = true) := by
  cases h with
  | begin hpc _ | exit hpc _ | finish hpc _ | verified hpc =>
      rw [hpc]
      decide

theorem ReceiverLeaves.meeting {pc pc' : ReceiverPc} (h : ReceiverLeaves pc pc') :
    pc'.isBefore = pc.isBefore ∧ (pc'.isHeld = true → pc.isHeld = true) := by
  cases h <;> decide

/-- **A move of the receiver keeps the meeting.** -/
theorem Meeting.receiver_move (h : Meeting s) (hsites : Sites c s)
    (hmove : ReceiverMove c s s') : Meeting s' := by
  cases hmove with
  | go hgo =>
      obtain ⟨hbefore, hheld⟩ := hgo.meeting
      exact h.receiver_frame rfl rfl rfl hbefore hheld
  | @arrive pc harrive =>
      generalize hpc : s.receiver.pc = old at harrive
      cases harrive with
      | first =>
          -- nobody has connected before the first crossing
          have hfree : ¬ s.sender.pc.isHeld = true := by
            intro hheld
            obtain ⟨hleft, _, _⟩ := SenderPc.left_of_isHeld hheld
            obtain ⟨_, hentered, _⟩ := hsites.of_between hleft
            rw [hpc] at hentered
            exact absurd hentered (by decide)
          refine ⟨?_, nofun⟩
          intro l hl
          rw [h.queue_nil hl (fun hboth => hfree hboth.1)]
          exact (if_neg (fun hboth => hfree hboth.1)).symm
      | second => exact h.receiver_frame rfl rfl rfl (by rw [hpc]; rfl) (fun _ => by rw [hpc]; rfl)
      | third => exact h.receiver_frame rfl rfl rfl (by rw [hpc]; rfl) nofun
  | leave hleave _ =>
      obtain ⟨hbefore, hheld⟩ := hleave.meeting
      exact h.receiver_frame rfl rfl rfl hbefore hheld
  | bind hpc => exact h.receiver_frame rfl rfl rfl (by rw [hpc]; rfl) nofun
  | listen hpc =>
      refine ⟨?_, nofun⟩
      intro l hl
      injection hl with hl
      subst hl
      exact (if_neg (fun hboth => Bool.false_ne_true hboth.2)).symm
  | accept hpc hlisten hqueue =>
      obtain ⟨hheld, _, hrest⟩ := h.of_accepting hlisten hqueue
      obtain ⟨hleft, _, hconn⟩ := SenderPc.left_of_isHeld hheld
      obtain ⟨hsame, _, _⟩ := hsites.of_between hleft
      refine ⟨?_, fun _ => ⟨hsame, hconn⟩⟩
      intro l hl
      injection hl with hl
      subst hl
      subst hrest
      exact (if_neg (fun hboth => Bool.false_ne_true hboth.2)).symm
  | start hpc _ => exact h.receiver_frame rfl rfl rfl (by rw [hpc]; rfl) nofun
  | receive hpc _ _ => exact h.receiver_frame rfl rfl rfl rfl id
  | reject hpc _ => exact ⟨nofun, nofun⟩
  | closeConn hpc => exact h.receiver_frame rfl rfl rfl (by rw [hpc]; rfl) nofun
  | again hpc => exact ⟨nofun, nofun⟩

/-- The connection an `accept()` returns is of the receiver's iteration. -/
theorem Meeting.accepts_own (h : Meeting s) (hsites : Sites c s) :
    ∀ l j rest, s.receiver.pc = .accepting → s.listener = some l →
      l.queue = j :: rest → j = s.receiver.iteration := by
  intro l j rest _ hl hqueue
  obtain ⟨hheld, hj, _⟩ := h.of_accepting hl hqueue
  obtain ⟨hleft, _, _⟩ := SenderPc.left_of_isHeld hheld
  rw [hj, (hsites.of_between hleft).1]

end Akbench.Tcp
