/-
  Akbench.Uds.Session
  ───────────────────
  **WHERE THE TWO PROCESSES AND THEIR SOCKETS CAN BE.**

  Both processes cross the barrier twice in each iteration, so they run in
  lockstep with period 2; the sockets of the receiver are given by its
  position alone.

    • `Sites` — the lockstep and what holds of either process by itself;
    • `Sites.sender`, `Sites.receiver` — every move keeps it;
    • `Sockets` — the path, the listening socket and the connection.
-/
import Akbench.Uds.Moves

namespace Akbench.Uds

open Framing (slice untag)

variable {c : Transfer} {s s' : State}

/-! ## §1. Positions as places of the lockstep. -/

/-- Crossings of the iteration entered. -/
def SenderPc.entered : SenderPc → Nat
  | .generating | .ready | .connecting | .connected | .exited | .aborted => 0
  | .waiting1 | .sending | .sent | .killed => 1
  | .waiting2 | .closing => 2

/-- Crossings of the iteration left. -/
def SenderPc.left : SenderPc → Nat
  | .generating | .ready | .connecting | .connected | .waiting1 | .exited | .aborted => 0
  | .sending | .sent | .waiting2 | .killed => 1
  | .closing => 2

/-- Crossings of the iteration entered. -/
def ReceiverPc.entered : ReceiverPc → Nat
  | .ready | .removing | .binding | .listening | .accepting | .accepted | .exited | .failed => 0
  | .waiting1 | .receiving | .received => 1
  | .waiting2 | .closingConn | .closingListener | .unlinking | .verifying | .aborted => 2

/-- Crossings of the iteration left. -/
def ReceiverPc.left : ReceiverPc → Nat
  | .ready | .removing | .binding | .listening | .accepting | .accepted | .waiting1 | .exited
  | .failed => 0
  | .receiving | .received | .waiting2 => 1
  | .closingConn | .closingListener | .unlinking | .verifying | .aborted => 2

def State.place (s : State) : Side → Place
  | .sender => ⟨s.sender.iteration, s.sender.pc.entered, s.sender.pc.left⟩
  | .receiver => ⟨s.receiver.iteration, s.receiver.pc.entered, s.receiver.pc.left⟩

/-- In an iteration. -/
def SenderPc.isRunning : SenderPc → Bool
  | .generating | .ready | .exited | .aborted => false
  | _ => true

/-- In an iteration. -/
def ReceiverPc.isRunning : ReceiverPc → Bool
  | .ready | .exited => false
  | _ => true

/-- In the `send` loop or past it. -/
def SenderPc.isPushing : SenderPc → Bool
  | .sending | .sent | .waiting2 | .closing => true
  | _ => false

/-- Past the `send` loop. -/
def SenderPc.isPastLoop : SenderPc → Bool
  | .sent | .waiting2 | .closing => true
  | _ => false

/-- In the `recv` loop or past it. -/
def ReceiverPc.isTaking : ReceiverPc → Bool
  | .receiving | .received | .waiting2 | .closingConn | .closingListener | .unlinking
  | .verifying | .aborted => true
  | _ => false

/-- Past the `recv` loop. -/
def ReceiverPc.isPastLoop : ReceiverPc → Bool
  | .received | .waiting2 | .closingConn | .closingListener | .unlinking | .verifying
  | .aborted => true
  | _ => false

/-- What holds of the sender by itself. -/
structure SenderLocal (c : Transfer) (p : Sender) : Prop where
  alive : p.pc ≠ .killed
  bound : p.iteration ≤ c.total
  running : p.pc.isRunning = true → p.iteration < c.total
  exited : p.pc = .exited → p.iteration = c.total
  /-- Past `GenerateDataToSend` the size is one it accepts. -/
  generated : p.pc ≠ .generating → p.pc ≠ .aborted → checksumSize < c.dataSize
  rejected : p.pc = .aborted → c.dataSize ≤ checksumSize
  sent_le : p.pc.isPushing = true → p.totalSent ≤ c.payload.length
  /-- The loop is left with the whole frame sent. -/
  sentAll : p.pc.isPastLoop = true → c.payload.length ≤ p.totalSent

/-- What holds of the receiver by itself. -/
structure ReceiverLocal (c : Transfer) (r : Receiver) : Prop where
  alive : r.pc ≠ .failed
  bound : r.iteration ≤ c.total
  running : r.pc.isRunning = true → r.iteration < c.total
  exited : r.pc = .exited → r.iteration = c.total
  rejected : r.pc = .aborted → c.dataSize ≤ checksumSize
  /-- The loop is left with a whole frame. -/
  whole : r.pc.isPastLoop = true → c.payload.length ≤ r.totalReceived

/-- The two processes and the barrier. -/
structure Sites (c : Transfer) (s : State) : Prop where
  lockstep : Lockstep 2 0 s.barrier s.place
  sender : SenderLocal c s.sender
  receiver : ReceiverLocal c s.receiver

theorem sites_fresh (c : Transfer) : Sites c (State.fresh c) := by
  refine ⟨⟨?_, ?_, ?_, ?_, Rendezvous.safe_fresh⟩, ?_, ?_⟩
  · intro p
    cases p <;> rfl
  · intro p
    cases p <;> rfl
  · intro p
    cases p <;> exact Nat.le_refl 0
  · intro p
    cases p <;> exact Nat.zero_le 2
  · exact ⟨nofun, Nat.zero_le _, nofun, nofun, fun hne => absurd rfl hne, nofun, nofun, nofun⟩
  · exact ⟨nofun, Nat.zero_le _, nofun, nofun, nofun, nofun⟩

/-- A process does not leave a crossing the other has not entered. -/
theorem Sites.apart (h : Sites c s) :
    s.sender.iteration * 2 + s.sender.pc.left ≤
        s.receiver.iteration * 2 + s.receiver.pc.entered ∧
      s.receiver.iteration * 2 + s.receiver.pc.left ≤
        s.sender.iteration * 2 + s.sender.pc.entered := by
  have hsl : s.barrier.left .sender + 0 = s.sender.iteration * 2 + s.sender.pc.left :=
    h.lockstep.left .sender
  have hse : s.barrier.entered .sender + 0 = s.sender.iteration * 2 + s.sender.pc.entered :=
    h.lockstep.entered .sender
  have hrl : s.barrier.left .receiver + 0 = s.receiver.iteration * 2 + s.receiver.pc.left :=
    h.lockstep.left .receiver
  have hre : s.barrier.entered .receiver + 0 =
      s.receiver.iteration * 2 + s.receiver.pc.entered := h.lockstep.entered .receiver
  have hsr := h.lockstep.safe .sender .receiver
  have hrs := h.lockstep.safe .receiver .sender
  omega

theorem Sites.canLeave_sender (h : Sites c s) :
    s.barrier.CanLeave .sender ↔ s.sender.iteration * 2 + s.sender.pc.entered ≤
      s.receiver.iteration * 2 + s.receiver.pc.entered := by
  have hse : s.barrier.entered .sender + 0 = s.sender.iteration * 2 + s.sender.pc.entered :=
    h.lockstep.entered .sender
  have hre : s.barrier.entered .receiver + 0 =
      s.receiver.iteration * 2 + s.receiver.pc.entered := h.lockstep.entered .receiver
  rw [Rendezvous.canLeave_sender]
  omega

theorem Sites.canLeave_receiver (h : Sites c s) :
    s.barrier.CanLeave .receiver ↔ s.receiver.iteration * 2 + s.receiver.pc.entered ≤
      s.sender.iteration * 2 + s.sender.pc.entered := by
  have hse : s.barrier.entered .sender + 0 = s.sender.iteration * 2 + s.sender.pc.entered :=
    h.lockstep.entered .sender
  have hre : s.barrier.entered .receiver + 0 =
      s.receiver.iteration * 2 + s.receiver.pc.entered := h.lockstep.entered .receiver
  rw [Rendezvous.canLeave_receiver]
  omega

/-! ## §2. Every move keeps the sites. -/

theorem SenderMove.receiver_eq (h : SenderMove c s s') : s'.receiver = s.receiver := by
  cases h <;> rfl

theorem ReceiverMove.sender_eq (h : ReceiverMove c s s') : s'.sender = s.sender := by
  cases h <;> rfl

theorem SenderGoes.crossings {p : Sender} {pc : SenderPc} (h : SenderGoes c p pc) :
    pc.entered = p.pc.entered ∧ pc.left = p.pc.left := by
  cases h with
  | generated hpc _ | rejected hpc _ | begin hpc _ | exit hpc _ | finish hpc _ =>
      rw [hpc]
      exact ⟨rfl, rfl⟩

theorem ReceiverGoes.crossings {r : Receiver} {pc : ReceiverPc} (h : ReceiverGoes c r pc) :
    pc.entered = r.pc.entered ∧ pc.left = r.pc.left := by
  cases h with
  | begin hpc _ | exit hpc _ | finish hpc _ | rejected hpc _ =>
      rw [hpc]
      exact ⟨rfl, rfl⟩

theorem SenderMove.place_receiver (h : SenderMove c s s') :
    ∀ q, q ≠ .sender → s'.place q = s.place q := by
  intro q hq
  cases q with
  | sender => exact absurd rfl hq
  | receiver =>
      show Place.mk _ _ _ = Place.mk _ _ _
      rw [h.receiver_eq]

theorem ReceiverMove.place_sender (h : ReceiverMove c s s') :
    ∀ q, q ≠ .receiver → s'.place q = s.place q := by
  intro q hq
  cases q with
  | receiver => exact absurd rfl hq
  | sender =>
      show Place.mk _ _ _ = Place.mk _ _ _
      rw [h.sender_eq]

theorem sender_place {pc : SenderPc} (hpc : s.sender.pc = pc) :
    s.place .sender = ⟨s.sender.iteration, pc.entered, pc.left⟩ := by
  subst hpc
  rfl

theorem receiver_place {pc : ReceiverPc} (hpc : s.receiver.pc = pc) :
    s.place .receiver = ⟨s.receiver.iteration, pc.entered, pc.left⟩ := by
  subst hpc
  rfl

/-- A place given by its parts. -/
theorem place_eq {i k l m n : Nat} (hk : k = l) (hm : m = n) :
    Place.mk i k m = Place.mk i l n := by
  rw [hk, hm]

/-- **A move of the sender keeps the lockstep.** -/
theorem SenderMove.lockstep (h : SenderMove c s s') (hlock : Lockstep 2 0 s.barrier s.place) :
    Lockstep 2 0 s'.barrier s'.place := by
  have hother := h.place_receiver
  cases h with
  | go hgo =>
      obtain ⟨he, hl⟩ := hgo.crossings
      exact hlock.stay hother (.inl (place_eq he hl))
  | retry hpc => exact hlock
  | connect hpc _ _ => exact hlock.stay_from hother (sender_place hpc) rfl
  | send _ _ => exact hlock.stay hother (.inl rfl)
  | arrive1 hpc | arrive2 hpc =>
      exact hlock.arrive_from hother (sender_place hpc) rfl (by decide)
  | leave1 hpc hcan | leave2 hpc hcan =>
      exact hlock.leave_from hother (sender_place hpc) rfl (by decide) hcan
  | again hpc => exact hlock.next_from hother (sender_place hpc) rfl

/-- **A move of the receiver keeps the lockstep.** -/
theorem ReceiverMove.lockstep (h : ReceiverMove c s s') (hlock : Lockstep 2 0 s.barrier s.place) :
    Lockstep 2 0 s'.barrier s'.place := by
  have hother := h.place_sender
  cases h with
  | go hgo =>
      obtain ⟨he, hl⟩ := hgo.crossings
      exact hlock.stay hother (.inl (place_eq he hl))
  | remove hpc | bind hpc | listen hpc | accept hpc _ _ | closeConn hpc | closeListener hpc
  | unlink hpc => exact hlock.stay_from hother (receiver_place hpc) rfl
  | receive _ _ _ => exact hlock.stay hother (.inl rfl)
  | arrive1 hpc | arrive2 hpc =>
      exact hlock.arrive_from hother (receiver_place hpc) rfl (by decide)
  | leave1 hpc hcan | leave2 hpc hcan =>
      exact hlock.leave_from hother (receiver_place hpc) rfl (by decide) hcan
  | again hpc => exact hlock.next_from hother (receiver_place hpc) rfl

/-- A sender that stays in its iteration and leaves its counters alone. -/
theorem SenderLocal.within {p : Sender} (h : SenderLocal c p) (pc : SenderPc)
    (hrun : p.pc.isRunning = true) (halive : pc ≠ .killed) (hpc : pc.isRunning = true)
    (hpush : pc.isPushing = true → p.pc.isPushing = true)
    (hpast : pc.isPastLoop = true → c.payload.length ≤ p.totalSent) :
    SenderLocal c { p with pc := pc } := by
  refine ⟨halive, h.bound, fun _ => h.running hrun, ?_, ?_, ?_, ?_, hpast⟩
  · intro hexit
    have hexit' : pc = .exited := hexit
    rw [hexit'] at hpc
    cases hpc
  · intro _ _
    apply h.generated
    · intro hgen
      rw [hgen] at hrun
      cases hrun
    · intro hab
      rw [hab] at hrun
      cases hrun
  · intro hab
    have hab' : pc = .aborted := hab
    rw [hab'] at hpc
    cases hpc
  · intro hp
    exact h.sent_le (hpush hp)

/-- **A move of the sender keeps what holds of it.** -/
theorem SenderMove.local (h : SenderMove c s s') (hp : SenderLocal c s.sender) :
    SenderLocal c s'.sender := by
  cases h with
  | go hgo =>
      cases hgo with
      | generated hpc hsize =>
          exact ⟨nofun, hp.bound, nofun, nofun, fun _ _ => hsize, nofun, nofun, nofun⟩
      | rejected hpc hsize =>
          exact ⟨nofun, hp.bound, nofun, nofun, fun _ hne => absurd rfl hne, fun _ => hsize,
            nofun, nofun⟩
      | begin hpc hlt =>
          have hgen := hp.generated (by rw [hpc]; nofun) (by rw [hpc]; nofun)
          exact ⟨nofun, hp.bound, fun _ => hlt, nofun, fun _ _ => hgen, nofun, nofun, nofun⟩
      | exit hpc hge =>
          have hgen := hp.generated (by rw [hpc]; nofun) (by rw [hpc]; nofun)
          have hdone := Nat.le_antisymm hp.bound hge
          exact ⟨nofun, hp.bound, nofun, fun _ => hdone, fun _ _ => hgen, nofun, nofun, nofun⟩
      | finish hpc hall =>
          exact hp.within .sent (by rw [hpc]; rfl) nofun rfl (fun _ => by rw [hpc]; rfl)
            (fun _ => hall)
  | retry hpc => exact hp
  | connect hpc hlisten hqueue =>
      exact hp.within .connected (by rw [hpc]; rfl) nofun rfl nofun nofun
  | arrive1 hpc => exact hp.within .waiting1 (by rw [hpc]; rfl) nofun rfl nofun nofun
  | leave1 hpc hcan =>
      have hgen := hp.generated (by rw [hpc]; nofun) (by rw [hpc]; nofun)
      have hlt := hp.running (by rw [hpc]; rfl)
      exact ⟨nofun, hp.bound, fun _ => hlt, nofun, fun _ _ => hgen, nofun,
        fun _ => Nat.zero_le _, nofun⟩
  | send hpc hle =>
      have hgen := hp.generated (by rw [hpc]; nofun) (by rw [hpc]; nofun)
      have hlt := hp.running (by rw [hpc]; rfl)
      refine ⟨hp.alive, hp.bound, fun _ => hlt, ?_, fun _ _ => hgen, ?_, fun _ => hle, ?_⟩
      all_goals
        intro hbad
        dsimp only at hbad
        rw [hpc] at hbad
        cases hbad
  | arrive2 hpc =>
      exact hp.within .waiting2 (by rw [hpc]; rfl) nofun rfl (fun _ => by rw [hpc]; rfl)
        (fun _ => hp.sentAll (by rw [hpc]; rfl))
  | leave2 hpc hcan =>
      exact hp.within .closing (by rw [hpc]; rfl) nofun rfl (fun _ => by rw [hpc]; rfl)
        (fun _ => hp.sentAll (by rw [hpc]; rfl))
  | again hpc =>
      have hgen := hp.generated (by rw [hpc]; nofun) (by rw [hpc]; nofun)
      have hlt := hp.running (by rw [hpc]; rfl)
      exact ⟨nofun, hlt, nofun, nofun, fun _ _ => hgen, nofun, nofun, nofun⟩

/-- A receiver that stays in its iteration and leaves its counters alone. -/
theorem ReceiverLocal.within {r : Receiver} (h : ReceiverLocal c r) (pc : ReceiverPc)
    (hrun : r.pc.isRunning = true) (halive : pc ≠ .failed) (hexit : pc ≠ .exited)
    (hreject : pc ≠ .aborted)
    (hpast : pc.isPastLoop = true → c.payload.length ≤ r.totalReceived) :
    ReceiverLocal c { r with pc := pc } :=
  ⟨halive, h.bound, fun _ => h.running hrun, fun heq => absurd heq hexit,
    fun heq => absurd heq hreject, hpast⟩

/-- **A move of the receiver keeps what holds of it.** -/
theorem ReceiverMove.local (h : ReceiverMove c s s') (hr : ReceiverLocal c s.receiver) :
    ReceiverLocal c s'.receiver := by
  cases h with
  | go hgo =>
      cases hgo with
      | begin hpc hlt => exact ⟨nofun, hr.bound, fun _ => hlt, nofun, nofun, nofun⟩
      | exit hpc hge =>
          have hdone := Nat.le_antisymm hr.bound hge
          exact ⟨nofun, hr.bound, nofun, fun _ => hdone, nofun, nofun⟩
      | finish hpc hall =>
          exact hr.within .received (by rw [hpc]; rfl) nofun nofun nofun (fun _ => hall)
      | rejected hpc hsize =>
          have hlt := hr.running (by rw [hpc]; rfl)
          have hwhole := hr.whole (by rw [hpc]; rfl)
          exact ⟨nofun, hr.bound, fun _ => hlt, nofun, fun _ => hsize, fun _ => hwhole⟩
  | remove hpc => exact hr.within .binding (by rw [hpc]; rfl) nofun nofun nofun nofun
  | bind hpc => exact hr.within .listening (by rw [hpc]; rfl) nofun nofun nofun nofun
  | listen hpc => exact hr.within .accepting (by rw [hpc]; rfl) nofun nofun nofun nofun
  | accept hpc hlisten hqueue =>
      exact hr.within .accepted (by rw [hpc]; rfl) nofun nofun nofun nofun
  | arrive1 hpc => exact hr.within .waiting1 (by rw [hpc]; rfl) nofun nofun nofun nofun
  | leave1 hpc hcan =>
      have hlt := hr.running (by rw [hpc]; rfl)
      exact ⟨nofun, hr.bound, fun _ => hlt, nofun, nofun, nofun⟩
  | receive hpc hconn hle =>
      have hlt := hr.running (by rw [hpc]; rfl)
      refine ⟨hr.alive, hr.bound, fun _ => hlt, ?_, ?_, ?_⟩
      all_goals
        intro hbad
        dsimp only at hbad
        rw [hpc] at hbad
        cases hbad
  | arrive2 hpc =>
      exact hr.within .waiting2 (by rw [hpc]; rfl) nofun nofun nofun
        (fun _ => hr.whole (by rw [hpc]; rfl))
  | leave2 hpc hcan =>
      exact hr.within .closingConn (by rw [hpc]; rfl) nofun nofun nofun
        (fun _ => hr.whole (by rw [hpc]; rfl))
  | closeConn hpc =>
      exact hr.within .closingListener (by rw [hpc]; rfl) nofun nofun nofun
        (fun _ => hr.whole (by rw [hpc]; rfl))
  | closeListener hpc =>
      exact hr.within .unlinking (by rw [hpc]; rfl) nofun nofun nofun
        (fun _ => hr.whole (by rw [hpc]; rfl))
  | unlink hpc =>
      exact hr.within .verifying (by rw [hpc]; rfl) nofun nofun nofun
        (fun _ => hr.whole (by rw [hpc]; rfl))
  | again hpc =>
      have hlt := hr.running (by rw [hpc]; rfl)
      exact ⟨nofun, hlt, nofun, nofun, nofun, nofun⟩

/-- **A move of the sender keeps the sites.** -/
theorem Sites.sender_move (h : Sites c s) (hmove : SenderMove c s s') : Sites c s' :=
  ⟨hmove.lockstep h.lockstep, hmove.local h.sender, hmove.receiver_eq ▸ h.receiver⟩

/-- **A move of the receiver keeps the sites.** -/
theorem Sites.receiver_move (h : Sites c s) (hmove : ReceiverMove c s s') : Sites c s' :=
  ⟨hmove.lockstep h.lockstep, hmove.sender_eq ▸ h.sender, hmove.local h.receiver⟩

/-! ## §3. The sockets of the receiver. -/

/-- Its socket is bound to the path. -/
def ReceiverPc.isBound : ReceiverPc → Bool
  | .listening | .accepting | .accepted | .waiting1 | .receiving | .received | .waiting2
  | .closingConn | .closingListener | .unlinking => true
  | _ => false

/-- Its socket is listening. -/
def ReceiverPc.isListening : ReceiverPc → Bool
  | .accepting | .accepted | .waiting1 | .receiving | .received | .waiting2 | .closingConn
  | .closingListener => true
  | _ => false

/-- `conn_fd` is open. -/
def ReceiverPc.hasConn : ReceiverPc → Bool
  | .accepted | .waiting1 | .receiving | .received | .waiting2 | .closingConn => true
  | _ => false

/-- The receiver's sockets are those of its iteration. -/
structure Sockets (s : State) : Prop where
  path : s.path = if s.receiver.pc.isBound then some s.receiver.iteration else none
  listener : s.listener.map Listener.iteration =
    if s.receiver.pc.isListening then some s.receiver.iteration else none
  conn : s.conn = if s.receiver.pc.hasConn then some s.receiver.iteration else none

theorem sockets_fresh (c : Transfer) : Sockets (State.fresh c) :=
  ⟨rfl, rfl, rfl⟩

theorem Sockets.listener_iteration (h : Sockets s) {l : Listener} (hl : s.listener = some l) :
    s.receiver.pc.isListening = true ∧ l.iteration = s.receiver.iteration := by
  have hmap := h.listener
  rw [hl] at hmap
  split at hmap
  next hlisten =>
    injection hmap with hmap
    exact ⟨hlisten, hmap⟩
  next => cases hmap

theorem Sockets.exists_listener (h : Sockets s) (hlisten : s.receiver.pc.isListening = true) :
    ∃ l, s.listener = some l ∧ l.iteration = s.receiver.iteration := by
  have hmap := h.listener
  rw [hlisten, if_pos rfl] at hmap
  exact Option.map_eq_some_iff.mp hmap

theorem Sockets.conn_iteration (h : Sockets s) {j : Nat} (hj : s.conn = some j) :
    s.receiver.pc.hasConn = true ∧ j = s.receiver.iteration := by
  have hconn := h.conn
  rw [hj] at hconn
  split at hconn
  next hhas =>
    injection hconn with hconn
    exact ⟨hhas, hconn⟩
  next => cases hconn

theorem Sockets.conn_eq (h : Sockets s) (hhas : s.receiver.pc.hasConn = true) :
    s.conn = some s.receiver.iteration := by
  have hconn := h.conn
  rw [hhas, if_pos rfl] at hconn
  exact hconn

/-- The sender touches no socket of the receiver, but for the backlog. -/
theorem Sockets.sender_move (h : Sockets s) (hmove : SenderMove c s s') : Sockets s' := by
  cases hmove with
  | go _ | retry _ | arrive1 _ | leave1 _ _ | send _ _ | arrive2 _ | leave2 _ _ | again _ =>
      exact ⟨h.path, h.listener, h.conn⟩
  | connect hpc hlisten hqueue =>
      refine ⟨h.path, ?_, h.conn⟩
      have hmap := h.listener
      rw [hlisten] at hmap
      exact hmap

/-- **A move of the receiver keeps its sockets**, provided what it accepts is
of its own iteration. -/
theorem Sockets.receiver_move (h : Sockets s) (hmove : ReceiverMove c s s')
    (hpair : ∀ j, s.receiver.pc = .accepting → s.queued = some j → j = s.receiver.iteration) :
    Sockets s' := by
  have hpath := h.path
  have hlistener := h.listener
  have hconn := h.conn
  cases hmove with
  | go hgo =>
      cases hgo with
      | begin hpc _ | exit hpc _ | finish hpc _ | rejected hpc _ =>
          rw [hpc] at hpath hlistener hconn
          exact ⟨hpath, hlistener, hconn⟩
  | remove hpc =>
      rw [hpc] at hlistener hconn
      exact ⟨rfl, hlistener, hconn⟩
  | bind hpc =>
      rw [hpc] at hlistener hconn
      exact ⟨rfl, hlistener, hconn⟩
  | listen hpc =>
      rw [hpc] at hpath hconn
      exact ⟨hpath, rfl, hconn⟩
  | accept hpc hlisten hqueue =>
      have hj := hpair _ hpc (by unfold State.queued; rw [hlisten]; exact hqueue)
      subst hj
      rw [hpc] at hpath hlistener
      rw [hlisten] at hlistener
      exact ⟨hpath, hlistener, rfl⟩
  | arrive1 hpc | leave1 hpc _ | arrive2 hpc | leave2 hpc _ =>
      rw [hpc] at hpath hlistener hconn
      exact ⟨hpath, hlistener, hconn⟩
  | receive hpc _ _ => exact ⟨hpath, hlistener, hconn⟩
  | closeConn hpc =>
      rw [hpc] at hpath hlistener
      exact ⟨hpath, hlistener, rfl⟩
  | closeListener hpc =>
      rw [hpc] at hpath hconn
      exact ⟨hpath, rfl, hconn⟩
  | unlink hpc =>
      rw [hpc] at hlistener hconn
      exact ⟨rfl, hlistener, hconn⟩
  | again hpc =>
      rw [hpc] at hpath hlistener hconn
      exact ⟨hpath, hlistener, hconn⟩

end Akbench.Uds
