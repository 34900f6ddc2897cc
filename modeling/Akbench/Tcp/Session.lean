/-
  Akbench.Tcp.Session
  ───────────────────
  **WHERE THE TWO PROCESSES CAN BE.**

  Both processes cross the barrier three times in each iteration, so they run
  in lockstep with period 3.  Between the first crossing and the second the
  sender connects and the receiver accepts; between the second and the third
  both transfer.

    • `Sites` — the lockstep and what holds of either process by itself;
    • `Sites.apart` — how far apart the two can be;
    • `Sites.sender_move`, `Sites.receiver_move` — every move keeps the sites.
-/
import Akbench.Tcp.Moves

namespace Akbench.Tcp

variable {c : Transfer} {s s' : State}

/-! ## §1. Positions as places of the lockstep. -/

/-- Crossings of the iteration entered. -/
def SenderPc.entered : SenderPc → Nat
  | .generating | .ready | .created | .exited | .aborted => 0
  | .waiting1 | .connecting | .connected => 1
  | .waiting2 | .sending | .shutting | .sent | .killed => 2
  | .waiting3 | .closing => 3

/-- Crossings of the iteration left. -/
def SenderPc.left : SenderPc → Nat
  | .generating | .ready | .created | .waiting1 | .exited | .aborted => 0
  | .connecting | .connected | .waiting2 => 1
  | .sending | .shutting | .sent | .waiting3 | .killed => 2
  | .closing => 3

/-- Crossings of the iteration entered. -/
def ReceiverPc.entered : ReceiverPc → Nat
  | .ready | .binding | .listening | .listened | .exited | .failed => 0
  | .waiting1 | .accepting | .accepted => 1
  | .waiting2 | .receiving | .received | .overrun => 2
  | .waiting3 | .verifying | .closingConn | .closingListener | .aborted => 3

/-- Crossings of the iteration left. -/
def ReceiverPc.left : ReceiverPc → Nat
  | .ready | .binding | .listening | .listened | .waiting1 | .exited | .failed => 0
  | .accepting | .accepted | .waiting2 => 1
  | .receiving | .received | .waiting3 | .overrun => 2
  | .verifying | .closingConn | .closingListener | .aborted => 3

def State.place (s : State) : Side → Place
  | .sender => ⟨s.sender.iteration, s.sender.pc.entered, s.sender.pc.left⟩
  | .receiver => ⟨s.receiver.iteration, s.receiver.pc.entered, s.receiver.pc.left⟩

/-- In an iteration. -/
def SenderPc.isRunning : SenderPc → Bool
  | .generating | .ready | .exited | .aborted => false
  | _ => true

/-- In an iteration. -/
def ReceiverPc.isRunning : ReceiverPc → Bool
  | .ready | .exited => false
  | _ => true

/-- In the `send` loop or past it. -/
def SenderPc.isPushing : SenderPc → Bool
  | .sending | .shutting | .sent | .waiting3 | .closing => true
  | _ => false

/-- Past the `send` loop. -/
def SenderPc.isPastLoop : SenderPc → Bool
  | .shutting | .sent | .waiting3 | .closing => true
  | _ => false

/-- In the `recv` loop or past it. -/
def ReceiverPc.isTaking : ReceiverPc → Bool
  | .receiving | .received | .waiting3 | .verifying | .closingConn | .closingListener
  | .aborted => true
  | _ => false

/-- Past the `recv` loop. -/
def ReceiverPc.isPastLoop : ReceiverPc → Bool
  | .received | .waiting3 | .verifying | .closingConn | .closingListener | .aborted => true
  | _ => false

/-- What holds of the sender by itself. -/
structure SenderLocal (c : Transfer) (p : Sender) : Prop where
  alive : p.pc ≠ .killed
  /-- `GenerateDataToSend` aborts on small sizes only. -/
  refused : p.pc = .aborted → c.dataSize ≤ checksumSize
  bound : p.iteration ≤ c.total
  running : p.pc.isRunning = true → p.iteration < c.total
  exited : p.pc = .exited → p.iteration = c.total
  sent_le : p.pc.isPushing = true → p.totalSent ≤ c.payload.length
  /-- The loop is left with the whole frame sent. -/
  sentAll : p.pc.isPastLoop = true → c.payload.length ≤ p.totalSent

/-- What holds of the receiver by itself. -/
structure ReceiverLocal (c : Transfer) (r : Receiver) : Prop where
  alive : r.pc ≠ .failed ∧ r.pc ≠ .overrun
  bound : r.iteration ≤ c.total
  running : r.pc.isRunning = true → r.iteration < c.total
  exited : r.pc = .exited → r.iteration = c.total
  /-- The loop is left with a whole frame. -/
  whole : r.pc.isPastLoop = true → c.payload.length ≤ r.totalReceived

/-- The two processes and the barrier. -/
structure Sites (c : Transfer) (s : State) : Prop where
  lockstep : Lockstep 3 0 s.barrier s.place
  sender : SenderLocal c s.sender
  receiver : ReceiverLocal c s.receiver

theorem sites_fresh (c : Transfer) : Sites c State.fresh := by
  refine ⟨⟨?_, ?_, ?_, ?_, Rendezvous.safe_fresh⟩, ?_, ?_⟩
  · intro p
    cases p <;> rfl
  · intro p
    cases p <;> rfl
  · intro p
    cases p <;> exact Nat.le_refl 0
  · intro p
    cases p <;> exact Nat.zero_le 3
  · exact ⟨nofun, nofun, Nat.zero_le _, nofun, nofun, nofun, nofun⟩
  · exact ⟨⟨nofun, nofun⟩, Nat.zero_le _, nofun, nofun, nofun⟩

/-- A process does not leave a crossing the other has not entered. -/
theorem Sites.apart (h : Sites c s) :
    s.sender.iteration * 3 + s.sender.pc.left ≤
        s.receiver.iteration * 3 + s.receiver.pc.entered ∧
      s.receiver.iteration * 3 + s.receiver.pc.left ≤
        s.sender.iteration * 3 + s.sender.pc.entered := by
  have hsl : s.barrier.left .sender + 0 = s.sender.iteration * 3 + s.sender.pc.left :=
    h.lockstep.left .sender
  have hse : s.barrier.entered .sender + 0 = s.sender.iteration * 3 + s.sender.pc.entered :=
    h.lockstep.entered .sender
  have hrl : s.barrier.left .receiver + 0 = s.receiver.iteration * 3 + s.receiver.pc.left :=
    h.lockstep.left .receiver
  have hre : s.barrier.entered .receiver + 0 =
      s.receiver.iteration * 3 + s.receiver.pc.entered := h.lockstep.entered .receiver
  have hsr := h.lockstep.safe .sender .receiver
  have hrs := h.lockstep.safe .receiver .sender
  omega

theorem Sites.canLeave_sender (h : Sites c s) :
    s.barrier.CanLeave .sender ↔ s.sender.iteration * 3 + s.sender.pc.entered ≤
      s.receiver.iteration * 3 + s.receiver.pc.entered := by
  have hse : s.barrier.entered .sender + 0 = s.sender.iteration * 3 + s.sender.pc.entered :=
    h.lockstep.entered .sender
  have hre : s.barrier.entered .receiver + 0 =
      s.receiver.iteration * 3 + s.receiver.pc.entered := h.lockstep.entered .receiver
  rw [Rendezvous.canLeave_sender]
  omega

theorem Sites.canLeave_receiver (h : Sites c s) :
    s.barrier.CanLeave .receiver ↔ s.receiver.iteration * 3 + s.receiver.pc.entered ≤
      s.sender.iteration * 3 + s.sender.pc.entered := by
  have hse : s.barrier.entered .sender + 0 = s.sender.iteration * 3 + s.sender.pc.entered :=
    h.lockstep.entered .sender
  have hre : s.barrier.entered .receiver + 0 =
      s.receiver.iteration * 3 + s.receiver.pc.entered := h.lockstep.entered .receiver
  rw [Rendezvous.canLeave_receiver]
  omega

/-- Crossings are entered before they are left, and there are three. -/
theorem Sites.sender_left_le (h : Sites c s) :
    s.sender.pc.left ≤ s.sender.pc.entered ∧ s.sender.pc.entered ≤ 3 :=
  ⟨h.lockstep.left_le .sender, h.lockstep.entered_le .sender⟩

theorem Sites.receiver_left_le (h : Sites c s) :
    s.receiver.pc.left ≤ s.receiver.pc.entered ∧ s.receiver.pc.entered ≤ 3 :=
  ⟨h.lockstep.left_le .receiver, h.lockstep.entered_le .receiver⟩

/-! ## §2. Every move keeps the sites. -/

theorem SenderMove.receiver_eq (h : SenderMove c s s') : s'.receiver = s.receiver := by
  cases h <;> rfl

theorem ReceiverMove.sender_eq (h : ReceiverMove c s s') : s'.sender = s.sender := by
  cases h <;> rfl

theorem SenderGoes.crossings {p : Sender} {pc : SenderPc} (h : SenderGoes c p pc) :
    pc.entered = p.pc.entered ∧ pc.left = p.pc.left := by
  cases h with
  | generate hpc _ | refuse hpc _ | begin hpc _ | exit hpc _ | finish hpc _ | shut hpc =>
      rw [hpc]
      exact ⟨rfl, rfl⟩

theorem SenderArrives.crossings {pc pc' : SenderPc} (h : SenderArrives pc pc') :
    pc'.entered = pc.entered + 1 ∧ pc'.left = pc.left ∧ pc'.entered ≤ 3 := by
  cases h <;> decide

theorem SenderLeaves.crossings {pc pc' : SenderPc} (h : SenderLeaves pc pc') :
    pc'.entered = pc.entered ∧ pc'.left = pc.left + 1 ∧ pc.left < pc.entered := by
  cases h <;> decide

theorem ReceiverGoes.crossings {r : Receiver} {pc : ReceiverPc} (h : ReceiverGoes c r pc) :
    pc.entered = r.pc.entered ∧ pc.left = r.pc.left := by
  cases h with
  | begin hpc _ | exit hpc _ | finish hpc _ | verified hpc =>
      rw [hpc]
      exact ⟨rfl, rfl⟩

theorem ReceiverArrives.crossings {pc pc' : ReceiverPc} (h : ReceiverArrives pc pc') :
    pc'.entered = pc.entered + 1 ∧ pc'.left = pc.left ∧ pc'.entered ≤ 3 := by
  cases h <;> decide

theorem ReceiverLeaves.crossings {pc pc' : ReceiverPc} (h : ReceiverLeaves pc pc') :
    pc'.entered = pc.entered ∧ pc'.left = pc.left + 1 ∧ pc.left < pc.entered := by
  cases h <;> decide

theorem SenderMove.place_receiver (h : SenderMove c s s') :
    ∀ q, q ≠ .sender → s'.place q = s.place q := by
  intro q hq
  cases q with
  | sender => exact absurd rfl hq
  | receiver =>
      show Place.mk _ _ _ = Place.mk _ _ _
      rw [h.receiver_eq]

theorem ReceiverMove.place_sender (h : ReceiverMove c s s') :
    ∀ q, q ≠ .receiver → s'.place q = s.place q := by
  intro q hq
  cases q with
  | receiver => exact absurd rfl hq
  | sender =>
      show Place.mk _ _ _ = Place.mk _ _ _
      rw [h.sender_eq]

theorem sender_place {pc : SenderPc} (hpc : s.sender.pc = pc) :
    s.place .sender = ⟨s.sender.iteration, pc.entered, pc.left⟩ := by
  subst hpc
  rfl

theorem receiver_place {pc : ReceiverPc} (hpc : s.receiver.pc = pc) :
    s.place .receiver = ⟨s.receiver.iteration, pc.entered, pc.left⟩ := by
  subst hpc
  rfl

/-- A place given by its parts. -/
theorem place_eq {i k k' m m' : Nat} (hk : k = k') (hm : m = m') :
    Place.mk i k m = Place.mk i k' m' := by
  rw [hk, hm]

/-- **A move of the sender keeps the lockstep.** -/
theorem SenderMove.lockstep (h : SenderMove c s s') (hlock : Lockstep 3 0 s.barrier s.place) :
    Lockstep 3 0 s'.barrier s'.place := by
  have hother := h.place_receiver
  cases h with
  | go hgo =>
      obtain ⟨he, hl⟩ := hgo.crossings
      exact hlock.stay hother (.inl (place_eq he hl))
  | arrive harrive =>
      obtain ⟨he, hl, hle⟩ := harrive.crossings
      exact hlock.arrive hother rfl he hl hle
  | leave hleave hcan =>
      obtain ⟨he, hl, hlt⟩ := hleave.crossings
      exact hlock.leave hother rfl he hl hlt hcan
  -- a `connect` that is refused is tried again
  | retry hpc => exact hlock
  | connect hpc _ => exact hlock.stay_from hother (sender_place hpc) rfl
  | start hpc hcan => exact hlock.leave_from hother (sender_place hpc) rfl (by decide) hcan
  | send _ _ => exact hlock.stay hother (.inl rfl)
  | again hpc => exact hlock.next_from hother (sender_place hpc) rfl

/-- **A move of the receiver keeps the lockstep.** -/
theorem ReceiverMove.lockstep (h : ReceiverMove c s s') (hlock : Lockstep 3 0 s.barrier s.place) :
    Lockstep 3 0 s'.barrier s'.place := by
  have hother := h.place_sender
  cases h with
  | go hgo =>
      obtain ⟨he, hl⟩ := hgo.crossings
      exact hlock.stay hother (.inl (place_eq he hl))
  | arrive harrive =>
      obtain ⟨he, hl, hle⟩ := harrive.crossings
      exact hlock.arrive hother rfl he hl hle
  | leave hleave hcan =>
      obtain ⟨he, hl, hlt⟩ := hleave.crossings
      exact hlock.leave hother rfl he hl hlt hcan
  | bind hpc | listen hpc | accept hpc _ _ | reject hpc _ | closeConn hpc =>
      exact hlock.stay_from hother (receiver_place hpc) rfl
  | start hpc hcan => exact hlock.leave_from hother (receiver_place hpc) rfl (by decide) hcan
  | receive _ _ _ => exact hlock.stay hother (.inl rfl)
  | again hpc => exact hlock.next_from hother (receiver_place hpc) rfl

/-- A sender that stays in its iteration and leaves its counters alone. -/
theorem SenderLocal.within {p : Sender} (h : SenderLocal c p) (pc : SenderPc)
    (hrun : p.pc.isRunning = true) (halive : pc ≠ .killed) (hin : pc.isRunning = true)
    (hpush : pc.isPushing = true → p.pc.isPushing = true)
    (hpast : pc.isPastLoop = true → c.payload.length ≤ p.totalSent) :
    SenderLocal c { p with pc := pc } := by
  refine ⟨halive, ?_, h.bound, fun _ => h.running hrun, ?_, fun hp => h.sent_le (hpush hp), hpast⟩
  -- in an iteration: neither aborted nor exited
  all_goals
    intro heq
    rw [show pc = _ from heq] at hin
    cases hin

/-- **A move of the sender keeps what holds of it.** -/
theorem SenderMove.local (h : SenderMove c s s') (hp : SenderLocal c s.sender) :
    SenderLocal c s'.sender := by
  cases h with
  | go hgo =>
      cases hgo with
      | generate hpc _ => exact ⟨nofun, nofun, hp.bound, nofun, nofun, nofun, nofun⟩
      | refuse hpc hsmall =>
          exact ⟨nofun, fun _ => hsmall, hp.bound, nofun, nofun, nofun, nofun⟩
      | begin hpc hlt => exact ⟨nofun, nofun, hp.bound, fun _ => hlt, nofun, nofun, nofun⟩
      | exit hpc hge =>
          have hdone := Nat.le_antisymm hp.bound hge
          exact ⟨nofun, nofun, hp.bound, nofun, fun _ => hdone, nofun, nofun⟩
      | finish hpc hall =>
          exact hp.within .shutting (by rw [hpc]; rfl) nofun rfl (fun _ => by rw [hpc]; rfl)
            (fun _ => hall)
      | shut hpc =>
          exact hp.within .sent (by rw [hpc]; rfl) nofun rfl (fun _ => by rw [hpc]; rfl)
            (fun _ => hp.sentAll (by rw [hpc]; rfl))
  | @arrive pc harrive =>
      generalize hpc : s.sender.pc = old at harrive
      cases harrive with
      | first => exact hp.within .waiting1 (by rw [hpc]; rfl) nofun rfl nofun nofun
      | second => exact hp.within .waiting2 (by rw [hpc]; rfl) nofun rfl nofun nofun
      | third =>
          exact hp.within .waiting3 (by rw [hpc]; rfl) nofun rfl (fun _ => by rw [hpc]; rfl)
            (fun _ => hp.sentAll (by rw [hpc]; rfl))
  | @leave pc hleave hcan =>
      generalize hpc : s.sender.pc = old at hleave
      cases hleave with
      | first => exact hp.within .connecting (by rw [hpc]; rfl) nofun rfl nofun nofun
      | third =>
          exact hp.within .closing (by rw [hpc]; rfl) nofun rfl (fun _ => by rw [hpc]; rfl)
            (fun _ => hp.sentAll (by rw [hpc]; rfl))
  | retry hpc => exact hp
  | connect hpc hlisten => exact hp.within .connected (by rw [hpc]; rfl) nofun rfl nofun nofun
  | start hpc hcan =>
      -- `total_sent` begins anew
      have hlt := hp.running (by rw [hpc]; rfl)
      exact ⟨nofun, nofun, hp.bound, fun _ => hlt, nofun, fun _ => Nat.zero_le _, nofun⟩
  | send hpc hle =>
      have hlt := hp.running (by rw [hpc]; rfl)
      refine ⟨hp.alive, hp.refused, hp.bound, fun _ => hlt, ?_, fun _ => hle, ?_⟩
      -- still in the loop: neither exited nor past it
      all_goals
        intro hbad
        dsimp only at hbad
        rw [hpc] at hbad
        cases hbad
  | again hpc =>
      have hlt := hp.running (by rw [hpc]; rfl)
      exact ⟨nofun, nofun, hlt, nofun, nofun, nofun, nofun⟩

/-- A receiver that stays in its iteration and leaves its counters alone. -/
theorem ReceiverLocal.within {r : Receiver} (h : ReceiverLocal c r) (pc : ReceiverPc)
    (hrun : r.pc.isRunning = true) (halive : pc ≠ .failed ∧ pc ≠ .overrun) (hexit : pc ≠ .exited)
    (hpast : pc.isPastLoop = true → c.payload.length ≤ r.totalReceived) :
    ReceiverLocal c { r with pc := pc } :=
  ⟨halive, h.bound, fun _ => h.running hrun, fun heq => absurd heq hexit, hpast⟩

/-- **A move of the receiver keeps what holds of it.** -/
theorem ReceiverMove.local (h : ReceiverMove c s s') (hr : ReceiverLocal c s.receiver) :
    ReceiverLocal c s'.receiver := by
  cases h with
  | go hgo =>
      cases hgo with
      | begin hpc hlt => exact ⟨⟨nofun, nofun⟩, hr.bound, fun _ => hlt, nofun, nofun⟩
      | exit hpc hge =>
          have hdone := Nat.le_antisymm hr.bound hge
          exact ⟨⟨nofun, nofun⟩, hr.bound, nofun, fun _ => hdone, nofun⟩
      | finish hpc hall =>
          exact hr.within .received (by rw [hpc]; rfl) ⟨nofun, nofun⟩ nofun (fun _ => hall)
      | verified hpc =>
          exact hr.within .closingConn (by rw [hpc]; rfl) ⟨nofun, nofun⟩ nofun
            (fun _ => hr.whole (by rw [hpc]; rfl))
  | @arrive pc harrive =>
      generalize hpc : s.receiver.pc = old at harrive
      cases harrive with
      | first => exact hr.within .waiting1 (by rw [hpc]; rfl) ⟨nofun, nofun⟩ nofun nofun
      | second => exact hr.within .waiting2 (by rw [hpc]; rfl) ⟨nofun, nofun⟩ nofun nofun
      | third =>
          exact hr.within .waiting3 (by rw [hpc]; rfl) ⟨nofun, nofun⟩ nofun
            (fun _ => hr.whole (by rw [hpc]; rfl))
  | @leave pc hleave hcan =>
      generalize hpc : s.receiver.pc = old at hleave
      cases hleave with
      | first => exact hr.within .accepting (by rw [hpc]; rfl) ⟨nofun, nofun⟩ nofun nofun
      | third =>
          exact hr.within .verifying (by rw [hpc]; rfl) ⟨nofun, nofun⟩ nofun
            (fun _ => hr.whole (by rw [hpc]; rfl))
  | bind hpc => exact hr.within .listening (by rw [hpc]; rfl) ⟨nofun, nofun⟩ nofun nofun
  | listen hpc => exact hr.within .listened (by rw [hpc]; rfl) ⟨nofun, nofun⟩ nofun nofun
  | accept hpc hlisten hqueue =>
      have hlt := hr.running (by rw [hpc]; rfl)
      exact ⟨⟨nofun, nofun⟩, hr.bound, fun _ => hlt, nofun, nofun⟩
  | start hpc hcan =>
      have hlt := hr.running (by rw [hpc]; rfl)
      exact ⟨⟨nofun, nofun⟩, hr.bound, fun _ => hlt, nofun, nofun⟩
  | receive hpc hconn hle =>
      have hlt := hr.running (by rw [hpc]; rfl)
      refine ⟨hr.alive, hr.bound, fun _ => hlt, ?_, ?_⟩
      -- still in the loop: neither exited nor past it
      all_goals
        intro hbad
        dsimp only at hbad
        rw [hpc] at hbad
        cases hbad
  | reject hpc hbad =>
      exact hr.within .aborted (by rw [hpc]; rfl) ⟨nofun, nofun⟩ nofun
        (fun _ => hr.whole (by rw [hpc]; rfl))
  | closeConn hpc =>
      exact hr.within .closingListener (by rw [hpc]; rfl) ⟨nofun, nofun⟩ nofun
        (fun _ => hr.whole (by rw [hpc]; rfl))
  | again hpc =>
      have hlt := hr.running (by rw [hpc]; rfl)
      exact ⟨⟨nofun, nofun⟩, hlt, nofun, nofun, nofun⟩

/-- **A move of the sender keeps the sites.** -/
theorem Sites.sender_move (h : Sites c s) (hmove : SenderMove c s s') : Sites c s' :=
  ⟨hmove.lockstep h.lockstep, hmove.local h.sender, hmove.receiver_eq ▸ h.receiver⟩

/-- **A move of the receiver keeps the sites.** -/
theorem Sites.receiver_move (h : Sites c s) (hmove : ReceiverMove c s s') : Sites c s' :=
  ⟨hmove.lockstep h.lockstep, hmove.sender_eq ▸ h.sender, hmove.local h.receiver⟩

end Akbench.Tcp
