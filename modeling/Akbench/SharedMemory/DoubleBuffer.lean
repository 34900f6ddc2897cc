/-
  Akbench.SharedMemory.DoubleBuffer
  ─────────────────────────────────
  **ONE ITERATION OF THE PIPELINE, end to end.**

  The two loops over a correct barrier, from a buffer whose `data_size[]`
  entries are 0 and whose bytes are anything.  The barrier keeps the loops
  within one step of each other; in the same step they use different slots,
  and a step later the receiver finds the sender's chunk.
-/
import Akbench.SharedMemory.Turns

namespace Akbench.SharedMemory.DoubleBuffer

/-! ## §1. The two loops side by side. -/

structure State where
  barrier : Rendezvous Side
  buffer : Buffer
  sender : SendLoop
  receiver : ReceiveLoop

/-- Both sides before their loops, over a buffer with these bytes. -/
def State.fresh (c : Params) (data : Nat → Stamped UInt8) : State where
  barrier := .fresh
  buffer := ⟨fun _ => ⟨0, 0⟩, data⟩
  sender := .fresh
  receiver := .fresh c

def step (c : Params) (s : State) : Side → Option State
  | .sender =>
      match sendTurn c 0 s.barrier s.buffer s.sender with
      | some (b, m, p) => some { s with barrier := b, buffer := m, sender := p }
      | none => none
  | .receiver =>
      match receiveTurn c s.barrier s.buffer s.receiver with
      | some (b, r) => some { s with barrier := b, receiver := r }
      | none => none

/-- The two pipeline loops of one iteration. -/
def system (c : Params) : System State Side where
  init s := ∃ data, s = State.fresh c data
  step := step c

/-! ## §2. The invariant. -/

/-- Where the two loops are. -/
def State.place (s : State) : Side → Place
  | .sender => loopPlace 0 0 s.sender.i s.sender.pc
  | .receiver => loopPlace 0 0 s.receiver.i s.receiver.pc

structure Inv (c : Params) (s : State) : Prop where
  lockstep : Lockstep (c.nPipeline + 1) 0 s.barrier s.place
  sent : Sent c 0 s.buffer s.sender
  got : Got c s.receiver

variable {c : Params} {s s' t : State}

theorem inv_fresh (c : Params) (data : Nat → Stamped UInt8) : Inv c (State.fresh c data) where
  lockstep := by
    refine ⟨?_, ?_, ?_, ?_, Rendezvous.safe_fresh⟩
    all_goals
      intro p
      cases p with
      | sender => simp [State.place, State.fresh, SendLoop.fresh, loopPlace, LoopPc.entered,
          LoopPc.left]
      | receiver => simp [State.place, State.fresh, ReceiveLoop.fresh, loopPlace, LoopPc.entered,
          LoopPc.left]
  sent := sent_fresh fun _ => rfl
  got := got_fresh c

/-- **The barrier keeps the sender where the receiver needs it.** -/
theorem Inv.together (h : Inv c s) (hleft : s.receiver.pc.left = 1) :
    s.receiver.i + 1 ≤ s.sender.i + s.sender.pc.entered ∧
      s.sender.i + s.sender.pc.left ≤ s.receiver.i + 1 := by
  have hin := h.got.inside
  have hentered := LoopPc.entered_of_left hleft
  have hplace : s.place .receiver = ⟨0, 0 + s.receiver.i + 1, 0 + s.receiver.i + 1⟩ := by
    show loopPlace 0 0 s.receiver.i s.receiver.pc = _
    unfold loopPlace
    rw [hleft, hentered]
  obtain ⟨_, he, hl⟩ := h.lockstep.together (p := .receiver)
    (by rw [hplace]; show 1 ≤ 0 + s.receiver.i + 1; omega)
    (by rw [hplace]; show 0 + s.receiver.i + 1 < c.nPipeline + 1; omega) .sender
  rw [hplace] at he hl
  have he' : 0 + s.receiver.i + 1 ≤ 0 + s.sender.i + s.sender.pc.entered := he
  have hl' : 0 + s.sender.i + s.sender.pc.left ≤ 0 + s.receiver.i + 1 := hl
  omega

/-- Between two crossings of the receiver its slot is ready. -/
theorem Inv.ready (h : Inv c s) (hleft : s.receiver.pc.left = 1) :
    Ready c 0 s.buffer s.receiver.i := by
  obtain ⟨hentered, hbehind⟩ := h.together hleft
  exact h.sent.visible hentered hbehind

theorem Inv.step {side : Side} (h : Inv c s) (hs : step c s side = some s') : Inv c s' := by
  cases side with
  | sender =>
      unfold DoubleBuffer.step at hs
      dsimp only at hs
      split at hs
      next b m p hturn =>
        injection hs with hs
        subst hs
        refine ⟨?_, sendTurn_sent h.sent hturn, h.got⟩
        have hplace : s.place .sender = loopPlace 0 0 s.sender.i s.sender.pc := rfl
        apply (sendTurn_move hturn).lockstep h.lockstep (by omega) hplace rfl
        intro q hq
        cases q with
        | sender => exact absurd rfl hq
        | receiver => rfl
      next => cases hs
  | receiver =>
      unfold DoubleBuffer.step at hs
      dsimp only at hs
      split at hs
      next b r hturn =>
        injection hs with hs
        subst hs
        refine ⟨?_, h.sent, receiveTurn_got h.got h.ready hturn⟩
        have hplace : s.place .receiver = loopPlace 0 0 s.receiver.i s.receiver.pc := rfl
        apply (receiveTurn_move hturn).lockstep h.lockstep (by omega) hplace rfl
        intro q hq
        cases q with
        | sender => rfl
        | receiver => exact absurd rfl hq
      next => cases hs

theorem inv_of_reachable (h : (system c).Reachable s) : Inv c s := by
  refine System.invariant (I := Inv c) ?_ (fun _ _ _ hinv hs => hinv.step hs) h
  rintro s ⟨data, rfl⟩
  exact inv_fresh c data

/-! ## §3. What follows. -/

/-- Crossings left so far, by what a side has done. -/
theorem Inv.left_eq (h : Inv c s) :
    s.barrier.left .sender = s.sender.i + s.sender.pc.left ∧
      s.barrier.left .receiver = s.receiver.i + s.receiver.pc.left := by
  have hs : s.barrier.left .sender + 0 =
      0 * (c.nPipeline + 1) + (0 + s.sender.i + s.sender.pc.left) := h.lockstep.left .sender
  have hr : s.barrier.left .receiver + 0 =
      0 * (c.nPipeline + 1) + (0 + s.receiver.i + s.receiver.pc.left) := h.lockstep.left .receiver
  omega

/-- **Between the same two crossings the sides use different slots**, in one
state or in two. -/
theorem Inv.apart (h : Inv c s) (ht : Inv c t)
    (hsame : s.barrier.left .sender = t.barrier.left .receiver) {x y : Cell}
    (hx : x ∈ s.sender.touched c) (hy : y ∈ t.receiver.touched c) : x.slot c ≠ y.slot c := by
  obtain ⟨hleft, hslot⟩ := h.sent.touched_slot hx
  obtain ⟨hleft', hslot'⟩ := ht.got.touched_slot hy
  have hcount := h.left_eq.1
  have hcount' := ht.left_eq.2
  have hi : s.sender.i = t.receiver.i := by omega
  rw [hslot, hslot', hi]
  exact (slot_ne t.receiver.i).symm

/-- Sides that both touch the buffer are between the same two crossings. -/
theorem Inv.same_crossing (h : Inv c s) (hleft : s.sender.pc.left = 1)
    (hleft' : s.receiver.pc.left = 1) : s.barrier.left .sender = s.barrier.left .receiver := by
  obtain ⟨hentered, hbehind⟩ := h.together hleft'
  have hcount := h.left_eq
  have hone := LoopPc.entered_of_left hleft
  omega

/-- A side whose loop is over holds the other one up no more. -/
theorem Inv.canLeave_of_over (h : Inv c s) :
    (s.receiver.Over c → s.barrier.CanLeave .sender) ∧
      (s.sender.Over c → s.barrier.CanLeave .receiver) := by
  have hs : s.barrier.entered .sender + 0 =
      0 * (c.nPipeline + 1) + (0 + s.sender.i + s.sender.pc.entered) := h.lockstep.entered .sender
  have hr : s.barrier.entered .receiver + 0 =
      0 * (c.nPipeline + 1) + (0 + s.receiver.i + s.receiver.pc.entered) :=
    h.lockstep.entered .receiver
  have hsin := h.sent.inside
  have hrin := h.got.inside
  constructor
  · intro hover
    have hn := hover.2
    rw [Rendezvous.canLeave_sender]
    omega
  · intro hover
    have hn := hover.2
    rw [Rendezvous.canLeave_receiver]
    omega

theorem sender_progress (hopen : ¬ s.sender.Over c)
    (hcan : s.sender.pc = .waiting → s.barrier.CanLeave .sender) : (system c).CanProgress s := by
  obtain ⟨b, m, p, hturn, hne⟩ := sendTurn_progress c 0 s.buffer hopen hcan
  have hs : step c s .sender = some { s with barrier := b, buffer := m, sender := p } := by
    unfold DoubleBuffer.step
    dsimp only
    rw [hturn]
  exact System.CanProgress.of_step (f := State.sender) (a := Side.sender) hs hne

theorem receiver_progress (hopen : ¬ s.receiver.Over c)
    (hcan : s.receiver.pc = .waiting → s.barrier.CanLeave .receiver) :
    (system c).CanProgress s := by
  obtain ⟨b, r, hturn, hne⟩ := receiveTurn_progress c s.buffer hopen hcan
  have hs : step c s .receiver = some { s with barrier := b, receiver := r } := by
    unfold DoubleBuffer.step
    dsimp only
    rw [hturn]
  exact System.CanProgress.of_step (f := State.receiver) (a := Side.receiver) hs hne

/-- **The loops never hang.** -/
theorem Inv.progress (h : Inv c s) (hopen : ¬ (s.sender.Over c ∧ s.receiver.Over c)) :
    (system c).CanProgress s := by
  obtain ⟨hsender, hreceiver⟩ := h.canLeave_of_over
  by_cases hp : s.sender.Over c
  · exact receiver_progress (fun hr => hopen ⟨hp, hr⟩) fun _ => hreceiver hp
  · by_cases hcan : s.barrier.CanLeave .sender
    · exact sender_progress hp fun _ => hcan
    · -- the barrier is closed to the sender, so it is open to the receiver
      have hopen' : s.barrier.CanLeave .receiver := s.barrier.canLeave_or.resolve_left hcan
      exact receiver_progress (fun hr => hcan (hsender hr)) fun _ => hopen'

/-! ## §4. One iteration. -/

/-- What the pipeline promises of a state of a run. -/
structure Correct (c : Params) (s : State) : Prop where
  /-- Between the same two barrier crossings the sides touch different slots,
  whatever the two runs. -/
  apart : ∀ t, (system c).Reachable t →
    s.barrier.left .sender = t.barrier.left .receiver →
    ∀ x ∈ s.sender.touched c, ∀ y ∈ t.receiver.touched c, x.slot c ≠ y.slot c
  /-- What both sides are about to touch is in different slots. -/
  no_race : ∀ x ∈ s.sender.touched c, ∀ y ∈ s.receiver.touched c, x.slot c ≠ y.slot c
  bytesSent_le : s.sender.bytesSent ≤ c.dataSize
  bytesReceived_le : s.receiver.bytesReceived ≤ c.dataSize
  /-- `data_size - bytes_sent` does not wrap. -/
  no_wrap : sub64 c.dataSize s.sender.bytesSent + s.sender.bytesSent = c.dataSize
  /-- The sender's `memcpy` reads inside `data_to_send`. -/
  sender_inside : s.sender.pc.Sized →
    s.sender.bytesSent + s.sender.sizeToSend ≤ c.payload.length
  /-- The receiver's `memcpy` writes inside `received_data`. -/
  receiver_inside : s.receiver.pc.Sized →
    s.receiver.bytesReceived + s.receiver.sizeToReceive ≤ s.receiver.receivedData.length
  delivered : s.receiver.Over c → s.receiver.receivedData = c.payload
  progress : ¬ (s.sender.Over c ∧ s.receiver.Over c) → (system c).CanProgress s

/-- **One iteration of the pipeline**, for every payload, buffer size and
interleaving for which `n_pipeline` does not wrap. -/
theorem pipeline_correct (c : Params) (hsum : c.dataSize + c.bufferSize - 1 < wordSize)
    (hwrap : ¬ (c.dataSize = wordSize - 1 ∧ c.bufferSize = 1)) (s : State)
    (h : (system c).Reachable s) : Correct c s := by
  have hinv := inv_of_reachable h
  have hbytes := hinv.sent.bytesSent_le
  refine ⟨?_, ?_, hbytes, hinv.got.bytesReceived_le, ?_, ?_, ?_, ?_, hinv.progress⟩
  · intro t ht hsame x hx y hy
    exact hinv.apart (inv_of_reachable ht) hsame hx hy
  · intro x hx y hy
    have hsame := hinv.same_crossing (hinv.sent.touched_slot hx).1 (hinv.got.touched_slot hy).1
    exact hinv.apart hinv hsame hx hy
  · rw [sub64_eq hbytes]
    omega
  · intro hsized
    rw [c.payload_length]
    exact hinv.sent.fits hsized
  · intro hsized
    rw [hinv.got.length]
    exact hinv.got.fits hsized
  · intro hover
    exact hinv.got.payload hover (c.nPipeline_eq hsum hwrap)

/-- Three bytes through slots of two. -/
def sample (program : Program) : Params :=
  ⟨program, 3, 2, [7, 8, 9], rfl, by decide, Nat.two_pos, by decide, by decide⟩

/-- The sample from beginning to end: three steps, the last one empty on the
sender's side and the first one on the receiver's. -/
theorem pipeline_correct_sample :
    ∃ s, (system (sample .shm)).Reachable s ∧ s.sender.Over (sample .shm) ∧
      s.receiver.receivedData = [7, 8, 9] := by
  have hrun : ∃ s, (system (sample .shm)).Reachable s ∧
      s.sender.Over (sample .shm) ∧ s.receiver.Over (sample .shm) :=
    System.exists_reachable_of_exec
      (List.flatten [
        [.sender, .receiver, .sender, .receiver],
        List.replicate 5 .sender, List.replicate 3 .receiver,
        [.sender, .receiver, .sender, .receiver],
        List.replicate 4 .sender, List.replicate 5 .receiver,
        [.sender, .receiver, .sender, .receiver],
        List.replicate 3 .sender, List.replicate 4 .receiver])
      (s := State.fresh (sample .shm) fun _ => ⟨0, 0⟩) ⟨_, rfl⟩ (by decide +kernel)
  obtain ⟨s, hreach, hsender, hreceiver⟩ := hrun
  have hcorrect := pipeline_correct (sample .shm) (by decide) (by decide) s hreach
  exact ⟨s, hreach, hsender, hcorrect.delivered hreceiver⟩

/-- The largest payload, byte by byte. -/
def largest : Params :=
  ⟨.shm, wordSize - 1, 1, List.replicate (wordSize - 1) 1, List.length_replicate,
    by decide, Nat.one_pos, by decide, by decide⟩

/-- Of the largest payload sent byte by byte nothing arrives: `n_pipeline`
wraps to 0. -/
theorem pipeline_incorrect :
    ¬ ∀ c : Params, c.dataSize + c.bufferSize - 1 < wordSize →
      ∀ s, (system c).Reachable s → Correct c s := by
  intro hall
  have hzero : largest.nPipeline = 0 := by decide
  have hcorrect := hall largest (by decide) (State.fresh largest fun _ => ⟨0, 0⟩)
    (.of_init ⟨_, rfl⟩)
  have hsame : List.replicate (wordSize - 1) (0 : UInt8) = List.replicate (wordSize - 1) 1 :=
    hcorrect.delivered ⟨rfl, Nat.le_of_eq hzero⟩
  have hmem : (0 : UInt8) ∈ List.replicate (wordSize - 1) (1 : UInt8) := by
    rw [← hsame]
    exact List.mem_replicate.mpr ⟨by decide, rfl⟩
  exact absurd (List.mem_replicate.mp hmem).2 (by decide)

end Akbench.SharedMemory.DoubleBuffer
