/-
  Akbench.Lib.Framing
  ───────────────────
  **FRAMES OVER ONE FIFO CHANNEL, ONE RENDEZVOUS PER FRAME.**

  A sender and a receiver share one first-in first-out channel of `α` and a
  two-party barrier.  In every iteration both cross the barrier once; then the
  sender pushes the elements of `frame`, any number at a time, and the
  receiver takes whatever is there until it has at least `frame.length`.
  Nothing in the receiver's guard keeps it from taking too much, and there is
  no barrier after the transfer.

    • `Inv` — where the elements of a frame are at every moment, and how far
      the two ends can be apart;
    • `Inv.step` — every step keeps it;
    • `Inv.complete`, `Inv.empty_of_meeting`, `Inv.tags` — each frame
      arrives whole, the channel is empty at each rendezvous, and what can be
      taken belongs to the receiver's own iteration;
    • `Inv.progress` — one of the two ends is never blocked.

  Elements in the channel carry the iteration that pushed them; no guard reads
  that tag.
-/
import Akbench.Lib.Rendezvous

namespace Akbench.Framing

/-- Where an end is in its iteration. -/
inductive Phase where
  /-- Before the barrier. -/
  | before
  /-- Inside the barrier. -/
  | waiting
  /-- Past the barrier, transferring. -/
  | active
  deriving DecidableEq, Repr

/-- Barrier crossings begun in this iteration. -/
def Phase.begun : Phase → Nat
  | .before => 0
  | .waiting | .active => 1

/-- Barrier crossings finished in this iteration. -/
def Phase.crossed : Phase → Nat
  | .before | .waiting => 0
  | .active => 1

@[simp] theorem Phase.begun_before : Phase.before.begun = 0 := rfl
@[simp] theorem Phase.begun_waiting : Phase.waiting.begun = 1 := rfl
@[simp] theorem Phase.begun_active : Phase.active.begun = 1 := rfl
@[simp] theorem Phase.crossed_before : Phase.before.crossed = 0 := rfl
@[simp] theorem Phase.crossed_waiting : Phase.waiting.crossed = 0 := rfl
@[simp] theorem Phase.crossed_active : Phase.active.crossed = 1 := rfl

/-- The two ends, the barrier and the channel between them. -/
@[ext]
structure Link (α : Type*) where
  barrier : Rendezvous Side
  sIter : Nat
  sPhase : Phase
  /-- How much of the frame the sender has pushed in this iteration. -/
  sent : Nat
  rIter : Nat
  rPhase : Phase
  /-- What the receiver has taken in this iteration. -/
  received : List α
  channel : List (Nat × α)

variable {α : Type*}

/-- Nothing has happened yet. -/
def Link.fresh : Link α := ⟨.fresh, 0, .before, 0, 0, .before, [], []⟩

/-- The elements themselves, without their tags. -/
def untag (c : List (Nat × α)) : List α := c.map Prod.snd

@[simp] theorem untag_nil : untag ([] : List (Nat × α)) = [] := rfl

@[simp] theorem untag_append (c d : List (Nat × α)) : untag (c ++ d) = untag c ++ untag d :=
  List.map_append

@[simp] theorem length_untag (c : List (Nat × α)) : (untag c).length = c.length :=
  List.length_map _

theorem untag_take (c : List (Nat × α)) (m : Nat) : untag (c.take m) = (untag c).take m :=
  List.map_take

theorem untag_drop (c : List (Nat × α)) (m : Nat) : untag (c.drop m) = (untag c).drop m :=
  List.map_drop

/-- `m` elements of `frame` from position `sent` on, tagged with `i`. -/
def slice (frame : List α) (i sent m : Nat) : List (Nat × α) :=
  ((frame.drop sent).take m).map fun x => (i, x)

@[simp] theorem untag_slice (frame : List α) (i sent m : Nat) :
    untag (slice frame i sent m) = (frame.drop sent).take m := by
  unfold untag slice
  rw [List.map_map]
  exact List.map_id _

theorem tag_of_mem_slice {frame : List α} {i sent m : Nat} {x : Nat × α}
    (h : x ∈ slice frame i sent m) : x.1 = i := by
  obtain ⟨y, _, hy⟩ := List.mem_map.mp h
  rw [← hy]

theorem length_slice_le (frame : List α) (i sent m : Nat) : (slice frame i sent m).length ≤ m := by
  unfold slice
  rw [List.length_map]
  exact List.length_take_le m _

theorem length_slice {frame : List α} {i sent m : Nat} (h : sent + m ≤ frame.length) :
    (slice frame i sent m).length = m := by
  unfold slice
  rw [List.length_map, List.length_take, List.length_drop]
  omega

/-- Slices that follow each other. -/
theorem slice_append (frame : List α) (i sent m n : Nat) :
    slice frame i sent m ++ slice frame i (sent + m) n = slice frame i sent (m + n) := by
  unfold slice
  rw [← List.map_append, ← List.drop_drop, ← List.take_add]

/-- What is sent now follows what is in flight. -/
theorem slice_sent (frame : List α) (i : Nat) {taken sent : Nat} (h : taken ≤ sent) (n : Nat) :
    slice frame i taken (sent - taken) ++ slice frame i sent n =
      slice frame i taken (sent + n - taken) := by
  have hnext : sent = taken + (sent - taken) := by omega
  have hsum : sent + n - taken = sent - taken + n := by omega
  rw [hsum, ← slice_append, ← hnext]

/-- The front of what is in flight. -/
theorem untag_take_slice (frame : List α) (i sent : Nat) {m n : Nat} (h : n ≤ m) :
    untag ((slice frame i sent m).take n) = (frame.drop sent).take n := by
  rw [untag_take, untag_slice, List.take_take, Nat.min_eq_left h]

theorem drop_slice (frame : List α) (i sent m n : Nat) :
    (slice frame i sent m).drop n = slice frame i (sent + n) (m - n) := by
  unfold slice
  rw [← List.map_drop, List.drop_take, List.drop_drop]

/-- What an end can do. -/
inductive Act where
  | senderArrive
  | senderCross
  | push (m : Nat)
  | senderNext
  | receiverArrive
  | receiverCross
  | take (m : Nat)
  | receiverNext

/-- One step of one end, over `total` iterations. -/
def step (frame : List α) (total : Nat) (l : Link α) : Act → Option (Link α)
  | .senderArrive =>
      if l.sPhase = .before ∧ l.sIter < total then
        some { l with barrier := l.barrier.arrive .sender, sPhase := .waiting }
      else none
  | .senderCross =>
      if l.sPhase = .waiting ∧ l.barrier.CanLeave .sender then
        some { l with barrier := l.barrier.leave .sender, sPhase := .active, sent := 0 }
      else none
  | .push m =>
      if l.sPhase = .active ∧ l.sent + m ≤ frame.length then
        some { l with
          channel := l.channel ++ slice frame l.sIter l.sent m
          sent := l.sent + m }
      else none
  | .senderNext =>
      if l.sPhase = .active ∧ l.sent = frame.length then
        some { l with sIter := l.sIter + 1, sPhase := .before, sent := 0 }
      else none
  | .receiverArrive =>
      if l.rPhase = .before ∧ l.rIter < total then
        some { l with barrier := l.barrier.arrive .receiver, rPhase := .waiting }
      else none
  | .receiverCross =>
      if l.rPhase = .waiting ∧ l.barrier.CanLeave .receiver then
        some { l with barrier := l.barrier.leave .receiver, rPhase := .active, received := [] }
      else none
  | .take m =>
      if l.rPhase = .active ∧ m ≤ l.channel.length then
        some { l with
          received := l.received ++ untag (l.channel.take m)
          channel := l.channel.drop m }
      else none
  | .receiverNext =>
      if l.rPhase = .active ∧ frame.length ≤ l.received.length then
        some { l with rIter := l.rIter + 1, rPhase := .before, received := [] }
      else none

/-- `total` frames over a channel that starts empty. -/
def system (frame : List α) (total : Nat) : System (Link α) Act where
  init l := l = Link.fresh
  step := step frame total

/-! ## §1. The invariant. -/

variable {frame : List α} {total : Nat} {l l' : Link α}

/-- How the barrier's counts follow from iterations and phases. -/
structure Counts (total : Nat) (l : Link α) : Prop where
  sEntered : l.barrier.entered .sender = l.sIter + l.sPhase.begun
  sLeft : l.barrier.left .sender = l.sIter + l.sPhase.crossed
  rEntered : l.barrier.entered .receiver = l.rIter + l.rPhase.begun
  rLeft : l.barrier.left .receiver = l.rIter + l.rPhase.crossed
  sBound : l.sIter + l.sPhase.begun ≤ total
  rBound : l.rIter + l.rPhase.begun ≤ total
  safe : l.barrier.Safe

/-- **Where the elements are.**  The frame of the receiver's iteration is
split between `received` and the channel, and nothing of any other frame is in
flight. -/
structure Flow (frame : List α) (l : Link α) : Prop where
  sIdle : l.sPhase ≠ .active → l.sent = 0
  rIdle : l.rPhase ≠ .active → l.received = []
  sent_le : l.sent ≤ frame.length
  /-- Both ends in the same iteration. -/
  level : l.sIter = l.rIter → l.received ++ untag l.channel = frame.take l.sent
  /-- The sender is one iteration ahead: its whole frame is out. -/
  ahead : l.sIter = l.rIter + 1 → l.received ++ untag l.channel = frame
  /-- The receiver is one iteration ahead: there is nothing left to push. -/
  behind : l.rIter = l.sIter + 1 → l.channel = [] ∧ l.sent = frame.length
  tags : ∀ x ∈ l.channel, x.1 = l.rIter

/-- The invariant of a framed link. -/
structure Inv (frame : List α) (total : Nat) (l : Link α) : Prop
    extends Counts total l, Flow frame l

theorem Phase.begun_le_one (p : Phase) : p.begun ≤ 1 := by
  cases p <;> decide

/-- The barrier keeps the ends within one iteration of each other. -/
theorem Counts.apart (h : Counts total l) :
    l.sIter + l.sPhase.crossed ≤ l.rIter + l.rPhase.begun ∧
      l.rIter + l.rPhase.crossed ≤ l.sIter + l.sPhase.begun ∧
      l.sIter ≤ l.rIter + 1 ∧ l.rIter ≤ l.sIter + 1 := by
  have hsr := h.safe .sender .receiver
  have hrs := h.safe .receiver .sender
  have h1 := h.sLeft
  have h2 := h.rEntered
  have h3 := h.rLeft
  have h4 := h.sEntered
  have h5 := l.sPhase.begun_le_one
  have h6 := l.rPhase.begun_le_one
  omega

theorem Inv.init : Inv frame total (Link.fresh : Link α) where
  sEntered := rfl
  sLeft := rfl
  rEntered := rfl
  rLeft := rfl
  sBound := Nat.zero_le total
  rBound := Nat.zero_le total
  safe := Rendezvous.safe_fresh
  sIdle := fun _ => rfl
  rIdle := fun _ => rfl
  sent_le := Nat.zero_le _
  level := fun _ => rfl
  ahead := fun h => by cases h
  behind := fun h => by cases h
  tags := fun _ hx => absurd hx List.not_mem_nil

/-! ## §2. What the invariant gives. -/

/-- **Each frame arrives whole**: a receiver that has at least a frame has
exactly the frame, and nothing is left in the channel. -/
theorem Inv.complete (h : Inv frame total l) (hact : l.rPhase = .active)
    (hlen : frame.length ≤ l.received.length) :
    l.received = frame ∧ l.channel = [] ∧ (l.sIter = l.rIter → l.sent = frame.length) := by
  have hap := h.apart
  rw [hact] at hap
  have hone := l.sPhase.begun_le_one
  have hcross : Phase.active.crossed = 1 := rfl
  by_cases heq : l.sIter = l.rIter
  · have hflow := h.level heq
    have hcount := congrArg List.length hflow
    have hsent := h.sent_le
    rw [List.length_append, length_untag, List.length_take] at hcount
    have hchan : l.channel = [] := List.eq_nil_of_length_eq_zero (by omega)
    have hfull : l.sent = frame.length := by omega
    rw [hchan, untag_nil, List.append_nil, hfull, List.take_length] at hflow
    exact ⟨hflow, hchan, fun _ => hfull⟩
  · have hflow := h.ahead (by omega)
    have hcount := congrArg List.length hflow
    rw [List.length_append, length_untag] at hcount
    have hchan : l.channel = [] := List.eq_nil_of_length_eq_zero (by omega)
    rw [hchan, untag_nil, List.append_nil] at hflow
    exact ⟨hflow, hchan, fun h' => absurd h' heq⟩

/-- What a receiver has is the beginning of the frame. -/
theorem Inv.received_prefix (h : Inv frame total l) :
    l.received = frame.take l.received.length := by
  by_cases hact : l.rPhase = .active
  · have hap := h.apart
    rw [hact] at hap
    have hone := l.sPhase.begun_le_one
    have hcross : Phase.active.crossed = 1 := rfl
    have hpre : l.received <+: frame := by
      by_cases heq : l.sIter = l.rIter
      · have hflow : l.received <+: frame.take l.sent := ⟨_, h.level heq⟩
        exact hflow.trans (List.take_prefix _ _)
      · exact ⟨_, h.ahead (by omega)⟩
    exact List.prefix_iff_eq_take.mp hpre
  · rw [h.rIdle hact]
    rfl

/-- Everything in the channel is an element of the frame. -/
theorem Inv.mem_frame (h : Inv frame total l) {x : Nat × α} (hx : x ∈ l.channel) :
    x.2 ∈ frame := by
  have hap := h.apart
  have hmem : x.2 ∈ l.received ++ untag l.channel :=
    List.mem_append_right _ (List.mem_map_of_mem hx)
  by_cases heq : l.sIter = l.rIter
  · rw [h.level heq] at hmem
    exact List.mem_of_mem_take hmem
  by_cases hah : l.sIter = l.rIter + 1
  · rw [h.ahead hah] at hmem
    exact hmem
  · rw [(h.behind (by omega)).1] at hx
    exact absurd hx List.not_mem_nil

/-- **The channel is empty when the ends meet in the barrier.** -/
theorem Inv.empty_of_meeting (h : Inv frame total l) (hs : l.sPhase = .waiting)
    (hr : l.rPhase = .waiting) (heq : l.sIter = l.rIter) : l.channel = [] := by
  have hsent := h.sIdle (by rw [hs]; decide)
  have hrecv := h.rIdle (by rw [hr]; decide)
  have hflow := h.level heq
  rw [hsent, hrecv, List.take_zero, List.nil_append] at hflow
  exact List.eq_nil_of_length_eq_zero (by rw [← length_untag, hflow]; rfl)

/-- A receiver that still lacks something and finds the channel empty has a
sender in its own iteration with something left to push. -/
theorem Inv.lacking (h : Inv frame total l) (hact : l.rPhase = .active)
    (hlack : l.received.length < frame.length) (hchan : l.channel = []) :
    l.sIter = l.rIter ∧ l.sPhase ≠ .before ∧ l.sent < frame.length := by
  have hap := h.apart
  rw [hact] at hap
  have hcross : Phase.active.crossed = 1 := rfl
  have hone := l.sPhase.begun_le_one
  by_cases heq : l.sIter = l.rIter
  · have hcount := congrArg List.length (h.level heq)
    rw [hchan, untag_nil, List.append_nil, List.length_take] at hcount
    refine ⟨heq, ?_, by omega⟩
    intro hbefore
    rw [hbefore] at hap
    have hzero : Phase.before.begun = 0 := rfl
    omega
  · have hcount := congrArg List.length (h.ahead (by omega))
    rw [hchan, untag_nil, List.append_nil] at hcount
    omega

/-- A sender with something left to push has its receiver in the same
iteration, at the barrier or past it. -/
theorem Inv.pushing (h : Inv frame total l) (hact : l.sPhase = .active)
    (hleft : l.sent < frame.length) :
    l.sIter = l.rIter ∧ l.rPhase ≠ .before ∧
      (l.rPhase = .active → l.received.length < frame.length) := by
  have hap := h.apart
  rw [hact] at hap
  have hcross : Phase.active.crossed = 1 := rfl
  have hone := l.rPhase.begun_le_one
  have heq : l.sIter = l.rIter := by
    by_contra hne
    have hfull := (h.behind (by omega)).2
    omega
  refine ⟨heq, ?_, ?_⟩
  · intro hbefore
    rw [hbefore] at hap
    have hzero : Phase.before.begun = 0 := rfl
    omega
  · intro hract
    have hlen := congrArg List.length (h.level heq)
    rw [List.length_append, List.length_take] at hlen
    omega

/-! ## §3. One step. -/

theorem Counts.senderArrive (h : Counts total l) (hph : l.sPhase = .before)
    (hlt : l.sIter < total) :
    Counts total { l with barrier := l.barrier.arrive .sender, sPhase := .waiting } := by
  have hs := h.sEntered
  have hl := h.sLeft
  rw [hph] at hs hl
  refine ⟨?_, hl, ?_, h.rLeft, hlt, h.rBound, h.safe.arrive _⟩
  · show (l.barrier.arrive .sender).entered .sender = l.sIter + 1
    rw [Rendezvous.arrive_entered_self, hs]
    rfl
  · show (l.barrier.arrive .sender).entered .receiver = _
    rw [Rendezvous.arrive_entered_of_ne _ (by decide)]
    exact h.rEntered

theorem Counts.receiverArrive (h : Counts total l) (hph : l.rPhase = .before)
    (hlt : l.rIter < total) :
    Counts total { l with barrier := l.barrier.arrive .receiver, rPhase := .waiting } := by
  have hr := h.rEntered
  have hl := h.rLeft
  rw [hph] at hr hl
  refine ⟨?_, h.sLeft, ?_, hl, h.sBound, hlt, h.safe.arrive _⟩
  · show (l.barrier.arrive .receiver).entered .sender = _
    rw [Rendezvous.arrive_entered_of_ne _ (by decide)]
    exact h.sEntered
  · show (l.barrier.arrive .receiver).entered .receiver = l.rIter + 1
    rw [Rendezvous.arrive_entered_self, hr]
    rfl

theorem Counts.senderCross (h : Counts total l) (hph : l.sPhase = .waiting)
    (hcan : l.barrier.CanLeave .sender) (sent : Nat) :
    Counts total { l with
      barrier := l.barrier.leave .sender, sPhase := .active, sent := sent } := by
  have hs := h.sEntered
  have hl := h.sLeft
  have hb := h.sBound
  rw [hph] at hs hl hb
  refine ⟨hs, ?_, h.rEntered, ?_, hb, h.rBound, h.safe.leave ?_ hcan⟩
  · show (l.barrier.leave .sender).left .sender = l.sIter + 1
    rw [Rendezvous.leave_left_self, hl]
    rfl
  · show (l.barrier.leave .sender).left .receiver = _
    rw [Rendezvous.leave_left_of_ne _ (by decide)]
    exact h.rLeft
  · rw [hs, hl]
    exact Nat.lt_succ_self _

theorem Counts.receiverCross (h : Counts total l) (hph : l.rPhase = .waiting)
    (hcan : l.barrier.CanLeave .receiver) (received : List α) :
    Counts total { l with
      barrier := l.barrier.leave .receiver, rPhase := .active, received := received } := by
  have hr := h.rEntered
  have hl := h.rLeft
  have hb := h.rBound
  rw [hph] at hr hl hb
  refine ⟨h.sEntered, ?_, hr, ?_, h.sBound, hb, h.safe.leave ?_ hcan⟩
  · show (l.barrier.leave .receiver).left .sender = _
    rw [Rendezvous.leave_left_of_ne _ (by decide)]
    exact h.sLeft
  · show (l.barrier.leave .receiver).left .receiver = l.rIter + 1
    rw [Rendezvous.leave_left_self, hl]
    rfl
  · rw [hr, hl]
    exact Nat.lt_succ_self _

/-- An end moves on to its next iteration. -/
theorem Counts.senderNext (h : Counts total l) (hph : l.sPhase = .active) (sent : Nat) :
    Counts total { l with sIter := l.sIter + 1, sPhase := .before, sent := sent } := by
  have hs := h.sEntered
  have hl := h.sLeft
  have hb := h.sBound
  rw [hph] at hs hl hb
  exact ⟨hs, hl, h.rEntered, h.rLeft, hb, h.rBound, h.safe⟩

theorem Counts.receiverNext (h : Counts total l) (hph : l.rPhase = .active)
    (received : List α) :
    Counts total { l with rIter := l.rIter + 1, rPhase := .before, received := received } := by
  have hr := h.rEntered
  have hl := h.rLeft
  have hb := h.rBound
  rw [hph] at hr hl hb
  exact ⟨h.sEntered, h.sLeft, hr, hl, h.sBound, hb, h.safe⟩

/-- Pushing: the channel grows by the next slice of the frame. -/
theorem Inv.push (h : Inv frame total l) (hact : l.sPhase = .active) {m : Nat}
    (hm : l.sent + m ≤ frame.length) :
    Inv frame total { l with
      channel := l.channel ++ slice frame l.sIter l.sent m, sent := l.sent + m } := by
  have hap := h.apart
  rw [hact] at hap
  have hcross : Phase.active.crossed = 1 := rfl
  have hone := l.rPhase.begun_le_one
  -- a sender with a receiver already in the next iteration has nothing to push
  have hempty : l.rIter = l.sIter + 1 → slice frame l.sIter l.sent m = [] := by
    intro hbehind
    have hzero : m = 0 := by
      have hfull := (h.behind hbehind).2
      omega
    rw [hzero]
    unfold slice
    rw [List.take_zero]
    rfl
  refine ⟨⟨h.sEntered, h.sLeft, h.rEntered, h.rLeft, h.sBound, h.rBound, h.safe⟩,
    fun hne => absurd hact hne, h.rIdle, hm, ?_, ?_, ?_, ?_⟩
  · intro heq
    show l.received ++ untag (l.channel ++ _) = frame.take (l.sent + m)
    rw [untag_append, untag_slice, ← List.append_assoc, h.level heq, List.take_add]
  · intro hahead
    have hah : l.sIter = l.rIter + 1 := hahead
    omega
  · intro hbehind
    refine ⟨?_, ?_⟩
    · show l.channel ++ _ = []
      rw [(h.behind hbehind).1, hempty hbehind]
      rfl
    · show l.sent + m = frame.length
      have hfull := (h.behind hbehind).2
      omega
  · intro x hx
    show x.1 = l.rIter
    rcases List.mem_append.mp hx with hx | hx
    · exact h.tags x hx
    · by_cases heq : l.sIter = l.rIter
      · rw [tag_of_mem_slice hx, heq]
      · rw [hempty (by omega)] at hx
        exact absurd hx List.not_mem_nil

/-- Taking: what leaves the channel is appended to what was received. -/
theorem Inv.take (h : Inv frame total l) (hact : l.rPhase = .active) (m : Nat) :
    Inv frame total { l with
      received := l.received ++ untag (l.channel.take m), channel := l.channel.drop m } := by
  have hap := h.apart
  rw [hact] at hap
  have hcross : Phase.active.crossed = 1 := rfl
  have hone := l.sPhase.begun_le_one
  have hflow : (l.received ++ untag (l.channel.take m)) ++ untag (l.channel.drop m)
      = l.received ++ untag l.channel := by
    rw [List.append_assoc, untag_take, untag_drop, List.take_append_drop]
  refine ⟨⟨h.sEntered, h.sLeft, h.rEntered, h.rLeft, h.sBound, h.rBound, h.safe⟩,
    h.sIdle, fun hne => absurd hact hne, h.sent_le, ?_, ?_, ?_, ?_⟩
  · intro heq
    exact hflow.trans (h.level heq)
  · intro hahead
    exact hflow.trans (h.ahead hahead)
  · intro hbehind
    have hbe : l.rIter = l.sIter + 1 := hbehind
    omega
  · intro x hx
    exact h.tags x (List.mem_of_mem_drop hx)

/-- The sender leaves an iteration with its whole frame pushed. -/
theorem Inv.senderNext (h : Inv frame total l) (hact : l.sPhase = .active)
    (hfull : l.sent = frame.length) :
    Inv frame total { l with sIter := l.sIter + 1, sPhase := .before, sent := 0 } := by
  have hap := h.apart
  rw [hact] at hap
  have hcross : Phase.active.crossed = 1 := rfl
  have hbegun : Phase.active.begun = 1 := rfl
  have hone := l.rPhase.begun_le_one
  refine ⟨h.toCounts.senderNext hact 0, fun _ => rfl, h.rIdle, Nat.zero_le _, ?_, ?_, ?_,
    h.tags⟩
  · -- the receiver was one ahead, waiting for the sender
    intro heq
    have hbe : l.sIter + 1 = l.rIter := heq
    have hidle : l.rPhase ≠ .active := by
      intro hr
      rw [hr, hcross] at hap
      omega
    show l.received ++ untag l.channel = frame.take 0
    rw [h.rIdle hidle, (h.behind hbe.symm).1]
    rfl
  · intro hahead
    have heq : l.sIter + 1 = l.rIter + 1 := hahead
    show l.received ++ untag l.channel = frame
    rw [h.level (Nat.succ.inj heq), hfull, List.take_length]
  · intro hbehind
    have hbe : l.rIter = l.sIter + 1 + 1 := hbehind
    omega

/-- The receiver leaves an iteration with at least a frame: it has exactly the
frame, and leaves nothing behind. -/
theorem Inv.receiverNext (h : Inv frame total l) (hact : l.rPhase = .active)
    (hlen : frame.length ≤ l.received.length) :
    Inv frame total { l with rIter := l.rIter + 1, rPhase := .before, received := [] } := by
  have hap := h.apart
  rw [hact] at hap
  have hcross : Phase.active.crossed = 1 := rfl
  have hbegun : Phase.active.begun = 1 := rfl
  have hone := l.sPhase.begun_le_one
  obtain ⟨_, hchan, hsent⟩ := h.complete hact hlen
  refine ⟨h.toCounts.receiverNext hact [], h.sIdle, fun _ => rfl, h.sent_le, ?_, ?_, ?_, ?_⟩
  · -- the sender was one ahead, and it is not past the barrier yet
    intro heq
    have hah : l.sIter = l.rIter + 1 := heq
    have hidle : l.sPhase ≠ .active := by
      intro hs
      rw [hs, hcross] at hap
      omega
    show [] ++ untag l.channel = frame.take l.sent
    rw [hchan, h.sIdle hidle]
    rfl
  · intro hahead
    have hah : l.sIter = l.rIter + 1 + 1 := hahead
    omega
  · intro hbehind
    have hbe : l.rIter + 1 = l.sIter + 1 := hbehind
    exact ⟨hchan, hsent (Nat.succ.inj hbe).symm⟩
  · intro x hx
    rw [show l.channel = [] from hchan] at hx
    exact absurd hx List.not_mem_nil

/-- **Every step keeps the invariant.** -/
theorem Inv.step {a : Act} (h : Inv frame total l) (hs : step frame total l a = some l') :
    Inv frame total l' := by
  cases a <;> simp only [Framing.step, Option.ite_none_right_eq_some, Option.some.injEq] at hs
  case senderArrive =>
    obtain ⟨⟨hph, hlt⟩, rfl⟩ := hs
    refine ⟨h.toCounts.senderArrive hph hlt, fun _ => h.sIdle ?_, h.rIdle, h.sent_le, h.level,
      h.ahead, h.behind, h.tags⟩
    rw [hph]
    decide
  case senderCross =>
    obtain ⟨⟨hph, hcan⟩, rfl⟩ := hs
    have hsent : l.sent = 0 := h.sIdle (by rw [hph]; decide)
    rw [← hsent]
    exact ⟨h.toCounts.senderCross hph hcan l.sent, fun hne => absurd rfl hne, h.rIdle, h.sent_le,
      h.level, h.ahead, h.behind, h.tags⟩
  case push m =>
    obtain ⟨⟨hact, hm⟩, rfl⟩ := hs
    exact h.push hact hm
  case senderNext =>
    obtain ⟨⟨hact, hfull⟩, rfl⟩ := hs
    exact h.senderNext hact hfull
  case receiverArrive =>
    obtain ⟨⟨hph, hlt⟩, rfl⟩ := hs
    refine ⟨h.toCounts.receiverArrive hph hlt, h.sIdle, fun _ => h.rIdle ?_, h.sent_le, h.level,
      h.ahead, h.behind, h.tags⟩
    rw [hph]
    decide
  case receiverCross =>
    obtain ⟨⟨hph, hcan⟩, rfl⟩ := hs
    have hrecv : l.received = [] := h.rIdle (by rw [hph]; decide)
    rw [← hrecv]
    exact ⟨h.toCounts.receiverCross hph hcan l.received, h.sIdle, fun hne => absurd rfl hne,
      h.sent_le, h.level, h.ahead, h.behind, h.tags⟩
  case take m =>
    obtain ⟨⟨hact, _⟩, rfl⟩ := hs
    exact h.take hact m
  case receiverNext =>
    obtain ⟨⟨hact, hlen⟩, rfl⟩ := hs
    exact h.receiverNext hact hlen

/-- Every reachable link has the invariant. -/
theorem inv_of_reachable (h : (system frame total).Reachable l) : Inv frame total l := by
  refine System.invariant (I := Inv frame total) ?_ ?_ h
  · intro l hl
    rw [show l = Link.fresh from hl]
    exact Inv.init
  · intro l a l' hinv hs
    exact hinv.step hs

/-! ## §4. Progress. -/

/-- The sender is not blocked: it has an iteration to begin, it may leave the
barrier, it has pushed everything, or the channel has room for certain. -/
def SenderReady (frame : List α) (total : Nat) (l : Link α) : Prop :=
  (l.sPhase = .before ∧ l.sIter < total) ∨
  (l.sPhase = .waiting ∧ l.barrier.CanLeave .sender) ∨
  (l.sPhase = .active ∧ (l.sent = frame.length ∨ l.channel = []))

/-- The receiver is not blocked: it has an iteration to begin, it may leave
the barrier, it has a frame, or there is something to take. -/
def ReceiverReady (frame : List α) (total : Nat) (l : Link α) : Prop :=
  (l.rPhase = .before ∧ l.rIter < total) ∨
  (l.rPhase = .waiting ∧ l.barrier.CanLeave .receiver) ∨
  (l.rPhase = .active ∧ (frame.length ≤ l.received.length ∨ l.channel ≠ []))

/-- Whoever waits in the barrier behind or level with the other end may
leave. -/
theorem Counts.sender_canLeave (h : Counts total l) (hph : l.sPhase = .waiting)
    (hle : l.sIter + 1 ≤ l.rIter + l.rPhase.begun) : l.barrier.CanLeave .sender := by
  rw [Rendezvous.canLeave_sender, h.sEntered, h.rEntered, hph]
  exact hle

theorem Counts.receiver_canLeave (h : Counts total l) (hph : l.rPhase = .waiting)
    (hle : l.rIter + 1 ≤ l.sIter + l.sPhase.begun) : l.barrier.CanLeave .receiver := by
  rw [Rendezvous.canLeave_receiver, h.sEntered, h.rEntered, hph]
  exact hle

/-- A sender one iteration behind the receiver is not blocked. -/
theorem Inv.sender_ready_of_behind (h : Inv frame total l)
    (hlt : l.sIter < l.rIter) (htotal : l.sIter < total) : SenderReady frame total l := by
  have hap := h.apart
  cases hs : l.sPhase with
  | before => exact Or.inl ⟨hs, htotal⟩
  | waiting => exact Or.inr (Or.inl ⟨hs, h.sender_canLeave hs (by omega)⟩)
  | active => exact Or.inr (Or.inr ⟨hs, Or.inl (h.behind (by omega)).2⟩)

/-- **One of the two ends is never blocked** before both have done all
iterations. -/
theorem Inv.progress (h : Inv frame total l)
    (hmore : l.sIter < total ∨ l.rIter < total) :
    SenderReady frame total l ∨ ReceiverReady frame total l := by
  have hap := h.apart
  have hsb := h.sBound
  have hrb := h.rBound
  cases hr : l.rPhase with
  | before =>
      by_cases hrt : l.rIter < total
      · exact Or.inr (Or.inl ⟨hr, hrt⟩)
      · left
        apply h.sender_ready_of_behind <;> omega
  | waiting =>
      rw [hr] at hap hrb
      by_cases hle : l.rIter + 1 ≤ l.sIter + l.sPhase.begun
      · exact Or.inr (Or.inr (Or.inl ⟨hr, h.receiver_canLeave hr hle⟩))
      -- the sender has not reached the receiver's barrier
      left
      have hbegun : Phase.waiting.begun = 1 := rfl
      cases hs : l.sPhase with
      | before => exact Or.inl ⟨hs, by omega⟩
      | waiting =>
          rw [hs] at hle
          refine Or.inr (Or.inl ⟨hs, h.sender_canLeave hs ?_⟩)
          rw [hr]
          omega
      | active =>
          rw [hs] at hle
          have hone : Phase.active.begun = 1 := rfl
          exact Or.inr (Or.inr ⟨hs, Or.inl (h.behind (by omega)).2⟩)
  | active =>
      by_cases hlen : frame.length ≤ l.received.length
      · exact Or.inr (Or.inr (Or.inr ⟨hr, Or.inl hlen⟩))
      by_cases hchan : l.channel = []
      · -- starved: the sender is in the same iteration with something to push
        left
        obtain ⟨heq, hne, _⟩ := h.lacking hr (Nat.lt_of_not_le hlen) hchan
        cases hs : l.sPhase with
        | before => exact absurd hs hne
        | waiting =>
            refine Or.inr (Or.inl ⟨hs, h.sender_canLeave hs ?_⟩)
            rw [hr, heq]
            exact Nat.le_refl _
        | active => exact Or.inr (Or.inr ⟨hs, Or.inr hchan⟩)
      · exact Or.inr (Or.inr (Or.inr ⟨hr, Or.inr hchan⟩))

end Akbench.Framing
