/-
  Akbench.Mpi.Progress
  ────────────────────
  **THE PING-PONG OF `mpi_bandwidth` NEEDS NO BUFFER OF MPI's.**

  `MPI_Send` may return before anybody has received, or wait for its receiver:
  the standard leaves it to the implementation, from call to call.  Here an
  implementation is an arbitrary predicate on states that says which sends it
  buffers; any other waits until the peer is inside its `MPI_Recv`.  With
  sizes that an `int` can hold and generated data, no choice makes a
  difference to the two ranks:

    • `Meeting`, `Flow` — the ranks' places are tied by the barriers, their
      messages by the channels: what is sent is received or on its way;
    • `canProgress` — of two ranks that are not both through one can go on;
    • `ping_pong` — no call fails, no verification fails, and every weakly
      fair run ends with each rank holding the other's data.
-/
import Akbench.Lib.Termination
import Akbench.Mpi.WholeMessage

namespace Akbench.Mpi

variable {c : Config} {s s' : State} {r : Rank} {eager : State → Rank → Bool}

/-! ## §1. Sends that wait. -/

/-- Rank `r` is inside an `MPI_Send`. -/
def State.sending (s : State) (r : Rank) : Bool :=
  match (s.process r).pc with
  | .inside half => operation r half == .send
  | _ => false

/-- Rank `r` is inside an `MPI_Recv`. -/
def State.receiving (s : State) (r : Rank) : Bool :=
  match (s.process r).pc with
  | .inside half => operation r half == .recv
  | _ => false

/-- An `MPI_Send` that is not buffered waits for its receiver. -/
def State.held (eager : State → Rank → Bool) (s : State) (r : Rank) : Bool :=
  s.sending r && !eager s r && !s.receiving r.peer

def blockingStep (eager : State → Rank → Bool) (c : Config) (s : State) (r : Rank) :
    Option State :=
  if s.held eager r = true then none else rankStep c s r

/-- The two ranks over an MPI that buffers the sends `eager` picks. -/
def blockingSystem (eager : State → Rank → Bool) (c : Config) : System State Rank where
  init s := s = State.fresh c
  step := blockingStep eager c

/-- Waiting takes no steps of its own. -/
theorem reachable_of_blocking (h : (blockingSystem eager c).Reachable s) :
    (system c).Reachable s := by
  refine System.invariant (S := blockingSystem eager c) (I := (system c).Reachable)
    (fun t ht => .of_init ht) ?_ h
  intro t r t' ht hs
  have hs : (if t.held eager r = true then none else rankStep c t r) = some t' := hs
  split at hs
  next => cases hs
  next => exact ht.tail trivial hs

/-! ## §2. Steps of ranks whose calls succeed. -/

/-- Sizes an `int` can hold, and data that verifies. -/
structure Good (c : Config) : Prop where
  count : c.count = c.dataSize
  verified : ∀ r, verifyDataReceived (c.sendBuffer r) c.dataSize = some true

/-- Into a barrier. -/
inductive Arrives (c : Config) (p : Process) : Pc → Prop where
  | enter (hpc : p.pc = .entering) : Arrives c p .entered
  | begin (hpc : p.pc = .ready) (hlt : p.iteration < c.total) : Arrives c p .starting
  | close (hpc : p.pc = .done) : Arrives c p .ending

/-- Out of it. -/
inductive Leaves (p : Process) : Pc → Prop where
  | open (hpc : p.pc = .entered) : Leaves p .ready
  | start (hpc : p.pc = .starting) : Leaves p (.calling .first)
  | leave (hpc : p.pc = .ending) : Leaves p .verifying

/-- A step of rank `r` when nothing fails. -/
inductive Turn (c : Config) (s : State) (r : Rank) : State → Prop where
  | arrive {pc : Pc} (hgo : Arrives c (s.process r) pc) : Turn c s r (s.arrive r pc)
  | leave {pc : Pc} (hgo : Leaves (s.process r) pc) (hcan : s.barrier.CanLeave r) :
      Turn c s r { s.goto r pc with barrier := s.barrier.leave r }
  | exit (hpc : (s.process r).pc = .ready) (hge : c.total ≤ (s.process r).iteration) :
      Turn c s r (s.goto r .exited)
  | call {half : Half} (hpc : (s.process r).pc = .calling half) :
      Turn c s r { s.goto r (.inside half) with
        calls := ⟨operation r half, r, c.count⟩ :: s.calls }
  | send {half : Half} (hpc : (s.process r).pc = .inside half)
      (hop : operation r half = .send) :
      Turn c s r { s.goto r half.after with
        channel := Function.update s.channel r.peer (s.channel r.peer ++ [c.message r]) }
  | recv {half : Half} {m : List UInt8} {rest : List (List UInt8)}
      (hpc : (s.process r).pc = .inside half) (hop : operation r half = .recv)
      (hchannel : s.channel r = m :: rest) :
      Turn c s r
        { s.become r
            { s.process r with
              pc := half.after
              recvBuffer := m ++ (s.process r).recvBuffer.drop m.length } with
          channel := Function.update s.channel r rest }
  | again (hpc : (s.process r).pc = .verifying) :
      Turn c s r (s.become r
        { s.process r with pc := .ready, iteration := (s.process r).iteration + 1 })

theorem leave_turn {pc : Pc} (hgo : Leaves (s.process r) pc) (hs : s.leave r pc = some s') :
    Turn c s r s' := by
  unfold State.leave at hs
  obtain ⟨hcan, rfl⟩ := System.guard_cases hs
  exact .leave hgo hcan

/-- Whatever is on its way fits. -/
theorem Inv.fits (h : Inv c s) (hgood : Good c) {m : List UInt8} (hm : m ∈ s.channel r) :
    (m.length : Int) ≤ c.count := by
  rw [h.messages r m hm, length_message, hgood.count]
  exact Int.le_refl _

/-- And what has been received verifies. -/
theorem Inv.verifies (h : Inv c s) (hgood : Good c) (hpc : (s.process r).pc = .verifying) :
    (s.process r).recvBuffer = c.sendBuffer r.peer := by
  have hpast : (s.process r).pc.isPast r = true := by
    rw [hpc]
    cases r <;> rfl
  rw [((h.rank r).received (.inr hpast)).2]
  exact written_eq_sendBuffer hgood.count

/-- **No step fails.** -/
theorem rankStep_turn (hinv : Inv c s) (hgood : Good c) (hs : rankStep c s r = some s') :
    Turn c s r s' := by
  have hcount : ¬ c.count < 0 := by
    rw [hgood.count]
    omega
  unfold rankStep at hs
  cases hpc : (s.process r).pc with
  | entering =>
      rw [hpc] at hs
      injection hs with hs
      subst hs
      exact .arrive (.enter hpc)
  | entered =>
      rw [hpc] at hs
      exact leave_turn (.open hpc) hs
  | ready =>
      rw [hpc] at hs
      dsimp only at hs
      obtain ⟨hlt, rfl⟩ | ⟨hge, rfl⟩ := System.branch_cases hs
      · exact .arrive (.begin hpc hlt)
      · exact .exit hpc (by omega)
  | starting =>
      rw [hpc] at hs
      exact leave_turn (.start hpc) hs
  | calling half =>
      rw [hpc] at hs
      injection hs with hs
      subst hs
      exact .call hpc
  | inside half =>
      rw [hpc] at hs
      dsimp only at hs
      cases hop : operation r half with
      | send =>
          rw [hop] at hs
          injection hs with hs
          rw [mpiSend, if_neg hcount] at hs
          subst hs
          exact .send hpc hop
      | recv =>
          rw [hop] at hs
          have hs : mpiRecv c s r half = some s' := hs
          rw [mpiRecv, if_neg hcount] at hs
          cases hchannel : s.channel r with
          | nil =>
              rw [hchannel] at hs
              cases hs
          | cons m rest =>
              rw [hchannel] at hs
              have hfits := hinv.fits (r := r) hgood (m := m) (by rw [hchannel]; simp)
              dsimp only at hs
              rw [if_pos hfits] at hs
              injection hs with hs
              subst hs
              exact .recv hpc hop hchannel
  | done =>
      rw [hpc] at hs
      injection hs with hs
      subst hs
      exact .arrive (.close hpc)
  | ending =>
      rw [hpc] at hs
      exact leave_turn (.leave hpc) hs
  | verifying =>
      rw [hpc] at hs
      dsimp only at hs
      rw [if_pos (by rw [hinv.verifies hgood hpc]; exact hgood.verified _)] at hs
      injection hs with hs
      subst hs
      exact .again hpc
  | exited | aborted | failed =>
      rw [hpc] at hs
      cases hs

/-! ## §3. Places and messages. -/

/-- Barriers entered: one ahead of the iterations, two in each. -/
def Process.entered (p : Process) : Nat :=
  match p.pc with
  | .entering | .aborted | .failed => 0
  | .entered => 1
  | .ready | .exited => 2 * p.iteration + 1
  | .starting | .calling _ | .inside _ | .done => 2 * p.iteration + 2
  | .ending | .verifying => 2 * p.iteration + 3

/-- Barriers left. -/
def Process.left (p : Process) : Nat :=
  match p.pc with
  | .entering | .entered | .aborted | .failed => 0
  | .ready | .exited | .starting => 2 * p.iteration + 1
  | .calling _ | .inside _ | .done | .ending => 2 * p.iteration + 2
  | .verifying => 2 * p.iteration + 3

/-- The call of an iteration that does `op`. -/
def slot : Rank → Operation → Half
  | .zero, .send | .one, .recv => .first
  | .zero, .recv | .one, .send => .second

/-- The call of the iteration is over. -/
def Pc.isOver : Half → Pc → Bool
  | .first, .calling .second | .first, .inside .second => true
  | _, .done | _, .ending | _, .verifying => true
  | _, _ => false

/-- How often rank `r` has done `op`. -/
def Process.made (r : Rank) (op : Operation) (p : Process) : Nat :=
  p.iteration + (p.pc.isOver (slot r op)).toNat

/-- The barriers know where the ranks are. -/
structure Meeting (b : Rendezvous Rank) (process : Rank → Process) : Prop where
  entered : ∀ r, b.entered r = (process r).entered
  left : ∀ r, b.left r = (process r).left
  safe : b.Safe

/-- What has been sent has been received or is on its way. -/
def Flow (channel : Rank → List (List UInt8)) (process : Rank → Process) : Prop :=
  ∀ r, (channel r).length + (process r).made r .recv = (process r.peer).made r.peer .send

/-- A rank has neither failed nor left early. -/
structure Sane (c : Config) (p : Process) : Prop where
  failed : p.pc ≠ .failed
  aborted : p.pc ≠ .aborted
  opening : p.pc = .entering ∨ p.pc = .entered → p.iteration = 0
  through : p.pc = .exited → c.total ≤ p.iteration

theorem Sane.of_entered {p : Process} (hpc : p.pc = .entered) (hzero : p.iteration = 0) :
    Sane c p where
  failed := by
    rw [hpc]
    decide
  aborted := by
    rw [hpc]
    decide
  opening _ := hzero
  through hexit := by
    rw [hpc] at hexit
    cases hexit

theorem Sane.of_exited {p : Process} (hpc : p.pc = .exited) (hge : c.total ≤ p.iteration) :
    Sane c p where
  failed := by
    rw [hpc]
    decide
  aborted := by
    rw [hpc]
    decide
  opening hopen := by
    rw [hpc] at hopen
    rcases hopen with hopen | hopen <;> cases hopen
  through _ := hge

/-- Past the barrier ahead of the iterations, and not ended. -/
def Pc.isInner : Pc → Bool
  | .ready | .starting | .calling _ | .inside _ | .done | .ending | .verifying => true
  | .entering | .entered | .exited | .aborted | .failed => false

theorem Sane.of_isInner {p : Process} (h : p.pc.isInner = true) : Sane c p where
  failed hpc := by
    rw [hpc] at h
    cases h
  aborted hpc := by
    rw [hpc] at h
    cases h
  opening hopen := by
    rcases hopen with hpc | hpc <;> rw [hpc] at h <;> cases h
  through hpc := by
    rw [hpc] at h
    cases h

section

variable {b : Rendezvous Rank} {process : Rank → Process} {p : Process}
  {channel : Rank → List (List UInt8)}

theorem Meeting.arrive (h : Meeting b process) (hentered : p.entered = (process r).entered + 1)
    (hleft : p.left = (process r).left) :
    Meeting (b.arrive r) (Function.update process r p) := by
  refine ⟨fun q => ?_, fun q => ?_, h.safe.arrive r⟩
  · by_cases hq : q = r
    · rw [hq, Rendezvous.arrive_entered_self, Function.update_self, hentered, h.entered]
    · rw [Rendezvous.arrive_entered_of_ne b hq, Function.update_of_ne hq, h.entered]
  · by_cases hq : q = r
    · rw [hq, Rendezvous.arrive_left, Function.update_self, hleft, h.left]
    · rw [Rendezvous.arrive_left, Function.update_of_ne hq, h.left]

theorem Meeting.leave (h : Meeting b process) (hcan : b.CanLeave r)
    (hinside : (process r).left < (process r).entered)
    (hentered : p.entered = (process r).entered) (hleft : p.left = (process r).left + 1) :
    Meeting (b.leave r) (Function.update process r p) := by
  refine ⟨fun q => ?_, fun q => ?_, h.safe.leave ?_ hcan⟩
  · by_cases hq : q = r
    · rw [hq, Rendezvous.leave_entered, Function.update_self, hentered, h.entered]
    · rw [Rendezvous.leave_entered, Function.update_of_ne hq, h.entered]
  · by_cases hq : q = r
    · rw [hq, Rendezvous.leave_left_self, Function.update_self, hleft, h.left]
    · rw [Rendezvous.leave_left_of_ne b hq, Function.update_of_ne hq, h.left]
  · rw [h.left, h.entered]
    exact hinside

theorem Meeting.stay (h : Meeting b process) (hentered : p.entered = (process r).entered)
    (hleft : p.left = (process r).left) : Meeting b (Function.update process r p) := by
  refine ⟨fun q => ?_, fun q => ?_, h.safe⟩
  · by_cases hq : q = r
    · rw [hq, Function.update_self, hentered, h.entered]
    · rw [Function.update_of_ne hq, h.entered]
  · by_cases hq : q = r
    · rw [hq, Function.update_self, hleft, h.left]
    · rw [Function.update_of_ne hq, h.left]

theorem Rank.peer_ne (r : Rank) : r.peer ≠ r := by
  cases r <;> decide

theorem Rank.eq_or_peer (r q : Rank) : q = r ∨ q = r.peer := by
  cases r <;> cases q <;> decide

/-- A step between the calls. -/
theorem Flow.stay (h : Flow channel process) (hmade : ∀ op, p.made r op = (process r).made r op) :
    Flow channel (Function.update process r p) := by
  intro q
  have hq := h q
  rcases Rank.eq_or_peer r q with rfl | rfl
  · rw [Function.update_self, Function.update_of_ne (Rank.peer_ne q), hmade]
    exact hq
  · rw [Function.update_of_ne (Rank.peer_ne r), Rank.peer_peer, Function.update_self, hmade]
    rw [Rank.peer_peer] at hq
    exact hq

theorem Flow.send (h : Flow channel process) (m : List UInt8)
    (hsend : p.made r .send = (process r).made r .send + 1)
    (hrecv : p.made r .recv = (process r).made r .recv) :
    Flow (Function.update channel r.peer (channel r.peer ++ [m]))
      (Function.update process r p) := by
  intro q
  have hq := h q
  rcases Rank.eq_or_peer r q with rfl | rfl
  · rw [Function.update_of_ne (Rank.peer_ne q).symm, Function.update_self,
      Function.update_of_ne (Rank.peer_ne q), hrecv]
    exact hq
  · rw [Rank.peer_peer] at hq ⊢
    rw [Function.update_self, Function.update_self, Function.update_of_ne (Rank.peer_ne r), hsend,
      List.length_append, List.length_singleton]
    omega

theorem Flow.recv (h : Flow channel process) {m : List UInt8} {rest : List (List UInt8)}
    (hchannel : channel r = m :: rest) (hsend : p.made r .send = (process r).made r .send)
    (hrecv : p.made r .recv = (process r).made r .recv + 1) :
    Flow (Function.update channel r rest) (Function.update process r p) := by
  intro q
  have hq := h q
  rcases Rank.eq_or_peer r q with rfl | rfl
  · rw [hchannel, List.length_cons] at hq
    rw [Function.update_self, Function.update_self, Function.update_of_ne (Rank.peer_ne q), hrecv]
    omega
  · rw [Rank.peer_peer] at hq ⊢
    rw [Function.update_of_ne (Rank.peer_ne r), Function.update_of_ne (Rank.peer_ne r),
      Function.update_self, hsend]
    exact hq

end

/-- A call made is one more of its kind. -/
theorem made_after {p : Process} {half : Half} (hpc : p.pc = .inside half)
    (buffer : List UInt8) (op : Operation) :
    (⟨half.after, p.iteration, buffer⟩ : Process).made r op =
      p.made r op + if operation r half = op then 1 else 0 := by
  unfold Process.made
  rw [hpc]
  cases r <;> cases half <;> cases op <;> rfl

/-- Everything that holds as long as nothing fails. -/
structure Joined (c : Config) (s : State) : Prop where
  meeting : Meeting s.barrier s.process
  flow : Flow s.channel s.process
  sane : ∀ r, Sane c (s.process r)

theorem joined_fresh (c : Config) : Joined c (State.fresh c) := by
  refine ⟨⟨fun _ => rfl, fun _ => rfl, Rendezvous.safe_fresh⟩, fun r => ?_,
    fun _ => ⟨nofun, nofun, fun _ => rfl, nofun⟩⟩
  cases r <;> rfl

theorem Joined.become (h : Joined c s) {p : Process} (hp : Sane c p) :
    ∀ q, Sane c (Function.update s.process r p q) := by
  intro q
  by_cases hq : q = r
  · rw [hq, Function.update_self]
    exact hp
  · rw [Function.update_of_ne hq]
    exact h.sane q

/-- A step that makes no call. -/
theorem made_of_isOver {p : Process} {pc : Pc} (h : ∀ half, pc.isOver half = p.pc.isOver half)
    (op : Operation) : ({ p with pc := pc } : Process).made r op = p.made r op := by
  unfold Process.made
  rw [h]

theorem Arrives.isOver {p : Process} {pc : Pc} (h : Arrives c p pc) (half : Half) :
    pc.isOver half = p.pc.isOver half := by
  cases h with
  | enter hpc | begin hpc | close hpc =>
      rw [hpc]
      cases half <;> rfl

theorem Leaves.isOver {p : Process} {pc : Pc} (h : Leaves p pc) (half : Half) :
    pc.isOver half = p.pc.isOver half := by
  cases h with
  | «open» hpc | start hpc | leave hpc =>
      rw [hpc]
      cases half <;> rfl

/-- Into a barrier: one more entered. -/
theorem Arrives.crossings {p : Process} {pc : Pc} (h : Arrives c p pc) :
    ({ p with pc := pc } : Process).entered = p.entered + 1 ∧
      ({ p with pc := pc } : Process).left = p.left := by
  cases h with
  | enter hpc | begin hpc | close hpc => simp only [Process.entered, Process.left, hpc, and_self]

/-- Out of it: one more left. -/
theorem Leaves.crossings {p : Process} {pc : Pc} (h : Leaves p pc) (hsane : Sane c p) :
    p.left < p.entered ∧ ({ p with pc := pc } : Process).entered = p.entered ∧
      ({ p with pc := pc } : Process).left = p.left + 1 := by
  cases h with
  | «open» hpc =>
      have hzero := hsane.opening (.inr hpc)
      simp only [Process.entered, Process.left, hpc, hzero]
      decide
  | start hpc | leave hpc =>
      simp only [Process.entered, Process.left, hpc, and_self, and_true]
      omega

/-- **Step lemma.** -/
theorem Joined.turn (h : Joined c s) (hturn : Turn c s r s') : Joined c s' := by
  have hsane := h.sane r
  cases hturn with
  | arrive hgo =>
      obtain ⟨hentered, hleft⟩ := hgo.crossings
      refine ⟨h.meeting.arrive hentered hleft, h.flow.stay (made_of_isOver hgo.isOver),
        h.become ?_⟩
      cases hgo with
      | enter hpc => exact .of_entered rfl (hsane.opening (.inl hpc))
      | begin hpc | close hpc => exact .of_isInner rfl
  | leave hgo hcan =>
      obtain ⟨hinside, hentered, hleft⟩ := hgo.crossings hsane
      refine ⟨h.meeting.leave hcan hinside hentered hleft,
        h.flow.stay (made_of_isOver hgo.isOver), h.become ?_⟩
      cases hgo with
      | «open» hpc | start hpc | leave hpc => exact .of_isInner rfl
  | exit hpc hge =>
      refine ⟨h.meeting.stay ?_ ?_, h.flow.stay (made_of_isOver fun half => ?_),
        h.become (.of_exited rfl hge)⟩
      · simp only [Process.entered, hpc]
      · simp only [Process.left, hpc]
      · rw [hpc]
        cases half <;> rfl
  | @call half hpc =>
      refine ⟨h.meeting.stay ?_ ?_, h.flow.stay (made_of_isOver fun other => ?_),
        h.become (.of_isInner rfl)⟩
      · simp only [Process.entered, hpc]
      · simp only [Process.left, hpc]
      · rw [hpc]
        cases half <;> cases other <;> rfl
  | @send half hpc hop =>
      refine ⟨h.meeting.stay ?_ ?_, h.flow.send _ ?_ ?_, h.become ?_⟩
      · cases half <;> simp only [Process.entered, hpc, Half.after]
      · cases half <;> simp only [Process.left, hpc, Half.after]
      · rw [made_after hpc, if_pos hop]
      · rw [made_after hpc, if_neg (by rw [hop]; decide), Nat.add_zero]
      · cases half <;> exact .of_isInner rfl
  | @recv half m rest hpc hop hchannel =>
      refine ⟨h.meeting.stay ?_ ?_, h.flow.recv hchannel ?_ ?_, h.become ?_⟩
      · cases half <;> simp only [Process.entered, hpc, Half.after]
      · cases half <;> simp only [Process.left, hpc, Half.after]
      · rw [made_after hpc, if_neg (by rw [hop]; decide), Nat.add_zero]
      · rw [made_after hpc, if_pos hop]
      · cases half <;> exact .of_isInner rfl
  | again hpc =>
      refine ⟨h.meeting.stay ?_ ?_, h.flow.stay fun op => ?_,
        h.become (.of_isInner rfl)⟩
      · simp only [Process.entered, hpc]
        omega
      · simp only [Process.left, hpc]
        omega
      · simp only [Process.made, hpc]
        cases r <;> cases op <;> rfl

theorem joined_of_reachable (hgood : Good c) (h : (system c).Reachable s) :
    Inv c s ∧ Joined c s := by
  refine System.invariant (I := fun s => Inv c s ∧ Joined c s) ?_ ?_ h
  · intro t ht
    rw [show t = State.fresh c from ht]
    exact ⟨inv_fresh c, joined_fresh c⟩
  · intro t r t' hinv hs
    obtain ⟨hinv, hjoined⟩ := hinv
    exact ⟨hinv.move (rankStep_move hs), hjoined.turn (rankStep_turn hinv hgood hs)⟩

/-! ## §4. Of two ranks one can go on. -/

/-- What can keep a rank from a step. -/
inductive Stuck (s : State) (r : Rank) : Prop where
  | exited (hpc : (s.process r).pc = .exited)
  | barrier (hpc : (s.process r).pc = .entered ∨ (s.process r).pc = .starting ∨
        (s.process r).pc = .ending) (hlate : s.barrier.entered r.peer < s.barrier.entered r)
  | recv {half : Half} (hpc : (s.process r).pc = .inside half)
      (hop : operation r half = .recv) (hempty : s.channel r = [])
  | send {half : Half} (hpc : (s.process r).pc = .inside half)
      (hop : operation r half = .send) (hpeer : s.receiving r.peer = false)

theorem rankStep_barrier {pc : Pc} (hs : s.leave r pc = none) :
    s.barrier.entered r.peer < s.barrier.entered r := by
  unfold State.leave at hs
  split at hs
  next => cases hs
  next hcan =>
    rw [canLeave_iff] at hcan
    omega

theorem sending_iff {half : Half} (hpc : (s.process r).pc = .inside half) :
    s.sending r = (operation r half == .send) := by
  unfold State.sending
  rw [hpc]

theorem receiving_of_recv {half : Half} (hpc : (s.process r).pc = .inside half)
    (hop : operation r half = .recv) : s.receiving r = true := by
  unfold State.receiving
  rw [hpc]
  show (operation r half == .recv) = true
  rw [hop]
  rfl

/-- A rank is held only in a send. -/
theorem held_cases (h : s.held eager r = true) :
    ∃ half, (s.process r).pc = .inside half ∧ operation r half = .send ∧
      s.receiving r.peer = false := by
  unfold State.held at h
  rw [Bool.and_eq_true, Bool.and_eq_true, Bool.not_eq_true', Bool.not_eq_true'] at h
  obtain ⟨⟨hsend, _⟩, hpeer⟩ := h
  cases hpc : (s.process r).pc with
  | inside half =>
      rw [sending_iff hpc] at hsend
      exact ⟨half, rfl, by simpa using hsend, hpeer⟩
  | entering | entered | ready | starting | calling | done | ending | verifying | exited |
      aborted | failed =>
      unfold State.sending at hsend
      rw [hpc] at hsend
      cases hsend

/-- **Nothing else does.** -/
theorem stuck_of_none (h : Joined c s) (hs : blockingStep eager c s r = none) : Stuck s r := by
  have hsane := h.sane r
  unfold blockingStep at hs
  split at hs
  next hheld =>
    obtain ⟨half, hpc, hop, hpeer⟩ := held_cases hheld
    exact .send hpc hop hpeer
  next =>
    unfold rankStep at hs
    cases hpc : (s.process r).pc with
    | entering | calling | done =>
        rw [hpc] at hs
        cases hs
    | entered =>
        rw [hpc] at hs
        exact .barrier (.inl hpc) (rankStep_barrier hs)
    | starting =>
        rw [hpc] at hs
        exact .barrier (.inr (.inl hpc)) (rankStep_barrier hs)
    | ending =>
        rw [hpc] at hs
        exact .barrier (.inr (.inr hpc)) (rankStep_barrier hs)
    | ready | verifying =>
        rw [hpc] at hs
        dsimp only at hs
        split at hs <;> cases hs
    | inside half =>
        rw [hpc] at hs
        dsimp only at hs
        cases hop : operation r half with
        | send =>
            rw [hop] at hs
            cases hs
        | recv =>
            rw [hop] at hs
            have hs : mpiRecv c s r half = none := hs
            unfold mpiRecv at hs
            split at hs
            next => cases hs
            next =>
              split at hs
              next hempty => exact .recv hpc hop hempty
              next => split at hs <;> cases hs
    | exited => exact .exited hpc
    | aborted => exact absurd hpc hsane.aborted
    | failed => exact absurd hpc hsane.failed

/-- Inside a call, it is still to be counted. -/
theorem made_inside {p : Process} {half : Half} {op : Operation} (hpc : p.pc = .inside half)
    (hop : operation r half = op) : p.made r op = p.iteration := by
  unfold Process.made
  rw [hpc]
  cases hop
  cases r <;> cases half <;> rfl

theorem made_ending {p : Process} (hpc : p.pc = .ending) (op : Operation) :
    p.made r op = p.iteration + 1 := by
  unfold Process.made
  rw [hpc]
  cases r <;> cases op <;> rfl

/-- Behind the first call, it has been counted. -/
theorem made_first {p : Process} {op : Operation} (hpc : p.pc = .inside .second)
    (hop : operation r .first = op) : p.made r op = p.iteration + 1 := by
  unfold Process.made
  rw [hpc]
  cases hop
  cases r <;> rfl

theorem crossings_inside {p : Process} {half : Half} (hpc : p.pc = .inside half) :
    p.entered = 2 * p.iteration + 2 ∧ p.left = 2 * p.iteration + 2 := by
  simp only [Process.entered, Process.left, hpc, and_self]

theorem crossings_exited {p : Process} (hpc : p.pc = .exited) :
    p.entered = 2 * p.iteration + 1 ∧ p.left = 2 * p.iteration + 1 := by
  simp only [Process.entered, Process.left, hpc, and_self]

/-- How far apart two ranks can be. -/
theorem Joined.apart (h : Joined c s) (p q : Rank) :
    (s.process p).left ≤ (s.process q).entered := by
  have hsafe := h.meeting.safe p q
  rw [h.meeting.left, h.meeting.entered] at hsafe
  exact hsafe

/-- Ranks that are both inside a call are in the same iteration. -/
theorem Joined.same_iteration (h : Joined c s) {half half' : Half}
    (hpc : (s.process r).pc = .inside half) (hpc' : (s.process r.peer).pc = .inside half') :
    (s.process r).iteration = (s.process r.peer).iteration := by
  obtain ⟨he, hl⟩ := crossings_inside hpc
  obtain ⟨he', hl'⟩ := crossings_inside hpc'
  have h1 := h.apart r r.peer
  have h2 := h.apart r.peer r
  omega

/-- Nobody inside a call has been left behind. -/
theorem Joined.call_exited (h : Joined c s) (hinv : Inv c s) {half : Half}
    (hpc : (s.process r).pc = .inside half) (hpc' : (s.process r.peer).pc = .exited) : False := by
  have hlt := (hinv.rank r).running (by rw [hpc]; rfl)
  have hge := (h.sane r.peer).through hpc'
  obtain ⟨he, _⟩ := crossings_inside hpc
  obtain ⟨_, hl⟩ := crossings_exited hpc'
  have h1 := h.apart r.peer r
  omega

/-- A rank behind both its calls leaves its peer nothing to wait for. -/
theorem Joined.call_ending (h : Joined c s) {half : Half} (hpc : (s.process r).pc = .ending)
    (hpc' : (s.process r.peer).pc = .inside half)
    (hiter : (s.process r).iteration = (s.process r.peer).iteration) :
    operation r.peer half = .recv ∧ s.channel r.peer ≠ [] := by
  cases hop : operation r.peer half with
  | send =>
      exfalso
      have hflow := h.flow r
      rw [made_ending hpc, made_inside hpc' hop] at hflow
      omega
  | recv =>
      refine ⟨rfl, fun hempty => ?_⟩
      have hflow := h.flow r.peer
      rw [Rank.peer_peer, made_ending hpc, made_inside hpc' hop, hempty, List.length_nil] at hflow
      omega

/-- A rank that waits in a barrier for one inside a call is done with both of
its own. -/
theorem Joined.ending_of_late (h : Joined c s) {half : Half}
    (hpc : (s.process r).pc = .entered ∨ (s.process r).pc = .starting ∨
      (s.process r).pc = .ending) (hlate : s.barrier.entered r.peer < s.barrier.entered r)
    (hin : (s.process r.peer).pc = .inside half) :
    (s.process r).pc = .ending ∧ (s.process r).iteration = (s.process r.peer).iteration := by
  have hl := h.apart r r.peer
  obtain ⟨he', _⟩ := crossings_inside hin
  rw [h.meeting.entered, h.meeting.entered, he'] at hlate
  rw [he'] at hl
  rcases hpc with hpc | hpc | hpc
  · simp only [Process.entered, hpc] at hlate
    omega
  · simp only [Process.entered, Process.left, hpc] at hlate hl
    omega
  · simp only [Process.entered, Process.left, hpc] at hlate hl
    exact ⟨hpc, by omega⟩

/-- A rank is kept in a barrier only by one that can go on. -/
theorem Joined.barrier_stuck (h : Joined c s) (hinv : Inv c s)
    (hpc : (s.process r).pc = .entered ∨ (s.process r).pc = .starting ∨
      (s.process r).pc = .ending) (hlater : s.barrier.entered r.peer < s.barrier.entered r)
    (hpeer : Stuck s r.peer) : False := by
  have hlate := hlater
  rw [h.meeting.entered, h.meeting.entered] at hlate
  have hrun : (s.process r).pc ≠ .entered → (s.process r).iteration < c.total := by
    intro hne
    apply (hinv.rank r).running
    rcases hpc with hpc | hpc | hpc
    · exact absurd hpc hne
    · rw [hpc]
      rfl
    · rw [hpc]
      rfl
  cases hpeer with
  | barrier _ hlater' =>
      rw [Rank.peer_peer] at hlater'
      omega
  | exited hexit =>
      have hge := (h.sane r.peer).through hexit
      obtain ⟨he', _⟩ := crossings_exited hexit
      rcases hpc with hpc | hpc | hpc
      · simp only [Process.entered, hpc] at hlate he'
        omega
      · have hlt := hrun (by rw [hpc]; nofun)
        have he : (s.process r).entered = 2 * (s.process r).iteration + 2 := by
          simp only [Process.entered, hpc]
        omega
      · have hlt := hrun (by rw [hpc]; nofun)
        have he : (s.process r).entered = 2 * (s.process r).iteration + 3 := by
          simp only [Process.entered, hpc]
        omega
  | recv hin hop hempty =>
      obtain ⟨hend, hiter⟩ := h.ending_of_late hpc hlater hin
      exact (h.call_ending hend hin hiter).2 hempty
  | send hin hop =>
      obtain ⟨hend, hiter⟩ := h.ending_of_late hpc hlater hin
      have hrecv := (h.call_ending hend hin hiter).1
      rw [hop] at hrecv
      cases hrecv

/-- **Two ranks that cannot go on are both through.** -/
theorem Joined.exited_of_stuck (h : Joined c s) (hinv : Inv c s) (h0 : Stuck s .zero)
    (h1 : Stuck s .one) : ∀ r, (s.process r).pc = .exited := by
  cases h0 with
  | barrier hpc hlate => exact (h.barrier_stuck hinv hpc hlate h1).elim
  | exited hexit =>
      cases h1 with
      | barrier hpc hlate => exact (h.barrier_stuck hinv hpc hlate (.exited hexit)).elim
      | exited hexit' =>
          intro r
          cases r with
          | zero => exact hexit
          | one => exact hexit'
      | recv hin | send hin => exact (h.call_exited (r := .one) hinv hin hexit).elim
  | @recv half hin hop hempty =>
      cases h1 with
      | barrier hpc hlate => exact (h.barrier_stuck hinv hpc hlate (.recv hin hop hempty)).elim
      | exited hexit => exact (h.call_exited (r := .zero) hinv hin hexit).elim
      | send _ _ hpeer =>
          have hposted := receiving_of_recv hin hop
          rw [show s.receiving .zero = false from hpeer] at hposted
          cases hposted
      | @recv half' hin' hop' hempty' =>
          -- rank 0 has sent before it receives
          exfalso
          have hiter := h.same_iteration (r := .zero) hin hin'
          cases half with
          | first => cases hop
          | second =>
              have hflow := h.flow .one
              rw [hempty', made_inside hin' hop', show (Rank.one.peer) = .zero from rfl,
                made_first hin (show operation .zero .first = .send from rfl)] at hflow
              have hiter : (s.process .zero).iteration = (s.process .one).iteration := hiter
              rw [List.length_nil] at hflow
              omega
  | @send half hin hop hpeer =>
      cases h1 with
      | barrier hpc hlate => exact (h.barrier_stuck hinv hpc hlate (.send hin hop hpeer)).elim
      | exited hexit => exact (h.call_exited (r := .zero) hinv hin hexit).elim
      | recv hin' hop' =>
          have hposted := receiving_of_recv hin' hop'
          rw [show s.receiving .one = false from hpeer] at hposted
          cases hposted
      | @send half' hin' hop' hpeer' =>
          -- rank 1 has received what rank 0 is about to send
          exfalso
          have hiter : (s.process .zero).iteration = (s.process .one).iteration :=
            h.same_iteration (r := .zero) hin hin'
          cases half' with
          | first => cases hop'
          | second =>
              have hflow := h.flow .one
              rw [made_first hin' (show operation .one .first = .recv from rfl),
                show (Rank.one.peer) = .zero from rfl, made_inside hin hop] at hflow
              omega

/-! ## §5. Every fair run ends. -/

/-- Steps left of the iteration under way, and nine for each to come. -/
def Process.rank (c : Config) (p : Process) : Nat :=
  match p.pc with
  | .entering => 9 * (c.total - p.iteration) + 3
  | .entered => 9 * (c.total - p.iteration) + 2
  | .ready => 9 * (c.total - p.iteration) + 1
  | .starting => 9 * (c.total - (p.iteration + 1)) + 9
  | .calling .first => 9 * (c.total - (p.iteration + 1)) + 8
  | .inside .first => 9 * (c.total - (p.iteration + 1)) + 7
  | .calling .second => 9 * (c.total - (p.iteration + 1)) + 6
  | .inside .second => 9 * (c.total - (p.iteration + 1)) + 5
  | .done => 9 * (c.total - (p.iteration + 1)) + 4
  | .ending => 9 * (c.total - (p.iteration + 1)) + 3
  | .verifying => 9 * (c.total - (p.iteration + 1)) + 2
  | .exited | .aborted | .failed => 0

/-- What both ranks have still to do. -/
def State.rank (c : Config) (s : State) : Nat := ∑ r, (s.process r).rank c

/-- **Every step lowers the rank.** -/
theorem Turn.rank_lt (hturn : Turn c s r s') : s'.rank c < s.rank c := by
  have hbecome : ∀ {p : Process}, s'.process = Function.update s.process r p →
      p.rank c < (s.process r).rank c → s'.rank c < s.rank c := by
    intro p hp hlt
    refine sum_rank_lt (p := r) ?_ fun q hq => ?_
    · rw [hp, Function.update_self]
      exact hlt
    · rw [hp, Function.update_of_ne hq]
  cases hturn with
  | arrive hgo =>
      refine hbecome rfl ?_
      cases hgo with
      | enter hpc | close hpc =>
          simp only [Process.rank, hpc]
          omega
      | begin hpc hlt =>
          simp only [Process.rank, hpc]
          omega
  | leave hgo =>
      refine hbecome rfl ?_
      cases hgo with
      | «open» hpc | start hpc | leave hpc =>
          simp only [Process.rank, hpc]
          omega
  | exit hpc =>
      refine hbecome rfl ?_
      simp only [Process.rank, hpc]
      omega
  | @call half hpc =>
      refine hbecome rfl ?_
      cases half with
      | first | second =>
          simp only [Process.rank, hpc]
          omega
  | @send half hpc | @recv half _ _ hpc =>
      refine hbecome rfl ?_
      cases half with
      | first | second =>
          simp only [Process.rank, hpc, Half.after]
          omega
  | again hpc =>
      refine hbecome rfl ?_
      simp only [Process.rank, hpc]
      omega

theorem blockingStep_turn (hgood : Good c) (h : (blockingSystem eager c).Reachable s)
    (hs : blockingStep eager c s r = some s') : Turn c s r s' := by
  obtain ⟨hinv, _⟩ := joined_of_reachable hgood (reachable_of_blocking h)
  unfold blockingStep at hs
  split at hs
  next => cases hs
  next => exact rankStep_turn hinv hgood hs

theorem ranked (hgood : Good c) : (blockingSystem eager c).Ranked (State.rank c) := by
  intro s r s' h hs _
  exact (blockingStep_turn hgood h hs).rank_lt

/-- **The ranks do not deadlock**, whichever sends wait. -/
theorem canProgress (hgood : Good c) (h : (blockingSystem eager c).Reachable s)
    (hmore : ¬ ∀ r, (s.process r).pc = .exited) : (blockingSystem eager c).CanProgress s := by
  obtain ⟨hinv, hjoined⟩ := joined_of_reachable hgood (reachable_of_blocking h)
  have hgo : ∃ r, blockingStep eager c s r ≠ none := by
    by_contra hnone
    push Not at hnone
    exact hmore (hjoined.exited_of_stuck hinv (stuck_of_none hjoined (hnone .zero))
      (stuck_of_none hjoined (hnone .one)))
  obtain ⟨r, hr⟩ := hgo
  obtain ⟨s', hs⟩ := Option.ne_none_iff_exists'.mp hr
  refine ⟨r, s', hs, ?_⟩
  rintro rfl
  exact Nat.lt_irrefl _ (blockingStep_turn hgood h hs).rank_lt

/-- What holds of the ranks at every moment. -/
structure Undisturbed (c : Config) (s : State) : Prop where
  /-- No call and no verification fails. -/
  running : ∀ r, (s.process r).pc ≠ .failed ∧ (s.process r).pc ≠ .aborted
  /-- No message waits behind another. -/
  single : ∀ r, (s.channel r).length ≤ 1
  /-- The ranks are in the same iteration, or one is about to begin the next. -/
  near : ∀ r, (s.process r).iteration ≤ (s.process r.peer).iteration + 1
  /-- What is verified is what the other rank has sent. -/
  whole : ∀ r, (s.process r).pc = .verifying → (s.process r).recvBuffer = c.sendBuffer r.peer

/-- How the ranks end. -/
structure Over (c : Config) (s : State) : Prop where
  exited : ∀ r, (s.process r).pc = .exited
  iteration : ∀ r, (s.process r).iteration = c.total
  received : 0 < c.total → ∀ r, (s.process r).recvBuffer = c.sendBuffer r.peer
  empty : ∀ r, s.channel r = []

theorem made_bounds (p : Process) (op : Operation) :
    p.iteration ≤ p.made r op ∧ p.made r op ≤ p.iteration + 1 :=
  ⟨Nat.le_add_right _ _, Nat.add_le_add_left (Bool.toNat_le _) _⟩

theorem crossings_bounds {p : Process} (hsane : Sane c p) :
    (p.iteration = 0 ∨ 2 * p.iteration + 1 ≤ p.left) ∧ p.entered ≤ 2 * p.iteration + 3 := by
  cases hpc : p.pc with
  | entering | entered =>
      have hzero := hsane.opening (by simp [hpc])
      simp only [Process.entered, hpc]
      exact ⟨.inl hzero, by omega⟩
  | aborted => exact absurd hpc hsane.aborted
  | failed => exact absurd hpc hsane.failed
  | ready | starting | calling | inside | done | ending | verifying | exited =>
      simp only [Process.entered, Process.left, hpc]
      exact ⟨.inr (by omega), by omega⟩

/-- A rank behind the second arrival of its iteration is behind both calls. -/
theorem made_of_entered {p : Process} (hsane : Sane c p) (h : 2 * p.iteration + 3 ≤ p.entered)
    (op : Operation) : p.made r op = p.iteration + 1 := by
  cases hpc : p.pc with
  | ending | verifying =>
      unfold Process.made
      rw [hpc]
      cases r <;> cases op <;> rfl
  | aborted => exact absurd hpc hsane.aborted
  | failed => exact absurd hpc hsane.failed
  | entering | entered | ready | starting | calling | inside | done | exited =>
      simp only [Process.entered, hpc] at h
      omega

theorem Joined.near (h : Joined c s) (r : Rank) :
    (s.process r).iteration ≤ (s.process r.peer).iteration + 1 := by
  have hapart := h.apart r r.peer
  have hr := crossings_bounds (h.sane r)
  have hpeer := crossings_bounds (h.sane r.peer)
  omega

theorem Joined.single (h : Joined c s) (r : Rank) : (s.channel r).length ≤ 1 := by
  have hflow := h.flow r
  have hsent := made_bounds (r := r.peer) (s.process r.peer) .send
  have hreceived := made_bounds (r := r) (s.process r) .recv
  have hnear := h.near r.peer
  rw [Rank.peer_peer] at hnear
  by_cases hahead : (s.process r.peer).iteration = (s.process r).iteration + 1
  · -- the peer is ahead only when this rank is through with its calls
    have hapart := h.apart r.peer r
    have hleft := (crossings_bounds (h.sane r.peer)).1
    have hmade := made_of_entered (r := r) (h.sane r) (by omega) .recv
    omega
  · omega

theorem Joined.undisturbed (h : Joined c s) (hinv : Inv c s) (hgood : Good c) :
    Undisturbed c s where
  running r := ⟨(h.sane r).failed, (h.sane r).aborted⟩
  single := h.single
  near := h.near
  whole _ hpc := hinv.verifies hgood hpc

theorem Joined.over (h : Joined c s) (hinv : Inv c s) (hgood : Good c)
    (hexit : ∀ r, (s.process r).pc = .exited) : Over c s := by
  have hiter : ∀ r, (s.process r).iteration = c.total := by
    intro r
    have hge := (h.sane r).through (hexit r)
    have hle := (hinv.rank r).bound
    omega
  have hmade : ∀ r q op, (s.process q).made r op = c.total := by
    intro r q op
    rw [← hiter q]
    unfold Process.made
    rw [hexit q]
    cases r <;> cases op <;> rfl
  refine ⟨hexit, hiter, fun hpos r => ?_, fun r => ?_⟩
  · rw [((hinv.rank r).received (.inl (by rw [hiter]; exact hpos))).2]
    exact written_eq_sendBuffer hgood.count
  · have hflow := h.flow r
    rw [hmade, hmade] at hflow
    exact List.eq_nil_of_length_eq_zero (by omega)

theorem good_of_generated {draws : Rank → Nat → UInt64} (hfits : (c.dataSize : Int) ≤ intMax)
    (hdata : ∀ r, generateDataToSend (draws r) c.dataSize = some (c.sendBuffer r)) : Good c where
  count := (narrowInt_eq_iff c.dataSize).mpr hfits
  verified r := verified_of_generated c.accepted c.dataSize_lt (hdata r)

theorem undisturbed_of_reachable (hgood : Good c) (h : (blockingSystem eager c).Reachable s) :
    Undisturbed c s := by
  obtain ⟨hinv, hjoined⟩ := joined_of_reachable hgood (reachable_of_blocking h)
  exact hjoined.undisturbed hinv hgood

/-- **Every weakly fair run ends**, whatever MPI buffers. -/
theorem ends (hgood : Good c) (r : (blockingSystem eager c).Behaviour) (hfair : r.WeaklyFair id) :
    ∃ i, ∀ j, i ≤ j → Over c (r.state j) := by
  obtain ⟨i, hi, hstay⟩ := r.terminates (G := fun s => ∀ q, (s.process q).pc = .exited)
    (ranked hgood) (fun s hs hmore => canProgress hgood hs hmore) hfair
  refine ⟨i, fun j hij => ?_⟩
  rw [hstay j hij]
  obtain ⟨hinv, hjoined⟩ := joined_of_reachable hgood (reachable_of_blocking (r.reachable i))
  exact hjoined.over hinv hgood hi

/-- **`mpi_bandwidth`'s ping-pong**: with generated data and a size that an
`int` can hold, whichever sends MPI buffers and however the ranks are
scheduled, no call and no verification fails, at most one message is on its
way to each rank, and every weakly fair run ends with all iterations made, each
rank holding the other's data, and no message left. -/
theorem ping_pong (c : Config) (draws : Rank → Nat → UInt64)
    (hfits : (c.dataSize : Int) ≤ intMax)
    (hdata : ∀ r, generateDataToSend (draws r) c.dataSize = some (c.sendBuffer r))
    (eager : State → Rank → Bool) :
    (∀ s, (blockingSystem eager c).Reachable s → Undisturbed c s) ∧
      ∀ r : (blockingSystem eager c).Behaviour, r.WeaklyFair id →
        ∃ i, ∀ j, i ≤ j → Over c (r.state j) := by
  have hgood := good_of_generated hfits hdata
  exact ⟨fun s hs => undisturbed_of_reachable hgood hs, ends hgood⟩

/-- Four iterations of 137 bytes each way, over an MPI that buffers nothing. -/
theorem ping_pong_unbuffered :
    ∃ (c : Config) (r : (blockingSystem (fun _ _ => false) c).Behaviour), c.total = 4 ∧
      c.dataSize = 137 ∧ (∀ i, Undisturbed c (r.state i)) ∧
      ∃ i, ∀ j, i ≤ j → Over c (r.state j) := by
  have hsize : checksumSize < 137 := by decide
  have hword : 137 < wordSize := by decide
  obtain ⟨data, hgen, hlen, _⟩ := exists_generated UInt64.ofNat hsize hword
  let c : Config := ⟨4, 137, fun _ => data, fun _ => hlen, hsize, hword⟩
  have hfits : ((137 : Nat) : Int) ≤ intMax := by decide
  have hdata : ∀ r, generateDataToSend ((fun _ => UInt64.ofNat) r) c.dataSize =
      some (c.sendBuffer r) := fun _ => hgen
  have hranked : (blockingSystem (fun _ _ => false) c).Ranked (State.rank c) :=
    ranked (good_of_generated hfits hdata)
  obtain ⟨r, _, hfair⟩ := System.exists_weaklyFair hranked (s := State.fresh c) rfl id
  obtain ⟨hall, hend⟩ := ping_pong c _ hfits hdata fun _ _ => false
  exact ⟨c, r, rfl, rfl, fun i => hall _ (r.reachable i), hend r hfair⟩

end Akbench.Mpi
