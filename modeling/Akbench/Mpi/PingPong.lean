/-
  Akbench.Mpi.PingPong
  ────────────────────
  **`mpi_bandwidth`: TWO RANKS THAT SEND TO EACH OTHER IN TURN.**

  In every iteration rank 0 sends and then receives, rank 1 receives and then
  sends, between two barriers; afterwards both verify `recv_buffer`, and a
  buffer that does not verify is fatal.  The buffer is made once and used in
  all iterations.

  MPI counts are of type `int`, `data_size` is a `uint64_t`: every call passes
  `narrowInt dataSize`.

  Of MPI: a message arrives as it was sent, messages between two ranks in
  their order; a count below zero, or a message longer than the count of the
  `MPI_Recv` it meets, is an error, which ends the process.  A send is over
  once the message is on its way; one that waits for its receiver is one whose
  rank is not scheduled until then.  `MPI_Barrier` is a correct barrier.
-/
import Akbench.Common.Checksum
import Akbench.Lib.Rendezvous
import Akbench.Lib.Word

namespace Akbench.Mpi

/-! ## §1. The two ranks. -/

/-- The ranks of `MPI_COMM_WORLD`. -/
inductive Rank where
  | zero
  | one
  deriving DecidableEq, Repr

instance : Fintype Rank where
  elems := {.zero, .one}
  complete r := by cases r <;> decide

/-- The rank a call names as its peer. -/
def Rank.peer : Rank → Rank
  | zero => one
  | one => zero

@[simp] theorem Rank.peer_peer (r : Rank) : r.peer.peer = r := by
  cases r <;> rfl

/-- A run with sizes that `main` accepts. -/
structure Config where
  /-- `num_warmups + num_iterations`. -/
  total : Nat
  dataSize : Nat
  sendBuffer : Rank → List UInt8
  length_sendBuffer : ∀ r, (sendBuffer r).length = dataSize
  accepted : checksumSize < dataSize
  dataSize_lt : dataSize < wordSize

/-- The argument `count` of every call. -/
def Config.count (c : Config) : Int := narrowInt c.dataSize

/-- What a call does. -/
inductive Operation where
  | send
  | recv
  deriving DecidableEq, Repr

/-- The two calls of an iteration. -/
inductive Half where
  | first
  | second
  deriving DecidableEq, Repr

/-- The order of the calls. -/
def operation : Rank → Half → Operation
  | .zero, .first => .send
  | .zero, .second => .recv
  | .one, .first => .recv
  | .one, .second => .send

/-- Where a rank is. -/
inductive Pc where
  /-- Before the barrier ahead of the iterations. -/
  | entering
  /-- Inside it. -/
  | entered
  /-- At the head of the iteration loop. -/
  | ready
  /-- Inside the first barrier of the iteration. -/
  | starting
  /-- Before a call. -/
  | calling (half : Half)
  /-- Inside it. -/
  | inside (half : Half)
  /-- Before the second barrier. -/
  | done
  /-- Inside it. -/
  | ending
  /-- Before `VerifyDataReceived`. -/
  | verifying
  | exited
  /-- Aborted on a `FATAL` message. -/
  | aborted
  /-- Ended by an error of an MPI call. -/
  | failed
  deriving DecidableEq, Repr

/-- Behind a call. -/
def Half.after : Half → Pc
  | first => .calling .second
  | second => .done

structure Process where
  pc : Pc
  iteration : Nat
  recvBuffer : List UInt8
  deriving DecidableEq, Repr

/-- A call as it was made. -/
structure MpiCall where
  operation : Operation
  rank : Rank
  count : Int
  deriving DecidableEq, Repr

/-- Both ranks, what is on its way to each of them, and the calls made so far,
which no code reads. -/
structure State where
  barrier : Rendezvous Rank
  process : Rank → Process
  channel : Rank → List (List UInt8)
  calls : List MpiCall

/-- `std::vector<uint8_t> recv_buffer(data_size)` is zeroed. -/
def State.fresh (c : Config) : State where
  barrier := .fresh
  process := fun _ => ⟨.entering, 0, List.replicate c.dataSize 0⟩
  channel := fun _ => []
  calls := []

/-! ## §2. Steps. -/

/-- Rank `r` becomes `p`. -/
def State.become (s : State) (r : Rank) (p : Process) : State :=
  { s with process := Function.update s.process r p }

/-- Rank `r` moves on to `pc`. -/
def State.goto (s : State) (r : Rank) (pc : Pc) : State :=
  s.become r { s.process r with pc := pc }

/-- `MPI_Barrier`, entered and left. -/
def State.arrive (s : State) (r : Rank) (pc : Pc) : State :=
  { s.goto r pc with barrier := s.barrier.arrive r }

def State.leave (s : State) (r : Rank) (pc : Pc) : Option State :=
  if s.barrier.CanLeave r then some { s.goto r pc with barrier := s.barrier.leave r } else none

/-- The bytes an `MPI_Send` of rank `r` takes from `send_buffer`. -/
def Config.message (c : Config) (r : Rank) : List UInt8 := (c.sendBuffer r).take c.count.toNat

/-- `MPI_Send`. -/
def mpiSend (c : Config) (s : State) (r : Rank) (half : Half) : State :=
  if c.count < 0 then s.goto r .failed
  else
    { s.goto r half.after with
      channel := Function.update s.channel r.peer (s.channel r.peer ++ [c.message r]) }

/-- `MPI_Recv`: the message lands at the front of `recv_buffer`. -/
def mpiRecv (c : Config) (s : State) (r : Rank) (half : Half) : Option State :=
  if c.count < 0 then some (s.goto r .failed)
  else
    match s.channel r with
    | [] => none
    | m :: rest =>
        -- a longer message is `MPI_ERR_TRUNCATE`
        if (m.length : Int) ≤ c.count then
          some
            { s.become r
                { s.process r with
                  pc := half.after
                  recvBuffer := m ++ (s.process r).recvBuffer.drop m.length } with
              channel := Function.update s.channel r rest }
        else some (s.goto r .failed)

/-- One step of rank `r`. -/
def rankStep (c : Config) (s : State) (r : Rank) : Option State :=
  match (s.process r).pc with
  | .entering => some (s.arrive r .entered)
  | .entered => s.leave r .ready
  | .ready =>
      if (s.process r).iteration < c.total then some (s.arrive r .starting)
      else some (s.goto r .exited)
  | .starting => s.leave r (.calling .first)
  | .calling half =>
      some { s.goto r (.inside half) with
        calls := ⟨operation r half, r, c.count⟩ :: s.calls }
  | .inside half =>
      match operation r half with
      | .send => some (mpiSend c s r half)
      | .recv => mpiRecv c s r half
  | .done => some (s.arrive r .ending)
  | .ending => s.leave r .verifying
  | .verifying =>
      if verifyDataReceived (s.process r).recvBuffer c.dataSize = some true then
        some (s.become r
          { s.process r with pc := .ready, iteration := (s.process r).iteration + 1 })
      else some (s.goto r .aborted)
  | .exited | .aborted | .failed => none

/-- The two ranks after `MPI_Init` and the checks. -/
def system (c : Config) : System State Rank where
  init s := s = State.fresh c
  step := rankStep c

/-! ## §3. What a step can do. -/

variable {c : Config} {s s' : State} {r : Rank}

/-- A rank goes on by itself, or through a barrier. -/
inductive Goes (c : Config) (p : Process) : Pc → Prop where
  | enter (hpc : p.pc = .entering) : Goes c p .entered
  | open (hpc : p.pc = .entered) : Goes c p .ready
  | begin (hpc : p.pc = .ready) (hlt : p.iteration < c.total) : Goes c p .starting
  | exit (hpc : p.pc = .ready) : Goes c p .exited
  | start (hpc : p.pc = .starting) : Goes c p (.calling .first)
  | fail {half : Half} (hpc : p.pc = .inside half) : Goes c p .failed
  | close (hpc : p.pc = .done) : Goes c p .ending
  | leave (hpc : p.pc = .ending) : Goes c p .verifying
  | reject (hpc : p.pc = .verifying) : Goes c p .aborted

/-- A step of rank `r`. -/
inductive Move (c : Config) (s : State) (r : Rank) : State → Prop where
  | go {pc : Pc} {b : Rendezvous Rank} (hgo : Goes c (s.process r) pc) :
      Move c s r { s.goto r pc with barrier := b }
  | call {half : Half} (hpc : (s.process r).pc = .calling half) :
      Move c s r { s.goto r (.inside half) with
        calls := ⟨operation r half, r, c.count⟩ :: s.calls }
  | send {half : Half} (hpc : (s.process r).pc = .inside half)
      (hop : operation r half = .send) (hcount : 0 ≤ c.count) :
      Move c s r { s.goto r half.after with
        channel := Function.update s.channel r.peer (s.channel r.peer ++ [c.message r]) }
  | recv {half : Half} {m : List UInt8} {rest : List (List UInt8)}
      (hpc : (s.process r).pc = .inside half) (hop : operation r half = .recv)
      (hcount : 0 ≤ c.count) (hchannel : s.channel r = m :: rest) :
      Move c s r
        { s.become r
            { s.process r with
              pc := half.after
              recvBuffer := m ++ (s.process r).recvBuffer.drop m.length } with
          channel := Function.update s.channel r rest }
  | again (hpc : (s.process r).pc = .verifying)
      (hverify : verifyDataReceived (s.process r).recvBuffer c.dataSize = some true) :
      Move c s r (s.become r
        { s.process r with pc := .ready, iteration := (s.process r).iteration + 1 })

/-- Through a barrier. -/
theorem leave_move {pc : Pc} (hgo : Goes c (s.process r) pc) (hs : s.leave r pc = some s') :
    Move c s r s' := by
  unfold State.leave at hs
  obtain ⟨_, rfl⟩ := System.guard_cases hs
  exact .go hgo

/-- **Every step is a move.** -/
theorem rankStep_move (hs : rankStep c s r = some s') : Move c s r s' := by
  unfold rankStep at hs
  cases hpc : (s.process r).pc with
  | entering =>
      rw [hpc] at hs
      injection hs with hs
      subst hs
      exact .go (.enter hpc)
  | entered =>
      rw [hpc] at hs
      exact leave_move (.open hpc) hs
  | ready =>
      rw [hpc] at hs
      dsimp only at hs
      obtain ⟨hlt, rfl⟩ | ⟨_, rfl⟩ := System.branch_cases hs
      · exact .go (.begin hpc hlt)
      · exact .go (.exit hpc)
  | starting =>
      rw [hpc] at hs
      exact leave_move (.start hpc) hs
  | calling half =>
      rw [hpc] at hs
      injection hs with hs
      subst hs
      exact .call hpc
  | inside half =>
      rw [hpc] at hs
      dsimp only at hs
      cases hop : operation r half with
      | send =>
          rw [hop] at hs
          injection hs with hs
          subst hs
          unfold mpiSend
          split
          next => exact .go (.fail hpc)
          next hcount => exact .send hpc hop (by omega)
      | recv =>
          rw [hop] at hs
          have hs' : mpiRecv c s r half = some s' := hs
          unfold mpiRecv at hs'
          split at hs'
          next =>
            injection hs' with hs'
            subst hs'
            exact .go (.fail hpc)
          next hcount =>
            split at hs'
            next => cases hs'
            next m rest hchannel =>
              obtain ⟨_, rfl⟩ | ⟨_, rfl⟩ := System.branch_cases hs'
              · exact .recv hpc hop (by omega) hchannel
              · exact .go (.fail hpc)
  | done =>
      rw [hpc] at hs
      injection hs with hs
      subst hs
      exact .go (.close hpc)
  | ending =>
      rw [hpc] at hs
      exact leave_move (.leave hpc) hs
  | verifying =>
      rw [hpc] at hs
      dsimp only at hs
      obtain ⟨hverify, rfl⟩ | ⟨_, rfl⟩ := System.branch_cases hs
      · exact .again hpc hverify
      · exact .go (.reject hpc)
  | exited | aborted | failed =>
      rw [hpc] at hs
      cases hs

/-! ## §4. The invariant. -/

/-- In an iteration. -/
def Pc.isRunning : Pc → Bool
  | .starting | .calling _ | .inside _ | .done | .ending | .verifying => true
  | _ => false

/-- Behind the `MPI_Recv` of the iteration. -/
def Pc.isPast : Rank → Pc → Bool
  | .one, .calling .second | .one, .inside .second => true
  | _, .done | _, .ending | _, .verifying => true
  | _, _ => false

/-- What an `MPI_Recv` of rank `r` makes of a zeroed `recv_buffer`. -/
def Config.written (c : Config) (r : Rank) : List UInt8 :=
  c.message r.peer ++ List.replicate (c.dataSize - (c.message r.peer).length) 0

/-- What holds of rank `r` by itself. -/
structure RankLocal (c : Config) (r : Rank) (p : Process) : Prop where
  bound : p.iteration ≤ c.total
  running : p.pc.isRunning = true → p.iteration < c.total
  buffer : p.recvBuffer = List.replicate c.dataSize 0 ∨ p.recvBuffer = c.written r
  /-- A rank that has received has a whole message, once and for all. -/
  received : 0 < p.iteration ∨ p.pc.isPast r = true →
    0 ≤ c.count ∧ p.recvBuffer = c.written r
  verified : 0 < p.iteration → verifyDataReceived (c.written r) c.dataSize = some true

/-- Everything that holds in every run. -/
structure Inv (c : Config) (s : State) : Prop where
  rank : ∀ r, RankLocal c r (s.process r)
  messages : ∀ r m, m ∈ s.channel r → m = c.message r.peer
  calls : ∀ call, call ∈ s.calls → call.count = c.count ∧ 0 < c.total

theorem inv_fresh (c : Config) : Inv c (State.fresh c) := by
  refine ⟨?_, nofun, nofun⟩
  intro r
  refine ⟨Nat.zero_le _, nofun, .inl rfl, ?_, nofun⟩
  rintro (hpos | hpast)
  · exact absurd hpos (Nat.lt_irrefl 0)
  · cases r <;> cases hpast

/-- A message written over a message like it. -/
theorem written_again (c : Config) (r : Rank) {buffer : List UInt8}
    (h : buffer = List.replicate c.dataSize 0 ∨ buffer = c.written r) :
    c.message r.peer ++ buffer.drop (c.message r.peer).length = c.written r := by
  unfold Config.written at h ⊢
  rcases h with hzero | hwritten
  · rw [hzero, List.drop_replicate]
  · rw [hwritten, List.drop_left]

/-- Another process in place of rank `r`. -/
theorem Inv.become (h : Inv c s) {p : Process} (hp : RankLocal c r p) :
    ∀ q, RankLocal c q ((s.become r p).process q) := by
  intro q
  show RankLocal c q (Function.update s.process r p q)
  by_cases hq : q = r
  · subst hq
    rw [Function.update_self]
    exact hp
  · rw [Function.update_of_ne hq]
    exact h.rank q

/-- A rank that moves on with what it has. -/
theorem RankLocal.move {p : Process} (h : RankLocal c r p) {pc : Pc}
    (hrun : pc.isRunning = true → p.iteration < c.total)
    (hpast : pc.isPast r = true → p.pc.isPast r = true) :
    RankLocal c r { p with pc := pc } := by
  refine ⟨h.bound, hrun, h.buffer, ?_, h.verified⟩
  rintro (hpos | hpc)
  · exact h.received (.inl hpos)
  · exact h.received (.inr (hpast hpc))

/-- **Step lemma for a rank going on.** -/
theorem RankLocal.goes {p : Process} (h : RankLocal c r p) {pc : Pc} (hgo : Goes c p pc) :
    RankLocal c r { p with pc := pc } := by
  cases hgo with
  | enter | «open» | exit | fail | reject =>
      exact h.move nofun (by cases r <;> nofun)
  | begin hpc hlt => exact h.move (fun _ => hlt) (by cases r <;> nofun)
  | start hpc => exact h.move (fun _ => h.running (by rw [hpc]; rfl)) (by cases r <;> nofun)
  | close hpc | leave hpc =>
      refine h.move (fun _ => h.running (by rw [hpc]; rfl)) (fun _ => ?_)
      rw [hpc]
      cases r <;> rfl

/-- **Every move keeps the invariant.** -/
theorem Inv.move (h : Inv c s) (hmove : Move c s r s') : Inv c s' := by
  have hr := h.rank r
  cases hmove with
  | go hgo => exact ⟨h.become (hr.goes hgo), h.messages, h.calls⟩
  | @call half hpc =>
      -- the count of the new call is the one of the others
      have hlt := hr.running (by rw [hpc]; rfl)
      refine ⟨h.become (hr.move (fun _ => hlt) ?_), h.messages, ?_⟩
      · rw [hpc]
        cases r <;> cases half <;> exact id
      · intro call hcall
        rcases List.mem_cons.mp hcall with hnew | hold
        · rw [hnew]
          dsimp only
          exact ⟨rfl, Nat.zero_lt_of_lt hlt⟩
        · exact h.calls call hold
  | @send half hpc hop hcount =>
      have hlt := hr.running (by rw [hpc]; rfl)
      refine ⟨h.become (hr.move (fun _ => hlt) ?_), ?_, h.calls⟩
      · rw [hpc]
        cases r <;> cases half <;> first | exact id | cases hop
      · intro q m hm
        -- only the peer's channel grows
        by_cases hq : q = r.peer
        · subst hq
          have hm' : m ∈ Function.update s.channel r.peer _ r.peer := hm
          rw [Function.update_self, List.mem_append, List.mem_singleton] at hm'
          rcases hm' with hold | hnew
          · exact h.messages _ m hold
          · rw [hnew, Rank.peer_peer]
        · have hm' : m ∈ Function.update s.channel r.peer _ q := hm
          rw [Function.update_of_ne hq] at hm'
          exact h.messages q m hm'
  | @recv half m rest hpc hop hcount hchannel =>
      have hlt := hr.running (by rw [hpc]; rfl)
      -- what is received over what an iteration before has left
      have hmessage : m = c.message r.peer :=
        h.messages r m (by rw [hchannel]; exact List.mem_cons_self)
      have hwritten := written_again c r hr.buffer
      rw [← hmessage] at hwritten
      refine ⟨h.become ⟨hr.bound, fun _ => hlt, .inr hwritten, fun _ => ⟨hcount, hwritten⟩,
        hr.verified⟩, ?_, h.calls⟩
      intro q m' hm'
      apply h.messages q m'
      by_cases hq : q = r
      · subst hq
        have hrest : m' ∈ Function.update s.channel q rest q := hm'
        rw [Function.update_self] at hrest
        rw [hchannel]
        exact List.mem_cons_of_mem m hrest
      · have hrest : m' ∈ Function.update s.channel r rest q := hm'
        rwa [Function.update_of_ne hq] at hrest
  | again hpc hverify =>
      have hlt := hr.running (by rw [hpc]; rfl)
      -- the verdict is kept: the buffer stays what it is from here on
      obtain ⟨hcount, hbuffer⟩ := hr.received (.inr (by rw [hpc]; cases r <;> rfl))
      rw [hbuffer] at hverify
      exact ⟨h.become ⟨hlt, nofun, hr.buffer, fun _ => ⟨hcount, hbuffer⟩, fun _ => hverify⟩,
        h.messages, h.calls⟩

theorem inv_of_reachable (h : (system c).Reachable s) : Inv c s := by
  refine System.invariant (I := Inv c) ?_ ?_ h
  · intro t ht
    rw [show t = State.fresh c from ht]
    exact inv_fresh c
  · intro t r t' hinv hs
    exact hinv.move (rankStep_move hs)

end Akbench.Mpi
