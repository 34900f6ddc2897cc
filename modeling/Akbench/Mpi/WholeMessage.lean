/-
  Akbench.Mpi.WholeMessage
  ────────────────────────
  **WHAT A RUN TRANSFERS, FOR EVERY SIZE.**

  Up to the largest `int` the count is `data_size`, and an iteration leaves
  the peer's whole buffer behind.  Above it the count is another number.  If
  it is negative no call succeeds; otherwise the first `count` bytes arrive
  and the rest of `recv_buffer` stays zero, which the verification notices
  only if the loss shows in a column of the checksum: it never does where
  `count` is 0.

    • `written_eq_sendBuffer` — the whole message;
    • `iteration_ends` — the schedule of one iteration;
    • `loss_hidden` — what an iteration that ended says about a larger size;
    • `whole_message_iff` — the sizes for which the whole message arrives.
-/
import Akbench.Common.Generate
import Akbench.Mpi.PingPong
import Akbench.Transfer.EndOfData

namespace Akbench.Mpi

variable {c : Config} {s : State} {r : Rank}

/-! ## §1. Lengths. -/

theorem count_le (c : Config) : c.count ≤ c.dataSize := narrowInt_le c.dataSize

theorem length_message (c : Config) (r : Rank) : (c.message r).length = c.count.toNat := by
  have hle := count_le c
  unfold Config.message
  rw [List.length_take, c.length_sendBuffer]
  omega

/-- With the right count the whole of the peer's buffer arrives. -/
theorem written_eq_sendBuffer (h : c.count = c.dataSize) : c.written r = c.sendBuffer r.peer := by
  have hlen := c.length_sendBuffer r.peer
  unfold Config.written
  rw [length_message, h, Int.toNat_natCast, Nat.sub_self]
  unfold Config.message
  rw [h, Int.toNat_natCast, ← hlen, List.take_length]
  exact List.append_nil _

/-! ## §2. One iteration. -/

theorem canLeave_iff (b : Rendezvous Rank) (r : Rank) :
    b.CanLeave r ↔ b.entered r ≤ b.entered r.peer := by
  constructor
  · intro h
    exact h r.peer
  · intro h q
    by_cases hq : q = r
    · rw [hq]
    · have hpeer : q = r.peer := by
        cases q <;> cases r <;> first | rfl | exact absurd rfl hq
      rw [hpeer]
      exact h

/-- Both ranks up to their first call, and rank 0 into it. -/
def opening : List Rank := [.zero, .one, .zero, .one, .zero, .one, .zero, .one, .zero]

/-- From there to the end of the iteration. -/
def exchange : List Rank :=
  [.zero, .one, .one, .one, .one, .zero, .zero, .zero, .one, .zero, .one, .zero, .one]

/-- **Any run with an iteration makes a call.** -/
theorem first_call (htotal : 0 < c.total) :
    ∃ s, (system c).Reachable s ∧ ∃ call, call ∈ s.calls ∧ call.count = c.count := by
  have hrun : ∃ s, (system c).exec (State.fresh c) opening = some s ∧
      ∃ call, call ∈ s.calls ∧ call.count = c.count := by
    simp [opening, System.exec, system, rankStep, State.fresh, State.arrive, State.leave,
      State.goto, State.become, canLeave_iff, htotal, Rank.peer, Rendezvous.arrive,
      Rendezvous.leave, Rendezvous.fresh]
  obtain ⟨s, hexec, hcall⟩ := hrun
  exact ⟨s, System.reachable_of_exec opening rfl hexec, hcall⟩

/-- **An iteration ends** if its messages can be sent and verify. -/
theorem iteration_ends (htotal : 0 < c.total) (hcount : 0 ≤ c.count)
    (hverify : ∀ r, verifyDataReceived (c.written r) c.dataSize = some true) :
    ∃ s, (system c).Reachable s ∧ ∀ r, (s.process r).iteration = 1 := by
  have hfits : ∀ r, ((c.message r).length : Int) ≤ c.count := by
    intro r
    rw [length_message, Int.toNat_of_nonneg hcount]
  have hnot : ¬ c.count < 0 := by omega
  have hzero : verifyDataReceived
      (c.message .one ++ List.replicate (c.dataSize - (c.message .one).length) 0) c.dataSize =
        some true := hverify .zero
  have hone : verifyDataReceived
      (c.message .zero ++ List.replicate (c.dataSize - (c.message .zero).length) 0) c.dataSize =
        some true := hverify .one
  have hrun : ∃ s, (system c).exec (State.fresh c) (opening ++ exchange) = some s ∧
      ∀ r, (s.process r).iteration = 1 := by
    simp [opening, exchange, System.exec, system, rankStep, State.fresh, State.arrive, State.leave,
      State.goto, State.become, canLeave_iff, htotal, Rank.peer, Rendezvous.arrive,
      Rendezvous.leave, Rendezvous.fresh, operation, mpiSend, mpiRecv, hnot, hfits, Half.after,
      hzero, hone]
    intro r
    cases r <;> simp
  obtain ⟨s, hexec, hone⟩ := hrun
  exact ⟨s, System.reachable_of_exec _ rfl hexec, hone⟩

/-! ## §3. Sizes no `int` can hold. -/

/-- **What an iteration that ended says**: the count was not negative, what
arrived is in front of zeros, and where that is not the whole buffer the loss
shows in no column. -/
theorem loss_hidden (h : (system c).Reachable s) (hended : 0 < (s.process r).iteration)
    (hvalid : verifyDataReceived (c.sendBuffer r.peer) c.dataSize = some true) :
    0 ≤ c.count ∧
      (s.process r).recvBuffer = (c.sendBuffer r.peer).take c.count.toNat ++
        List.replicate (c.dataSize - c.count.toNat) 0 ∧
      (c.count < c.dataSize → ¬ LossShows (c.sendBuffer r.peer) c.count.toNat) := by
  have hrank := (inv_of_reachable h).rank r
  obtain ⟨hcount, hbuffer⟩ := hrank.received (.inl hended)
  have hverified := hrank.verified hended
  have hlen := c.length_sendBuffer r.peer
  have hwritten : c.written r = (c.sendBuffer r.peer).take c.count.toNat ++
      List.replicate (c.dataSize - c.count.toNat) 0 := by
    unfold Config.written
    rw [length_message]
    rfl
  rw [hwritten] at hbuffer hverified
  refine ⟨hcount, hbuffer, ?_⟩
  -- the buffer is the one a truncated `recv` loop over zeros would leave
  intro hlt hshows
  rw [← hlen] at hvalid hverified
  have hsize : checksumSize < (c.sendBuffer r.peer).length := by
    rw [hlen]
    exact c.accepted
  have hfalse := (zero_filled_rejected_iff hsize hvalid (by omega)).mpr hshows
  rw [hverified] at hfalse
  cases hfalse

/-- **A count of 0 is never noticed**: every iteration ends, with a buffer of
zeros. -/
theorem zero_count_unnoticed (hcount : c.count = 0) :
    (0 < c.total → ∃ s, (system c).Reachable s ∧ ∀ r, (s.process r).iteration = 1) ∧
      ∀ s, (system c).Reachable s →
        ∀ r, (s.process r).recvBuffer = List.replicate c.dataSize 0 := by
  have hwritten : ∀ r, c.written r = List.replicate c.dataSize 0 := by
    intro r
    -- the zeros of `recv_buffer` are never written
    have hnone : c.message r.peer = [] := by
      apply List.eq_nil_of_length_eq_zero
      rw [length_message, hcount]
      rfl
    unfold Config.written
    rw [hnone]
    rfl
  constructor
  · intro htotal
    apply iteration_ends htotal (by omega)
    intro r
    rw [hwritten]
    exact verifyDataReceived_zero c.accepted
  · intro s h r
    rcases ((inv_of_reachable h).rank r).buffer with hzero | hbuffer
    · exact hzero
    · rw [hbuffer]
      exact hwritten r

/-! ## §4. Every size. -/

/-- Every call is asked for `data_size` bytes, and every iteration that ended
left the peer's buffer. -/
def WholeMessage (c : Config) : Prop :=
  ∀ s, (system c).Reachable s →
    (∀ call, call ∈ s.calls → call.count = c.dataSize) ∧
    ∀ r, 0 < (s.process r).iteration → (s.process r).recvBuffer = c.sendBuffer r.peer

/-- **The whole message is transferred exactly when its size is an `int`**, or
there is no iteration. -/
theorem whole_message_iff (c : Config) :
    WholeMessage c ↔ c.total = 0 ∨ (c.dataSize : Int) ≤ intMax := by
  constructor
  · intro hwhole
    by_cases htotal : c.total = 0
    · exact .inl htotal
    · right
      -- the count of the first call tells
      obtain ⟨s, hreach, call, hcall, hcount⟩ := first_call (Nat.pos_of_ne_zero htotal)
      have hsize := (hwhole s hreach).1 call hcall
      exact (narrowInt_eq_iff c.dataSize).mp (hcount.symm.trans hsize)
  · intro hfits s hreach
    have hinv := inv_of_reachable hreach
    rcases hfits with htotal | hle
    · constructor
      · intro call hcall
        have hpos := (hinv.calls call hcall).2
        omega
      · intro r hended
        have hbound := (hinv.rank r).bound
        omega
    · have hcount : c.count = c.dataSize := (narrowInt_eq_iff c.dataSize).mpr hle
      constructor
      · intro call hcall
        rw [(hinv.calls call hcall).1, hcount]
      · intro r hended
        rw [((hinv.rank r).received (.inl hended)).2]
        exact written_eq_sendBuffer hcount

/-- Three iterations with `n` bytes of content, all of them 1. -/
def onesConfig (n : Nat) (hn : 0 < n) (hword : n + checksumSize < wordSize) : Config where
  total := 3
  dataSize := n + checksumSize
  sendBuffer := fun _ => List.replicate n 1 ++ checksumOf (List.replicate n 1) n
  length_sendBuffer := by
    intro _
    rw [List.length_append, List.length_replicate, length_checksumOf]
  accepted := by omega
  dataSize_lt := hword

section

variable {n : Nat} {hn : 0 < n} {hword : n + checksumSize < wordSize}

theorem onesConfig_verifies (r : Rank) :
    verifyDataReceived ((onesConfig n hn hword).sendBuffer r) (onesConfig n hn hword).dataSize =
      some true := by
  have hverify := verify_content_checksum (List.replicate n 1)
  rw [List.length_replicate] at hverify
  exact hverify hn

theorem onesConfig_ne_zeros (r : Rank) (m : Nat) :
    List.replicate m 0 ≠ (onesConfig n hn hword).sendBuffer r := by
  intro heq
  have hbyte : byteAt (List.replicate m 0) 0 =
      byteAt (List.replicate n 1 ++ checksumOf (List.replicate n 1) n) 0 :=
    congrArg (byteAt · 0) heq
  have hone : byteAt (List.replicate n 1 ++ checksumOf (List.replicate n 1) n) 0 = 1 := by
    unfold byteAt
    rw [List.getD_append _ _ _ _ (by rw [List.length_replicate]; exact hn),
      List.getD_replicate _ hn]
  rw [hone] at hbyte
  unfold byteAt at hbyte
  rw [getD_replicate_zero] at hbyte
  exact absurd hbyte (by decide)

end

/-- `mpi_bandwidth --data-size=4294967296`: the count is 0, nothing is sent,
and every iteration verifies a buffer of zeros. -/
theorem message_lost :
    let c := onesConfig (2 ^ 32 - 128) (by decide) (by decide)
    c.dataSize = 2 ^ 32 ∧ (∀ r, verifyDataReceived (c.sendBuffer r) c.dataSize = some true) ∧
      c.count = 0 ∧
      (∃ s, (system c).Reachable s ∧ ∀ r, (s.process r).iteration = 1 ∧
        (s.process r).recvBuffer ≠ c.sendBuffer r.peer) ∧
      ¬ WholeMessage c := by
  intro c
  have hcount : c.count = 0 := by decide
  obtain ⟨hrun, hzeros⟩ := zero_count_unnoticed hcount
  obtain ⟨s, hreach, hended⟩ := hrun (by decide)
  have hlost : ∀ r, (s.process r).recvBuffer ≠ c.sendBuffer r.peer := by
    intro r heq
    rw [hzeros s hreach r] at heq
    exact onesConfig_ne_zeros r.peer _ heq
  refine ⟨by decide, onesConfig_verifies, hcount,
    ⟨s, hreach, fun r => ⟨hended r, hlost r⟩⟩, ?_⟩
  intro hwhole
  exact hlost .zero ((hwhole s hreach).2 .zero (by rw [hended]; decide))

end Akbench.Mpi
