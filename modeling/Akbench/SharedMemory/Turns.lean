/-
  Akbench.SharedMemory.Turns
  ──────────────────────────
  **WHAT ONE STEP OF A PIPELINE LOOP KEEPS.**

  Of the buffer the sender guarantees `Sent`, of its vector the receiver
  guarantees `Got`.  Neither mentions the other side or the barrier:

    • `sendTurn_sent`, `receiveTurn_got` — one step keeps them;
    • `Sent.visible` — what the receiver reads in step `i` is chunk `i - 1`,
      as long as the sender is not too far;
    • `LoopMove.lockstep` — how far it can be, by the barrier;
    • `sendTurn_progress`, `receiveTurn_progress` — only the barrier can hold
      a loop up.
-/
import Akbench.SharedMemory.Pipeline
import Akbench.Common.Checksum

namespace Akbench.SharedMemory

/-! ## §1. What the loops keep. -/

/-- The slot the receiver reads in step `j` holds chunk `j - 1`, which for
`j = 0` is no byte at all; every bit of it was written in the iteration
`stamp`. -/
structure Ready (c : Params) (stamp : Nat) (m : Buffer) (j : Nat) : Prop where
  size : m.dataSize (slot .receiver j) = ⟨c.off j - c.off (j - 1), stamp⟩
  data : ∀ k, k < c.off j - c.off (j - 1) →
    m.data (slot .receiver j * c.bufferSize + k) =
      ⟨c.payload.getD (c.off (j - 1) + k) 0, stamp⟩

/-- What the sender's loop keeps of the buffer. -/
structure Sent (c : Params) (stamp : Nat) (m : Buffer) (p : SendLoop) : Prop where
  inside : p.i + p.pc.entered ≤ c.nPipeline
  bytes : p.bytesSent = c.off p.i
  sized : p.pc.Sized → p.sizeToSend = c.off (p.i + 1) - c.off p.i
  copied_le : p.pc.Sized → p.copied ≤ p.sizeToSend
  whole : p.pc = .closing → p.copied = p.sizeToSend
  partly : p.pc.Sized → ∀ k, k < p.copied →
    m.data (slot .sender p.i * c.bufferSize + k) =
      ⟨c.payload.getD (c.off p.i + k) 0, stamp⟩
  /-- The slot that is not being filled. -/
  ready : Ready c stamp m p.i
  /-- The slot about to be filled, until it is. -/
  previous : p.pc.left = 0 → Ready c stamp m (p.i - 1)
  /-- The size of the first slot, until it is filled. -/
  opening : p.i = 0 → m.dataSize (slot .sender 0) = ⟨0, stamp⟩

/-- What the receiver's loop keeps of its vector. -/
structure Got (c : Params) (r : ReceiveLoop) : Prop where
  inside : r.i + r.pc.entered ≤ c.nPipeline
  length : r.receivedData.length = c.dataSize
  bytes : r.bytesReceived = c.off (r.i - 1)
  sized : r.pc.Sized → r.sizeToReceive = c.off r.i - c.off (r.i - 1)
  copied_le : r.pc.Sized → r.copied ≤ r.sizeToReceive
  whole : r.pc = .closing → r.copied = r.sizeToReceive
  delivered : ∀ k, k < c.off (r.i - 1) → r.receivedData[k]? = c.payload[k]?
  partly : r.pc.Sized → ∀ k, k < r.copied →
    r.receivedData[c.off (r.i - 1) + k]? = c.payload[c.off (r.i - 1) + k]?
  /-- The rest is as it was allocated. -/
  untouched : ∀ k, c.off (r.i - 1) ≤ k → (r.pc.Sized → c.off (r.i - 1) + r.copied ≤ k) →
    k < c.dataSize → r.receivedData[k]? = some 0

variable {c : Params} {stamp : Nat} {b b' : Rendezvous Side} {m m' : Buffer}
variable {p p' : SendLoop} {r r' : ReceiveLoop} {i j k : Nat}

theorem slot_lt (side : Side) (i : Nat) : slot side i < 2 :=
  Nat.mod_lt _ (by omega)

/-- In one step the two sides use different slots. -/
theorem slot_ne (i : Nat) : slot .receiver i ≠ slot .sender i := by
  show (i + 1) % 2 ≠ (i + 0) % 2
  omega

/-- What the sender fills in one step the receiver empties in the next. -/
theorem slot_succ (i : Nat) : slot .receiver (i + 1) = slot .sender i := by
  show (i + 1 + 1) % 2 = (i + 0) % 2
  omega

/-- The first `buffer_size` bytes after a slot's first one are its own. -/
theorem slot_of_byte (u : Nat) (hk : k < c.bufferSize) :
    (u * c.bufferSize + k) / c.bufferSize = u := by
  rw [Nat.mul_comm, Nat.mul_add_div c.bufferSize_pos, Nat.div_eq_of_lt hk, Nat.add_zero]

/-- Bytes of different slots are different bytes. -/
theorem byte_ne {u v : Nat} (huv : u ≠ v) (hi : i < c.bufferSize) (hj : j < c.bufferSize) :
    u * c.bufferSize + i ≠ v * c.bufferSize + j := by
  intro heq
  apply huv
  rw [← slot_of_byte u hi, heq, slot_of_byte v hj]

/-- The step-0 slot needs only its size: there is no byte in it. -/
theorem Ready.of_size (hsize : m.dataSize (slot .receiver 0) = ⟨0, stamp⟩) :
    Ready c stamp m 0 where
  size := by
    rw [hsize]
    show (⟨0, stamp⟩ : Stamped Nat) = ⟨c.off 0 - c.off 0, stamp⟩
    rw [Nat.sub_self]
  data k hk := by
    have hzero : c.off 0 - c.off (0 - 1) = 0 := Nat.sub_self _
    omega

/-- Writing a byte of the other slot. -/
theorem Ready.setByte (h : Ready c stamp m j) (hne : slot .receiver j ≠ slot .sender i)
    (hk : k < c.bufferSize) (byte : UInt8) :
    Ready c stamp (m.setByte stamp (slot .sender i * c.bufferSize + k) byte) j where
  size := h.size
  data n hn := by
    have hfit := c.off_sub_le j
    rw [Buffer.setByte_of_ne m stamp byte (byte_ne hne (by omega) hk)]
    exact h.data n hn

/-- Writing the size of the other slot. -/
theorem Ready.setSize (h : Ready c stamp m j) (hne : slot .receiver j ≠ slot .sender i)
    (size : Nat) :
    Ready c stamp (m.setSize stamp (slot .sender i) size) j where
  size := by
    rw [Buffer.setSize_of_ne m stamp size hne]
    exact h.size
  data n hn := h.data n hn

/-- The sender before its loop, over a fresh buffer. -/
theorem sent_fresh (hsize : ∀ j, m.dataSize j = ⟨0, stamp⟩) : Sent c stamp m SendLoop.fresh where
  inside := Nat.zero_le _
  bytes := c.off_zero.symm
  sized := by rintro (h | h) <;> cases h
  copied_le := by rintro (h | h) <;> cases h
  whole := nofun
  partly := by rintro (h | h) <;> cases h
  ready := Ready.of_size (hsize _)
  previous _ := Ready.of_size (hsize _)
  opening _ := hsize _

/-- The receiver before its loop. -/
theorem got_fresh (c : Params) : Got c (ReceiveLoop.fresh c) where
  inside := Nat.zero_le _
  length := List.length_replicate
  bytes := c.off_zero.symm
  sized := by rintro (h | h) <;> cases h
  copied_le := by rintro (h | h) <;> cases h
  whole := nofun
  delivered k hk := by
    have hzero : c.off (0 - 1) = 0 := c.off_zero
    have hlt : k < c.off (0 - 1) := hk
    omega
  partly := by rintro (h | h) <;> cases h
  untouched k _ _ hk := by
    show (List.replicate c.dataSize (0 : UInt8))[k]? = some 0
    rw [List.getElem?_replicate, if_pos hk]

/-- One byte of the `memcpy` into the slot; `partly` is its loop invariant. -/
theorem Sent.copy (h : Sent c stamp m p) (hpc : p.pc = .copying) (hlt : p.copied < p.sizeToSend) :
    Sent c stamp
      (m.setByte stamp (slot .sender p.i * c.bufferSize + p.copied)
        (c.payload.getD (p.bytesSent + p.copied) 0))
      { p with copied := p.copied + 1 } := by
  have hsizedPc : p.pc.Sized := .inl hpc
  have hsized := h.sized hsizedPc
  have hfit := c.off_sub_le (p.i + 1)
  rw [Nat.add_sub_cancel] at hfit
  have hk : p.copied < c.bufferSize := by omega
  refine ⟨h.inside, h.bytes, fun _ => hsized, fun _ => hlt, ?_, ?_,
    h.ready.setByte (slot_ne p.i) hk _, ?_, h.opening⟩
  · intro hclosing
    rw [hpc] at hclosing
    cases hclosing
  · intro _ k hkc
    have hkc' : k < p.copied + 1 := hkc
    show (m.setByte stamp (slot .sender p.i * c.bufferSize + p.copied) _).data
      (slot .sender p.i * c.bufferSize + k) = _
    by_cases heq : k = p.copied
    · rw [heq, h.bytes]
      exact Buffer.setByte_self m stamp _ _
    · rw [Buffer.setByte_of_ne m stamp _ (by omega)]
      exact h.partly hsizedPc k (by omega)
  · intro hleft
    rw [hpc] at hleft
    cases hleft

/-- The size of the chunk closes the slot: what was written in this step is
what the receiver reads in its next one. -/
theorem Sent.close (h : Sent c stamp m p) (hpc : p.pc = .closing) :
    Sent c stamp (m.setSize stamp (slot .sender p.i) p.sizeToSend)
      { p with
        pc := .top
        i := p.i + 1
        bytesSent := add64 p.bytesSent p.sizeToSend } := by
  have hsizedPc : p.pc.Sized := .inr hpc
  have hsized := h.sized hsizedPc
  have hwhole := h.whole hpc
  have hin := h.inside
  rw [hpc] at hin
  refine ⟨hin, ?_, ?_, ?_, nofun, ?_, ?_,
    fun _ => h.ready.setSize (slot_ne p.i) p.sizeToSend, nofun⟩
  · show add64 p.bytesSent p.sizeToSend = c.off (p.i + 1)
    rw [h.bytes, hsized]
    exact c.add64_off p.i
  · rintro (h | h) <;> cases h
  · rintro (h | h) <;> cases h
  · rintro (h | h) <;> cases h
  · constructor
    · show (m.setSize stamp (slot .sender p.i) p.sizeToSend).dataSize
        (slot .receiver (p.i + 1)) = _
      rw [slot_succ, Buffer.setSize_self, hsized]
      rfl
    · intro k hk
      show m.data (slot .receiver (p.i + 1) * c.bufferSize + k) = _
      have hk' : k < c.off (p.i + 1) - c.off p.i := hk
      rw [slot_succ]
      exact h.partly hsizedPc k (by omega)

/-- **One step of the sender's loop.** -/
theorem sendTurn_sent (h : Sent c stamp m p) (hs : sendTurn c stamp b m p = some (b', m', p')) :
    Sent c stamp m' p' := by
  obtain ⟨pc, i, bytesSent, sizeToSend, copied⟩ := p
  have hin := h.inside
  cases pc with
  | top =>
      unfold sendTurn at hs
      dsimp only at hs
      split at hs
      next hlt =>
        injection hs with hs
        injection hs with _ hs
        injection hs with hm hp
        subst hm
        subst hp
        refine ⟨hlt, h.bytes, ?_, ?_, nofun, ?_, h.ready, fun _ => h.previous rfl, h.opening⟩
        all_goals rintro (h | h) <;> cases h
      next => cases hs
  | waiting =>
      unfold sendTurn at hs
      dsimp only at hs
      split at hs
      next =>
        injection hs with hs
        injection hs with _ hs
        injection hs with hm hp
        subst hm
        subst hp
        refine ⟨hin, h.bytes, ?_, ?_, nofun, ?_, h.ready, nofun, h.opening⟩
        all_goals rintro (h | h) <;> cases h
      next => cases hs
  | sizing =>
      unfold sendTurn at hs
      dsimp only at hs
      injection hs with hs
      injection hs with _ hs
      injection hs with hm hp
      subst hm
      subst hp
      have hbytes : bytesSent = c.off i := h.bytes
      refine ⟨hin, hbytes, ?_, fun _ => Nat.zero_le _, nofun, ?_, h.ready, nofun, h.opening⟩
      · intro _
        show min (sub64 c.dataSize bytesSent) c.bufferSize = c.off (i + 1) - c.off i
        rw [hbytes]
        exact c.sizeToSend_eq i
      · intro _ k hk
        exact absurd hk (Nat.not_lt_zero k)
  | copying =>
      unfold sendTurn at hs
      dsimp only at hs
      split at hs
      next hlt =>
        injection hs with hs
        injection hs with _ hs
        injection hs with hm hp
        subst hm
        subst hp
        exact h.copy rfl hlt
      next hge =>
        injection hs with hs
        injection hs with _ hs
        injection hs with hm hp
        subst hm
        subst hp
        have hle : copied ≤ sizeToSend := h.copied_le (.inl rfl)
        have hwhole : copied = sizeToSend := by omega
        exact ⟨hin, h.bytes, fun _ => h.sized (.inl rfl), fun _ => hle, fun _ => hwhole,
          fun _ => h.partly (.inl rfl), h.ready, nofun, h.opening⟩
  | closing =>
      unfold sendTurn at hs
      dsimp only at hs
      injection hs with hs
      injection hs with _ hs
      injection hs with hm hp
      subst hm
      subst hp
      exact h.close rfl

/-- **What the receiver reads in step `j`** is there, as long as the sender
has entered the crossing that opens the step and not left the one after. -/
theorem Sent.visible (h : Sent c stamp m p) (hentered : j + 1 ≤ p.i + p.pc.entered)
    (hleft : p.i + p.pc.left ≤ j + 1) : Ready c stamp m j := by
  have hcross : p.pc.left ≤ p.pc.entered ∧ p.pc.entered ≤ 1 := by
    cases p.pc <;> decide
  by_cases hj : p.i = j
  · rw [← hj]
    exact h.ready
  · -- the sender is one step ahead and has not begun to write in it
    have hnext : p.i = j + 1 := by omega
    have hprev := h.previous (by omega)
    rw [hnext] at hprev
    exact hprev

/-- One byte of the `memcpy` out of the slot; `partly` and `untouched` are its
loop invariant. -/
theorem Got.copy (h : Got c r) (hpc : r.pc = .copying) (hready : Ready c stamp m r.i)
    (hlt : r.copied < r.sizeToReceive) :
    Got c { r with
      receivedData := r.receivedData.set (r.bytesReceived + r.copied)
        (m.data (slot .receiver r.i * c.bufferSize + r.copied)).value
      copied := r.copied + 1 } := by
  have hsizedPc : r.pc.Sized := .inl hpc
  have hbytes := h.bytes
  have hsized := h.sized hsizedPc
  have hlen := h.length
  have hplen := c.payload_length
  have hoff := c.off_le r.i
  have hdata := hready.data r.copied (by omega)
  have hvalue : (m.data (slot .receiver r.i * c.bufferSize + r.copied)).value =
      c.payload.getD (c.off (r.i - 1) + r.copied) 0 := by
    rw [hdata]
  refine ⟨h.inside, ?_, hbytes, fun _ => hsized, fun _ => hlt, ?_, ?_, ?_, ?_⟩
  · show (r.receivedData.set _ _).length = c.dataSize
    rw [List.length_set, hlen]
  · intro hclosing
    rw [hpc] at hclosing
    cases hclosing
  · intro k hk
    have hk' : k < c.off (r.i - 1) := hk
    show (r.receivedData.set (r.bytesReceived + r.copied) _)[k]? = c.payload[k]?
    rw [List.getElem?_set_ne (by omega)]
    exact h.delivered k hk
  · intro _ k hk
    have hk' : k < r.copied + 1 := hk
    show (r.receivedData.set (r.bytesReceived + r.copied) _)[c.off (r.i - 1) + k]? =
      c.payload[c.off (r.i - 1) + k]?
    by_cases heq : k = r.copied
    · -- the byte just copied
      subst heq
      have hinside : c.off (r.i - 1) + r.copied < c.payload.length := by omega
      rw [hbytes, hvalue, List.getElem?_set_self (by omega), List.getD_eq_getElem?_getD,
        List.getElem?_eq_getElem hinside]
      rfl
    · rw [List.getElem?_set_ne (by omega)]
      exact h.partly hsizedPc k (by omega)
  · intro k hk hpast hkD
    have hk' : c.off (r.i - 1) ≤ k := hk
    have hpast' : c.off (r.i - 1) + (r.copied + 1) ≤ k := hpast hsizedPc
    show (r.receivedData.set (r.bytesReceived + r.copied) _)[k]? = some 0
    rw [List.getElem?_set_ne (by omega)]
    exact h.untouched k hk' (fun _ => by omega) hkD

/-- The two programs add the same: the second read of `data_size[]` sees what
the first one saw. -/
theorem Got.sizeToAdd_eq (h : Got c r) (hpc : r.pc = .closing) (hready : Ready c stamp m r.i) :
    sizeToAdd c m r = c.off r.i - c.off (r.i - 1) := by
  unfold sizeToAdd
  split
  · rw [hready.size]
  · exact h.sized (.inr hpc)

/-- The chunk is behind: it has arrived from its first byte to its last. -/
theorem Got.close (h : Got c r) (hpc : r.pc = .closing) (hready : Ready c stamp m r.i) :
    Got c { r with
      pc := .top
      i := r.i + 1
      bytesReceived := add64 r.bytesReceived (sizeToAdd c m r) } := by
  have hsizedPc : r.pc.Sized := .inr hpc
  have hsized := h.sized hsizedPc
  have hwhole := h.whole hpc
  have hpred := c.off_pred_le r.i
  have hin := h.inside
  rw [hpc] at hin
  refine ⟨hin, h.length, ?_, ?_, ?_, nofun, ?_, ?_, ?_⟩
  · show add64 r.bytesReceived _ = c.off r.i
    rw [h.sizeToAdd_eq hpc hready, h.bytes]
    exact c.add64_off_pred r.i
  · rintro (h | h) <;> cases h
  · rintro (h | h) <;> cases h
  · intro k hk
    have hk' : k < c.off r.i := hk
    show r.receivedData[k]? = c.payload[k]?
    by_cases hold : k < c.off (r.i - 1)
    · exact h.delivered k hold
    · -- position `k` lies in the chunk of this step
      have hnew := h.partly hsizedPc (k - c.off (r.i - 1)) (by omega)
      have hpos : c.off (r.i - 1) + (k - c.off (r.i - 1)) = k := by omega
      rw [hpos] at hnew
      exact hnew
  · rintro (h | h) <;> cases h
  · intro k hk _ hkD
    have hk' : c.off r.i ≤ k := hk
    exact h.untouched k (by omega) (fun _ => by omega) hkD

/-- **One step of the receiver's loop**, over a buffer that holds its
chunk. -/
theorem receiveTurn_got (h : Got c r) (hready : r.pc.left = 1 → Ready c stamp m r.i)
    (hs : receiveTurn c b m r = some (b', r')) : Got c r' := by
  obtain ⟨pc, i, bytesReceived, sizeToReceive, copied, receivedData⟩ := r
  have hin := h.inside
  cases pc with
  | top =>
      unfold receiveTurn at hs
      dsimp only at hs
      split at hs
      next hlt =>
        injection hs with hs
        injection hs with _ hr
        subst hr
        refine ⟨hlt, h.length, h.bytes, ?_, ?_, nofun, h.delivered, ?_, ?_⟩
        · rintro (h | h) <;> cases h
        · rintro (h | h) <;> cases h
        · rintro (h | h) <;> cases h
        · intro k hk _
          exact h.untouched k hk (by rintro (h | h) <;> cases h)
      next => cases hs
  | waiting =>
      unfold receiveTurn at hs
      dsimp only at hs
      split at hs
      next =>
        injection hs with hs
        injection hs with _ hr
        subst hr
        refine ⟨hin, h.length, h.bytes, ?_, ?_, nofun, h.delivered, ?_, ?_⟩
        · rintro (h | h) <;> cases h
        · rintro (h | h) <;> cases h
        · rintro (h | h) <;> cases h
        · intro k hk _
          exact h.untouched k hk (by rintro (h | h) <;> cases h)
      next => cases hs
  | sizing =>
      have hread : Ready c stamp m i := hready rfl
      have hsize := hread.size
      unfold receiveTurn at hs
      dsimp only at hs
      injection hs with hs
      injection hs with _ hr
      subst hr
      refine ⟨hin, h.length, h.bytes, ?_, fun _ => Nat.zero_le _, nofun, h.delivered, ?_, ?_⟩
      · intro _
        show (m.dataSize (slot .receiver i)).value = c.off i - c.off (i - 1)
        rw [hsize]
      · intro _ k hk
        exact absurd hk (Nat.not_lt_zero k)
      · intro k hk _
        exact h.untouched k hk (by rintro (h | h) <;> cases h)
  | copying =>
      unfold receiveTurn at hs
      dsimp only at hs
      split at hs
      next hlt =>
        injection hs with hs
        injection hs with _ hr
        subst hr
        exact h.copy rfl (hready rfl) hlt
      next hge =>
        injection hs with hs
        injection hs with _ hr
        subst hr
        have hle : copied ≤ sizeToReceive := h.copied_le (.inl rfl)
        have hwhole : copied = sizeToReceive := by omega
        exact ⟨hin, h.length, h.bytes, fun _ => h.sized (.inl rfl), fun _ => hle,
          fun _ => hwhole, h.delivered, fun _ => h.partly (.inl rfl),
          fun k hk hpast hkD => h.untouched k hk (fun _ => hpast (.inr rfl)) hkD⟩
  | closing =>
      unfold receiveTurn at hs
      dsimp only at hs
      injection hs with hs
      injection hs with _ hr
      subst hr
      exact h.close rfl (hready rfl)

/-- **The receiver's loop ends with the payload**, where `n_pipeline` is
right. -/
theorem Got.payload (h : Got c r) (hover : r.Over c)
    (hn : c.nPipeline = chunkCount c.bufferSize c.dataSize + 1) : r.receivedData = c.payload := by
  have hin := h.inside
  have hi : r.i = c.nPipeline := by
    have hle := hover.2
    omega
  have hlen := h.length
  have hplen := c.payload_length
  apply List.ext_getElem?
  intro k
  by_cases hk : k < c.dataSize
  · apply h.delivered
    rw [hi, c.off_last hn]
    exact hk
  · rw [List.getElem?_eq_none (by omega), List.getElem?_eq_none (by omega)]

/-- In no step or one nothing arrives. -/
theorem Got.nothing (h : Got c r) (hover : r.Over c) (hn : c.nPipeline ≤ 1) :
    r.receivedData = List.replicate c.dataSize 0 := by
  have hin := h.inside
  have hlen := h.length
  have hzero : c.off (r.i - 1) = 0 := by
    have hi : r.i - 1 = 0 := by omega
    rw [hi, c.off_zero]
  apply List.ext_getElem?
  intro k
  rw [List.getElem?_replicate]
  split
  next hk =>
    apply h.untouched k (by omega) ?_ hk
    rw [hover.1]
    rintro (h | h) <;> cases h
  next hk => exact List.getElem?_eq_none (by omega)

/-- **What the receiver ends with verifies if the payload does**: it is the
payload, or all zeros. -/
theorem Got.verified (h : Got c r) (hover : r.Over c)
    (hbad : verifyDataReceived r.receivedData c.dataSize ≠ some true) :
    verifyDataReceived c.payload c.dataSize ≠ some true := by
  by_cases hwrap : c.dataSize + c.bufferSize - 1 < wordSize ∧
      ¬ (c.dataSize = wordSize - 1 ∧ c.bufferSize = 1)
  · rw [h.payload hover (c.nPipeline_eq hwrap.1 hwrap.2)] at hbad
    exact hbad
  · -- `n_pipeline` wrapped, and zeros verify whatever the payload is
    rw [h.nothing hover (c.nPipeline_wrapped hwrap)] at hbad
    by_cases hsize : checksumSize < c.dataSize
    · exact absurd (verifyDataReceived_zero hsize) hbad
    · rw [(verifyDataReceived_eq_none c.payload c.dataSize).mpr (by omega)]
      nofun

theorem Sent.bytesSent_le (h : Sent c stamp m p) : p.bytesSent ≤ c.dataSize := by
  rw [h.bytes]
  exact c.off_le p.i

theorem Got.bytesReceived_le (h : Got c r) : r.bytesReceived ≤ c.dataSize := by
  rw [h.bytes]
  exact c.off_le (r.i - 1)

/-- The sender's `memcpy` stays inside `data_to_send`. -/
theorem Sent.fits (h : Sent c stamp m p) (hsized : p.pc.Sized) :
    p.bytesSent + p.sizeToSend ≤ c.dataSize := by
  have hle := c.off_le (p.i + 1)
  have hmono := c.off_mono p.i
  rw [h.bytes, h.sized hsized]
  omega

/-- The receiver's `memcpy` stays inside `received_data`. -/
theorem Got.fits (h : Got c r) (hsized : r.pc.Sized) :
    r.bytesReceived + r.sizeToReceive ≤ c.dataSize := by
  have hle := c.off_le r.i
  have hmono := c.off_pred_le r.i
  rw [h.bytes, h.sized hsized]
  omega

/-- **The sender touches its own slot only.** -/
theorem Sent.touched_slot (h : Sent c stamp m p) {x : Cell} (hx : x ∈ p.touched c) :
    p.pc.left = 1 ∧ x.slot c = slot .sender p.i := by
  obtain ⟨pc, i, bytesSent, sizeToSend, copied⟩ := p
  have hfit : c.off (i + 1) - c.off i ≤ c.bufferSize := c.off_sub_le (i + 1)
  cases pc with
  | top => cases hx
  | waiting => cases hx
  | sizing => cases hx
  | copying =>
      have hsized : sizeToSend = c.off (i + 1) - c.off i := h.sized (.inl rfl)
      unfold SendLoop.touched at hx
      dsimp only at hx
      split at hx
      next hlt =>
        cases hx
        exact ⟨rfl, slot_of_byte _ (by omega)⟩
      next => cases hx
  | closing =>
      cases hx
      exact ⟨rfl, rfl⟩

/-- **The receiver touches its own slot only.** -/
theorem Got.touched_slot (h : Got c r) {x : Cell} (hx : x ∈ r.touched c) :
    r.pc.left = 1 ∧ x.slot c = slot .receiver r.i := by
  obtain ⟨pc, i, bytesReceived, sizeToReceive, copied, receivedData⟩ := r
  have hfit := c.off_sub_le i
  cases pc with
  | top => cases hx
  | waiting => cases hx
  | sizing =>
      cases hx
      exact ⟨rfl, rfl⟩
  | copying =>
      have hsized : sizeToReceive = c.off i - c.off (i - 1) := h.sized (.inl rfl)
      unfold ReceiveLoop.touched at hx
      dsimp only at hx
      split at hx
      next hlt =>
        cases hx
        exact ⟨rfl, slot_of_byte _ (by omega)⟩
      next => cases hx
  | closing =>
      unfold ReceiveLoop.touched at hx
      dsimp only at hx
      split at hx
      next =>
        cases hx
        exact ⟨rfl, rfl⟩
      next => cases hx

/-! ## §2. The loops against the barrier. -/

/-- What one step of either loop does to the barrier and to its position. -/
inductive LoopMove (c : Params) (side : Side) (b : Rendezvous Side) :
    LoopPc → Nat → Rendezvous Side → LoopPc → Nat → Prop where
  | arrive {i : Nat} (hlt : i < c.nPipeline) :
      LoopMove c side b .top i (b.arrive side) .waiting i
  | leave {i : Nat} (hcan : b.CanLeave side) :
      LoopMove c side b .waiting i (b.leave side) .sizing i
  | work {pc pc' : LoopPc} {i : Nat} (hleft : pc.left = 1) (hleft' : pc'.left = 1) :
      LoopMove c side b pc i b pc' i
  | next {pc : LoopPc} {i : Nat} (hleft : pc.left = 1) :
      LoopMove c side b pc i b .top (i + 1)

theorem sendTurn_move (hs : sendTurn c stamp b m p = some (b', m', p')) :
    LoopMove c .sender b p.pc p.i b' p'.pc p'.i := by
  obtain ⟨pc, i, bytesSent, sizeToSend, copied⟩ := p
  unfold sendTurn at hs
  cases pc with
  | top =>
      dsimp only at hs
      split at hs
      next hlt =>
        cases hs
        exact .arrive hlt
      next => cases hs
  | waiting =>
      dsimp only at hs
      split at hs
      next hcan =>
        cases hs
        exact .leave hcan
      next => cases hs
  | sizing =>
      cases hs
      exact .work rfl rfl
  | copying =>
      dsimp only at hs
      split at hs
      all_goals
        cases hs
        exact .work rfl rfl
  | closing =>
      cases hs
      exact .next rfl

theorem receiveTurn_move (hs : receiveTurn c b m r = some (b', r')) :
    LoopMove c .receiver b r.pc r.i b' r'.pc r'.i := by
  obtain ⟨pc, i, bytesReceived, sizeToReceive, copied, receivedData⟩ := r
  unfold receiveTurn at hs
  cases pc with
  | top =>
      dsimp only at hs
      split at hs
      next hlt =>
        cases hs
        exact .arrive hlt
      next => cases hs
  | waiting =>
      dsimp only at hs
      split at hs
      next hcan =>
        cases hs
        exact .leave hcan
      next => cases hs
  | sizing =>
      cases hs
      exact .work rfl rfl
  | copying =>
      dsimp only at hs
      split at hs
      all_goals
        cases hs
        exact .work rfl rfl
  | closing =>
      cases hs
      exact .next rfl

/-- The place of a loop that begins after `base` crossings of its round. -/
def loopPlace (round base i : Nat) (pc : LoopPc) : Place :=
  ⟨round, base + i + pc.entered, base + i + pc.left⟩

theorem LoopPc.entered_of_left {pc : LoopPc} (h : pc.left = 1) : pc.entered = 1 := by
  cases pc with
  | top => cases h
  | waiting => rfl
  | sizing => rfl
  | copying => rfl
  | closing => rfl

/-- **One step of a loop keeps the lockstep.** -/
theorem LoopMove.lockstep {side : Side} {pc pc' : LoopPc} {i i' period offset round base : Nat}
    {place place' : Side → Place} (hmove : LoopMove c side b pc i b' pc' i')
    (h : Lockstep period offset b place) (hbase : base + c.nPipeline ≤ period)
    (hplace : place side = loopPlace round base i pc)
    (hplace' : place' side = loopPlace round base i' pc')
    (hother : ∀ q, q ≠ side → place' q = place q) : Lockstep period offset b' place' := by
  cases hmove with
  | arrive hlt =>
      apply h.arrive hother
      · rw [hplace, hplace']
        rfl
      · rw [hplace, hplace']
        rfl
      · rw [hplace, hplace']
        rfl
      · rw [hplace']
        show base + i + 1 ≤ period
        omega
  | leave hcan =>
      apply h.leave hother
      · rw [hplace, hplace']
        rfl
      · rw [hplace, hplace']
        rfl
      · rw [hplace, hplace']
        rfl
      · rw [hplace]
        exact Nat.lt_succ_self (base + i)
      · exact hcan
  | work hleft hleft' =>
      apply h.stay hother
      left
      rw [hplace, hplace']
      unfold loopPlace
      rw [hleft, hleft', LoopPc.entered_of_left hleft, LoopPc.entered_of_left hleft']
  | next hleft =>
      apply h.stay hother
      left
      rw [hplace, hplace']
      unfold loopPlace
      rw [hleft, LoopPc.entered_of_left hleft]
      rfl

/-- **A loop that is not over can move**, unless it waits at a closed
barrier. -/
theorem sendTurn_progress (c : Params) (stamp : Nat) (m : Buffer) (hopen : ¬ p.Over c)
    (hcan : p.pc = .waiting → b.CanLeave .sender) :
    ∃ b' m' p', sendTurn c stamp b m p = some (b', m', p') ∧ p' ≠ p := by
  obtain ⟨pc, i, bytesSent, sizeToSend, copied⟩ := p
  unfold sendTurn
  cases pc with
  | top =>
      have hlt : i < c.nPipeline := by
        by_contra hge
        exact hopen ⟨rfl, Nat.le_of_not_lt hge⟩
      exact ⟨_, _, _, if_pos hlt, nofun⟩
  | waiting => exact ⟨_, _, _, if_pos (hcan rfl), nofun⟩
  | sizing => exact ⟨_, _, _, rfl, nofun⟩
  | copying =>
      by_cases hlt : copied < sizeToSend
      · refine ⟨_, _, _, if_pos hlt, ?_⟩
        intro heq
        exact absurd (congrArg SendLoop.copied heq) (Nat.succ_ne_self copied)
      · exact ⟨_, _, _, if_neg hlt, nofun⟩
  | closing => exact ⟨_, _, _, rfl, nofun⟩

theorem receiveTurn_progress (c : Params) (m : Buffer) (hopen : ¬ r.Over c)
    (hcan : r.pc = .waiting → b.CanLeave .receiver) :
    ∃ b' r', receiveTurn c b m r = some (b', r') ∧ r' ≠ r := by
  obtain ⟨pc, i, bytesReceived, sizeToReceive, copied, receivedData⟩ := r
  unfold receiveTurn
  cases pc with
  | top =>
      have hlt : i < c.nPipeline := by
        by_contra hge
        exact hopen ⟨rfl, Nat.le_of_not_lt hge⟩
      exact ⟨_, _, if_pos hlt, nofun⟩
  | waiting => exact ⟨_, _, if_pos (hcan rfl), nofun⟩
  | sizing => exact ⟨_, _, rfl, nofun⟩
  | copying =>
      by_cases hlt : copied < sizeToReceive
      · refine ⟨_, _, if_pos hlt, ?_⟩
        intro heq
        exact absurd (congrArg ReceiveLoop.copied heq) (Nat.succ_ne_self copied)
      · exact ⟨_, _, if_neg hlt, nofun⟩
  | closing => exact ⟨_, _, rfl, nofun⟩

end Akbench.SharedMemory
