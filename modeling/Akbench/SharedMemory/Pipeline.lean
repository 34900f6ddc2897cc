/-
  Akbench.SharedMemory.Pipeline
  ─────────────────────────────
  **THE TWO PIPELINE LOOPS OVER A DOUBLE BUFFER.**

  `shm_bandwidth` and `mmap_bandwidth` run the same pair of loops.  In step
  `i` the sender fills slot `i % 2` and the receiver empties slot
  `(i + 1) % 2`, each step opened by a barrier crossing.  The copies go byte
  by byte, in program order, one byte a step.

  `Params.off i` is the position in the payload at which chunk `i` begins:

    • `off_sub_le`, `sizeToSend_eq` — a chunk fits a slot and is what the
      sender computes;
    • `nPipeline_eq`, `off_last` — `n_pipeline` is the number of chunks plus
      one, so the last receiving step ends the payload.
-/
import Akbench.Lib.Lockstep
import Akbench.Lib.Chunks
import Akbench.Lib.Word

namespace Akbench.SharedMemory

/-! ## §1. The buffer. -/

/-- The two programs. -/
inductive Program where
  | shm
  | mmap
  deriving DecidableEq, Repr

instance : Fintype Program where
  elems := {.shm, .mmap}
  complete program := by cases program <;> decide

/-- The arguments of `SendProcess` and `ReceiveProcess`, and the bytes to
send. -/
structure Params where
  program : Program
  dataSize : Nat
  bufferSize : Nat
  /-- `data_to_send`. -/
  payload : List UInt8
  payload_length : payload.length = dataSize
  dataSize_pos : 0 < dataSize
  bufferSize_pos : 0 < bufferSize
  dataSize_lt : dataSize < wordSize
  bufferSize_lt : bufferSize < wordSize

/-- `n_pipeline`. -/
def Params.nPipeline (c : Params) : Nat :=
  add64 (sub64 (add64 c.dataSize c.bufferSize) 1 / c.bufferSize) 1

/-- A value in shared memory; the stamp is the iteration of the write, and no
code reads it. -/
structure Stamped (α : Type) where
  value : α
  stamp : Nat
  deriving DecidableEq, Repr

/-- `SharedBuffer` and `MmapBuffer`. -/
structure Buffer where
  dataSize : Nat → Stamped Nat
  data : Nat → Stamped UInt8

namespace Buffer

/-- `memset(shared_buffer, 0, ..)`. -/
def zero (stamp : Nat) : Buffer := ⟨fun _ => ⟨0, stamp⟩, fun _ => ⟨0, stamp⟩⟩

/-- `data_size[slot] = size`. -/
def setSize (m : Buffer) (stamp slot size : Nat) : Buffer :=
  { m with dataSize := Function.update m.dataSize slot ⟨size, stamp⟩ }

/-- `data[position] = byte`. -/
def setByte (m : Buffer) (stamp position : Nat) (byte : UInt8) : Buffer :=
  { m with data := Function.update m.data position ⟨byte, stamp⟩ }

variable (m : Buffer) (stamp slot size position : Nat) (byte : UInt8)

@[simp] theorem setSize_data : (m.setSize stamp slot size).data = m.data := rfl

@[simp] theorem setByte_dataSize : (m.setByte stamp position byte).dataSize = m.dataSize := rfl

@[simp] theorem setSize_self : (m.setSize stamp slot size).dataSize slot = ⟨size, stamp⟩ := by
  unfold setSize
  simp

@[simp] theorem setByte_self :
    (m.setByte stamp position byte).data position = ⟨byte, stamp⟩ := by
  unfold setByte
  simp

theorem setSize_of_ne {slot slot' : Nat} (h : slot' ≠ slot) :
    (m.setSize stamp slot size).dataSize slot' = m.dataSize slot' := by
  unfold setSize
  simp [h]

theorem setByte_of_ne {position position' : Nat} (h : position' ≠ position) :
    (m.setByte stamp position byte).data position' = m.data position' := by
  unfold setByte
  simp [h]

end Buffer

/-! ## §2. The two loops. -/

/-- Where a pipeline loop is. -/
inductive LoopPc where
  /-- Before `i < n_pipeline`. -/
  | top
  /-- Inside `barrier.Wait()`. -/
  | waiting
  /-- Before the size of the copy is known. -/
  | sizing
  /-- In `memcpy`. -/
  | copying
  /-- After `memcpy`. -/
  | closing
  deriving DecidableEq, Repr

/-- Barrier crossings of this step entered. -/
def LoopPc.entered : LoopPc → Nat
  | .top => 0
  | .waiting | .sizing | .copying | .closing => 1

/-- Barrier crossings of this step left: 1 between two barriers of the loop. -/
def LoopPc.left : LoopPc → Nat
  | .top | .waiting => 0
  | .sizing | .copying | .closing => 1

/-- The size of the copy is fixed. -/
def LoopPc.Sized (pc : LoopPc) : Prop := pc = .copying ∨ pc = .closing

/-- `PIPELINE_INDEX`. -/
def pipelineIndex : Side → Nat
  | .sender => 0
  | .receiver => 1

/-- `(i + PIPELINE_INDEX) % 2`. -/
def slot (side : Side) (i : Nat) : Nat := (i + pipelineIndex side) % 2

/-- The sender's locals; `copied` is how far `memcpy` is. -/
structure SendLoop where
  pc : LoopPc
  i : Nat
  bytesSent : Nat
  sizeToSend : Nat
  copied : Nat
  deriving DecidableEq, Repr

/-- The receiver's locals; `copied` is how far `memcpy` is. -/
structure ReceiveLoop where
  pc : LoopPc
  i : Nat
  bytesReceived : Nat
  sizeToReceive : Nat
  copied : Nat
  receivedData : List UInt8
  deriving DecidableEq, Repr

/-- The sender before its loop. -/
def SendLoop.fresh : SendLoop := ⟨.top, 0, 0, 0, 0⟩

/-- The receiver before its loop: `received_data(data_size, 0)`. -/
def ReceiveLoop.fresh (c : Params) : ReceiveLoop :=
  ⟨.top, 0, 0, 0, 0, List.replicate c.dataSize 0⟩

/-- The loop is over. -/
def SendLoop.Over (c : Params) (p : SendLoop) : Prop := p.pc = .top ∧ c.nPipeline ≤ p.i

/-- The loop is over. -/
def ReceiveLoop.Over (c : Params) (r : ReceiveLoop) : Prop := r.pc = .top ∧ c.nPipeline ≤ r.i

instance (c : Params) (p : SendLoop) : Decidable (p.Over c) :=
  inferInstanceAs (Decidable (_ ∧ _))

instance (c : Params) (r : ReceiveLoop) : Decidable (r.Over c) :=
  inferInstanceAs (Decidable (_ ∧ _))

/-- One step of the sender's loop in the iteration `stamp`; `none` where it is
blocked or over. -/
def sendTurn (c : Params) (stamp : Nat) (b : Rendezvous Side) (m : Buffer) (p : SendLoop) :
    Option (Rendezvous Side × Buffer × SendLoop) :=
  match p.pc with
  | .top =>
      if p.i < c.nPipeline then some (b.arrive .sender, m, { p with pc := .waiting })
      else none
  | .waiting =>
      if b.CanLeave .sender then some (b.leave .sender, m, { p with pc := .sizing })
      else none
  | .sizing =>
      some (b, m, { p with
        pc := .copying
        sizeToSend := min (sub64 c.dataSize p.bytesSent) c.bufferSize
        copied := 0 })
  | .copying =>
      if p.copied < p.sizeToSend then
        some (b,
          m.setByte stamp (slot .sender p.i * c.bufferSize + p.copied)
            (c.payload.getD (p.bytesSent + p.copied) 0),
          { p with copied := p.copied + 1 })
      else some (b, m, { p with pc := .closing })
  | .closing =>
      some (b, m.setSize stamp (slot .sender p.i) p.sizeToSend, { p with
        pc := .top
        i := p.i + 1
        bytesSent := add64 p.bytesSent p.sizeToSend })

/-- What `bytes_received` grows by: `mmap_bandwidth` keeps the size it copied,
`shm_bandwidth` reads `data_size[]` a second time. -/
def sizeToAdd (c : Params) (m : Buffer) (r : ReceiveLoop) : Nat :=
  match c.program with
  | .shm => (m.dataSize (slot .receiver r.i)).value
  | .mmap => r.sizeToReceive

/-- One step of the receiver's loop; `none` where it is blocked or over. -/
def receiveTurn (c : Params) (b : Rendezvous Side) (m : Buffer) (r : ReceiveLoop) :
    Option (Rendezvous Side × ReceiveLoop) :=
  match r.pc with
  | .top =>
      if r.i < c.nPipeline then some (b.arrive .receiver, { r with pc := .waiting })
      else none
  | .waiting =>
      if b.CanLeave .receiver then some (b.leave .receiver, { r with pc := .sizing })
      else none
  | .sizing =>
      some (b, { r with
        pc := .copying
        sizeToReceive := (m.dataSize (slot .receiver r.i)).value
        copied := 0 })
  | .copying =>
      if r.copied < r.sizeToReceive then
        some (b, { r with
          receivedData := r.receivedData.set (r.bytesReceived + r.copied)
            (m.data (slot .receiver r.i * c.bufferSize + r.copied)).value
          copied := r.copied + 1 })
      else some (b, { r with pc := .closing })
  | .closing =>
      some (b, { r with
        pc := .top
        i := r.i + 1
        bytesReceived := add64 r.bytesReceived (sizeToAdd c m r) })

/-! ## §3. What a step touches. -/

/-- A cell of the buffer. -/
inductive Cell where
  /-- An entry of `data_size[]`. -/
  | size (slot : Nat)
  /-- A byte of `data[]`. -/
  | byte (position : Nat)
  deriving DecidableEq, Repr

/-- The slot a cell belongs to: its `data_size[]` entry, or the area of
`buffer_size` bytes around it. -/
def Cell.slot (c : Params) : Cell → Nat
  | .size slot => slot
  | .byte position => position / c.bufferSize

/-- The cell the sender's next step writes. -/
def SendLoop.touched (c : Params) (p : SendLoop) : Option Cell :=
  match p.pc with
  | .top | .waiting | .sizing => none
  | .copying =>
      if p.copied < p.sizeToSend then
        some (.byte (SharedMemory.slot .sender p.i * c.bufferSize + p.copied))
      else none
  | .closing => some (.size (SharedMemory.slot .sender p.i))

/-- The cell the receiver's next step reads. -/
def ReceiveLoop.touched (c : Params) (r : ReceiveLoop) : Option Cell :=
  match r.pc with
  | .top | .waiting => none
  | .sizing => some (.size (SharedMemory.slot .receiver r.i))
  | .copying =>
      if r.copied < r.sizeToReceive then
        some (.byte (SharedMemory.slot .receiver r.i * c.bufferSize + r.copied))
      else none
  | .closing =>
      match c.program with
      | .shm => some (.size (SharedMemory.slot .receiver r.i))
      | .mmap => none

/-! ## §4. Positions in the payload. -/

namespace Params

variable (c : Params)

/-- Where chunk `i` begins, and chunk `i - 1` ends. -/
def off (i : Nat) : Nat := min (i * c.bufferSize) c.dataSize

theorem off_zero : c.off 0 = 0 := by
  unfold off
  omega

theorem off_le (i : Nat) : c.off i ≤ c.dataSize :=
  Nat.min_le_right _ _

theorem off_mono (i : Nat) : c.off i ≤ c.off (i + 1) := by
  unfold off
  rw [Nat.succ_mul]
  omega

theorem off_pred_le (i : Nat) : c.off (i - 1) ≤ c.off i := by
  cases i with
  | zero => exact Nat.le_refl _
  | succ i => exact c.off_mono i

/-- A chunk fits a slot. -/
theorem off_sub_le (i : Nat) : c.off i - c.off (i - 1) ≤ c.bufferSize := by
  cases i with
  | zero =>
      show c.off 0 - c.off 0 ≤ c.bufferSize
      omega
  | succ i =>
      show c.off (i + 1) - c.off i ≤ c.bufferSize
      unfold off
      rw [Nat.succ_mul]
      omega

/-- `min(data_size - bytes_sent, buffer_size)` is the size of the next
chunk. -/
theorem sizeToSend_eq (i : Nat) :
    min (sub64 c.dataSize (c.off i)) c.bufferSize = c.off (i + 1) - c.off i := by
  rw [sub64_eq (c.off_le i)]
  unfold off
  rw [Nat.succ_mul]
  omega

/-- Adding the size of a chunk does not wrap. -/
theorem add64_off (i : Nat) : add64 (c.off i) (c.off (i + 1) - c.off i) = c.off (i + 1) := by
  have hmono := c.off_mono i
  have hle := c.off_le (i + 1)
  have hlt := c.dataSize_lt
  rw [add64_eq (by omega)]
  omega

theorem add64_off_pred (i : Nat) : add64 (c.off (i - 1)) (c.off i - c.off (i - 1)) = c.off i := by
  have hmono := c.off_pred_le i
  have hle := c.off_le i
  have hlt := c.dataSize_lt
  rw [add64_eq (by omega)]
  omega

/-- **`n_pipeline` is one more than the number of chunks**, unless one of its
additions wraps. -/
theorem nPipeline_eq (hsum : c.dataSize + c.bufferSize - 1 < wordSize)
    (hwrap : ¬ (c.dataSize = wordSize - 1 ∧ c.bufferSize = 1)) :
    c.nPipeline = chunkCount c.bufferSize c.dataSize + 1 := by
  have hD := c.dataSize_pos
  have hB := c.bufferSize_pos
  have hDlt := c.dataSize_lt
  have hsub : sub64 (add64 c.dataSize c.bufferSize) 1 = c.dataSize + c.bufferSize - 1 := by
    by_cases hlt : c.dataSize + c.bufferSize < wordSize
    · rw [add64_eq hlt, sub64_eq (by omega)]
    · -- the sum wraps to 0 and subtracting 1 brings it back
      have hsum0 : c.dataSize + c.bufferSize = wordSize := by omega
      have hadd : add64 c.dataSize c.bufferSize = 0 := by
        unfold add64
        rw [hsum0]
        exact Nat.mod_self wordSize
      unfold sub64
      rw [hadd, if_neg (by omega), hsum0]
      omega
  have hquot : (c.dataSize + c.bufferSize - 1) / c.bufferSize + 1 < wordSize := by
    by_cases hone : c.bufferSize = 1
    · rw [hone, Nat.div_one]
      omega
    · have hhalf : (c.dataSize + c.bufferSize - 1) / c.bufferSize ≤
          (c.dataSize + c.bufferSize - 1) / 2 := Nat.div_le_div_left (by omega) (by omega)
      omega
  unfold nPipeline chunkCount
  rw [hsub, add64_eq hquot]

/-- Where one of its additions wraps, `n_pipeline` is 0 or 1. -/
theorem nPipeline_wrapped (hwrap : ¬ (c.dataSize + c.bufferSize - 1 < wordSize ∧
    ¬ (c.dataSize = wordSize - 1 ∧ c.bufferSize = 1))) : c.nPipeline ≤ 1 := by
  have hD := c.dataSize_lt
  have hB := c.bufferSize_lt
  have hB' := c.bufferSize_pos
  have hmod : ∀ a, a ≤ 1 → add64 0 a = a := by
    intro a ha
    unfold add64
    rw [Nat.zero_add]
    apply Nat.mod_eq_of_lt
    unfold wordSize
    omega
  unfold nPipeline
  by_cases hsum : c.dataSize + c.bufferSize - 1 < wordSize
  · have hpair : c.dataSize = wordSize - 1 ∧ c.bufferSize = 1 := by
      by_contra hnot
      exact hwrap ⟨hsum, hnot⟩
    rw [hpair.1, hpair.2]
    decide
  · -- what is left of the sum is less than `buffer_size`
    have hadd : add64 c.dataSize c.bufferSize = c.dataSize + c.bufferSize - wordSize := by
      unfold add64
      rw [Nat.mod_eq_sub_mod (by omega)]
      exact Nat.mod_eq_of_lt (by omega)
    rw [hadd, sub64_eq (by omega), Nat.div_eq_of_lt (by omega), hmod 1 (Nat.le_refl 1)]

/-- Where `n_pipeline` is right, its last step but one ends the payload. -/
theorem off_last (hn : c.nPipeline = chunkCount c.bufferSize c.dataSize + 1) :
    c.off (c.nPipeline - 1) = c.dataSize := by
  have hall : c.dataSize ≤ chunkCount c.bufferSize c.dataSize * c.bufferSize :=
    (chunkCount_le c.bufferSize_pos).mp (Nat.le_refl _)
  rw [hn]
  show c.off (chunkCount c.bufferSize c.dataSize) = c.dataSize
  unfold off
  exact Nat.min_eq_right hall

end Params

end Akbench.SharedMemory
