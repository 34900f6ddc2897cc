/-
  Akbench.Common.Stream
  ─────────────────────
  **THE TWO TRANSFER LOOPS OVER A BYTE STREAM.**

  The stream benchmarks share their loops.  While `total_sent < data_size` the
  sender writes `min(buffer_size, data_size - total_sent)` bytes from
  `data_to_send` and advances by what the call accepted; while
  `total_received < data_size` the receiver asks for `buffer_size` bytes and
  appends what the call returned, or leaves the loop at end of file.

  A call may accept or return any positive number of bytes up to what was
  asked for and what the kernel's buffer allows; it blocks when it can do
  neither.
-/
import Akbench.Lib.Framing
import Akbench.Common.Checksum

namespace Akbench

open Framing (slice untag)

/-- The parameters of one benchmark run over a stream: the arguments of
`SendProcess` and `ReceiveProcess`, the bytes to send, and the size of the
kernel's buffer. -/
structure Transfer where
  /-- `num_warmups + num_iterations`.  With warm-ups that are not negative and
  an iteration at least, `CalculateBandwidth` behind the loops finds what it
  asks for; it is not part of this model. -/
  total : Nat
  dataSize : Nat
  bufferSize : Nat
  /-- `data_to_send`. -/
  payload : List UInt8
  capacity : Nat
  payload_length : payload.length = dataSize
  bufferSize_pos : 0 < bufferSize
  capacity_pos : 0 < capacity

/-- 137 bytes, up to 100 at a time. -/
def Transfer.sample : Transfer :=
  ⟨2, 137, 100, List.replicate 137 0, 160, List.length_replicate, by decide, by decide⟩

/-- Three bytes: fewer than `GenerateDataToSend` takes. -/
def Transfer.small : Transfer :=
  { Transfer.sample with dataSize := 3, payload := [1, 2, 3], payload_length := rfl }

/-- The bytes in flight; the tag is the iteration of the `write` that put the
byte there, and no call reads it. -/
abbrev Stream := List (Nat × UInt8)

/-- Taking from one stream puts nothing into another. -/
theorem update_drop_eq_nil {stream : Nat → Stream} {i : Nat} (h : stream i = []) (j n : Nat) :
    Function.update stream j ((stream j).drop n) i = [] := by
  by_cases hij : i = j
  · subst hij
    rw [Function.update_self, h]
    exact List.drop_nil
  · rw [Function.update_of_ne hij]
    exact h

/-! ## §1. The sender's loop. -/

/-- What one turn of the sender's loop comes to. -/
inductive SendTurn where
  /-- `total_sent < data_size` is false. -/
  | finished
  /-- A `write` that accepted something. -/
  | wrote (stream : Stream) (totalSent : Nat)
  /-- A `write` with no read end open. -/
  | noReader
  | blocked

namespace Transfer

/-- One turn of the sender's loop, with a `write` accepting `m` bytes. -/
def sendTurn (c : Transfer) (iteration totalSent : Nat) (stream : Stream) (hasReader : Bool)
    (m : Nat) : SendTurn :=
  if totalSent < c.dataSize then
    if hasReader then
      if 1 ≤ m ∧ m ≤ min c.bufferSize (c.dataSize - totalSent) ∧
          stream.length + m ≤ c.capacity then
        .wrote (stream ++ slice c.payload iteration totalSent m) (totalSent + m)
      else .blocked
    else .noReader
  else .finished

variable {c : Transfer} {iteration totalSent totalReceived m n : Nat}
variable {stream stream' : Stream} {data data' : List UInt8} {live : Bool}

theorem sendTurn_finished (h : c.sendTurn iteration totalSent stream live m = .finished) :
    c.payload.length ≤ totalSent := by
  unfold sendTurn at h
  have hlen := c.payload_length
  split at h
  next =>
    split at h
    next => split at h <;> cases h
    next => cases h
  next hge => omega

theorem sendTurn_wrote (h : c.sendTurn iteration totalSent stream live m = .wrote stream' n) :
    totalSent + m ≤ c.payload.length ∧ n = totalSent + m ∧
      stream' = stream ++ slice c.payload iteration totalSent m := by
  unfold sendTurn at h
  have hlen := c.payload_length
  split at h
  next hlt =>
    split at h
    next =>
      split at h
      next hguard =>
        injection h with hstream hn
        have hmin := Nat.min_le_right c.bufferSize (c.dataSize - totalSent)
        exact ⟨by omega, hn.symm, hstream.symm⟩
      next => cases h
    next => cases h
  next => cases h

/-- A `write` that accepted something brings the loop nearer to its end. -/
theorem sendTurn_advances (h : c.sendTurn iteration totalSent stream live m = .wrote stream' n) :
    totalSent < n ∧ n ≤ c.payload.length := by
  obtain ⟨hle, hn, _⟩ := sendTurn_wrote h
  refine ⟨?_, by omega⟩
  unfold sendTurn at h
  split at h
  next =>
    split at h
    next =>
      split at h
      next hguard => omega
      next => cases h
    next => cases h
  next => cases h

theorem sendTurn_noReader (h : c.sendTurn iteration totalSent stream live m = .noReader) :
    totalSent < c.payload.length ∧ live = false := by
  unfold sendTurn at h
  have hlen := c.payload_length
  split at h
  next hlt =>
    split at h
    next => split at h <;> cases h
    next hlive => exact ⟨by omega, Bool.eq_false_iff.mpr hlive⟩
  next => cases h

/-- Into an empty stream the loop can always write a byte, or it is over. -/
theorem sendTurn_empty (hlt : totalSent < c.payload.length) :
    c.sendTurn iteration totalSent [] true 1 =
      .wrote (slice c.payload iteration totalSent 1) (totalSent + 1) := by
  unfold sendTurn
  have hlen := c.payload_length
  have hb := c.bufferSize_pos
  have hc := c.capacity_pos
  rw [if_pos (by omega), if_pos rfl, if_pos ⟨Nat.le_refl 1, by omega, hc⟩]
  rfl

theorem sendTurn_over (hge : c.payload.length ≤ totalSent) :
    c.sendTurn iteration totalSent stream live m = .finished := by
  unfold sendTurn
  have hlen := c.payload_length
  exact if_neg (by omega)

end Transfer

/-! ## §2. The receiver's loop. -/

/-- What one turn of the receiver's loop comes to. -/
inductive ReceiveTurn where
  /-- `total_received < data_size` is false. -/
  | finished
  /-- A `read` that returned 0: `break`. -/
  | endOfFile
  /-- A `read` that returned something. -/
  | got (stream : Stream) (totalReceived : Nat) (receivedData : List UInt8)
  | blocked

namespace Transfer

/-- One turn of the receiver's loop, with a `read` returning `m` bytes; end of
file is an empty stream with no write end open. -/
def receiveTurn (c : Transfer) (totalReceived : Nat) (receivedData : List UInt8)
    (stream : Stream) (hasWriter : Bool) (m : Nat) : ReceiveTurn :=
  if totalReceived < c.dataSize then
    if stream = [] ∧ hasWriter = false then .endOfFile
    else if 1 ≤ m ∧ m ≤ c.bufferSize ∧ m ≤ stream.length then
      .got (stream.drop m) (totalReceived + m) (receivedData ++ untag (stream.take m))
    else .blocked
  else .finished

variable {c : Transfer} {totalReceived m n : Nat}
variable {stream stream' : Stream} {data data' : List UInt8} {live : Bool}

theorem receiveTurn_finished (h : c.receiveTurn totalReceived data stream live m = .finished) :
    c.payload.length ≤ totalReceived := by
  unfold receiveTurn at h
  have hlen := c.payload_length
  split at h
  next =>
    split at h
    next => cases h
    next => split at h <;> cases h
  next hge => omega

theorem receiveTurn_got
    (h : c.receiveTurn totalReceived data stream live m = .got stream' n data') :
    m ≤ stream.length ∧ n = totalReceived + m ∧
      data' = data ++ untag (stream.take m) ∧ stream' = stream.drop m := by
  unfold receiveTurn at h
  split at h
  next =>
    split at h
    next => cases h
    next =>
      split at h
      next hguard =>
        injection h with hstream hn hdata
        exact ⟨hguard.2.2, hn.symm, hdata.symm, hstream.symm⟩
      next => cases h
  next => cases h

/-- So does a `read` that returned something. -/
theorem receiveTurn_advances
    (h : c.receiveTurn totalReceived data stream live m = .got stream' n data') :
    totalReceived < c.payload.length ∧ totalReceived < n := by
  obtain ⟨_, hn, _⟩ := receiveTurn_got h
  unfold receiveTurn at h
  have hlen := c.payload_length
  split at h
  next hlt =>
    split at h
    next => cases h
    next =>
      split at h
      next hguard => exact ⟨by omega, by omega⟩
      next => cases h
  next => cases h

theorem receiveTurn_endOfFile
    (h : c.receiveTurn totalReceived data stream live m = .endOfFile) :
    totalReceived < c.payload.length ∧ stream = [] ∧ live = false := by
  unfold receiveTurn at h
  have hlen := c.payload_length
  split at h
  next hlt =>
    split at h
    next hend => exact ⟨by omega, hend.1, hend.2⟩
    next => split at h <;> cases h
  next => cases h

/-- From a stream that holds something the loop can always read a byte, or it
is over. -/
theorem receiveTurn_nonempty (hlt : totalReceived < c.payload.length) (hne : stream ≠ []) :
    c.receiveTurn totalReceived data stream live 1 =
      .got (stream.drop 1) (totalReceived + 1) (data ++ untag (stream.take 1)) := by
  unfold receiveTurn
  have hlen := c.payload_length
  have hb := c.bufferSize_pos
  have hs := List.length_pos_of_ne_nil hne
  rw [if_pos (by omega), if_neg (fun hend => hne hend.1), if_pos ⟨Nat.le_refl 1, hb, hs⟩]

theorem receiveTurn_over (hge : c.payload.length ≤ totalReceived) :
    c.receiveTurn totalReceived data stream live m = .finished := by
  unfold receiveTurn
  have hlen := c.payload_length
  exact if_neg (by omega)

end Transfer

/-! ## §3. A buffer filled from the front. -/

/-- What `n` more bytes make of a buffer that has the first `taken`. -/
theorem buffer_received {old frame bytes : List UInt8} {taken n : Nat}
    (hold : old.take taken = frame.take taken) (hlen : old.length = frame.length)
    (hle : taken + n ≤ frame.length) (hbytes : bytes = (frame.drop taken).take n) :
    (old.take taken ++ bytes ++ old.drop (taken + n)).length = frame.length ∧
      (old.take taken ++ bytes ++ old.drop (taken + n)).take (taken + n) =
        frame.take (taken + n) := by
  have hfront : old.take taken ++ bytes = frame.take (taken + n) := by
    rw [hold, hbytes, ← List.take_add]
  have hplen : (frame.take (taken + n)).length = taken + n := by
    rw [List.length_take]
    omega
  rw [hfront]
  constructor
  · rw [List.length_append, List.length_drop, hplen]
    omega
  · rw [List.take_left' hplen]

end Akbench
