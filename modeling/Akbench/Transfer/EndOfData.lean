/-
  Akbench.Transfer.EndOfData
  ──────────────────────────
  **THE RECEIVE LOOPS WHEN THE DATA ENDS EARLY.**

  One iteration of each receive loop, run over what its calls return.  When a
  call reports the end of the data the loop breaks out and the buffer goes to
  `VerifyDataReceived` as it is.  The pipe, FIFO and queue loops append to a
  buffer that starts empty; `tcp_bandwidth` copies into a buffer of
  `data_size` zeros.

    • `appendLoop_reads`, `copyLoop_reads` — what a loop has after any reads;
    • `appendLoop_turn` — a call is a turn of `Akbench.Common.Stream`;
    • `truncated_left` — the buffer it leaves;
    • `truncated_rejected_iff` — when a truncated frame is rejected.
-/
import Akbench.Common.Detection
import Akbench.Common.Stream
import Mathlib.Data.List.GetD

namespace Akbench

variable {dataSize m : Nat} {frame : List UInt8} {reads : List (List UInt8)}

/-! ## §1. The loops. -/

/-- What one call of `recv`, `read` or `mq_receive` returns. -/
inductive CallResult where
  /-- That many bytes; no bytes is the return value 0. -/
  | bytes (b : List UInt8)
  /-- -1, with `errno` `EAGAIN` or `ETIMEDOUT`. -/
  | again
  /-- -1, with another `errno`. -/
  | failed
  deriving DecidableEq, Repr

/-- How a loop comes out. -/
inductive LoopEnd where
  /-- It was left, with this in `received_data`. -/
  | left (receivedData : List UInt8)
  /-- `AKLOG(FATAL)`. -/
  | fatal
  /-- Still in a call when the results given ran out. -/
  | waiting
  /-- A `memcpy` past the end of `received_data`. -/
  | overrun
  deriving DecidableEq, Repr

/-- The loop that appends to `received_data`. -/
def appendLoop (breaksOnAgain : Bool) (dataSize : Nat) :
    List CallResult → Nat → List UInt8 → LoopEnd
  | [], totalReceived, receivedData =>
      if totalReceived < dataSize then .waiting else .left receivedData
  | call :: calls, totalReceived, receivedData =>
      if totalReceived < dataSize then
        match call with
        | .bytes b =>
            if b.length = 0 then .left receivedData
            else
              appendLoop breaksOnAgain dataSize calls (totalReceived + b.length)
                (receivedData ++ b)
        -- only the queue loop looks at `errno`
        | .again => if breaksOnAgain then .left receivedData else .fatal
        | .failed => .fatal
      else .left receivedData

/-- The `read` loop of `pipe_bandwidth`. -/
def pipeLoop (dataSize : Nat) (calls : List CallResult) : LoopEnd :=
  appendLoop false dataSize calls 0 []

/-- The `read` loop of `fifo_bandwidth`. -/
def fifoLoop (dataSize : Nat) (calls : List CallResult) : LoopEnd :=
  appendLoop false dataSize calls 0 []

/-- The `mq_receive` loop of `mq_bandwidth`. -/
def mqLoop (dataSize : Nat) (calls : List CallResult) : LoopEnd :=
  appendLoop true dataSize calls 0 []

/-- `memcpy(data + at, b, b.size())`. -/
def overwrite (data : List UInt8) (position : Nat) (b : List UInt8) : List UInt8 :=
  data.take position ++ b ++ data.drop (position + b.length)

/-- The loop that copies into `received_data`. -/
def copyLoop (dataSize : Nat) : List CallResult → Nat → List UInt8 → LoopEnd
  | [], totalReceived, receivedData =>
      if totalReceived < dataSize then .waiting else .left receivedData
  | call :: calls, totalReceived, receivedData =>
      if totalReceived < dataSize then
        match call with
        | .bytes b =>
            if b.length = 0 then .left receivedData
            else if totalReceived + b.length ≤ receivedData.length then
              copyLoop dataSize calls (totalReceived + b.length)
                (overwrite receivedData totalReceived b)
            else .overrun
        | .again => .fatal
        | .failed => .fatal
      else .left receivedData

/-- The `recv` loop of `tcp_bandwidth`. -/
def tcpLoop (dataSize : Nat) (calls : List CallResult) : LoopEnd :=
  copyLoop dataSize calls 0 (List.replicate dataSize 0)

/-- The four loops. -/
inductive ReceiveLoop where
  | tcp | pipe | fifo | mq
  deriving DecidableEq, Repr

namespace ReceiveLoop

/-- One iteration of the loop over what its calls return. -/
def run : ReceiveLoop → Nat → List CallResult → LoopEnd
  | tcp => tcpLoop
  | pipe => pipeLoop
  | fifo => fifoLoop
  | mq => mqLoop

/-- The results that report the end of the data to this loop. -/
def EndsData : ReceiveLoop → CallResult → Prop
  | mq, call => call = .bytes [] ∨ call = .again
  | _, call => call = .bytes []

/-- `received_data` when the first `m` bytes have arrived. -/
def leaves (loop : ReceiveLoop) (frame : List UInt8) (m : Nat) : List UInt8 :=
  match loop with
  | tcp => frame.take m ++ List.replicate (frame.length - m) 0
  | _ => frame.take m

end ReceiveLoop

/-! ## §2. Any sequence of reads. -/

/-- **The appending loop over reads that stay below `data_size`.** -/
theorem appendLoop_reads (breaksOnAgain : Bool) (rest : List CallResult) (data : List UInt8)
    (hne : ∀ b, b ∈ reads → b ≠ []) (hshort : data.length + reads.flatten.length < dataSize) :
    appendLoop breaksOnAgain dataSize (reads.map CallResult.bytes ++ rest) data.length data =
      appendLoop breaksOnAgain dataSize rest (data ++ reads.flatten).length
        (data ++ reads.flatten) := by
  -- `total_received` is the length of the buffer before and after every read
  induction reads generalizing data with
  | nil =>
      rw [List.flatten_nil, List.append_nil]
      rfl
  | cons b reads ih =>
      rw [List.flatten_cons, List.length_append] at hshort
      have hb : b.length ≠ 0 := by
        intro hzero
        exact hne b List.mem_cons_self (List.length_eq_zero_iff.mp hzero)
      have htail := ih (data ++ b) (fun d hd => hne d (List.mem_cons_of_mem b hd))
        (by rw [List.length_append]; omega)
      rw [List.length_append] at htail
      show appendLoop breaksOnAgain dataSize
        (CallResult.bytes b :: (reads.map CallResult.bytes ++ rest)) data.length data = _
      rw [appendLoop, if_pos (by omega), if_neg hb, htail, List.flatten_cons, List.append_assoc]

@[simp] theorem overwrite_nil (data : List UInt8) (position : Nat) :
    overwrite data position [] = data := by
  simp [overwrite]

/-- Copying behind what is there replaces zeros. -/
theorem overwrite_zeros (front b : List UInt8) (n : Nat) :
    overwrite (front ++ List.replicate (b.length + n) 0) front.length b =
      (front ++ b) ++ List.replicate n 0 := by
  unfold overwrite
  rw [List.take_left, ← List.drop_drop, List.drop_left, List.drop_replicate,
    Nat.add_sub_cancel_left]

/-- **The copying loop over reads that stay below `data_size`.** -/
theorem copyLoop_reads (rest : List CallResult) (front : List UInt8)
    (hne : ∀ b, b ∈ reads → b ≠ []) (hshort : front.length + reads.flatten.length < dataSize) :
    copyLoop dataSize (reads.map CallResult.bytes ++ rest) front.length
        (front ++ List.replicate (dataSize - front.length) 0) =
      copyLoop dataSize rest (front ++ reads.flatten).length
        ((front ++ reads.flatten) ++
          List.replicate (dataSize - (front ++ reads.flatten).length) 0) := by
  induction reads generalizing front with
  | nil =>
      rw [List.flatten_nil, List.append_nil]
      rfl
  | cons b reads ih =>
      rw [List.flatten_cons, List.length_append] at hshort
      have hb : b.length ≠ 0 := by
        intro hzero
        exact hne b List.mem_cons_self (List.length_eq_zero_iff.mp hzero)
      have htail := ih (front ++ b) (fun d hd => hne d (List.mem_cons_of_mem b hd))
        (by rw [List.length_append]; omega)
      rw [List.length_append] at htail
      -- the read takes `b.length` of the zeros that are left
      have hrest : dataSize - front.length =
          b.length + (dataSize - (front.length + b.length)) := by omega
      have hinside : front.length + b.length ≤
          (front ++ List.replicate (dataSize - front.length) (0 : UInt8)).length := by
        rw [List.length_append, List.length_replicate]
        omega
      show copyLoop dataSize
        (CallResult.bytes b :: (reads.map CallResult.bytes ++ rest)) front.length _ = _
      rw [copyLoop, if_pos (by omega), if_neg hb, if_pos hinside, hrest, overwrite_zeros, htail,
        List.flatten_cons, List.append_assoc]

/-- At the end of the data the appending loop leaves what it has. -/
theorem appendLoop_end {breaksOnAgain : Bool} {call : CallResult} {data : List UInt8} {n : Nat}
    (hn : n < dataSize) (hcall : call = .bytes [] ∨ (call = .again ∧ breaksOnAgain = true)) :
    appendLoop breaksOnAgain dataSize [call] n data = .left data := by
  obtain hzero | ⟨hagain, hbreaks⟩ := hcall
  · rw [hzero, appendLoop, if_pos hn]
    rfl
  · rw [hagain, hbreaks, appendLoop, if_pos hn]
    rfl

theorem copyLoop_end {data : List UInt8} {n : Nat} (hn : n < dataSize) :
    copyLoop dataSize [.bytes []] n data = .left data := by
  rw [copyLoop, if_pos hn]
  rfl

/-- **The appending loop takes the receiver's turns.**  One call of the loop is
one turn of the receiver over a byte stream. -/
theorem appendLoop_turn {c : Transfer} {breaksOnAgain live : Bool} {totalReceived n : Nat}
    {data data' : List UInt8} {stream stream' : Stream} (calls : List CallResult)
    (hturn : c.receiveTurn totalReceived data stream live m = .got stream' n data') :
    appendLoop breaksOnAgain c.dataSize
        (.bytes (Framing.untag (stream.take m)) :: calls) totalReceived data =
      appendLoop breaksOnAgain c.dataSize calls n data' := by
  unfold Transfer.receiveTurn at hturn
  split at hturn
  next hlt =>
    split at hturn
    next => cases hturn
    next =>
      split at hturn
      next hguard =>
        injection hturn with _ hn hdata
        have hlen : (Framing.untag (stream.take m)).length = m := by
          rw [Framing.length_untag, List.length_take]
          omega
        rw [appendLoop, if_pos hlt, hlen, if_neg (by omega), hn, hdata]
      next => cases hturn
  next => cases hturn

/-- An end of file is a call that returns 0. -/
theorem appendLoop_endOfFile {c : Transfer} {breaksOnAgain live : Bool} {totalReceived : Nat}
    {data : List UInt8} {stream : Stream} (calls : List CallResult)
    (hturn : c.receiveTurn totalReceived data stream live m = .endOfFile) :
    appendLoop breaksOnAgain c.dataSize (.bytes [] :: calls) totalReceived data = .left data := by
  have hlen := c.payload_length
  obtain ⟨hlt, _, _⟩ := Transfer.receiveTurn_endOfFile hturn
  rw [appendLoop, if_pos (by omega)]
  rfl

/-! ## §3. What a loop leaves. -/

theorem length_flatten_reads (hm : m < frame.length) (hflat : reads.flatten = frame.take m) :
    reads.flatten.length = m := by
  rw [hflat, List.length_take, Nat.min_eq_left (Nat.le_of_lt hm)]

/-- The appending loops leave the bytes that arrived. -/
theorem appendLoop_truncated {breaksOnAgain : Bool} {last : CallResult} (hm : m < frame.length)
    (hne : ∀ b, b ∈ reads → b ≠ []) (hflat : reads.flatten = frame.take m)
    (hlast : last = .bytes [] ∨ (last = .again ∧ breaksOnAgain = true)) :
    appendLoop breaksOnAgain frame.length (reads.map CallResult.bytes ++ [last]) 0 [] =
      .left (frame.take m) := by
  have hlen := length_flatten_reads hm hflat
  have hrun := appendLoop_reads breaksOnAgain [last] [] hne
    (by rw [hlen, List.length_nil]; omega : _ < frame.length)
  rw [List.nil_append] at hrun
  refine hrun.trans ?_
  rw [appendLoop_end (by omega) hlast, hflat]

/-- `tcp_bandwidth` leaves them followed by zeros. -/
theorem tcpLoop_truncated (hm : m < frame.length) (hne : ∀ b, b ∈ reads → b ≠ [])
    (hflat : reads.flatten = frame.take m) :
    tcpLoop frame.length (reads.map CallResult.bytes ++ [.bytes []]) =
      .left (frame.take m ++ List.replicate (frame.length - m) 0) := by
  have hlen := length_flatten_reads hm hflat
  have hrun := copyLoop_reads [.bytes []] [] hne
    (by rw [hlen, List.length_nil]; omega : _ < frame.length)
  rw [List.nil_append, List.nil_append] at hrun
  refine hrun.trans ?_
  rw [copyLoop_end (by omega), hlen, hflat]

/-- **What each loop leaves of a truncated frame.** -/
theorem truncated_left (loop : ReceiveLoop) {last : CallResult} (hm : m < frame.length)
    (hne : ∀ b, b ∈ reads → b ≠ []) (hflat : reads.flatten = frame.take m)
    (hlast : loop.EndsData last) :
    loop.run frame.length (reads.map CallResult.bytes ++ [last]) = .left (loop.leaves frame m) := by
  match loop with
  | .tcp =>
      have hend : last = .bytes [] := hlast
      subst hend
      exact tcpLoop_truncated hm hne hflat
  | .pipe => exact appendLoop_truncated hm hne hflat (Or.inl hlast)
  | .fifo => exact appendLoop_truncated hm hne hflat (Or.inl hlast)
  | .mq =>
      have hend : last = .bytes [] ∨ last = .again := hlast
      exact appendLoop_truncated hm hne hflat (hend.imp_right fun h => ⟨h, rfl⟩)

/-! ## §4. What is rejected. -/

/-- Byte `i` of a frame if it was cut off, zero if it arrived. -/
def lostByte (frame : List UInt8) (m i : Nat) : UInt8 := if i < m then 0 else byteAt frame i

/-- The bytes cut off are no valid frame on their own. -/
def LossShows (frame : List UInt8) (m : Nat) : Prop :=
  ∃ r, r < checksumSize ∧
    columnXor (lostByte frame m) r (frame.length - checksumSize) ≠
      lostByte frame m (frame.length - checksumSize + r)

/-- The bytes of the buffer `tcp_bandwidth` leaves. -/
theorem byteAt_zero_filled (hm : m < frame.length) (i : Nat) :
    byteAt (frame.take m ++ List.replicate (frame.length - m) 0) i =
      if i < m then byteAt frame i else 0 := by
  have hlen : (frame.take m).length = m := by
    rw [List.length_take, Nat.min_eq_left (Nat.le_of_lt hm)]
  unfold byteAt
  split
  next hi =>
    rw [List.getD_append _ _ _ _ (by omega), List.getD_eq_getElem _ _ (by omega),
      List.getElem_take, List.getD_eq_getElem]
  next hi =>
    rw [List.getD_append_right _ _ _ _ (by omega), getD_replicate_zero]

/-- It differs from the frame by what was lost. -/
theorem difference_zero_filled (hm : m < frame.length) :
    difference frame (frame.take m ++ List.replicate (frame.length - m) 0) = lostByte frame m := by
  funext i
  unfold difference lostByte
  rw [byteAt_zero_filled hm]
  split
  next => exact UInt8.xor_self
  next => exact UInt8.xor_zero

/-- **`tcp_bandwidth` notices the loss exactly when it shows in a column.** -/
theorem zero_filled_rejected_iff (hsize : checksumSize < frame.length)
    (hvalid : verifyDataReceived frame frame.length = some true) (hm : m < frame.length) :
    verifyDataReceived (frame.take m ++ List.replicate (frame.length - m) 0) frame.length =
      some false ↔ LossShows frame m := by
  have hlen : (frame.take m ++ List.replicate (frame.length - m) (0 : UInt8)).length =
      frame.length := by
    rw [List.length_append, List.length_take, List.length_replicate]
    omega
  -- the buffer is the frame changed by `lostByte`
  have haccepted := verify_changed_iff hsize hvalid hlen
  rw [difference_zero_filled hm] at haccepted
  constructor
  · intro hfalse
    by_contra hhidden
    have hall : ∀ r, r < checksumSize →
        columnXor (lostByte frame m) r (frame.length - checksumSize) =
          lostByte frame m (frame.length - checksumSize + r) := by
      intro r hr
      by_contra hne
      exact hhidden ⟨r, hr, hne⟩
    rw [haccepted.mpr hall] at hfalse
    cases hfalse
  · intro hshows
    apply verifyDataReceived_eq_false hsize
    intro htrue
    obtain ⟨r, hr, hne⟩ := hshows
    exact hne (haccepted.mp htrue r hr)

/-- When nothing arrived at all the loss never shows. -/
theorem not_lossShows_zero (hsize : checksumSize < frame.length)
    (hvalid : verifyDataReceived frame frame.length = some true) : ¬ LossShows frame 0 := by
  intro hshows
  have hfalse := (zero_filled_rejected_iff hsize hvalid (by omega)).mpr hshows
  rw [List.take_zero, List.nil_append, Nat.sub_zero, verifyDataReceived_zero hsize] at hfalse
  cases hfalse

/-- **Truncated delivery.**  Each loop leaves a buffer; it is rejected, except
that `tcp_bandwidth` accepts it when the loss shows in no column. -/
theorem truncated_rejected_iff (loop : ReceiveLoop) (frame : List UInt8) (m : Nat)
    (reads : List (List UInt8)) (last : CallResult) (hsize : checksumSize < frame.length)
    (hvalid : verifyDataReceived frame frame.length = some true) (hm : m < frame.length)
    (hne : ∀ b, b ∈ reads → b ≠ []) (hflat : reads.flatten = frame.take m)
    (hlast : loop.EndsData last) :
    ∃ data, loop.run frame.length (reads.map CallResult.bytes ++ [last]) = .left data ∧
      (verifyDataReceived data frame.length = some false ↔
        loop = .tcp → LossShows frame m) := by
  refine ⟨loop.leaves frame m, truncated_left loop hm hne hflat hlast, ?_⟩
  have hshort : verifyDataReceived (frame.take m) frame.length = some false := by
    apply verifyDataReceived_of_length_ne hsize
    rw [List.length_take]
    omega
  match loop with
  | .tcp =>
      -- the zeros make up the length, so it is for the checksum to tell
      rw [ReceiveLoop.leaves, zero_filled_rejected_iff hsize hvalid hm]
      exact ⟨fun hshows _ => hshows, fun hshows => hshows rfl⟩
  | .pipe | .fifo | .mq =>
      -- too short a buffer never verifies
      constructor
      · intro _ htcp
        cases htcp
      · intro _
        exact hshort

/-- One byte of content, cut after it: the queue and `tcp_bandwidth` reject. -/
theorem truncated_rejected_single :
    (∃ data, ReceiveLoop.mq.run 129 [.bytes [7], .again] = .left data ∧
      verifyDataReceived data 129 = some false) ∧
    ∃ data, ReceiveLoop.tcp.run 129 [.bytes [7], .bytes []] = .left data ∧
      verifyDataReceived data 129 = some false := by
  obtain ⟨frame, hframe⟩ : ∃ frame : List UInt8, frame = 7 :: 7 :: List.replicate 127 0 := ⟨_, rfl⟩
  have hlen : frame.length = 129 := by
    rw [hframe, List.length_cons, List.length_cons, List.length_replicate]
  have hvalid : verifyDataReceived frame frame.length = some true := by
    rw [hlen, hframe]
    decide +kernel
  have hflat : [[(7 : UInt8)]].flatten = frame.take 1 := by
    rw [hframe]
    rfl
  have hne : ∀ b, b ∈ [[(7 : UInt8)]] → b ≠ [] := by decide
  have hsize : checksumSize < frame.length := by
    rw [hlen]
    decide
  have hshows : LossShows frame 1 := by
    refine ⟨0, by decide, ?_⟩
    rw [hlen, hframe]
    decide +kernel
  constructor
  · obtain ⟨data, hrun, hiff⟩ := truncated_rejected_iff .mq frame 1 [[7]] .again hsize hvalid
      (by omega) hne hflat (Or.inr rfl)
    rw [hlen] at hrun hiff
    exact ⟨data, hrun, hiff.mpr fun htcp => nomatch htcp⟩
  · obtain ⟨data, hrun, hiff⟩ := truncated_rejected_iff .tcp frame 1 [[7]] (.bytes []) hsize hvalid
      (by omega) hne hflat rfl
    rw [hlen] at hrun hiff
    exact ⟨data, hrun, hiff.mpr fun _ => hshows⟩

/-- A `tcp_bandwidth` receiver whose connection ends before the first byte
verifies the zeros it started from. -/
theorem truncated_accepted :
    verifyDataReceived (7 :: 7 :: List.replicate 127 0) 129 = some true ∧
      ReceiveLoop.tcp.run 129 [.bytes []] = .left (List.replicate 129 0) ∧
      verifyDataReceived (List.replicate 129 0) 129 = some true := by
  refine ⟨by decide +kernel, by decide +kernel, ?_⟩
  exact verifyDataReceived_zero (by decide)

end Akbench
