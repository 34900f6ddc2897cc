/-
  Akbench.Common.Generate
  ───────────────────────
  **`GenerateDataToSend`.**

  The content is filled by two loops that share their index: words of eight
  bytes while `i + 8 < context_size`, single bytes from there on.  The last
  `CHECKSUM_SIZE` bytes are then overwritten with the checksum.

  A store outside the vector is undefined behaviour and comes out as `none`,
  so that a result means every store was inside.  The random engine is the
  sequence of its draws.

    • `Filled` — what the fill loops keep;
    • `generateContent_filled` — both loops end, with every content byte
      assigned once;
    • `generate_verified` — the frame that is built, and that it verifies.
-/
import Akbench.Common.Detection
import Akbench.Lib.Word
import Mathlib.Data.List.GetD

namespace Akbench

variable {draws : Nat → UInt64} {dataSize contextSize i k : Nat}

/-! ## §1. The code. -/

/-- `data[i] = b`. -/
def writeByte (data : List UInt8) (i : Nat) (b : UInt8) : Option (List UInt8) :=
  if i < data.length then some (data.set i b) else none

/-- Byte `k` of a word as it lies in memory, least significant first. -/
def wordByte (w : UInt64) (k : Nat) : UInt8 := (w >>> UInt64.ofNat (8 * k)).toUInt8

/-- One byte assigned from a draw. -/
structure Assignment where
  position : Nat
  draw : Nat
  byte : Nat
  deriving DecidableEq, Repr

/-- The state of the fill loops.  `assigned` records the stores in their order
and is read by no step. -/
structure Fill where
  data : List UInt8
  /-- How often `dist(engine)` was called. -/
  drawn : Nat
  assigned : List Assignment

namespace Fill

/-- Byte `k` of the current draw, stored at `position`. -/
def assign (position k : Nat) (value : UInt8) (s : Fill) : Option Fill :=
  (writeByte s.data position value).map fun data =>
    { s with data := data, assigned := s.assigned ++ [⟨position, s.drawn, k⟩] }

/-- `*d = dist(engine)` with `d` at `&data[i]`. -/
def assignWord (draws : Nat → UInt64) (i : Nat) (s : Fill) : Option Fill :=
  ((List.range 8).foldlM (fun (s : Fill) k => s.assign (i + k) k (wordByte (draws s.drawn) k)) s).map
    fun s => { s with drawn := s.drawn + 1 }

/-- `data[i] = static_cast<uint8_t>(dist(engine) & 0xFF)`. -/
def assignByte (draws : Nat → UInt64) (i : Nat) (s : Fill) : Option Fill :=
  (s.assign i 0 (draws s.drawn &&& 0xFF).toUInt8).map fun s => { s with drawn := s.drawn + 1 }

end Fill

/-- The first loop, given a number of turns; it returns the index too. -/
def wordLoop (draws : Nat → UInt64) (contextSize : Nat) : Nat → Nat → Fill → Option (Nat × Fill)
  | 0, _, _ => none
  | turns + 1, i, s =>
      -- the word that would end the content exactly is left to the second loop
      if add64 i 8 < contextSize then
        (s.assignWord draws i).bind (wordLoop draws contextSize turns (add64 i 8))
      else some (i, s)

/-- The second loop. -/
def byteLoop (draws : Nat → UInt64) (contextSize : Nat) : Nat → Nat → Fill → Option Fill
  | 0, _, _ => none
  | turns + 1, i, s =>
      if i < contextSize then
        (s.assignByte draws i).bind (byteLoop draws contextSize turns (add64 i 1))
      else some s

/-- Both loops over a vector of zeros, with more turns than they take. -/
def generateContent (draws : Nat → UInt64) (dataSize : Nat) : Option Fill :=
  let contextSize := dataSize - checksumSize
  (wordLoop draws contextSize (contextSize + 1) 0 ⟨List.replicate dataSize 0, 0, []⟩).bind
    fun (i, s) => byteLoop draws contextSize (contextSize + 1) i s

/-- `GenerateDataToSend`. -/
def generateDataToSend (draws : Nat → UInt64) (dataSize : Nat) : Option (List UInt8) :=
  if checksumSize < dataSize then
    let contextSize := dataSize - checksumSize
    (generateContent draws dataSize).bind fun s =>
      (calcChecksum s.data dataSize).bind fun checksum =>
        -- `data[context_size + j] = checksum[j]`
        (List.range checksumSize).foldlM
          (fun data j => writeByte data (contextSize + j) (checksum.getD j 0)) s.data
  else none

/-! ## §2. What one store does. -/

/-- The tail loop takes the lowest byte of its draw. -/
theorem toUInt8_low (w : UInt64) : (w &&& 0xFF).toUInt8 = wordByte w 0 := by
  have hzero : wordByte w 0 = w.toUInt8 := by
    show (w >>> 0).toUInt8 = w.toUInt8
    rw [UInt64.shiftRight_zero]
  have hmask : (0xFF : UInt64).toUInt8 = -1 := by decide
  rw [hzero, UInt64.toUInt8_and, hmask, UInt8.and_neg_one]

/-- A store at the end of what is written already. -/
theorem writeByte_next (front : List UInt8) (n : Nat) (b : UInt8) :
    writeByte (front ++ List.replicate (n + 1) 0) front.length b =
      some ((front ++ [b]) ++ List.replicate n 0) := by
  unfold writeByte
  rw [List.length_append, List.length_replicate, if_pos (by omega), List.replicate_succ,
    List.set_append_right _ _ (Nat.le_refl _), Nat.sub_self, List.set_cons_zero,
    List.append_assoc]
  rfl

/-- The byte an assignment puts down. -/
def Assignment.value (draws : Nat → UInt64) (a : Assignment) : UInt8 :=
  wordByte (draws a.draw) a.byte

/-- **What the fill loops keep**: the first `i` bytes are assigned, one after
the other, and the rest of the vector is as it was made. -/
structure Filled (draws : Nat → UInt64) (dataSize i : Nat) (s : Fill) : Prop where
  positions : s.assigned.map Assignment.position = List.range i
  data : s.data = s.assigned.map (Assignment.value draws) ++ List.replicate (dataSize - i) 0

namespace Filled

variable {s : Fill}

theorem length_assigned (h : Filled draws dataSize i s) : s.assigned.length = i := by
  have hlen := congrArg List.length h.positions
  rwa [List.length_map, List.length_range] at hlen

/-- The vector before the first turn. -/
theorem start : Filled draws dataSize 0 ⟨List.replicate dataSize 0, 0, []⟩ where
  positions := rfl
  data := rfl

/-- The draws are counted apart from the stores. -/
theorem next_draw (h : Filled draws dataSize i s) :
    Filled draws dataSize i { s with drawn := s.drawn + 1 } where
  positions := h.positions
  data := h.data

/-- **Store lemma.** -/
theorem assign (h : Filled draws dataSize i s) (hi : i < dataSize) {value : UInt8}
    (hvalue : value = wordByte (draws s.drawn) k) :
    ∃ s', s.assign i k value = some s' ∧ Filled draws dataSize (i + 1) s' ∧
      s'.drawn = s.drawn := by
  have hfront : (s.assigned.map (Assignment.value draws)).length = i := by
    rw [List.length_map, h.length_assigned]
  have hrest : dataSize - i = (dataSize - (i + 1)) + 1 := by omega
  obtain ⟨data, hdata, hwrite⟩ : ∃ data,
      data = (s.assigned.map (Assignment.value draws) ++ [value]) ++
        List.replicate (dataSize - (i + 1)) 0 ∧ writeByte s.data i value = some data := by
    refine ⟨_, rfl, ?_⟩
    rw [h.data, hrest, ← writeByte_next, hfront]
  refine ⟨⟨data, s.drawn, s.assigned ++ [⟨i, s.drawn, k⟩]⟩, ?_, ⟨?_, ?_⟩, rfl⟩
  · unfold Fill.assign
    rw [hwrite]
    rfl
  · show (s.assigned ++ [_]).map Assignment.position = List.range (i + 1)
    rw [List.map_append, h.positions, List.range_succ]
    rfl
  · show data = (s.assigned ++ [_]).map (Assignment.value draws) ++ _
    rw [hdata, List.map_append, hvalue]
    rfl

/-- The first `k` bytes of a word. -/
theorem assign_bytes (h : Filled draws dataSize i s) (hk : i + k ≤ dataSize) :
    ∃ s', (List.range k).foldlM
        (fun (s : Fill) k => s.assign (i + k) k (wordByte (draws s.drawn) k)) s = some s' ∧
      Filled draws dataSize (i + k) s' ∧ s'.drawn = s.drawn := by
  -- byte by byte, all from the one draw
  induction k with
  | zero => exact ⟨s, rfl, h, rfl⟩
  | succ k ih =>
      obtain ⟨s₁, hrun, hfilled, hdrawn⟩ := ih (by omega)
      obtain ⟨s₂, hstore, hfilled', hdrawn'⟩ := hfilled.assign (by omega)
        (Eq.refl (wordByte (draws s₁.drawn) k))
      refine ⟨s₂, ?_, hfilled', hdrawn'.trans hdrawn⟩
      rw [List.range_succ, List.foldlM_append, hrun]
      show (s₁.assign (i + k) k _ >>= pure) = some s₂
      rw [hstore]
      rfl

/-- **Turn lemma of the word loop.** -/
theorem assignWord (h : Filled draws dataSize i s) (hi : i + 8 ≤ dataSize) :
    ∃ s', s.assignWord draws i = some s' ∧ Filled draws dataSize (i + 8) s' := by
  obtain ⟨s', hrun, hfilled, _⟩ := h.assign_bytes hi
  refine ⟨_, ?_, hfilled.next_draw⟩
  unfold Fill.assignWord
  rw [hrun]
  rfl

/-- **Turn lemma of the byte loop.** -/
theorem assignByte (h : Filled draws dataSize i s) (hi : i < dataSize) :
    ∃ s', s.assignByte draws i = some s' ∧ Filled draws dataSize (i + 1) s' := by
  obtain ⟨s', hstore, hfilled, _⟩ := h.assign hi (toUInt8_low (draws s.drawn))
  refine ⟨_, ?_, hfilled.next_draw⟩
  unfold Fill.assignByte
  rw [hstore]
  rfl

end Filled

/-! ## §3. The loops. -/

/-- The word loop ends inside the content, less than a word and one byte
before its end. -/
theorem wordLoop_filled (hsize : contextSize + checksumSize = dataSize)
    (hword : dataSize < wordSize) (turns i : Nat) (s : Fill) (hi : i ≤ contextSize)
    (hturns : contextSize < turns + i) (h : Filled draws dataSize i s) :
    ∃ i' s', wordLoop draws contextSize turns i s = some (i', s') ∧ i' ≤ contextSize ∧
      Filled draws dataSize i' s' := by
  have hchecksum : checksumSize = 128 := rfl
  induction turns generalizing i s with
  | zero => omega
  | succ turns ih =>
      -- `i + 8` does not wrap: a checksum follows the content
      have hnext : add64 i 8 = i + 8 := add64_eq (by omega)
      unfold wordLoop
      rw [hnext]
      by_cases hlt : i + 8 < contextSize
      · obtain ⟨s', hturn, hfilled⟩ := h.assignWord (by omega)
        rw [if_pos hlt, hturn]
        exact ih (i + 8) s' (by omega) (by omega) hfilled
      · rw [if_neg hlt]
        exact ⟨i, s, rfl, hi, h⟩

/-- The byte loop ends at the end of the content. -/
theorem byteLoop_filled (hsize : contextSize + checksumSize = dataSize)
    (hword : dataSize < wordSize) (turns i : Nat) (s : Fill) (hi : i ≤ contextSize)
    (hturns : contextSize < turns + i) (h : Filled draws dataSize i s) :
    ∃ s', byteLoop draws contextSize turns i s = some s' ∧
      Filled draws dataSize contextSize s' := by
  have hchecksum : checksumSize = 128 := rfl
  induction turns generalizing i s with
  | zero => omega
  | succ turns ih =>
      have hnext : add64 i 1 = i + 1 := add64_eq (by omega)
      unfold byteLoop
      by_cases hlt : i < contextSize
      · obtain ⟨s', hturn, hfilled⟩ := h.assignByte (by omega)
        rw [if_pos hlt, hturn, hnext]
        exact ih (i + 1) s' (by omega) (by omega) hfilled
      · have hend : i = contextSize := by omega
        subst hend
        rw [if_neg hlt]
        exact ⟨s, rfl, h⟩

/-- **Both loops end, and fill the content exactly.** -/
theorem generateContent_filled (draws : Nat → UInt64) (hsize : checksumSize < dataSize)
    (hword : dataSize < wordSize) :
    ∃ s, generateContent draws dataSize = some s ∧
      Filled draws dataSize (dataSize - checksumSize) s := by
  have hsum : dataSize - checksumSize + checksumSize = dataSize := by omega
  obtain ⟨i, s₁, hwords, hi, hfilled⟩ := wordLoop_filled hsum hword
    (dataSize - checksumSize + 1) 0 ⟨List.replicate dataSize 0, 0, []⟩ (Nat.zero_le _) (by omega)
    Filled.start
  obtain ⟨s₂, hbytes, hfilled'⟩ := byteLoop_filled hsum hword
    (dataSize - checksumSize + 1) i s₁ hi (by omega) hfilled
  refine ⟨s₂, ?_, hfilled'⟩
  unfold generateContent
  dsimp only
  rw [hwords, Option.bind_some, hbytes]

/-! ## §4. The checksum. -/

/-- The last loop replaces the zeros after the content by the checksum. -/
theorem write_checksum (content checksum : List UInt8) (n : Nat) (hn : n ≤ checksum.length) :
    (List.range n).foldlM
        (fun data j => writeByte data (content.length + j) (checksum.getD j 0))
        (content ++ List.replicate checksum.length 0) =
      some ((content ++ checksum.take n) ++ List.replicate (checksum.length - n) 0) := by
  -- after `n` stores `n` of the zeros are checksum bytes
  induction n with
  | zero =>
      rw [List.take_zero, List.append_nil, Nat.sub_zero]
      rfl
  | succ n ih =>
      have hfront : (content ++ checksum.take n).length = content.length + n := by
        rw [List.length_append, List.length_take, Nat.min_eq_left (by omega)]
      have hrest : checksum.length - n = (checksum.length - (n + 1)) + 1 := by omega
      have hbyte : checksum.getD n 0 = checksum[n] := by
        rw [List.getD_eq_getElem?_getD, List.getElem?_eq_getElem (by omega)]
        rfl
      rw [List.range_succ, List.foldlM_append, ih (by omega)]
      show (writeByte _ (content.length + n) (checksum.getD n 0) >>= pure) = _
      rw [← hfront, hrest, writeByte_next, hbyte, List.append_assoc content,
        List.take_append_getElem]
      rfl

/-- **A content followed by its checksum verifies.** -/
theorem verify_content_checksum (content : List UInt8) (hpos : 0 < content.length) :
    verifyDataReceived (content ++ checksumOf content content.length)
      (content.length + checksumSize) = some true := by
  have hlen : (content ++ checksumOf content content.length).length =
      content.length + checksumSize := by
    rw [List.length_append, length_checksumOf]
  rw [verifyDataReceived_iff (by omega) hlen]
  intro r hr
  rw [Nat.add_sub_cancel]
  have hcontent : ∀ i, i < content.length →
      byteAt (content ++ checksumOf content content.length) i = byteAt content i := by
    intro i hi
    unfold byteAt
    exact List.getD_append _ _ _ _ hi
  have hcheck : byteAt (content ++ checksumOf content content.length) (content.length + r) =
      byteAt (checksumOf content content.length) r := by
    unfold byteAt
    rw [List.getD_append_right _ _ _ _ (Nat.le_add_right _ _), Nat.add_sub_cancel_left]
  rw [columnXor_congr hcontent, hcheck, checksumOf_getD hr]

/-- The checksum looks at the content only. -/
theorem checksumOf_append (content rest : List UInt8) :
    checksumOf (content ++ rest) content.length = checksumOf content content.length := by
  apply List.ext_getElem (by rw [length_checksumOf, length_checksumOf])
  intro r hr hr'
  rw [length_checksumOf] at hr
  have hcolumn : byteAt (checksumOf (content ++ rest) content.length) r =
      byteAt (checksumOf content content.length) r := by
    rw [checksumOf_getD hr, checksumOf_getD hr]
    apply columnXor_congr
    intro i hi
    exact List.getD_append _ _ _ _ hi
  unfold byteAt at hcolumn
  rwa [List.getD_eq_getElem _ _ (by rwa [length_checksumOf]), List.getD_eq_getElem] at hcolumn

/-! ## §5. The frame. -/

/-- The content of a filled vector. -/
def Fill.content (draws : Nat → UInt64) (s : Fill) : List UInt8 :=
  s.assigned.map (Assignment.value draws)

namespace Filled

variable {s : Fill}

theorem length_content (h : Filled draws dataSize i s) : (s.content draws).length = i := by
  unfold Fill.content
  rw [List.length_map, h.length_assigned]

/-- The vector the checksum is calculated from. -/
theorem data_eq (hsize : checksumSize < dataSize)
    (h : Filled draws dataSize (dataSize - checksumSize) s) :
    s.data = s.content draws ++ List.replicate checksumSize 0 := by
  have hzeros : dataSize - (dataSize - checksumSize) = checksumSize := by omega
  have hdata := h.data
  rwa [hzeros] at hdata

/-- Each content byte is the one its assignment put down. -/
theorem byteAt_position (hsize : checksumSize < dataSize)
    (h : Filled draws dataSize (dataSize - checksumSize) s) {a : Assignment}
    (ha : a ∈ s.assigned) : byteAt s.data a.position = a.value draws := by
  obtain ⟨n, hn, hget⟩ := List.getElem_of_mem ha
  -- the positions are assigned in their order
  have hposition : a.position = n := by
    have hcell := congrArg (fun l => l[n]?) h.positions
    rw [List.getElem?_map, List.getElem?_eq_getElem hn, hget,
      List.getElem?_range (by rw [← h.length_assigned]; exact hn)] at hcell
    exact Option.some_inj.mp hcell
  have hnc : n < (s.content draws).length := by
    rw [h.length_content, ← h.length_assigned]
    exact hn
  have hvalue : (s.content draws)[n] = a.value draws := by
    simp only [Fill.content, List.getElem_map, hget]
  rw [hposition, h.data_eq hsize, byteAt, List.getD_append _ _ _ _ hnc,
    List.getD_eq_getElem _ _ hnc, hvalue]

/-- The last loop completes the frame. -/
theorem generateDataToSend_eq (hsize : checksumSize < dataSize)
    (h : Filled draws dataSize (dataSize - checksumSize) s)
    (hrun : generateContent draws dataSize = some s) :
    generateDataToSend draws dataSize =
      some (s.content draws ++ checksumOf (s.content draws) (s.content draws).length) := by
  have hchecksum : (checksumOf (s.content draws) (s.content draws).length).length = checksumSize :=
    length_checksumOf
  have hwrite := write_checksum (s.content draws)
    (checksumOf (s.content draws) (s.content draws).length) checksumSize (by rw [hchecksum])
  rw [hchecksum, Nat.sub_self, List.take_of_length_le (by rw [hchecksum]), List.replicate_zero,
    List.append_nil] at hwrite
  unfold generateDataToSend
  rw [if_pos hsize, hrun]
  show ((calcChecksum s.data dataSize).bind _) = _
  rw [calcChecksum_eq hsize, h.data_eq hsize, ← h.length_content, checksumOf_append,
    Option.bind_some]
  exact hwrite

end Filled

/-- What is generated has the size asked for and verifies. -/
theorem exists_generated (draws : Nat → UInt64) (hsize : checksumSize < dataSize)
    (hword : dataSize < wordSize) :
    ∃ data, generateDataToSend draws dataSize = some data ∧ data.length = dataSize ∧
      verifyDataReceived data dataSize = some true := by
  obtain ⟨s, hrun, hfilled⟩ := generateContent_filled draws hsize hword
  have hlen := hfilled.length_content
  have hsum : (s.content draws).length + checksumSize = dataSize := by omega
  refine ⟨_, hfilled.generateDataToSend_eq hsize hrun, ?_, ?_⟩
  · rw [List.length_append, length_checksumOf, hsum]
  · have hverify := verify_content_checksum (s.content draws) (by omega)
    rwa [hsum] at hverify

/-- Whatever has been generated verifies. -/
theorem verified_of_generated {draws : Nat → UInt64} {data : List UInt8}
    (hsize : checksumSize < dataSize) (hword : dataSize < wordSize)
    (hdata : generateDataToSend draws dataSize = some data) :
    verifyDataReceived data dataSize = some true := by
  obtain ⟨data', hgen, _, hgood⟩ := exists_generated draws hsize hword
  rw [hdata, Option.some_inj] at hgen
  rw [hgen]
  exact hgood

/-- **Generated frames verify.**  Every store is inside the vector, the fill
loops assign the positions `0 .. context_size - 1` one after the other and
leave the zeros behind them alone, and the checksum goes over these. -/
theorem generate_verified (draws : Nat → UInt64) (dataSize : Nat) (hsize : checksumSize < dataSize)
    (hword : dataSize < wordSize) :
    ∃ s data, generateContent draws dataSize = some s ∧
      s.assigned.map Assignment.position = List.range (dataSize - checksumSize) ∧
      (∀ a, a ∈ s.assigned → byteAt s.data a.position = a.value draws) ∧
      s.data.drop (dataSize - checksumSize) = List.replicate checksumSize 0 ∧
      generateDataToSend draws dataSize = some data ∧
      data.take (dataSize - checksumSize) = s.data.take (dataSize - checksumSize) ∧
      data.length = dataSize ∧
      verifyDataReceived data dataSize = some true := by
  obtain ⟨s, hrun, hfilled⟩ := generateContent_filled draws hsize hword
  obtain ⟨data, hdata, hlength, hverify⟩ := exists_generated draws hsize hword
  have hframe := hfilled.generateDataToSend_eq hsize hrun
  have hcontent := hfilled.data_eq hsize
  have hlen := hfilled.length_content
  rw [hdata, Option.some_inj] at hframe
  refine ⟨s, data, hrun, hfilled.positions, ?_, ?_, hdata, ?_, hlength, hverify⟩
  · intro a ha
    exact hfilled.byteAt_position hsize ha
  · rw [hcontent, ← hlen, List.drop_left]
  · rw [hframe, hcontent, ← hlen, List.take_left, List.take_left]

/-- A content of one word and a byte. -/
theorem generate_verified_nine :
    checksumSize < 137 ∧ 137 < wordSize ∧
      ∃ s data, generateContent UInt64.ofNat 137 = some s ∧
        s.assigned.map Assignment.position = List.range 9 ∧
        generateDataToSend UInt64.ofNat 137 = some data ∧
        verifyDataReceived data 137 = some true := by
  have hsize : checksumSize < 137 := by decide
  have hword : 137 < wordSize := by decide
  obtain ⟨s, data, hrun, hpositions, _, _, hdata, _, _, hverify⟩ :=
    generate_verified UInt64.ofNat 137 hsize hword
  exact ⟨hsize, hword, s, data, hrun, hpositions, hdata, hverify⟩

end Akbench
