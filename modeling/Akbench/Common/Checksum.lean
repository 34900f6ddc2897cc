/-
  Akbench.Common.Checksum
  ───────────────────────
  **`CalcChecksum` AND `VerifyDataReceived`.**

  A frame of `data_size` bytes is its content followed by a checksum of
  `CHECKSUM_SIZE` bytes; byte `r` of the checksum is the xor of the content
  bytes at positions congruent to `r`.  A failed `AKCHECK` aborts the process
  and is `none` here.
-/
import Mathlib.Data.List.Basic

namespace Akbench

/-- `CHECKSUM_SIZE`. -/
def checksumSize : Nat := 128

/-- One turn of the loop: `checksum[i % CHECKSUM_SIZE] ^= data[i]`. -/
def xorInto (data checksum : List UInt8) (i : Nat) : List UInt8 :=
  checksum.modify (i % checksumSize) (· ^^^ data.getD i 0)

/-- `CalcChecksum`. -/
def calcChecksum (data : List UInt8) (dataSize : Nat) : Option (List UInt8) :=
  if checksumSize < dataSize then
    let contextSize := dataSize - checksumSize
    some ((List.range contextSize).foldl (xorInto data) (List.replicate checksumSize 0))
  else none

/-- `VerifyDataReceived`. -/
def verifyDataReceived (data : List UInt8) (dataSize : Nat) : Option Bool :=
  if checksumSize < dataSize then
    let contextSize := dataSize - checksumSize
    if data.length ≠ dataSize then some false
    else
      match calcChecksum data dataSize with
      | none => none
      | some checksum =>
          some ((List.range checksumSize).all fun i =>
            data.getD (contextSize + i) 0 == checksum.getD i 0)
  else none

/-- The check aborts on small sizes and only there. -/
theorem verifyDataReceived_eq_none (data : List UInt8) (dataSize : Nat) :
    verifyDataReceived data dataSize = none ↔ dataSize ≤ checksumSize := by
  unfold verifyDataReceived
  by_cases h : checksumSize < dataSize
  · rw [if_pos h]
    have hnot : ¬ dataSize ≤ checksumSize := by omega
    constructor
    · intro hnone
      exfalso
      split at hnone
      · cases hnone
      · unfold calcChecksum at hnone
        rw [if_pos h] at hnone
        cases hnone
    · intro hle
      exact absurd hle hnot
  · rw [if_neg h]
    constructor
    · intro _
      omega
    · intro _
      rfl

theorem getD_replicate_zero (n i : Nat) : (List.replicate n (0 : UInt8)).getD i 0 = 0 := by
  rw [List.getD_eq_getElem?_getD, List.getElem?_replicate]
  split
  next => rfl
  next => rfl

/-- Zeros xored in change nothing. -/
theorem xorInto_zero (n i : Nat) (checksum : List UInt8) :
    xorInto (List.replicate n 0) checksum i = checksum := by
  unfold xorInto
  rw [getD_replicate_zero]
  have hid : (fun x : UInt8 => x ^^^ 0) = id := by
    funext x
    exact UInt8.xor_zero
  rw [hid, List.modify_id]

theorem foldl_xorInto_zero (n : Nat) (checksum : List UInt8) (l : List Nat) :
    l.foldl (xorInto (List.replicate n 0)) checksum = checksum := by
  induction l generalizing checksum with
  | nil => rfl
  | cons i l ih =>
      show l.foldl _ (xorInto (List.replicate n 0) checksum i) = checksum
      rw [xorInto_zero, ih]

/-- A frame of zeros verifies: its checksum is zero. -/
theorem verifyDataReceived_zero {dataSize : Nat} (h : checksumSize < dataSize) :
    verifyDataReceived (List.replicate dataSize 0) dataSize = some true := by
  unfold verifyDataReceived calcChecksum
  rw [if_pos h, if_neg (by rw [List.length_replicate]; exact fun hne => hne rfl), if_pos h]
  dsimp only
  rw [foldl_xorInto_zero]
  show some ((List.range checksumSize).all _) = some true
  congr 1
  rw [List.all_eq_true]
  intro i _
  rw [getD_replicate_zero, getD_replicate_zero]
  rfl

/-- Nothing as small as a checksum verifies. -/
theorem checksumSize_lt_of_verified {data : List UInt8} {dataSize : Nat}
    (h : verifyDataReceived data dataSize = some true) : checksumSize < dataSize := by
  by_contra hsmall
  rw [(verifyDataReceived_eq_none data dataSize).mpr (Nat.le_of_not_lt hsmall)] at h
  cases h

/-- Data that verifies is not refused for its size. -/
theorem not_refused_of_verified {data : List UInt8} {dataSize : Nat} {refused : Prop}
    (hrefused : refused → dataSize ≤ checksumSize)
    (hgood : verifyDataReceived data dataSize = some true) : ¬ refused := by
  intro h
  have hsmall := hrefused h
  have hsize := checksumSize_lt_of_verified hgood
  omega

end Akbench
