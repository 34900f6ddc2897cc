/-
  Akbench.Common.Detection
  ────────────────────────
  **WHAT THE CHECKSUM DETECTS.**

  Byte `r` of the checksum is the xor of column `r` of the content, so the
  check is linear: two frames of one length that differ by `e` verify together
  iff every column of `e` over the content xors to the difference of the
  checksum bytes.

    • `verifyDataReceived_iff` — the check as an equation for each column;
    • `columnXor_xor` — linearity;
    • `verify_changed` — which changes to a valid frame go unnoticed, and that
      no burst is among them.
-/
import Akbench.Common.Checksum
import Akbench.Lib.Columns

namespace Akbench

variable {data data' : List UInt8} {dataSize n r : Nat} {f g : Nat → UInt8}

/-! ## §1. The checksum by columns. -/

/-- The xor of `f i` over all `i < n` congruent to `r`. -/
def columnXor (f : Nat → UInt8) (r n : Nat) : UInt8 :=
  column (· ^^^ ·) 0 checksumSize f r n

/-- Byte `i` of a frame. -/
abbrev byteAt (data : List UInt8) (i : Nat) : UInt8 := data.getD i 0

theorem columnXor_congr (h : ∀ i, i < n → f i = g i) : columnXor f r n = columnXor g r n :=
  column_congr _ _ h

/-- **Linearity.** -/
theorem columnXor_xor :
    columnXor (fun i => f i ^^^ g i) r n = columnXor f r n ^^^ columnXor g r n :=
  column_op _ _

theorem columnXor_eq_zero (h : ∀ i, i < n → i % checksumSize = r → f i = 0) :
    columnXor f r n = 0 := by
  unfold columnXor
  exact column_eq_identity _ _ h

/-- A column in which only place `k` counts. -/
theorem columnXor_eq_single {k : Nat} (hk : k < n)
    (h : ∀ i, i < n → i % checksumSize = k % checksumSize → i ≠ k → f i = 0) :
    columnXor f (k % checksumSize) n = f k := by
  have hmod : k % checksumSize = k % checksumSize := Eq.refl _
  unfold columnXor
  exact column_eq_single _ _ hk hmod h

/-- The bytes `CalcChecksum` returns. -/
def checksumOf (data : List UInt8) (n : Nat) : List UInt8 :=
  (List.range n).foldl (xorInto data) (List.replicate checksumSize 0)

theorem calcChecksum_eq (hsize : checksumSize < dataSize) :
    calcChecksum data dataSize = some (checksumOf data (dataSize - checksumSize)) := by
  unfold calcChecksum
  rw [if_pos hsize]
  rfl

theorem length_checksumOf : (checksumOf data n).length = checksumSize :=
  length_foldl_modify _ _

/-- **Byte `r` of the checksum is the xor of column `r`.** -/
theorem checksumOf_getD (hr : r < checksumSize) :
    byteAt (checksumOf data n) r = columnXor (byteAt data) r n := by
  unfold byteAt
  rw [List.getD_eq_getElem?_getD]
  have hcell : (checksumOf data n)[r]? = some (columnXor (byteAt data) r n) :=
    getElem?_foldl_modify _ _ hr
  rw [hcell]
  rfl

/-- **The check as equations**, one for each column. -/
theorem verifyDataReceived_iff (hsize : checksumSize < dataSize) (hlen : data.length = dataSize) :
    verifyDataReceived data dataSize = some true ↔
      ∀ r, r < checksumSize →
        columnXor (byteAt data) r (dataSize - checksumSize) =
          byteAt data (dataSize - checksumSize + r) := by
  unfold verifyDataReceived
  rw [if_pos hsize]
  dsimp only
  rw [if_neg (fun hne => hne hlen), calcChecksum_eq hsize]
  dsimp only
  rw [Option.some_inj, List.all_eq_true]
  constructor
  · intro hall r hr
    have hr' := hall r (List.mem_range.mpr hr)
    rw [beq_iff_eq] at hr'
    rw [← checksumOf_getD hr]
    exact hr'.symm
  · intro heq r hr
    have hr' := List.mem_range.mp hr
    rw [beq_iff_eq]
    exact ((checksumOf_getD hr').trans (heq r hr')).symm

/-- Above the minimal size the check gives a verdict. -/
theorem verifyDataReceived_verdict (hsize : checksumSize < dataSize) :
    ∃ b, verifyDataReceived data dataSize = some b := by
  cases hv : verifyDataReceived data dataSize with
  | some b => exact ⟨b, rfl⟩
  | none =>
      have hle := (verifyDataReceived_eq_none data dataSize).mp hv
      omega

/-- A frame of the wrong length is rejected. -/
theorem verifyDataReceived_of_length_ne (hsize : checksumSize < dataSize)
    (hlen : data.length ≠ dataSize) : verifyDataReceived data dataSize = some false := by
  unfold verifyDataReceived
  rw [if_pos hsize, if_pos hlen]

/-- What does not verify is rejected. -/
theorem verifyDataReceived_eq_false (hsize : checksumSize < dataSize)
    (h : verifyDataReceived data dataSize ≠ some true) :
    verifyDataReceived data dataSize = some false := by
  obtain ⟨b, hb⟩ : ∃ b, verifyDataReceived data dataSize = some b :=
    verifyDataReceived_verdict hsize
  cases b with
  | true => exact absurd hb h
  | false => exact hb

/-! ## §2. Changes to a valid frame. -/

/-- Bytewise difference of two frames. -/
def difference (data data' : List UInt8) (i : Nat) : UInt8 := byteAt data i ^^^ byteAt data' i

theorem difference_eq_zero_iff {i : Nat} :
    difference data data' i = 0 ↔ byteAt data i = byteAt data' i :=
  UInt8.xor_eq_zero_iff

/-- Frames of one length that are not the same differ somewhere. -/
theorem exists_difference (hlen : data'.length = data.length) (hne : data' ≠ data) :
    ∃ i, i < data.length ∧ difference data data' i ≠ 0 := by
  by_contra hnone
  apply hne
  apply List.ext_getElem hlen
  intro i hi hi'
  have hzero : difference data data' i = 0 := by
    by_contra hdiff
    exact hnone ⟨i, hi', hdiff⟩
  have hbyte : data.getD i 0 = data'.getD i 0 := difference_eq_zero_iff.mp hzero
  rw [List.getD_eq_getElem?_getD, List.getElem?_eq_getElem hi', List.getD_eq_getElem?_getD,
    List.getElem?_eq_getElem hi] at hbyte
  exact hbyte.symm

theorem length_of_verify (hsize : checksumSize < dataSize)
    (h : verifyDataReceived data dataSize = some true) : data.length = dataSize := by
  by_contra hlen
  rw [verifyDataReceived_of_length_ne hsize hlen] at h
  cases h

/-- **The changes that go unnoticed.** -/
theorem verify_changed_iff (hsize : checksumSize < dataSize)
    (hvalid : verifyDataReceived data dataSize = some true) (hlen : data'.length = data.length) :
    verifyDataReceived data' dataSize = some true ↔
      ∀ r, r < checksumSize →
        columnXor (difference data data') r (dataSize - checksumSize) =
          difference data data' (dataSize - checksumSize + r) := by
  have hdlen := length_of_verify hsize hvalid
  have hold := (verifyDataReceived_iff hsize hdlen).mp hvalid
  have hsum : ∀ r, columnXor (difference data data') r (dataSize - checksumSize) =
      columnXor (byteAt data) r (dataSize - checksumSize) ^^^
        columnXor (byteAt data') r (dataSize - checksumSize) := fun r => columnXor_xor
  rw [verifyDataReceived_iff hsize (hlen.trans hdlen)]
  constructor
  · intro hnew r hr
    rw [hsum, hold r hr, hnew r hr]
    rfl
  · intro hdiff r hr
    have hr' := hdiff r hr
    rw [hsum, hold r hr] at hr'
    exact (UInt8.xor_right_inj _).mp hr'

/-- A change within 128 consecutive bytes of the content is noticed: its
columns hold one changed byte each. -/
theorem burst_rejected (hsize : checksumSize < dataSize)
    (hvalid : verifyDataReceived data dataSize = some true) (hlen : data'.length = data.length)
    (hne : data' ≠ data) (a : Nat)
    (hburst : ∀ i, difference data data' i ≠ 0 →
      a ≤ i ∧ i < a + checksumSize ∧ i < dataSize - checksumSize) :
    verifyDataReceived data' dataSize = some false := by
  apply verifyDataReceived_eq_false hsize
  intro hverify
  obtain ⟨k, _, hk⟩ := exists_difference hlen hne
  obtain ⟨hak, hka, hkc⟩ := hburst k hk
  have hpos : 0 < checksumSize := by decide
  have hr : k % checksumSize < checksumSize := Nat.mod_lt k hpos
  have hcolumn := (verify_changed_iff hsize hvalid hlen).mp hverify _ hr
  -- the column of `k` has no other changed byte
  have hsingle : columnXor (difference data data') (k % checksumSize)
      (dataSize - checksumSize) = difference data data' k := by
    apply columnXor_eq_single hkc
    intro i _ hi hik
    by_contra hdiff
    obtain ⟨hai, hia, _⟩ := hburst i hdiff
    exact hik (window_residue hai hia hak hka hi)
  -- and its checksum byte is not changed
  have hcheck : difference data data' (dataSize - checksumSize + k % checksumSize) = 0 := by
    by_contra hdiff
    obtain ⟨_, _, hlt⟩ := hburst _ hdiff
    omega
  rw [hsingle, hcheck] at hcolumn
  exact hk hcolumn

/-- A change within the checksum bytes is noticed. -/
theorem checksum_change_rejected (hsize : checksumSize < dataSize)
    (hvalid : verifyDataReceived data dataSize = some true) (hlen : data'.length = data.length)
    (hne : data' ≠ data)
    (hconfined : ∀ i, difference data data' i ≠ 0 → dataSize - checksumSize ≤ i) :
    verifyDataReceived data' dataSize = some false := by
  apply verifyDataReceived_eq_false hsize
  intro hverify
  obtain ⟨k, hlt, hk⟩ := exists_difference hlen hne
  have hdlen := length_of_verify hsize hvalid
  have hck := hconfined k hk
  have hcolumn := (verify_changed_iff hsize hvalid hlen).mp hverify
    (k - (dataSize - checksumSize)) (by omega)
  have hzero : columnXor (difference data data') (k - (dataSize - checksumSize))
      (dataSize - checksumSize) = 0 := by
    apply columnXor_eq_zero
    intro i hi _
    by_contra hdiff
    have hci := hconfined i hdiff
    omega
  rw [hzero, Nat.add_sub_cancel' hck] at hcolumn
  exact hk hcolumn.symm

/-- **Exact detection power of the checksum.** -/
theorem verify_changed (data data' : List UInt8) (dataSize : Nat) (hsize : checksumSize < dataSize)
    (hvalid : verifyDataReceived data dataSize = some true) (hlen : data'.length = data.length) :
    (verifyDataReceived data' dataSize = some true ↔
      ∀ r, r < checksumSize →
        columnXor (difference data data') r (dataSize - checksumSize) =
          difference data data' (dataSize - checksumSize + r)) ∧
    (∀ a, data' ≠ data →
      (∀ i, difference data data' i ≠ 0 →
        a ≤ i ∧ i < a + checksumSize ∧ i < dataSize - checksumSize) →
      verifyDataReceived data' dataSize = some false) ∧
    (data' ≠ data →
      (∀ i, difference data data' i ≠ 0 → dataSize - checksumSize ≤ i) →
      verifyDataReceived data' dataSize = some false) := by
  refine ⟨verify_changed_iff hsize hvalid hlen, ?_, ?_⟩
  · intro a hne hburst
    exact burst_rejected hsize hvalid hlen hne a hburst
  · intro hne hconfined
    exact checksum_change_rejected hsize hvalid hlen hne hconfined

/-- A frame of zeros with one content byte changed, and with two changed that
cancel out. -/
theorem verify_changed_zeros :
    verifyDataReceived (1 :: List.replicate 299 0) 300 = some false ∧
      verifyDataReceived ((List.replicate 300 0).modify 0 (· + 1) |>.modify 128 (· + 1)) 300 =
        some true := by
  have hzeros : verifyDataReceived (List.replicate 300 0) 300 = some true :=
    verifyDataReceived_zero (by decide)
  constructor
  · apply (verify_changed (List.replicate 300 0) (1 :: List.replicate 299 0) 300 (by decide)
      hzeros rfl).2.1 0 (by decide)
    intro i hi
    have hfirst : i = 0 := by
      by_contra hpos
      apply hi
      obtain ⟨j, hj⟩ := Nat.exists_eq_succ_of_ne_zero hpos
      subst hj
      unfold difference byteAt
      rw [getD_replicate_zero, List.getD_cons_succ, getD_replicate_zero]
      rfl
    subst hfirst
    decide
  · have hsame : ∀ i, i ≠ 0 → i ≠ 128 → difference (List.replicate 300 0)
        ((List.replicate 300 0).modify 0 (· + 1) |>.modify 128 (· + 1)) i = 0 := by
      intro i h0 h128
      unfold difference byteAt
      rw [getD_replicate_zero, List.getD_eq_getElem?_getD,
        List.getElem?_modify_ne _ _ h128.symm, List.getElem?_modify_ne _ _ h0.symm,
        ← List.getD_eq_getElem?_getD, getD_replicate_zero]
      rfl
    have hwidth : checksumSize = 128 := rfl
    apply (verify_changed (List.replicate 300 0) _ 300 (by decide) hzeros
      (by rw [List.length_modify, List.length_modify])).1.mpr
    intro r hr
    rw [hsame (300 - checksumSize + r) (by omega) (by omega)]
    by_cases hfirst : r = 0
    · -- the two changes meet in column 0
      subst hfirst
      decide +kernel
    · apply columnXor_eq_zero
      intro i _ hir
      rw [hwidth] at hir
      exact hsame i (by omega) (by omega)

end Akbench
