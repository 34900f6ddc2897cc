/-
  Akbench.Lib.Chunks
  ──────────────────
  **CUTTING A LIST INTO CHUNKS OF A GIVEN SIZE.**

  `chunks b l` cuts `l` into pieces of `b` elements, the last one possibly
  shorter.  Chunk `i` starts at position `i * b`; there are `chunkCount b n`
  of them for `n` elements, which is `n / b` rounded up.
-/
import Mathlib.Data.List.Basic
import Mathlib.Algebra.Order.Group.Nat

namespace Akbench

/-- `n / b` rounded up: how many chunks of `b` it takes for `n` elements. -/
def chunkCount (b n : Nat) : Nat := (n + b - 1) / b

variable {α : Type*} {b i j n : Nat} {l : List α}

/-- Chunk `i` exists exactly when it would begin inside. -/
theorem lt_chunkCount (hb : 0 < b) : i < chunkCount b n ↔ i * b < n := by
  unfold chunkCount
  rw [Nat.lt_iff_add_one_le, Nat.le_div_iff_mul_le hb, Nat.succ_mul]
  omega

theorem chunkCount_le (hb : 0 < b) : chunkCount b n ≤ i ↔ n ≤ i * b := by
  have h := lt_chunkCount (i := i) (n := n) hb
  omega

/-- Chunk `i` of `l`. -/
def chunk (b : Nat) (l : List α) (i : Nat) : List α := (l.drop (i * b)).take b

/-- All chunks of `l`. -/
def chunks (b : Nat) (l : List α) : List (List α) :=
  (List.range (chunkCount b l.length)).map (chunk b l)

@[simp] theorem length_chunks (b : Nat) (l : List α) :
    (chunks b l).length = chunkCount b l.length := by
  unfold chunks
  rw [List.length_map, List.length_range]

theorem length_chunk (b : Nat) (l : List α) (i : Nat) :
    (chunk b l i).length = min b (l.length - i * b) := by
  unfold chunk
  rw [List.length_take, List.length_drop]

/-- The first chunks, put together again. -/
theorem flatten_map_chunk (b : Nat) (l : List α) (m : Nat) :
    ((List.range m).map (chunk b l)).flatten = l.take (m * b) := by
  induction m with
  | zero => rw [Nat.zero_mul, List.take_zero]; rfl
  | succ m ih =>
      rw [List.range_succ, List.map_append, List.flatten_append, ih, Nat.succ_mul, List.take_add]
      show _ ++ (chunk b l m ++ []) = _
      rw [List.append_nil]
      rfl

/-- **The first `j` chunks make the first `j * b` elements.** -/
theorem flatten_take_chunks (hb : 0 < b) (l : List α) (j : Nat) :
    ((chunks b l).take j).flatten = l.take (j * b) := by
  unfold chunks
  rw [← List.map_take, List.take_range, flatten_map_chunk]
  by_cases hj : j ≤ chunkCount b l.length
  · rw [Nat.min_eq_left hj]
  · -- past the last chunk both sides are all of `l`
    have hall : l.length ≤ chunkCount b l.length * b := (chunkCount_le hb).mp (Nat.le_refl _)
    have hj' : l.length ≤ j * b := (chunkCount_le hb).mp (by omega)
    rw [Nat.min_eq_right (by omega), List.take_of_length_le hall, List.take_of_length_le hj']

/-- **All chunks make the whole list.** -/
theorem flatten_chunks (hb : 0 < b) (l : List α) : (chunks b l).flatten = l := by
  have h := flatten_take_chunks hb l (chunkCount b l.length)
  rw [← length_chunks, List.take_length, length_chunks,
      List.take_of_length_le ((chunkCount_le hb).mp (Nat.le_refl _))] at h
  exact h

/-- Every chunk has at least one and at most `b` elements. -/
theorem length_of_mem_chunks (hb : 0 < b) {x : List α} (h : x ∈ chunks b l) :
    0 < x.length ∧ x.length ≤ b := by
  obtain ⟨i, hi, hx⟩ := List.mem_map.mp h
  have hlt := (lt_chunkCount hb).mp (List.mem_range.mp hi)
  rw [← hx, length_chunk]
  omega

/-- The next chunk after the first `i`. -/
theorem drop_chunks (hb : 0 < b) (h : i * b < l.length) :
    ((chunks b l).drop i).take 1 = [chunk b l i] := by
  have hlt : i < chunkCount b l.length := (lt_chunkCount hb).mpr h
  unfold chunks
  rw [← List.map_drop, ← List.map_take, List.drop_eq_getElem_cons (by simpa using hlt)]
  simp

end Akbench
