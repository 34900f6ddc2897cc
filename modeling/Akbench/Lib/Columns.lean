/-
  Akbench.Lib.Columns
  ───────────────────
  **INTERLEAVED FOLDS: ONE ACCUMULATOR PER RESIDUE CLASS.**

  A sequence is written row by row into a table of `width` columns and each
  column is folded with an operation `op`.  `column op e width f r n` is the
  fold of column `r` over the first `n` places.

    • `getElem?_foldl_modify` — the loop that folds place `i` into cell
      `i % width` of an array computes the columns;
    • `column_op` — a column of a place-wise `op` is the `op` of the columns
      (`op` associative and commutative);
    • `column_eq_identity`, `column_eq_single` — columns with at most one place
      that counts;
    • `window_residue` — in a window of at most `width` places no two are in
      one column.
-/
import Mathlib.Data.List.Basic

namespace Akbench

variable {α : Type*} (op : α → α → α) (e : α) {width r n k : Nat} {f g : Nat → α}

/-- The fold of column `r` over the first `n` places of `f`. -/
def column (width : Nat) (f : Nat → α) (r : Nat) : Nat → α
  | 0 => e
  | n + 1 => if n % width = r then op (column width f r n) (f n) else column width f r n

/-! ## §1. Columns as values. -/

theorem column_succ : column op e width f r (n + 1) =
    if n % width = r then op (column op e width f r n) (f n) else column op e width f r n :=
  rfl

theorem column_congr (h : ∀ i, i < n → f i = g i) :
    column op e width f r n = column op e width g r n := by
  induction n with
  | zero => rfl
  | succ n ih =>
      have hlast : f n = g n := h n (Nat.lt_succ_self n)
      have hinit := ih fun i hi => h i (Nat.lt_succ_of_lt hi)
      rw [column_succ, column_succ, hlast, hinit]

/-- A column of places that do not count. -/
theorem column_eq_identity [Std.LawfulRightIdentity op e]
    (h : ∀ i, i < n → i % width = r → f i = e) : column op e width f r n = e := by
  induction n with
  | zero => rfl
  | succ n ih =>
      have hinit := ih fun i hi => h i (Nat.lt_succ_of_lt hi)
      rw [column_succ, hinit]
      split
      next hr =>
        rw [h n (Nat.lt_succ_self n) hr]
        exact Std.LawfulRightIdentity.right_id e
      next => rfl

/-- A column in which only place `k` counts. -/
theorem column_eq_single [Std.LawfulIdentity op e] (hk : k < n) (hr : k % width = r)
    (h : ∀ i, i < n → i % width = r → i ≠ k → f i = e) :
    column op e width f r n = f k := by
  induction n with
  | zero => omega
  | succ n ih =>
      rw [column_succ]
      by_cases hlast : k = n
      · -- nothing before the last place counts
        subst hlast
        have hinit : column op e width f r k = e := by
          apply column_eq_identity
          intro i hi hir
          exact h i (Nat.lt_succ_of_lt hi) hir (Nat.ne_of_lt hi)
        rw [if_pos hr, hinit]
        exact Std.LawfulLeftIdentity.left_id (f k)
      · have hinit : column op e width f r n = f k := by
          apply ih (by omega)
          intro i hi hir hik
          exact h i (Nat.lt_succ_of_lt hi) hir hik
        rw [hinit]
        split
        next hnr =>
          rw [h n (Nat.lt_succ_self n) hnr (fun heq => hlast heq.symm)]
          exact Std.LawfulRightIdentity.right_id (f k)
        next => rfl

/-- **Columns are additive.** -/
theorem column_op [Std.Associative op] [Std.Commutative op] [Std.LawfulIdentity op e] :
    column op e width (fun i => op (f i) (g i)) r n =
      op (column op e width f r n) (column op e width g r n) := by
  induction n with
  | zero => exact (Std.LawfulLeftIdentity.left_id e).symm
  | succ n ih =>
      rw [column_succ, column_succ, column_succ, ih]
      split
      next => ac_rfl
      next => rfl

/-! ## §2. The loop over an array of accumulators. -/

/-- **The loop computes the columns.** -/
theorem getElem?_foldl_modify (hr : r < width) :
    ((List.range n).foldl (fun cells i => cells.modify (i % width) (op · (f i)))
      (List.replicate width e))[r]? = some (column op e width f r n) := by
  induction n with
  | zero =>
      show (List.replicate width e)[r]? = some e
      rw [List.getElem?_replicate, if_pos hr]
  | succ n ih =>
      rw [List.range_succ, List.foldl_append]
      show (List.modify _ (n % width) (op · (f n)))[r]? = _
      rw [List.getElem?_modify, ih, column_succ, Option.map_eq_map, Option.map_some]

theorem length_foldl_modify :
    ((List.range n).foldl (fun cells i => cells.modify (i % width) (op · (f i)))
      (List.replicate width e)).length = width := by
  induction n with
  | zero => exact List.length_replicate
  | succ n ih =>
      rw [List.range_succ, List.foldl_append]
      show (List.modify _ (n % width) (op · (f n))).length = width
      rw [List.length_modify, ih]

/-! ## §3. Windows. -/

/-- Two places of one column in a window of at most `width` places are one
place. -/
theorem window_residue {a i j : Nat} (hi : a ≤ i) (hi' : i < a + width) (hj : a ≤ j)
    (hj' : j < a + width) (h : i % width = j % width) : i = j := by
  have hdi := Nat.div_add_mod i width
  have hdj := Nat.div_add_mod j width
  rcases Nat.lt_trichotomy (i / width) (j / width) with hlt | heq | hgt
  · -- `j` is at least one row further down
    have hmul : width * (i / width) + width ≤ width * (j / width) := by
      rw [← Nat.mul_succ]
      exact Nat.mul_le_mul_left width hlt
    omega
  · rw [heq] at hdi
    omega
  · have hmul : width * (j / width) + width ≤ width * (i / width) := by
      rw [← Nat.mul_succ]
      exact Nat.mul_le_mul_left width hgt
    omega

end Akbench
