/-
  Akbench.Lib.Coherence
  ─────────────────────
  **WHAT AN ATOMIC LOCATION PROMISES WITHOUT SEQUENTIAL CONSISTENCY.**

  The stores to a location have one order, the same for everybody
  (`History`).  A thread that loads may be given any value from that order, but
  never one older than what it has seen of the location already: its own last
  load, or what came before the start or the end of another thread.  This is
  coherence, and all that `memory_order_relaxed` stores and
  `memory_order_acquire` loads of one location promise.

    • `History.newest_of_fresh` — **who has seen all stores but one, and loads
      something new, has loaded the newest**;
    • `History.read_store` — a store is seen by nobody's older loads.
-/
import Mathlib.Data.List.Basic

namespace Akbench

/-- The values of a location in the order of their stores, the initial one
first. -/
structure History (α : Type*) where
  values : List α
  nonempty : values ≠ []

namespace History

variable {α : Type*} {h : History α} {v : α} {k m : Nat}

/-- A location that nobody has stored to. -/
def fresh (v : α) : History α := ⟨[v], List.cons_ne_nil v []⟩

def store (h : History α) (v : α) : History α :=
  ⟨h.values ++ [v], List.append_ne_nil_of_right_ne_nil _ (List.cons_ne_nil v [])⟩

/-- How many stores there have been; also the place of the newest. -/
def stores (h : History α) : Nat := h.values.length - 1

/-- What a load at place `k` is given. -/
def read (h : History α) (k : Nat) : Option α := h.values[k]?

/-- The newest value. -/
def latest (h : History α) : α := h.values.getLast h.nonempty

@[simp] theorem stores_fresh (v : α) : (fresh v).stores = 0 := rfl

@[simp] theorem latest_fresh (v : α) : (fresh v).latest = v := rfl

theorem length_eq (h : History α) : h.values.length = h.stores + 1 := by
  have hpos := List.length_pos_iff.mpr h.nonempty
  unfold stores
  omega

@[simp] theorem stores_store (h : History α) (v : α) : (h.store v).stores = h.stores + 1 := by
  show (h.values ++ [v]).length - 1 = _
  rw [List.length_append, h.length_eq]
  rfl

@[simp] theorem latest_store (h : History α) (v : α) : (h.store v).latest = v :=
  List.getLast_append_singleton _

theorem le_of_read (hk : h.read k = some v) : k ≤ h.stores := by
  obtain ⟨hlt, _⟩ := List.getElem?_eq_some_iff.mp hk
  rw [h.length_eq] at hlt
  exact Nat.le_of_lt_succ hlt

/-- The newest is there to be read. -/
theorem read_stores (h : History α) : h.read h.stores = some h.latest := by
  unfold read latest stores
  rw [List.getLast_eq_getElem, List.getElem?_eq_getElem]

/-- A store changes nothing of what came before. -/
theorem read_store (hk : k ≤ h.stores) : (h.store v).read k = h.read k :=
  List.getElem?_append_left (by rw [h.length_eq]; omega)

theorem read_store_self (h : History α) (v : α) : (h.store v).read (h.stores + 1) = some v := by
  have hread := (h.store v).read_stores
  rwa [stores_store, latest_store] at hread

/-- **The newest value is the only new one**, to a thread that has seen all
stores but one. -/
theorem newest_of_fresh (hseen : m ≤ k) (hle : h.stores ≤ m + 1) (hm : h.read m ≠ some v)
    (hk : h.read k = some v) : k = h.stores ∧ h.latest = v := by
  have hbound := le_of_read hk
  have hne : k ≠ m := by
    rintro rfl
    exact hm hk
  have hnewest : k = h.stores := by omega
  rw [hnewest, read_stores, Option.some.injEq] at hk
  exact ⟨hnewest, hk⟩

end History

end Akbench
