/-
  Akbench.Lib.Relay
  ─────────────────
  **EVENTS IN AN ORDER THAT REPEATS.**

  Parties that take turns make one event after the other, and the order is the
  same in every round.  `relay cycle rounds` is that and nothing else: its
  state is the list of the events so far, and the only step appends the event
  that is due.

    • `relay_reachable_iff` — the runs are the prefixes of the rounds;
    • `relay_countP` — how often a kind of event has happened, from the number
      of events alone;
    • `relay_next` — how a model of the parties makes its events follow the
      relay.
-/
import Akbench.Lib.System
import Mathlib.Data.List.Induction

namespace Akbench

variable {α : Type*} {cycle : List α} {rounds n : Nat} {t : List α} {a : α}

/-! ## §1. Rounds. -/

/-- `m` rounds, one after the other. -/
def repeated (cycle : List α) (m : Nat) : List α := (List.replicate m cycle).flatten

theorem repeated_succ (cycle : List α) (m : Nat) :
    repeated cycle (m + 1) = cycle ++ repeated cycle m := by
  unfold repeated
  rw [List.replicate_succ, List.flatten_cons]

@[simp] theorem length_repeated (cycle : List α) (m : Nat) :
    (repeated cycle m).length = m * cycle.length := by
  induction m with
  | zero =>
      rw [Nat.zero_mul]
      rfl
  | succ m ih => rw [repeated_succ, List.length_append, ih, Nat.succ_mul, Nat.add_comm]

/-- Whole rounds and the beginning of the next. -/
theorem take_repeated (hpos : 0 < cycle.length) (hn : n ≤ rounds * cycle.length) :
    (repeated cycle rounds).take n =
      repeated cycle (n / cycle.length) ++ cycle.take (n % cycle.length) := by
  induction rounds generalizing n with
  | zero =>
      have hzero : n = 0 := by omega
      rw [hzero, Nat.zero_div, Nat.zero_mod, List.take_zero, List.take_zero]
      rfl
  | succ m ih =>
      rw [repeated_succ]
      by_cases hlt : n < cycle.length
      · rw [Nat.div_eq_of_lt hlt, Nat.mod_eq_of_lt hlt,
          List.take_append_of_le_length (Nat.le_of_lt hlt)]
        rfl
      · -- the first round is complete: one less to go in what follows
        have hle : cycle.length ≤ n := Nat.le_of_not_lt hlt
        have hrest : n - cycle.length ≤ m * cycle.length := by
          rw [Nat.succ_mul] at hn
          omega
        have hdiv : n / cycle.length = (n - cycle.length) / cycle.length + 1 :=
          Nat.div_eq_sub_div hpos hle
        rw [List.take_append, List.take_of_length_le hle, ih hrest, hdiv, repeated_succ,
          List.append_assoc, ← Nat.mod_eq_sub_mod hle]

theorem repeated_getElem? (hn : n < rounds * cycle.length) :
    (repeated cycle rounds)[n]? = cycle[n % cycle.length]? := by
  induction rounds generalizing n with
  | zero => omega
  | succ m ih =>
      rw [repeated_succ]
      by_cases hlt : n < cycle.length
      · rw [List.getElem?_append_left hlt, Nat.mod_eq_of_lt hlt]
      · have hle : cycle.length ≤ n := Nat.le_of_not_lt hlt
        have hrest : n - cycle.length < m * cycle.length := by
          rw [Nat.succ_mul] at hn
          omega
        rw [List.getElem?_append_right hle, ih hrest, ← Nat.mod_eq_sub_mod hle]

theorem countP_repeated (P : α → Bool) (cycle : List α) (m : Nat) :
    (repeated cycle m).countP P = m * cycle.countP P := by
  induction m with
  | zero =>
      rw [Nat.zero_mul]
      rfl
  | succ m ih => rw [repeated_succ, List.countP_append, ih, Nat.succ_mul, Nat.add_comm]

/-- A part of the events repeats as all of them do. -/
theorem filterMap_repeated {β : Type*} (f : α → Option β) (cycle : List α) (m : Nat) :
    (repeated cycle m).filterMap f = repeated (cycle.filterMap f) m := by
  induction m with
  | zero => rfl
  | succ m ih => rw [repeated_succ, repeated_succ, List.filterMap_append, ih]

/-! ## §2. The relay. -/

variable [DecidableEq α]

/-- The events of `rounds` rounds happen in their order. -/
def relay (cycle : List α) (rounds : Nat) : System (List α) α where
  init t := t = []
  step t a :=
    if t.length < rounds * cycle.length ∧ cycle[t.length % cycle.length]? = some a then
      some (t ++ [a])
    else none

/-- The event that is due happens. -/
theorem relay_next (hlt : t.length < rounds * cycle.length)
    (hdue : cycle[t.length % cycle.length]? = some a) :
    (relay cycle rounds).Steps (fun _ _ => True) t (t ++ [a]) :=
  System.Steps.single (if_pos ⟨hlt, hdue⟩)

/-- What has happened is a beginning of the rounds. -/
theorem relay_begins (h : (relay cycle rounds).Reachable t) : t <+: repeated cycle rounds := by
  refine System.invariant (I := fun t => t <+: repeated cycle rounds) ?_ ?_ h
  · intro t ht
    rw [show t = [] from ht]
    exact List.nil_prefix
  · intro t a t' hprefix hs
    obtain ⟨⟨hlt, hdue⟩, rfl⟩ := System.guard_cases hs
    rw [← repeated_getElem? hlt] at hdue
    obtain ⟨rest, hrest⟩ := hprefix
    -- the event that is due is the first one not yet made
    rw [← hrest, List.getElem?_append_right (Nat.le_refl _), Nat.sub_self] at hdue
    obtain ⟨rest', rfl⟩ : ∃ rest', rest = a :: rest' := by
      cases rest with
      | nil => cases hdue
      | cons b rest' =>
          injection hdue with hdue
          exact ⟨rest', by rw [hdue]⟩
    refine ⟨rest', ?_⟩
    rw [List.append_assoc]
    exact hrest

theorem relay_length_le (h : (relay cycle rounds).Reachable t) :
    t.length ≤ rounds * cycle.length := by
  have hle := (relay_begins h).length_le
  rwa [length_repeated] at hle

theorem relay_eq_take (hpos : 0 < cycle.length) (h : (relay cycle rounds).Reachable t) :
    t = repeated cycle (t.length / cycle.length) ++ cycle.take (t.length % cycle.length) := by
  rw [← take_repeated hpos (relay_length_le h)]
  exact List.prefix_iff_eq_take.mp (relay_begins h)

/-- **The runs are the beginnings of the rounds.** -/
theorem relay_reachable_iff :
    (relay cycle rounds).Reachable t ↔ t <+: repeated cycle rounds := by
  constructor
  · exact relay_begins
  · intro h
    induction t using List.reverseRecOn with
    | nil => exact .of_init rfl
    | append_singleton t a ih =>
        -- the last event of a prefix is due behind the others
        have hbefore : t <+: repeated cycle rounds := (List.prefix_append t [a]).trans h
        have hlen := h.length_le
        rw [List.length_append, List.length_singleton, length_repeated] at hlen
        have hdue : (repeated cycle rounds)[t.length]? = some a := by
          obtain ⟨rest, hrest⟩ := h
          rw [← hrest, List.append_assoc, List.getElem?_append_right (Nat.le_refl _),
            Nat.sub_self]
          rfl
        rw [repeated_getElem? hlen] at hdue
        exact (ih hbefore).steps (relay_next hlen hdue)

/-- **How often a kind of event has happened**, by the number of events. -/
theorem relay_countP (hpos : 0 < cycle.length) (h : (relay cycle rounds).Reachable t)
    (P : α → Bool) :
    t.countP P = t.length / cycle.length * cycle.countP P +
      (cycle.take (t.length % cycle.length)).countP P := by
  calc t.countP P
      = (repeated cycle (t.length / cycle.length) ++
          cycle.take (t.length % cycle.length)).countP P := by rw [← relay_eq_take hpos h]
    _ = _ := by rw [List.countP_append, countP_repeated]

end Akbench
