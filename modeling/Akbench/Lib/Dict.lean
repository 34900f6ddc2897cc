/-
  Akbench.Lib.Dict
  ────────────────
  **DICTIONARIES, SORTED SETS AND PARTIAL MAPS OF LISTS.**

  A list of entries is read as a dictionary by letting the last of several
  entries with one key count, as when they are entered one after the other.  A
  list of keys is read as a set by sorting it without repetition.  Neither
  depends on the order of the list, the first as long as no key is repeated.

    • `get` — the value at a key;
    • `sortedSet` — the keys in increasing order, each once;
    • `mapM_eq_some_iff` — a list is mapped if each of its elements is.
-/
import Mathlib.Data.List.Dedup
import Mathlib.Data.List.Forall2
import Mathlib.Data.List.Perm.Basic
import Mathlib.Data.List.Sort
import Mathlib.Data.Option.Basic
import Mathlib.Order.Defs.LinearOrder

namespace Akbench.Dict

variable {κ α β : Type*}

/-! ## §1. Dictionaries. -/

section

variable [DecidableEq κ] {entries entries' : List (κ × α)} {key : κ} {v : α}

/-- The value at a key. -/
def get (entries : List (κ × α)) (key : κ) : Option α := entries.reverse.lookup key

theorem get_eq_none_iff : get entries key = none ↔ key ∉ entries.map Prod.fst := by
  unfold get
  rw [List.lookup_eq_none_iff]
  simp only [List.mem_reverse, List.mem_map, not_exists, not_and, bne_iff_ne, ne_comm]

theorem mem_of_get (h : get entries key = some v) : (key, v) ∈ entries := by
  unfold get at h
  rw [List.lookup_eq_some_iff] at h
  obtain ⟨before, after, heq, _⟩ := h
  rw [← List.mem_reverse, heq]
  exact List.mem_append_right _ List.mem_cons_self

/-- **Without repetition** the dictionary is the list. -/
theorem get_eq_some_iff (hnodup : (entries.map Prod.fst).Nodup) :
    get entries key = some v ↔ (key, v) ∈ entries := by
  constructor
  · exact mem_of_get
  · intro hmem
    cases hget : get entries key with
    | none =>
        rw [get_eq_none_iff] at hget
        exact absurd (List.mem_map_of_mem (f := Prod.fst) hmem) hget
    | some w =>
        -- two entries with one key are one entry
        have hsame : (key, w) = (key, v) :=
          List.inj_on_of_nodup_map hnodup (mem_of_get hget) hmem rfl
        injection hsame with _ hsame
        rw [hsame]

/-- **The order of the entries is immaterial.** -/
theorem get_perm (h : entries.Perm entries') (hnodup : (entries.map Prod.fst).Nodup) :
    get entries key = get entries' key := by
  have hnodup' : (entries'.map Prod.fst).Nodup := (h.map Prod.fst).nodup_iff.mp hnodup
  ext w
  rw [get_eq_some_iff hnodup, get_eq_some_iff hnodup', h.mem_iff]

theorem lookup_forall₂ {R : κ → α → β → Prop} {l : List (κ × α)} {l' : List (κ × β)}
    (h : List.Forall₂ (fun e e' => e.1 = e'.1 ∧ R e.1 e.2 e'.2) l l') (key : κ) :
    Option.Rel (R key) (l.lookup key) (l'.lookup key) := by
  induction h with
  | nil => exact .none
  | @cons e e' rest rest' hhead _ ih =>
      obtain ⟨k, a⟩ := e
      obtain ⟨k', b⟩ := e'
      obtain ⟨heq, hR⟩ := hhead
      dsimp only at heq
      subst heq
      rw [List.lookup_cons, List.lookup_cons]
      by_cases hkey : key = k
      · rw [hkey, beq_self_eq_true]
        exact .some hR
      · rw [beq_eq_false_iff_ne.mpr hkey]
        exact ih

/-- **Dictionaries that agree entry by entry** agree at every key. -/
theorem get_forall₂ {R : κ → α → β → Prop} {entries' : List (κ × β)}
    (h : List.Forall₂ (fun e e' => e.1 = e'.1 ∧ R e.1 e.2 e'.2) entries entries') (key : κ) :
    Option.Rel (R key) (get entries key) (get entries' key) :=
  lookup_forall₂ (List.forall₂_reverse_iff.mpr h) key

end

/-! ## §2. Sorted sets. -/

section

variable [LinearOrder κ] {keys keys' : List κ} {key : κ}

/-- The keys in increasing order, each once. -/
def sortedSet (keys : List κ) : List κ := keys.dedup.insertionSort (· ≤ ·)

@[simp] theorem mem_sortedSet : key ∈ sortedSet keys ↔ key ∈ keys := by
  unfold sortedSet
  rw [List.mem_insertionSort, List.mem_dedup]

theorem nodup_sortedSet (keys : List κ) : (sortedSet keys).Nodup :=
  (List.perm_insertionSort _ _).nodup_iff.mpr keys.nodup_dedup

/-- **A sorted set is determined by its members.** -/
theorem sortedSet_congr (h : ∀ key, key ∈ keys ↔ key ∈ keys') :
    sortedSet keys = sortedSet keys' := by
  have hperm : (sortedSet keys).Perm (sortedSet keys') := by
    rw [List.perm_ext_iff_of_nodup (nodup_sortedSet keys) (nodup_sortedSet keys')]
    simpa using h
  exact hperm.eq_of_pairwise' (List.pairwise_insertionSort _ _) (List.pairwise_insertionSort _ _)

/-- Sorting once more changes nothing. -/
theorem insertionSort_sortedSet (keys : List κ) :
    (sortedSet keys).insertionSort (· ≤ ·) = sortedSet keys :=
  (List.pairwise_insertionSort _ _).insertionSort_eq

/-- Keys without repetition need only be sorted. -/
theorem sortedSet_of_nodup (h : keys.Nodup) : sortedSet keys = keys.insertionSort (· ≤ ·) := by
  unfold sortedSet
  rw [h.dedup]

end

/-! ## §3. Partial maps. -/

section

variable {f : α → Option β} {l l' : List α} {r : List β}

/-- **A list is mapped element by element.** -/
theorem mapM_eq_some_iff : l.mapM f = some r ↔ List.Forall₂ (fun a b => f a = some b) l r := by
  induction l generalizing r with
  | nil => simp [eq_comm]
  | cons a l ih =>
      rw [List.mapM_cons, List.forall₂_cons_left_iff]
      simp only [Option.bind_eq_bind, Option.bind_eq_some_iff, Option.pure_def, Option.some_inj,
        ih]
      constructor
      · rintro ⟨b, hb, r', hr', rfl⟩
        exact ⟨b, r', hb, hr', rfl⟩
      · rintro ⟨b, r', hb, hr', rfl⟩
        exact ⟨b, hb, r', hr', rfl⟩

theorem mapM_eq_none_iff : l.mapM f = none ↔ ∃ a, a ∈ l ∧ f a = none := by
  induction l with
  | nil => simp
  | cons a l ih =>
      rw [List.mapM_cons, List.exists_mem_cons_iff, ← ih]
      cases f a with
      | none => simp
      | some b => cases l.mapM f <;> simp

/-- What is mapped from an element is where that element is. -/
theorem getElem?_of_forall₂ {R : α → β → Prop} (h : List.Forall₂ R l r) {i : Nat} {b : β}
    (hi : r[i]? = some b) : ∃ a, l[i]? = some a ∧ R a b := by
  induction h generalizing i with
  | nil => cases hi
  | @cons a b' l r hhead _ ih =>
      cases i with
      | zero =>
          rw [List.getElem?_cons_zero, Option.some_inj] at hi
          exact ⟨a, rfl, hi ▸ hhead⟩
      | succ i => exact ih hi

theorem exists_of_mem_left {R : α → β → Prop} (h : List.Forall₂ R l r) {a : α} (ha : a ∈ l) :
    ∃ b, b ∈ r ∧ R a b := by
  induction h with
  | nil => cases ha
  | @cons a' b l r hhead _ ih =>
      rcases List.mem_cons.mp ha with rfl | ha
      · exact ⟨b, List.mem_cons_self, hhead⟩
      · obtain ⟨b', hb', hR⟩ := ih ha
        exact ⟨b', List.mem_cons_of_mem b hb', hR⟩

/-- A list is mapped if each of its elements can be. -/
theorem exists_mapM (h : ∀ a, a ∈ l → ∃ b, f a = some b) : ∃ r, l.mapM f = some r := by
  cases hr : l.mapM f with
  | none =>
      obtain ⟨a, ha, hnone⟩ := mapM_eq_none_iff.mp hr
      obtain ⟨b, hb⟩ := h a ha
      rw [hnone] at hb
      cases hb
  | some r => exact ⟨r, rfl⟩

/-- **Mapping commutes with reordering.** -/
theorem mapM_perm (hperm : l.Perm l') (h : l.mapM f = some r) :
    ∃ r', l'.mapM f = some r' ∧ r.Perm r' := by
  obtain ⟨r', hr', hperm'⟩ := List.perm_comp_forall₂ hperm.symm (mapM_eq_some_iff.mp h)
  exact ⟨r', mapM_eq_some_iff.mpr hr', hperm'.symm⟩

end

end Akbench.Dict
