/-
  Akbench.Lib.Termination
  ───────────────────────
  **FAIR RUNS OF A TERMINATING SYSTEM COME TO THEIR END.**

  A `Behaviour` is an infinite run, with moments at which nobody moves; it is
  `WeaklyFair` when every party that could change the state at every moment
  from some point on does so at some later moment.  A failed poll changes
  nothing, so fairness never counts it as the party's turn.

    • `Ranked` — every step that changes the state lowers a rank;
    • `Behaviour.settles` — a ranked system has no livelock: every behaviour,
      fair or not, changes its state finitely often;
    • `Behaviour.terminates` — if, besides, some party can move on in every
      reachable state short of the goal, a weakly fair behaviour reaches the
      goal and stays there;
    • `Behaviour.rest` — what comes behind a moment, as a behaviour;
    • `exists_weaklyFair` — a ranked system has a fair behaviour from each of
      its initial states: always take a step that changes something;
    • `Behaviour.ofSchedule`, `weaklyFair_of_ended` — a finite schedule as a
      behaviour, for witnesses.
-/
import Akbench.Lib.System
import Mathlib.Algebra.BigOperators.Group.Finset.Basic
import Mathlib.Algebra.Order.BigOperators.Group.Finset

namespace Akbench

namespace System

variable {σ α β ι : Type*} {S : System σ α}

/-! ## §1. Infinite runs and fairness. -/

/-- An infinite run; a moment at which nobody moves repeats the state. -/
structure Behaviour (S : System σ α) where
  state : Nat → σ
  start : S.init (state 0)
  next : ∀ i, state (i + 1) = state i ∨ ∃ a, S.step (state i) a = some (state (i + 1))

/-- Party `p` takes `s` to another state `s'`. -/
def Moves (S : System σ α) (owner : α → ι) (p : ι) (s s' : σ) : Prop :=
  ∃ a, owner a = p ∧ S.step s a = some s' ∧ s' ≠ s

/-- A party that could move at every moment from some point on moves at some
later moment. -/
def Behaviour.WeaklyFair (r : S.Behaviour) (owner : α → ι) : Prop :=
  ∀ p i, (∀ j, i ≤ j → ∃ s', S.Moves owner p (r.state j) s') →
    ∃ j, i ≤ j ∧ S.Moves owner p (r.state j) (r.state (j + 1))

theorem Behaviour.reachable (r : S.Behaviour) (i : Nat) : S.Reachable (r.state i) := by
  induction i with
  | zero => exact .of_init r.start
  | succ i ih =>
      rcases r.next i with hsame | ⟨a, ha⟩
      · rw [hsame]
        exact ih
      · exact ih.tail trivial ha

/-! ## §2. Ranks. -/

/-- Every step that changes a reachable state lowers its rank. -/
def Ranked (S : System σ α) (rank : σ → Nat) : Prop :=
  ∀ s a s', S.Reachable s → S.step s a = some s' → s' ≠ s → rank s' < rank s

variable {rank : σ → Nat} {r : S.Behaviour}

theorem Ranked.step_le (h : S.Ranked rank) (r : S.Behaviour) (i : Nat) :
    rank (r.state (i + 1)) ≤ rank (r.state i) := by
  by_cases hsame : r.state (i + 1) = r.state i
  · rw [hsame]
  · rcases r.next i with heq | ⟨a, ha⟩
    · exact absurd heq hsame
    · exact Nat.le_of_lt (h _ a _ (r.reachable i) ha hsame)

theorem Ranked.le_of_le (h : S.Ranked rank) (r : S.Behaviour) {i j : Nat} (hij : i ≤ j) :
    rank (r.state j) ≤ rank (r.state i) := by
  induction hij with
  | refl => exact Nat.le_refl _
  | step _ ih => exact Nat.le_trans (h.step_le r _) ih

/-- A state that is never left again. -/
theorem Behaviour.constant_of (r : S.Behaviour) {i : Nat}
    (h : ∀ j, i ≤ j → r.state (j + 1) = r.state j) {j : Nat} (hij : i ≤ j) :
    r.state j = r.state i := by
  induction hij with
  | refl => rfl
  | step hle ih => exact (h _ hle).trans ih

/-- **No livelock.**  A behaviour of a ranked system changes its state only
finitely often. -/
theorem Behaviour.settles (h : S.Ranked rank) (r : S.Behaviour) :
    ∃ i, ∀ j, i ≤ j → r.state j = r.state i := by
  -- induction on the rank that is left
  have hfrom : ∀ m i, rank (r.state i) ≤ m → ∃ k, ∀ j, k ≤ j → r.state j = r.state k := by
    intro m
    induction m with
    | zero =>
        intro i hi
        refine ⟨i, fun j hij => r.constant_of (fun k hik => ?_) hij⟩
        by_contra hne
        rcases r.next k with heq | ⟨a, ha⟩
        · exact hne heq
        · have hlt := h _ a _ (r.reachable k) ha hne
          have hle := h.le_of_le r hik
          omega
    | succ m ih =>
        intro i hi
        by_cases hall : ∀ j, i ≤ j → r.state (j + 1) = r.state j
        · exact ⟨i, fun j hij => r.constant_of hall hij⟩
        · push Not at hall
          obtain ⟨j, hij, hne⟩ := hall
          rcases r.next j with heq | ⟨a, ha⟩
          · exact absurd heq hne
          · have hlt := h _ a _ (r.reachable j) ha hne
            have hle := h.le_of_le r hij
            exact ih (j + 1) (by omega)
  exact hfrom _ 0 (Nat.le_refl _)

/-! ## §3. Termination. -/

/-- **Fair runs reach the goal.**  In a ranked system in which some party can
move on in every reachable state short of the goal, every weakly fair
behaviour comes to a goal state and stays in it. -/
theorem Behaviour.terminates {owner : α → ι} {G : σ → Prop} (h : S.Ranked rank)
    (hgoal : ∀ s, S.Reachable s → ¬ G s → S.CanProgress s) (r : S.Behaviour)
    (hfair : r.WeaklyFair owner) :
    ∃ i, G (r.state i) ∧ ∀ j, i ≤ j → r.state j = r.state i := by
  obtain ⟨i, hi⟩ := r.settles h
  refine ⟨i, ?_, hi⟩
  by_contra hshort
  obtain ⟨a, s', hs, hne⟩ := hgoal _ (r.reachable i) hshort
  -- the owner of that step could take it for ever, and never does
  have henabled : ∀ j, i ≤ j → ∃ t, S.Moves owner (owner a) (r.state j) t := by
    intro j hij
    rw [hi j hij]
    exact ⟨s', a, rfl, hs, hne⟩
  obtain ⟨j, hij, b, _, _, hmoved⟩ := hfair (owner a) i henabled
  apply hmoved
  rw [hi j hij, hi (j + 1) (Nat.le_succ_of_le hij)]

/-- What is left of a behaviour from moment `i` on, as a behaviour of a system
that can begin there and makes the same steps from there on. -/
def Behaviour.rest {T : System σ β} (r : S.Behaviour) (i : Nat) (hinit : T.init (r.state i))
    (hnext : ∀ j, i ≤ j → r.state (j + 1) = r.state j ∨
      ∃ a, T.step (r.state j) a = some (r.state (j + 1))) : T.Behaviour where
  state j := r.state (i + j)
  start := hinit
  next j := hnext (i + j) (Nat.le_add_right i j)

/-- It is fair if no party of that system is passed over in the whole. -/
theorem Behaviour.weaklyFair_rest {T : System σ β} {owner : β → ι} {i : Nat}
    {hinit : T.init (r.state i)} {hnext : ∀ j, i ≤ j → r.state (j + 1) = r.state j ∨
      ∃ a, T.step (r.state j) a = some (r.state (j + 1))}
    (hfair : ∀ p k, (∀ j, k ≤ j → ∃ s', T.Moves owner p (r.state j) s') →
      ∃ j, k ≤ j ∧ T.Moves owner p (r.state j) (r.state (j + 1))) :
    (r.rest i hinit hnext).WeaklyFair owner := by
  intro p k henabled
  have hwhole : ∀ j, i + k ≤ j → ∃ s', T.Moves owner p (r.state j) s' := by
    intro j hj
    obtain ⟨m, rfl⟩ := Nat.exists_eq_add_of_le hj
    rw [Nat.add_assoc]
    exact henabled (k + m) (Nat.le_add_right k m)
  obtain ⟨j, hj, hmoves⟩ := hfair p (i + k) hwhole
  obtain ⟨m, rfl⟩ := Nat.exists_eq_add_of_le hj
  rw [Nat.add_assoc] at hmoves
  exact ⟨k + m, Nat.le_add_right k m, hmoves⟩

/-! ## §4. Fair behaviours exist. -/

open Classical in
/-- A step that changes the state, where there is one. -/
noncomputable def advance (S : System σ α) (s : σ) : σ :=
  if h : S.CanProgress s then h.choose_spec.choose else s

theorem advance_eq (S : System σ α) (s : σ) :
    S.advance s = s ∨ ∃ a, S.step s a = some (S.advance s) := by
  unfold advance
  split
  next h => exact .inr ⟨h.choose, h.choose_spec.choose_spec.1⟩
  next => exact .inl rfl

theorem advance_ne {s : σ} (h : S.CanProgress s) : S.advance s ≠ s := by
  unfold advance
  rw [dif_pos h]
  exact h.choose_spec.choose_spec.2

/-- Always advance. -/
noncomputable def Behaviour.busy {s : σ} (hinit : S.init s) : S.Behaviour where
  state i := S.advance^[i] s
  start := hinit
  next i := by
    rw [Function.iterate_succ_apply']
    exact S.advance_eq _

/-- **A ranked system has a weakly fair behaviour from each initial state.** -/
theorem exists_weaklyFair {s : σ} (h : S.Ranked rank) (hinit : S.init s) (owner : α → ι) :
    ∃ r : S.Behaviour, r.state 0 = s ∧ r.WeaklyFair owner := by
  refine ⟨Behaviour.busy hinit, rfl, ?_⟩
  intro p i henabled
  exfalso
  obtain ⟨k, hk⟩ := (Behaviour.busy hinit).settles h
  -- where the behaviour has settled nobody can move any more
  obtain ⟨s', a, _, hs, hne⟩ := henabled (i + k) (Nat.le_add_right i k)
  apply advance_ne ⟨a, s', hs, hne⟩
  have hnext := hk (i + k + 1) (by omega)
  have hhere := hk (i + k) (by omega)
  rw [← hhere] at hnext
  have hunfold : (Behaviour.busy hinit).state (i + k + 1) =
      S.advance ((Behaviour.busy hinit).state (i + k)) :=
    Function.iterate_succ_apply' _ _ _
  rw [← hunfold]
  exact hnext

/-! ## §5. Schedules as behaviours. -/

theorem exec_append (s : σ) (as bs : List α) :
    S.exec s (as ++ bs) = (S.exec s as).bind fun t => S.exec t bs := by
  induction as generalizing s with
  | nil => rfl
  | cons a as ih =>
      simp only [List.cons_append, exec]
      cases S.step s a with
      | none => rfl
      | some t => exact ih t

theorem exec_single {s : σ} {a : α} : S.exec s [a] = S.step s a := by
  simp only [exec]
  cases S.step s a <;> rfl

/-- A replayed schedule can be replayed in part. -/
theorem exec_take {s t : σ} {as : List α} (h : S.exec s as = some t) (i : Nat) :
    ∃ u, S.exec s (as.take i) = some u := by
  rw [← List.take_append_drop i as, exec_append] at h
  cases hu : S.exec s (as.take i) with
  | none => simp [hu] at h
  | some u => exact ⟨u, rfl⟩

/-- The state after the first `i` steps of a schedule. -/
def after (S : System σ α) (s : σ) (as : List α) (i : Nat) : σ := (S.exec s (as.take i)).getD s

theorem after_succ {s t : σ} {as : List α} (h : S.exec s as = some t) (i : Nat) :
    S.after s as (i + 1) = S.after s as i ∨
      ∃ a, S.step (S.after s as i) a = some (S.after s as (i + 1)) := by
  obtain ⟨u, hu⟩ := exec_take h i
  by_cases hi : i < as.length
  · right
    have hsplit : as.take (i + 1) = as.take i ++ [as[i]] := (List.take_concat_get' as i hi).symm
    obtain ⟨v, hv⟩ := exec_take h (i + 1)
    refine ⟨as[i], ?_⟩
    rw [after, after, hu, hv, Option.getD_some, Option.getD_some]
    rw [hsplit, exec_append, hu, Option.bind_some, exec_single] at hv
    exact hv
  · left
    rw [after, after, List.take_of_length_le (by omega), List.take_of_length_le (by omega)]

/-- A finite schedule, followed by silence. -/
def Behaviour.ofSchedule {s t : σ} (as : List α) (hinit : S.init s)
    (h : S.exec s as = some t) : S.Behaviour :=
  ⟨S.after s as, hinit, after_succ h⟩

theorem Behaviour.ofSchedule_state {s t : σ} {as : List α} (hinit : S.init s)
    (h : S.exec s as = some t) {i : Nat} (hi : as.length ≤ i) :
    (Behaviour.ofSchedule as hinit h).state i = t := by
  show (S.exec s (as.take i)).getD s = t
  rw [List.take_of_length_le hi, h]
  rfl

/-- A schedule after which nobody can move is fair. -/
theorem Behaviour.weaklyFair_of_ended {s t : σ} {as : List α} {owner : α → ι}
    (hinit : S.init s) (h : S.exec s as = some t) (hend : ∀ a, S.step t a = none) :
    (Behaviour.ofSchedule as hinit h).WeaklyFair owner := by
  intro p i henabled
  obtain ⟨s', a, _, hs, _⟩ := henabled (i + as.length) (Nat.le_add_right i _)
  rw [Behaviour.ofSchedule_state hinit h (Nat.le_add_left _ i), hend a] at hs
  cases hs

end System

/-! ## §6. Putting ranks together. -/

/-- A round of `length` steps, of which `left` are left, and the rounds after
it. -/
theorem next_round_lt {total round length left left' : Nat} (hround : round < total)
    (hleft : left' < length) :
    (total - (round + 1)) * length + left' < (total - round) * length + left := by
  have hsplit : total - round = (total - (round + 1)) + 1 := by omega
  rw [hsplit, Nat.add_mul, Nat.one_mul]
  omega

/-- A sum of ranks falls when one party's rank falls and no other's rises. -/
theorem sum_rank_lt {ι : Type*} [Fintype ι] {f g : ι → Nat} {p : ι} (hlt : f p < g p)
    (hother : ∀ q, q ≠ p → f q = g q) : ∑ q, f q < ∑ q, g q := by
  apply Finset.sum_lt_sum
  · intro q _
    by_cases hq : q = p
    · rw [hq]
      exact Nat.le_of_lt hlt
    · exact Nat.le_of_eq (hother q hq)
  · exact ⟨p, Finset.mem_univ p, hlt⟩

end Akbench
