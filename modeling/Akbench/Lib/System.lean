/-
  Akbench.Lib.System
  ──────────────────
  **TRANSITION SYSTEMS WITH AN EXECUTABLE STEP.**

  A `System σ α` is an initial-state predicate and a partial step function:
  `step s a` is the state after action `a`, or `none` when `a` is not enabled
  in `s` (the party that would take it is blocked, or is elsewhere).  Every
  interleaving of the parties is a list of actions, so a statement about all
  runs is a statement about all action lists.

    • `Steps ok` / `ReachableVia ok` — runs all of whose steps meet `ok`
      (`Reachable` is the case without a condition);
    • `invariantVia` — the induction every safety theorem uses, packaged once;
    • `CanProgress` — some enabled action CHANGES the state.  A failed poll is
      an enabled action that leaves the state as it was, so `CanProgress` is
      "some party has an enabled step other than a failed poll";
    • `exec` — replay of a concrete schedule, for witnesses;
    • `restrict` — the system of the steps that meet `ok`, to replay those;
    • `reachable_map` — a step-by-step simulation carries reachability over;
    • `simulates` — the same, where the invariant of the simulated system is
      at hand while one's own is proved.
-/
import Mathlib.Logic.Basic

namespace Akbench

/-- A transition system: where runs start, and what one action does. -/
structure System (σ α : Type*) where
  init : σ → Prop
  step : σ → α → Option σ

namespace System

variable {σ α τ β : Type*} {S : System σ α}

/-! ## §1. Runs. -/

/-- A run from one state to another, every step of which meets `ok`. -/
inductive Steps (S : System σ α) (ok : σ → α → Prop) : σ → σ → Prop where
  | refl (s : σ) : Steps S ok s s
  | tail {s t u : σ} {a : α} :
      Steps S ok s t → ok t a → S.step t a = some u → Steps S ok s u

/-- Reached from an initial state by a run whose steps meet `ok`. -/
def ReachableVia (S : System σ α) (ok : σ → α → Prop) (s : σ) : Prop :=
  ∃ s₀, S.init s₀ ∧ S.Steps ok s₀ s

/-- Reached by some run, whatever the interleaving. -/
abbrev Reachable (S : System σ α) (s : σ) : Prop :=
  S.ReachableVia (fun _ _ => True) s

/-- Some enabled action changes the state. -/
def CanProgress (S : System σ α) (s : σ) : Prop :=
  ∃ a s', S.step s a = some s' ∧ s' ≠ s

/-- A step that changes a part of the state is progress. -/
theorem CanProgress.of_step {γ : Type*} {f : σ → γ} {s s' : σ} {a : α}
    (hs : S.step s a = some s') (hne : f s' ≠ f s) : S.CanProgress s := by
  refine ⟨a, s', hs, ?_⟩
  intro heq
  rw [heq] at hne
  exact hne rfl

/-- So is a step that changes it either way. -/
theorem CanProgress.of_branch {γ : Type*} {f : σ → γ} {p : Prop} [Decidable p] {s t u : σ} {a : α}
    (hs : S.step s a = if p then some t else some u) (ht : f t ≠ f s) (hu : f u ≠ f s) :
    S.CanProgress s := by
  by_cases hp : p
  · rw [if_pos hp] at hs
    exact .of_step hs ht
  · rw [if_neg hp] at hs
    exact .of_step hs hu

/-- Where no action is enabled there is none. -/
theorem not_canProgress {s : σ} (h : ∀ a, S.step s a = none) : ¬ S.CanProgress s := by
  rintro ⟨a, s', hs, _⟩
  rw [h a] at hs
  cases hs

theorem Steps.trans {ok : σ → α → Prop} {s t u : σ}
    (hst : S.Steps ok s t) (htu : S.Steps ok t u) : S.Steps ok s u := by
  induction htu with
  | refl => exact hst
  | tail _ hok hstep ih => exact ih.tail hok hstep

theorem Steps.mono {ok ok' : σ → α → Prop} {s t : σ}
    (h : S.Steps ok s t) (hle : ∀ s a, ok s a → ok' s a) : S.Steps ok' s t := by
  induction h with
  | refl => exact .refl _
  | tail _ hok hstep ih => exact ih.tail (hle _ _ hok) hstep

theorem Steps.single {s t : σ} {a : α} (h : S.step s a = some t) :
    S.Steps (fun _ _ => True) s t :=
  (Steps.refl s).tail trivial h

theorem ReachableVia.of_init {ok : σ → α → Prop} {s : σ} (h : S.init s) :
    S.ReachableVia ok s :=
  ⟨s, h, .refl s⟩

theorem ReachableVia.tail {ok : σ → α → Prop} {s t : σ} {a : α}
    (h : S.ReachableVia ok s) (hok : ok s a) (hstep : S.step s a = some t) :
    S.ReachableVia ok t := by
  obtain ⟨s₀, hinit, hrun⟩ := h
  exact ⟨s₀, hinit, hrun.tail hok hstep⟩

theorem ReachableVia.steps {ok : σ → α → Prop} {s t : σ}
    (h : S.ReachableVia ok s) (hst : S.Steps ok s t) : S.ReachableVia ok t := by
  obtain ⟨s₀, hinit, hrun⟩ := h
  exact ⟨s₀, hinit, hrun.trans hst⟩

theorem ReachableVia.reachable {ok : σ → α → Prop} {s : σ}
    (h : S.ReachableVia ok s) : S.Reachable s := by
  obtain ⟨s₀, hinit, hrun⟩ := h
  exact ⟨s₀, hinit, hrun.mono fun _ _ _ => trivial⟩

/-- Where a step leads that branches on `p`. -/
theorem branch_cases {p : Prop} [Decidable p] {s t u : σ}
    (hs : (if p then some s else some t) = some u) : (p ∧ u = s) ∨ (¬ p ∧ u = t) := by
  split at hs
  next hp =>
    injection hs with hs
    exact .inl ⟨hp, hs.symm⟩
  next hp =>
    injection hs with hs
    exact .inr ⟨hp, hs.symm⟩

/-- It leads somewhere. -/
theorem branch_ne_none {p : Prop} [Decidable p] {s t : σ} :
    (if p then some s else some t) ≠ none := by
  split
  next => nofun
  next => nofun

/-- Where a step leads that waits for `p`. -/
theorem guard_cases {p : Prop} [Decidable p] {s u : σ}
    (hs : (if p then some s else none) = some u) : p ∧ u = s := by
  split at hs
  next hp =>
    injection hs with hs
    exact ⟨hp, hs.symm⟩
  next => cases hs

/-! ## §2. The invariant rule. -/

/-- **The invariant rule.**  What holds initially and is preserved by every
step that meets `ok` holds of everything such runs reach. -/
theorem invariantVia {ok : σ → α → Prop} {I : σ → Prop}
    (hinit : ∀ s, S.init s → I s)
    (hstep : ∀ s a s', I s → ok s a → S.step s a = some s' → I s')
    {s : σ} (h : S.ReachableVia ok s) : I s := by
  obtain ⟨s₀, hs₀, hrun⟩ := h
  induction hrun with
  | refl => exact hinit _ hs₀
  | tail _ hok hs ih => exact hstep _ _ _ ih hok hs

/-- The invariant rule for unconditioned runs. -/
theorem invariant {I : σ → Prop}
    (hinit : ∀ s, S.init s → I s)
    (hstep : ∀ s a s', I s → S.step s a = some s' → I s')
    {s : σ} (h : S.Reachable s) : I s :=
  invariantVia hinit (fun s a s' hI _ hs => hstep s a s' hI hs) h

/-- What every step preserves along a run, from any state it holds in. -/
theorem Steps.preserves {ok : σ → α → Prop} {I : σ → Prop}
    (hstep : ∀ s a s', I s → S.step s a = some s' → I s')
    {s t : σ} (h : S.Steps ok s t) (hs : I s) : I t := by
  induction h with
  | refl => exact hs
  | tail _ _ hst ih => exact hstep _ _ _ ih hst

/-! ## §3. Replaying a schedule. -/

/-- Replay a schedule; `none` as soon as an action is not enabled. -/
def exec (S : System σ α) : σ → List α → Option σ
  | s, [] => some s
  | s, a :: as =>
      match S.step s a with
      | some t => S.exec t as
      | none => none

/-- A replayed schedule is a run. -/
theorem steps_of_exec :
    ∀ (as : List α) {s t : σ}, S.exec s as = some t → S.Steps (fun _ _ => True) s t := by
  intro as
  induction as with
  | nil =>
      intro s t h
      injection h with h
      subst h
      exact .refl s
  | cons a as ih =>
      intro s t h
      simp only [exec] at h
      cases hs : S.step s a with
      | none => simp [hs] at h
      | some u =>
          simp only [hs] at h
          exact (Steps.single hs).trans (ih h)

theorem reachable_of_exec {s t : σ} (as : List α) (hinit : S.init s)
    (h : S.exec s as = some t) : S.Reachable t :=
  ⟨s, hinit, steps_of_exec as h⟩

/-- A schedule whose replay ends in a state with `P`. -/
theorem exists_reachable_of_exec {s : σ} {P : σ → Prop} [DecidablePred P] (as : List α)
    (hinit : S.init s) (h : (S.exec s as).any (fun t => decide (P t)) = true) :
    ∃ t, S.Reachable t ∧ P t := by
  cases hs : S.exec s as with
  | none =>
      rw [hs] at h
      cases h
  | some t =>
      rw [hs] at h
      exact ⟨t, reachable_of_exec as hinit hs, of_decide_eq_true h⟩

/-- The steps that meet `ok`, and no others. -/
def restrict (S : System σ α) (ok : σ → α → Prop) [∀ s a, Decidable (ok s a)] : System σ α where
  init := S.init
  step s a := if ok s a then S.step s a else none

/-- What they reach is reached by a run that meets `ok`. -/
theorem ReachableVia.of_restrict {ok : σ → α → Prop} [∀ s a, Decidable (ok s a)] {s : σ}
    (h : (S.restrict ok).Reachable s) : S.ReachableVia ok s := by
  obtain ⟨s₀, hinit, hrun⟩ := h
  refine ⟨s₀, hinit, ?_⟩
  induction hrun with
  | refl => exact .refl _
  | @tail t u a _ _ hs ih =>
      change (if ok t a then S.step t a else none) = some u at hs
      split at hs
      next hok => exact ih.tail hok hs
      next => cases hs

/-! ## §4. Simulation. -/

/-- **Simulation.**  If every step of `S` from an `I`-state is matched, under
the view `f`, by a run of `T`, then reachable states map to reachable
states. -/
theorem reachable_map {T : System τ β} {I : σ → Prop} (f : σ → τ)
    (hI : ∀ s, S.Reachable s → I s)
    (hinit : ∀ s, S.init s → T.init (f s))
    (hstep : ∀ s a s', I s → S.step s a = some s' →
      T.Steps (fun _ _ => True) (f s) (f s'))
    {s : σ} (h : S.Reachable s) : T.Reachable (f s) := by
  obtain ⟨s₀, hs₀, hrun⟩ := h
  induction hrun with
  | refl => exact .of_init (hinit _ hs₀)
  | tail hprev _ hs ih => exact ih.steps (hstep _ _ _ (hI _ ⟨s₀, hs₀, hprev⟩) hs)

/-- **Simulation with an invariant of one's own.**  A step may use that the
view of its state is reachable in `T`, hence every invariant of `T`. -/
theorem simulates {T : System τ β} {I : σ → Prop} (f : σ → τ)
    (hinit : ∀ s, S.init s → I s ∧ T.init (f s))
    (hstep : ∀ s a s', I s → T.Reachable (f s) → S.step s a = some s' →
      I s' ∧ T.Steps (fun _ _ => True) (f s) (f s'))
    {s : σ} (h : S.Reachable s) : I s ∧ T.Reachable (f s) := by
  refine invariant (I := fun t => I t ∧ T.Reachable (f t)) ?_ ?_ h
  · intro t ht
    obtain ⟨hI, hT⟩ := hinit t ht
    exact ⟨hI, .of_init hT⟩
  · intro t a t' ih hs
    obtain ⟨hI, hrun⟩ := hstep t a t' ih.1 ih.2 hs
    exact ⟨hI, ih.2.steps hrun⟩

end System

end Akbench
