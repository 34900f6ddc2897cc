/-
  Akbench.Lib.Sections
  ────────────────────
  **SECTIONS OF ACCESSES UNDER ONE SEMAPHORE.**

  A protocol is proved with each of its critical sections as one step; the
  program makes one access to shared memory after the other, between a
  `sem_wait` and a `sem_post` of a semaphore that was created with 1, and
  everything else goes on meanwhile.  `Sections` is such a program, `byAccess`
  its system with an access for each step.

    • `reachable_views` — **at most one party is inside, and with its section
      completed the state is one the protocol reaches**;
    • `byAccess_progress` — nobody is kept waiting by the semaphore alone;
    • `byAccess_of_reachable` — conversely, whatever the protocol reaches the
      program reaches, with nobody inside;
    • `Views.steps` — and from wherever it is, the program gets to every next
      step of the protocol.
-/
import Akbench.Lib.System
import Mathlib.Logic.Function.Basic
import Mathlib.Data.List.Infix

namespace Akbench

/-! ## §1. Programs with sections. -/

/-- A program of parties `ι` over `σ`, with registers `ρ` and sections `κ` of
accesses `α`. -/
structure Sections (ι σ ρ κ α : Type*) where
  /-- The program with each section as one step. -/
  whole : System σ ι
  /-- The section a party enters with its next step, if that is one. -/
  enter : σ → ι → Option κ
  body : κ → List α
  registers : ρ
  perform : ι → α → σ × ρ → σ × ρ
  /-- On from `sem_post`, by what the registers hold. -/
  leave : ι → κ → σ × ρ → σ

namespace Sections

variable {ι σ ρ κ α : Type*} [DecidableEq ι]

/-- A party inside of a section. -/
structure Inside (ρ κ α : Type*) where
  place : κ
  /-- The accesses it still has to make. -/
  rest : List α
  registers : ρ

structure State (ι σ ρ κ α : Type*) where
  shared : σ
  /-- The value of the semaphore. -/
  sem : Nat
  inside : ι → Option (Inside ρ κ α)

variable {P : Sections ι σ ρ κ α} {x x' : State ι σ ρ κ α} {s s' v v' : σ} {p q : ι} {k : κ}
  {rest : List α}

/-- `p` makes the accesses `rest` and leaves its section. -/
def complete (P : Sections ι σ ρ κ α) (p : ι) (k : κ) (rest : List α) (m : σ × ρ) : σ :=
  P.leave p k (rest.foldl (fun m a => P.perform p a m) m)

/-- **The program with an access for each step.** -/
def byAccess (P : Sections ι σ ρ κ α) : System (State ι σ ρ κ α) ι where
  init x := P.whole.init x.shared ∧ x.sem = 1 ∧ ∀ p, x.inside p = none
  step x p :=
    match x.inside p with
    | some ⟨k, a :: rest, r⟩ =>
        let m := P.perform p a (x.shared, r)
        some { x with shared := m.1, inside := Function.update x.inside p (some ⟨k, rest, m.2⟩) }
    | some ⟨k, [], r⟩ =>
        -- `sem_post`
        some {
          shared := P.leave p k (x.shared, r)
          sem := x.sem + 1
          inside := Function.update x.inside p none }
    | none =>
        match P.enter x.shared p with
        | some k =>
            -- `sem_wait`
            if 0 < x.sem then
              some { x with
                sem := x.sem - 1
                inside := Function.update x.inside p (some ⟨k, P.body k, P.registers⟩) }
            else none
        | none => (P.whole.step x.shared p).map fun s => { x with shared := s }

/-- What makes sections atomic: a section is a step of the protocol, and the
steps that take no semaphore do not interfere with one. -/
structure Lawful (P : Sections ι σ ρ κ α) : Prop where
  whole : ∀ s p k, P.enter s p = some k →
    P.whole.step s p = some (P.complete p k (P.body k) (s, P.registers))
  apart : ∀ s s' r p q k rest, q ≠ p → rest <:+ P.body k → P.enter s q = none →
    P.whole.step s q = some s' → P.whole.Reachable (P.complete p k rest (s, r)) →
    P.whole.step (P.complete p k rest (s, r)) q = some (P.complete p k rest (s', r))

/-- The state of the protocol a state of the program stands for: the section
that somebody is inside of counts as made. -/
inductive Views (P : Sections ι σ ρ κ α) (x : State ι σ ρ κ α) : σ → Prop where
  | free (hsem : x.sem = 1) (hout : ∀ p, x.inside p = none) : Views P x x.shared
  | held (p : ι) (k : κ) (rest : List α) (r : ρ) (hsem : x.sem = 0)
      (hin : x.inside p = some ⟨k, rest, r⟩) (hothers : ∀ q, q ≠ p → x.inside q = none)
      (hrest : rest <:+ P.body k) : Views P x (P.complete p k rest (x.shared, r))

/-- **Mutual exclusion.** -/
theorem Views.unique (h : Views P x v) (hp : x.inside p ≠ none) (hq : x.inside q ≠ none) :
    p = q := by
  cases h with
  | free hsem hout => exact absurd (hout p) hp
  | held h k rest r hsem hin hothers hrest =>
      have hp' : p = h := by
        by_contra hne
        exact hp (hothers p hne)
      have hq' : q = h := by
        by_contra hne
        exact hq (hothers q hne)
      rw [hp', hq']

/-- Somebody is inside: its section counts as made. -/
theorem Views.eq_complete (h : Views P x v) {r : ρ} (hin : x.inside p = some ⟨k, rest, r⟩) :
    v = P.complete p k rest (x.shared, r) ∧ rest <:+ P.body k := by
  have hp : x.inside p ≠ none := by
    rw [hin]
    nofun
  cases h with
  | free hsem hout => exact absurd (hout p) hp
  | held q j rest' r' hsem hin' hothers hrest =>
      have hqp : q = p := by
        by_contra hne
        exact hp (hothers p (Ne.symm hne))
      subst hqp
      rw [hin'] at hin
      injection hin with hin
      injection hin with hk hrest' hr
      subst hk hrest' hr
      exact ⟨rfl, hrest⟩

/-- It stands for one state only. -/
theorem Views.eq_of_views (h : Views P x v) (h' : Views P x v') : v = v' := by
  cases h with
  | free hsem hout =>
      cases h' with
      | free => rfl
      | held p k rest r hsem' => exact absurd (hsem.symm.trans hsem') Nat.one_ne_zero
  | held p k rest r hsem hin => exact (h'.eq_complete hin).1.symm

/-! ## §2. Every state of the program is one of the protocol. -/

/-- Where somebody is inside, it makes an access or leaves: the protocol has
made the step already. -/
theorem held_step {r : ρ} (hsem : x.sem = 0) (hin : x.inside p = some ⟨k, rest, r⟩)
    (hothers : ∀ q, q ≠ p → x.inside q = none) (hrest : rest <:+ P.body k)
    (hs : P.byAccess.step x p = some x') : Views P x' (P.complete p k rest (x.shared, r)) := by
  have hkept : ∀ (i : Option (Inside ρ κ α)) q, q ≠ p →
      Function.update x.inside p i q = none := by
    intro i q hq
    rw [Function.update_of_ne hq]
    exact hothers q hq
  dsimp only [byAccess] at hs
  rw [hin] at hs
  cases rest with
  | cons a rest =>
      injection hs with hs
      subst hs
      refine .held p k rest _ hsem (Function.update_self _ _ _) (hkept _) ?_
      exact (List.suffix_cons a rest).trans hrest
  | nil =>
      injection hs with hs
      subst hs
      refine .free (congrArg (· + 1) hsem) fun q => ?_
      by_cases hq : q = p
      · rw [hq]
        exact Function.update_self _ _ _
      · exact hkept _ q hq

/-- Somebody else, meanwhile, makes the same step in both. -/
theorem held_other (hP : P.Lawful) {r : ρ} (hsem : x.sem = 0)
    (hin : x.inside p = some ⟨k, rest, r⟩) (hothers : ∀ q, q ≠ p → x.inside q = none)
    (hrest : rest <:+ P.body k) (hreach : P.whole.Reachable (P.complete p k rest (x.shared, r)))
    (hq : q ≠ p) (hs : P.byAccess.step x q = some x') :
    ∃ v, Views P x' v ∧ P.whole.step (P.complete p k rest (x.shared, r)) q = some v := by
  dsimp only [byAccess] at hs
  rw [hothers q hq] at hs
  cases henter : P.enter x.shared q with
  | some j =>
      rw [henter, hsem] at hs
      cases hs
  | none =>
      rw [henter] at hs
      obtain ⟨s, hstep, rfl⟩ := Option.map_eq_some_iff.mp hs
      have hsame := hP.apart x.shared s r p q k rest hq hrest henter hstep hreach
      exact ⟨_, .held p k rest r hsem hin hothers hrest, hsame⟩

/-- With nobody inside, a step is a step of the protocol. -/
theorem free_step (hP : P.Lawful) (hsem : x.sem = 1) (hout : ∀ p, x.inside p = none)
    (hs : P.byAccess.step x p = some x') :
    ∃ v, Views P x' v ∧ P.whole.step x.shared p = some v := by
  dsimp only [byAccess] at hs
  rw [hout p] at hs
  cases henter : P.enter x.shared p with
  | some k =>
      rw [henter] at hs
      obtain ⟨_, rfl⟩ := System.guard_cases hs
      refine ⟨_, .held p k (P.body k) P.registers ?_ (Function.update_self _ _ _) (fun q hq => ?_)
        List.suffix_rfl, hP.whole _ _ _ henter⟩
      · show x.sem - 1 = 0
        rw [hsem]
      · exact (Function.update_of_ne hq _ _).trans (hout q)
  | none =>
      rw [henter] at hs
      obtain ⟨s, hstep, rfl⟩ := Option.map_eq_some_iff.mp hs
      exact ⟨s, .free hsem hout, hstep⟩

theorem Views.step (hP : P.Lawful) (h : Views P x v) (hreach : P.whole.Reachable v)
    (hs : P.byAccess.step x q = some x') : ∃ v', Views P x' v' ∧ P.whole.Reachable v' := by
  cases h with
  | free hsem hout =>
      obtain ⟨v', hviews', hstep⟩ := free_step hP hsem hout hs
      exact ⟨v', hviews', hreach.tail trivial hstep⟩
  | held p k rest r hsem hin hothers hrest =>
      by_cases hq : q = p
      · subst hq
        exact ⟨_, held_step hsem hin hothers hrest hs, hreach⟩
      · obtain ⟨v', hviews', hstep⟩ := held_other hP hsem hin hothers hrest hreach hq hs
        exact ⟨v', hviews', hreach.tail trivial hstep⟩

/-- **Sections are atomic.** -/
theorem reachable_views (hP : P.Lawful) (h : P.byAccess.Reachable x) :
    ∃ v, Views P x v ∧ P.whole.Reachable v := by
  refine System.invariant (I := fun x => ∃ v, Views P x v ∧ P.whole.Reachable v) ?_ ?_ h
  · intro y hy
    exact ⟨y.shared, .free hy.2.1 hy.2.2, .of_init hy.1⟩
  · rintro y q y' ⟨v, hviews, hreach⟩ hs
    exact hviews.step hP hreach hs

/-! ## §3. And conversely. -/

/-- Whoever is inside can go on. -/
theorem inside_canProgress {i : Inside ρ κ α} (hin : x.inside p = some i) :
    P.byAccess.CanProgress x := by
  obtain ⟨k, rest, r⟩ := i
  cases rest with
  | cons a rest =>
      refine .of_step (f := fun y => y.inside p) (a := p) (by dsimp only [byAccess]; rw [hin]) ?_
      show Function.update x.inside p _ p ≠ x.inside p
      rw [Function.update_self, hin]
      intro heq
      injection heq with heq
      have hlength := congrArg (fun i => i.rest.length) heq
      simp only [List.length_cons] at hlength
      omega
  | nil =>
      refine .of_step (f := fun y => y.inside p) (a := p) (by dsimp only [byAccess]; rw [hin]) ?_
      show Function.update x.inside p _ p ≠ x.inside p
      rw [Function.update_self, hin]
      nofun

/-- **The semaphore alone keeps nobody waiting.** -/
theorem byAccess_progress (hviews : Views P x v) (hgo : P.whole.CanProgress v) :
    P.byAccess.CanProgress x := by
  cases hviews with
  | held p k rest r hsem hin => exact inside_canProgress hin
  | free hsem hout =>
      obtain ⟨p, s', hstep, hne⟩ := hgo
      cases henter : P.enter x.shared p with
      | some k =>
          refine ⟨p, { x with
            sem := x.sem - 1
            inside := Function.update x.inside p (some ⟨k, P.body k, P.registers⟩) }, ?_, ?_⟩
          · dsimp only [byAccess]
            rw [hout p, henter, hsem]
            rfl
          · intro heq
            have hsem' : x.sem - 1 = x.sem := congrArg State.sem heq
            omega
      | none =>
          refine ⟨p, { x with shared := s' }, ?_, ?_⟩
          · dsimp only [byAccess]
            rw [hout p, henter, hstep]
            rfl
          · intro heq
            exact hne (congrArg State.shared heq)

/-- A state with nobody inside. -/
def State.outside (s : σ) : State ι σ ρ κ α := ⟨s, 1, fun _ => none⟩

theorem update_outside (p : ι) (i : Option (Inside ρ κ α)) :
    Function.update (Function.update (fun _ => none) p i) p none = fun _ : ι => none := by
  rw [Function.update_idem, Function.update_eq_self_iff]

/-- A section is made by its party alone, one access after the other. -/
theorem steps_complete (rest : List α) : ∀ (s : σ) (r : ρ),
    P.byAccess.Steps (fun _ _ => True)
      ⟨s, 0, Function.update (fun _ => none) p (some ⟨k, rest, r⟩)⟩
      (.outside (P.complete p k rest (s, r))) := by
  induction rest with
  | nil =>
      intro s r
      apply System.Steps.single (a := p)
      dsimp only [byAccess]
      rw [Function.update_self]
      simp only [update_outside]
      rfl
  | cons a rest ih =>
      intro s r
      refine (System.Steps.single (a := p) ?_).trans (ih _ _)
      dsimp only [byAccess]
      rw [Function.update_self]
      simp only [Function.update_idem]

/-- A step of the protocol, made access by access. -/
theorem steps_outside (hP : P.Lawful) (hs : P.whole.step s p = some s') :
    P.byAccess.Steps (fun _ _ => True) (.outside s) (.outside s') := by
  cases henter : P.enter s p with
  | some k =>
      have hwhole := hP.whole s p k henter
      rw [hs] at hwhole
      injection hwhole with hwhole
      rw [hwhole]
      refine (System.Steps.single (a := p) ?_).trans (steps_complete (P.body k) s P.registers)
      dsimp only [byAccess, State.outside]
      rw [henter]
      rfl
  | none =>
      apply System.Steps.single (a := p)
      dsimp only [byAccess, State.outside]
      rw [henter, hs]
      rfl

/-- **Whatever the protocol reaches the program reaches.** -/
theorem byAccess_of_reachable (hP : P.Lawful) (h : P.whole.Reachable s) :
    P.byAccess.Reachable (.outside s) := by
  refine System.invariant (I := fun s => P.byAccess.Reachable (.outside s)) ?_ ?_ h
  · intro t ht
    exact .of_init ⟨ht, rfl, fun _ => rfl⟩
  · intro t p t' ih hs
    exact ih.steps (steps_outside hP hs)

/-- Whoever is inside can finish its section. -/
theorem Views.steps_complete (h : Views P x v) :
    P.byAccess.Steps (fun _ _ => True) x (.outside v) := by
  obtain ⟨shared, sem, inside⟩ := x
  cases h with
  | free hsem hout =>
      obtain rfl : sem = 1 := hsem
      obtain rfl : inside = fun _ => none := funext hout
      exact .refl _
  | held p k rest r hsem hin hothers =>
      obtain rfl : sem = 0 := hsem
      obtain rfl : inside = Function.update (fun _ => none) p (some ⟨k, rest, r⟩) :=
        Function.eq_update_iff.mpr ⟨hin, hothers⟩
      exact Sections.steps_complete rest shared r

/-- **The accesses get the program on**: to every next step of the protocol. -/
theorem Views.steps (hP : P.Lawful) (h : Views P x v) (hs : P.whole.step v p = some v') :
    P.byAccess.Steps (fun _ _ => True) x (.outside v') :=
  h.steps_complete.trans (steps_outside hP hs)

end Sections

end Akbench
