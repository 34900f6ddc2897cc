/-
  Akbench.Barrier.Hang
  ────────────────────
  **WHEN THE LIFECYCLE CAN HANG.**

  The join loop polls `n_users_ >= n_`, and the destructor takes `n_users_`
  down again.  With at least one call of `Wait()` per participant nobody can
  be in its destructor while somebody still polls the join loop: a finished
  call means that everybody has begun one.  With `rounds = 0` there is no such
  rendezvous: the first participant out of the loop may run its destructor
  before the next one polls, and from then on `n_users_` stays below `n_`.

    • `Live.join_open` / `Live.progress` — no hang with one participant or
      with a call to make;
    • `exists_hung` — the run into the hang, for every `n ≥ 2`;
    • `lifecycle_never_hangs_iff` — the exact condition.
-/
import Akbench.Barrier.Safety
import Akbench.Barrier.Resources

namespace Akbench.Barrier

variable {n rounds k : Nat} {g g' : Group n} {p : Fin n}

/-- Until everybody has finished, some step other than a failed poll is
enabled; and once everybody has joined, the join loop lets everybody out. -/
def NeverHangs (n rounds : Nat) : Prop :=
  ∀ g, (lifeSystem n rounds).Reachable g →
    ((∃ p, (g.life p).isFinished = false) → (lifeSystem n rounds).CanProgress g) ∧
    ((∀ q, (g.life q).hasJoined = true) → ∀ p, g.life p = .joining →
      (lifeSystem n rounds).step g p = some (g.setLife p .running))

/-! ## §1. Steps that move somebody's position. -/

/-- A step that moves the mover's position is progress. -/
theorem canProgress_of_life_ne (hs : lifeStep n rounds g p = some g')
    (hne : g'.life p ≠ g.life p) : (lifeSystem n rounds).CanProgress g :=
  System.CanProgress.of_step (f := fun h => h.life p) hs hne

theorem lifeStep_start (hl : g.life p = .start) :
    lifeStep n rounds g p = some { g.setLife p .opened with semName := true } := by
  simp only [lifeStep, hl]

theorem lifeStep_opened (hl : g.life p = .opened) :
    lifeStep n rounds g p = some (openSegment g p) := by
  simp only [lifeStep, hl]

theorem lifeStep_mapped (hl : g.life p = .mapped) :
    lifeStep n rounds g p = some ((g.withShm g.wait.shm.join).setLife p .joining) := by
  simp only [lifeStep, hl]

theorem lifeStep_letIn (hl : g.life p = .joining) (hall : n ≤ g.wait.shm.nUsers) :
    lifeStep n rounds g p = some (g.setLife p .running) := by
  simp only [lifeStep, hl, if_pos hall]

theorem lifeStep_pollFails (hl : g.life p = .joining) (hall : ¬ n ≤ g.wait.shm.nUsers) :
    lifeStep n rounds g p = some g := by
  simp only [lifeStep, hl, if_neg hall]

theorem lifeStep_wait (hl : g.life p = .running)
    (hlt : (g.wait.users p).completed < rounds) {w : State n}
    (hw : waitStep n rounds g.wait p = some w) :
    lifeStep n rounds g p = some { g with wait := w } := by
  simp only [lifeStep, hl, if_pos hlt, hw, Option.map_some]

theorem lifeStep_depart (hl : g.life p = .running)
    (hge : ¬ (g.wait.users p).completed < rounds) :
    lifeStep n rounds g p = some ((g.withShm g.wait.shm.depart).setLife p
      (.departed (g.wait.shm.nUsers == 1) .semClose)) := by
  simp only [lifeStep, hl, if_neg hge]

theorem openSegment_life (g : Group n) (p : Fin n) :
    (openSegment g p).life = (g.setLife p .mapped).life := by
  unfold openSegment
  split <;> rfl

/-- Nothing blocks before the join loop. -/
theorem canProgress_of_not_joined (hp : (g.life p).hasJoined = false) :
    (lifeSystem n rounds).CanProgress g := by
  cases hl : g.life p with
  | start =>
      apply canProgress_of_life_ne (lifeStep_start hl)
      show (g.setLife p .opened).life p ≠ g.life p
      rw [Group.setLife_self, hl]
      decide
  | opened =>
      apply canProgress_of_life_ne (lifeStep_opened hl)
      rw [openSegment_life, Group.setLife_self, hl]
      decide
  | mapped =>
      apply canProgress_of_life_ne (lifeStep_mapped hl)
      rw [Group.setLife_self, hl]
      decide
  | joining | running | departed =>
      rw [hl] at hp
      cases hp

/-- Nothing blocks after the decrement. -/
theorem canProgress_of_departed {last : Bool} {todo : Cleanup}
    (hl : g.life p = .departed last todo) (htodo : todo ≠ .done) :
    (lifeSystem n rounds).CanProgress g := by
  have hs : lifeStep n rounds g p = cleanupStep g p last todo := lifeStep_departed hl
  cases todo with
  | done => exact absurd rfl htodo
  | semClose | semUnlink | munmap | shmClose | shmUnlink =>
      apply canProgress_of_life_ne hs
      show (g.setLife p _).life p ≠ g.life p
      rw [Group.setLife_self, hl]
      cases last <;> decide

/-! ## §2. No hang with one participant or with a call to make. -/

/-- Nobody is in its destructor while somebody is in the join loop. -/
theorem Core.not_departed_of_joining (h : Core rounds k g) (hR : n = 1 ∨ 1 ≤ rounds)
    (hl : g.life p = .joining) (q : Fin n) : (g.life q).hasDeparted = false := by
  cases hq : (g.life q).hasDeparted with
  | false => rfl
  | true =>
      exfalso
      rcases hR with hone | hR
      · -- the one in its destructor and the one in the loop are the same
        have hpq : q = p := by
          have h1 := q.isLt
          have h2 := p.isLt
          exact Fin.ext (by omega)
        rw [hpq, hl] at hq
        cases hq
      · -- a finished call of `q` means that `p` has begun one
        have hdone := h.departed q hq
        have hqk := h.round.entered_bounds q
        have hpk := h.round.entered_bounds p
        have hfresh := h.fresh p (by rw [hl]; rfl)
        rw [hfresh] at hpk
        have hzero : User.fresh.entered = 0 := rfl
        omega

/-- **The join loop is open once everybody has joined.** -/
theorem Core.join_open (h : Core rounds k g) (hR : n = 1 ∨ 1 ≤ rounds)
    (hall : ∀ q, (g.life q).hasJoined = true) (hl : g.life p = .joining) :
    n ≤ g.wait.shm.nUsers := by
  have hjoined := countLife_eq_of_forall hall
  have hdep := countLife_eq_zero (h.not_departed_of_joining hR hl)
  have hnu := h.nUsers
  omega

/-- **Some step other than a failed poll is enabled** while somebody has not
finished. -/
theorem Live.progress (h : Live rounds k g) (hR : n = 1 ∨ 1 ≤ rounds)
    (hp : (g.life p).isFinished = false) : (lifeSystem n rounds).CanProgress g := by
  by_cases hout : ∃ q, (g.life q).hasJoined = false
  · obtain ⟨q, hq⟩ := hout
    exact canProgress_of_not_joined hq
  have hall : ∀ q, (g.life q).hasJoined = true := by
    intro q
    cases hq : (g.life q).hasJoined with
    | true => rfl
    | false => exact absurd ⟨q, hq⟩ hout
  by_cases hjoin : ∃ q, g.life q = .joining
  · -- everybody has joined, so a poll of the join loop succeeds
    obtain ⟨q, hq⟩ := hjoin
    apply canProgress_of_life_ne (lifeStep_letIn hq (h.toCore.join_open hR hall hq))
    rw [Group.setLife_self, hq]
    decide
  cases hl : g.life p with
  | start | opened | mapped =>
      have hj := hall p
      rw [hl] at hj
      cases hj
  | joining => exact absurd ⟨p, hl⟩ hjoin
  | running =>
      by_cases hlt : (g.wait.users p).completed < rounds
      · -- the barrier itself is not stuck, and its mover is not departed
        obtain ⟨q, w, hq, hw, hne⟩ := h.round.progress h.entered_le hlt
        have hqrun : g.life q = .running := by
          cases hlq : g.life q with
          | running => rfl
          | joining => exact absurd ⟨q, hlq⟩ hjoin
          | departed last todo =>
              have hd := h.departed q (by rw [hlq]; rfl)
              omega
          | start | opened | mapped =>
              have hj := hall q
              rw [hlq] at hj
              cases hj
        refine ⟨q, _, lifeStep_wait hqrun hq hw, ?_⟩
        intro heq
        exact hne (congrArg Group.wait heq)
      · apply canProgress_of_life_ne (lifeStep_depart hl hlt)
        rw [Group.setLife_self, hl]
        intro heq
        cases heq
  | departed last todo =>
      apply canProgress_of_departed hl
      intro htodo
      rw [hl, htodo] at hp
      cases hp

theorem neverHangs_of (hn : n < wordSize) (hR : n = 1 ∨ 1 ≤ rounds) :
    NeverHangs n rounds := by
  intro g hg
  rcases phase_of_reachable hn hg with hu | ⟨k, hk⟩
  · have hjoined : ∀ q, (g.life q).hasJoined = false := by
      intro q
      rcases hu.life q with hq | hq <;> rw [hq] <;> rfl
    constructor
    · intro hex
      obtain ⟨p, _⟩ := hex
      exact canProgress_of_not_joined (hjoined p)
    · intro hall p _
      have hp := hall p
      rw [hjoined p] at hp
      cases hp
  · constructor
    · intro hex
      obtain ⟨p, hp⟩ := hex
      exact hk.progress hR hp
    · intro hall p hl
      exact lifeStep_letIn hl (hk.toCore.join_open hR hall hl)

/-! ## §3. The run into the hang. -/

/-- The first `j` participants are in the join loop, the others have not
started. -/
structure Gathered (j : Nat) (g : Group n) : Prop where
  joined : ∀ q : Fin n, q.val < j → g.life q = .joining
  outside : ∀ q : Fin n, j ≤ q.val → g.life q = .start
  users : ∀ q, g.wait.users q = User.fresh
  nUsers : 0 < j → g.wait.shm.nUsers = j
  name : g.shmName = decide (0 < j)

/-- The next participant runs its constructor up to the join loop. -/
theorem Gathered.next (hn : n < wordSize) {j : Nat} (h : Gathered j g) (hj : j < n) :
    ∃ g', (lifeSystem n rounds).Steps (fun _ _ => True) g g' ∧ Gathered (j + 1) g' := by
  have hl : g.life ⟨j, hj⟩ = .start := h.outside ⟨j, hj⟩ (Nat.le_refl j)
  set p : Fin n := ⟨j, hj⟩ with hp
  set g₁ : Group n := { g.setLife p .opened with semName := true } with hg₁
  have hl₁ : g₁.life p = .opened := Group.setLife_self g p _
  have hl₂ : (openSegment g₁ p).life p = .mapped := by
    rw [openSegment_life]
    exact Group.setLife_self g₁ p _
  set g₂ := openSegment g₁ p with hg₂
  have hrest : ∀ q, q ≠ p → g₂.life q = g.life q := by
    intro q hq
    rw [hg₂, openSegment_life, Group.setLife_of_ne _ _ hq]
    exact Group.setLife_of_ne g _ hq
  -- the segment is created by participant 0 and found by the others
  have hseg : g₂.wait.users = g.wait.users ∧ g₂.wait.shm.nUsers = j ∧ g₂.shmName = true := by
    have hname : g₁.shmName = decide (0 < j) := h.name
    rw [hg₂]
    unfold openSegment
    by_cases hpos : 0 < j
    · rw [if_pos (by rw [hname]; exact decide_eq_true hpos)]
      exact ⟨rfl, h.nUsers hpos, by rw [Group.setLife_shmName, hname]; exact decide_eq_true hpos⟩
    · rw [if_neg (by rw [hname]; simpa using hpos)]
      have hzero : j = 0 := by omega
      exact ⟨rfl, hzero.symm, rfl⟩
  obtain ⟨husers, hnu, hname⟩ := hseg
  refine ⟨(g₂.withShm g₂.wait.shm.join).setLife p .joining, ?_, ?_⟩
  · exact ((System.Steps.single (lifeStep_start hl)).trans
      (System.Steps.single (lifeStep_opened hl₁))).trans
      (System.Steps.single (lifeStep_mapped hl₂))
  · refine ⟨?_, ?_, ?_, ?_, ?_⟩
    · intro q hq
      by_cases hqp : q = p
      · rw [hqp, Group.setLife_self]
      · have hlt : q.val < j := by
          have hv : q.val ≠ j := fun hv => hqp (Fin.ext hv)
          omega
        rw [Group.setLife_of_ne _ _ hqp]
        exact (hrest q hqp).trans (h.joined q hlt)
    · intro q hq
      have hqp : q ≠ p := by
        intro hqp
        rw [hqp] at hq
        have hv : p.val = j := rfl
        omega
      rw [Group.setLife_of_ne _ _ hqp]
      exact (hrest q hqp).trans (h.outside q (by omega))
    · intro q
      show g₂.wait.users q = User.fresh
      rw [husers]
      exact h.users q
    · intro _
      show add64 g₂.wait.shm.nUsers 1 = j + 1
      rw [hnu]
      exact add64_eq (by omega)
    · show g₂.shmName = decide (0 < j + 1)
      rw [hname]
      exact (decide_eq_true (Nat.succ_pos j)).symm

/-- Everybody gathers in the join loop. -/
theorem exists_gathered (hn : n < wordSize) (j : Nat) (hj : j ≤ n) :
    ∃ g : Group n, (lifeSystem n rounds).Reachable g ∧ Gathered j g := by
  induction j with
  | zero =>
      refine ⟨Group.initial ShmData.fresh, .of_init (Group.initial_init _), ?_⟩
      exact ⟨fun q hq => absurd hq (Nat.not_lt_zero _), fun _ _ => rfl, fun _ => rfl,
        fun hpos => absurd hpos (Nat.lt_irrefl 0), rfl⟩
  | succ j ih =>
      obtain ⟨g, hg, hgath⟩ := ih (by omega)
      obtain ⟨g', hrun, hgath'⟩ := hgath.next hn (by omega)
      exact ⟨g', hg.steps hrun, hgath'⟩

/-- With no call to make, the first one out of the loop runs its destructor to
the end before anybody else polls. -/
theorem Gathered.overtake (hn2 : 2 ≤ n) (h : Gathered n g) (p : Fin n) :
    ∃ g', (lifeSystem n 0).Steps (fun _ _ => True) g g' ∧
      g'.life p = .departed false .done ∧
      (∀ q, q ≠ p → g'.life q = .joining) ∧ g'.wait.shm.nUsers < n := by
  have hnu := h.nUsers (by omega)
  have hl := h.joined p p.isLt
  set g₁ := g.setLife p .running with hg₁
  have hl₁ : g₁.life p = .running := Group.setLife_self g p _
  have hlast : (g₁.wait.shm.nUsers == 1) = false := by
    show (g.wait.shm.nUsers == 1) = false
    rw [hnu]
    exact beq_false_of_ne (by omega)
  set g₂ := (g₁.withShm g₁.wait.shm.depart).setLife p (.departed false .semClose) with hg₂
  have hdepart : lifeStep n 0 g₁ p = some g₂ := by
    rw [lifeStep_depart hl₁ (Nat.not_lt_zero _), hlast]
  -- the four operations that are left of the destructor
  set g₃ := g₂.setLife p (.departed false .munmap) with hg₃
  set g₄ := g₃.setLife p (.departed false .shmClose) with hg₄
  set g₅ := g₄.setLife p (.departed false .done) with hg₅
  have h₃ : lifeStep n 0 g₂ p = some g₃ := lifeStep_departed (Group.setLife_self _ p _)
  have h₄ : lifeStep n 0 g₃ p = some g₄ := lifeStep_departed (Group.setLife_self _ p _)
  have h₅ : lifeStep n 0 g₄ p = some g₅ := lifeStep_departed (Group.setLife_self _ p _)
  refine ⟨g₅, ?_, Group.setLife_self _ p _, ?_, ?_⟩
  · have hall : n ≤ g.wait.shm.nUsers := by omega
    exact ((((System.Steps.single (lifeStep_letIn hl hall)).trans
      (System.Steps.single hdepart)).trans (System.Steps.single h₃)).trans
      (System.Steps.single h₄)).trans (System.Steps.single h₅)
  · intro q hq
    rw [hg₅, Group.setLife_of_ne _ _ hq, hg₄, Group.setLife_of_ne _ _ hq, hg₃,
        Group.setLife_of_ne _ _ hq, hg₂, Group.setLife_of_ne _ _ hq]
    show g₁.life q = .joining
    rw [hg₁, Group.setLife_of_ne _ _ hq]
    exact h.joined q q.isLt
  · show sub64 g.wait.shm.nUsers 1 < n
    rw [sub64_eq (by omega)]
    omega

/-- **The hang**: every participant but one polls a counter that nobody will
increment again. -/
theorem exists_hung (hn : n < wordSize) (hn2 : 2 ≤ n) :
    ∃ g : Group n, (lifeSystem n 0).Reachable g ∧
      (∃ p, (g.life p).isFinished = false) ∧ ¬ (lifeSystem n 0).CanProgress g := by
  have hstart : ∃ g : Group n, (lifeSystem n 0).Reachable g ∧ Gathered n g :=
    exists_gathered hn n (Nat.le_refl n)
  obtain ⟨g, hg, hgath⟩ := hstart
  have h0 : 0 < n := by omega
  have h1 : 1 < n := by omega
  obtain ⟨g', hrun, hdone, hjoin, hlow⟩ := hgath.overtake hn2 ⟨0, h0⟩
  have hne : (⟨1, h1⟩ : Fin n) ≠ ⟨0, h0⟩ := by
    intro heq
    cases congrArg Fin.val heq
  refine ⟨g', hg.steps hrun, ⟨⟨1, h1⟩, ?_⟩, ?_⟩
  · rw [hjoin _ hne]
    rfl
  · intro hprog
    obtain ⟨q, g'', hstep, hchange⟩ := hprog
    have hstep' : lifeStep n 0 g' q = some g'' := hstep
    by_cases hq : q = ⟨0, h0⟩
    · rw [hq, lifeStep_departed hdone] at hstep'
      cases hstep'
    · rw [lifeStep_pollFails (hjoin q hq) (by omega)] at hstep'
      injection hstep' with hsame
      exact hchange hsame.symm

/-! ## §4. The exact condition. -/

/-- **The lifecycle never hangs exactly with one participant or with at least
one call of `Wait()`.** -/
theorem lifecycle_never_hangs_iff (n rounds : Nat) (hpos : 0 < n) (hn : n < wordSize) :
    NeverHangs n rounds ↔ n = 1 ∨ 1 ≤ rounds := by
  constructor
  · intro hnever
    by_contra hcond
    have hzero : rounds = 0 := by omega
    subst hzero
    obtain ⟨g, hg, hp, hstuck⟩ := exists_hung hn (show 2 ≤ n by omega)
    exact hstuck ((hnever g hg).1 hp)
  · intro hR
    exact neverHangs_of hn hR

/-- The latency benchmark's two processes: one call each is enough. -/
theorem lifecycle_never_hangs_two : NeverHangs 2 1 :=
  (lifecycle_never_hangs_iff 2 1 (by decide) (by decide)).mpr (Or.inr (Nat.le_refl 1))

/-- Two processes and `--loop-size=0`: both join, the first leaves and is done
with its destructor, the second polls `1 >= 2` for ever. -/
theorem lifecycle_hangs_without_calls : ¬ NeverHangs 2 0 := by
  intro hnever
  have hrun : (lifeSystem 2 0).Reachable _ :=
    System.reachable_of_exec [0, 0, 0, 1, 1, 1, 0, 0, 0, 0, 0]
      (Group.initial_init ShmData.fresh) rfl
  obtain ⟨p, g', hstep, hne⟩ := (hnever _ hrun).1 ⟨1, by decide⟩
  match p with
  | 0 => exact absurd hstep (by intro h; cases h)
  | 1 =>
      injection hstep with hsame
      exact hne hsame.symm

end Akbench.Barrier
