/-
  Akbench.Barrier.Resources
  ─────────────────────────
  **RESOURCE ACCOUNTING OF THE LIFECYCLE.**

  Every step keeps the two-phase invariant of `Akbench.Barrier.Accounting`
  (`phase_step`), so every reachable group is `Unborn` or `Live`.  From that:
  one creator, exact counting, one unlinker after everybody else, no access to
  the segment after one's own decrement, and nothing left behind at the end.
-/
import Akbench.Barrier.Accounting

namespace Akbench.Barrier

variable {n rounds k : Nat} {g g' : Group n} {p : Fin n}

/-! ## §1. The names along a step. -/

theorem exists_life_congr {f : LifePc → Bool} (h : ∀ q, f (g'.life q) = f (g.life q)) :
    (∃ q, f (g'.life q) = true) ↔ ∃ q, f (g.life q) = true := by
  constructor
  · intro hex
    obtain ⟨q, hq⟩ := hex
    exact ⟨q, (h q).symm.trans hq⟩
  · intro hex
    obtain ⟨q, hq⟩ := hex
    exact ⟨q, (h q).trans hq⟩

/-- A property of the mover's position lifts to all positions. -/
theorem life_congr_of_update {β : Type} {f : LifePc → β} {l : LifePc} (hself : g'.life p = l)
    (hf : f l = f (g.life p)) (hrest : ∀ q, q ≠ p → g'.life q = g.life q) (q : Fin n) :
    f (g'.life q) = f (g.life q) := by
  by_cases hq : q = p
  · subst hq
    rw [hself, hf]
  · rw [hrest q hq]

/-- Moves that unlink nothing and touch no name keep the names. -/
theorem Names.relabel (h : Names g) (hshm : g'.shmName = g.shmName)
    (hsem : g'.semName = g.semName)
    (hlshm : ∀ q, (g'.life q).unlinkedShm = (g.life q).unlinkedShm)
    (hlsem : ∀ q, (g'.life q).unlinkedSem = (g.life q).unlinkedSem)
    (hplaced : ∀ q, (g'.life q).isPlaced = (g.life q).isPlaced) : Names g' where
  shm := by
    rw [hshm, h.shm, exists_life_congr hlshm]
  sem := by
    rw [hsem, h.sem, exists_life_congr hlsem]
  placed q := (hplaced q).trans (h.placed q)

/-- The mover passes from one position that has unlinked nothing to another. -/
theorem Names.setLife (h : Names g) {l : LifePc} (hwait : g'.life = (g.setLife p l).life)
    (hshm : g'.shmName = g.shmName) (hsem : g'.semName = g.semName)
    (hlshm : l.unlinkedShm = (g.life p).unlinkedShm)
    (hlsem : l.unlinkedSem = (g.life p).unlinkedSem)
    (hplaced : l.isPlaced = (g.life p).isPlaced) : Names g' := by
  have hself : g'.life p = l := by
    rw [hwait]
    exact Group.setLife_self g p l
  have hrest : ∀ q, q ≠ p → g'.life q = g.life q := by
    intro q hq
    rw [hwait]
    exact Group.setLife_of_ne g l hq
  exact h.relabel hshm hsem (life_congr_of_update hself hlshm hrest)
    (life_congr_of_update hself hlsem hrest) (life_congr_of_update hself hplaced hrest)

/-! ## §2. One step keeps the phase. -/

/-- A cleanup operation keeps the second phase. -/
theorem Live.cleanup (h : Live rounds k g) {last : Bool} {todo : Cleanup}
    (hl : g.life p = .departed last todo) (hc : cleanupStep g p last todo = some g') :
    Live rounds k g' := by
  obtain ⟨hwait, hcreated, ⟨todo', hself⟩, hrest⟩ := cleanupStep_frame hc
  have hcore : Core rounds k g' := by
    refine h.toCore.relabel hwait hcreated (same_of_update hself ?_ hrest)
    rw [hl]
    exact ⟨rfl, rfl, rfl, rfl⟩
  refine ⟨hcore, ?_⟩
  have hplaced := h.placed p
  rw [hl] at hplaced
  cases todo with
  | semClose =>
      injection hc with hc
      subst hc
      apply h.toNames.setLife rfl rfl rfl <;> rw [hl] <;> cases last <;> rfl
  | semUnlink =>
      -- only the last one is here, and it makes the semaphore's name go
      injection hc with hc
      subst hc
      cases last with
      | false => cases hplaced
      | true =>
          have hself' := Group.setLife_self g p (.departed true .munmap)
          have hrest' : ∀ q, q ≠ p → (g.setLife p (.departed true .munmap)).life q = g.life q :=
            fun q hq => Group.setLife_of_ne g _ hq
          refine ⟨?_, ?_, ?_⟩
          · show g.shmName = false ↔ _
            rw [h.shm]
            exact (exists_life_congr
              (life_congr_of_update hself' (by rw [hl]; rfl) hrest')).symm
          · constructor
            · intro _
              exact ⟨p, congrArg LifePc.unlinkedSem hself'⟩
            · intro _
              rfl
          · exact fun q => (life_congr_of_update hself' (by rw [hl]; rfl) hrest' q).trans
              (h.placed q)
  | munmap =>
      injection hc with hc
      subst hc
      apply h.toNames.setLife rfl rfl rfl <;> rw [hl] <;> cases last <;> rfl
  | shmClose =>
      injection hc with hc
      subst hc
      apply h.toNames.setLife rfl rfl rfl <;> rw [hl] <;> cases last <;> rfl
  | shmUnlink =>
      injection hc with hc
      subst hc
      cases last with
      | false => cases hplaced
      | true =>
          have hself' := Group.setLife_self g p (.departed true .done)
          have hrest' : ∀ q, q ≠ p → (g.setLife p (.departed true .done)).life q = g.life q :=
            fun q hq => Group.setLife_of_ne g _ hq
          refine ⟨?_, ?_, ?_⟩
          · constructor
            · intro _
              exact ⟨p, congrArg LifePc.unlinkedShm hself'⟩
            · intro _
              rfl
          · show g.semName = false ↔ _
            rw [h.sem]
            exact (exists_life_congr
              (life_congr_of_update hself' (by rw [hl]; rfl) hrest')).symm
          · exact fun q => (life_congr_of_update hself' (by rw [hl]; rfl) hrest' q).trans
              (h.placed q)
  | done => cases hc

/-- **One step keeps the second phase.** -/
theorem Live.step (hn : n < wordSize) (h : Live rounds k g)
    (hs : lifeStep n rounds g p = some g') : ∃ k', Live rounds k' g' := by
  cases lifeMove_of_step hs with
  | semOpen hl =>
      refine ⟨k, h.toCore.relabel rfl rfl (same_of_update (Group.setLife_self g p _) ?_
        fun q hq => Group.setLife_of_ne g _ hq), ?_⟩
      · rw [hl]
        exact ⟨rfl, rfl, rfl, rfl⟩
      -- nobody can have unlinked the name while `p` has not joined
      have hsem : g.semName = true := by
        cases hsem : g.semName with
        | true => rfl
        | false =>
            obtain ⟨q, hq⟩ := h.sem.mp hsem
            have hd := LifePc.hasDeparted_of_isLast (LifePc.isLast_of_unlinkedSem hq)
            rw [h.not_departed (show (g.life p).hasJoined = false by rw [hl]; rfl) q] at hd
            cases hd
      exact h.toNames.setLife rfl rfl hsem.symm (by rw [hl]; rfl) (by rw [hl]; rfl)
        (by rw [hl]; rfl)
  | openExisting hl hname =>
      refine ⟨k, h.toCore.relabel rfl rfl (same_of_update (Group.setLife_self g p _) ?_
        fun q hq => Group.setLife_of_ne g _ hq), ?_⟩
      · rw [hl]
        exact ⟨rfl, rfl, rfl, rfl⟩
      · exact h.toNames.setLife rfl rfl rfl (by rw [hl]; rfl) (by rw [hl]; rfl)
          (by rw [hl]; rfl)
  | create hl hname =>
      -- the name is still there: a second creation is impossible
      obtain ⟨q, hq⟩ := h.shm.mp hname
      have hd := LifePc.hasDeparted_of_isLast (LifePc.isLast_of_unlinkedShm hq)
      rw [h.not_departed (show (g.life p).hasJoined = false by rw [hl]; rfl) q] at hd
      cases hd
  | join hl =>
      exact ⟨k, h.toCore.join hn hl, h.toNames.setLife rfl rfl rfl (by rw [hl]; rfl)
        (by rw [hl]; rfl) (by rw [hl]; rfl)⟩
  | letIn hl hall =>
      exact ⟨k, h.toCore.letIn hl hall, h.toNames.setLife rfl rfl rfl (by rw [hl]; rfl)
        (by rw [hl]; rfl) (by rw [hl]; rfl)⟩
  | pollFails hl hall => exact ⟨k, h⟩
  | wait hl hlt w hw =>
      obtain ⟨k', hk'⟩ := h.toCore.wait hn hl hw
      exact ⟨k', hk', h.toNames.relabel rfl rfl (fun _ => rfl) (fun _ => rfl) (fun _ => rfl)⟩
  | depart hl hge =>
      have hcore := (h.toCore.depart hl (Nat.le_of_not_lt hge)).2.2
      refine ⟨k, hcore, ?_⟩
      apply h.toNames.setLife (Group.withShm_setLife_life _ _ _ _) (by simp) (by simp) <;>
        rw [hl] <;> cases g.wait.shm.nUsers == 1 <;> rfl
  | cleanup last todo hl g' hc => exact ⟨k, h.cleanup hl hc⟩

/-- **One step from the first phase** stays there or creates the segment. -/
theorem Unborn.step (h : Unborn g) (hs : lifeStep n rounds g p = some g') :
    Unborn g' ∨ Live rounds 0 g' := by
  have hplace : ∀ l, g.life p = l → l = .start ∨ l = .opened := by
    rintro l rfl
    exact h.life p
  cases lifeMove_of_step hs with
  | semOpen hl =>
      left
      refine ⟨?_, h.created, h.users, h.shmName, fun _ _ => rfl⟩
      intro q
      by_cases hq : q = p
      · subst hq
        right
        exact Group.setLife_self g q _
      · rw [show ({ g.setLife p .opened with semName := true } : Group n).life q
              = (g.setLife p .opened).life q from rfl, Group.setLife_of_ne g _ hq]
        exact h.life q
  | openExisting hl hname =>
      rw [h.shmName] at hname
      cases hname
  | create hl hname => exact Or.inr (h.create hl)
  | join hl => rcases hplace _ hl with h' | h' <;> cases h'
  | letIn hl hall => rcases hplace _ hl with h' | h' <;> cases h'
  | pollFails hl hall => rcases hplace _ hl with h' | h' <;> cases h'
  | wait hl hlt w hw => rcases hplace _ hl with h' | h' <;> cases h'
  | depart hl hge => rcases hplace _ hl with h' | h' <;> cases h'
  | cleanup last todo hl g' hc => rcases hplace _ hl with h' | h' <;> cases h'

/-- Every reachable group is in one of the two phases. -/
theorem phase_of_reachable (hn : n < wordSize) (h : (lifeSystem n rounds).Reachable g) :
    Unborn g ∨ ∃ k, Live rounds k g := by
  refine System.invariant (I := fun g => Unborn g ∨ ∃ k, Live rounds k g) ?_ ?_ h
  · intro g hg
    obtain ⟨_, hshm, hall⟩ := hg
    left
    refine ⟨fun p => Or.inl (hall p).1, fun p => (hall p).2.1, fun p => (hall p).2.2, hshm, ?_⟩
    intro p hp
    rw [(hall p).1] at hp
    cases hp
  · intro g p g' hphase hstep
    rcases hphase with hu | ⟨k, hk⟩
    · rcases hu.step hstep with h' | h'
      · exact Or.inl h'
      · exact Or.inr ⟨0, h'⟩
    · exact Or.inr (hk.step hn hstep)

/-! ## §3. What follows for single steps. -/

/-- Only the creation marks a creator. -/
theorem created_of_step (hs : lifeStep n rounds g p = some g') (hne : g'.created ≠ g.created) :
    g.life p = .opened ∧ g.shmName = false ∧ g'.wait.shm = ShmData.fresh := by
  cases lifeMove_of_step hs with
  | create hl hname => exact ⟨hl, hname, rfl⟩
  | cleanup last todo hl g' hc => exact absurd (cleanupStep_frame hc).2.1 hne
  | _ => exact absurd rfl hne

/-- Nobody un-departs. -/
theorem hasDeparted_of_step (hs : lifeStep n rounds g p = some g') {q : Fin n}
    (hq : (g.life q).hasDeparted = true) : (g'.life q).hasDeparted = true := by
  by_cases hqp : q = p
  · subst hqp
    obtain ⟨last, todo, hl⟩ := exists_of_hasDeparted hq
    rw [lifeStep_departed hl] at hs
    obtain ⟨_, _, ⟨todo', hself⟩, _⟩ := cleanupStep_frame hs
    rw [hself]
    rfl
  · rw [lifeStep_life_of_ne hs hqp]
    exact hq

/-- Only the increment section makes a joined participant. -/
theorem join_of_step (hs : lifeStep n rounds g p = some g') {q : Fin n}
    (hold : (g.life q).hasJoined = false) (hnew : (g'.life q).hasJoined = true) :
    q = p ∧ g.life p = .mapped ∧ g' = (g.withShm g.wait.shm.join).setLife p .joining := by
  have hqp : q = p := by
    by_contra hqp
    rw [lifeStep_life_of_ne hs hqp, hold] at hnew
    cases hnew
  subst hqp
  refine ⟨rfl, ?_⟩
  cases hl : g.life q with
  | mapped =>
      simp only [lifeStep, hl, Option.some.injEq] at hs
      exact ⟨rfl, hs.symm⟩
  | start =>
      simp only [lifeStep, hl, Option.some.injEq] at hs
      subst hs
      rw [show ({ g.setLife q .opened with semName := true } : Group n).life q = .opened from
        Group.setLife_self g q _] at hnew
      cases hnew
  | opened =>
      simp only [lifeStep, hl, Option.some.injEq] at hs
      have hmapped : (openSegment g q).life q = .mapped := by
        unfold openSegment
        split
        · exact Group.setLife_self g q _
        · exact Group.setLife_self _ q _
      rw [← hs, hmapped] at hnew
      cases hnew
  | joining => rw [hl] at hold; cases hold
  | running => rw [hl] at hold; cases hold
  | departed last todo => rw [hl] at hold; cases hold

/-- Only the decrement section makes a departed participant. -/
theorem depart_of_step (hs : lifeStep n rounds g p = some g') {q : Fin n}
    (hold : (g.life q).hasDeparted = false) (hnew : (g'.life q).hasDeparted = true) :
    q = p ∧ g.life p = .running ∧ rounds ≤ (g.wait.users p).completed ∧
      g'.wait.shm = g.wait.shm.depart := by
  have hqp : q = p := by
    by_contra hqp
    rw [lifeStep_life_of_ne hs hqp, hold] at hnew
    cases hnew
  subst hqp
  refine ⟨rfl, ?_⟩
  cases lifeMove_of_step hs with
  | depart hl hge => exact ⟨hl, Nat.le_of_not_lt hge, rfl⟩
  | cleanup last todo hl =>
      rw [hl] at hold
      cases hold
  | wait | pollFails =>
      exact absurd (hold.symm.trans hnew) (by decide)
  | semOpen | openExisting | create | join | letIn =>
      exact absurd ((congrArg LifePc.hasDeparted (Group.setLife_self _ q _)).symm.trans hnew)
        (by decide)

/-- The increment is exact. -/
theorem Live.nUsers_of_join (hn : n < wordSize) (h : Live rounds k g)
    (hs : lifeStep n rounds g p = some g') {q : Fin n}
    (hold : (g.life q).hasJoined = false) (hnew : (g'.life q).hasJoined = true) :
    g'.wait.shm.nUsers = g.wait.shm.nUsers + 1 := by
  have hins : countLife LifePc.hasJoined g' = countLife LifePc.hasJoined g + 1 := by
    apply countLife_insert hold hnew
    intro r hr
    exact lifeStep_life_of_ne hs ((join_of_step hs hold hnew).1 ▸ hr)
  have hle := countLife_le LifePc.hasJoined g'
  have hnu := h.nUsers_le
  rw [(join_of_step hs hold hnew).2.2]
  show add64 g.wait.shm.nUsers 1 = _
  exact add64_eq (by omega)

/-- The decrement is exact and starts from at least one user. -/
theorem Live.nUsers_of_depart (h : Live rounds k g)
    (hs : lifeStep n rounds g p = some g') {q : Fin n}
    (hold : (g.life q).hasDeparted = false) (hnew : (g'.life q).hasDeparted = true) :
    0 < g.wait.shm.nUsers ∧ g'.wait.shm.nUsers = g.wait.shm.nUsers - 1 := by
  obtain ⟨_, hl, hge, hshm⟩ := depart_of_step hs hold hnew
  obtain ⟨hsub, hpos, _⟩ := h.toCore.depart hl hge
  refine ⟨hpos, ?_⟩
  rw [hshm]
  exact hsub

/-! ## §4. The end of a group. -/

theorem LifePc.departed_of_isFinished {l : LifePc} (h : l.isFinished = true) :
    ∃ last, l = .departed last .done := by
  cases l with
  | departed last todo =>
      cases todo with
      | done => exact ⟨last, rfl⟩
      | _ => cases h
  | _ => cases h

/-- When everybody has finished both names are gone. -/
theorem Live.names_gone (h : Live rounds k g) (hall : ∀ p, (g.life p).isFinished = true) :
    g.semName = false ∧ g.shmName = false := by
  have hdep : ∀ p, (g.life p).hasDeparted = true := by
    intro p
    obtain ⟨last, hp⟩ := LifePc.departed_of_isFinished (hall p)
    rw [hp]
    rfl
  obtain ⟨p, hp⟩ := h.exists_last hdep
  obtain ⟨last, hl⟩ := LifePc.departed_of_isFinished (hall p)
  rw [hl] at hp
  have hlast : last = true := hp
  subst hlast
  exact ⟨h.sem.mpr ⟨p, by rw [hl]; rfl⟩, h.shm.mpr ⟨p, by rw [hl]; rfl⟩⟩

/-- The accounts of one state of a group. -/
structure Accounted (n rounds : Nat) (g : Group n) : Prop where
  /-- Once anybody is past the first section, exactly one took the creation
  branch. -/
  creator : (∃ p, g.life p ≠ .start ∧ g.life p ≠ .opened) → ∃! c, g.created c = true
  /-- The creation finds nobody joined, so it overwrites no increment. -/
  creation : ∀ p g', (lifeSystem n rounds).step g p = some g' → g'.created ≠ g.created →
    (∀ q, (g.life q).hasJoined = false) ∧ g'.wait.shm = ShmData.fresh
  /-- `n_users_` is joined minus departed, and nothing is counted before the
  first join. -/
  users : (∃ c, g.created c = true) →
    countLife LifePc.hasDeparted g ≤ countLife LifePc.hasJoined g ∧
    g.wait.shm.nUsers = countLife LifePc.hasJoined g - countLife LifePc.hasDeparted g ∧
    ((∀ q, (g.life q).hasJoined = false) → g.wait.shm = ShmData.fresh)
  /-- `n_users_++` adds one. -/
  increment : ∀ p g' q, (lifeSystem n rounds).step g p = some g' →
    (g.life q).hasJoined = false → (g'.life q).hasJoined = true →
    g'.wait.shm.nUsers = g.wait.shm.nUsers + 1
  /-- `n_users_--` takes one off a positive number. -/
  decrement : ∀ p g' q, (lifeSystem n rounds).step g p = some g' →
    (g.life q).hasDeparted = false → (g'.life q).hasDeparted = true →
    0 < g.wait.shm.nUsers ∧ g'.wait.shm.nUsers = g.wait.shm.nUsers - 1
  /-- Whoever takes the unlink branch is the only one, after all the others. -/
  unlinker : ∀ p, (g.life p).isLast = true →
    ∀ q, q ≠ p → (g.life q).hasDeparted = true ∧ (g.life q).isLast = false
  /-- A departed participant stays departed and its steps do not depend on the
  segment, nor change it. -/
  untouched : ∀ p, (g.life p).hasDeparted = true →
    (∀ d, (lifeSystem n rounds).step (g.withShm d) p =
      ((lifeSystem n rounds).step g p).map (·.withShm d)) ∧
    ∀ q g', (lifeSystem n rounds).step g q = some g' → (g'.life p).hasDeparted = true
  /-- A finished group leaves neither name behind: the next group under the id
  starts like this one. -/
  clean : (∀ p, (g.life p).isFinished = true) →
    g.semName = false ∧ g.shmName = false ∧ (lifeSystem n rounds).init g.restart

theorem Unborn.accounted (hpos : 0 < n) (h : Unborn g) : Accounted n rounds g := by
  have hjoined : ∀ q, (g.life q).hasJoined = false := by
    intro q
    rcases h.life q with hq | hq <;> rw [hq] <;> rfl
  have hdep : ∀ q, (g.life q).hasDeparted ≠ true := by
    intro q hq
    have hj := LifePc.hasJoined_of_hasDeparted _ hq
    rw [hjoined q] at hj
    cases hj
  refine ⟨?_, ?_, ?_, ?_, ?_, ?_, ?_, ?_⟩
  · intro hex
    obtain ⟨p, hs, ho⟩ := hex
    rcases h.life p with hp | hp
    · exact absurd hp hs
    · exact absurd hp ho
  · intro p g' hs hne
    exact ⟨hjoined, (created_of_step hs hne).2.2⟩
  · intro hex
    obtain ⟨c, hc⟩ := hex
    rw [h.created c] at hc
    cases hc
  · intro p g' q hs hold hnew
    obtain ⟨_, hl, _⟩ := join_of_step hs hold hnew
    rcases h.life p with hp | hp <;> rw [hp] at hl <;> cases hl
  · intro p g' q hs hold hnew
    obtain ⟨_, hl, _⟩ := depart_of_step hs hold hnew
    rcases h.life p with hp | hp <;> rw [hp] at hl <;> cases hl
  · intro p hp
    exact absurd (LifePc.hasDeparted_of_isLast hp) (hdep p)
  · intro p hp
    exact absurd hp (hdep p)
  · intro hall
    obtain ⟨last, hl⟩ := LifePc.departed_of_isFinished (hall ⟨0, hpos⟩)
    exact absurd (by rw [hl]; rfl) (hdep ⟨0, hpos⟩)

theorem Live.accounted (hn : n < wordSize) (h : Live rounds k g) : Accounted n rounds g := by
  refine ⟨?_, ?_, ?_, ?_, ?_, ?_, ?_, ?_⟩
  · intro _
    obtain ⟨c, hc⟩ := h.creator
    exact ⟨c, (hc c).mpr rfl, fun q hq => (hc q).mp hq⟩
  · -- in this phase the segment's name is there as long as somebody is at `opened`
    intro p g' hs hne
    obtain ⟨hl, hname, _⟩ := created_of_step hs hne
    obtain ⟨q, hq⟩ := h.shm.mp hname
    have hd := LifePc.hasDeparted_of_isLast (LifePc.isLast_of_unlinkedShm hq)
    rw [h.not_departed (show (g.life p).hasJoined = false by rw [hl]; rfl) q] at hd
    cases hd
  · intro hex
    obtain ⟨c, _⟩ := hex
    have hnu := h.nUsers
    exact ⟨by omega, by omega, h.shm_fresh c.pos⟩
  · intro p g' q hs hold hnew
    exact h.nUsers_of_join hn hs hold hnew
  · intro p g' q hs hold hnew
    exact h.nUsers_of_depart hs hold hnew
  · intro p hp q hq
    refine ⟨h.last p hp q hq, Bool.eq_false_iff.mpr ?_⟩
    intro hql
    exact hq (h.last_unique q p hql hp)
  · intro p hp
    exact ⟨fun d => lifeStep_withShm hp d, fun q g' hs => hasDeparted_of_step hs hp⟩
  · intro hall
    obtain ⟨hsem, hshm⟩ := h.names_gone hall
    exact ⟨hsem, hshm, hsem, hshm, fun p => ⟨rfl, rfl, rfl⟩⟩

/-- **Resource accounting** of every reachable state of a group. -/
theorem lifecycle_accounting (n rounds : Nat) (hpos : 0 < n) (hn : n < wordSize)
    (g : Group n) (h : (lifeSystem n rounds).Reachable g) : Accounted n rounds g := by
  rcases phase_of_reachable hn h with hu | ⟨k, hk⟩
  · exact hu.accounted hpos
  · exact hk.accounted hn

/-- Nobody has run yet; the memory of the segment is arbitrary. -/
def Group.initial (d : ShmData) : Group n where
  wait := ⟨d, fun _ => User.fresh⟩
  semName := false
  shmName := false
  life := fun _ => .start
  created := fun _ => false

theorem Group.initial_init (d : ShmData) : (lifeSystem n rounds).init (Group.initial d) :=
  ⟨rfl, rfl, fun _ => ⟨rfl, rfl, rfl⟩⟩

/-- Two participants, one call each, run to the end: the shared sense stays
flipped in the memory, but both names are gone. -/
theorem lifecycle_accounting_two :
    ∃ g : Group 2, (lifeSystem 2 1).Reachable g ∧ g.wait.shm.sharedSense = true ∧
      g.semName = false ∧ g.shmName = false ∧ (lifeSystem 2 1).init g.restart := by
  have hrun : (lifeSystem 2 1).Reachable _ :=
    System.reachable_of_exec
      [0, 0, 0, 1, 1, 1, 0, 1, 0, 1, 1, 0, 0, 1, 1, 1, 1, 0, 0, 0, 0, 0, 0]
      (Group.initial_init ⟨7, true, 9⟩) rfl
  have hclean := (lifecycle_accounting 2 1 (by decide) (by decide) _ hrun).clean (by decide)
  exact ⟨_, hrun, by decide, hclean⟩

end Akbench.Barrier
