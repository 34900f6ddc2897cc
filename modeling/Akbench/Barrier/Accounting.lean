/-
  Akbench.Barrier.Accounting
  ──────────────────────────
  **WHO CREATES, WHO COUNTS, WHO UNLINKS.**

  The invariant of the lifecycle has two phases.  Before the creation of the
  segment nobody is past `opened` (`Unborn`).  From the creation on (`Live`):

    • the `Wait()` state is in some round, and those still inside the
      constructor have not called `Wait()`;
    • `n_users_` + departed = joined, over the participants;
    • somebody out of the constructor means everybody has joined — the join
      loop cannot be left earlier, because `n_users_ ≤ joined`;
    • the participant that read `n_users_ == 1` found all the others departed,
      and once all have departed there is one that did;
    • a name is gone exactly when that participant has unlinked it.
-/
import Akbench.Barrier.Rounds
import Akbench.Barrier.Lifecycle

namespace Akbench.Barrier

variable {n rounds k : Nat} {g g' : Group n} {p : Fin n}

/-! ## §1. Counting participants by position. -/

/-- How many participants are at a position satisfying `f`. -/
def countLife (f : LifePc → Bool) (g : Group n) : Nat :=
  (Finset.univ.filter fun p => f (g.life p) = true).card

theorem countLife_le (f : LifePc → Bool) (g : Group n) : countLife f g ≤ n := by
  have h := Finset.card_filter_le (Finset.univ : Finset (Fin n)) (fun p => f (g.life p) = true)
  rw [Finset.card_univ, Fintype.card_fin] at h
  exact h

theorem countLife_congr {f : LifePc → Bool}
    (h : ∀ q, f (g'.life q) = f (g.life q)) : countLife f g' = countLife f g := by
  unfold countLife
  congr 1
  apply Finset.filter_congr
  intro q _
  rw [h q]

theorem countLife_insert {f : LifePc → Bool} (hold : f (g.life p) = false)
    (hnew : f (g'.life p) = true) (hrest : ∀ q, q ≠ p → g'.life q = g.life q) :
    countLife f g' = countLife f g + 1 := by
  unfold countLife
  have hnotin : p ∉ Finset.univ.filter fun q => f (g.life q) = true := by
    simp [hold]
  rw [← Finset.card_insert_of_notMem hnotin]
  congr 1
  apply Finset.ext
  intro q
  by_cases hq : q = p
  · subst hq
    simp [hnew]
  · simp [hq, hrest q hq]

theorem countLife_lt {f f' : LifePc → Bool} (hsub : ∀ l, f l = true → f' l = true)
    (hp : f (g.life p) = false) (hp' : f' (g.life p) = true) :
    countLife f g < countLife f' g := by
  apply Finset.card_lt_card
  constructor
  · intro q hq
    have hq' := (Finset.mem_filter.mp hq).2
    exact Finset.mem_filter.mpr ⟨Finset.mem_univ q, hsub _ hq'⟩
  · intro hle
    have hmem := hle (Finset.mem_filter.mpr ⟨Finset.mem_univ p, hp'⟩)
    rw [(Finset.mem_filter.mp hmem).2] at hp
    cases hp

theorem forall_of_countLife_eq {f : LifePc → Bool} (h : countLife f g = n) (q : Fin n) :
    f (g.life q) = true := by
  have huniv : (Finset.univ.filter fun p => f (g.life p) = true) = Finset.univ := by
    apply Finset.eq_univ_of_card
    rw [Fintype.card_fin]
    exact h
  have hq : q ∈ Finset.univ.filter fun p => f (g.life p) = true := by
    rw [huniv]
    exact Finset.mem_univ q
  exact (Finset.mem_filter.mp hq).2

theorem countLife_eq_of_forall {f : LifePc → Bool} (h : ∀ q, f (g.life q) = true) :
    countLife f g = n := by
  unfold countLife
  rw [Finset.filter_true_of_mem fun q _ => h q, Finset.card_univ, Fintype.card_fin]

theorem countLife_eq_zero {f : LifePc → Bool} (h : ∀ q, f (g.life q) = false) :
    countLife f g = 0 := by
  unfold countLife
  rw [Finset.filter_false_of_mem fun q _ => by simp [h q], Finset.card_empty]

/-- If only one participant is missing and `p` is missing, the others are
there. -/
theorem forall_ne_of_countLife {f : LifePc → Bool} (h : n ≤ countLife f g + 1)
    (hp : f (g.life p) = false) {q : Fin n} (hq : q ≠ p) : f (g.life q) = true := by
  by_contra hfq
  -- two missing participants leave room for at most n - 2
  have hsub : (Finset.univ.filter fun r => f (g.life r) = true)
      ⊆ (Finset.univ.erase p).erase q := by
    intro r hr
    have hr' := (Finset.mem_filter.mp hr).2
    refine Finset.mem_erase.mpr ⟨?_, Finset.mem_erase.mpr ⟨?_, Finset.mem_univ r⟩⟩
    · intro hrq
      rw [hrq] at hr'
      exact hfq hr'
    · intro hrp
      rw [hrp, hp] at hr'
      cases hr'
  have hcard := Finset.card_le_card hsub
  rw [Finset.card_erase_of_mem (Finset.mem_erase.mpr ⟨hq, Finset.mem_univ q⟩),
      Finset.card_erase_of_mem (Finset.mem_univ p), Finset.card_univ,
      Fintype.card_fin] at hcard
  have hpq : p.val ≠ q.val := fun h => hq (Fin.ext h.symm)
  have hp' := p.isLt
  have hq' := q.isLt
  unfold countLife at h
  omega

/-! ## §2. The invariant. -/

/-- Before the creation of the segment. -/
structure Unborn (g : Group n) : Prop where
  life : ∀ p, g.life p = .start ∨ g.life p = .opened
  created : ∀ p, g.created p = false
  users : ∀ p, g.wait.users p = User.fresh
  shmName : g.shmName = false
  semName : ∀ p, g.life p = .opened → g.semName = true

/-- After the creation: participants and counters. -/
structure Core (rounds k : Nat) (g : Group n) : Prop where
  round : RoundInv n k g.wait
  entered_le : ∀ p, (g.wait.users p).entered ≤ rounds
  creator : ∃ c, ∀ p, g.created p = true ↔ p = c
  nUsers : g.wait.shm.nUsers + countLife LifePc.hasDeparted g =
    countLife LifePc.hasJoined g
  fresh : ∀ p, (g.life p).isAdmitted = false → g.wait.users p = User.fresh
  admitted : ∀ p, (g.life p).isAdmitted = true → ∀ q, (g.life q).hasJoined = true
  departed : ∀ p, (g.life p).hasDeparted = true → rounds ≤ (g.wait.users p).completed
  last : ∀ p, (g.life p).isLast = true → ∀ q, q ≠ p → (g.life q).hasDeparted = true
  last_unique : ∀ p q, (g.life p).isLast = true → (g.life q).isLast = true → p = q
  exists_last : (∀ p, (g.life p).hasDeparted = true) → ∃ p, (g.life p).isLast = true

/-- After the creation: a name is gone exactly when the last participant has
unlinked it. -/
structure Names (g : Group n) : Prop where
  shm : g.shmName = false ↔ ∃ p, (g.life p).unlinkedShm = true
  sem : g.semName = false ↔ ∃ p, (g.life p).unlinkedSem = true
  placed : ∀ p, (g.life p).isPlaced = true

/-- After the creation of the segment. -/
structure Live (rounds k : Nat) (g : Group n) : Prop extends Core rounds k g, Names g

/-! ## §3. How positions relate. -/

theorem LifePc.hasJoined_of_isAdmitted {l : LifePc} (h : l.isAdmitted = true) :
    l.hasJoined = true := by
  cases l <;> simp_all [LifePc.isAdmitted, LifePc.hasJoined]

theorem LifePc.isAdmitted_of_hasDeparted {l : LifePc} (h : l.hasDeparted = true) :
    l.isAdmitted = true := by
  cases l <;> simp_all [LifePc.isAdmitted, LifePc.hasDeparted]

theorem LifePc.hasJoined_of_hasDeparted (l : LifePc) (h : l.hasDeparted = true) :
    l.hasJoined = true :=
  LifePc.hasJoined_of_isAdmitted (LifePc.isAdmitted_of_hasDeparted h)

theorem LifePc.hasDeparted_of_isLast {l : LifePc} (h : l.isLast = true) :
    l.hasDeparted = true := by
  cases l <;> simp_all [LifePc.isLast, LifePc.hasDeparted]

theorem LifePc.isLast_of_unlinkedShm {l : LifePc} (h : l.unlinkedShm = true) :
    l.isLast = true := by
  cases l with
  | departed last todo =>
      cases last with
      | true => rfl
      | false => cases h
  | _ => cases h

theorem LifePc.isLast_of_unlinkedSem {l : LifePc} (h : l.unlinkedSem = true) :
    l.isLast = true := by
  cases l with
  | departed last todo =>
      cases last with
      | true => rfl
      | false => cases h
  | _ => cases h

/-- Two positions that no field of `Core` tells apart. -/
structure LifePc.Same (l l' : LifePc) : Prop where
  joined : l'.hasJoined = l.hasJoined
  admitted : l'.isAdmitted = l.isAdmitted
  departed : l'.hasDeparted = l.hasDeparted
  last : l'.isLast = l.isLast

theorem LifePc.Same.refl (l : LifePc) : LifePc.Same l l := ⟨rfl, rfl, rfl, rfl⟩

/-- Moves between positions `Core` does not tell apart keep it. -/
theorem Core.relabel (h : Core rounds k g) (hwait : g'.wait = g.wait)
    (hcreated : g'.created = g.created)
    (hsame : ∀ q, LifePc.Same (g.life q) (g'.life q)) : Core rounds k g' where
  round := by
    rw [hwait]
    exact h.round
  entered_le := by
    rw [hwait]
    exact h.entered_le
  creator := by
    rw [hcreated]
    exact h.creator
  nUsers := by
    rw [hwait, countLife_congr fun q => (hsame q).departed,
        countLife_congr fun q => (hsame q).joined]
    exact h.nUsers
  fresh := by
    intro q hq
    rw [hwait]
    exact h.fresh q ((hsame q).admitted ▸ hq)
  admitted := by
    intro q hq r
    rw [(hsame r).joined]
    exact h.admitted q ((hsame q).admitted ▸ hq) r
  departed := by
    intro q hq
    rw [hwait]
    exact h.departed q ((hsame q).departed ▸ hq)
  last := by
    intro q hq r hr
    rw [(hsame r).departed]
    exact h.last q ((hsame q).last ▸ hq) r hr
  last_unique := by
    intro q r hq hr
    exact h.last_unique q r ((hsame q).last ▸ hq) ((hsame r).last ▸ hr)
  exists_last := by
    intro hall
    obtain ⟨q, hq⟩ := h.exists_last fun r => (hsame r).departed ▸ hall r
    exact ⟨q, (hsame q).last.trans hq⟩

/-- The relabelling of one participant. -/
theorem same_of_update {l : LifePc} (hl : g'.life p = l) (hsame : LifePc.Same (g.life p) l)
    (hrest : ∀ q, q ≠ p → g'.life q = g.life q) (q : Fin n) :
    LifePc.Same (g.life q) (g'.life q) := by
  by_cases hq : q = p
  · subst hq
    rw [hl]
    exact hsame
  · rw [hrest q hq]
    exact .refl _

/-! ## §4. Consequences. -/

/-- `n_users_` never exceeds the participants that have joined. -/
theorem Core.nUsers_le (h : Core rounds k g) :
    g.wait.shm.nUsers ≤ countLife LifePc.hasJoined g := by
  have hn := h.nUsers
  omega

/-- Somebody still in the constructor means nobody has left it. -/
theorem Core.not_admitted (h : Core rounds k g) (hp : (g.life p).hasJoined = false) (q : Fin n) :
    (g.life q).isAdmitted = false := by
  cases hq : (g.life q).isAdmitted with
  | false => rfl
  | true =>
      have hj := h.admitted q hq p
      rw [hp] at hj
      cases hj

theorem Core.not_departed (h : Core rounds k g) (hp : (g.life p).hasJoined = false) (q : Fin n) :
    (g.life q).hasDeparted = false := by
  cases hq : (g.life q).hasDeparted with
  | false => rfl
  | true =>
      have ha := h.not_admitted hp q
      rw [LifePc.isAdmitted_of_hasDeparted hq] at ha
      cases ha

/-- A joined participant that has not departed is counted in `n_users_`. -/
theorem Core.nUsers_pos (h : Core rounds k g) (hj : (g.life p).hasJoined = true)
    (hd : (g.life p).hasDeparted = false) : 0 < g.wait.shm.nUsers := by
  have hn := h.nUsers
  have hlt := countLife_lt LifePc.hasJoined_of_hasDeparted hd hj
  omega

/-- Before anybody has joined the segment is as its creator left it. -/
theorem Core.shm_fresh (h : Core rounds k g) (hpos : 0 < n)
    (hnone : ∀ q, (g.life q).hasJoined = false) : g.wait.shm = ShmData.fresh := by
  have hfresh : ∀ q, g.wait.users q = User.fresh := by
    intro q
    exact h.fresh q (h.not_admitted (hnone q) q)
  have hk : k = 0 := by
    have hb := h.round.entered_bounds ⟨0, hpos⟩
    rw [hfresh] at hb
    exact Nat.le_zero.mp hb.1
  have hcount : g.wait.shm.count = 0 := by
    rw [h.round.count_eq, Finset.card_eq_zero]
    apply Finset.filter_eq_empty_iff.mpr
    intro q _
    rw [hfresh q]
    exact (Nat.succ_ne_zero k).symm
  have hsense : g.wait.shm.sharedSense = false := by
    rw [h.round.shared, hk]
    rfl
  have husers : g.wait.shm.nUsers = 0 := by
    have hn := h.nUsers
    rw [countLife_eq_zero hnone] at hn
    omega
  rw [show g.wait.shm = ⟨g.wait.shm.count, g.wait.shm.sharedSense, g.wait.shm.nUsers⟩ from rfl,
      hcount, hsense, husers]
  rfl

/-! ## §5. One step. -/

/-- The creation: from the first phase to round 0 of the second. -/
theorem Unborn.create (h : Unborn g) (hl : g.life p = .opened) :
    Live rounds 0 { (g.withShm ShmData.fresh).setLife p .mapped with
      shmName := true
      created := Function.update g.created p true } := by
  have hlife : ∀ q, (((g.withShm ShmData.fresh).setLife p .mapped).life q).hasJoined = false := by
    intro q
    by_cases hq : q = p
    · subst hq
      rw [Group.setLife_self]
      rfl
    · rw [Group.setLife_of_ne _ _ hq]
      show (g.life q).hasJoined = false
      rcases h.life q with hs | hs <;> rw [hs] <;> rfl
  have hadm : ∀ q, (((g.withShm ShmData.fresh).setLife p .mapped).life q).isAdmitted ≠ true := by
    intro q hq
    have hj := LifePc.hasJoined_of_isAdmitted hq
    rw [hlife q] at hj
    cases hj
  have hdep : ∀ q, (((g.withShm ShmData.fresh).setLife p .mapped).life q).hasDeparted ≠ true :=
    fun q hq => hadm q (LifePc.isAdmitted_of_hasDeparted hq)
  have hlast : ∀ q, (((g.withShm ShmData.fresh).setLife p .mapped).life q).isLast ≠ true :=
    fun q hq => hdep q (LifePc.hasDeparted_of_isLast hq)
  refine ⟨⟨RoundInv.init p.pos rfl rfl h.users, ?_, ⟨p, ?_⟩, ?_, fun q _ => h.users q,
    fun q hq => absurd hq (hadm q), fun q hq => absurd hq (hdep q),
    fun q hq => absurd hq (hlast q), fun q _ hq => absurd hq (hlast q),
    fun hall => absurd (hall p) (hdep p)⟩, ⟨?_, ?_, ?_⟩⟩
  · intro q
    show (g.wait.users q).entered ≤ rounds
    rw [h.users q]
    exact Nat.zero_le rounds
  · intro q
    show Function.update g.created p true q = true ↔ q = p
    by_cases hq : q = p
    · simp [hq]
    · simp [hq, h.created q]
  · have hdep' := fun q => Bool.eq_false_iff.mpr (hdep q)
    exact (Nat.zero_add _).trans ((countLife_eq_zero hdep').trans (countLife_eq_zero hlife).symm)
  · constructor
    · intro hname
      cases hname
    · intro hname
      obtain ⟨q, hq⟩ := hname
      exact absurd (LifePc.isLast_of_unlinkedShm hq) (hlast q)
  · constructor
    · intro hname
      exact absurd ((h.semName p hl).symm.trans hname) (by decide)
    · intro hname
      obtain ⟨q, hq⟩ := hname
      exact absurd (LifePc.isLast_of_unlinkedSem hq) (hlast q)
  · intro q
    by_cases hq : q = p
    · subst hq
      show LifePc.isPlaced (Function.update g.life q .mapped q) = true
      rw [Function.update_self]
      rfl
    · show LifePc.isPlaced (Function.update g.life p .mapped q) = true
      rw [Function.update_of_ne hq]
      rcases h.life q with hs | hs <;> rw [hs] <;> rfl

/-- Joining: one more joined participant, one more user. -/
theorem Core.join (hn : n < wordSize) (h : Core rounds k g) (hl : g.life p = .mapped) :
    Core rounds k ((g.withShm g.wait.shm.join).setLife p .joining) := by
  have hpj : (g.life p).hasJoined = false := by rw [hl]; rfl
  have hle := h.nUsers_le
  have hcount := countLife_le LifePc.hasJoined g
  have hself : ((g.withShm g.wait.shm.join).setLife p .joining).life p = .joining :=
    Group.setLife_self _ p _
  have hrest : ∀ q, q ≠ p →
      ((g.withShm g.wait.shm.join).setLife p .joining).life q = g.life q :=
    fun q hq => Group.setLife_of_ne _ _ hq
  have hins : countLife LifePc.hasJoined ((g.withShm g.wait.shm.join).setLife p .joining)
      = countLife LifePc.hasJoined g + 1 :=
    countLife_insert hpj (by rw [hself]; rfl) hrest
  have hle' := countLife_le LifePc.hasJoined ((g.withShm g.wait.shm.join).setLife p .joining)
  -- nobody is out of the constructor, before or after
  have hadm : ∀ q,
      (((g.withShm g.wait.shm.join).setLife p .joining).life q).isAdmitted = false := by
    intro q
    by_cases hq : q = p
    · subst hq
      rw [hself]
      rfl
    · rw [hrest q hq]
      exact h.not_admitted hpj q
  have hdep : ∀ q,
      (((g.withShm g.wait.shm.join).setLife p .joining).life q).hasDeparted = false := by
    intro q
    apply Bool.eq_false_iff.mpr
    intro hq
    have ha := LifePc.isAdmitted_of_hasDeparted hq
    rw [hadm q] at ha
    cases ha
  refine ⟨?_, h.entered_le, h.creator, ?_, ?_, ?_, ?_, ?_, ?_, ?_⟩
  · exact h.round.withShm (ShmData.join_count _) (ShmData.join_sharedSense _)
  · have hdep0 : countLife LifePc.hasDeparted g = 0 :=
      countLife_eq_zero fun q => h.not_departed hpj q
    have hn' := h.nUsers
    have hadd : add64 g.wait.shm.nUsers 1 = g.wait.shm.nUsers + 1 := add64_eq (by omega)
    rw [hins, countLife_eq_zero hdep]
    show add64 g.wait.shm.nUsers 1 + 0 = _
    rw [hadd]
    omega
  · intro q _
    exact h.fresh q (h.not_admitted hpj q)
  · intro q hq
    rw [hadm q] at hq
    cases hq
  · intro q hq
    rw [hdep q] at hq
    cases hq
  · intro q hq
    have hd := LifePc.hasDeparted_of_isLast hq
    rw [hdep q] at hd
    cases hd
  · intro q r hq
    have hd := LifePc.hasDeparted_of_isLast hq
    rw [hdep q] at hd
    cases hd
  · intro hall
    have hd := hall p
    rw [hdep p] at hd
    cases hd

/-- Leaving the join loop: everybody has joined. -/
theorem Core.letIn (h : Core rounds k g) (hl : g.life p = .joining)
    (hall : n ≤ g.wait.shm.nUsers) : Core rounds k (g.setLife p .running) := by
  have hle := h.nUsers_le
  have hcount := countLife_le LifePc.hasJoined g
  have hjoined : ∀ q, (g.life q).hasJoined = true :=
    forall_of_countLife_eq (f := LifePc.hasJoined) (by omega)
  have hdiff : ∀ f : LifePc → Bool, f .running = f .joining →
      ∀ q, f ((g.setLife p .running).life q) = f (g.life q) := by
    intro f hf q
    by_cases hq : q = p
    · subst hq
      rw [Group.setLife_self, hl]
      exact hf
    · rw [Group.setLife_of_ne _ _ hq]
  have hj := hdiff LifePc.hasJoined rfl
  have hd := hdiff LifePc.hasDeparted rfl
  have ht := hdiff LifePc.isLast rfl
  refine ⟨h.round, h.entered_le, h.creator, ?_, ?_, ?_, ?_, ?_, ?_, ?_⟩
  · rw [countLife_congr hd, countLife_congr hj]
    exact h.nUsers
  · intro q hq
    by_cases hqp : q = p
    · subst hqp
      rw [Group.setLife_self] at hq
      cases hq
    · rw [Group.setLife_of_ne _ _ hqp] at hq
      exact h.fresh q hq
  · intro q _ r
    rw [hj r]
    exact hjoined r
  · intro q hq
    rw [hd q] at hq
    exact h.departed q hq
  · intro q hq r hr
    rw [hd r]
    rw [ht q] at hq
    exact h.last q hq r hr
  · intro q r hq hr
    rw [ht q] at hq
    rw [ht r] at hr
    exact h.last_unique q r hq hr
  · intro hdall
    obtain ⟨q, hq⟩ := h.exists_last fun r => (hd r).symm.trans (hdall r)
    exact ⟨q, (ht q).trans hq⟩

/-- A step of `Wait()`. -/
theorem Core.wait (hn : n < wordSize) (h : Core rounds k g) (hl : g.life p = .running)
    {w : State n} (hw : waitStep n rounds g.wait p = some w) :
    ∃ k', Core rounds k' { g with wait := w } := by
  have hrest : ∀ q, q ≠ p → w.users q = g.wait.users q :=
    fun q hq => waitStep_users_of_ne hw hq
  have hentered : ∀ q, (w.users q).entered ≤ rounds := by
    intro q
    have hq := h.entered_le q
    rcases waitStep_entered hw q with h' | h' <;> omega
  have hround : ∃ k', RoundInv n k' w := by
    rcases h.round.step hn hw with h' | h'
    · exact ⟨k, h'.1⟩
    · exact ⟨k + 1, h'.1⟩
  obtain ⟨k', hk'⟩ := hround
  refine ⟨k', hk', hentered, h.creator, ?_, ?_, h.admitted, ?_, h.last,
    h.last_unique, h.exists_last⟩
  · show w.shm.nUsers + _ = _
    rw [waitStep_nUsers hw]
    exact h.nUsers
  · intro q hq
    have hqp : q ≠ p := by
      rintro rfl
      rw [hl] at hq
      cases hq
    show w.users q = User.fresh
    rw [hrest q hqp]
    exact h.fresh q hq
  · intro q hq
    have hqp : q ≠ p := by
      rintro rfl
      rw [hl] at hq
      cases hq
    show rounds ≤ (w.users q).completed
    rw [hrest q hqp]
    exact h.departed q hq

/-- The decrement: exact, and it reads 1 exactly when the others are gone. -/
theorem Core.depart (h : Core rounds k g) (hl : g.life p = .running)
    (hge : rounds ≤ (g.wait.users p).completed) :
    sub64 g.wait.shm.nUsers 1 = g.wait.shm.nUsers - 1 ∧ 0 < g.wait.shm.nUsers ∧
      Core rounds k ((g.withShm g.wait.shm.depart).setLife p
        (.departed (g.wait.shm.nUsers == 1) .semClose)) := by
  have hpj : (g.life p).hasJoined = true := by rw [hl]; rfl
  have hpd : (g.life p).hasDeparted = false := by rw [hl]; rfl
  have hpos := h.nUsers_pos hpj hpd
  have hle := h.nUsers_le
  have hcount := countLife_le LifePc.hasJoined g
  have hsub : sub64 g.wait.shm.nUsers 1 = g.wait.shm.nUsers - 1 :=
    sub64_eq hpos
  refine ⟨hsub, hpos, ?_⟩
  set g' := (g.withShm g.wait.shm.depart).setLife p
    (.departed (g.wait.shm.nUsers == 1) .semClose) with hg'
  have hself : g'.life p = .departed (g.wait.shm.nUsers == 1) .semClose :=
    Group.setLife_self _ p _
  have hrest : ∀ q, q ≠ p → g'.life q = g.life q := fun q hq => Group.setLife_of_ne _ _ hq
  have hsame : ∀ f : LifePc → Bool, f (g'.life p) = f (g.life p) →
      ∀ q, f (g'.life q) = f (g.life q) := by
    intro f hf q
    by_cases hq : q = p
    · subst hq
      exact hf
    · rw [hrest q hq]
  have hj := hsame LifePc.hasJoined (by rw [hself, hl]; rfl)
  have ha := hsame LifePc.isAdmitted (by rw [hself, hl]; rfl)
  have hins : countLife LifePc.hasDeparted g' = countLife LifePc.hasDeparted g + 1 :=
    countLife_insert hpd (by rw [hself]; rfl) hrest
  have hjoined : countLife LifePc.hasJoined g = n :=
    countLife_eq_of_forall (h.admitted p (by rw [hl]; rfl))
  have hnu := h.nUsers
  refine ⟨?_, h.entered_le, h.creator, ?_, ?_, ?_, ?_, ?_, ?_, ?_⟩
  · exact h.round.withShm (ShmData.depart_count _) (ShmData.depart_sharedSense _)
  · rw [hins, countLife_congr hj]
    show sub64 g.wait.shm.nUsers 1 + _ = _
    rw [hsub]
    omega
  · intro q hq
    rw [ha q] at hq
    exact h.fresh q hq
  · intro q hq r
    rw [hj r]
    rw [ha q] at hq
    exact h.admitted q hq r
  · intro q hq
    by_cases hqp : q = p
    · subst hqp
      exact hge
    · rw [hrest q hqp] at hq
      exact h.departed q hq
  · intro q hq r hr
    by_cases hqp : q = p
    · -- it read 1: the joined and not departed are `p` alone
      subst hqp
      rw [hself] at hq
      have hone : g.wait.shm.nUsers = 1 := by simpa [LifePc.isLast] using hq
      rw [hrest r hr]
      exact forall_ne_of_countLife (by omega) hpd hr
    · rw [hrest q hqp] at hq
      have hd := h.last q hq p (Ne.symm hqp)
      rw [hpd] at hd
      cases hd
  · -- an older last one would have found `p` departed
    have hold : ∀ q, q ≠ p → (g'.life q).isLast ≠ true := by
      intro q hqp hq
      rw [hrest q hqp] at hq
      have hd := h.last q hq p (Ne.symm hqp)
      rw [hpd] at hd
      cases hd
    intro q r hq hr
    by_cases hqp : q = p
    · by_cases hrp : r = p
      · rw [hqp, hrp]
      · exact absurd hr (hold r hrp)
    · exact absurd hq (hold q hqp)
  · intro hall
    have hn' := countLife_eq_of_forall hall
    refine ⟨p, ?_⟩
    rw [hself]
    show (g.wait.shm.nUsers == 1) = true
    rw [beq_iff_eq]
    omega

end Akbench.Barrier
