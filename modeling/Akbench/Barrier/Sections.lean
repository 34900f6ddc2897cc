/-
  Akbench.Barrier.Sections
  ────────────────────────
  **`SenseReversingBarrier` ONE ACCESS AT A TIME.**

  In `Akbench.Barrier.Lifecycle` each `sem_wait … sem_post` section is one
  step.  Here the class runs access by access: `sem_wait`, every load and every
  store of `ShmData`, every `shm_open`, `sem_post`, in any interleaving with
  everything the other participants do.

    • `Section.body` — the accesses of each section, in the order of the code;
    • `lifeSections_lawful` — the sections are `lifeStep`, and what runs outside
      of them does not interfere;
    • `life_by_access` — mutual exclusion, atomicity, absence of hangs, and the
      second `shm_open` of a constructor never fails.
-/
import Akbench.Barrier.Hang
import Akbench.Lib.Sections

namespace Akbench.Barrier

variable {n rounds : Nat} {g g' : Group n} {p q : Fin n}

/-! ## §1. The sections. -/

inductive Section where
  /-- Create or open the segment. -/
  | opening
  /-- `n_users_++`. -/
  | joining
  /-- `n_users_ >= n_`. -/
  | gathering
  /-- The first section of `Wait()`. -/
  | entering
  /-- The section in the loop of `Wait()`. -/
  | polling
  /-- The section of the destructor. -/
  | departing
  deriving DecidableEq, Repr

/-- A system call or an access to `*shm_data_` inside a section. -/
inductive Access where
  /-- `shm_open(O_CREAT | O_RDWR | O_EXCL)`. -/
  | shmOpenExcl
  | ftruncate
  | clearCount
  | clearSharedSense
  | clearUsers
  /-- `shm_open(O_RDWR)`. -/
  | shmOpen
  | loadUsers
  | storeUsersUp
  | storeUsersDown
  | testUsers
  | loadCount
  | storeCount
  | testCount
  | loadSharedSense
  | storeSharedSense
  | resetCount
  | testReversed
  deriving DecidableEq, Repr

/-- The accesses of a section; those of both branches of an `if`, which are
made or not by what the registers hold. -/
def Section.body : Section → List Access
  | .opening => [.shmOpenExcl, .ftruncate, .clearCount, .clearSharedSense, .clearUsers, .shmOpen]
  | .joining => [.loadUsers, .storeUsersUp]
  | .gathering => [.testUsers]
  | .entering =>
      [.loadCount, .storeCount, .testCount, .loadSharedSense, .storeSharedSense, .resetCount]
  | .polling => [.testReversed]
  | .departing => [.loadUsers, .storeUsersDown]

/-- What a participant holds besides `sense_`. -/
structure Registers where
  /-- `shm_fd_ >= 0`. -/
  hasFd : Bool
  /-- `shm_open(O_EXCL)` succeeded. -/
  creator : Bool
  /-- `n_users_` as loaded; the destructor's `remaining_users`. -/
  users : Nat
  allUsersJoined : Bool
  count : Nat
  lastUser : Bool
  sharedSense : Bool
  reversed : Bool
  deriving DecidableEq, Repr

def Registers.fresh : Registers := ⟨false, false, 0, false, 0, false, false, false⟩

/-- What the accesses read and write: the segment, and whether its name is
taken. -/
structure Shared where
  shm : ShmData
  shmName : Bool

/-- One access of a participant with `sense_ = sense`. -/
def access (n : Nat) (sense : Bool) (m : Shared) (r : Registers) : Access → Shared × Registers
  | .shmOpenExcl =>
      if m.shmName then (m, { r with hasFd := false, creator := false })
      else ({ m with shmName := true }, { r with hasFd := true, creator := true })
  -- a new object reads as zeros
  | .ftruncate => if r.creator then ({ m with shm := ⟨0, false, 0⟩ }, r) else (m, r)
  | .clearCount => if r.creator then ({ m with shm := { m.shm with count := 0 } }, r) else (m, r)
  | .clearSharedSense =>
      if r.creator then ({ m with shm := { m.shm with sharedSense := false } }, r) else (m, r)
  | .clearUsers => if r.creator then ({ m with shm := { m.shm with nUsers := 0 } }, r) else (m, r)
  | .shmOpen => if r.creator then (m, r) else (m, { r with hasFd := m.shmName })
  | .loadUsers => (m, { r with users := m.shm.nUsers })
  | .storeUsersUp => ({ m with shm := { m.shm with nUsers := add64 r.users 1 } }, r)
  | .storeUsersDown => ({ m with shm := { m.shm with nUsers := sub64 r.users 1 } }, r)
  | .testUsers => (m, { r with allUsersJoined := decide (n ≤ m.shm.nUsers) })
  | .loadCount => (m, { r with count := m.shm.count })
  | .storeCount => ({ m with shm := { m.shm with count := add64 r.count 1 } }, r)
  | .testCount => (m, { r with lastUser := decide (m.shm.count = n) })
  | .loadSharedSense =>
      if r.lastUser then (m, { r with sharedSense := m.shm.sharedSense }) else (m, r)
  | .storeSharedSense =>
      if r.lastUser then ({ m with shm := { m.shm with sharedSense := !r.sharedSense } }, r)
      else (m, r)
  | .resetCount => if r.lastUser then ({ m with shm := { m.shm with count := 0 } }, r) else (m, r)
  | .testReversed => (m, { r with reversed := waitPoll m.shm sense })

def Group.memory (g : Group n) : Shared := ⟨g.wait.shm, g.shmName⟩

def Group.withMemory (g : Group n) (m : Shared) : Group n :=
  { g with wait := { g.wait with shm := m.shm }, shmName := m.shmName }

def perform (n : Nat) (p : Fin n) (a : Access) (m : Group n × Registers) : Group n × Registers :=
  let t := access n (m.1.wait.users p).sense m.1.memory m.2 a
  (m.1.withMemory t.1, t.2)

/-- The section `p` enters with its next step, if that is a `sem_wait`. -/
def enterSection (rounds : Nat) (g : Group n) (p : Fin n) : Option Section :=
  match g.life p with
  | .start | .departed _ _ => none
  | .opened => some .opening
  | .mapped => some .joining
  | .joining => some .gathering
  | .running =>
      if (g.wait.users p).completed < rounds then
        match (g.wait.users p).pc with
        | .idle => if (g.wait.users p).entered < rounds then some .entering else none
        | .polling => some .polling
        | .passed => none
      else some .departing

/-- On from `sem_post`. -/
def leaveSection (p : Fin n) (k : Section) (m : Group n × Registers) : Group n :=
  let g := m.1
  let r := m.2
  let u := g.wait.users p
  match k with
  | .opening =>
      { g.setLife p .mapped with
        created := if r.creator then Function.update g.created p true else g.created }
  | .joining => g.setLife p .joining
  | .gathering => if r.allUsersJoined then g.setLife p .running else g
  | .entering =>
      let pc := if r.lastUser then .passed else .polling
      { g with wait := g.wait.setUser p { u with pc := pc, entered := u.entered + 1 } }
  | .polling =>
      if r.reversed then g else { g with wait := g.wait.setUser p { u with pc := .passed } }
  | .departing => g.setLife p (.departed (r.users == 1) .semClose)

/-- The lives of `n` participants with their sections as the code has them. -/
def lifeSections (n rounds : Nat) : Sections (Fin n) (Group n) Registers Section Access where
  whole := lifeSystem n rounds
  enter := enterSection rounds
  body := Section.body
  registers := .fresh
  perform := perform n
  leave := leaveSection

/-! ## §2. A section by itself is a step of the life. -/

theorem complete_opening (hl : g.life p = .opened) :
    lifeStep n rounds g p =
      some ((lifeSections n rounds).complete p .opening (Section.body .opening) (g, .fresh)) := by
  simp only [lifeStep, hl, openSegment]
  obtain ⟨⟨shm, users⟩, semName, shmName, life, created⟩ := g
  cases shmName <;> rfl

theorem complete_joining (hl : g.life p = .mapped) :
    lifeStep n rounds g p =
      some ((lifeSections n rounds).complete p .joining (Section.body .joining) (g, .fresh)) := by
  simp only [lifeStep, hl]
  rfl

theorem complete_gathering (hl : g.life p = .joining) :
    lifeStep n rounds g p =
      some ((lifeSections n rounds).complete p .gathering (Section.body .gathering)
        (g, .fresh)) := by
  simp only [lifeStep, hl]
  by_cases hall : n ≤ g.wait.shm.nUsers
  · rw [if_pos hall]
    have hjoined : decide (n ≤ g.wait.shm.nUsers) = true := decide_eq_true hall
    show _ = some (if decide (n ≤ g.wait.shm.nUsers) then g.setLife p .running else g)
    rw [hjoined]
    rfl
  · rw [if_neg hall]
    have hjoined : decide (n ≤ g.wait.shm.nUsers) = false := decide_eq_false hall
    show _ = some (if decide (n ≤ g.wait.shm.nUsers) then g.setLife p .running else g)
    rw [hjoined]
    rfl

theorem complete_entering (hl : g.life p = .running)
    (hlt : (g.wait.users p).completed < rounds) (hpc : (g.wait.users p).pc = .idle)
    (hent : (g.wait.users p).entered < rounds) :
    lifeStep n rounds g p =
      some ((lifeSections n rounds).complete p .entering (Section.body .entering)
        (g, .fresh)) := by
  have hwait : waitStep n rounds g.wait p =
      some (State.setUser { g.wait with shm := (waitEnter n g.wait.shm).1 } p
        { g.wait.users p with
          pc := if (waitEnter n g.wait.shm).2 then .passed else .polling
          entered := (g.wait.users p).entered + 1 }) := by
    unfold waitStep
    simp only [hpc, if_pos hent]
  rw [lifeStep_wait hl hlt hwait]
  -- what `count_ == n_` yields decides the rest of the section
  let counted : Group n := g.withShm { g.wait.shm with count := add64 g.wait.shm.count 1 }
  let tested (last : Bool) : Registers :=
    { Registers.fresh with count := g.wait.shm.count, lastUser := last }
  let rest : List Access := [.loadSharedSense, .storeSharedSense, .resetCount]
  show _ = some (leaveSection p .entering (rest.foldl (fun m a => perform n p a m)
    (counted, tested (decide (add64 g.wait.shm.count 1 = n)))))
  by_cases hlast : add64 g.wait.shm.count 1 = n
  · have henter : waitEnter n g.wait.shm =
        ({ g.wait.shm with sharedSense := !g.wait.shm.sharedSense, count := 0 }, true) :=
      if_pos hlast
    rw [henter, decide_eq_true hlast]
    rfl
  · have henter : waitEnter n g.wait.shm =
        ({ g.wait.shm with count := add64 g.wait.shm.count 1 }, false) := if_neg hlast
    rw [henter, decide_eq_false hlast]
    rfl

theorem complete_polling (hl : g.life p = .running)
    (hlt : (g.wait.users p).completed < rounds) (hpc : (g.wait.users p).pc = .polling) :
    lifeStep n rounds g p =
      some ((lifeSections n rounds).complete p .polling (Section.body .polling) (g, .fresh)) := by
  have hwait : waitStep n rounds g.wait p =
      if waitPoll g.wait.shm (g.wait.users p).sense then some g.wait
      else some (g.wait.setUser p { g.wait.users p with pc := .passed }) := by
    unfold waitStep
    simp only [hpc]
  show _ = some (if waitPoll g.wait.shm (g.wait.users p).sense then g
    else { g with wait := g.wait.setUser p { g.wait.users p with pc := .passed } })
  cases hpoll : waitPoll g.wait.shm (g.wait.users p).sense with
  | true =>
      rw [hpoll] at hwait
      exact lifeStep_wait hl hlt hwait
  | false =>
      rw [hpoll] at hwait
      exact lifeStep_wait hl hlt hwait

theorem complete_departing (hl : g.life p = .running)
    (hge : ¬ (g.wait.users p).completed < rounds) :
    lifeStep n rounds g p =
      some ((lifeSections n rounds).complete p .departing (Section.body .departing)
        (g, .fresh)) := by
  rw [lifeStep_depart hl hge]
  rfl

/-- **A section by itself is the step of the life it stands for.** -/
theorem complete_section {k : Section} (h : enterSection rounds g p = some k) :
    lifeStep n rounds g p =
      some ((lifeSections n rounds).complete p k k.body (g, .fresh)) := by
  unfold enterSection at h
  cases hl : g.life p with
  | start | departed _ _ =>
      rw [hl] at h
      cases h
  | opened =>
      rw [hl] at h
      cases h
      exact complete_opening hl
  | mapped =>
      rw [hl] at h
      cases h
      exact complete_joining hl
  | joining =>
      rw [hl] at h
      cases h
      exact complete_gathering hl
  | running =>
      rw [hl] at h
      dsimp only at h
      split at h
      next hlt =>
        cases hpc : (g.wait.users p).pc with
        | idle =>
            rw [hpc] at h
            obtain ⟨hent, rfl⟩ := System.guard_cases h
            exact complete_entering hl hlt hpc hent
        | polling =>
            rw [hpc] at h
            cases h
            exact complete_polling hl hlt hpc
        | passed =>
            rw [hpc] at h
            cases h
      next hge =>
        cases h
        exact complete_departing hl hge

/-! ## §3. What runs outside of the sections. -/

/-- A step of `q` that takes no semaphore, as a change of its own position
and of the two names. -/
def Group.outer (g : Group n) (q : Fin n) (l : LifePc) (u : User) (sem : Bool → Bool)
    (unlink : Bool) : Group n where
  wait := g.wait.setUser q u
  semName := sem g.semName
  shmName := if unlink then false else g.shmName
  life := Function.update g.life q l
  created := g.created

/-- Where `q`'s `User` stays as it is. -/
theorem outer_same {l : LifePc} {u : User} {sem : Bool → Bool} {unlink : Bool}
    (hu : g.wait.users q = u) :
    g.outer q l u sem unlink = { g.setLife q l with
      semName := sem g.semName
      shmName := if unlink then false else g.shmName } := by
  subst hu
  unfold Group.outer State.setUser
  rw [Function.update_eq_self]
  rfl

/-- **A step outside of the sections reads nothing but its own position**, and
it clears the segment's name only as the last `shm_unlink`. -/
theorem outer_of_step (hout : enterSection rounds g q = none)
    (hs : lifeStep n rounds g q = some g') :
    ∃ l u sem unlink, (unlink = true → ∃ last, g.life q = .departed last .shmUnlink) ∧
      ∀ h : Group n, h.life q = g.life q → h.wait.users q = g.wait.users q →
        lifeStep n rounds h q = some (h.outer q l u sem unlink) := by
  unfold enterSection at hout
  cases hl : g.life q with
  | opened | mapped | joining =>
      rw [hl] at hout
      cases hout
  | start =>
      refine ⟨.opened, g.wait.users q, fun _ => true, false, nofun, fun h hlife huser => ?_⟩
      rw [outer_same huser, lifeStep_start hlife]
      rfl
  | departed last todo =>
      have hclean : ∀ h : Group n, h.life q = .departed last todo →
          lifeStep n rounds h q = cleanupStep h q last todo := fun h hlife =>
        lifeStep_departed hlife
      cases todo with
      | semClose =>
          refine ⟨.departed last (if last then .semUnlink else .munmap), g.wait.users q, id, false,
            nofun, fun h hlife huser => ?_⟩
          rw [outer_same huser, hclean h hlife]
          rfl
      | semUnlink =>
          refine ⟨.departed last .munmap, g.wait.users q, fun _ => false, false, nofun,
            fun h hlife huser => ?_⟩
          rw [outer_same huser, hclean h hlife]
          rfl
      | munmap =>
          refine ⟨.departed last .shmClose, g.wait.users q, id, false, nofun,
            fun h hlife huser => ?_⟩
          rw [outer_same huser, hclean h hlife]
          rfl
      | shmClose =>
          refine ⟨.departed last (if last then .shmUnlink else .done), g.wait.users q, id, false,
            nofun, fun h hlife huser => ?_⟩
          rw [outer_same huser, hclean h hlife]
          rfl
      | shmUnlink =>
          refine ⟨.departed last .done, g.wait.users q, id, true, fun _ => ⟨last, rfl⟩,
            fun h hlife huser => ?_⟩
          rw [outer_same huser, hclean h hlife]
          rfl
      | done =>
          rw [lifeStep_departed hl] at hs
          cases hs
  | running =>
      rw [hl] at hout
      dsimp only at hout
      split at hout
      next hlt =>
        cases hpc : (g.wait.users q).pc with
        | polling =>
            rw [hpc] at hout
            cases hout
        | idle =>
            -- no calls left, and none of them to return from
            rw [hpc] at hout
            dsimp only at hout
            split at hout
            next => cases hout
            next hge =>
              simp only [lifeStep, hl, if_pos hlt, waitStep, hpc, if_neg hge] at hs
              cases hs
        | passed =>
            refine ⟨.running, { g.wait.users q with
              sense := !(g.wait.users q).sense
              pc := .idle
              completed := (g.wait.users q).completed + 1 }, id, false, nofun,
              fun h hlife huser => ?_⟩
            have hpassed : (h.wait.users q).pc = .passed := by
              rw [huser]
              exact hpc
            rw [lifeStep_wait hlife (by rw [huser]; exact hlt) (waitStep_return hpassed), huser]
            unfold Group.outer
            rw [← hlife, Function.update_eq_self]
            rfl
      next => cases hout

/-! ## §4. The two do not interfere. -/

variable {l : LifePc} {u : User} {sem : Bool → Bool} {unlink : Bool} {r : Registers}

/-- The accesses to the name of the segment. -/
def Access.byName : Access → Bool
  | .shmOpenExcl | .shmOpen => true
  | _ => false

/-- The other accesses pass the name on. -/
theorem access_name {a : Access} (h : a.byName = false) (sense : Bool) (d : ShmData) (b b' : Bool) :
    access n sense ⟨d, b'⟩ r a =
      (⟨(access n sense ⟨d, b⟩ r a).1.shm, b'⟩, (access n sense ⟨d, b⟩ r a).2) ∧
    (access n sense ⟨d, b⟩ r a).1.shmName = b := by
  obtain ⟨hasFd, creator, users, all, count, last, shared, reversed⟩ := r
  cases a with
  | shmOpenExcl | shmOpen => cases h
  | ftruncate | clearCount | clearSharedSense | clearUsers =>
      cases creator <;> exact ⟨rfl, rfl⟩
  | loadSharedSense | storeSharedSense | resetCount =>
      cases last <;> exact ⟨rfl, rfl⟩
  | _ => exact ⟨rfl, rfl⟩

/-- And leave the descriptor alone. -/
theorem access_fd {a : Access} (h : a.byName = false) (sense : Bool) (m : Shared) :
    (access n sense m r a).2.hasFd = r.hasFd ∧ (access n sense m r a).2.creator = r.creator := by
  obtain ⟨hasFd, creator, users, all, count, last, shared, reversed⟩ := r
  cases a with
  | shmOpenExcl | shmOpen => cases h
  | ftruncate | clearCount | clearSharedSense | clearUsers =>
      cases creator <;> exact ⟨rfl, rfl⟩
  | loadSharedSense | storeSharedSense | resetCount =>
      cases last <;> exact ⟨rfl, rfl⟩
  | _ => exact ⟨rfl, rfl⟩

theorem perform_outer (hq : q ≠ p) {a : Access} (h : unlink = true → a.byName = false) :
    perform n p a (g.outer q l u sem unlink, r) =
      ((perform n p a (g, r)).1.outer q l u sem unlink, (perform n p a (g, r)).2) := by
  have hsense : ((g.outer q l u sem unlink).wait.users p).sense = (g.wait.users p).sense := by
    show ((g.wait.setUser q u).users p).sense = _
    rw [State.setUser_of_ne _ _ hq.symm]
  unfold perform
  dsimp only
  rw [hsense]
  cases unlink with
  | false => rfl
  | true =>
      obtain ⟨hsame, hname⟩ := access_name (n := n) (r := r) (h rfl) (g.wait.users p).sense
        g.wait.shm g.shmName false
      show (Group.withMemory _ (access n _ ⟨g.wait.shm, false⟩ r a).1,
        (access n _ ⟨g.wait.shm, false⟩ r a).2) = _
      rw [hsame]
      rfl

theorem leave_outer (hq : q ≠ p) (k : Section) :
    leaveSection p k (g.outer q l u sem unlink, r) =
      (leaveSection p k (g, r)).outer q l u sem unlink := by
  have huser : (g.outer q l u sem unlink).wait.users p = g.wait.users p :=
    State.setUser_of_ne _ _ hq.symm
  have hlife : ∀ l', (g.outer q l u sem unlink).setLife p l' =
      (g.setLife p l').outer q l u sem unlink := by
    intro l'
    unfold Group.outer Group.setLife
    dsimp only
    rw [Function.update_comm hq.symm]
  have hset : ∀ u', (g.outer q l u sem unlink).wait.setUser p u' =
      (g.wait.setUser p u').setUser q u := by
    intro u'
    unfold Group.outer State.setUser
    dsimp only
    rw [Function.update_comm hq.symm]
  unfold leaveSection
  dsimp only
  cases k with
  | opening =>
      dsimp only
      rw [hlife]
      rfl
  | joining | departing => exact hlife _
  | gathering =>
      dsimp only
      rw [hlife]
      split
      next => rfl
      next => rfl
  | entering =>
      dsimp only
      rw [huser, hset]
      rfl
  | polling =>
      dsimp only
      rw [huser, hset]
      split
      next => rfl
      next => rfl

/-- **The rest of a section and a step outside of it commute.** -/
theorem complete_outer (hq : q ≠ p) (k : Section) (rest : List Access)
    (h : unlink = true → ∀ a, a ∈ rest → a.byName = false) : ∀ (g : Group n) (r : Registers),
    (lifeSections n rounds).complete p k rest (g.outer q l u sem unlink, r) =
      ((lifeSections n rounds).complete p k rest (g, r)).outer q l u sem unlink := by
  induction rest with
  | nil =>
      intro g r
      exact leave_outer hq k
  | cons a rest ih =>
      intro g r
      have hperform : perform n p a (g.outer q l u sem unlink, r) = _ :=
        perform_outer hq fun hu => h hu a List.mem_cons_self
      have hrest : unlink = true → ∀ a, a ∈ rest → a.byName = false :=
        fun hu b hb => h hu b (List.mem_cons_of_mem a hb)
      show (lifeSections n rounds).complete p k rest
        (perform n p a (g.outer q l u sem unlink, r)) = _
      rw [hperform]
      exact ih hrest _ _

/-- The rest of a section moves only its party. -/
theorem complete_other (rounds : Nat) (hq : q ≠ p) (k : Section) (rest : List Access) :
    ∀ (g : Group n) (r : Registers),
    ((lifeSections n rounds).complete p k rest (g, r)).life q = g.life q ∧
      ((lifeSections n rounds).complete p k rest (g, r)).wait.users q = g.wait.users q := by
  induction rest with
  | nil =>
      intro g r
      show (leaveSection p k (g, r)).life q = g.life q ∧
        (leaveSection p k (g, r)).wait.users q = g.wait.users q
      unfold leaveSection
      cases k with
      | opening | joining | departing => exact ⟨Group.setLife_of_ne _ _ hq, rfl⟩
      | gathering =>
          dsimp only
          split
          next => exact ⟨Group.setLife_of_ne _ _ hq, rfl⟩
          next => exact ⟨rfl, rfl⟩
      | entering => exact ⟨rfl, State.setUser_of_ne _ _ hq⟩
      | polling =>
          dsimp only
          split
          next => exact ⟨rfl, rfl⟩
          next => exact ⟨rfl, State.setUser_of_ne _ _ hq⟩
  | cons a rest ih =>
      intro g r
      exact ih (perform n p a (g, r)).1 (perform n p a (g, r)).2

/-- With its section completed whoever opens the segment has it mapped. -/
theorem complete_opening_life (rest : List Access) : ∀ (g : Group n) (r : Registers),
    ((lifeSections n rounds).complete p .opening rest (g, r)).life p = .mapped := by
  induction rest with
  | nil =>
      intro g r
      exact Group.setLife_self g p .mapped
  | cons a rest ih =>
      intro g r
      exact ih (perform n p a (g, r)).1 (perform n p a (g, r)).2

/-- Only the section that opens the segment uses its name. -/
theorem byName_of_body : ∀ k : Section, k ≠ .opening → ∀ a ∈ k.body, a.byName = false := by
  intro k
  cases k with
  | opening => exact fun h => absurd rfl h
  | _ => exact fun _ => by decide

/-- At the last `shm_unlink` everybody else has departed. -/
theorem departed_of_shmUnlink (hn : n < wordSize) (hg : (lifeSystem n rounds).Reachable g)
    {last : Bool} (hl : g.life q = .departed last .shmUnlink) (hp : p ≠ q) :
    (g.life p).hasDeparted = true := by
  rcases phase_of_reachable hn hg with hu | ⟨k, hk⟩
  · rcases hu.life q with hl' | hl' <;> rw [hl] at hl' <;> cases hl'
  · have hplaced := hk.placed q
    cases last with
    | false =>
        rw [hl] at hplaced
        cases hplaced
    | true => exact hk.last q (by rw [hl]; rfl) p hp

/-- **The class is made of sections.** -/
theorem lifeSections_lawful (hn : n < wordSize) : (lifeSections n rounds).Lawful where
  whole _ _ _ h := complete_section h
  apart g g' r p q k rest hq hrest hout hs hreach := by
    obtain ⟨l, u, sem, unlink, hunlink, hstep⟩ := outer_of_step hout hs
    have hg' := hs.symm.trans (hstep g rfl rfl)
    injection hg' with hg'
    obtain ⟨hlife, huser⟩ := complete_other rounds hq k rest g r
    rw [hg', complete_outer hq k rest (fun hu a ha => ?_)]
    · exact hstep _ hlife huser
    · -- the name is not unlinked while somebody opens the segment
      obtain ⟨last, hl⟩ := hunlink hu
      by_cases hk : k = .opening
      · subst hk
        have hdeparted := departed_of_shmUnlink hn hreach (hlife.trans hl) hq.symm
        rw [complete_opening_life] at hdeparted
        cases hdeparted
      · exact byName_of_body k hk a (hrest.subset ha)

/-! ## §5. The class access by access. -/

/-- The class with one system call or one access for each step. -/
def accessSystem (n rounds : Nat) :
    System (Sections.State (Fin n) (Group n) Registers Section Access) (Fin n) :=
  (lifeSections n rounds).byAccess

variable {x x' : Sections.State (Fin n) (Group n) Registers Section Access}

/-- Whoever opens the segment and has tried `O_EXCL` finds its name taken, and
has a descriptor when it is through. -/
def Opening (x : Sections.State (Fin n) (Group n) Registers Section Access) : Prop :=
  ∀ p rest r, x.inside p = some ⟨.opening, rest, r⟩ → rest ≠ Section.opening.body →
    x.shared.shmName = true ∧ (r.creator = true ∨ rest = [] → r.hasFd = true)

/-- The suffixes of the section, but for all of it. -/
theorem suffix_opening {a : Access} {rest : List Access}
    (h : a :: rest <:+ Section.opening.body) :
    (a = .shmOpenExcl ∧ rest ≠ []) ∨ (a = .shmOpen ∧ rest = []) ∨
      (a.byName = false ∧ rest ≠ [] ∧ a :: rest ≠ Section.opening.body) := by
  have hmem := (List.mem_tails _ _).mpr h
  simp only [Section.body, List.tails, List.mem_cons, List.cons.injEq, List.not_mem_nil,
    reduceCtorEq, or_false] at hmem
  rcases hmem with ⟨rfl, rfl⟩ | ⟨rfl, rfl⟩ | ⟨rfl, rfl⟩ | ⟨rfl, rfl⟩ | ⟨rfl, rfl⟩ | ⟨rfl, rfl⟩
  all_goals decide

/-- An access of the opening section. -/
theorem opening_access {a : Access} {rest : List Access} {r : Registers}
    (hrest : a :: rest <:+ Section.opening.body)
    (h : a :: rest ≠ Section.opening.body →
      g.shmName = true ∧ (r.creator = true ∨ a :: rest = [] → r.hasFd = true)) :
    (perform n p a (g, r)).1.shmName = true ∧
      ((perform n p a (g, r)).2.creator = true ∨ rest = [] →
        (perform n p a (g, r)).2.hasFd = true) := by
  rcases suffix_opening hrest with ⟨rfl, hne⟩ | ⟨rfl, rfl⟩ | ⟨hbyName, hne, hbody⟩
  · -- whether or not the name was free, it is taken now
    unfold perform access
    cases hname : g.shmName with
    | true => simp [Group.memory, Group.withMemory, hname, hne]
    | false => simp [Group.memory, Group.withMemory, hname]
  · obtain ⟨hname, hfd⟩ := h (by decide)
    unfold perform access
    cases hcreator : r.creator with
    | true => exact ⟨hname, fun _ => hfd (.inl hcreator)⟩
    | false => exact ⟨hname, fun _ => hname⟩
  · obtain ⟨hname, hfd⟩ := h hbody
    obtain ⟨hsame, hcreator⟩ := access_fd (n := n) (r := r) hbyName (g.wait.users p).sense g.memory
    refine ⟨(access_name hbyName _ g.wait.shm g.shmName false).2.trans hname, ?_⟩
    rintro (hc | hnil)
    · exact hsame.trans (hfd (.inl (hcreator.symm.trans hc)))
    · exact absurd hnil hne

/-- **The name stays taken while somebody opens the segment.** -/
theorem Opening.step (hn : n < wordSize) (h : Opening x)
    (hviews : Sections.Views (lifeSections n rounds) x g)
    (hreach : (lifeSystem n rounds).Reachable g)
    (hs : (accessSystem n rounds).step x p = some x') : Opening x' := by
  unfold accessSystem Sections.byAccess at hs
  dsimp only at hs
  intro q rest r hin hbody
  cases hp : x.inside p with
  | some i =>
      obtain ⟨k, todo, t⟩ := i
      rw [hp] at hs
      -- nobody else is inside, before or after
      have hother : q ≠ p → x.inside q = none := by
        intro hq
        by_contra hne
        exact hq (hviews.unique hne (by rw [hp]; nofun))
      cases todo with
      | nil =>
          injection hs with hs
          subst hs
          have hin' : Function.update x.inside p none q = some ⟨.opening, rest, r⟩ := hin
          by_cases hq : q = p
          · rw [hq, Function.update_self] at hin'
            cases hin'
          · rw [Function.update_of_ne hq, hother hq] at hin'
            cases hin'
      | cons a todo =>
          injection hs with hs
          subst hs
          have hin' : Function.update x.inside p _ q = some ⟨.opening, rest, r⟩ := hin
          by_cases hq : q = p
          · rw [hq, Function.update_self] at hin'
            injection hin' with hin'
            injection hin' with hk htodo ht
            subst hk htodo ht
            exact opening_access (hviews.eq_complete hp).2 (h p _ t hp)
          · rw [Function.update_of_ne hq, hother hq] at hin'
            cases hin'
  | none =>
      rw [hp] at hs
      cases henter : enterSection rounds x.shared p with
      | some k =>
          rw [show (lifeSections n rounds).enter x.shared p = _ from henter] at hs
          obtain ⟨_, rfl⟩ := System.guard_cases hs
          have hin' : Function.update x.inside p _ q = some ⟨.opening, rest, r⟩ := hin
          by_cases hq : q = p
          · rw [hq, Function.update_self] at hin'
            injection hin' with hin'
            injection hin' with hk htodo ht
            subst hk
            exact absurd htodo.symm hbody
          · rw [Function.update_of_ne hq] at hin'
            exact h q rest r hin' hbody
      | none =>
          rw [show (lifeSections n rounds).enter x.shared p = _ from henter] at hs
          obtain ⟨g', hstep, rfl⟩ := Option.map_eq_some_iff.mp hs
          have hin' : x.inside q = some ⟨.opening, rest, r⟩ := hin
          obtain ⟨hname, hfd⟩ := h q rest r hin' hbody
          refine ⟨?_, hfd⟩
          obtain ⟨l, u, sem, unlink, hunlink, houter⟩ := outer_of_step henter hstep
          have hg' := hstep.symm.trans (houter x.shared rfl rfl)
          injection hg' with hg'
          show g'.shmName = true
          rw [hg']
          cases unlink with
          | false => exact hname
          | true =>
              -- whoever unlinks it is the last one
              have hpq : p ≠ q := by
                rintro rfl
                rw [hp] at hin'
                cases hin'
              obtain ⟨last, hl⟩ := hunlink rfl
              have hview := (hviews.eq_complete hin').1
              have hlife := (complete_other rounds hpq .opening rest x.shared r).1
              rw [hview] at hreach
              have hdeparted := departed_of_shmUnlink hn hreach (hlife.trans hl) hpq.symm
              rw [complete_opening_life] at hdeparted
              cases hdeparted

theorem opening_of_reachable (hn : n < wordSize) (h : (accessSystem n rounds).Reachable x) :
    Opening x := by
  have hlawful : (lifeSections n rounds).Lawful := lifeSections_lawful hn
  refine (System.invariant (I := fun x => Opening x ∧ ∃ g,
    Sections.Views (lifeSections n rounds) x g ∧ (lifeSystem n rounds).Reachable g) ?_ ?_ h).1
  · intro y hy
    refine ⟨fun p rest r hin => ?_, y.shared, .free hy.2.1 hy.2.2, .of_init hy.1⟩
    rw [hy.2.2 p] at hin
    cases hin
  · rintro y p y' ⟨hopening, g, hviews, hreach⟩ hs
    exact ⟨hopening.step hn hviews hreach hs, hviews.step hlawful hreach hs⟩

/-- What holds of every state of the class run access by access. -/
structure ByAccess (n rounds : Nat)
    (x : Sections.State (Fin n) (Group n) Registers Section Access) : Prop where
  /-- One participant at a time is between `sem_wait` and `sem_post`. -/
  exclusive : ∀ p q, x.inside p ≠ none → x.inside q ≠ none → p = q
  /-- With its section completed the state is one in which sections are
  steps. -/
  atomic : ∃ g, Sections.Views (lifeSections n rounds) x g ∧ (lifeSystem n rounds).Reachable g
  /-- The `shm_open` that finds `EEXIST` is followed by one that succeeds. -/
  opened : ∀ p r, x.inside p = some ⟨.opening, [], r⟩ → r.hasFd = true
  /-- Until every destructor has returned somebody can make an access. -/
  progress : n = 1 ∨ 1 ≤ rounds → (∃ p, (x.shared.life p).isFinished = false) →
    (accessSystem n rounds).CanProgress x
  /-- And not just those of a failed poll: accesses lead on to a step that
  changes the state. -/
  advances : n = 1 ∨ 1 ≤ rounds → ∀ g, Sections.Views (lifeSections n rounds) x g →
    (∃ p, (g.life p).isFinished = false) →
    ∃ p g', (lifeSystem n rounds).step g p = some g' ∧ g' ≠ g ∧
      (accessSystem n rounds).Steps (fun _ _ => True) x (.outside g')

/-- **The class, access by access**: whatever the interleaving of loads, stores
and system calls, sections exclude each other and are atomic, opening a segment
that exists succeeds, and in no state are failed polls all that is left; and
with nobody inside a section the states reached are those reached with sections
as steps. -/
theorem life_by_access (n rounds : Nat) (hn : n < wordSize) :
    (∀ x, (accessSystem n rounds).Reachable x → ByAccess n rounds x) ∧
      ∀ g, (accessSystem n rounds).Reachable (.outside g) ↔ (lifeSystem n rounds).Reachable g := by
  have hlawful : (lifeSections n rounds).Lawful := lifeSections_lawful hn
  refine ⟨fun x hx => ?_, fun g => ⟨fun hg => ?_, Sections.byAccess_of_reachable hlawful⟩⟩
  · obtain ⟨g, hviews, hg⟩ := Sections.reachable_views hlawful hx
    refine ⟨fun p q => hviews.unique, ⟨g, hviews, hg⟩, fun p r hin => ?_, fun hR hmore => ?_,
      fun hR v hv hmore => ?_⟩
    · have hopening := opening_of_reachable hn hx
      exact (hopening p [] r hin (by decide)).2 (.inr rfl)
    · cases hviews with
      | held p k rest r hsem hin => exact Sections.inside_canProgress hin
      | free hsem hout =>
          exact Sections.byAccess_progress (.free hsem hout)
            ((neverHangs_of hn hR x.shared hg).1 hmore)
    · obtain rfl := hv.eq_of_views hviews
      obtain ⟨p, g', hstep, hne⟩ := (neverHangs_of hn hR v hg).1 hmore
      exact ⟨p, g', hstep, hne, hviews.steps hlawful hstep⟩
  · obtain ⟨v, hviews, hv⟩ := Sections.reachable_views hlawful hg
    cases hviews with
    | free hsem hout => exact hv
    | held p k rest r hsem hin => cases hin

/-- Participant 0 has counted itself in and not compared yet; participant 1 is
kept waiting by the semaphore. -/
theorem life_by_access_two : ∃ x, (accessSystem 2 1).Reachable x ∧ ByAccess 2 1 x ∧
    x.shared.wait.shm.count = 1 ∧ (x.inside 0).isSome = true ∧
    ((accessSystem 2 1).step x 1).isNone = true := by
  have hinit : (accessSystem 2 1).init (.outside (Group.initial ShmData.fresh)) :=
    ⟨(Group.initial_init _ : (lifeSystem 2 1).init _), rfl, fun _ => rfl⟩
  obtain ⟨x, hx, hstate⟩ : ∃ x, (accessSystem 2 1).Reachable x ∧
      (x.shared.wait.shm.count = 1 ∧ (x.inside 0).isSome = true ∧
        ((accessSystem 2 1).step x 1).isNone = true) :=
    System.exists_reachable_of_exec
      (List.flatten [
        -- the segment, `n_users_++`, and the loop that waits for all users
        List.replicate 13 0, List.replicate 13 1, List.replicate 3 0, List.replicate 3 1,
        -- into `Wait()`
        List.replicate 3 0])
      hinit (by decide +kernel)
  exact ⟨x, hx, (life_by_access 2 1 (by decide)).1 x hx, hstate⟩

end Akbench.Barrier
