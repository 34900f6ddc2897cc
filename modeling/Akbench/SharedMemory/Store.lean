/-
  Akbench.SharedMemory.Store
  ──────────────────────────
  **WHAT THE TWO PROCESSES HAVE OPEN AND MAPPED.**

  The creator of the object has it open from its creation to its `close`, and
  while it does, the name stands for it and it is as it was set up in this
  iteration.  The joiner opens it by name in between, so both processes have
  the same object.

    • `sessionStep_storeMove` — what a step does to descriptors, mappings,
      names and sizes;
    • `Store.alive` — no call fails;
    • `Store.step` — ownership is kept.
-/
import Akbench.SharedMemory.Control

namespace Akbench.SharedMemory

variable {c : Session} {s s' : State} {p q : Side}

/-! ## §1. What a step does to the store. -/

/-- Stages that open, map or close nothing. -/
def Stage.keeping : Stage → Bool
  | .create | .resize | .map | .joinOpen | .joinStat | .joinMap | .unmap | .unlink => false
  | _ => true

/-- `p` has what it had. -/
structure SameHoldings (s s' : State) (p : Side) : Prop where
  fd : (s'.party p).fd = (s.party p).fd
  mapping : (s'.party p).mapping = (s.party p).mapping
  length : (s'.party p).length = (s.party p).length
  stSize : (s'.party p).stSize = (s.party p).stSize

/-- The objects are as large and as old as they were, under the same name. -/
structure SameObjects (s s' : State) : Prop where
  name : s'.name = s.name
  size : ∀ id, (s'.object id).size = (s.object id).size
  setUp : ∀ id, (s'.object id).setUp = (s.object id).setUp

/-- What one step of `p` does to the store. -/
inductive StoreMove (c : Session) (p : Side) (s s' : State) : Prop where
  | keep (hst : (s.party p).stage.keeping = true) (hold : SameHoldings s s' p)
      (hobj : SameObjects s s')
  | create (hst : (s.party p).stage = .create)
      (hparty : s'.party p = { s.party p with
        stage := after c.program p (s.party p).stage
        fd := some (openCreate c s p).2 })
      (hname : s'.name = (openCreate c s p).1.name)
      (hobject : s'.object = (openCreate c s p).1.object)
  | resize (id : Nat) (hst : (s.party p).stage = .resize) (hid : (s.party p).fd = some id)
      (hold : SameHoldings s s' p) (hname : s'.name = s.name)
      (hobject : s'.object =
        Function.update s.object id { s.object id with size := c.totalSize })
  | map (id : Nat) (hst : (s.party p).stage = .map) (hid : (s.party p).fd = some id)
      (hfd : (s'.party p).fd = some id) (hmapping : (s'.party p).mapping = some id)
      (hlength : (s'.party p).length = c.totalSize) (hobj : SameObjects s s')
  | joinOpen (id : Nat) (hst : (s.party p).stage = .joinOpen) (hid : s.name = some id)
      (hfd : (s'.party p).fd = some id) (hobj : SameObjects s s')
  | joinStat (id : Nat) (hst : (s.party p).stage = .joinStat) (hid : (s.party p).fd = some id)
      (hfd : (s'.party p).fd = some id) (hsize : (s'.party p).stSize = (s.object id).size)
      (hobj : SameObjects s s')
  | joinMap (id : Nat) (hst : (s.party p).stage = .joinMap) (hid : (s.party p).fd = some id)
      (hfd : (s'.party p).fd = some id) (hmapping : (s'.party p).mapping = some id)
      (hlength : (s'.party p).length = joinSize c (s.party p))
      (hstSize : (s'.party p).stSize = (s.party p).stSize) (hobj : SameObjects s s')
  | unmap (hst : (s.party p).stage = .unmap) (hobj : SameObjects s s')
  | unlink (hst : (s.party p).stage = .unlink) (hname : s'.name = none)
  | fail (hbad : s.Failing p)

/-- A change of stage and iteration changes no holdings. -/
theorem sameHoldings_of_update {x : Party} (hparty : s'.party = Function.update s.party p x)
    (hfd : x.fd = (s.party p).fd) (hmapping : x.mapping = (s.party p).mapping)
    (hlength : x.length = (s.party p).length) (hstSize : x.stSize = (s.party p).stSize) :
    SameHoldings s s' p := by
  have hself : s'.party p = x := by
    rw [hparty, Function.update_self]
  exact ⟨by rw [hself, hfd], by rw [hself, hmapping], by rw [hself, hlength],
    by rw [hself, hstSize]⟩

theorem sameObjects_of_eq (hname : s'.name = s.name) (hobject : s'.object = s.object) :
    SameObjects s s' :=
  ⟨hname, fun _ => by rw [hobject], fun _ => by rw [hobject]⟩

/-- A change of memory only. -/
theorem sameObjects_of_memory {id : Nat} {m : Buffer} (hname : s'.name = s.name)
    (hobject : s'.object = Function.update s.object id { s.object id with memory := m }) :
    SameObjects s s' := by
  refine ⟨hname, ?_, ?_⟩
  · intro j
    rw [hobject]
    by_cases hj : j = id
    · rw [hj, Function.update_self]
    · rw [Function.update_of_ne hj]
  · intro j
    rw [hobject]
    by_cases hj : j = id
    · rw [hj, Function.update_self]
    · rw [Function.update_of_ne hj]

@[simp] theorem State.become_self (s : State) (p : Side) (x : Party) :
    (s.become p x).party p = x :=
  Function.update_self ..

/-- Stages of the barrier open, map and close nothing. -/
theorem Stage.keeping_of_barrier : ∀ st, Stage.arriving st = true ∨ Stage.leaving st = true →
    st.keeping = true := by
  decide

/-- **Every step of a process is a `StoreMove`.** -/
theorem sessionStep_storeMove (hs : sessionStep c s p = some s') : StoreMove c p s s' := by
  have hkeep : ∀ {st : Stage}, (s.party p).stage = st → st.keeping = true →
      (s.party p).stage.keeping = true := by
    intro st hst hk
    rw [hst]
    exact hk
  have hgo : ∀ {x : Party}, (s.party p).stage.keeping = true →
      s'.party = Function.update s.party p x → x.fd = (s.party p).fd →
      x.mapping = (s.party p).mapping → x.length = (s.party p).length →
      x.stSize = (s.party p).stSize → SameObjects s s' → StoreMove c p s s' := by
    intro x hk hparty hfd hmapping hlength hstSize hobj
    exact .keep hk (sameHoldings_of_update hparty hfd hmapping hlength hstSize) hobj
  cases sessionStep_cases hs with
  | arrive hst =>
      exact hgo (Stage.keeping_of_barrier _ (.inl hst)) rfl rfl rfl rfl rfl
        (sameObjects_of_eq rfl rfl)
  | leave hst hcan =>
      have hk : (s.party p).stage.keeping = true := by
        obtain hst | hst := hst
        · exact hkeep hst rfl
        · exact Stage.keeping_of_barrier _ (.inr hst)
      exact hgo hk rfl rfl rfl rfl rfl (sameObjects_of_eq rfl rfl)
  | generate hst hsize =>
      exact hgo (hkeep hst rfl) rfl rfl rfl rfl rfl (sameObjects_of_eq rfl rfl)
  | refuse hst hsmall =>
      exact hgo (hkeep hst rfl) rfl rfl rfl rfl rfl (sameObjects_of_eq rfl rfl)
  | begin hst hlt =>
      exact hgo (hkeep hst rfl) rfl rfl rfl rfl rfl (sameObjects_of_eq rfl rfl)
  | exit hst hge =>
      exact hgo (hkeep hst rfl) rfl rfl rfl rfl rfl (sameObjects_of_eq rfl rfl)
  | create hst =>
      have hparty := (openCreate_same c s p).1
      refine .create hst ?_ rfl rfl
      show Function.update (openCreate c s p).1.party p _ p = _
      rw [hparty, Function.update_self]
  | resize id hst hid =>
      exact .resize id hst hid (sameHoldings_of_update rfl rfl rfl rfl rfl) rfl rfl
  | map id hst hid =>
      exact .map id hst hid (by rw [State.become_self]; exact hid) (by rw [State.become_self])
        (by rw [State.become_self]) (sameObjects_of_eq rfl rfl)
  | clear id hst hid =>
      exact hgo (hkeep hst rfl) rfl rfl rfl rfl rfl (sameObjects_of_memory rfl rfl)
  | joinOpen id hst hid =>
      exact .joinOpen id hst hid (by rw [State.become_self]) (sameObjects_of_eq rfl rfl)
  | joinStat id hst hid =>
      exact .joinStat id hst hid (by rw [State.become_self]; exact hid)
        (by rw [State.become_self]) (sameObjects_of_eq rfl rfl)
  | joinMap id hst hid =>
      exact .joinMap id hst hid (by rw [State.become_self]; exact hid)
        (by rw [State.become_self]) (by rw [State.become_self]) (by rw [State.become_self])
        (sameObjects_of_eq rfl rfl)
  | enter hst hcan =>
      cases p with
      | sender => exact hgo (hkeep hst rfl) rfl rfl rfl rfl rfl (sameObjects_of_eq rfl rfl)
      | receiver => exact hgo (hkeep hst rfl) rfl rfl rfl rfl rfl (sameObjects_of_eq rfl rfl)
  | send id b m l hst hmap hturn =>
      exact .keep (hkeep hst rfl) ⟨rfl, rfl, rfl, rfl⟩ (sameObjects_of_memory rfl rfl)
  | receive id b l hst hmap hturn =>
      exact .keep (hkeep hst rfl) ⟨rfl, rfl, rfl, rfl⟩ (sameObjects_of_eq rfl rfl)
  | close hst hsend hreceive =>
      exact hgo (hkeep hst rfl) rfl rfl rfl rfl rfl (sameObjects_of_eq rfl rfl)
  | verify hst hok =>
      exact hgo (hkeep hst rfl) rfl rfl rfl rfl rfl (sameObjects_of_eq rfl rfl)
  | abort hst hbad =>
      exact hgo (hkeep hst rfl) rfl rfl rfl rfl rfl (sameObjects_of_eq rfl rfl)
  | unmap hst =>
      unfold State.goOn
      split
      next => exact .unmap hst (sameObjects_of_eq rfl rfl)
      next => exact .unmap hst (sameObjects_of_eq rfl rfl)
  | unlink hst =>
      unfold State.goOn
      split
      next => exact .unlink hst rfl
      next => exact .unlink hst rfl
  | fail hbad => exact .fail hbad

/-! ## §2. Who has what. -/

/-- The creator has the object open. -/
def Stage.opened : Stage → Bool
  | .resize | .map | .clear | .arrive1 | .wait1 | .arrive2 | .wait2 | .loop | .wait3 | .verifying
  | .unmap => true
  | _ => false

/-- The joiner has the object open, short of the last barrier. -/
def Stage.joined : Stage → Bool
  | .joinStat | .joinMap | .arrive2 | .wait2 | .loop => true
  | _ => false

/-- What the creator holds. -/
structure Owner (c : Session) (s : State) (id : Nat) : Prop where
  fd : (s.party c.program.creator).fd = some id
  name : s.name = some id
  setUp : (s.object id).setUp = (s.party c.program.creator).iteration
  size : (s.party c.program.creator).stage ≠ .resize → (s.object id).size = c.totalSize
  mapping : (s.party c.program.creator).stage ≠ .resize →
    (s.party c.program.creator).stage ≠ .map →
    (s.party c.program.creator).mapping = some id ∧
      (s.party c.program.creator).length = c.totalSize

/-- What the joiner holds. -/
structure Joined (c : Session) (s : State) : Prop where
  fd : (s.party c.program.joiner).fd = (s.party c.program.creator).fd
  size : (s.party c.program.joiner).stage ≠ .joinStat →
    joinSize c (s.party c.program.joiner) = c.totalSize
  mapping : (s.party c.program.joiner).stage ≠ .joinStat →
    (s.party c.program.joiner).stage ≠ .joinMap →
    (s.party c.program.joiner).mapping = (s.party c.program.creator).fd ∧
      (s.party c.program.joiner).length = c.totalSize

structure Store (c : Session) (s : State) : Prop where
  owner : (s.party c.program.creator).stage.opened = true → ∃ id, Owner c s id
  /-- `shm_bandwidth` creates a segment only where there is none. -/
  unnamed : c.program = .shm →
    (s.party c.program.creator).stage = .start ∨ (s.party c.program.creator).stage = .create ∨
      (s.party c.program.creator).stage = .exited → s.name = none
  joined : (s.party c.program.joiner).stage.joined = true → Joined c s

theorem creator_ne_joiner : ∀ program, Program.creator program ≠ Program.joiner program := by
  decide

theorem creator_or_joiner : ∀ program p, p = Program.creator program ∨
    p = Program.joiner program := by
  decide

theorem creator_route : ∀ program st, OnRoute program (Program.creator program) st →
    st ≠ .joinOpen ∧ st ≠ .joinStat ∧ st ≠ .joinMap := by
  decide

theorem joiner_route : ∀ program st, OnRoute program (Program.joiner program) st →
    st ≠ .create ∧ st ≠ .resize ∧ st ≠ .map ∧ st ≠ .clear ∧ st ≠ .unlink := by
  decide

theorem opened_of_near : ∀ program st, OnRoute program (Program.creator program) st →
    st.near program = true → st.opened = true ∧ st ≠ .resize ∧ st ≠ .map := by
  decide

theorem midway_of_joined : ∀ st, Stage.joined st = true → st.midway = true := by
  decide

/-- **While the joiner is midway the creator holds the object**, sized and
mapped. -/
theorem Store.owner_of_midway (h : Store c s) (hc : Control c s.barrier s.position)
    (hmid : (s.party c.program.joiner).stage.midway = true) :
    ∃ id, Owner c s id ∧ (s.party c.program.creator).stage ≠ .resize ∧
      (s.party c.program.creator).stage ≠ .map := by
  have hnear := (hc.near hmid c.program.creator).2
  obtain ⟨hopened, hresize, hmap⟩ :=
    opened_of_near _ _ (hc.valid c.program.creator).onRoute hnear
  obtain ⟨id, hid⟩ := h.owner hopened
  exact ⟨id, hid, hresize, hmap⟩

/-- **No call fails.** -/
theorem Store.good (h : Store c s) (hc : Control c s.barrier s.position) (p : Side) :
    ¬ s.Failing p := by
  have hroute : OnRoute c.program p (s.party p).stage := (hc.valid p).onRoute
  rcases creator_or_joiner c.program p with rfl | rfl
  · obtain ⟨hopen, hstat, hmap⟩ := creator_route _ _ hroute
    rintro (⟨hst, hfd⟩ | ⟨hst, hmapping⟩ | ⟨hst, hname⟩)
    · have hopened : (s.party c.program.creator).stage.opened = true := by
        rcases hst with hst | hst | hst | hst
        · rw [hst]; rfl
        · rw [hst]; rfl
        · exact absurd hst hstat
        · exact absurd hst hmap
      obtain ⟨id, hid⟩ := h.owner hopened
      rw [hid.fd] at hfd
      cases hfd
    · have hfacts : (s.party c.program.creator).stage.opened = true ∧
          (s.party c.program.creator).stage ≠ .resize ∧
          (s.party c.program.creator).stage ≠ .map := by
        rcases hst with hst | hst
        · rw [hst]; decide
        · rw [hst]; decide
      obtain ⟨id, hid⟩ := h.owner hfacts.1
      rw [(hid.mapping hfacts.2.1 hfacts.2.2).1] at hmapping
      cases hmapping
    · exact absurd hst hopen
  · obtain ⟨hcreate, hresize, hmap, hclear, hunlink⟩ := joiner_route _ _ hroute
    rintro (⟨hst, hfd⟩ | ⟨hst, hmapping⟩ | ⟨hst, hname⟩)
    · have hjoined : (s.party c.program.joiner).stage.joined = true := by
        rcases hst with hst | hst | hst | hst
        · exact absurd hst hresize
        · exact absurd hst hmap
        · rw [hst]; rfl
        · rw [hst]; rfl
      obtain ⟨id, hid, -⟩ := h.owner_of_midway hc (midway_of_joined _ hjoined)
      rw [(h.joined hjoined).fd, hid.fd] at hfd
      cases hfd
    · have hst : (s.party c.program.joiner).stage = .loop := hst.resolve_left hclear
      have hjoined : (s.party c.program.joiner).stage.joined = true := by rw [hst]; rfl
      have hmap := (h.joined hjoined).mapping (by rw [hst]; nofun) (by rw [hst]; nofun)
      obtain ⟨id, hid, -⟩ := h.owner_of_midway hc (midway_of_joined _ hjoined)
      rw [hmap.1, hid.fd] at hmapping
      cases hmapping
    · have hmid : (s.party c.program.joiner).stage.midway = true := by rw [hst]; rfl
      obtain ⟨id, hid, -⟩ := h.owner_of_midway hc hmid
      rw [hid.name] at hname
      cases hname

/-- The position of a process after a step. -/
theorem Store.position (h : Store c s) (hc : Control c s.barrier s.position)
    (hs : sessionStep c s p = some s') :
    Move c p (s.Failing p) s.barrier (s.position p) s'.barrier (s'.position p) ∧
      (∀ q, q ≠ p → Unmoved s s' q) ∧ (s'.party p).stage ≠ .failed := by
  have hunlink : ∀ program p, OnRoute program p .unlink → after program p .unlink = .start := by
    decide
  have hroute : OnRoute c.program p (s.party p).stage := (hc.valid p).onRoute
  obtain ⟨hmove, hother⟩ := sessionStep_move
    (fun hst => hunlink _ _ (by rw [hst] at hroute; exact hroute)) hs
  exact ⟨hmove, hother, hmove.alive hroute (h.good hc p)⟩

/-- **A step keeps the lockstep.** -/
theorem Store.control (h : Store c s) (hc : Control c s.barrier s.position)
    (hs : sessionStep c s p = some s') : Control c s'.barrier s'.position := by
  obtain ⟨hmove, hother, halive⟩ := h.position hc hs
  exact hc.move hmove (fun q hq => (hother q hq).position) halive

/-! ## §3. One step. -/

/-- The object a `create` ends up with. -/
theorem openCreate_owner (hname : c.program = .shm → s.name = none) :
    (openCreate c s p).1.name = some (openCreate c s p).2 ∧
      ((openCreate c s p).1.object (openCreate c s p).2).setUp = (s.party p).iteration := by
  unfold openCreate
  split
  next hnone =>
    refine ⟨rfl, ?_⟩
    show (Function.update s.object s.created _ s.created).setUp = _
    rw [Function.update_self]
    rfl
  next id hsome =>
    split
    next hprogram =>
      rw [hname hprogram] at hsome
      cases hsome
    next =>
      refine ⟨hsome, ?_⟩
      show (Function.update s.object id _ id).setUp = _
      rw [Function.update_self]
      rfl

theorem opened_after : ∀ program st, Stage.keeping st = true →
    (after program (Program.creator program) st).opened = true → st.opened = true := by
  decide

theorem unnamed_after : ∀ st, Stage.keeping st = true →
    after .shm .receiver st = .start ∨ after .shm .receiver st = .create → st = .start := by
  decide

theorem after_creator : ∀ program, after program (Program.creator program) .create = .resize ∧
    after program (Program.creator program) .resize = .map ∧
    (after program (Program.creator program) .map).keeping = true ∧
    (after program (Program.creator program) .unmap).opened = false := by
  decide

theorem Stage.keeping_facts : ∀ st, Stage.keeping st = true → st ≠ .resize ∧ st ≠ .map ∧
    st ≠ .joinStat ∧ st ≠ .joinMap := by
  decide

/-- The object is the owner's as long as nothing about it changes. -/
theorem Owner.keep {id : Nat} (h : Owner c s id) (hst : (s.party c.program.creator).stage ≠ .resize)
    (hst' : (s.party c.program.creator).stage ≠ .map)
    (hold : SameHoldings s s' c.program.creator) (hobj : SameObjects s s')
    (hiter : (s'.party c.program.creator).iteration = (s.party c.program.creator).iteration) :
    Owner c s' id where
  fd := by rw [hold.fd, h.fd]
  name := by rw [hobj.name, h.name]
  setUp := by rw [hobj.setUp, h.setUp, hiter]
  size _ := by rw [hobj.size, h.size hst]
  mapping _ _ := by
    rw [hold.mapping, hold.length]
    exact h.mapping hst hst'

/-- Where a step leads a process. -/
theorem Store.next (h : Store c s) (hc : Control c s.barrier s.position)
    (hs : sessionStep c s p = some s') :
    ((s'.party p).stage = after c.program p (s.party p).stage ∧
        ((s'.party p).stage ≠ .start → (s'.party p).iteration = (s.party p).iteration)) ∨
      ((s.party p).stage = .loop ∧ (s'.party p).stage = .loop ∧
        (s'.party p).iteration = (s.party p).iteration) ∨
      ((s.party p).stage = .start ∧ (s'.party p).stage = .exited) ∨
      ((s.party p).stage = .verifying ∧ (s'.party p).stage = .aborted) ∨
      ((s.party p).stage = .generating ∧ (s'.party p).stage = .refused) := by
  obtain ⟨hmove, -, halive⟩ := h.position hc hs
  exact hmove.next halive

/-- From most stages there is one way. -/
theorem Store.next_of_ne (h : Store c s) (hc : Control c s.barrier s.position)
    (hs : sessionStep c s p = some s')
    (hst : (s.party p).stage ≠ .loop ∧ (s.party p).stage ≠ .start ∧
      (s.party p).stage ≠ .verifying ∧ (s.party p).stage ≠ .generating) :
    (s'.party p).stage = after c.program p (s.party p).stage ∧
      ((s'.party p).stage ≠ .start → (s'.party p).iteration = (s.party p).iteration) := by
  obtain ⟨hloop, hstart, hverifying, hgenerating⟩ := hst
  rcases h.next hc hs with hn | hn | hn | hn | hn
  · exact hn
  · exact absurd hn.1 hloop
  · exact absurd hn.1 hstart
  · exact absurd hn.1 hverifying
  · exact absurd hn.1 hgenerating

/-- The creator's descriptor tells which object is its own. -/
theorem Store.owner_of {id : Nat} (h : Store c s)
    (hopened : (s.party c.program.creator).stage.opened = true)
    (hid : (s.party c.program.creator).fd = some id) : Owner c s id := by
  obtain ⟨id', hown⟩ := h.owner hopened
  rw [hown.fd] at hid
  injection hid with hid
  rw [← hid]
  exact hown

/-- What a step of the creator makes of its hold on the object. -/
theorem Store.owner_step (h : Store c s) (hc : Control c s.barrier s.position)
    (hs : sessionStep c s c.program.creator = some s')
    (hopened : (s'.party c.program.creator).stage.opened = true) : ∃ id, Owner c s' id := by
  have hroute : OnRoute c.program c.program.creator (s.party c.program.creator).stage :=
    (hc.valid _).onRoute
  obtain ⟨hcreate, hresize, hmap, hunmap⟩ := after_creator c.program
  cases sessionStep_storeMove hs with
  | keep hst hold hobj =>
      obtain ⟨hne, hne', -⟩ := Stage.keeping_facts _ hst
      rcases h.next hc hs with ⟨hn, hk⟩ | ⟨hn, hn', hk⟩ | ⟨-, hn⟩ | ⟨-, hn⟩ | ⟨-, hn⟩
      · have hopened' := hopened
        rw [hn] at hopened'
        obtain ⟨id, hid⟩ := h.owner (opened_after _ _ hst hopened')
        refine ⟨id, hid.keep hne hne' hold hobj (hk ?_)⟩
        intro heq
        rw [heq] at hopened
        cases hopened
      · obtain ⟨id, hid⟩ := h.owner (by rw [hn]; rfl)
        exact ⟨id, hid.keep hne hne' hold hobj hk⟩
      all_goals
        rw [hn] at hopened
        cases hopened
  | create hst hparty hname hobject =>
      obtain ⟨hn, hk⟩ := h.next_of_ne hc hs (by rw [hst]; decide)
      rw [hst, hcreate] at hn
      have hfree : c.program = .shm → s.name = none :=
        fun hprogram => h.unnamed hprogram (.inr (.inl hst))
      obtain ⟨hnamed, hsetUp⟩ := openCreate_owner (c := c) (p := c.program.creator) hfree
      refine ⟨(openCreate c s c.program.creator).2, ?_, ?_, ?_, ?_, ?_⟩
      · rw [hparty]
      · rw [hname, hnamed]
      · rw [hobject, hsetUp, hparty]
      · intro hne
        exact absurd hn hne
      · intro hne
        exact absurd hn hne
  | resize id hst hid hold hname hobject =>
      obtain ⟨hn, hk⟩ := h.next_of_ne hc hs (by rw [hst]; decide)
      rw [hst, hresize] at hn
      have hown := h.owner_of (by rw [hst]; rfl) hid
      refine ⟨id, ?_, ?_, ?_, ?_, ?_⟩
      · rw [hold.fd, hown.fd]
      · rw [hname, hown.name]
      · rw [hobject, Function.update_self, hk (by rw [hn]; nofun)]
        exact hown.setUp
      · intro _
        rw [hobject, Function.update_self]
      · intro _ hne
        exact absurd hn hne
  | map id hst hid hfd hmapping hlength hobj =>
      obtain ⟨hn, hk⟩ := h.next_of_ne hc hs (by rw [hst]; decide)
      have hne : (s'.party c.program.creator).stage ≠ .start := by
        intro heq
        rw [heq] at hopened
        cases hopened
      have hown := h.owner_of (by rw [hst]; rfl) hid
      refine ⟨id, hfd, ?_, ?_, ?_, ?_⟩
      · rw [hobj.name, hown.name]
      · rw [hobj.setUp, hown.setUp, hk hne]
      · intro _
        rw [hobj.size]
        exact hown.size (by rw [hst]; nofun)
      · intro _ _
        exact ⟨hmapping, hlength⟩
  | joinOpen id hst => exact absurd hst (creator_route _ _ hroute).1
  | joinStat id hst => exact absurd hst (creator_route _ _ hroute).2.1
  | joinMap id hst => exact absurd hst (creator_route _ _ hroute).2.2
  | unmap hst hobj =>
      obtain ⟨hn, -⟩ := h.next_of_ne hc hs (by rw [hst]; decide)
      rw [hst] at hn
      rw [hn, hunmap] at hopened
      cases hopened
  | unlink hst hname =>
      have hunlink :
          ∀ program, (after program (Program.creator program) .unlink).opened = false := by
        decide
      obtain ⟨hn, -⟩ := h.next_of_ne hc hs (by rw [hst]; decide)
      rw [hst] at hn
      rw [hn, hunlink] at hopened
      cases hopened
  | fail hbad => exact absurd hbad (h.good hc _)

theorem unnamed_stages : ∀ st, Stage.keeping st = false → st ≠ .unlink → st ≠ .joinOpen →
    st ≠ .joinStat → st ≠ .joinMap →
    after .shm .receiver st ≠ .start ∧ after .shm .receiver st ≠ .create ∧
      after .shm .receiver st ≠ .exited := by
  decide

theorem after_ne_stopped : ∀ program p st, after program p st ≠ .exited ∧
    after program p st ≠ .aborted := by
  decide

/-- The segment is unlinked when the creator comes round. -/
theorem Store.unnamed_step (h : Store c s) (hc : Control c s.barrier s.position)
    (hs : sessionStep c s c.program.creator = some s') (hprogram : c.program = .shm)
    (hst' : (s'.party c.program.creator).stage = .start ∨
      (s'.party c.program.creator).stage = .create ∨
      (s'.party c.program.creator).stage = .exited) : s'.name = none := by
  have hroute : OnRoute c.program c.program.creator (s.party c.program.creator).stage :=
    (hc.valid _).onRoute
  obtain ⟨hopen, hstat, hmap⟩ := creator_route _ _ hroute
  have hafter : after c.program c.program.creator = after .shm .receiver := by
    rw [hprogram]
    rfl
  -- a stage that changes the name or a descriptor leads elsewhere
  have hother : ∀ st, (s.party c.program.creator).stage = st → st.keeping = false →
      st ≠ .unlink → False := by
    intro st hst hkeep hne
    rw [hst] at hopen hstat hmap
    obtain ⟨hn, -⟩ := h.next_of_ne hc hs (by
      rw [hst]
      refine ⟨?_, ?_, ?_, ?_⟩
      all_goals
        rintro rfl
        cases hkeep)
    obtain ⟨h1, h2, h3⟩ := unnamed_stages st hkeep hne hopen hstat hmap
    rw [hst, hafter] at hn
    rw [hn] at hst'
    rcases hst' with heq | heq | heq
    · exact h1 heq
    · exact h2 heq
    · exact h3 heq
  cases sessionStep_storeMove hs with
  | keep hst hold hobj =>
      have hold' : (s.party c.program.creator).stage = .start := by
        rcases h.next hc hs with ⟨hn, -⟩ | ⟨-, hn, -⟩ | ⟨hn, -⟩ | ⟨-, hn⟩ | ⟨-, hn⟩
        · rw [hn, hafter] at hst'
          rcases hst' with heq | heq | heq
          · exact unnamed_after _ hst (.inl heq)
          · exact unnamed_after _ hst (.inr heq)
          · exact absurd heq (after_ne_stopped _ _ _).1
        · rw [hn] at hst'
          rcases hst' with heq | heq | heq <;> cases heq
        · exact hn
        all_goals
          rw [hn] at hst'
          rcases hst' with heq | heq | heq <;> cases heq
      rw [hobj.name]
      exact h.unnamed hprogram (.inl hold')
  | create hst => exact (hother _ hst rfl nofun).elim
  | resize id hst => exact (hother _ hst rfl nofun).elim
  | map id hst => exact (hother _ hst rfl nofun).elim
  | joinOpen id hst => exact absurd hst hopen
  | joinStat id hst => exact absurd hst hstat
  | joinMap id hst => exact absurd hst hmap
  | unmap hst => exact (hother _ hst rfl nofun).elim
  | unlink hst hname => exact hname
  | fail hbad => exact absurd hbad (h.good hc _)

/-- Most stages change no holdings. -/
theorem Store.hold (h : Store c s) (hc : Control c s.barrier s.position)
    (hs : sessionStep c s p = some s') (hkeep : (s.party p).stage.keeping = true) :
    SameHoldings s s' p := by
  cases sessionStep_storeMove hs with
  | keep hst hold hobj => exact hold
  | create hst => rw [hst] at hkeep; cases hkeep
  | resize id hst => rw [hst] at hkeep; cases hkeep
  | map id hst => rw [hst] at hkeep; cases hkeep
  | joinOpen id hst => rw [hst] at hkeep; cases hkeep
  | joinStat id hst => rw [hst] at hkeep; cases hkeep
  | joinMap id hst => rw [hst] at hkeep; cases hkeep
  | unmap hst => rw [hst] at hkeep; cases hkeep
  | unlink hst => rw [hst] at hkeep; cases hkeep
  | fail hbad => exact absurd hbad (h.good hc _)

/-- What the joiner has stays with it when the creator moves. -/
theorem Store.joined_of_creator_step (h : Store c s) (hc : Control c s.barrier s.position)
    (hs : sessionStep c s c.program.creator = some s')
    (hjoined : (s'.party c.program.joiner).stage.joined = true) : Joined c s' := by
  have hparty : s'.party c.program.joiner = s.party c.program.joiner :=
    ((h.position hc hs).2.1 _ (creator_ne_joiner c.program).symm).party
  rw [hparty] at hjoined
  have hj := h.joined hjoined
  have hnear : (s.party c.program.creator).stage.near c.program = true :=
    (hc.near (midway_of_joined _ hjoined) c.program.creator).2
  have hnearKeep : ∀ program st, OnRoute program (Program.creator program) st →
      Stage.near program st = true → st.keeping = true := by decide
  have hkeep : (s.party c.program.creator).stage.keeping = true :=
    hnearKeep _ _ (hc.valid c.program.creator).onRoute hnear
  have hfd := (h.hold hc hs hkeep).fd
  refine ⟨?_, ?_, ?_⟩
  · rw [hparty, hfd]
    exact hj.fd
  · rw [hparty]
    exact hj.size
  · rw [hparty, hfd]
    exact hj.mapping

/-- What the creator has stays with it when the joiner moves. -/
theorem Store.owner_of_joiner_step (h : Store c s) (hc : Control c s.barrier s.position)
    (hs : sessionStep c s c.program.joiner = some s') :
    SameObjects s s' ∧ s'.party c.program.creator = s.party c.program.creator := by
  have hroute : OnRoute c.program c.program.joiner (s.party c.program.joiner).stage :=
    (hc.valid _).onRoute
  obtain ⟨hcreate, hresize, hmap, hclear, hunlink⟩ := joiner_route _ _ hroute
  refine ⟨?_, ((h.position hc hs).2.1 _ (creator_ne_joiner c.program)).party⟩
  cases sessionStep_storeMove hs with
  | keep hst hold hobj => exact hobj
  | create hst => exact absurd hst hcreate
  | resize id hst => exact absurd hst hresize
  | map id hst => exact absurd hst hmap
  | joinOpen id hst hid hfd hobj => exact hobj
  | joinStat id hst hid hfd hsize hobj => exact hobj
  | joinMap id hst hid hfd hmapping hlength hstSize hobj => exact hobj
  | unmap hst hobj => exact hobj
  | unlink hst => exact absurd hst hunlink
  | fail hbad => exact absurd hbad (h.good hc _)

theorem joined_after : ∀ program st, Stage.keeping st = true →
    (after program (Program.joiner program) st).joined = true → st.joined = true := by
  decide

/-- **A step of the joiner** makes it open the creator's object. -/
theorem Store.joined_step (h : Store c s) (hc : Control c s.barrier s.position)
    (hs : sessionStep c s c.program.joiner = some s')
    (hjoined : (s'.party c.program.joiner).stage.joined = true) : Joined c s' := by
  have hroute : OnRoute c.program c.program.joiner (s.party c.program.joiner).stage :=
    (hc.valid _).onRoute
  obtain ⟨hcreate, hresize, hmap, hclear, hunlink⟩ := joiner_route _ _ hroute
  obtain ⟨-, hcreator⟩ := h.owner_of_joiner_step hc hs
  cases sessionStep_storeMove hs with
  | keep hst hold hobj =>
      obtain ⟨-, -, hne, hne'⟩ := Stage.keeping_facts _ hst
      have hwas : (s.party c.program.joiner).stage.joined = true := by
        rcases h.next hc hs with ⟨hn, -⟩ | ⟨hn, -⟩ | ⟨-, hn⟩ | ⟨-, hn⟩ | ⟨-, hn⟩
        · rw [hn] at hjoined
          exact joined_after _ _ hst hjoined
        · rw [hn]
          rfl
        all_goals
          rw [hn] at hjoined
          cases hjoined
      have hj := h.joined hwas
      refine ⟨?_, ?_, ?_⟩
      · rw [hold.fd, hcreator]
        exact hj.fd
      · intro _
        have hsize := hj.size hne
        unfold joinSize at hsize ⊢
        rw [hold.stSize]
        exact hsize
      · intro _ _
        rw [hold.mapping, hold.length, hcreator]
        exact hj.mapping hne hne'
  | create hst => exact absurd hst hcreate
  | resize id hst => exact absurd hst hresize
  | map id hst => exact absurd hst hmap
  | joinOpen id hst hid hfd hobj =>
      obtain ⟨id', hown, -⟩ := h.owner_of_midway hc (by rw [hst]; rfl)
      have hsame : id' = id := by
        have hname := hown.name
        rw [hid] at hname
        injection hname with hname
        exact hname.symm
      subst hsame
      have hfacts : ∀ program, after program (Program.joiner program) .joinOpen ≠ .arrive2 ∧
          after program (Program.joiner program) .joinOpen ≠ .wait2 ∧
          after program (Program.joiner program) .joinOpen ≠ .loop ∧
          (program = .mmap → after program (Program.joiner program) .joinOpen = .joinStat) ∧
          (after program (Program.joiner program) .joinOpen = .joinStat ∨
            after program (Program.joiner program) .joinOpen = .joinMap) := by
        decide
      obtain ⟨-, -, -, hmmap, hwhich⟩ := hfacts c.program
      obtain ⟨hn, -⟩ := h.next_of_ne hc hs (by rw [hst]; decide)
      rw [hst] at hn
      refine ⟨?_, ?_, ?_⟩
      · rw [hfd, hcreator, hown.fd]
      · intro hne
        unfold joinSize
        split
        next => rfl
        next hprogram => exact absurd (hn.trans (hmmap hprogram)) hne
      · intro hne hne'
        rcases hwhich with heq | heq
        · exact absurd (hn.trans heq) hne
        · exact absurd (hn.trans heq) hne'
  | joinStat id hst hid hfd hsize hobj =>
      obtain ⟨id', hown, hresize', hmap'⟩ := h.owner_of_midway hc (by rw [hst]; rfl)
      have hj := h.joined (by rw [hst]; rfl)
      have hsame : id' = id := by
        have hfd' := hj.fd
        rw [hid, hown.fd] at hfd'
        injection hfd' with hfd'
        exact hfd'.symm
      subst hsame
      have hfacts : ∀ program, OnRoute program (Program.joiner program) .joinStat →
          after program (Program.joiner program) .joinStat = .joinMap := by
        decide
      obtain ⟨hn, -⟩ := h.next_of_ne hc hs (by rw [hst]; decide)
      rw [hst] at hn hroute
      refine ⟨?_, ?_, ?_⟩
      · rw [hfd, hcreator, hown.fd]
      · intro _
        unfold joinSize
        split
        next => rfl
        next =>
          rw [hsize]
          exact hown.size hresize'
      · intro _ hne
        exact absurd (hn.trans (hfacts _ hroute)) hne
  | joinMap id hst hid hfd hmapping hlength hstSize hobj =>
      have hj := h.joined (by rw [hst]; rfl)
      have hfd' := hj.fd
      rw [hid] at hfd'
      have hsize := hj.size (by rw [hst]; nofun)
      refine ⟨?_, ?_, ?_⟩
      · rw [hfd, hcreator]
        exact hfd'
      · intro _
        unfold joinSize at hsize ⊢
        rw [hstSize]
        exact hsize
      · intro _ _
        rw [hmapping, hlength, hcreator]
        exact ⟨hfd', hsize⟩
  | unmap hst hobj =>
      have hfacts : ∀ program, (after program (Program.joiner program) .unmap).joined = false := by
        decide
      obtain ⟨hn, -⟩ := h.next_of_ne hc hs (by rw [hst]; decide)
      rw [hst] at hn
      rw [hn, hfacts] at hjoined
      cases hjoined
  | unlink hst => exact absurd hst hunlink
  | fail hbad => exact absurd hbad (h.good hc _)

/-- **A step keeps the store in order.** -/
theorem Store.step (h : Store c s) (hc : Control c s.barrier s.position)
    (hs : sessionStep c s p = some s') : Store c s' := by
  rcases creator_or_joiner c.program p with rfl | rfl
  · exact ⟨h.owner_step hc hs, h.unnamed_step hc hs, h.joined_of_creator_step hc hs⟩
  · obtain ⟨hobj, hcreator⟩ := h.owner_of_joiner_step hc hs
    refine ⟨?_, ?_, h.joined_step hc hs⟩
    · rw [hcreator]
      intro hopened
      obtain ⟨id, hid⟩ := h.owner hopened
      refine ⟨id, ?_, ?_, ?_, ?_, ?_⟩
      · rw [hcreator, hid.fd]
      · rw [hobj.name, hid.name]
      · rw [hobj.setUp, hcreator, hid.setUp]
      · rw [hobj.size, hcreator]
        exact hid.size
      · rw [hcreator]
        exact hid.mapping
    · rw [hcreator, hobj.name]
      exact h.unnamed

theorem store_fresh (c : Session) : Store c (State.fresh c) where
  owner hopened := by
    have hentry : ∀ program p, (Program.entry program p).opened = false := by decide
    have hopened' : (c.program.entry c.program.creator).opened = true := hopened
    rw [hentry] at hopened'
    cases hopened'
  unnamed _ _ := rfl
  joined hjoined := by
    have hentry : ∀ program p, (Program.entry program p).joined = false := by decide
    have hjoined' : (c.program.entry c.program.joiner).joined = true := hjoined
    rw [hentry] at hjoined'
    cases hjoined'

/-- **In the pipeline loop both processes work on the creator's object.** -/
theorem Store.mapping_of_loop (h : Store c s) (hc : Control c s.barrier s.position)
    (hst : (s.party p).stage = .loop) :
    ∃ id, Owner c s id ∧ (s.party p).mapping = some id ∧ (s.party p).length = c.totalSize ∧
      (s.object id).size = c.totalSize := by
  rcases creator_or_joiner c.program p with rfl | rfl
  · obtain ⟨id, hid⟩ := h.owner (by rw [hst]; rfl)
    have hmap := hid.mapping (by rw [hst]; nofun) (by rw [hst]; nofun)
    exact ⟨id, hid, hmap.1, hmap.2, hid.size (by rw [hst]; nofun)⟩
  · obtain ⟨id, hid, hresize, -⟩ := h.owner_of_midway hc (by rw [hst]; rfl)
    have hmap := (h.joined (by rw [hst]; rfl)).mapping (by rw [hst]; nofun) (by rw [hst]; nofun)
    rw [hid.fd] at hmap
    exact ⟨id, hid, hmap.1, hmap.2, hid.size hresize⟩

end Akbench.SharedMemory
