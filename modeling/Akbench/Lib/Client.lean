/-
  Akbench.Lib.Client
  ──────────────────
  **A PROTOCOL OVER THE CODE OF ITS BARRIER.**

  A protocol is proved correct over `Rendezvous`, the specification of a
  barrier; the program runs it over an object that is constructed, called and
  destroyed by code of its own.  This module puts the two together for any
  protocol (`Client`) and any such object (`Device`), and carries the
  protocol's theorems over.

    • `Client.onDevice` — the protocol with each of its calls replaced by the
      device's code, between the device's constructor and destructor;
    • `Client.Lawful` — a step of the client reads the barrier in no other way
      than to be let out of a call;
    • `Device.Implements` — the device's calls are arrivals and departures of
      a rendezvous, and what it needs from its users is a number of calls;
    • `onDevice_refines` — **every state the combination reaches is, seen through
      the rendezvous, a state the client reaches**;
    • `viewed` — what the client sees of a run is a run of the client;
    • `onDevice_progress`, `onDevice_settles` — neither side's absence of
      hangs is lost, and a weakly fair behaviour of the combination ends with
      every client finished and every device released, or where the client
      itself is stuck.
-/
import Akbench.Lib.Rendezvous
import Akbench.Lib.Termination

namespace Akbench

/-! ## §1. Clients. -/

/-- Where a party is with respect to the barrier. -/
inductive Client.Status where
  /-- Outside its calls. -/
  | running
  /-- Inside a call. -/
  | calling
  /-- Behind its last step. -/
  | returned
  deriving DecidableEq, Repr

theorem Client.Status.running_ne : Client.Status.running ≠ .calling := by decide

theorem Client.Status.returned_ne : Client.Status.returned ≠ .calling := by decide

/-- A protocol between parties `ι` that meet at a barrier. -/
structure Client (ι σ α : Type*) where
  system : System σ α
  owner : α → ι
  barrier : σ → Rendezvous ι
  withBarrier : σ → Rendezvous ι → σ
  status : σ → ι → Client.Status

namespace Client

variable {ι σ α β : Type*} [DecidableEq ι] {C : Client ι σ α} {s t : σ} {a : α} {p q : ι}

/-- What an action can be with respect to the barrier, whatever the others
have done there. -/
inductive Kind (C : Client ι σ α) (s : σ) (a : α) : Prop where
  | blocked (h : ∀ b, C.system.step (C.withBarrier s b) a = none)
  | stays (t : σ) (h : ∀ b, C.system.step (C.withBarrier s b) a = some (C.withBarrier t b))
      (hat : C.status s (C.owner a) = .running) (hto : C.status t (C.owner a) ≠ .calling)
      (hsame : ∀ q, q ≠ C.owner a → C.status t q = C.status s q)
  | arrives (t : σ)
      (h : ∀ b, C.system.step (C.withBarrier s b) a =
        some (C.withBarrier t (b.arrive (C.owner a))))
      (hat : C.status s (C.owner a) = .running) (hto : C.status t (C.owner a) = .calling)
      (hsame : ∀ q, q ≠ C.owner a → C.status t q = C.status s q)
  | leaves (t : σ)
      (h : ∀ b, b.CanLeave (C.owner a) → C.system.step (C.withBarrier s b) a =
        some (C.withBarrier t (b.leave (C.owner a))))
      (hkept : ∀ b, ¬ b.CanLeave (C.owner a) → C.system.step (C.withBarrier s b) a = none)
      (hat : C.status s (C.owner a) = .calling) (hto : C.status t (C.owner a) ≠ .calling)
      (hsame : ∀ q, q ≠ C.owner a → C.status t q = C.status s q)

/-- An action that has nothing to do with the barrier. -/
theorem Kind.apart (o : Option σ)
    (h : ∀ b, C.system.step (C.withBarrier s b) a = o.map fun t => C.withBarrier t b)
    (hat : C.status s (C.owner a) = .running)
    (hto : ∀ t, o = some t → C.status t (C.owner a) ≠ .calling ∧
      ∀ q, q ≠ C.owner a → C.status t q = C.status s q) : C.Kind s a := by
  cases o with
  | none => exact .blocked h
  | some t => exact .stays t h hat (hto t rfl).1 (hto t rfl).2

/-- A client that uses its barrier as a barrier. -/
structure Lawful (C : Client ι σ α) : Prop where
  barrier_with : ∀ s b, C.barrier (C.withBarrier s b) = b
  with_with : ∀ s b b', C.withBarrier (C.withBarrier s b) b' = C.withBarrier s b'
  with_barrier : ∀ s, C.withBarrier s (C.barrier s) = s
  status_with : ∀ s b, C.status (C.withBarrier s b) = C.status s
  init : ∀ s, C.system.init s → C.barrier s = .fresh ∧ ∀ p, C.status s p ≠ .calling
  kind : ∀ s, C.system.Reachable s → ∀ a, C.Kind s a
  acts : ∀ p, ∃ a, C.owner a = p

/-- What an action can be does not depend on where the barrier is. -/
theorem Lawful.kind_of_with (hC : C.Lawful) {b : Rendezvous ι}
    (hs : C.system.Reachable (C.withBarrier s b)) (a : α) : C.Kind s a := by
  cases hC.kind _ hs a with
  | blocked h =>
      simp only [hC.with_with] at h
      exact .blocked h
  | stays t h hat hto hsame =>
      simp only [hC.with_with, hC.status_with] at h hat hsame
      exact .stays t h hat hto hsame
  | arrives t h hat hto hsame =>
      simp only [hC.with_with, hC.status_with] at h hat hsame
      exact .arrives t h hat hto hsame
  | leaves t h hkept hat hto hsame =>
      simp only [hC.with_with, hC.status_with] at h hkept hat hsame
      exact .leaves t h hkept hat hto hsame

/-- A party that has returned makes no step. -/
theorem Lawful.stopped (hC : C.Lawful) (hs : C.system.Reachable s)
    (hret : C.status s (C.owner a) = .returned) : C.system.step s a = none := by
  cases hC.kind s hs a with
  | blocked h =>
      rw [← hC.with_barrier s]
      exact h _
  | stays _ _ hat | arrives _ _ hat | leaves _ _ _ hat =>
      rw [hret] at hat
      cases hat

/-! ## §2. Devices. -/

/-- Where a user is in the life of its device. -/
inductive Stage where
  | constructing
  /-- Constructed, outside its calls. -/
  | outside
  /-- Inside a call. -/
  | inside
  | destroying
  | gone
  deriving DecidableEq, Repr

end Client

open Client (Stage)

/-- The code of an object its users construct, call and destroy. -/
structure Device (ι β : Type*) where
  init : β → Prop
  /-- The next step of the constructor or of the destructor. -/
  life : β → ι → Option β
  /-- The next step of a call; from outside, the first step of a new one. -/
  call : β → ι → Option β
  stage : β → ι → Stage

namespace Device

variable {ι β : Type*} [DecidableEq ι] {D : Device ι β}

/-- `D` is a barrier for users that make `total` calls each, and its code has
an end. -/
structure Implements (D : Device ι β) (total : Nat) (J : β → Prop)
    (crossings : β → Rendezvous ι) (rank : β → Nat) : Prop where
  init : ∀ b, D.init b → J b ∧ crossings b = .fresh ∧ ∀ p, D.stage b p = .constructing
  life : ∀ b p b', J b → D.life b p = some b' →
    D.stage b p = .constructing ∨ D.stage b p = .destroying ∨
      (D.stage b p = .outside ∧ (crossings b).left p = total) →
    J b' ∧ crossings b' = crossings b ∧ (∀ q, q ≠ p → D.stage b' q = D.stage b q) ∧
      (b' ≠ b → rank b' < rank b)
  constructing : ∀ b p b', J b → D.life b p = some b' → D.stage b p = .constructing →
    D.stage b' p = .constructing ∨ D.stage b' p = .outside
  released : ∀ b p b', D.life b p = some b' → D.stage b p ≠ .constructing →
    D.stage b p ≠ .inside → D.stage b' p = .destroying ∨ D.stage b' p = .gone
  enter : ∀ b p b', J b → D.stage b p = .outside → (crossings b).entered p < total →
    D.call b p = some b' →
    J b' ∧ crossings b' = (crossings b).arrive p ∧ D.stage b' p = .inside ∧
      (∀ q, q ≠ p → D.stage b' q = D.stage b q) ∧ (b' ≠ b → rank b' < rank b)
  call : ∀ b p b', J b → D.stage b p = .inside → D.call b p = some b' →
    J b' ∧ (∀ q, q ≠ p → D.stage b' q = D.stage b q) ∧ (b' ≠ b → rank b' < rank b) ∧
      ((D.stage b' p = .inside ∧ crossings b' = crossings b) ∨
        (D.stage b' p = .outside ∧ (crossings b).CanLeave p ∧
          crossings b' = (crossings b).leave p))

/-- Nobody is kept waiting by the device alone. -/
structure Live (D : Device ι β) (total : Nat) (J : β → Prop) (crossings : β → Rendezvous ι) :
    Prop where
  construct : ∀ b p, J b → D.stage b p = .constructing →
    ∃ q b', D.stage b q = .constructing ∧ D.life b q = some b' ∧ b' ≠ b
  enter : ∀ b p, J b → D.stage b p = .outside → (crossings b).entered p < total →
    ∃ b', D.call b p = some b'
  call : ∀ b p, J b → D.stage b p = .inside → (crossings b).CanLeave p →
    ∃ b', D.call b p = some b' ∧ b' ≠ b
  destroy : ∀ b p, J b → D.stage b p = .destroying ∨
      (D.stage b p = .outside ∧ (crossings b).left p = total) →
    ∃ b', D.life b p = some b' ∧ b' ≠ b

end Device

/-! ## §3. The client over the device. -/

namespace Client

variable {ι σ α β : Type*} [DecidableEq ι] {C : Client ι σ α} {D : Device ι β}
  {s t : σ} {a : α} {p q : ι} {b : Rendezvous ι}

/-- An action taken with nobody else at the barrier, so that a call of it is
neither kept waiting nor remembered. -/
def alone (C : Client ι σ α) (s : σ) (a : α) : Option σ :=
  C.system.step (C.withBarrier s .fresh) a

/-- Forget the barrier the client has been proved with. -/
def forget (C : Client ι σ α) (s : σ) : σ := C.withBarrier s .fresh

/-- An action taken alone was the beginning of a call. -/
def called (C : Client ι σ α) (t : σ) (p : ι) : Bool := (C.barrier t).entered p == 1

/-- **The client over the device.**  A party constructs its device, runs the
client, each of whose calls is the device's code, and then destroys it. -/
def onDevice (C : Client ι σ α) (D : Device ι β) : System (σ × β) α where
  init x := C.system.init x.1 ∧ D.init x.2
  step x a :=
    let p := C.owner a
    match D.stage x.2 p with
    | .constructing | .destroying => (D.life x.2 p).map fun d => (x.1, d)
    | .outside =>
        if C.status x.1 p = .returned then (D.life x.2 p).map fun d => (x.1, d)
        else
          match C.alone x.1 a with
          | none => none
          | some t =>
              if C.called t p then (D.call x.2 p).map fun d => (C.forget t, d)
              else some (C.forget t, x.2)
    | .inside =>
        match D.call x.2 p with
        | none => none
        | some d =>
            -- still in the call, or back in the client behind it
            if D.stage d p = .inside then some (x.1, d)
            else (C.alone x.1 a).map fun t => (C.forget t, d)
    | .gone => none

/-! ### What an action taken alone does. -/

theorem Lawful.alone_stays (hC : C.Lawful)
    (h : ∀ b, C.system.step (C.withBarrier s b) a = some (C.withBarrier t b)) :
    C.alone s a = some (C.forget t) ∧ C.called (C.forget t) (C.owner a) = false := by
  refine ⟨h .fresh, ?_⟩
  unfold called forget
  rw [hC.barrier_with]
  rfl

theorem Lawful.alone_arrives (hC : C.Lawful)
    (h : ∀ b, C.system.step (C.withBarrier s b) a =
      some (C.withBarrier t (b.arrive (C.owner a)))) :
    ∃ u, C.alone s a = some u ∧ C.called u (C.owner a) = true ∧ C.forget u = C.forget t := by
  refine ⟨_, h .fresh, ?_, hC.with_with _ _ _⟩
  unfold called
  rw [hC.barrier_with, Rendezvous.arrive_entered_self]
  rfl

theorem Lawful.alone_leaves (hC : C.Lawful)
    (h : ∀ b, b.CanLeave (C.owner a) → C.system.step (C.withBarrier s b) a =
      some (C.withBarrier t (b.leave (C.owner a)))) :
    ∃ u, C.alone s a = some u ∧ C.forget u = C.forget t :=
  ⟨_, h .fresh fun _ => Nat.le_refl 0, hC.with_with _ _ _⟩

theorem Lawful.with_forget (hC : C.Lawful) : C.withBarrier (C.forget s) b = C.withBarrier s b :=
  hC.with_with _ _ _

theorem Lawful.forget_forget (hC : C.Lawful) : C.forget (C.forget s) = C.forget s :=
  hC.with_with _ _ _

/-! ## §4. Refinement. -/

variable {total : Nat} {J : β → Prop} {crossings : β → Rendezvous ι} {rank : σ → Nat}
  {deviceRank : β → Nat} {x x' : σ × β}

/-- The client as it was proved: the device seen as a rendezvous. -/
def view (C : Client ι σ α) (crossings : β → Rendezvous ι) (x : σ × β) : σ :=
  C.withBarrier x.1 (crossings x.2)

/-- How a client and its device go together. -/
structure Agrees (C : Client ι σ α) (D : Device ι β) (J : β → Prop) (x : σ × β) : Prop where
  sound : J x.2
  /-- In a call of the client exactly while in a call of the device. -/
  inside : ∀ p, C.status x.1 p = .calling ↔ D.stage x.2 p = .inside
  /-- The destructor runs after the client's last step. -/
  destroyed : ∀ p, D.stage x.2 p = .destroying ∨ D.stage x.2 p = .gone →
    C.status x.1 p = .returned
  plain : C.forget x.1 = x.1

/-- The calls the client makes are as many as the device is for. -/
structure Counted (C : Client ι σ α) (total : Nat) : Prop where
  entered_le : ∀ s, C.system.Reachable s → ∀ p, (C.barrier s).entered p ≤ total
  left_eq : ∀ s, C.system.Reachable s → ∀ p, C.status s p = .returned →
    (C.barrier s).left p = total

/-- A step of the device's own code. -/
theorem Agrees.device_step (h : Agrees C D J x) {d : β} (hJ : J d)
    (hkept : ∀ q, q ≠ p → D.stage d q = D.stage x.2 q)
    (hin : D.stage d p = .inside ↔ D.stage x.2 p = .inside)
    (hfin : D.stage d p = .destroying ∨ D.stage d p = .gone → C.status x.1 p = .returned) :
    Agrees C D J (x.1, d) where
  sound := hJ
  inside q := by
    by_cases hq : q = p
    · rw [hq]
      exact (h.inside p).trans hin.symm
    · show _ ↔ D.stage d q = .inside
      rw [hkept q hq]
      exact h.inside q
  destroyed q hq := by
    by_cases hqp : q = p
    · rw [hqp] at hq ⊢
      exact hfin hq
    · refine h.destroyed q ?_
      rw [← hkept q hqp]
      exact hq
  plain := h.plain

/-- A step of the client, with or without a step of the device. -/
theorem Agrees.client_step (hC : C.Lawful) (h : Agrees C D J x) {u : σ} {d : β} (hJ : J d)
    (hkept : ∀ q, q ≠ p → D.stage d q = D.stage x.2 q)
    (hsame : ∀ q, q ≠ p → C.status u q = C.status x.1 q)
    (hin : C.status u p = .calling ↔ D.stage d p = .inside)
    (hlive : D.stage d p ≠ .destroying ∧ D.stage d p ≠ .gone) :
    Agrees C D J (C.forget u, d) where
  sound := hJ
  inside q := by
    show C.status (C.withBarrier u .fresh) q = .calling ↔ D.stage d q = .inside
    rw [hC.status_with]
    by_cases hq : q = p
    · rw [hq]
      exact hin
    · rw [hsame q hq, hkept q hq]
      exact h.inside q
  destroyed q hq := by
    show C.status (C.withBarrier u .fresh) q = .returned
    rw [hC.status_with]
    by_cases hqp : q = p
    · rw [hqp] at hq
      rcases hq with hq | hq
      · exact absurd hq hlive.1
      · exact absurd hq hlive.2
    · rw [hsame q hqp]
      apply h.destroyed
      rw [← hkept q hqp]
      exact hq
  plain := hC.forget_forget

/-- What a step of the combination is to the client and to the device. -/
inductive OverMove (C : Client ι σ α) (D : Device ι β) (crossings : β → Rendezvous ι)
    (deviceRank : β → Nat) (x : σ × β) (a : α) : σ × β → Prop where
  /-- The device's own code, which the client does not see. -/
  | device (d : β) (hsame : crossings d = crossings x.2)
      (hlower : d ≠ x.2 → deviceRank d < deviceRank x.2) :
      OverMove C D crossings deviceRank x a (x.1, d)
  /-- A step of the client outside its calls. -/
  | client (t : σ)
      (ht : ∀ b, C.system.step (C.withBarrier x.1 b) a = some (C.withBarrier t b)) :
      OverMove C D crossings deviceRank x a (C.forget t, x.2)
  /-- A call begins. -/
  | enter (t : σ) (d : β)
      (ht : ∀ b, C.system.step (C.withBarrier x.1 b) a =
        some (C.withBarrier t (b.arrive (C.owner a))))
      (hcross : crossings d = (crossings x.2).arrive (C.owner a))
      (hlower : d ≠ x.2 → deviceRank d < deviceRank x.2) :
      OverMove C D crossings deviceRank x a (C.forget t, d)
  /-- A call returns. -/
  | leave (t : σ) (d : β)
      (ht : ∀ b, b.CanLeave (C.owner a) → C.system.step (C.withBarrier x.1 b) a =
        some (C.withBarrier t (b.leave (C.owner a))))
      (hcan : (crossings x.2).CanLeave (C.owner a))
      (hcross : crossings d = (crossings x.2).leave (C.owner a))
      (hlower : d ≠ x.2 → deviceRank d < deviceRank x.2) :
      OverMove C D crossings deviceRank x a (C.forget t, d)

/-- **What a step of the combination can do**, and that the two sides still
go together after it. -/
theorem onDevice_cases (hC : C.Lawful) (hcount : C.Counted total)
    (hD : D.Implements total J crossings deviceRank) (hx : Agrees C D J x)
    (hreach : C.system.Reachable (C.view crossings x)) (hs : (C.onDevice D).step x a = some x') :
    OverMove C D crossings deviceRank x a x' ∧ Agrees C D J x' := by
  have hbarrier : C.barrier (C.view crossings x) = crossings x.2 := hC.barrier_with _ _
  have hstatus : C.status (C.view crossings x) = C.status x.1 := hC.status_with _ _
  simp only [onDevice] at hs
  cases hst : D.stage x.2 (C.owner a) with
  | constructing =>
      rw [hst] at hs
      obtain ⟨d, hd, rfl⟩ := Option.map_eq_some_iff.mp hs
      obtain ⟨hJ, hcross, hkept, hlower⟩ := hD.life _ _ _ hx.sound hd (.inl hst)
      refine ⟨.device d hcross hlower, hx.device_step hJ hkept ?_ ?_⟩
      · rcases hD.constructing _ _ _ hx.sound hd hst with h | h <;> simp [h, hst]
      · rcases hD.constructing _ _ _ hx.sound hd hst with h | h <;> simp [h]
  | destroying =>
      rw [hst] at hs
      obtain ⟨d, hd, rfl⟩ := Option.map_eq_some_iff.mp hs
      obtain ⟨hJ, hcross, hkept, hlower⟩ := hD.life _ _ _ hx.sound hd (.inr (.inl hst))
      have hend := hD.released _ _ _ hd (by simp [hst]) (by simp [hst])
      refine ⟨.device d hcross hlower, hx.device_step hJ hkept ?_ ?_⟩
      · rcases hend with h | h <;> simp [h, hst]
      · exact fun _ => hx.destroyed _ (.inl hst)
  | gone =>
      rw [hst] at hs
      cases hs
  | outside =>
      rw [hst] at hs
      have hout : C.status x.1 (C.owner a) ≠ .calling := by
        intro hcall
        rw [(hx.inside _).mp hcall] at hst
        cases hst
      by_cases hret : C.status x.1 (C.owner a) = .returned
      · -- the client has returned: the destructor begins
        simp only [hret, if_true] at hs
        obtain ⟨d, hd, rfl⟩ := Option.map_eq_some_iff.mp hs
        have hleft := hcount.left_eq _ hreach (C.owner a) (by rw [hstatus]; exact hret)
        rw [hbarrier] at hleft
        obtain ⟨hJ, hcross, hkept, hlower⟩ := hD.life _ _ _ hx.sound hd (.inr (.inr ⟨hst, hleft⟩))
        have hend := hD.released _ _ _ hd (by simp [hst]) (by simp [hst])
        refine ⟨.device d hcross hlower, hx.device_step hJ hkept ?_ fun _ => hret⟩
        rcases hend with h | h <;> simp [h, hst]
      · simp only [hret, if_false] at hs
        cases hC.kind_of_with hreach a with
        | blocked h =>
            rw [show C.alone x.1 a = none from h _] at hs
            simp at hs
        | stays t h _ hto hsame =>
            obtain ⟨halone, hcalled⟩ := hC.alone_stays h
            rw [halone] at hs
            simp only [hcalled, Bool.false_eq_true, if_false, Option.some.injEq] at hs
            subst hs
            rw [hC.forget_forget]
            refine ⟨.client t h, hx.client_step hC (p := C.owner a) hx.sound (fun _ _ => rfl)
              hsame ?_ (by simp [hst])⟩
            simp [hto, hst]
        | arrives t h _ hto hsame =>
            obtain ⟨u, halone, hcalled, hu⟩ := hC.alone_arrives h
            rw [halone] at hs
            simp only [hcalled, if_true] at hs
            obtain ⟨d, hd, rfl⟩ := Option.map_eq_some_iff.mp hs
            have hlt : (crossings x.2).entered (C.owner a) < total := by
              have hnext := hcount.entered_le _ (hreach.tail trivial (h _)) (C.owner a)
              rw [hC.barrier_with, Rendezvous.arrive_entered_self] at hnext
              exact hnext
            obtain ⟨hJ, hcross, hinside, hkept, hlower⟩ := hD.enter _ _ _ hx.sound hst hlt hd
            rw [hu]
            refine ⟨.enter t d h hcross hlower, hx.client_step hC hJ hkept hsame ?_
              (by simp [hinside])⟩
            simp [hto, hinside]
        | leaves t h _ hat =>
            exact absurd hat hout
  | inside =>
      rw [hst] at hs
      cases hcall : D.call x.2 (C.owner a) with
      | none =>
          rw [hcall] at hs
          cases hs
      | some d =>
          rw [hcall] at hs
          obtain ⟨hJ, hkept, hlower, ⟨hinside, hcross⟩ | ⟨houtside, hcan, hcross⟩⟩ :=
            hD.call _ _ _ hx.sound hst hcall
          · simp only [hinside, if_true, Option.some.injEq] at hs
            subst hs
            refine ⟨.device d hcross hlower, hx.device_step hJ hkept ?_ ?_⟩
            · simp [hinside, hst]
            · simp [hinside]
          · simp only [houtside, reduceCtorEq, if_false] at hs
            have hcalling := (hx.inside (C.owner a)).mpr hst
            cases hC.kind_of_with hreach a with
            | blocked h =>
                rw [show C.alone x.1 a = none from h _] at hs
                cases hs
            | stays t h hat | arrives t h hat =>
                rw [hcalling] at hat
                cases hat
            | leaves t h _ _ hto hsame =>
                obtain ⟨u, halone, hu⟩ := hC.alone_leaves h
                rw [halone, Option.map_some, Option.some.injEq] at hs
                subst hs
                rw [hu]
                refine ⟨.leave t d h hcan hcross hlower, hx.client_step hC hJ hkept hsame ?_
                  (by simp [houtside])⟩
                simp [hto, houtside]

/-- A step of the combination is, to the client, a step or nothing. -/
theorem OverMove.step (hC : C.Lawful) (h : OverMove C D crossings deviceRank x a x') :
    C.view crossings x' = C.view crossings x ∨
      C.system.step (C.view crossings x) a = some (C.view crossings x') := by
  unfold view
  cases h with
  | device d hsame =>
      rw [hsame]
      exact .inl rfl
  | client t ht =>
      rw [hC.with_forget]
      exact .inr (ht _)
  | enter t d ht hcross =>
      rw [hC.with_forget, hcross]
      exact .inr (ht _)
  | leave t d ht hcan hcross =>
      rw [hC.with_forget, hcross]
      exact .inr (ht _ hcan)

/-- Nobody has begun. -/
theorem onDevice_init (hC : C.Lawful) (hD : D.Implements total J crossings deviceRank)
    (h : (C.onDevice D).init x) : Agrees C D J x ∧ C.system.init (C.view crossings x) := by
  obtain ⟨hfresh, hcall⟩ := hC.init _ h.1
  obtain ⟨hJ, hcross, hstage⟩ := hD.init _ h.2
  have hplain : C.withBarrier x.1 .fresh = x.1 := by
    rw [← hfresh]
    exact hC.with_barrier _
  refine ⟨⟨hJ, fun p => ?_, fun p hp => ?_, hplain⟩, ?_⟩
  · rw [hstage p]
    simp [hcall p]
  · rw [hstage p] at hp
    simp at hp
  · show C.system.init (C.withBarrier x.1 (crossings x.2))
    rw [hcross, hplain]
    exact h.1

/-- **Refinement.**  Seen through the rendezvous, the client over the device
reaches only what the client reaches. -/
theorem onDevice_refines (hC : C.Lawful) (hcount : C.Counted total)
    (hD : D.Implements total J crossings deviceRank) (h : (C.onDevice D).Reachable x) :
    Agrees C D J x ∧ C.system.Reachable (C.view crossings x) := by
  refine System.simulates (I := Agrees C D J) (C.view crossings)
    (fun y hy => onDevice_init hC hD hy) ?_ h
  intro y b y' hy hreach hs
  obtain ⟨hmove, hagree⟩ := onDevice_cases hC hcount hD hy hreach hs
  refine ⟨hagree, ?_⟩
  rcases hmove.step hC with hsame | hstep
  · rw [hsame]
    exact .refl _
  · exact System.Steps.single hstep

theorem view_next (hC : C.Lawful) (hcount : C.Counted total)
    (hD : D.Implements total J crossings deviceRank) (r : (C.onDevice D).Behaviour) (i : Nat) :
    C.view crossings (r.state (i + 1)) = C.view crossings (r.state i) ∨
      ∃ a, C.system.step (C.view crossings (r.state i)) a =
        some (C.view crossings (r.state (i + 1))) := by
  rcases r.next i with hsame | ⟨a, ha⟩
  · rw [hsame]
    exact .inl rfl
  · obtain ⟨hagree, hreach⟩ := onDevice_refines hC hcount hD (r.reachable i)
    obtain ⟨hmove, _⟩ := onDevice_cases hC hcount hD hagree hreach ha
    exact (hmove.step hC).imp id fun hstep => ⟨a, hstep⟩

/-- What the client sees of a run. -/
def viewed (hC : C.Lawful) (hcount : C.Counted total)
    (hD : D.Implements total J crossings deviceRank) (r : (C.onDevice D).Behaviour) :
    C.system.Behaviour :=
  ⟨fun i => C.view crossings (r.state i), (onDevice_init hC hD r.start).2,
    view_next hC hcount hD r⟩

/-! ## §5. Progress. -/

/-- Every party has returned from the client and left its device. -/
def Over (C : Client ι σ α) (D : Device ι β) (x : σ × β) : Prop :=
  ∀ p, C.status x.1 p = .returned ∧ D.stage x.2 p = .gone

theorem ne_of_snd {s' : σ} {d : β} (h : d ≠ x.2) : (s', d) ≠ x := by
  intro heq
  exact h (congrArg Prod.snd heq)

/-- **Neither side gets stuck in the combination** that would not be stuck by
itself. -/
theorem onDevice_progress (hC : C.Lawful) (hcount : C.Counted total)
    (hD : D.Implements total J crossings deviceRank) (hlive : D.Live total J crossings)
    (hgo : ¬ (∀ p, C.status x.1 p = .returned) → C.system.CanProgress (C.view crossings x))
    (h : (C.onDevice D).Reachable x) (hmore : ¬ Over C D x) : (C.onDevice D).CanProgress x := by
  obtain ⟨hx, hreach⟩ := onDevice_refines hC hcount hD h
  have hbarrier : C.barrier (C.view crossings x) = crossings x.2 := hC.barrier_with _ _
  have hstatus : C.status (C.view crossings x) = C.status x.1 := hC.status_with _ _
  by_cases hcons : ∃ p, D.stage x.2 p = .constructing
  · -- somebody in a constructor can go on
    obtain ⟨p, hp⟩ := hcons
    obtain ⟨q, d, hq, hd, hne⟩ := hlive.construct _ p hx.sound hp
    obtain ⟨a, rfl⟩ := hC.acts q
    refine ⟨a, (x.1, d), ?_, ne_of_snd hne⟩
    simp only [onDevice, hq, hd, Option.map_some]
  have hdestroy : ∀ p, D.stage x.2 p = .destroying ∨
      (D.stage x.2 p = .outside ∧ C.status x.1 p = .returned) → (C.onDevice D).CanProgress x := by
    intro p hp
    have hready : D.stage x.2 p = .destroying ∨
        (D.stage x.2 p = .outside ∧ (crossings x.2).left p = total) := by
      refine hp.imp id fun hout => ⟨hout.1, ?_⟩
      rw [← hbarrier]
      exact hcount.left_eq _ hreach p (by rw [hstatus]; exact hout.2)
    obtain ⟨d, hd, hne⟩ := hlive.destroy _ p hx.sound hready
    obtain ⟨a, rfl⟩ := hC.acts p
    refine ⟨a, (x.1, d), ?_, ne_of_snd hne⟩
    rcases hp with hp | ⟨hp, hfin⟩
    · simp only [onDevice, hp, hd, Option.map_some]
    · simp only [onDevice, hp, hfin, if_true, hd, Option.map_some]
  by_cases hall : ∀ p, C.status x.1 p = .returned
  · -- everybody has returned: some device is not gone yet
    have hex : ∃ p, D.stage x.2 p ≠ .gone := by
      by_contra hnone
      push Not at hnone
      exact hmore fun p => ⟨hall p, hnone p⟩
    obtain ⟨p, hp⟩ := hex
    cases hst : D.stage x.2 p with
    | constructing => exact absurd ⟨p, hst⟩ hcons
    | gone => exact absurd hst hp
    | inside =>
        have hcalling := (hx.inside p).mpr hst
        rw [hall p] at hcalling
        cases hcalling
    | outside => exact hdestroy p (.inr ⟨hst, hall p⟩)
    | destroying => exact hdestroy p (.inl hst)
  -- otherwise the client itself can go on
  obtain ⟨a, t', hstep, hne⟩ := hgo hall
  have hrun : C.status x.1 (C.owner a) ≠ .returned := by
    intro hret
    rw [hC.stopped hreach (by rw [hstatus]; exact hret)] at hstep
    cases hstep
  have hstage : D.stage x.2 (C.owner a) = .outside ∨ D.stage x.2 (C.owner a) = .inside := by
    cases hst : D.stage x.2 (C.owner a) with
    | outside => exact .inl rfl
    | inside => exact .inr rfl
    | constructing => exact absurd ⟨_, hst⟩ hcons
    | destroying => exact absurd (hx.destroyed _ (.inl hst)) hrun
    | gone => exact absurd (hx.destroyed _ (.inr hst)) hrun
  have houtside : C.status x.1 (C.owner a) = .running → D.stage x.2 (C.owner a) = .outside := by
    intro hat
    rcases hstage with hst | hst
    · exact hst
    · rw [(hx.inside _).mpr hst] at hat
      cases hat
  cases hC.kind_of_with hreach a with
  | blocked hb =>
      rw [view, hb] at hstep
      cases hstep
  | stays t ht hat =>
      obtain ⟨halone, hcalled⟩ := hC.alone_stays ht
      refine ⟨a, (C.forget (C.forget t), x.2), ?_, ?_⟩
      · simp only [onDevice, houtside hat, hrun, if_false, halone, hcalled, Bool.false_eq_true]
      · intro heq
        apply hne
        have hsame : C.forget t = x.1 := by
          rw [← hC.forget_forget]
          exact congrArg Prod.fst heq
        rw [view, ht, Option.some.injEq] at hstep
        rw [← hstep, view, ← hsame, hC.with_forget]
  | arrives t ht hat =>
      obtain ⟨u, halone, hcalled, _⟩ := hC.alone_arrives ht
      have hlt : (crossings x.2).entered (C.owner a) < total := by
        have hnext := hcount.entered_le _ (hreach.tail trivial (ht _)) (C.owner a)
        rw [hC.barrier_with, Rendezvous.arrive_entered_self] at hnext
        exact hnext
      obtain ⟨d, hd⟩ := hlive.enter _ _ hx.sound (houtside hat) hlt
      obtain ⟨_, hcross, _⟩ := hD.enter _ _ _ hx.sound (houtside hat) hlt hd
      refine ⟨a, (C.forget u, d), ?_, ne_of_snd ?_⟩
      · simp only [onDevice, houtside hat, hrun, if_false, halone, hcalled, if_true,
          hd, Option.map_some]
      · intro heq
        rw [heq] at hcross
        have hcount' := congrArg (fun r => Rendezvous.entered r (C.owner a)) hcross
        simp only [Rendezvous.arrive_entered_self] at hcount'
        omega
  | leaves t ht hkept hat =>
      have hst := (hx.inside _).mp hat
      have hcan : (crossings x.2).CanLeave (C.owner a) := by
        by_contra hno
        rw [view, hkept _ hno] at hstep
        cases hstep
      obtain ⟨d, hd, hdne⟩ := hlive.call _ _ hx.sound hst hcan
      obtain ⟨u, halone, _⟩ := hC.alone_leaves ht
      by_cases hinside : D.stage d (C.owner a) = .inside
      · refine ⟨a, (x.1, d), ?_, ne_of_snd hdne⟩
        simp only [onDevice, hst, hd, hinside, if_true]
      · refine ⟨a, (C.forget u, d), ?_, ne_of_snd hdne⟩
        simp only [onDevice, hst, hd, hinside, if_false, halone, Option.map_some]

/-! ## §6. Termination. -/

/-- What is left of both. -/
def onDeviceRank (C : Client ι σ α) (crossings : β → Rendezvous ι) (rank : σ → Nat)
    (deviceRank : β → Nat) (x : σ × β) : Nat :=
  rank (C.view crossings x) + deviceRank x.2

theorem onDevice_ranked (hC : C.Lawful) (hcount : C.Counted total)
    (hD : D.Implements total J crossings deviceRank) (hrank : C.system.Ranked rank) :
    (C.onDevice D).Ranked (onDeviceRank C crossings rank deviceRank) := by
  intro x a x' hx hs hne
  obtain ⟨hagree, hreach⟩ := onDevice_refines hC hcount hD hx
  obtain ⟨hmove, _⟩ := onDevice_cases hC hcount hD hagree hreach hs
  unfold onDeviceRank view
  unfold view at hreach
  have hclient : ∀ {t : σ} {b' : Rendezvous ι},
      C.system.step (C.withBarrier x.1 (crossings x.2)) a = some (C.withBarrier t b') →
      b' ≠ crossings x.2 ∨ C.forget t ≠ x.1 →
      rank (C.withBarrier t b') < rank (C.withBarrier x.1 (crossings x.2)) := by
    intro t b' hstep hdiff
    refine hrank _ a _ hreach hstep fun heq => ?_
    have hb := congrArg C.barrier heq
    rw [hC.barrier_with, hC.barrier_with] at hb
    have hf := congrArg C.forget heq
    unfold forget at hf
    rw [hC.with_with, hC.with_with] at hf
    rcases hdiff with hdiff | hdiff
    · exact hdiff hb
    · exact hdiff (hf.trans hagree.plain)
  have harrive : (crossings x.2).arrive (C.owner a) ≠ crossings x.2 := by
    intro heq
    have hcount' := congrArg (fun r => Rendezvous.entered r (C.owner a)) heq
    simp only [Rendezvous.arrive_entered_self] at hcount'
    omega
  have hleave : (crossings x.2).leave (C.owner a) ≠ crossings x.2 := by
    intro heq
    have hcount' := congrArg (fun r => Rendezvous.left r (C.owner a)) heq
    simp only [Rendezvous.leave_left_self] at hcount'
    omega
  cases hmove with
  | device d hsame hlower =>
      have hlt := hlower fun heq => hne (by rw [heq])
      show rank (C.withBarrier x.1 (crossings d)) + deviceRank d < _
      rw [hsame]
      omega
  | client t ht =>
      have hlt := hclient (ht _) (.inr fun heq => hne (by rw [heq]))
      show rank (C.withBarrier (C.forget t) (crossings x.2)) + deviceRank x.2 < _
      rw [hC.with_forget]
      omega
  | enter t d ht hcross hlower =>
      have hlt := hclient (ht _) (.inl harrive)
      have hdlt := hlower fun heq => harrive (by rw [← hcross, heq])
      show rank (C.withBarrier (C.forget t) (crossings d)) + deviceRank d < _
      rw [hC.with_forget, hcross]
      omega
  | leave t d ht hcan hcross hlower =>
      have hlt := hclient (ht _ hcan) (.inl hleave)
      have hdlt := hlower fun heq => hleave (by rw [← hcross, heq])
      show rank (C.withBarrier (C.forget t) (crossings d)) + deviceRank d < _
      rw [hC.with_forget, hcross]
      omega

/-- **A weakly fair behaviour of the combination comes to rest**: every party
has returned from the client and its device is released, or the client itself
cannot go on. -/
theorem onDevice_settles (hC : C.Lawful) (hcount : C.Counted total)
    (hD : D.Implements total J crossings deviceRank) (hlive : D.Live total J crossings)
    (hrank : C.system.Ranked rank) (r : (C.onDevice D).Behaviour)
    (hfair : r.WeaklyFair C.owner) :
    ∃ i, (Over C D (r.state i) ∨ (¬ (∀ p, C.status (r.state i).1 p = .returned) ∧
        ¬ C.system.CanProgress (C.view crossings (r.state i)))) ∧
      ∀ j, i ≤ j → r.state j = r.state i := by
  refine r.terminates (G := fun x => Over C D x ∨ (¬ (∀ p, C.status x.1 p = .returned) ∧
    ¬ C.system.CanProgress (C.view crossings x)))
    (onDevice_ranked hC hcount hD hrank) (fun x hx hmore => ?_) hfair
  push Not at hmore
  exact onDevice_progress hC hcount hD hlive (fun hall => hmore.2 (by simpa using hall)) hx hmore.1

end Client

end Akbench
