/-
  Akbench.Benchmark.Processes
  ───────────────────────────
  **TWO PROCESSES AND `SenseReversingBarrier barrier(2, BARRIER_ID)`.**

  Every bandwidth benchmark forks; parent and child construct a barrier for
  two under the same id, exchange data, and destroy the barrier on returning.
  Their protocols were proved over the specification of a barrier.  Here they
  run over the class itself: constructors, the critical sections of `Wait()`
  and destructors interleave with everything else the processes do.

    • `processes` — a protocol over the class;
    • `Bounded`, `Protocol` — what a protocol has to satisfy for it;
    • `refines`, `Bounded.viewed` — whatever the processes reach, the protocol
      reaches, and by the same runs;
    • `Bounded.settles`, `Protocol.completes` — every weakly fair run ends with
      both returned, both destructors through and no name left, unless the
      protocol itself gets stuck.
-/
import Akbench.Barrier.Device

namespace Akbench.Benchmark

open Barrier (Group barrierDevice crossings Dissolved lifeSystem)

variable {σ α : Type*} {C : Client Side σ α} {total : Nat} {rank : σ → Nat}
  {x : σ × Group 2}

/-- The index of a process among the participants of the barrier. -/
def index : Side → Fin 2
  | .sender => ⟨0, Nat.zero_lt_two⟩
  | .receiver => ⟨1, Nat.one_lt_two⟩

/-- The process of an index. -/
def ofIndex (i : Fin 2) : Side :=
  if i.val = 0 then .sender else .receiver

theorem ofIndex_index (p : Side) : ofIndex (index p) = p := by
  cases p with
  | sender => rfl
  | receiver => rfl

theorem index_ofIndex (i : Fin 2) : index (ofIndex i) = i := by
  by_cases hi : i.val = 0
  · rw [ofIndex, if_pos hi]
    exact Fin.ext hi.symm
  · rw [ofIndex, if_neg hi]
    exact Fin.ext (show 1 = i.val by omega)

/-- The participants of the barrier are the two processes. -/
def participant : Side ≃ Fin 2 := ⟨index, ofIndex, ofIndex_index, index_ofIndex⟩

theorem forall_ne_sender {P : Side → Prop} (h : P .receiver) (q : Side) (hq : q ≠ .sender) :
    P q := by
  cases q with
  | sender => exact absurd rfl hq
  | receiver => exact h

theorem forall_ne_receiver {P : Side → Prop} (h : P .sender) (q : Side) (hq : q ≠ .receiver) :
    P q := by
  cases q with
  | sender => exact h
  | receiver => exact absurd rfl hq

/-- The two processes of a benchmark after `fork()`. -/
def processes (C : Client Side σ α) : System (σ × Group 2) α := C.onDevice (barrierDevice participant)

/-- The protocol as it was proved, with `Wait()` a rendezvous. -/
def protocolState (C : Client Side σ α) (x : σ × Group 2) : σ := C.view (crossings participant) x

/-- Nobody has begun its constructor. -/
theorem init_initial {s : σ} (h : C.system.init s) :
    (processes C).init (s, Group.initial Barrier.ShmData.fresh) :=
  ⟨h, (Barrier.Group.initial_init _ : (lifeSystem 2 0).init _)⟩

/-- A protocol in which each party crosses the barrier `total` times, and that
does not go on for ever. -/
structure Bounded (C : Client Side σ α) (total : Nat) (rank : σ → Nat) : Prop where
  lawful : C.Lawful
  counted : C.Counted total
  ranked : C.system.Ranked rank

/-- One that, besides, comes to its end. -/
structure Protocol (C : Client Side σ α) (total : Nat) (rank : σ → Nat) : Prop
    extends Bounded C total rank where
  progress : ∀ s, C.system.Reachable s → ¬ (∀ p, C.status s p = .returned) →
    C.system.CanProgress s

/-- A process outside an iteration has entered none of its crossings, and one
inside it is short of the last iteration. -/
theorem crossings_le {round entered total period : Nat} {running : Bool} (hbound : round ≤ total)
    (hrunning : running = true → round < total) (hidle : running = false → entered = 0)
    (hentered : entered ≤ period) : round * period + entered ≤ total * period := by
  cases running with
  | true =>
      have hmul := Nat.mul_le_mul_right period (Nat.succ_le_of_lt (hrunning rfl))
      rw [Nat.succ_mul] at hmul
      omega
  | false =>
      rw [hidle rfl]
      exact Nat.mul_le_mul_right period hbound

theorem two_lt_wordSize : 2 < wordSize := by
  decide

theorem refines (hC : C.Lawful) (hcount : C.Counted total) (h : (processes C).Reachable x) :
    C.system.Reachable (protocolState C x) :=
  (Client.onDevice_refines hC hcount (Barrier.barrierDevice_implements two_lt_wordSize _) h).2

/-- The processes have returned, and the barrier is no more. -/
structure Completed (C : Client Side σ α) (total : Nat) (x : σ × Group 2) : Prop where
  returned : ∀ p, C.status x.1 p = .returned
  dissolved : Dissolved total x.2

/-- Released devices are finished lives. -/
theorem dissolved_of_gone (hg : (lifeSystem 2 total).Reachable x.2)
    (hgone : ∀ p, (barrierDevice participant).stage x.2 p = .gone) : Dissolved total x.2 := by
  have hfinished : ∀ q, (x.2.life q).isFinished = true := by
    intro q
    have hq : Barrier.stageOf (x.2.life (participant (participant.symm q))) _ = .gone :=
      hgone (participant.symm q)
    rw [participant.apply_symm_apply] at hq
    exact Barrier.stage_gone hq
  exact Barrier.dissolved_of_finished (by decide) two_lt_wordSize hg hfinished

theorem device_implements (total : Nat) : (barrierDevice participant).Implements total
    (lifeSystem 2 total).Reachable (crossings participant) (Barrier.Group.rank total) :=
  Barrier.barrierDevice_implements two_lt_wordSize participant

/-- A run as the protocol sees it. -/
def Bounded.viewed (h : Bounded C total rank) (r : (processes C).Behaviour) :
    C.system.Behaviour :=
  Client.viewed h.lawful h.counted (device_implements total) r

/-- **A weakly fair run comes to rest**, completed or where the protocol is
stuck. -/
theorem Bounded.settles (h : Bounded C total rank) (hpos : 1 ≤ total)
    (r : (processes C).Behaviour) (hfair : r.WeaklyFair C.owner) :
    ∃ i, (Completed C total (r.state i) ∨
        (¬ (∀ p, C.status (r.state i).1 p = .returned) ∧
          ¬ C.system.CanProgress (protocolState C (r.state i)))) ∧
      ∀ j, i ≤ j → r.state j = r.state i := by
  obtain ⟨i, hrest, hstay⟩ := Client.onDevice_settles h.lawful h.counted (device_implements total)
    (Barrier.barrierDevice_live two_lt_wordSize (.inr hpos) participant) h.ranked r hfair
  refine ⟨i, hrest.imp (fun hover => ?_) id, hstay⟩
  have hagree :=
    (Client.onDevice_refines h.lawful h.counted (device_implements total) (r.reachable i)).1
  exact ⟨fun p => (hover p).1, dissolved_of_gone hagree.sound fun p => (hover p).2⟩

/-- **A weakly fair run completes**, if the protocol does. -/
theorem Protocol.completes (h : Protocol C total rank) (hpos : 1 ≤ total)
    (r : (processes C).Behaviour) (hfair : r.WeaklyFair C.owner) :
    ∃ i, ∀ j, i ≤ j → Completed C total (r.state j) := by
  obtain ⟨i, hrest, hstay⟩ := h.settles hpos r hfair
  refine ⟨i, fun j hij => ?_⟩
  rw [hstay j hij]
  rcases hrest with hdone | ⟨hmore, hstuck⟩
  · exact hdone
  · have hreach := refines h.lawful h.counted (r.reachable i)
    refine absurd (h.progress _ hreach fun hall => hmore ?_) hstuck
    have hstatus : C.status (protocolState C (r.state i)) = C.status (r.state i).1 :=
      h.lawful.status_with _ _
    rwa [hstatus] at hall

/-- Such runs exist. -/
theorem Bounded.exists_weaklyFair (h : Bounded C total rank) {s : σ} (hinit : C.system.init s) :
    ∃ r : (processes C).Behaviour, r.WeaklyFair C.owner := by
  obtain ⟨r, _, hfair⟩ := System.exists_weaklyFair
    (Client.onDevice_ranked h.lawful h.counted (device_implements total) h.ranked)
    (init_initial hinit) C.owner
  exact ⟨r, hfair⟩

end Akbench.Benchmark
