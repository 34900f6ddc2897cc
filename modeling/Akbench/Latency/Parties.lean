/-
  Akbench.Latency.Parties
  ───────────────────────
  **A PARENT AND A CHILD THAT ANSWER EACH OTHER.**

  The latency benchmarks play `loop_size` rounds in each of their iterations.
  In a round the parent signals, the child consumes the signal and signals
  itself, and the parent consumes that.  Over all iterations this is
  `relay pingPong`, whatever the signals are made of.

    • `countP_share` — the number of events tells how many of them a party has
      made, and §3 turns that around;
    • `Config.round` — the rounds of all iterations numbered through.
-/
import Akbench.Lib.Relay
import Mathlib.Logic.Function.Basic

namespace Akbench.Latency

inductive Party where
  | parent
  | child
  deriving DecidableEq, Repr

/-- The one a party answers. -/
def Party.other : Party → Party
  | parent => child
  | child => parent

@[simp] theorem Party.other_other (p : Party) : p.other.other = p := by
  cases p <;> rfl

theorem Party.other_ne (p : Party) : p.other ≠ p := by
  cases p <;> decide

theorem Party.eq_other_of_ne {p q : Party} (h : q ≠ p) : q = p.other := by
  cases p <;> cases q <;> first | rfl | exact absurd rfl h

/-! ## §1. Rounds. -/

/-- The arguments of a latency benchmark. -/
structure Config where
  loopSize : Nat
  /-- `num_iterations + num_warmups`. -/
  total : Nat

namespace Config

variable (c : Config) {k i : Nat}

/-- All rounds of all iterations. -/
def rounds : Nat := c.total * c.loopSize

/-- The rounds that come before turn `i` of iteration `k`. -/
def round (k i : Nat) : Nat := k * c.loopSize + i

@[simp] theorem round_zero : c.round 0 0 = 0 := by
  unfold round
  rw [Nat.zero_mul]

@[simp] theorem round_succ (k i : Nat) : c.round k (i + 1) = c.round k i + 1 := rfl

/-- An iteration begins where the one before it ends. -/
theorem round_next (k : Nat) : c.round (k + 1) 0 = c.round k c.loopSize := by
  unfold round
  rw [Nat.succ_mul, Nat.add_zero]

theorem round_lt (hi : i < c.loopSize) : c.round k i + 1 ≤ c.round k c.loopSize := by
  unfold round
  omega

theorem round_le_rounds (hk : k < c.total) : c.round k c.loopSize ≤ c.rounds := by
  rw [← c.round_next]
  unfold round rounds
  exact Nat.mul_le_mul_right _ hk

theorem round_lt_rounds (hk : k < c.total) (hi : i < c.loopSize) :
    c.round k i + 1 ≤ c.rounds :=
  Nat.le_trans (c.round_lt hi) (c.round_le_rounds hk)

end Config

/-- Where the two threads can be in iteration `k`, if `isRunning` says who is
in its function and `Counted` what a loop counter can be. -/
structure Control {Q : Type*} (c : Config) (isRunning : Q → Bool) (Counted : Q → Prop) (k : Nat)
    (process : Party → Q) : Prop where
  bound : k ≤ c.total
  running : ∀ p, isRunning (process p) = true → k < c.total
  /-- The child has a thread while the parent is in an iteration. -/
  together : isRunning (process .child) = isRunning (process .parent)
  counted : ∀ p, Counted (process p)

namespace Control

variable {Q : Type*} {c : Config} {isRunning : Q → Bool} {Counted : Q → Prop} {k : Nat}
variable {process : Party → Q} {p : Party} {q : Q}

/-- Both threads at the same place. -/
theorem uniform (hk : k ≤ c.total) (hrun : isRunning q = true → k < c.total)
    (hcounted : Counted q) : Control c isRunning Counted k fun _ => q where
  bound := hk
  running _ := hrun
  together := rfl
  counted _ := hcounted

/-- A thread goes on. -/
theorem update (h : Control c isRunning Counted k process)
    (hrun : isRunning q = isRunning (process p)) (hcounted : Counted q) :
    Control c isRunning Counted k (Function.update process p q) := by
  have hsame : ∀ r, isRunning (Function.update process p q r) = isRunning (process r) := by
    intro r
    by_cases hr : r = p
    · subst hr
      rw [Function.update_self, hrun]
    · rw [Function.update_of_ne hr]
  -- the other party, and whether the two run, are as before
  refine ⟨h.bound, ?_, ?_, ?_⟩
  · intro r hr
    rw [hsame] at hr
    exact h.running r hr
  · rw [hsame, hsame]
    exact h.together
  · intro r
    by_cases hr : r = p
    · subst hr
      rwa [Function.update_self]
    · rw [Function.update_of_ne hr]
      exact h.counted r

/-- The two are in an iteration together. -/
theorem isRunning_eq (h : Control c isRunning Counted k process) (p : Party) :
    isRunning (process p) = isRunning (process .parent) := by
  cases p with
  | parent => rfl
  | child => exact h.together

end Control

/-! ## §2. Ping-pong. -/

inductive Op where
  | signal
  | consume
  deriving DecidableEq, Repr

abbrev Event := Party × Op

/-- A round. -/
def pingPong : List Event :=
  [(.parent, .signal), (.child, .consume), (.child, .signal), (.parent, .consume)]

/-- The place of an operation in its round. -/
def slot : Party → Op → Nat
  | .parent, .signal => 0
  | .child, .consume => 1
  | .child, .signal => 2
  | .parent, .consume => 3

theorem pingPong_slot (p : Party) (op : Op) : pingPong[slot p op]? = some (p, op) := by
  cases p <;> cases op <;> rfl

/-- The next event of `p` is `op`, and there are rounds left for it. -/
theorem pingPong_next {rounds : Nat} {t : List Event} {p : Party} {op : Op}
    (hslot : t.length % 4 = slot p op) (hlt : t.length < rounds * 4) :
    (relay pingPong rounds).Steps (fun _ _ => True) t (t ++ [(p, op)]) := by
  refine relay_next hlt ?_
  show pingPong[t.length % 4]? = _
  rw [hslot]
  exact pingPong_slot p op

/-- Behind `n` events `p` has signalled and its signal has not been
consumed. -/
def pending (p : Party) (n : Nat) : Bool := decide (n % 4 = slot p .signal + 1)

section

variable {p : Party} {n : Nat}

theorem pending_iff : pending p n = true ↔ n % 4 = slot p .signal + 1 :=
  decide_eq_true_iff

theorem not_pending_iff : pending p n = false ↔ n % 4 ≠ slot p .signal + 1 :=
  decide_eq_false_iff_not

/-- There is one signal at a time. -/
theorem pending_other (h : pending p n = true) : pending p.other n = false := by
  rw [pending_iff] at h
  rw [not_pending_iff]
  cases p <;> simp only [slot, Party.other] at h ⊢ <;> omega

/-- Around a signal. -/
theorem pending_signal (h : n % 4 = slot p .signal) :
    (pending p n = false ∧ pending p (n + 1) = true) ∧
      pending p.other n = false ∧ pending p.other (n + 1) = false := by
  simp only [pending_iff, not_pending_iff]
  cases p <;> simp only [slot, Party.other] at h ⊢ <;> omega

/-- Around the consumption of one. -/
theorem pending_consume (h : n % 4 = slot p .consume) :
    (pending p.other n = true ∧ pending p.other (n + 1) = false) ∧
      pending p n = false ∧ pending p (n + 1) = false := by
  simp only [pending_iff, not_pending_iff]
  cases p <;> simp only [slot, Party.other] at h ⊢ <;> omega

end

/-- How many of the first `n` events party `p` makes. -/
def Party.share : Party → Nat → Nat
  | parent, n => (n + 3) / 4 + n / 4
  | child, n => (n + 2) / 4 + (n + 1) / 4

theorem Party.share_parent (n : Nat) : parent.share n = (n + 3) / 4 + n / 4 := rfl

theorem Party.share_child (n : Nat) : child.share n = (n + 2) / 4 + (n + 1) / 4 := rfl

theorem Party.share_add (p : Party) (m r : Nat) : p.share (4 * m + r) = 2 * m + p.share r := by
  cases p <;> simp only [share] <;> omega

/-- **Who has made which of the events** is known from their number, in every
order that is made of such rounds. -/
theorem countP_share {α : Type*} [DecidableEq α] {cycle t : List α} {m rounds : Nat}
    (hpos : 0 < m) (hlength : cycle.length = 4 * m) (p : Party) (P : α → Bool)
    (htake : ∀ r, r ≤ 4 * m → (cycle.take r).countP P = p.share r)
    (h : (relay cycle rounds).Reachable t) : t.countP P = p.share t.length := by
  have hwhole : cycle.countP P = 2 * m := by
    have hall := htake (4 * m) (Nat.le_refl _)
    rw [List.take_of_length_le (Nat.le_of_eq hlength)] at hall
    have hshare := p.share_add m 0
    rw [hall]
    cases p <;> exact hshare
  -- whole rounds have two events of `p` for each of their fours, and the
  -- begun one is at hand
  have hmod : t.length % (4 * m) ≤ 4 * m := Nat.le_of_lt (Nat.mod_lt _ (by omega))
  rw [relay_countP (by omega) h, hlength, hwhole, htake _ hmod]
  calc t.length / (4 * m) * (2 * m) + p.share (t.length % (4 * m))
      = 2 * (m * (t.length / (4 * m))) + p.share (t.length % (4 * m)) := by
        rw [Nat.mul_comm, Nat.mul_assoc]
    _ = p.share (4 * (m * (t.length / (4 * m))) + t.length % (4 * m)) := by
        rw [Party.share_add]
    _ = p.share t.length := by rw [← Nat.mul_assoc, Nat.div_add_mod]

/-- An event more for the party that made it, and for no other. -/
theorem countP_event {α : Type*} (owner : α → Party) {t : List α} {e : α} {p : Party}
    {made made' : Party → Nat} (howner : owner e = p)
    (h : ∀ q, t.countP (fun e => owner e = q) = made q) (hown : made' p = made p + 1)
    (hother : ∀ q, q ≠ p → made' q = made q) (q : Party) :
    (t ++ [e]).countP (fun e => owner e = q) = made' q := by
  rw [List.countP_append, h q, List.countP_singleton, howner]
  by_cases hq : q = p
  · subst hq
    rw [hown, if_pos (by simp)]
  · rw [hother q hq, if_neg (by simp [Ne.symm hq])]
    rfl

section

variable {rounds : Nat} {t : List Event} (h : (relay pingPong rounds).Reachable t)
include h

theorem countP_pingPong (p : Party) : t.countP (fun e => e.1 = p) = p.share t.length := by
  refine countP_share (by decide) (m := 1) rfl p _ ?_ h
  cases p <;> decide

/-- How often one operation of the round has happened. -/
theorem count_pingPong (p : Party) (op : Op) :
    t.count (p, op) = (t.length + 3 - slot p op) / 4 := by
  have hfour : pingPong.length = 4 := rfl
  have hone : pingPong.countP (· == (p, op)) = 1 := by
    cases p <;> cases op <;> rfl
  have hround : ∀ r, r < 4 →
      (pingPong.take r).countP (· == (p, op)) = (r + 3 - slot p op) / 4 := by
    cases p <;> cases op <;> decide
  have hslot : slot p op ≤ 3 := by
    cases p <;> cases op <;> decide
  -- once in every whole round, and in the begun one if its slot is behind
  unfold List.count
  rw [relay_countP (by decide) h, hfour, hone, hround _ (Nat.mod_lt _ (by decide))]
  omega

end

/-! ## §3. Where a party is in its round. -/

/-- The events a party has made in the round when it is to signal. -/
def Party.signalling : Party → Nat
  | parent => 0
  | child => 1

/-- The events a party has made in the round when it is to consume. -/
def Party.awaiting : Party → Nat
  | parent => 1
  | child => 0

section

variable {p : Party} {n g : Nat}

/-- Who is to signal has its turn. -/
theorem due_signal (h : p.share n = 2 * g + p.signalling) :
    n % 4 = slot p .signal ∧ n < 4 * (g + 1) := by
  cases p <;> simp only [Party.share, Party.signalling] at h <;> simp only [slot] <;> omega

/-- Who is to consume has its turn once there is a signal. -/
theorem due_consume (h : p.share n = 2 * g + p.awaiting) (hpending : pending p.other n = true) :
    n % 4 = slot p .consume ∧ n < 4 * (g + 1) := by
  rw [pending_iff] at hpending
  cases p <;> simp only [Party.share, Party.awaiting] at h <;>
    simp only [Party.other, slot] at hpending ⊢ <;> omega

/-- Until then the other has not signalled. -/
theorem awaits (h : p.share n = 2 * g + p.awaiting) (hpending : pending p.other n = false) :
    (n % 4 = slot p.other .signal ∨ (n + 1) % 4 = slot p.other .signal) ∧
      n + 2 ≤ 4 * (g + 1) := by
  rw [not_pending_iff] at hpending
  cases p <;> simp only [Party.share, Party.awaiting] at h <;>
    simp only [Party.other, slot] at hpending ⊢ <;> omega

/-- Who has made all events of `g` rounds cannot be ahead of the other by
much. -/
theorem share_whole (h : p.share n = 2 * g) : 4 * g ≤ n + 1 ∧ (p = .parent → n = 4 * g) := by
  cases p <;> simp only [Party.share] at h <;> refine ⟨by omega, ?_⟩ <;> intro hp
  · omega
  · cases hp

end

end Akbench.Latency
