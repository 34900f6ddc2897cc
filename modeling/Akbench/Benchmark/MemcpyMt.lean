/-
  Akbench.Benchmark.MemcpyMt
  ──────────────────────────
  **`RunMemcpyMtBandwidthBenchmark` COMES TO ITS END.**

  A thread may write a byte of its chunk again and again, and the main thread
  waits in `join` for whoever is slowest.  Only the first write of a byte
  changes anything, so the bytes not yet written, and the threads not yet made
  and not yet joined, are what is left of an iteration.

    • `sum_copySize` — together the threads write `data_size` bytes;
    • `ranked` — every step that changes something lowers what is left;
    • `memcpy_mt_benchmark` — every weakly fair run ends with the data copied
      and every verification passed.
-/
import Akbench.Lib.Termination
import Akbench.Transfer.MemcpyMt
import Mathlib.Algebra.BigOperators.Fin
import Mathlib.Algebra.BigOperators.Intervals

namespace Akbench.MemcpyMt

variable {p : Params} {s s' : State} {t k : Nat}

/-! ## §1. The iterations. -/

/-- The main thread is inside of an iteration. -/
def Pc.isRunning : Pc → Bool
  | .filling | .exited => false
  | .spawning _ | .joining _ | .verifying => true

/-- No iteration begins behind the last. -/
structure Bounded (p : Params) (s : State) : Prop where
  bound : s.iteration ≤ p.total
  running : s.pc.isRunning = true → s.iteration < p.total

theorem MainMove.bounded (hmove : MainMove p s s') (h : Bounded p s) : Bounded p s' := by
  have hon : ∀ pc, s.pc = pc → pc.isRunning = true → s.iteration < p.total := by
    rintro pc rfl
    exact h.running
  cases hmove with
  | fill hpc hlt => exact ⟨h.bound, fun _ => hlt⟩
  | quit hpc hge => exact ⟨h.bound, nofun⟩
  | spawn hpc | spawned hpc | join hpc | joined hpc => exact ⟨h.bound, fun _ => hon _ hpc rfl⟩
  | verify hpc => exact ⟨hon _ hpc rfl, nofun⟩

theorem bounded_of_reachable (h : (system p).Reachable s) : Bounded p s := by
  refine System.invariant (I := Bounded p) ?_ ?_ h
  · intro t ht
    rw [show t = State.fresh p from ht]
    exact ⟨Nat.zero_le _, nofun⟩
  · intro t a t' hinv hs
    cases a with
    | main => exact (mainStep_move hs).bounded hinv
    | copy u k =>
        obtain ⟨_, _, dst, _, rfl⟩ := copyStep_cases hs
        exact ⟨hinv.bound, hinv.running⟩

/-! ## §2. What is left to do. -/

/-- **Together the threads copy `data_size` bytes.** -/
theorem Params.sum_copySize (p : Params) : ∑ t : Fin p.nThreads, p.copySize t = p.dataSize := by
  rw [Fin.sum_univ_eq_sum_range p.copySize]
  calc ∑ t ∈ Finset.range p.nThreads, p.copySize t
      = ∑ t ∈ Finset.range p.nThreads, (p.bound (t + 1) - p.bound t) := by
        refine Finset.sum_congr rfl fun t ht => ?_
        have htn := Finset.mem_range.mp ht
        rw [p.copySize_eq htn, p.start_eq htn, p.stop_eq htn]
    _ = p.bound p.nThreads - p.bound 0 := Finset.sum_range_tsub p.bound_mono _
    _ = p.dataSize := by rw [p.bound_nThreads, p.bound_zero, Nat.sub_zero]

/-- The offsets thread `t` has not written yet. -/
def State.pending (p : Params) (s : State) (t : Nat) : Finset Nat :=
  Finset.range (p.copySize t) \ s.copied t

/-- The bytes not written yet. -/
def State.uncopied (p : Params) (s : State) : Nat :=
  ∑ t : Fin p.nThreads, (s.pending p t).card

/-- Steps left in the iteration, repeated writes apart. -/
def State.left (p : Params) (s : State) : Nat :=
  match s.pc with
  | .filling => p.dataSize + 2 * p.nThreads + 4
  | .spawning j => s.uncopied p + (p.nThreads - j) + p.nThreads + 3
  | .joining j => s.uncopied p + (p.nThreads - j) + 2
  | .verifying => 1
  | .exited => 0

/-- Steps left. -/
def State.rank (p : Params) (s : State) : Nat :=
  (p.total - s.iteration) * (p.dataSize + 2 * p.nThreads + 5) + s.left p

theorem uncopied_of_empty (h : s.copied = fun _ => ∅) : s.uncopied p = p.dataSize := by
  unfold State.uncopied State.pending
  rw [h]
  simp only [Finset.sdiff_empty, Finset.card_range]
  exact p.sum_copySize

/-- **Every step of the main thread lowers what is left.** -/
theorem MainMove.rank (hmove : MainMove p s s') (h : Bounded p s) : s'.rank p < s.rank p := by
  -- within an iteration only `left` counts
  have hwithin : s'.iteration = s.iteration → s'.left p < s.left p → s'.rank p < s.rank p := by
    intro hsame hlt
    unfold State.rank
    rw [hsame]
    exact Nat.add_lt_add_left hlt _
  cases hmove with
  | fill hpc hlt =>
      refine hwithin rfl ?_
      have hall := uncopied_of_empty (p := p)
        (s := ⟨.spawning 0, s.iteration, List.replicate s.dst.length 0, fun _ => ∅, s.verdicts⟩) rfl
      simp only [State.left, hpc, hall]
      omega
  | quit hpc hge =>
      refine hwithin rfl ?_
      simp only [State.left, hpc]
      omega
  | spawn hpc hlt =>
      refine hwithin rfl ?_
      simp only [State.left, hpc]
      change s.uncopied p + _ + _ + _ < _
      omega
  | spawned hpc hge =>
      refine hwithin rfl ?_
      simp only [State.left, hpc]
      change s.uncopied p + _ + _ < _
      omega
  | join hpc hlt =>
      refine hwithin rfl ?_
      simp only [State.left, hpc]
      change s.uncopied p + _ + _ < _
      omega
  | joined hpc hge =>
      refine hwithin rfl ?_
      simp only [State.left, hpc]
      omega
  | verify hpc =>
      have hlt := h.running (by rw [hpc]; rfl)
      exact next_round_lt hlt (Nat.lt_succ_self _)

/-- A byte written again is the byte that is there. -/
theorem Inv.copy_again (h : Inv p s) (hk : k ∈ s.copied t) (hs : copyStep p s t k = some s') :
    s' = s := by
  obtain ⟨_, _, dst, hdst, rfl⟩ := copyStep_cases hs
  obtain ⟨_, hhere, hothers⟩ := copyByte_cases hdst
  have hsame : dst = s.dst := by
    apply List.ext_getElem?
    intro i
    by_cases hi : i = p.start t + k
    · rw [hi, hhere, h.copied t k hk]
    · exact hothers i hi
  rw [hsame, Finset.insert_eq_of_mem hk, Function.update_eq_self]

/-- A byte written for the first time is one byte less to write. -/
theorem uncopied_lt (dst : List UInt8) (ht : t < p.nThreads) (hk : k < p.copySize t)
    (hnew : k ∉ s.copied t) :
    State.uncopied p { s with
      dst := dst
      copied := Function.update s.copied t (insert k (s.copied t)) } < s.uncopied p := by
  refine sum_rank_lt (p := ⟨t, ht⟩) ?_ ?_
  · apply Finset.card_lt_card
    show Finset.range (p.copySize t) \ Function.update s.copied t (insert k (s.copied t)) t ⊂
      Finset.range (p.copySize t) \ s.copied t
    rw [Function.update_self]
    refine Finset.ssubset_iff_subset_ne.mpr
      ⟨Finset.sdiff_subset_sdiff (Finset.Subset.refl _) (Finset.subset_insert _ _), ?_⟩
    intro heq
    -- `k` was pending, and is not any more
    have hmem : k ∈ Finset.range (p.copySize t) \ s.copied t :=
      Finset.mem_sdiff.mpr ⟨Finset.mem_range.mpr hk, hnew⟩
    rw [← heq] at hmem
    exact (Finset.mem_sdiff.mp hmem).2 (Finset.mem_insert_self k _)
  · intro u hu
    have hne : (u : Nat) ≠ t := fun heq => hu (Fin.ext heq)
    show (Finset.range _ \ Function.update s.copied t (insert k (s.copied t)) u).card = _
    rw [Function.update_of_ne hne]
    rfl

/-- **So does every step of a thread that changes something.** -/
theorem Inv.copy_rank (h : Inv p s) (hs : copyStep p s t k = some s') (hne : s' ≠ s) :
    s'.rank p < s.rank p := by
  have hnew : k ∉ s.copied t := fun hk => hne (h.copy_again hk hs)
  obtain ⟨hruns, hk, dst, _, rfl⟩ := copyStep_cases hs
  have hlt := uncopied_lt dst (h.runs t hruns) hk hnew
  refine Nat.add_lt_add_left ?_ _
  -- a thread runs while the main thread makes or joins threads
  cases hpc : s.pc with
  | spawning j =>
      simp only [State.left, hpc] at hlt ⊢
      omega
  | joining j =>
      simp only [State.left, hpc] at hlt ⊢
      omega
  | filling | verifying | exited =>
      rw [hpc] at hruns
      exact absurd hruns id

theorem ranked (p : Params) : (system p).Ranked (State.rank p) := by
  intro s a s' hreach hs hne
  cases a with
  | main => exact (mainStep_move hs).rank (bounded_of_reachable hreach)
  | copy t k => exact (inv_of_reachable hreach).copy_rank hs hne

/-! ## §3. The whole benchmark. -/

/-- Whose step it is, `none` for the main thread. -/
def Action.thread : Action → Option Nat
  | .main => none
  | .copy t _ => some t

/-- What holds at every moment. -/
structure Undisturbed (p : Params) (s : State) : Prop where
  /-- No `memcpy` leaves the two vectors. -/
  inside : ∀ t k, s.pc.Runs p.nThreads t → k < p.copySize t →
    p.start t + k < p.src.length ∧ p.start t + k < s.dst.length
  /-- No verification fails. -/
  verified : ∀ v, v ∈ s.verdicts → v = some true
  /-- What is verified is the copy of all threads. -/
  whole : s.pc = .verifying → s.dst = p.src

/-- The benchmark is over. -/
structure Over (p : Params) (s : State) : Prop where
  exited : s.pc = .exited
  iterations : s.iteration = p.total
  copied : 0 < p.total → s.dst = p.src
  verdicts : s.verdicts = List.replicate (p.total - p.numWarmups) (some true)

theorem undisturbed_of_reachable {draws : Nat → UInt64}
    (hsrc : generateDataToSend draws p.dataSize = some p.src)
    (h : (system p).Reachable s) : Undisturbed p s where
  inside t k hruns hk := by
    have hinv := inv_of_reachable h
    have hlt := p.start_add_lt (hinv.runs t hruns) hk
    refine ⟨hlt, ?_⟩
    rw [hinv.length]
    exact hlt
  verified v hv := by
    rw [verdicts_eq hsrc h] at hv
    exact (List.mem_replicate.mp hv).2
  whole hpc := (inv_of_reachable h).dst_eq hpc

theorem over_of_exited {draws : Nat → UInt64}
    (hsrc : generateDataToSend draws p.dataSize = some p.src)
    (h : (system p).Reachable s) (hpc : s.pc = .exited) : Over p s := by
  have hinv := inv_of_reachable h
  have hall : s.iteration = p.total :=
    Nat.le_antisymm (bounded_of_reachable h).bound (hinv.exited hpc)
  refine ⟨hpc, hall, ?_, ?_⟩
  · intro hpos
    exact hinv.kept (.inr hpc) (by omega)
  · rw [verdicts_eq hsrc h, hall]

/-- **The `memcpy_mt` benchmark**: with generated data, any number of threads
and of iterations, however the threads' writes interleave, no access leaves
the vectors and no verification fails, and every weakly fair run ends behind
all iterations with the data copied. -/
theorem memcpy_mt_benchmark (p : Params) (draws : Nat → UInt64)
    (hsrc : generateDataToSend draws p.dataSize = some p.src) :
    (∀ s, (system p).Reachable s → Undisturbed p s) ∧
      ∀ r : (system p).Behaviour, r.WeaklyFair Action.thread →
        ∃ i, ∀ j, i ≤ j → Over p (r.state j) := by
  refine ⟨fun s hs => undisturbed_of_reachable hsrc hs, fun r hfair => ?_⟩
  obtain ⟨i, hi, hstay⟩ := r.terminates (ranked p)
    (fun s hs hpc => (inv_of_reachable hs).canProgress hpc) hfair
  refine ⟨i, fun j hij => ?_⟩
  rw [hstay j hij]
  exact over_of_exited hsrc (r.reachable i) hi

theorem memcpy_mt_benchmark_three :
    ∃ (p : Params) (r : (system p).Behaviour), p.nThreads = 3 ∧ p.dataSize = 137 ∧
      (∀ i, Undisturbed p (r.state i)) ∧ ∃ i, ∀ j, i ≤ j → Over p (r.state j) := by
  have hsize : checksumSize < 137 := by decide
  have hword : 137 < wordSize := by decide
  obtain ⟨data, hgen, hlen, _⟩ := exists_generated UInt64.ofNat hsize hword
  let p : Params := ⟨3, 1, 4, data, by decide, by decide, hlen ▸ hsize, hlen ▸ hword⟩
  have hsrc : generateDataToSend UInt64.ofNat p.dataSize = some p.src := by
    rw [show p.dataSize = 137 from hlen]
    exact hgen
  obtain ⟨r, _, hfair⟩ := System.exists_weaklyFair (ranked p) (s := State.fresh p) rfl Action.thread
  obtain ⟨hall, hend⟩ := memcpy_mt_benchmark p UInt64.ofNat hsrc
  exact ⟨p, r, rfl, hlen, fun i => hall _ (r.reachable i), hend r hfair⟩

end Akbench.MemcpyMt
