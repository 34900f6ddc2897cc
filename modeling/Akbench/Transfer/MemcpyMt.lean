/-
  Akbench.Transfer.MemcpyMt
  ─────────────────────────
  **`memcpy_mt_bandwidth`: A COPY SHARED BY `n_threads` THREADS.**

  Thread `t` copies the bytes from `t * chunk_size` up to the start of the
  next thread, the last one up to `data_size`; all of this is `uint64_t`
  arithmetic.  The bytes of a `memcpy` are written one at a time, in any order
  and any byte again, whatever the other threads do in between.

    • §2 — the starts rise from 0 to `data_size`, so the intervals partition
      `[0, data_size)` and no operation wraps;
    • §4 — what a thread has copied is as in `src`, and stays so;
    • §5 — behind the last `join` every byte has been copied.
-/
import Akbench.Common.Generate
import Akbench.Lib.System
import Mathlib.Data.Nat.SuccPred
import Mathlib.Order.CompletePartialOrder
import Mathlib.Order.Interval.Set.Union
import Mathlib.Order.SuccPred.IntervalSucc

namespace Akbench.MemcpyMt

/-! ## §1. The code. -/

/-- The arguments `main` passes, and what `GenerateDataToSend` made of them. -/
structure Params where
  nThreads : Nat
  numWarmups : Nat
  /-- `num_warmups + num_iterations`. -/
  total : Nat
  src : List UInt8
  nThreads_pos : 0 < nThreads
  nThreads_lt : nThreads < wordSize
  accepted : checksumSize < src.length
  length_lt : src.length < wordSize

namespace Params

/-- `data_size`. -/
def dataSize (p : Params) : Nat := p.src.length

/-- `chunk_size`. -/
def chunkSize (p : Params) : Nat := p.dataSize / p.nThreads

/-- `start` of `copy_chunk`. -/
def start (p : Params) (threadId : Nat) : Nat := mul64 threadId p.chunkSize

/-- `end` of `copy_chunk`. -/
def stop (p : Params) (threadId : Nat) : Nat :=
  if threadId = sub64 p.nThreads 1 then p.dataSize else add64 (p.start threadId) p.chunkSize

/-- The size `copy_chunk` passes to `memcpy`. -/
def copySize (p : Params) (threadId : Nat) : Nat := sub64 (p.stop threadId) (p.start threadId)

end Params

/-- Where the main thread is in `MemcpyInMultiThread`. -/
inductive Pc where
  /-- At the head of the iteration loop. -/
  | filling
  /-- Before it makes thread `j`. -/
  | spawning (j : Nat)
  /-- Before it joins thread `j`. -/
  | joining (j : Nat)
  /-- Behind the last `join`. -/
  | verifying
  | exited
  deriving DecidableEq, Repr

/-- `copied t` are the offsets thread `t` has written so far, all of them when
its `memcpy` returns; `verdicts` has the results of `VerifyDataReceived`,
latest first, and no code reads it. -/
structure State where
  pc : Pc
  iteration : Nat
  dst : List UInt8
  copied : Nat → Finset Nat
  verdicts : List (Option Bool)

/-- Thread `t` has been made, and not been joined. -/
def Pc.Runs : Pc → Nat → Nat → Prop
  | .spawning j, _, t => t < j
  | .joining j, n, t => j ≤ t ∧ t < n
  | _, _, _ => False

instance (pc : Pc) (n t : Nat) : Decidable (pc.Runs n t) := by
  cases pc <;> unfold Pc.Runs <;> infer_instance

/-- Thread `t` is through its `memcpy`. -/
def State.Finished (p : Params) (s : State) (t : Nat) : Prop :=
  ∀ k, k < p.copySize t → k ∈ s.copied t

instance (p : Params) (s : State) (t : Nat) : Decidable (s.Finished p t) :=
  inferInstanceAs (Decidable (∀ k, k < p.copySize t → k ∈ s.copied t))

/-- One byte of a `memcpy`; outside of either vector it has no defined
effect. -/
def copyByte (src dst : List UInt8) (i : Nat) : Option (List UInt8) :=
  match src[i]? with
  | some b => writeByte dst i b
  | none => none

/-- A step of the main thread. -/
def mainStep (p : Params) (s : State) : Option State :=
  match s.pc with
  -- `std::fill`; no thread runs
  | .filling =>
      if s.iteration < p.total then
        some { s with
          pc := .spawning 0
          dst := List.replicate s.dst.length 0
          copied := fun _ => ∅ }
      else some { s with pc := .exited }
  -- a thread may start to copy before the next one is made
  | .spawning j =>
      if j < p.nThreads then some { s with pc := .spawning (j + 1) }
      else some { s with pc := .joining 0 }
  | .joining j =>
      if j < p.nThreads then
        -- `join` waits for this thread, not for the later ones
        if s.Finished p j then some { s with pc := .joining (j + 1) } else none
      else some { s with pc := .verifying }
  | .verifying =>
      some { s with
        pc := .filling
        iteration := s.iteration + 1
        verdicts :=
          if p.numWarmups ≤ s.iteration then
            verifyDataReceived s.dst p.dataSize :: s.verdicts
          else s.verdicts }
  | .exited => none

/-- Thread `t` copies the byte at offset `k` of its chunk. -/
def copyStep (p : Params) (s : State) (t k : Nat) : Option State :=
  if s.pc.Runs p.nThreads t ∧ k < p.copySize t then
    (copyByte p.src s.dst (p.start t + k)).map fun dst =>
      { s with dst := dst, copied := Function.update s.copied t (insert k (s.copied t)) }
  else none

inductive Action where
  | main
  | copy (t k : Nat)
  deriving DecidableEq, Repr

/-- `std::vector<uint8_t> dst(data_size, 0x00)`, before the iterations. -/
def State.fresh (p : Params) : State where
  pc := .filling
  iteration := 0
  dst := List.replicate p.dataSize 0
  copied := fun _ => ∅
  verdicts := []

/-- `MemcpyInMultiThread` with all its threads. -/
def system (p : Params) : System State Action where
  init s := s = State.fresh p
  step s a :=
    match a with
    | .main => mainStep p s
    | .copy t k => copyStep p s t k

/-! ## §2. The intervals. -/

namespace Params

variable (p : Params) {t u : Nat}

/-- The positions thread `t` copies. -/
def interval (t : Nat) : Set Nat := Set.Ico (p.start t) (p.stop t)

/-- Where thread `t` starts in exact arithmetic; `data_size` for all who come
behind the last. -/
def bound (t : Nat) : Nat := if t < p.nThreads then t * p.chunkSize else p.dataSize

/-- No operation of `copy_chunk` wraps: the product, the sum of a thread that
is not the last, and the two differences. -/
structure Exact (t : Nat) : Prop where
  product : t * p.chunkSize < wordSize
  sum : t ≠ p.nThreads - 1 → p.start t + p.chunkSize < wordSize
  last : 1 ≤ p.nThreads
  difference : p.start t ≤ p.stop t

theorem mul_chunkSize_le (h : t ≤ p.nThreads) : t * p.chunkSize ≤ p.dataSize := by
  calc t * p.chunkSize ≤ p.nThreads * p.chunkSize := Nat.mul_le_mul_right _ h
    _ ≤ p.dataSize := Nat.mul_div_le p.dataSize p.nThreads

@[simp] theorem bound_zero : p.bound 0 = 0 := by
  unfold bound
  rw [if_pos p.nThreads_pos, Nat.zero_mul]

@[simp] theorem bound_nThreads : p.bound p.nThreads = p.dataSize :=
  if_neg (Nat.lt_irrefl _)

/-- The bounds rise, also where the chunks are empty. -/
theorem bound_mono : Monotone p.bound := by
  intro t u htu
  unfold bound
  split
  next ht =>
    split
    next => exact Nat.mul_le_mul_right _ htu
    next => exact p.mul_chunkSize_le (Nat.le_of_lt ht)
  -- behind the last thread both bounds are `data_size`
  next ht => rw [if_neg (by omega)]

theorem start_eq (ht : t < p.nThreads) : p.start t = p.bound t := by
  have hle := p.mul_chunkSize_le (Nat.le_of_lt ht)
  have hlt : t * p.chunkSize < wordSize := Nat.lt_of_le_of_lt hle p.length_lt
  unfold start bound
  rw [mul64_eq hlt, if_pos ht]

theorem last_eq : sub64 p.nThreads 1 = p.nThreads - 1 :=
  sub64_eq p.nThreads_pos

/-- **A thread stops where the next one starts**, the last one at the end. -/
theorem stop_eq (ht : t < p.nThreads) : p.stop t = p.bound (t + 1) := by
  unfold stop
  rw [last_eq]
  split
  next hlast =>
    -- the last thread takes what the division left over
    have hnot : ¬ t + 1 < p.nThreads := by omega
    unfold bound
    rw [if_neg hnot]
  next hlast =>
    -- the end of any other chunk is still inside of the data
    have hnext : t + 1 < p.nThreads := by omega
    have hle := p.mul_chunkSize_le (Nat.le_of_lt hnext)
    have hlt : t * p.chunkSize + p.chunkSize < wordSize := by
      rw [← Nat.succ_mul]
      exact Nat.lt_of_le_of_lt hle p.length_lt
    rw [p.start_eq ht]
    unfold bound
    rw [if_pos ht, if_pos hnext, add64_eq hlt, Nat.succ_mul]

theorem start_le_stop (ht : t < p.nThreads) : p.start t ≤ p.stop t := by
  rw [p.start_eq ht, p.stop_eq ht]
  exact p.bound_mono (Nat.le_succ t)

theorem stop_le (ht : t < p.nThreads) : p.stop t ≤ p.dataSize := by
  rw [p.stop_eq ht, ← p.bound_nThreads]
  exact p.bound_mono ht

theorem exact (ht : t < p.nThreads) : p.Exact t := by
  have hle := p.mul_chunkSize_le (Nat.le_of_lt ht)
  have hlength : p.dataSize < wordSize := p.length_lt
  refine ⟨Nat.lt_of_le_of_lt hle hlength, ?_, p.nThreads_pos, p.start_le_stop ht⟩
  intro hlast
  have hnext : t + 1 ≤ p.nThreads := ht
  have hsucc := p.mul_chunkSize_le hnext
  rw [Nat.succ_mul] at hsucc
  rw [p.start_eq ht]
  unfold bound
  rw [if_pos ht]
  omega

theorem copySize_eq (ht : t < p.nThreads) : p.copySize t = p.stop t - p.start t :=
  sub64_eq (p.start_le_stop ht)

theorem interval_eq (ht : t < p.nThreads) :
    p.interval t = Set.Ico (p.bound t) (p.bound (t + 1)) := by
  unfold interval
  rw [p.start_eq ht, p.stop_eq ht]

/-- No byte is copied by two threads. -/
theorem interval_disjoint (ht : t < p.nThreads) (hu : u < p.nThreads) (htu : t ≠ u) :
    Disjoint (p.interval t) (p.interval u) := by
  rw [p.interval_eq ht, p.interval_eq hu]
  exact p.bound_mono.pairwise_disjoint_on_Ico_succ htu

/-- Every byte is copied by some thread. -/
theorem interval_cover :
    ⋃ t ∈ Finset.range p.nThreads, p.interval t = Set.Ico 0 p.dataSize := by
  apply Set.Subset.antisymm
  · intro i hi
    obtain ⟨t, ht, hit⟩ := Set.mem_iUnion₂.mp hi
    have hle := p.stop_le (Finset.mem_range.mp ht)
    exact ⟨Nat.zero_le i, Nat.lt_of_lt_of_le hit.2 hle⟩
  -- the bounds rise from 0 to `data_size`: no position is between two intervals
  · have hsub := Ico_subset_biUnion_Ico p.nThreads p.bound
    rw [p.bound_zero, p.bound_nThreads] at hsub
    intro i hi
    obtain ⟨t, ht, hit⟩ := Set.mem_iUnion₂.mp (hsub hi)
    refine Set.mem_iUnion₂.mpr ⟨t, ht, ?_⟩
    rwa [p.interval_eq (Finset.mem_range.mp ht)]

/-- A position by its thread and its offset there. -/
theorem exists_offset {i : Nat} (hi : i < p.dataSize) :
    ∃ t k, t < p.nThreads ∧ k < p.copySize t ∧ i = p.start t + k := by
  have hmem : i ∈ Set.Ico 0 p.dataSize := ⟨Nat.zero_le i, hi⟩
  rw [← p.interval_cover] at hmem
  obtain ⟨t, ht, hlow, hhigh⟩ := Set.mem_iUnion₂.mp hmem
  have htn : t < p.nThreads := Finset.mem_range.mp ht
  refine ⟨t, i - p.start t, htn, ?_, by omega⟩
  rw [p.copySize_eq htn]
  omega

/-- **Every access is inside the vectors.** -/
theorem start_add_lt (ht : t < p.nThreads) {k : Nat} (hk : k < p.copySize t) :
    p.start t + k < p.dataSize := by
  have hle := p.stop_le ht
  rw [p.copySize_eq ht] at hk
  omega

end Params

/-! ## §3. One step. -/

variable {p : Params} {s s' : State} {t k : Nat}

/-- A byte copied is as in `src`, and the others stay. -/
theorem copyByte_cases {src dst dst' : List UInt8} {i : Nat}
    (h : copyByte src dst i = some dst') :
    dst'.length = dst.length ∧ dst'[i]? = src[i]? ∧ ∀ j, j ≠ i → dst'[j]? = dst[j]? := by
  unfold copyByte at h
  cases hb : src[i]? with
  | none =>
      rw [hb] at h
      cases h
  | some b =>
      rw [hb] at h
      obtain ⟨hi, rfl⟩ := System.guard_cases h
      refine ⟨List.length_set, ?_, ?_⟩
      · rw [List.getElem?_set_self hi]
      · intro j hj
        exact List.getElem?_set_ne (Ne.symm hj)

/-- A byte inside both vectors can be copied. -/
theorem exists_copyByte {src dst : List UInt8} {i : Nat} (hsrc : i < src.length)
    (hdst : i < dst.length) : ∃ dst', copyByte src dst i = some dst' := by
  unfold copyByte writeByte
  rw [List.getElem?_eq_getElem hsrc]
  exact ⟨_, if_pos hdst⟩

/-- A step of the main thread, by what it does. -/
inductive MainMove (p : Params) (s : State) : State → Prop where
  | fill (hpc : s.pc = .filling) (hlt : s.iteration < p.total) :
      MainMove p s { s with
        pc := .spawning 0
        dst := List.replicate s.dst.length 0
        copied := fun _ => ∅ }
  | quit (hpc : s.pc = .filling) (hge : p.total ≤ s.iteration) :
      MainMove p s { s with pc := .exited }
  | spawn {j : Nat} (hpc : s.pc = .spawning j) (hlt : j < p.nThreads) :
      MainMove p s { s with pc := .spawning (j + 1) }
  | spawned {j : Nat} (hpc : s.pc = .spawning j) (hge : p.nThreads ≤ j) :
      MainMove p s { s with pc := .joining 0 }
  | join {j : Nat} (hpc : s.pc = .joining j) (hlt : j < p.nThreads)
      (hfinished : s.Finished p j) : MainMove p s { s with pc := .joining (j + 1) }
  | joined {j : Nat} (hpc : s.pc = .joining j) (hge : p.nThreads ≤ j) :
      MainMove p s { s with pc := .verifying }
  | verify (hpc : s.pc = .verifying) :
      MainMove p s { s with
        pc := .filling
        iteration := s.iteration + 1
        verdicts :=
          if p.numWarmups ≤ s.iteration then
            verifyDataReceived s.dst p.dataSize :: s.verdicts
          else s.verdicts }

theorem mainStep_move (hs : mainStep p s = some s') : MainMove p s s' := by
  unfold mainStep at hs
  cases hpc : s.pc with
  | filling =>
      rw [hpc] at hs
      obtain ⟨hlt, rfl⟩ | ⟨hge, rfl⟩ := System.branch_cases hs
      · exact .fill hpc hlt
      · exact .quit hpc (Nat.le_of_not_lt hge)
  | spawning j =>
      rw [hpc] at hs
      obtain ⟨hlt, rfl⟩ | ⟨hge, rfl⟩ := System.branch_cases hs
      · exact .spawn hpc hlt
      · exact .spawned hpc (Nat.le_of_not_lt hge)
  | joining j =>
      rw [hpc] at hs
      dsimp only at hs
      split at hs
      next hlt =>
        obtain ⟨hfinished, rfl⟩ := System.guard_cases hs
        exact .join hpc hlt hfinished
      next hge =>
        injection hs with hs
        subst hs
        exact .joined hpc (Nat.le_of_not_lt hge)
  | verifying =>
      rw [hpc] at hs
      injection hs with hs
      subst hs
      exact .verify hpc
  | exited =>
      rw [hpc] at hs
      cases hs

/-- What a step of a thread does. -/
theorem copyStep_cases (hs : copyStep p s t k = some s') :
    s.pc.Runs p.nThreads t ∧ k < p.copySize t ∧
      ∃ dst, copyByte p.src s.dst (p.start t + k) = some dst ∧
        s' = { s with
          dst := dst
          copied := Function.update s.copied t (insert k (s.copied t)) } := by
  unfold copyStep at hs
  split at hs
  next h =>
    obtain ⟨dst, hdst, heq⟩ := Option.map_eq_some_iff.mp hs
    exact ⟨h.1, h.2, dst, hdst, heq.symm⟩
  next => cases hs

/-! ## §4. The invariant. -/

/-- The threads joined so far. -/
def Pc.joined : Pc → Nat → Nat
  | .joining j, _ => j
  | .verifying, n => n
  | _, _ => 0

/-- Everything that holds in every run. -/
structure Inv (p : Params) (s : State) : Prop where
  length : s.dst.length = p.dataSize
  runs : ∀ t, s.pc.Runs p.nThreads t → t < p.nThreads
  /-- What has been copied is as in `src`. -/
  copied : ∀ t k, k ∈ s.copied t → s.dst[p.start t + k]? = p.src[p.start t + k]?
  joined : ∀ t, t < s.pc.joined p.nThreads → s.Finished p t
  /-- Between two iterations the copy is there. -/
  kept : s.pc = .filling ∨ s.pc = .exited → 0 < s.iteration → s.dst = p.src
  exited : s.pc = .exited → p.total ≤ s.iteration
  verdicts : s.verdicts =
    List.replicate (s.iteration - p.numWarmups) (verifyDataReceived p.src p.dataSize)

theorem inv_fresh (p : Params) : Inv p (State.fresh p) := by
  refine ⟨List.length_replicate, nofun, ?_, nofun, fun _ => nofun, nofun, ?_⟩
  · intro t k hk
    exact absurd hk (Finset.notMem_empty k)
  · show [] = List.replicate (0 - p.numWarmups) _
    rw [Nat.zero_sub]
    rfl

/-- Behind the last `join` nothing is left to copy. -/
theorem Inv.dst_eq (h : Inv p s) (hpc : s.pc = .verifying) : s.dst = p.src := by
  apply List.ext_getElem?
  intro i
  by_cases hi : i < p.dataSize
  -- the thread of this position has been joined
  · obtain ⟨t, k, ht, hk, rfl⟩ := p.exists_offset hi
    have hfinished := h.joined t
    rw [hpc] at hfinished
    exact h.copied t k (hfinished ht k hk)
  · have hsrc : p.src.length ≤ i := Nat.le_of_not_lt hi
    rw [List.getElem?_eq_none hsrc, List.getElem?_eq_none (h.length.trans_le hsrc)]

/-- A verdict on a copy that is there. -/
theorem Inv.verdicts_next (h : Inv p s) (hpc : s.pc = .verifying) :
    (if p.numWarmups ≤ s.iteration then verifyDataReceived s.dst p.dataSize :: s.verdicts
      else s.verdicts) =
    List.replicate (s.iteration + 1 - p.numWarmups) (verifyDataReceived p.src p.dataSize) := by
  rw [h.dst_eq hpc, h.verdicts]
  split
  next hle =>
    rw [← List.replicate_succ]
    congr 1
    omega
  next hlt =>
    congr 1
    omega

/-- The main thread keeps the invariant: it joins only who is through. -/
theorem Inv.main_step (h : Inv p s) (hs : mainStep p s = some s') : Inv p s' := by
  have hjoined := h.joined
  cases mainStep_move hs with
  | fill hpc hlt =>
      refine ⟨?_, nofun, ?_, nofun, nofun, nofun, h.verdicts⟩
      · show (List.replicate s.dst.length 0).length = p.dataSize
        rw [List.length_replicate]
        exact h.length
      · intro t k hk
        exact absurd hk (Finset.notMem_empty k)
  | quit hpc hge =>
      exact ⟨h.length, nofun, h.copied, nofun, fun _ => h.kept (.inl hpc), fun _ => hge,
        h.verdicts⟩
  | @spawn j hpc hlt =>
      refine ⟨h.length, ?_, h.copied, nofun, nofun, nofun, h.verdicts⟩
      intro t ht
      have htj : t < j + 1 := ht
      omega
  | spawned hpc hge =>
      exact ⟨h.length, fun t ht => ht.2, h.copied, nofun, nofun, nofun, h.verdicts⟩
  | join hpc hlt hfinished =>
      rw [hpc] at hjoined
      refine ⟨h.length, fun t ht => ht.2, h.copied, ?_, nofun, nofun, h.verdicts⟩
      intro t ht
      -- the thread joined now was through
      obtain hlt | heq := Nat.lt_succ_iff_lt_or_eq.mp ht
      · exact hjoined t hlt
      · rw [heq]
        exact hfinished
  | @joined j hpc hge =>
      rw [hpc] at hjoined
      refine ⟨h.length, nofun, h.copied, ?_, nofun, nofun, h.verdicts⟩
      intro t ht
      have htn : t < p.nThreads := ht
      have htj : t < j := by omega
      exact hjoined t htj
  | verify hpc =>
      exact ⟨h.length, nofun, h.copied, nofun, fun _ _ => h.dst_eq hpc, nofun,
        h.verdicts_next hpc⟩

/-- **A thread keeps the invariant**, wherever the others are: a byte another
thread has copied is overwritten by the same byte, if at all. -/
theorem Inv.copy_step (h : Inv p s) (hs : copyStep p s t k = some s') : Inv p s' := by
  obtain ⟨hruns, _, dst, hdst, rfl⟩ := copyStep_cases hs
  obtain ⟨hlength, hhere, hothers⟩ := copyByte_cases hdst
  have hgrow : ∀ u m, m ∈ s.copied u →
      m ∈ Function.update s.copied t (insert k (s.copied t)) u := by
    intro u m hm
    by_cases hu : u = t
    · subst hu
      rw [Function.update_self]
      exact Finset.mem_insert_of_mem hm
    · rwa [Function.update_of_ne hu]
  -- no thread runs between two iterations
  have hkept : ¬ (s.pc = .filling ∨ s.pc = .exited) := by
    rintro (hpc | hpc)
    · rw [hpc] at hruns
      exact hruns
    · rw [hpc] at hruns
      exact hruns
  refine ⟨hlength.trans h.length, h.runs, ?_, ?_, fun hpc => absurd hpc hkept, h.exited,
    h.verdicts⟩
  · intro u m hm
    show dst[p.start u + m]? = p.src[p.start u + m]?
    by_cases hi : p.start u + m = p.start t + k
    -- the same position, whoever copied it first: the byte is that of `src`
    · rw [hi]
      exact hhere
    · rw [hothers _ hi]
      apply h.copied u m
      by_cases hu : u = t
      · subst hu
        have hmem : m ∈ Function.update s.copied u (insert k (s.copied u)) u := hm
        rw [Function.update_self, Finset.mem_insert] at hmem
        refine hmem.resolve_left ?_
        intro hmk
        exact hi (by rw [hmk])
      · have hmem : m ∈ Function.update s.copied t (insert k (s.copied t)) u := hm
        rwa [Function.update_of_ne hu] at hmem
  · intro u hu m hm
    exact hgrow u m (h.joined u hu m hm)

theorem inv_of_reachable (h : (system p).Reachable s) : Inv p s := by
  refine System.invariant (I := Inv p) ?_ ?_ h
  · intro t ht
    rw [show t = State.fresh p from ht]
    exact inv_fresh p
  · intro t a t' hinv hs
    cases a with
    | main => exact hinv.main_step hs
    | copy u k => exact hinv.copy_step hs

/-! ## §5. The copy. -/

/-- Somebody can go on: whoever is waited for has a byte left to copy. -/
theorem Inv.canProgress (h : Inv p s) (hpc : s.pc ≠ .exited) : (system p).CanProgress s := by
  have hmain : ∀ u, mainStep p s = some u → u.pc ≠ s.pc → (system p).CanProgress s := by
    intro u hu hne
    exact .of_step (f := State.pc) (a := .main) hu hne
  unfold mainStep at hmain
  cases hcase : s.pc with
  | filling =>
      rw [hcase] at hmain
      by_cases hlt : s.iteration < p.total
      · exact hmain _ (if_pos hlt) nofun
      · exact hmain _ (if_neg hlt) nofun
  | spawning j =>
      rw [hcase] at hmain
      by_cases hlt : j < p.nThreads
      · refine hmain _ (if_pos hlt) ?_
        intro heq
        injection heq with heq
        omega
      · exact hmain _ (if_neg hlt) nofun
  | joining j =>
      rw [hcase] at hmain
      by_cases hlt : j < p.nThreads
      · by_cases hfinished : s.Finished p j
        · refine hmain { s with pc := .joining (j + 1) } ?_ ?_
          · dsimp only
            rw [if_pos hlt, if_pos hfinished]
          · intro heq
            injection heq with heq
            omega
        -- the thread that is waited for has a byte left
        · unfold State.Finished at hfinished
          push Not at hfinished
          obtain ⟨k, hk, hnew⟩ := hfinished
          have hi := p.start_add_lt hlt hk
          obtain ⟨dst, hdst⟩ := exists_copyByte hi (by rw [h.length]; exact hi)
          have hruns : s.pc.Runs p.nThreads j := by
            rw [hcase]
            exact ⟨Nat.le_refl j, hlt⟩
          have hstep : copyStep p s j k = some { s with
              dst := dst, copied := Function.update s.copied j (insert k (s.copied j)) } := by
            unfold copyStep
            rw [if_pos ⟨hruns, hk⟩, hdst]
            rfl
          refine .of_step (f := fun u => k ∈ u.copied j) (a := .copy j k) hstep ?_
          show (k ∈ Function.update s.copied j (insert k (s.copied j)) j) ≠ (k ∈ s.copied j)
          rw [Function.update_self]
          intro heq
          exact hnew (heq ▸ Finset.mem_insert_self k _)
      · exact hmain { s with pc := .verifying } (if_neg hlt) nofun
  | verifying =>
      rw [hcase] at hmain
      exact hmain _ rfl nofun
  | exited => exact absurd hcase hpc

/-- **`memcpy_mt` copies everything, and nothing twice.**  The intervals of
the threads partition `[0, data_size)`, nothing wraps, and whatever the
interleaving `dst` is `src` behind the last `join` of each iteration and at
the end; until then some thread can go on. -/
theorem memcpyInMultiThread_copies (p : Params) :
    (∀ t u, t < p.nThreads → u < p.nThreads → t ≠ u →
      Disjoint (p.interval t) (p.interval u)) ∧
    (⋃ t ∈ Finset.range p.nThreads, p.interval t) = Set.Ico 0 p.dataSize ∧
    (∀ t, t < p.nThreads → p.Exact t) ∧
    ∀ s, (system p).Reachable s →
      (s.pc = .verifying → s.dst = p.src) ∧
      (s.pc = .exited → 0 < p.total → s.dst = p.src) ∧
      (s.pc ≠ .exited → (system p).CanProgress s) := by
  refine ⟨fun t u => p.interval_disjoint, p.interval_cover, fun t => p.exact, ?_⟩
  intro s hs
  have hinv := inv_of_reachable hs
  refine ⟨hinv.dst_eq, ?_, hinv.canProgress⟩
  intro hpc hpos
  exact hinv.kept (.inr hpc) (Nat.lt_of_lt_of_le hpos (hinv.exited hpc))

/-- More threads than bytes. -/
def manyThreads : Params where
  nThreads := 200
  numWarmups := 0
  total := 1
  src := List.replicate 129 1
  nThreads_pos := by decide
  nThreads_lt := by decide
  accepted := by
    rw [List.length_replicate]
    decide
  length_lt := by
    rw [List.length_replicate]
    decide

/-- All chunks but the last are empty. -/
theorem memcpyInMultiThread_copies_many :
    manyThreads.chunkSize = 0 ∧ manyThreads.stop 199 = 129 ∧
      Disjoint (manyThreads.interval 0) (manyThreads.interval 199) ∧ manyThreads.Exact 199 ∧
      (system manyThreads).CanProgress (State.fresh manyThreads) := by
  obtain ⟨hdisjoint, _, hexact, hruns⟩ := memcpyInMultiThread_copies manyThreads
  have hsize : manyThreads.dataSize = 129 := List.length_replicate
  have hlast : 199 < manyThreads.nThreads := by decide
  refine ⟨?_, (if_pos (by decide)).trans hsize, hdisjoint 0 199 (by decide) hlast (by decide),
    hexact 199 hlast, (hruns _ (.of_init rfl)).2.2 nofun⟩
  unfold Params.chunkSize
  rw [hsize]
  rfl

/-- **No verification fails** on data as it is generated: every iteration
behind the warm-ups finds its copy intact. -/
theorem verdicts_eq {draws : Nat → UInt64}
    (hsrc : generateDataToSend draws p.dataSize = some p.src)
    (h : (system p).Reachable s) :
    s.verdicts = List.replicate (s.iteration - p.numWarmups) (some true) := by
  obtain ⟨data, hdata, _, hverify⟩ := exists_generated draws p.accepted p.length_lt
  have heq : p.src = data := Option.some_inj.mp (hsrc.symm.trans hdata)
  rw [(inv_of_reachable h).verdicts, heq]
  show List.replicate _ (verifyDataReceived data p.src.length) = _
  rw [hverify]

end Akbench.MemcpyMt
