/-
  Akbench.Driver.Gating
  ─────────────────────
  **WHAT THE CHECKS ESTABLISH FOR THE TRANSFER LOOPS.**

  The send loops of the stream benchmarks and of `mq_bandwidth` go on while
  `total_sent < data_size`; those of `mmap_bandwidth` and `shm_bandwidth` take
  `n_pipeline` turns, the last of which only lets the receiver catch up.
  `TransferSound` is what they all need of the sizes they are called with.

  The checks of `main` look at the type as it was given.  For `all` they skip
  the buffer size, and the dispatch then runs `bandwidth_all`.

    • `transferSound_iff` — the three bounds are enough;
    • `transport_call` — the sizes of a call, by type;
    • `transport_called` — `all` reaches every transport;
    • `sizes_established_iff` — when the checks are enough.
-/
import Akbench.Driver.Dispatch
import Akbench.SharedMemory.Pipeline

namespace Akbench.Driver

open Akbench.Measure (Transport)

/-! ## §1. The send loops. -/

/-- The benchmarks whose loop is counted. -/
def Pipelined (t : Transport) : Prop := t = .mmap ∨ t = .shm

instance (t : Transport) : Decidable (Pipelined t) := inferInstanceAs (Decidable (_ ∨ _))

/-- `n_pipeline`, unless the division is by zero. -/
def nPipeline (dataSize bufferSize : Nat) : Option Nat :=
  if bufferSize = 0 then none
  else some (add64 (sub64 (add64 dataSize bufferSize) 1 / bufferSize) 1)

/-- It is the `n_pipeline` of the pipeline loops. -/
theorem nPipeline_params (c : SharedMemory.Params) :
    nPipeline c.dataSize c.bufferSize = some c.nPipeline := by
  unfold nPipeline
  have hpos := c.bufferSize_pos
  rw [if_neg (by omega)]
  rfl

/-- What one turn of the loop asks to transfer, `totalSent` bytes having been
sent before it. -/
def bytesToSend (t : Transport) (dataSize bufferSize totalSent : Nat) : Nat :=
  match t with
  | .tcp | .uds | .pipe | .fifo => min bufferSize (sub64 dataSize totalSent)
  -- `RunMqBandwidthBenchmark` passes `max_msg_size` on
  | .mq => min (min bufferSize 8192) (sub64 dataSize totalSent)
  | .mmap | .shm => min (sub64 dataSize totalSent) bufferSize

/-- The other end of a transport: what call `k` accepts of `n` bytes. -/
structure Kernel where
  accepts : Nat → Nat → Nat
  accepts_le : ∀ k n, accepts k n ≤ n
  accepts_pos : ∀ k n, 0 < n → 0 < accepts k n

/-- What `total_sent` grows by: `mq_send` takes a message or fails, and
`memcpy` copies what it is told to. -/
def advance (t : Transport) (kernel : Kernel) (k asked : Nat) : Nat :=
  match t with
  | .tcp | .uds | .pipe | .fifo => kernel.accepts k asked
  | .mq | .mmap | .shm => asked

/-- `total_sent` after `k` turns of `while (total_sent < data_size)`. -/
def totalSent (t : Transport) (kernel : Kernel) (dataSize bufferSize : Nat) : Nat → Nat
  | 0 => 0
  | k + 1 =>
      let sent := totalSent t kernel dataSize bufferSize k
      -- a loop that is over stays where it is
      if sent < dataSize then sent + advance t kernel k (bytesToSend t dataSize bufferSize sent)
      else sent

/-- **What the loops need** of the sizes. -/
structure TransferSound (t : Transport) (dataSize bufferSize : Nat) : Prop where
  buffer_pos : 0 < bufferSize
  buffer_le : bufferSize ≤ dataSize
  data : checksumSize < dataSize
  /-- The division in `n_pipeline` is not by zero. -/
  pipeline : Pipelined t → ∃ n, nPipeline dataSize bufferSize = some n
  /-- A turn with bytes left asks for one of them at least. -/
  asks : ∀ sent, sent < dataSize → 1 ≤ bytesToSend t dataSize bufferSize sent
  /-- The loop on `total_sent` ends, at `data_size`. -/
  ends : ¬ Pipelined t → ∀ kernel, ∃ k, totalSent t kernel dataSize bufferSize k = dataSize

variable {t : Transport} {dataSize bufferSize sent : Nat} {kernel : Kernel}

theorem bytesToSend_pos (hb : 0 < bufferSize) (hlt : sent < dataSize) :
    1 ≤ bytesToSend t dataSize bufferSize sent := by
  have hsub : sub64 dataSize sent = dataSize - sent := sub64_eq (by omega)
  cases t <;> (simp only [bytesToSend, hsub]; omega)

theorem bytesToSend_le (hlt : sent < dataSize) :
    bytesToSend t dataSize bufferSize sent ≤ dataSize - sent := by
  have hsub : sub64 dataSize sent = dataSize - sent := sub64_eq (by omega)
  cases t <;> (simp only [bytesToSend, hsub]; omega)

/-- Without a buffer nothing is asked for. -/
theorem bytesToSend_zero : bytesToSend t dataSize 0 sent = 0 := by
  cases t <;> simp [bytesToSend]

theorem advance_le (k asked : Nat) : advance t kernel k asked ≤ asked := by
  have hle := kernel.accepts_le k asked
  cases t <;> (simp only [advance]; omega)

theorem advance_pos (k : Nat) {asked : Nat} (h : 1 ≤ asked) : 1 ≤ advance t kernel k asked := by
  have hpos := kernel.accepts_pos k asked h
  cases t <;> (simp only [advance]; omega)

/-- **Step lemma.** A turn moves `total_sent` towards `data_size`. -/
theorem totalSent_succ (hb : 0 < bufferSize) (k : Nat)
    (hle : totalSent t kernel dataSize bufferSize k ≤ dataSize) :
    totalSent t kernel dataSize bufferSize (k + 1) ≤ dataSize ∧
      (totalSent t kernel dataSize bufferSize k < dataSize →
        totalSent t kernel dataSize bufferSize k <
          totalSent t kernel dataSize bufferSize (k + 1)) := by
  show (if _ then _ else _) ≤ dataSize ∧ (_ → _ < (if _ then _ else _))
  by_cases hlt : totalSent t kernel dataSize bufferSize k < dataSize
  · rw [if_pos hlt]
    have hasked := @bytesToSend_pos t dataSize bufferSize _ hb hlt
    have hroom := @bytesToSend_le t dataSize bufferSize _ hlt
    have hpos := @advance_pos t kernel k _ hasked
    have hmost := @advance_le t kernel k
      (bytesToSend t dataSize bufferSize (totalSent t kernel dataSize bufferSize k))
    exact ⟨by omega, fun _ => by omega⟩
  · rw [if_neg hlt]
    exact ⟨hle, fun h => absurd h hlt⟩

/-- **Run lemma.** After `k` turns at least `k` bytes have been sent, or all
of them. -/
theorem totalSent_bounds (hb : 0 < bufferSize) (k : Nat) :
    totalSent t kernel dataSize bufferSize k ≤ dataSize ∧
      min k dataSize ≤ totalSent t kernel dataSize bufferSize k := by
  -- each turn with bytes left sends one at least
  induction k with
  | zero =>
      show 0 ≤ dataSize ∧ min 0 dataSize ≤ 0
      omega
  | succ k ih =>
      obtain ⟨hle, hmin⟩ := ih
      obtain ⟨hle', hmore⟩ := totalSent_succ hb k hle
      refine ⟨hle', ?_⟩
      by_cases hlt : totalSent t kernel dataSize bufferSize k < dataSize
      · have hgrown := hmore hlt
        omega
      · have hover : totalSent t kernel dataSize bufferSize (k + 1) =
            totalSent t kernel dataSize bufferSize k := if_neg hlt
        omega

/-- **Without a buffer the loop never gets anywhere.** -/
theorem totalSent_zero (k : Nat) : totalSent t kernel dataSize 0 k = 0 := by
  induction k with
  | zero => rfl
  | succ k ih =>
      show (if _ then _ else _) = 0
      rw [ih, bytesToSend_zero]
      have hnone : advance t kernel k 0 = 0 := Nat.le_zero.mp (advance_le k 0)
      rw [hnone]
      exact ite_self 0

/-- **The three bounds are enough.** -/
theorem transferSound_iff :
    TransferSound t dataSize bufferSize ↔
      0 < bufferSize ∧ bufferSize ≤ dataSize ∧ checksumSize < dataSize := by
  constructor
  · intro h
    exact ⟨h.buffer_pos, h.buffer_le, h.data⟩
  · intro h
    obtain ⟨hpos, hle, hdata⟩ := h
    refine ⟨hpos, hle, hdata, ?_, fun _ => bytesToSend_pos hpos, ?_⟩
    · intro _
      unfold nPipeline
      rw [if_neg (by omega)]
      exact ⟨_, rfl⟩
    · intro _ kernel
      -- `data_size` turns are enough
      obtain ⟨hmost, hleast⟩ := @totalSent_bounds t dataSize bufferSize kernel hpos dataSize
      exact ⟨dataSize, by omega⟩

/-! ## §2. The calls of the bandwidth chain. -/

variable {K : Type*} {overshift : Overshift} {line : CommandLine} {runs : Runs K}
variable {s : Settings} {type : String} {n w : Int}

theorem not_mem_latencyPlan :
    Call.transport t n w dataSize bufferSize ∉ (latencyPlan s type).map Prod.snd := by
  intro hmem
  obtain ⟨entry, hentry, heq⟩ := List.mem_map.mp hmem
  exact latencyPlan_forall (P := fun c => c ≠ .transport t n w dataSize bufferSize)
    (fun _ => nofun) entry hentry heq

/-- If a transport is called, it is with the sizes of the settings. -/
def Call.SizedBy (s : Settings) : Call → Prop
  | .transport _ _ _ dataSize bufferSize => dataSize = s.dataSize ∧ bufferSize = s.buffer
  | _ => True

/-- **The chain passes the sizes on.** -/
theorem bandwidthPlan_sizedBy : ∀ entry, entry ∈ bandwidthPlan s type → entry.2.SizedBy s :=
  bandwidthPlan_forall trivial (fun _ => trivial) (fun _ => ⟨rfl, rfl⟩)

/-- The two `memcpy` types call no transport. -/
theorem type_of_mem_bandwidthPlan
    (h : Call.transport t n w dataSize bufferSize ∈ (bandwidthPlan s type).map Prod.snd) :
    type ≠ "bandwidth_memcpy" ∧ type ≠ "bandwidth_memcpy_mt" := by
  obtain ⟨entry, hentry, heq⟩ := List.mem_map.mp h
  constructor
  · intro htype
    subst htype
    have hone : entry ∈ [("bandwidth_memcpy", s.memcpyCall)] := hentry
    rw [List.mem_singleton.mp hone] at heq
    cases heq
  · intro htype
    subst htype
    rw [bandwidthPlan_memcpyMt] at hentry
    split at hentry
    next m _ =>
      rw [List.mem_singleton.mp hentry] at heq
      cases heq
    next =>
      obtain ⟨m, _, hm⟩ := List.mem_map.mp hentry
      rw [← hm] at heq
      cases heq

/-- Every transport is in the chain of `bandwidth_all`. -/
theorem transportCall_mem_all (s : Settings) (t : Transport) :
    s.transportCall t ∈ (bandwidthPlan s "bandwidth_all").map Prod.snd := by
  have hall : (bandwidthPlan s "bandwidth_all").map Prod.snd =
      s.memcpyCall :: s.memcpyMtCalls.map Prod.snd ++
        [s.transportCall .tcp, s.transportCall .uds, s.transportCall .pipe, s.transportCall .fifo,
          s.transportCall .mq, s.transportCall .mmap, s.transportCall .shm] := rfl
  rw [hall]
  apply List.mem_append_right
  cases t <;> simp

/-! ## §3. The calls of `main`. -/

/-- **The sizes of a call.** Either the type is `all`, or it is one whose
buffer size the checks look at. -/
theorem transport_call (hvalid : validate overshift line = .ok s)
    (h : Call.transport t n w dataSize bufferSize ∈ (main overshift runs line).calls) :
    dataSize = s.dataSize ∧ bufferSize = s.buffer ∧ ValidatesData s.type ∧
      (s.type = "all" ∨ ValidatesBuffer s.type) := by
  have hmain : main overshift runs line = dispatch runs s := by
    unfold main
    rw [hvalid]
  rw [hmain] at h
  unfold dispatch at h
  split_ifs at h with hall hlatency hbandwidth
  · -- `all`: the latency part calls no transport
    have hmem : Call.transport t n w dataSize bufferSize ∈
        (bandwidthPlan s "bandwidth_all").map Prod.snd := by
      dsimp only at h
      split at h
      next => exact absurd (mem_calls_execute h) not_mem_latencyPlan
      next =>
        rcases List.mem_append.mp h with hlat | hband
        · exact absurd (mem_calls_execute hlat) not_mem_latencyPlan
        · exact mem_calls_execute hband
    obtain ⟨entry, hentry, heq⟩ := List.mem_map.mp hmem
    have hsized := bandwidthPlan_sizedBy entry hentry
    rw [heq] at hsized
    exact ⟨hsized.1, hsized.2, Or.inr (Or.inr hall), Or.inl hall⟩
  · exact absurd (mem_calls_execute h) not_mem_latencyPlan
  · have hmem := mem_calls_execute h
    have hstart : startsWith "bandwidth_" s.type := by
      obtain hstart | heq := hbandwidth
      · exact hstart
      · rw [heq]
        decide
    obtain ⟨hmemcpy, hmt⟩ := type_of_mem_bandwidthPlan hmem
    obtain ⟨entry, hentry, heq⟩ := List.mem_map.mp hmem
    have hsized := bandwidthPlan_sizedBy entry hentry
    rw [heq] at hsized
    exact ⟨hsized.1, hsized.2, Or.inl hstart, Or.inr ⟨hstart, hmemcpy, hmt⟩⟩
  · cases h

/-- **`all` reaches every transport** if no benchmark on the way stops it. -/
theorem transport_called (hvalid : validate overshift line = .ok s) (hall : s.type = "all")
    (hruns : ∀ c, ∃ result, runs c = .ok result) (t : Transport) :
    s.transportCall t ∈ (main overshift runs line).calls := by
  have hmain : main overshift runs line = dispatch runs s := by
    unfold main
    rw [hvalid]
  rw [hmain]
  unfold dispatch
  rw [if_pos hall]
  obtain ⟨_, m, hm⟩ := @calls_execute_of_ok K runs (latencyPlan s "latency_all") [] hruns
  obtain ⟨hcalls, _⟩ := @calls_execute_of_ok K runs (bandwidthPlan s "bandwidth_all") [] hruns
  unfold runLatencyBenchmarks runBandwidthBenchmarks
  dsimp only
  rw [hm]
  apply List.mem_append_right
  rw [hcalls]
  exact transportCall_mem_all s t

/-! ## §4. Every command line. -/

/-- Every transport `main` calls gets sizes its loops can work with. -/
def SizesEstablished (K : Type*) (overshift : Overshift) (line : CommandLine) : Prop :=
  ∀ (runs : Runs K) (t : Transport) (numIterations numWarmups : Int) (dataSize bufferSize : Nat),
    Call.transport t numIterations numWarmups dataSize bufferSize ∈
      (main overshift runs line).calls → TransferSound t dataSize bufferSize

/-- **When the checks are enough**: for every type but `all`, and for `all`
when the sizes happen to be as they should. -/
theorem sizes_established_iff (K : Type*) [Inhabited K] (overshift : Overshift)
    (line : CommandLine) :
    SizesEstablished K overshift line ↔
      ∀ s, validate overshift line = .ok s → s.type = "all" →
        0 < s.buffer ∧ s.buffer ≤ s.dataSize := by
  constructor
  · intro hsound s hvalid hall
    -- any transport shows the sizes, TCP among them
    have hcalled := @transport_called K overshift line (fun _ => .ok ⟨default, default⟩) s hvalid
      hall (fun _ => ⟨_, rfl⟩) .tcp
    have htcp := hsound _ _ _ _ _ _ hcalled
    exact ⟨htcp.buffer_pos, htcp.buffer_le⟩
  · intro hall runs t n w dataSize bufferSize hcall
    cases hvalid : validate overshift line with
    | error stop =>
        -- nothing is run
        exfalso
        unfold main at hcall
        rw [hvalid] at hcall
        cases stop <;> cases hcall
    | ok s =>
        obtain ⟨hd, hb, hdata, htype⟩ := transport_call hvalid hcall
        obtain ⟨_, hchecked⟩ := validate_ok hvalid
        have hbuffer : 0 < s.buffer ∧ s.buffer ≤ s.dataSize := by
          obtain htype | hvalidates := htype
          · exact hall s hvalid htype
          · exact ⟨hchecked.buffer_pos hvalidates, hchecked.buffer_le hvalidates⟩
        rw [hd, hb]
        exact transferSound_iff.mpr ⟨hbuffer.1, hbuffer.2, hchecked.data hdata⟩

/-- `akbench all --buffer-size=0` sends nothing over TCP for ever, and divides
by zero where it gets to `n_pipeline`. -/
theorem sizes_not_established :
    (∀ (overshift : Overshift) (runs : Runs ℚ), (∀ c, ∃ result, runs c = .ok result) →
      ∀ t, Call.transport t 10 3 (2 ^ 30) 0 ∈
        (main overshift runs ⟨[.bufferSize "0"], ["all"]⟩).calls) ∧
    (∀ kernel k, totalSent .tcp kernel (2 ^ 30) 0 k = 0) ∧
    nPipeline (2 ^ 30) 0 = none ∧
    ∀ overshift, ¬ SizesEstablished ℚ overshift ⟨[.bufferSize "0"], ["all"]⟩ := by
  have hcalled : ∀ (overshift : Overshift) (runs : Runs ℚ),
      (∀ c, ∃ result, runs c = .ok result) →
      ∀ t, Call.transport t 10 3 (2 ^ 30) 0 ∈
        (main overshift runs ⟨[.bufferSize "0"], ["all"]⟩).calls := by
    intro overshift runs hruns t
    have hvalid : validate overshift ⟨[.bufferSize "0"], ["all"]⟩ =
        .ok { type := "all", bufferSize := some 0 } := by
      rfl
    exact transport_called hvalid rfl hruns t
  refine ⟨hcalled, fun _ => totalSent_zero, if_pos rfl, ?_⟩
  intro overshift hsound
  have htcp := hsound _ _ _ _ _ _
    (hcalled overshift (fun _ => .ok ⟨0, 0⟩) (fun _ => ⟨_, rfl⟩) .tcp)
  exact absurd htcp.buffer_pos (Nat.lt_irrefl 0)

end Akbench.Driver
