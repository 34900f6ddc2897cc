/-
  Akbench.Driver.Types
  ────────────────────
  **WHICH TYPES `main` ACCEPTS.**

  The usage text lists twenty types.  `main` itself tests for `all` and for
  the two beginnings `latency_` and `bandwidth_`; what follows these is left
  to the two chains, which have no final `else`, and the output functions
  print nothing for an empty map.

    • `latencyPlan_ne_nil_iff`, `bandwidthPlan_ne_nil_iff` — the chains know
      the listed types and no others;
    • `dispatch_listed`, `dispatch_unlisted`, `dispatch_unknown`;
    • `types_checked_iff` — when a type is treated as the usage text says.
-/
import Akbench.Driver.Dispatch

namespace Akbench.Driver

variable {K : Type*} {overshift : Overshift} {runs : Runs K} {s : Settings} {type : String}

/-! ## §1. The types of the usage text. -/

/-- The latency tests. -/
def latencyTypes : List String :=
  ["latency_atomic", "latency_atomic_rel_acq", "latency_barrier", "latency_condition_variable",
    "latency_semaphore", "latency_statfs", "latency_fstatfs", "latency_getpid", "latency_all"]

/-- The bandwidth tests. -/
def bandwidthTypes : List String :=
  ["bandwidth_memcpy", "bandwidth_memcpy_mt", "bandwidth_tcp", "bandwidth_uds", "bandwidth_pipe",
    "bandwidth_fifo", "bandwidth_mq", "bandwidth_mmap", "bandwidth_shm", "bandwidth_all"]

/-- All types of the usage text. -/
def usageTypes : List String := latencyTypes ++ bandwidthTypes ++ ["all"]

theorem mem_usageTypes :
    type ∈ usageTypes ↔ type ∈ latencyTypes ∨ type ∈ bandwidthTypes ∨ type = "all" := by
  unfold usageTypes
  rw [List.mem_append, List.mem_append, List.mem_singleton, or_assoc]

theorem not_startsWith_latency : ∀ t, t ∈ bandwidthTypes → ¬ startsWith "latency_" t := by
  decide +kernel

theorem not_startsWith_bandwidth : ∀ t, t ∈ latencyTypes → ¬ startsWith "bandwidth_" t := by
  decide +kernel

theorem latencyTypes_of_startsWith (h : type ∈ usageTypes) (hstart : startsWith "latency_" type) :
    type ∈ latencyTypes := by
  obtain hmem | hmem | hall := mem_usageTypes.mp h
  · exact hmem
  · exact absurd hstart (not_startsWith_latency _ hmem)
  · rw [hall] at hstart
    exact absurd hstart (by decide)

theorem bandwidthTypes_of_startsWith (h : type ∈ usageTypes)
    (hstart : startsWith "bandwidth_" type) : type ∈ bandwidthTypes := by
  obtain hmem | hmem | hall := mem_usageTypes.mp h
  · exact absurd hstart (not_startsWith_bandwidth _ hmem)
  · exact hmem
  · rw [hall] at hstart
    exact absurd hstart (by decide)

/-! ## §2. The chains. -/

/-- What is not listed falls through the latency chain. -/
theorem latencyPlan_eq_nil (h : type ∉ latencyTypes) : latencyPlan s type = [] := by
  have hnot : ∀ t, t ∈ latencyTypes → type ≠ t := by
    intro t ht heq
    exact h (heq ▸ ht)
  unfold latencyPlan
  rw [if_neg (hnot "latency_all" (by decide)), if_neg (hnot "latency_atomic" (by decide)),
    if_neg (hnot "latency_atomic_rel_acq" (by decide)),
    if_neg (hnot "latency_barrier" (by decide)),
    if_neg (hnot "latency_condition_variable" (by decide)),
    if_neg (hnot "latency_semaphore" (by decide)), if_neg (hnot "latency_statfs" (by decide)),
    if_neg (hnot "latency_fstatfs" (by decide)), if_neg (hnot "latency_getpid" (by decide))]

/-- **The latency chain knows the listed types.** -/
theorem latencyPlan_ne_nil_iff : latencyPlan s type ≠ [] ↔ type ∈ latencyTypes := by
  constructor
  · intro hne
    by_contra hunlisted
    exact hne (latencyPlan_eq_nil hunlisted)
  · intro hmem hnil
    simp only [latencyTypes, List.mem_cons, List.not_mem_nil, or_false] at hmem
    -- each type is the first its branch of the chain compares with
    rcases hmem with rfl | rfl | rfl | rfl | rfl | rfl | rfl | rfl | rfl
    all_goals cases hnil

/-- What is not listed falls through the bandwidth chain. -/
theorem bandwidthPlan_eq_nil (h : type ∉ bandwidthTypes) : bandwidthPlan s type = [] := by
  have hnot : ∀ t, t ∈ bandwidthTypes → type ≠ t := by
    intro t ht heq
    exact h (heq ▸ ht)
  unfold bandwidthPlan
  rw [if_neg (hnot "bandwidth_all" (by decide)), if_neg (hnot "bandwidth_memcpy" (by decide)),
    if_neg (hnot "bandwidth_memcpy_mt" (by decide)), if_neg (hnot "bandwidth_tcp" (by decide)),
    if_neg (hnot "bandwidth_uds" (by decide)), if_neg (hnot "bandwidth_pipe" (by decide)),
    if_neg (hnot "bandwidth_fifo" (by decide)), if_neg (hnot "bandwidth_mq" (by decide)),
    if_neg (hnot "bandwidth_mmap" (by decide)), if_neg (hnot "bandwidth_shm" (by decide))]

/-- **The bandwidth chain does.** -/
theorem bandwidthPlan_ne_nil_iff : bandwidthPlan s type ≠ [] ↔ type ∈ bandwidthTypes := by
  constructor
  · intro hne
    by_contra hunlisted
    exact hne (bandwidthPlan_eq_nil hunlisted)
  · intro hmem hnil
    simp only [bandwidthTypes, List.mem_cons, List.not_mem_nil, or_false] at hmem
    rcases hmem with rfl | rfl | rfl | rfl | rfl | rfl | rfl | rfl | rfl | rfl
    case inr.inl =>
      rw [bandwidthPlan_memcpyMt] at hnil
      split at hnil <;> cases hnil
    all_goals cases hnil

/-! ## §3. What is printed. -/

/-- Results of a plan with entries are printed. -/
theorem latency_results_ne_nil {m : ResultMap K} (htype : type ∈ latencyTypes)
    (h : (runLatencyBenchmarks runs s type).results = .ok m) : m ≠ [] :=
  execute_ne_nil h (Or.inl (latencyPlan_ne_nil_iff.mpr htype))

theorem bandwidth_results_ne_nil {m : ResultMap K} (htype : type ∈ bandwidthTypes)
    (h : (runBandwidthBenchmarks runs s type).results = .ok m) : m ≠ [] :=
  execute_ne_nil h (Or.inl (bandwidthPlan_ne_nil_iff.mpr htype))

theorem outputLatencyResults_hasResults {m : ResultMap K} {json : Bool} (hne : m ≠ []) :
    (outputLatencyResults m json).HasResults := by
  unfold outputLatencyResults
  rw [if_neg (fun hempty => hne (List.isEmpty_iff.mp hempty))]
  exact hne

theorem outputBandwidthResults_hasResults {m : ResultMap K} {json : Bool} (hne : m ≠ []) :
    (outputBandwidthResults m json).HasResults := by
  unfold outputBandwidthResults
  rw [if_neg (fun hempty => hne (List.isEmpty_iff.mp hempty))]
  exact hne

/-! ## §4. The dispatch. -/

/-- **A listed type** that returns 0 has printed results. -/
theorem dispatch_listed (htype : s.type ∈ usageTypes) {printed : Printed K}
    (h : (dispatch runs s).ending = .ok (0, printed)) : printed.HasResults := by
  unfold dispatch at h
  split_ifs at h with hall hlatency hbandwidth
  · -- both parts
    dsimp only at h
    split at h
    next => cases h
    next m hm =>
      obtain ⟨m', hm', hprinted⟩ := map_eq_ok h
      injection hprinted with _ hprinted
      rw [hprinted]
      exact ⟨latency_results_ne_nil (by decide) hm, bandwidth_results_ne_nil (by decide) hm'⟩
  · have hmem : s.type ∈ latencyTypes := by
      obtain hstart | heq := hlatency
      · exact latencyTypes_of_startsWith htype hstart
      · rw [heq]
        decide
    obtain ⟨m, hm, hprinted⟩ := map_eq_ok h
    injection hprinted with _ hprinted
    rw [hprinted]
    exact outputLatencyResults_hasResults (latency_results_ne_nil hmem hm)
  · have hmem : s.type ∈ bandwidthTypes := by
      obtain hstart | heq := hbandwidth
      · exact bandwidthTypes_of_startsWith htype hstart
      · rw [heq]
        decide
    obtain ⟨m, hm, hprinted⟩ := map_eq_ok h
    injection hprinted with _ hprinted
    rw [hprinted]
    exact outputBandwidthResults_hasResults (bandwidth_results_ne_nil hmem hm)
  · injection h with h
    injection h with hstatus _
    cases hstatus

/-- **An unlisted type with a known beginning** runs nothing, prints nothing
and returns 0. -/
theorem dispatch_unlisted (htype : s.type ∉ usageTypes)
    (hstart : startsWith "latency_" s.type ∨ startsWith "bandwidth_" s.type) :
    dispatch runs s = ⟨[], .ok (0, .nothing)⟩ := by
  have hnot : ∀ t, t ∈ usageTypes → s.type ≠ t := by
    intro t ht heq
    exact htype (heq ▸ ht)
  have hlatency : latencyPlan s s.type = [] :=
    latencyPlan_eq_nil fun h => htype (mem_usageTypes.mpr (Or.inl h))
  have hbandwidth : bandwidthPlan s s.type = [] :=
    bandwidthPlan_eq_nil fun h => htype (mem_usageTypes.mpr (Or.inr (Or.inl h)))
  unfold dispatch runLatencyBenchmarks runBandwidthBenchmarks
  rw [if_neg (hnot "all" (by decide)), hlatency, hbandwidth]
  by_cases hl : startsWith "latency_" s.type
  · rw [if_pos (Or.inl hl)]
    rfl
  · have hb : startsWith "bandwidth_" s.type := hstart.resolve_left hl
    rw [if_neg (fun h => h.elim hl (hnot "latency_all" (by decide))), if_pos (Or.inl hb)]
    rfl

/-- **Any other unlisted type** is rejected. -/
theorem dispatch_unknown (htype : s.type ∉ usageTypes)
    (hlatency : ¬ startsWith "latency_" s.type) (hbandwidth : ¬ startsWith "bandwidth_" s.type) :
    dispatch runs s = ⟨[], .ok (1, .rejection (.unknownType s.type))⟩ := by
  have hnot : ∀ t, t ∈ usageTypes → s.type ≠ t := by
    intro t ht heq
    exact htype (heq ▸ ht)
  unfold dispatch
  rw [if_neg (hnot "all" (by decide)),
    if_neg (fun h => h.elim hlatency (hnot "latency_all" (by decide))),
    if_neg (fun h => h.elim hbandwidth (hnot "bandwidth_all" (by decide)))]

/-! ## §5. Every command line. -/

/-- The options parse, and the settings they make with this type pass the
checks. -/
def OtherwiseValid (overshift : Overshift) (line : CommandLine) (type : String) : Prop :=
  ∃ s, parseOptions overshift {} line.options = .ok s ∧ Checked { s with type := type }

/-- The type is treated as the usage text says: status 0 means that it is
listed and that results were printed, and an unlisted type makes `main` return
another status. -/
def TypeChecked (K : Type*) (overshift : Overshift) (line : CommandLine) (type : String) : Prop :=
  ∀ runs : Runs K,
    (∀ printed, (main overshift runs line).ending = .ok (0, printed) →
      type ∈ usageTypes ∧ printed.HasResults) ∧
    (type ∉ usageTypes → ∃ status printed, status ≠ 0 ∧
      (main overshift runs line).ending = .ok (status, printed))

variable {line : CommandLine}

/-- A line is validated when its type is its one fault, if that. -/
theorem validate_of_otherwiseValid (hoperands : line.operands = [type])
    (h : OtherwiseValid overshift line type) :
    ∃ s, validate overshift line = .ok s ∧ s.type = type := by
  obtain ⟨t, hoptions, hchecked⟩ := h
  exact ⟨{ t with type := type }, validate_eq_ok hoptions hoperands hchecked, rfl⟩

/-- A line with another fault is rejected. -/
theorem rejected_of_not_otherwiseValid (hhelp : .help ∉ line.options)
    (hoperands : line.operands = [type]) (h : ¬ OtherwiseValid overshift line type) :
    ∃ r, validate overshift line = .error (.rejected r) := by
  obtain ⟨s, hvalid⟩ | hrejected := @validate_cases overshift line hhelp
  · exfalso
    obtain ⟨t, hoptions, hrest⟩ := bind_eq_ok hvalid
    obtain ⟨type', htype, hchecks⟩ := bind_eq_ok hrest
    obtain ⟨hs, hchecked⟩ := checked_eq_ok hchecks
    have hone := parseOperands_eq_ok htype
    rw [hoperands] at hone
    injection hone with hone
    subst hone
    rw [← hs] at hchecked
    exact h ⟨t, hoptions, hchecked⟩
  · exact hrejected

/-- A status other than 0 satisfies both parts. -/
theorem typeChecked_of_status {status : Nat} {printed : Printed K} (hne : status ≠ 0)
    (h : ∀ runs : Runs K, main overshift runs line = ⟨[], .ok (status, printed)⟩) :
    TypeChecked K overshift line type := by
  intro runs
  rw [h runs]
  refine ⟨?_, fun _ => ⟨status, printed, hne, rfl⟩⟩
  intro printed' hzero
  injection hzero with hzero
  injection hzero with hstatus _
  exact absurd hstatus hne

/-- **When a type is checked**, on a line that is otherwise valid: it is
listed, or it has neither beginning. -/
theorem types_checked_iff (K : Type*) (overshift : Overshift) (line : CommandLine) (type : String)
    (hhelp : .help ∉ line.options) (hoperands : line.operands = [type]) :
    TypeChecked K overshift line type ↔
      (OtherwiseValid overshift line type → type ∈ usageTypes ∨
        (¬ startsWith "latency_" type ∧ ¬ startsWith "bandwidth_" type)) := by
  by_cases hotherwise : OtherwiseValid overshift line type
  · obtain ⟨s, hvalid, htype⟩ := validate_of_otherwiseValid hoperands hotherwise
    have hmain : ∀ runs : Runs K, main overshift runs line = dispatch runs s := by
      intro runs
      unfold main
      rw [hvalid]
    subst htype
    constructor
    · intro hchecked _
      by_contra hnone
      rw [not_or] at hnone
      obtain ⟨hunlisted, hneither⟩ := hnone
      have hstart : startsWith "latency_" s.type ∨ startsWith "bandwidth_" s.type := by
        by_contra hboth
        rw [not_or] at hboth
        exact hneither hboth
      obtain ⟨_, hstatus⟩ := hchecked fun _ => .error .aborted
      obtain ⟨status, printed, hne, hending⟩ := hstatus hunlisted
      rw [hmain, dispatch_unlisted hunlisted hstart] at hending
      injection hending with hending
      injection hending with hzero _
      exact hne hzero.symm
    · intro hcases
      by_cases hlisted : s.type ∈ usageTypes
      · intro runs
        rw [hmain]
        exact ⟨fun printed h => ⟨hlisted, dispatch_listed hlisted h⟩,
          fun hunlisted => absurd hlisted hunlisted⟩
      · obtain ⟨hl, hb⟩ := (hcases hotherwise).resolve_left hlisted
        apply typeChecked_of_status Nat.one_ne_zero
        intro runs
        rw [hmain, dispatch_unknown hlisted hl hb]
  · refine ⟨fun _ h => absurd h hotherwise, fun _ => ?_⟩
    obtain ⟨r, hreject⟩ := rejected_of_not_otherwiseValid hhelp hoperands hotherwise
    apply typeChecked_of_status Nat.one_ne_zero
    intro runs
    unfold main
    rw [hreject]

/-- `akbench latency_getpid`. -/
theorem types_checked_getpid :
    TypeChecked ℚ ⟨fun _ _ => 0, fun _ _ => by decide⟩ ⟨[], ["latency_getpid"]⟩
      "latency_getpid" :=
  (types_checked_iff ℚ _ _ _ (by decide) rfl).mpr fun _ => Or.inl (by decide)

/-- `akbench latency_foo` returns 0 and prints nothing. -/
theorem type_not_checked :
    (∀ (overshift : Overshift) (runs : Runs ℚ),
      (main overshift runs ⟨[], ["latency_foo"]⟩).ending = .ok (0, .nothing)) ∧
    "latency_foo" ∉ usageTypes ∧
    ¬ ∀ (overshift : Overshift) (line : CommandLine) (type : String), .help ∉ line.options →
      line.operands = [type] → OtherwiseValid overshift line type →
        TypeChecked ℚ overshift line type := by
  have hchecked : Checked { type := "latency_foo" } :=
    checkSettings_ok_iff.mp ⟨.warning, by decide⟩
  have hruns : ∀ (overshift : Overshift) (runs : Runs ℚ),
      main overshift runs ⟨[], ["latency_foo"]⟩ = ⟨[], .ok (0, .nothing)⟩ := by
    intro overshift runs
    obtain ⟨s, hvalid, htype⟩ :=
      @validate_of_otherwiseValid overshift "latency_foo" ⟨[], ["latency_foo"]⟩ rfl
        ⟨{}, rfl, hchecked⟩
    unfold main
    rw [hvalid]
    apply dispatch_unlisted
    · rw [htype]
      decide
    · rw [htype]
      decide
  refine ⟨fun overshift runs => by rw [hruns], by decide, ?_⟩
  intro hall
  have hfoo := hall ⟨fun _ _ => 0, fun _ _ => by decide⟩ ⟨[], ["latency_foo"]⟩ "latency_foo"
    (by decide) rfl ⟨{}, rfl, hchecked⟩
  obtain ⟨hlisted, _⟩ := (hfoo fun _ => .error .aborted).1 .nothing (by rw [hruns])
  exact absurd hlisted (by decide)

end Akbench.Driver
