/-
  Akbench.Graphs.Recordings
  ─────────────────────────
  **FROM `akbench --json-output` TO THE GRAPHS.**

  A recording is a file under `results/` into which a run of `akbench` printed.
  `Akbench.Driver` says what is in such a file and `Akbench.Graphs.Script` what
  the script makes of it; here the two meet.

    • `Recording.Complete.parse`, `Recording.parse_of_not_complete` — a file of
      `all` results is a document of two tables, any other is an array or none;
    • `graphs_of_recordings` — the script draws both graphs exactly when every
      file has `all` results with finite numbers, and every bar then shows
      the number printed, in the unit of its axis.
-/
import Akbench.Driver.JsonOutput
import Akbench.Graphs.Script

namespace Akbench.Graphs

open Dict (sortedSet)
open Json (IsPlain)
open Driver (AllFinite CommandLine Formatted Overshift Printed Represents ResultMap Runs Settings
  assign bandwidthPlan dispatch entryJson execute latencyPlan outputJsonDictionary
  outputJsonResults runBandwidthBenchmarks runLatencyBenchmarks)

variable {K : Type*} {format : K → Formatted}

/-! ## §1. What `main` prints. -/

/-- By increasing keys. -/
def SortedKeys (results : ResultMap K) : Prop := (results.map Prod.fst).Pairwise (· < ·)

theorem SortedKeys.nodup {results : ResultMap K} (h : SortedKeys results) :
    (results.map Prod.fst).Nodup := h.imp fun hlt => ne_of_lt hlt

/-- `std::map` keeps its keys in order. -/
theorem sortedKeys_assign {results : ResultMap K} (h : SortedKeys results) (key : String)
    (result : BenchmarkResult K) : SortedKeys (assign key result results) := by
  unfold SortedKeys at h ⊢
  induction results with
  | nil => exact List.pairwise_singleton _ _
  | cons head rest ih =>
      obtain ⟨k, r⟩ := head
      rw [List.map_cons, List.pairwise_cons] at h
      obtain ⟨hhead, hrest⟩ := h
      unfold assign
      split
      next heq =>
        subst heq
        exact List.pairwise_cons.mpr ⟨hhead, hrest⟩
      next hne =>
        split
        next hlt =>
          refine List.pairwise_cons.mpr ⟨?_, List.pairwise_cons.mpr ⟨hhead, hrest⟩⟩
          intro key' hkey'
          rcases List.mem_cons.mp hkey' with rfl | hkey'
          · exact hlt
          · exact hlt.trans (hhead key' hkey')
        next hge =>
          refine List.pairwise_cons.mpr ⟨?_, ih hrest⟩
          have hlt : k < key := lt_of_le_of_ne (not_lt.mp hge) (Ne.symm hne)
          have hall : ∀ entry, entry ∈ assign key result rest → k < entry.1 :=
            Driver.assign_forall hlt fun entry hentry =>
              hhead entry.1 (List.mem_map_of_mem hentry)
          intro key' hkey'
          obtain ⟨entry, hentry, rfl⟩ := List.mem_map.mp hkey'
          exact hall entry hentry

theorem sortedKeys_execute {runs : Runs K} {plan : List (String × Driver.Call)}
    {results m : ResultMap K} (h : (execute runs plan results).results = .ok m)
    (hresults : SortedKeys results) : SortedKeys m := by
  induction plan generalizing results with
  | nil =>
      have hm : (.ok results : Except Failure (ResultMap K)) = .ok m := h
      injection hm with hm
      rw [← hm]
      exact hresults
  | cons head rest ih =>
      obtain ⟨key, call⟩ := head
      cases hrun : runs call with
      | error failure =>
          simp only [execute, hrun] at h
          cases h
      | ok result =>
          simp only [execute, hrun] at h
          exact ih h (sortedKeys_assign hresults key result)

/-- The name of a benchmark of this kind, which the axis shows without its
beginning. -/
def Kind.Names (k : Kind) (name : String) : Prop := k.removed ++ k.displayName name = name

instance (k : Kind) (name : String) : Decidable (k.Names name) :=
  inferInstanceAs (Decidable (k.removed ++ k.displayName name = name))

theorem names_latencyPlan (s : Settings) :
    ∀ entry, entry ∈ latencyPlan s "latency_all" → latency.Names entry.1 := by
  unfold latencyPlan
  rw [if_pos rfl]
  simp only [List.forall_mem_cons, List.not_mem_nil, false_imp_iff, implies_true, and_true]
  decide

theorem names_bandwidthPlan (s : Settings) :
    ∀ entry, entry ∈ bandwidthPlan s "bandwidth_all" → bandwidth.Names entry.1 := by
  have hthreads : ∀ n, n ∈ [1, 2, 3, 4] →
      bandwidth.Names ("bandwidth_memcpy_mt (" ++ toString n ++ " threads)") := by
    decide
  have hmemcpy : bandwidth.Names "bandwidth_memcpy" := by decide
  unfold bandwidthPlan
  rw [if_pos rfl, List.forall_mem_append, List.forall_mem_cons]
  refine ⟨⟨hmemcpy, ?_⟩, ?_⟩
  · intro entry hentry
    obtain ⟨n, hn, rfl⟩ := List.mem_map.mp hentry
    exact hthreads n hn
  · simp only [List.forall_mem_cons, List.not_mem_nil, false_imp_iff, implies_true, and_true]
    decide

/-- A table of the kind's results: its keys in order, plain, and names of the
kind. -/
structure IsTable (k : Kind) (results : ResultMap K) : Prop where
  sorted : SortedKeys results
  plain : ∀ entry, entry ∈ results → IsPlain entry.1.toList
  names : ∀ entry, entry ∈ results → k.Names entry.1

theorem isTable_latency {runs : Runs K} {s : Settings} {m : ResultMap K}
    (h : (runLatencyBenchmarks runs s "latency_all").results = .ok m) : IsTable latency m where
  sorted := sortedKeys_execute h List.Pairwise.nil
  plain := Driver.execute_forall (P := fun key => IsPlain key.toList) h Driver.latencyPlan_plain
    nofun
  names := Driver.execute_forall (P := latency.Names) h (names_latencyPlan s) nofun

theorem isTable_bandwidth {runs : Runs K} {s : Settings} {m : ResultMap K}
    (h : (runBandwidthBenchmarks runs s "bandwidth_all").results = .ok m) :
    IsTable bandwidth m where
  sorted := sortedKeys_execute h List.Pairwise.nil
  plain := Driver.execute_forall (P := fun key => IsPlain key.toList) h Driver.bandwidthPlan_plain
    nofun
  names := Driver.execute_forall (P := bandwidth.Names) h (names_bandwidthPlan s) nofun

section

variable {overshift : Overshift} {runs : Runs K} {commandLine : CommandLine} {status : Nat}
  {printed : Printed K}

theorem printed_plain
    (h : (Driver.main overshift runs commandLine).ending = .ok (status, printed)) :
    printed.Forall fun entry => IsPlain entry.1.toList := by
  unfold Driver.main at h
  split at h
  next =>
    injection h with h
    injection h with _ h
    subst h
    trivial
  next =>
    injection h with h
    injection h with _ h
    subst h
    trivial
  next => exact Driver.dispatch_plain h

/-- **Two maps are printed** only where all benchmarks ran. -/
theorem isTable_of_main {ls bs : ResultMap K} {json : Bool}
    (h : (Driver.main overshift runs commandLine).ending = .ok (status, .all ls bs json)) :
    IsTable latency ls ∧ IsTable bandwidth bs := by
  unfold Driver.main at h
  split at h
  next =>
    injection h with h
    injection h with _ h
    cases h
  next =>
    injection h with h
    injection h with _ h
    cases h
  next s _ =>
    unfold dispatch at h
    split_ifs at h
    · dsimp only at h
      split at h
      next => cases h
      next ls' hls =>
        obtain ⟨bs', hbs, heq⟩ := map_eq_ok h
        injection heq with _ heq
        injection heq with hl hb _
        subst hl hb
        exact ⟨isTable_latency hls, isTable_bandwidth hbs⟩
    · obtain ⟨m, _, heq⟩ := map_eq_ok h
      injection heq with _ heq
      unfold Driver.outputLatencyResults at heq
      split at heq <;> cases heq
    · obtain ⟨m, _, heq⟩ := map_eq_ok h
      injection heq with _ heq
      unfold Driver.outputBandwidthResults at heq
      split at heq <;> cases heq
    · injection h with h
      injection h with _ h
      cases h

end

/-! ## §2. Recordings. -/

/-- What a run leaves in the file its standard output goes to: nothing if it
has no results, or rejects its arguments on standard error. -/
def contents (format : K → Formatted) : Printed K → Option String
  | .nothing | .rejection _ => some ""
  | printed => printed.json format

/-- A file under `results/` with what a run of `akbench` printed: JSON, or
nothing at all. -/
structure Recording (K : Type*) (format : K → Formatted) where
  machine : String
  overshift : Overshift
  runs : Runs K
  commandLine : CommandLine
  status : Nat
  printed : Printed K
  text : String
  ran : (Driver.main overshift runs commandLine).ending = .ok (status, printed)
  saved : contents format printed = some text

namespace Recording

variable {r : Recording K format}

def latencyResults (r : Recording K format) : ResultMap K :=
  match r.printed with
  | .all ls _ _ => ls
  | _ => []

def bandwidthResults (r : Recording K format) : ResultMap K :=
  match r.printed with
  | .all _ bs _ => bs
  | _ => []

/-- It has the results of all benchmarks, and no number is missing. -/
def Complete (r : Recording K format) : Prop :=
  (∃ ls bs json, r.printed = .all ls bs json) ∧ AllFinite format r.latencyResults ∧
    AllFinite format r.bandwidthResults

/-- The document a table is printed as. -/
def IsDocument (k : Kind) (unit : String) (format : K → Formatted) (results : ResultMap K)
    (document : Json) : Prop :=
  ∃ js, benches k.key document = some js ∧ List.Forall₂ (Represents format unit) results js

/-- **A complete recording is a document of its two tables.** -/
theorem Complete.parse (h : r.Complete) :
    ∃ document, Json.parse r.text = some document ∧
      IsDocument latency "sec" format r.latencyResults document ∧
        IsDocument bandwidth "Byte/sec" format r.bandwidthResults document := by
  obtain ⟨⟨ls, bs, json, hprinted⟩, hlatency, hbandwidth⟩ := h
  have hran := r.ran
  have hsaved := r.saved
  unfold latencyResults at hlatency ⊢
  unfold bandwidthResults at hbandwidth ⊢
  rw [hprinted] at hran hsaved hlatency hbandwidth ⊢
  dsimp only at hlatency hbandwidth ⊢
  obtain ⟨hls, hbs⟩ := isTable_of_main hran
  cases json with
  | false => cases hsaved
  | true =>
      injection hsaved with htext
      rw [← htext, Driver.parse_outputJsonDictionary format ls bs hls.plain hbs.plain]
      cases hl : ls.mapM (entryJson format "sec") with
      | none => exact absurd hlatency (Driver.mapM_entryJson_eq_none_iff.mp hl)
      | some jls =>
          cases hb : bs.mapM (entryJson format "Byte/sec") with
          | none => exact absurd hbandwidth (Driver.mapM_entryJson_eq_none_iff.mp hb)
          | some jbs =>
              exact ⟨_, rfl, ⟨jls, rfl, Driver.mapM_entryJson_eq_some_iff.mp hl⟩,
                ⟨jbs, rfl, Driver.mapM_entryJson_eq_some_iff.mp hb⟩⟩

/-- **Any other is no document**, or an array. -/
theorem parse_of_not_complete (h : ¬ r.Complete) :
    Json.parse r.text = none ∨ ∃ js, Json.parse r.text = some (.arr js) := by
  have hplain := printed_plain r.ran
  have hsaved := r.saved
  have harray : ∀ results unit, IsPlain unit.toList →
      (∀ entry, entry ∈ results → IsPlain entry.1.toList) →
        Json.parse (outputJsonResults format results unit) = none ∨
          ∃ js, Json.parse (outputJsonResults format results unit) = some (.arr js) := by
    intro results unit hunit hnames
    rw [Driver.parse_outputJsonResults format results hnames hunit]
    cases results.mapM (entryJson format unit) with
    | none => exact .inl rfl
    | some js => exact .inr ⟨js, rfl⟩
  match hprinted : r.printed, hsaved with
  | .nothing, hsaved | .rejection _, hsaved =>
      -- `json.load` rejects an empty file
      injection hsaved with htext
      rw [← htext]
      exact .inl (by decide)
  | .latency results true, hsaved =>
      rw [hprinted] at hplain
      injection hsaved with htext
      rw [← htext]
      exact harray results "sec" (by decide) hplain
  | .bandwidth results true, hsaved =>
      rw [hprinted] at hplain
      injection hsaved with htext
      rw [← htext]
      exact harray results "Byte/sec" (by decide) hplain
  | .all ls bs true, hsaved =>
      rw [hprinted] at hplain
      injection hsaved with htext
      rw [← htext]
      refine .inl (Driver.outputJsonDictionary_malformed hplain.1 hplain.2 fun hfinite => ?_)
      unfold Complete latencyResults bandwidthResults at h
      rw [hprinted] at h
      exact h ⟨⟨ls, bs, true, rfl⟩, hfinite⟩

end Recording

/-! ## §3. Tables. -/

section

open Recording (IsDocument)

variable {k : Kind} {unit : String} {results : ResultMap K} {document : Json} {js : List Json}
  {data : List (String × Json)}

/-- The bar of a benchmark: the numbers printed, in the unit of the axis, and
nothing where there are none. -/
def expected (k : Kind) (format : K → Formatted) (results : ResultMap K) (name : String) : ℚ × ℚ :=
  match Dict.get results name with
  | some result =>
      (k.scale ((format result.average).number.getD 0),
        k.scale ((format result.stddev).number.getD 0))
  | none => (0, 0)

theorem benchName_of_represents {entry : String × BenchmarkResult K} {j : Json}
    (h : Represents format unit entry j) : benchName j = some entry.1 := by
  obtain ⟨_, _, _, _, rfl⟩ := h
  rfl

theorem scaled_of_represents {entry : String × BenchmarkResult K} {j : Json}
    (h : Represents format unit entry j) :
    scaled k "average" j = some (k.scale ((format entry.2.average).number.getD 0)) ∧
      scaled k "stddev" j = some (k.scale ((format entry.2.stddev).number.getD 0)) := by
  obtain ⟨_, _, haverage, hstddev, rfl⟩ := h
  rw [haverage, hstddev]
  exact ⟨rfl, rfl⟩

theorem names_of_isDocument (h : IsDocument k unit format results document) :
    ((benches k.key document).bind fun bs => bs.mapM benchName) =
      some (results.map Prod.fst) := by
  obtain ⟨js, hjs, hforall⟩ := h
  rw [hjs, Option.bind_some, Dict.mapM_eq_some_iff, List.forall₂_map_right_iff]
  exact List.Forall₂.flip (hforall.imp fun _ _ h => benchName_of_represents h)

theorem exists_table (h : List.Forall₂ (Represents format unit) results js) :
    ∃ table, (js.mapM fun bench => (benchName bench).map fun name => (name, bench)) =
        some table ∧
      List.Forall₂ (fun e e' => e.1 = e'.1 ∧ Represents format unit (e.1, e.2) e'.2) results
        table := by
  induction h with
  | nil => exact ⟨[], rfl, .nil⟩
  | @cons entry j rest js hhead _ ih =>
      obtain ⟨table, htable, hforall⟩ := ih
      refine ⟨(entry.1, j) :: table, ?_, .cons ⟨rfl, hhead⟩ hforall⟩
      rw [List.mapM_cons, benchName_of_represents hhead, htable]
      rfl

/-- **A bar shows the numbers printed.** -/
theorem height_of_isDocument {machineName : String}
    (h : IsDocument k unit format results document)
    (hget : Dict.get data machineName = some document) :
    ∃ table, benchDict k data machineName = some table ∧
      ∀ names : List String, names.mapM (height k table) =
        some (names.map (expected k format results)) := by
  obtain ⟨js, hjs, hforall⟩ := h
  obtain ⟨table, htable, hentries⟩ := exists_table hforall
  refine ⟨table, ?_, fun names => ?_⟩
  · unfold benchDict
    rw [hget, Option.bind_some, hjs, Option.bind_some, htable]
  · rw [Dict.mapM_eq_some_iff, List.forall₂_map_right_iff, List.forall₂_same]
    intro name _
    have hrel := Dict.get_forall₂
      (R := fun name result j => Represents format unit (name, result) j) hentries name
    unfold height expected
    cases hresult : Dict.get results name with
    | none =>
        rw [hresult] at hrel
        cases hbench : Dict.get table name with
        | none => rfl
        | some bench =>
            rw [hbench] at hrel
            cases hrel
    | some result =>
        rw [hresult] at hrel
        cases hbench : Dict.get table name with
        | none =>
            rw [hbench] at hrel
            cases hrel
        | some bench =>
            rw [hbench] at hrel
            cases hrel with
            | some hrep =>
                obtain ⟨haverage, hstddev⟩ := scaled_of_represents (k := k) hrep
                dsimp only
                rw [haverage, hstddev]
                rfl

end

/-! ## §4. Graphs. -/

section

variable {k : Kind} {unit : String} {results : Recording K format → ResultMap K}
  {recordings : List (Recording K format)} {data : List (String × Json)} {g : Graph}

/-- The benchmarks of some recording. -/
def allNames (results : Recording K format → ResultMap K) (recordings : List (Recording K format)) :
    List String := sortedSet (recordings.map fun r => (results r).map Prod.fst).flatten

/-- The graph shows these results of the recordings. -/
structure Shows (k : Kind) (results : Recording K format → ResultMap K)
    (recordings : List (Recording K format)) (g : Graph) : Prop where
  labels : g.series.map Series.label = sortedSet (recordings.map Recording.machine)
  ticks : g.ticks.map Prod.snd = (allNames results recordings).map k.displayName
  ticks_nodup : (g.ticks.map Prod.snd).Nodup
  bars : ∀ r s, r ∈ recordings → s ∈ g.series → s.label = r.machine →
    (s.bars.map fun b => (b.value, b.error)) =
      (allNames results recordings).map (expected k format (results r))

/-- The documents of these recordings. -/
def Loaded (k : Kind) (unit : String) (results : Recording K format → ResultMap K) :
    List (Recording K format) → List (String × Json) → Prop :=
  List.Forall₂ fun r machine =>
    machine.1 = r.machine ∧ Recording.IsDocument k unit format (results r) machine.2

theorem Loaded.keys (h : Loaded k unit results recordings data) :
    data.map Prod.fst = recordings.map Recording.machine := by
  symm
  rw [← List.forall₂_eq_eq_eq, List.forall₂_map_left_iff, List.forall₂_map_right_iff]
  exact h.imp fun _ _ hr => hr.1.symm

/-- Every recording has its table. -/
theorem Loaded.table (h : Loaded k unit results recordings data)
    (hnodup : (recordings.map Recording.machine).Nodup) {r : Recording K format}
    (hr : r ∈ recordings) :
    ∃ table, benchDict k data r.machine = some table ∧
      ∀ names : List String, names.mapM (height k table) =
        some (names.map (expected k format (results r))) := by
  obtain ⟨⟨machineName, document⟩, hmem, hname, hdocument⟩ := Dict.exists_of_mem_left h hr
  dsimp only at hname hdocument
  subst hname
  refine height_of_isDocument hdocument ?_
  rw [Dict.get_eq_some_iff (h.keys ▸ hnodup)]
  exact hmem

theorem Loaded.names (h : Loaded k unit results recordings data) :
    (data.mapM fun machine => (benches k.key machine.2).bind fun bs => bs.mapM benchName) =
      some (recordings.map fun r => (results r).map Prod.fst) := by
  rw [Dict.mapM_eq_some_iff, List.forall₂_map_right_iff]
  exact List.Forall₂.flip (h.imp fun _ _ hr => names_of_isDocument hr.2)

/-- **A graph of recordings is generated, and shows them.** -/
theorem Loaded.shows (h : Loaded k unit results recordings data) (hne : recordings ≠ [])
    (hnodup : (recordings.map Recording.machine).Nodup)
    (htables : ∀ r, r ∈ recordings → IsTable k (results r)) :
    ∃ g, generateGraph k data = some g ∧ Shows k results recordings g := by
  have hdata : data ≠ [] := by
    rintro rfl
    cases h
    exact hne rfl
  obtain ⟨g, hg⟩ : ∃ g, generateGraph k data = some g := by
    refine exists_graph hdata h.names fun machineName hmachine => ?_
    rw [h.keys, List.mem_map] at hmachine
    obtain ⟨r, hr, rfl⟩ := hmachine
    obtain ⟨table, htable, hheights⟩ := h.table hnodup hr
    exact ⟨table, _, htable, hheights _⟩
  refine ⟨g, hg, ?_⟩
  obtain ⟨allBenchmarks, hall, hdraws⟩ := draws_of_generateGraph hg
  rw [h.names, Option.some_inj] at hall
  rw [← hall] at hdraws
  have hticks : g.ticks.map Prod.snd = (allNames results recordings).map k.displayName := by
    have hfst : (allNames results recordings).map k.displayName =
        ((allNames results recordings).zipIdx.map Prod.fst).map k.displayName := by
      rw [List.zipIdx_map_fst]
    rw [hdraws.ticks, List.map_map, hfst, List.map_map]
    rfl
  refine ⟨?_, hticks, ?_, ?_⟩
  · rw [hdraws.labels, machines_eq (h.keys ▸ hnodup), h.keys]
  · rw [hticks]
    refine List.Nodup.map_on ?_ (Dict.nodup_sortedSet _)
    -- the names begin alike, so that they differ where the axis shows them
    have hnames : ∀ name, name ∈ allNames results recordings → k.Names name := by
      intro name hname
      unfold allNames at hname
      rw [Dict.mem_sortedSet, List.mem_flatten] at hname
      obtain ⟨keys, hkeys, hname⟩ := hname
      obtain ⟨r, hr, rfl⟩ := List.mem_map.mp hkeys
      obtain ⟨entry, hentry, rfl⟩ := List.mem_map.mp hname
      exact (htables r hr).names entry hentry
    intro name hname name' hname' heq
    rw [← hnames name hname, ← hnames name' hname', heq]
  · intro r s hr hs hlabel
    obtain ⟨i, hi⟩ := List.mem_iff_getElem?.mp hs
    obtain ⟨machine, table, heights, _, htable, hheights, rfl⟩ := hdraws.series_at hi
    dsimp only at hlabel
    subst hlabel
    obtain ⟨table', htable', hheights'⟩ := h.table hnodup hr
    rw [htable, Option.some_inj] at htable'
    subst htable'
    rw [hheights', Option.some_inj] at hheights
    unfold allNames
    rw [hheights, List.map_map]
    exact List.zipIdx_map_fst 0 heights

end

/-! ## §5. The script on recordings. -/

section

variable {recordings : List (Recording K format)}

theorem files_keys (recordings : List (Recording K format)) :
    (recordings.map fun r => (r.machine, r.text)).map Prod.fst =
      recordings.map Recording.machine := by
  rw [List.map_map]
  rfl

theorem files_nodup (hnodup : (recordings.map Recording.machine).Nodup) :
    ((recordings.map fun r => (r.machine, r.text)).map Prod.fst).Nodup :=
  (files_keys recordings).symm ▸ hnodup

/-- `results/` with these recordings in it. -/
def resultsDir (recordings : List (Recording K format))
    (hnodup : (recordings.map Recording.machine).Nodup) : ResultsDir :=
  ⟨recordings.map fun r => (r.machine, r.text), files_nodup hnodup⟩

theorem loadJsonFiles_resultsDir (hnodup : (recordings.map Recording.machine).Nodup) :
    loadJsonFiles (resultsDir recordings hnodup) =
      recordings.mapM fun r => (Json.parse r.text).map fun document => (r.machine, document) :=
  List.mapM_map

/-- Complete recordings are loaded. -/
theorem exists_loaded (hcomplete : ∀ r, r ∈ recordings → r.Complete)
    (hnodup : (recordings.map Recording.machine).Nodup) :
    ∃ data, loadJsonFiles (resultsDir recordings hnodup) = some data ∧
      Loaded latency "sec" Recording.latencyResults recordings data ∧
        Loaded bandwidth "Byte/sec" Recording.bandwidthResults recordings data := by
  obtain ⟨data, hdata⟩ := Dict.exists_mapM (l := recordings)
    (f := fun r => (Json.parse r.text).map fun document => (r.machine, document)) fun r hr => by
      obtain ⟨document, hparse, _⟩ := (hcomplete r hr).parse
      exact ⟨(r.machine, document), by rw [hparse, Option.map_some]⟩
  have hforall := (List.forall₂_and_left recordings data).mpr
    ⟨hcomplete, Dict.mapM_eq_some_iff.mp hdata⟩
  refine ⟨data, (loadJsonFiles_resultsDir hnodup).trans hdata, ?_, ?_⟩
  all_goals
    refine hforall.imp fun r machine hr => ?_
    obtain ⟨hr, hmachine⟩ := hr
    obtain ⟨document, hparse, hlatency, hbandwidth⟩ := hr.parse
    rw [hparse, Option.map_some, Option.some_inj] at hmachine
    subst hmachine
  · exact ⟨rfl, hlatency⟩
  · exact ⟨rfl, hbandwidth⟩

theorem generateGraph_array {k : Kind} {data : List (String × Json)} {machineName : String}
    {js : List Json} (h : (machineName, .arr js) ∈ data) : generateGraph k data = none := by
  have hnone : (data.mapM fun machine =>
      (benches k.key machine.2).bind fun bs => bs.mapM benchName) = none :=
    Dict.mapM_eq_none_iff.mpr ⟨_, h, rfl⟩
  unfold generateGraph
  rw [hnone, Option.bind_none]

/-- **A file of other results stops the script** before it saves a graph. -/
theorem main_of_not_complete (hnodup : (recordings.map Recording.machine).Nodup)
    {r : Recording K format} (hr : r ∈ recordings) (h : ¬ r.Complete) :
    main (resultsDir recordings hnodup) = .raised none := by
  have hload := loadJsonFiles_resultsDir hnodup
  unfold main
  rcases Recording.parse_of_not_complete h with hparse | ⟨js, hparse⟩
  · rw [Dict.mapM_eq_none_iff.mpr ⟨r, hr, by rw [hparse, Option.map_none]⟩] at hload
    rw [hload]
  · cases hdata : loadJsonFiles (resultsDir recordings hnodup) with
    | none => rfl
    | some data =>
        rw [hdata] at hload
        obtain ⟨machine, hmem, hmachine⟩ :=
          Dict.exists_of_mem_left (Dict.mapM_eq_some_iff.mp hload.symm) hr
        rw [hparse, Option.map_some, Option.some_inj] at hmachine
        subst hmachine
        cases data with
        | nil => cases hmem
        | cons first rest =>
            dsimp only
            unfold generateBandwidthGraph
            rw [generateGraph_array hmem]

theorem Recording.Complete.tables {r : Recording K format} (h : r.Complete) :
    IsTable latency r.latencyResults ∧ IsTable bandwidth r.bandwidthResults := by
  obtain ⟨⟨ls, bs, json, hprinted⟩, _⟩ := h
  have hran := r.ran
  rw [hprinted] at hran
  unfold Recording.latencyResults Recording.bandwidthResults
  rw [hprinted]
  exact isTable_of_main hran

/-- **The graphs show what `akbench` printed.**  Of recordings on different
machines the script draws nothing if there are none, fails if one of them is
not of all benchmarks with finite numbers, and otherwise draws two graphs in
which every bar is a number printed, in the unit of its axis. -/
theorem graphs_of_recordings (format : K → Formatted) (recordings : List (Recording K format))
    (hnodup : (recordings.map Recording.machine).Nodup) :
    (recordings = [] → main (resultsDir recordings hnodup) = .noFiles) ∧
      ((∃ r, r ∈ recordings ∧ ¬ r.Complete) →
        main (resultsDir recordings hnodup) = .raised none) ∧
      (recordings ≠ [] → (∀ r, r ∈ recordings → r.Complete) →
        ∃ bandwidthGraph latencyGraph,
          main (resultsDir recordings hnodup) = .graphs bandwidthGraph latencyGraph ∧
            Shows bandwidth Recording.bandwidthResults recordings bandwidthGraph ∧
              Shows latency Recording.latencyResults recordings latencyGraph) := by
  refine ⟨?_, ?_, ?_⟩
  · rintro rfl
    rfl
  · rintro ⟨r, hr, h⟩
    exact main_of_not_complete hnodup hr h
  · intro hne hcomplete
    obtain ⟨data, hdata, hlatency, hbandwidth⟩ := exists_loaded hcomplete hnodup
    obtain ⟨b, hb, hshowsb⟩ :=
      hbandwidth.shows hne hnodup fun r hr => (hcomplete r hr).tables.2
    obtain ⟨l, hl, hshowsl⟩ := hlatency.shows hne hnodup fun r hr => (hcomplete r hr).tables.1
    refine ⟨b, l, ?_, hshowsb, hshowsl⟩
    unfold main
    rw [hdata]
    cases data with
    | nil =>
        cases hlatency
        exact absurd rfl hne
    | cons machine machines =>
        dsimp only
        unfold generateBandwidthGraph generateLatencyGraph
        rw [hb, hl]

/-- `akbench all --json-output` on a machine where every double is printed as
`1.500000e-07`. -/
theorem exists_complete (machine : String) :
    ∃ r : Recording Unit (fun _ => Driver.sampleNumber), r.machine = machine ∧ r.Complete := by
  -- no option of this line is a shift
  let overshift : Overshift := ⟨fun _ _ => 1, fun _ _ => by decide⟩
  let runs : Runs Unit := fun _ => .ok ⟨(), ()⟩
  let line : CommandLine := ⟨[.jsonOutput], ["all"]⟩
  let s : Settings := { type := "all", jsonOutput := true }
  have hruns : ∀ c, ∃ result, runs c = .ok result := fun _ => ⟨⟨(), ()⟩, rfl⟩
  obtain ⟨ls, hls⟩ : ∃ m, (execute runs (latencyPlan s "latency_all") []).results = .ok m :=
    (Driver.calls_execute_of_ok hruns).2
  obtain ⟨bs, hbs⟩ : ∃ m, (execute runs (bandwidthPlan s "bandwidth_all") []).results = .ok m :=
    (Driver.calls_execute_of_ok hruns).2
  have hvalidate : Driver.validate overshift line = .ok s := by decide
  have hran : (Driver.main overshift runs line).ending = .ok (0, .all ls bs true) := by
    unfold Driver.main
    rw [hvalidate]
    dsimp only
    unfold dispatch runLatencyBenchmarks runBandwidthBenchmarks
    rw [if_pos rfl]
    dsimp only
    rw [hls, hbs]
    rfl
  exact ⟨⟨machine, overshift, runs, line, 0, .all ls bs true, _, hran, rfl⟩, rfl,
    ⟨ls, bs, true, rfl⟩, fun _ _ => ⟨trivial, trivial⟩, fun _ _ => ⟨trivial, trivial⟩⟩

/-- Two machines, listed in the other order than drawn. -/
theorem graphs_of_recordings_two :
    ∃ (recordings : List (Recording Unit fun _ => Driver.sampleNumber)) (dir : ResultsDir)
        (bandwidthGraph latencyGraph : Graph),
      recordings.map Recording.machine = ["lake", "hill"] ∧
        main dir = .graphs bandwidthGraph latencyGraph ∧
          Shows bandwidth Recording.bandwidthResults recordings bandwidthGraph ∧
            Shows latency Recording.latencyResults recordings latencyGraph ∧
              latencyGraph.series.map Series.label = ["hill", "lake"] := by
  obtain ⟨lake, hlake, hcomplete⟩ := exists_complete "lake"
  obtain ⟨hill, hhill, hcomplete'⟩ := exists_complete "hill"
  have hkeys : [lake, hill].map Recording.machine = ["lake", "hill"] := by
    simp only [List.map_cons, List.map_nil, hlake, hhill]
  have hnodup : ([lake, hill].map Recording.machine).Nodup := by
    rw [hkeys]
    decide
  obtain ⟨_, _, hgraphs⟩ := graphs_of_recordings _ [lake, hill] hnodup
  obtain ⟨b, l, hmain, hb, hl⟩ := hgraphs (List.cons_ne_nil _ _) (by
    simp only [List.forall_mem_cons, List.not_mem_nil, false_imp_iff, implies_true, and_true]
    exact ⟨hcomplete, hcomplete'⟩)
  refine ⟨[lake, hill], _, b, l, hkeys, hmain, hb, hl, ?_⟩
  rw [hl.labels, hkeys]
  decide

end

end Akbench.Graphs
