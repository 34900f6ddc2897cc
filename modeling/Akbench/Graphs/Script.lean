/-
  Akbench.Graphs.Script
  ─────────────────────
  **`generate_graphs.py`: FROM THE FILES UNDER `results/` TO THE BARS.**

  The script reads every JSON file there, one for each machine, and draws one
  group of bars for each benchmark, with one bar for each machine in it.  A
  Python exception is `none`; doubles are exact numbers, and `ax.bar` takes all
  of them.

    • `generateGraph` — what both graph functions do, whatever they draw;
    • `main` — both graphs, or how far the script came;
    • `main_perm` — the order in which `glob` lists the files is immaterial;
    • `layout` — what is drawn of any documents: bars that never overlap,
      ticks in the middle of their groups, a logarithmic scale where one bar
      is over a hundred times another.
-/
import Mathlib.Algebra.Order.Ring.Abs
import Mathlib.Data.String.Basic
import Mathlib.Tactic.FieldSimp
import Mathlib.Tactic.Linarith
import Mathlib.Tactic.Ring
import Akbench.Lib.Dict
import Akbench.Lib.Json

namespace Akbench.Graphs

open Dict (sortedSet)

/-! ## §1. Documents. -/

/-- `v[key]`: only a `dict` is subscripted by a `str`. -/
def item : Json → String → Option Json
  | .obj members, key => Dict.get members key
  | .null, _ | .bool _, _ | .num _, _ | .str _, _ | .arr _, _ => none

/-- `for … in v`. -/
def elements : Json → Option (List Json)
  | .arr es => some es
  | .obj members => some ((members.map Prod.fst).eraseDups.map Json.str)
  | .str s => some (s.toList.map fun c => .str (String.singleton c))
  | .null | .bool _ | .num _ => none

/-- A number in arithmetic. -/
def number : Json → Option ℚ
  | .num q => some q
  | .bool b => some (if b then 1 else 0)
  | .null | .str _ | .arr _ | .obj _ => none

/-- `machine_data.get(key, [])`, to iterate over: only a `dict` has a `get`. -/
def benches (key : String) : Json → Option (List Json)
  | .obj members =>
      match Dict.get members key with
      | some v => elements v
      | none => some []
  | .null | .bool _ | .num _ | .str _ | .arr _ => none

/-- `bench["name"]`, which `str.replace` needs to be a `str`. -/
def benchName (bench : Json) : Option String :=
  match item bench "name" with
  | some (.str name) => some name
  | _ => none

/-- `name.replace(pattern, "")`. -/
def removeAll (pattern : List Char) : Nat → List Char → List Char
  | 0, s => s
  | _ + 1, [] => []
  | fuel + 1, c :: s =>
      if pattern.isPrefixOf (c :: s) then removeAll pattern fuel ((c :: s).drop pattern.length)
      else c :: removeAll pattern fuel s

/-! ## §2. Graphs. -/

/-- One bar, with its error bar. -/
structure Bar where
  position : ℚ
  value : ℚ
  error : ℚ
  deriving DecidableEq, Repr

/-- The bars of a machine. -/
structure Series where
  label : String
  /-- Index into `TABLEAU_COLORS`. -/
  color : Nat
  bars : List Bar
  deriving DecidableEq, Repr

structure Graph where
  barWidth : ℚ
  ticks : List (ℚ × String)
  series : List Series
  logScale : Bool
  deriving DecidableEq, Repr

/-- What the two graph functions differ in. -/
structure Kind where
  key : String
  /-- Left out of the names on the axis. -/
  removed : String
  scale : ℚ → ℚ
  /-- The scale may be logarithmic. -/
  logarithmic : Bool

/-- `len(TABLEAU_COLORS)`. -/
def numColors : Nat := 10

/-- A name on the axis. -/
def Kind.displayName (k : Kind) (name : String) : String :=
  String.ofList (removeAll k.removed.toList name.toList.length name.toList)

/-- `get_machine_color`. -/
def getMachineColor (machineName : String) (machineNames : List String) : Nat :=
  (machineNames.insertionSort (· ≤ ·)).idxOf machineName % numColors

/-- `bench_dict` of a machine. -/
def benchDict (k : Kind) (data : List (String × Json)) (machineName : String) :
    Option (List (String × Json)) :=
  (Dict.get data machineName).bind fun document =>
    (benches k.key document).bind fun bs =>
      bs.mapM fun bench => (benchName bench).map fun name => (name, bench)

/-- `bench[key]` in the unit of the graph. -/
def scaled (k : Kind) (key : String) (bench : Json) : Option ℚ :=
  ((item bench key).bind number).map k.scale

/-- The height and the error of a bar. -/
def height (k : Kind) (table : List (String × Json)) (benchName : String) : Option (ℚ × ℚ) :=
  match Dict.get table benchName with
  | some bench =>
      (scaled k "average" bench).bind fun value =>
        (scaled k "stddev" bench).map fun stddev => (value, stddev)
  | none => some (0, 0)

/-- The call of `ax.bar` for the machine of index `i`. -/
def machineSeries (k : Kind) (data : List (String × Json)) (benchmarkNames machineNames :
    List String) (width : ℚ) (machine : String × Nat) : Option Series :=
  (benchDict k data machine.1).bind fun table =>
    (benchmarkNames.mapM (height k table)).map fun heights =>
      { label := machine.1
        color := getMachineColor machine.1 machineNames
        bars := heights.zipIdx.map fun h => ⟨h.2 + machine.2 * width, h.1.1, h.1.2⟩ }

/-- The values of a machine that are positive. -/
def positiveValues (k : Kind) (data : List (String × Json)) (benchmarkNames : List String)
    (machineName : String) : Option (List ℚ) :=
  (benchDict k data machineName).bind fun table =>
    (benchmarkNames.mapM fun name =>
      match Dict.get table name with
      | some bench =>
          (scaled k "average" bench).map fun value => if 0 < value then [value] else []
      | none => some []).map List.flatten

/-- `all_values and max(all_values) / min(all_values) > 100`. -/
def spansMagnitudes (allValues : List ℚ) : Bool :=
  match allValues.max?, allValues.min? with
  | some largest, some smallest => 100 < largest / smallest
  | _, _ => false

/-- The choice of the scale. -/
def chooseScale (k : Kind) (data : List (String × Json)) (benchmarkNames machineNames :
    List String) : Option Bool :=
  if k.logarithmic then
    (machineNames.mapM (positiveValues k data benchmarkNames)).map fun values =>
      spansMagnitudes values.flatten
  else some false

/-- `sorted(data.keys())`. -/
def machines (data : List (String × Json)) : List String :=
  (data.map Prod.fst).insertionSort (· ≤ ·)

/-- The body of `generate_bandwidth_graph` and `generate_latency_graph`. -/
def generateGraph (k : Kind) (data : List (String × Json)) : Option Graph :=
  (data.mapM fun machine => (benches k.key machine.2).bind fun bs => bs.mapM benchName).bind
    fun allBenchmarks =>
      let benchmarkNames := sortedSet allBenchmarks.flatten
      let machineNames := machines data
      -- `0.8 / len(machine_names)`
      if machineNames = [] then none
      else
        let width : ℚ := 8 / 10 / machineNames.length
        (machineNames.zipIdx.mapM
          (machineSeries k data benchmarkNames machineNames width)).bind fun series =>
            (chooseScale k data benchmarkNames machineNames).map fun logScale =>
              { barWidth := width
                ticks := benchmarkNames.zipIdx.map fun name =>
                  (name.2 + width * (machineNames.length - 1) / 2, k.displayName name.1)
                series := series
                logScale := logScale }

/-- In GiByte/sec. -/
def bandwidth : Kind := ⟨"bandwidth", "bandwidth_", fun v => v / 1024 ^ 3, false⟩

/-- In nanoseconds. -/
def latency : Kind := ⟨"latency", "latency_", fun v => v * 10 ^ 9, true⟩

def generateBandwidthGraph (data : List (String × Json)) : Option Graph :=
  generateGraph bandwidth data

def generateLatencyGraph (data : List (String × Json)) : Option Graph :=
  generateGraph latency data

/-! ## §3. The script. -/

/-- The JSON files under `results/`, by their stems.  A directory has each name
once, and two names have one stem only if they are `.json` and `.json.json`. -/
structure ResultsDir where
  files : List (String × String)
  nodup : (files.map Prod.fst).Nodup

/-- `load_json_files`, of documents without the `NaN`, `Infinity` and
`-Infinity` that `json.load` reads besides JSON. -/
def loadJsonFiles (dir : ResultsDir) : Option (List (String × Json)) :=
  dir.files.mapM fun file => (Json.parse file.2).map fun document => (file.1, document)

/-- How the script ends. -/
inductive Ending where
  /-- "No JSON files found in results directory". -/
  | noFiles
  | graphs (bandwidthGraph latencyGraph : Graph)
  /-- With an exception, and the graph saved before it. -/
  | raised (bandwidthGraph : Option Graph)
  deriving DecidableEq

/-- `main`. -/
def main (dir : ResultsDir) : Ending :=
  match loadJsonFiles dir with
  | none => .raised none
  | some [] => .noFiles
  | some (machine :: machines) =>
      match generateBandwidthGraph (machine :: machines) with
      | none => .raised none
      | some bandwidthGraph =>
          match generateLatencyGraph (machine :: machines) with
          | none => .raised (some bandwidthGraph)
          | some latencyGraph => .graphs bandwidthGraph latencyGraph

/-! ## §4. What is drawn. -/

section

variable {k : Kind} {data : List (String × Json)} {g : Graph} {benchmarkNames machineNames :
  List String} {table : List (String × Json)} {width : ℚ}

/-- The bar of machine `i` for benchmark `j`. -/
def Graph.barAt (g : Graph) (i j : Nat) : Option Bar := g.series[i]?.bind fun s => s.bars[j]?

/-- A graph of these documents over these benchmarks. -/
structure Draws (k : Kind) (data : List (String × Json)) (benchmarkNames : List String)
    (g : Graph) : Prop where
  machines_ne : machines data ≠ []
  barWidth : g.barWidth = 8 / 10 / (machines data).length
  ticks : g.ticks = benchmarkNames.zipIdx.map fun name =>
    (name.2 + g.barWidth * ((machines data).length - 1) / 2, k.displayName name.1)
  series : List.Forall₂ (fun machine s =>
      machineSeries k data benchmarkNames (machines data) g.barWidth machine = some s)
    (machines data).zipIdx g.series
  logScale : chooseScale k data benchmarkNames (machines data) = some g.logScale

/-- **A graph that is generated** is one over all benchmarks of the files. -/
theorem draws_of_generateGraph (h : generateGraph k data = some g) :
    ∃ allBenchmarks, (data.mapM fun machine =>
        (benches k.key machine.2).bind fun bs => bs.mapM benchName) = some allBenchmarks ∧
      Draws k data (sortedSet allBenchmarks.flatten) g := by
  unfold generateGraph at h
  rw [Option.bind_eq_some_iff] at h
  obtain ⟨allBenchmarks, hall, h⟩ := h
  refine ⟨allBenchmarks, hall, ?_⟩
  dsimp only at h
  split at h
  next => cases h
  next hne =>
    rw [Option.bind_eq_some_iff] at h
    obtain ⟨series, hseries, h⟩ := h
    rw [Option.map_eq_some_iff] at h
    obtain ⟨logScale, hscale, rfl⟩ := h
    exact ⟨hne, rfl, rfl, Dict.mapM_eq_some_iff.mp hseries, hscale⟩

theorem machineSeries_eq_some_iff {machine : String × Nat} {s : Series} :
    machineSeries k data benchmarkNames machineNames width machine = some s ↔
      ∃ table heights, benchDict k data machine.1 = some table ∧
        benchmarkNames.mapM (height k table) = some heights ∧
          s = ⟨machine.1, getMachineColor machine.1 machineNames,
            heights.zipIdx.map fun h => ⟨h.2 + machine.2 * width, h.1.1, h.1.2⟩⟩ := by
  unfold machineSeries
  simp only [Option.bind_eq_some_iff, Option.map_eq_some_iff]
  constructor
  · rintro ⟨table, htable, heights, hheights, rfl⟩
    exact ⟨table, heights, htable, hheights, rfl⟩
  · rintro ⟨table, heights, htable, hheights, rfl⟩
    exact ⟨table, htable, heights, hheights, rfl⟩

/-- The series of a machine is where the machine is. -/
theorem Draws.series_at (h : Draws k data benchmarkNames g) {i : Nat} {s : Series}
    (hs : g.series[i]? = some s) :
    ∃ machine table heights, (machines data)[i]? = some machine ∧
      benchDict k data machine = some table ∧
        benchmarkNames.mapM (height k table) = some heights ∧
          s = ⟨machine, getMachineColor machine (machines data),
            heights.zipIdx.map fun h => ⟨h.2 + i * g.barWidth, h.1.1, h.1.2⟩⟩ := by
  obtain ⟨⟨machine, i'⟩, hat, hseries⟩ := Dict.getElem?_of_forall₂ h.series hs
  rw [machineSeries_eq_some_iff] at hseries
  obtain ⟨table, heights, htable, hheights, hs⟩ := hseries
  rw [List.getElem?_zipIdx, Option.map_eq_some_iff] at hat
  obtain ⟨machine', hmachine, heq⟩ := hat
  injection heq with heq hi'
  rw [heq] at hmachine
  have hi' : i = i' := by omega
  rw [← hi'] at hs
  exact ⟨machine, table, heights, hmachine, htable, hheights, hs⟩

/-- A bar stands in the group of its benchmark, at the place of its machine. -/
theorem Draws.barAt (h : Draws k data benchmarkNames g) {i j : Nat} {b : Bar}
    (hb : g.barAt i j = some b) :
    ∃ machine table name, (machines data)[i]? = some machine ∧
      benchDict k data machine = some table ∧ benchmarkNames[j]? = some name ∧
        height k table name = some (b.value, b.error) ∧ b.position = j + i * g.barWidth := by
  unfold Graph.barAt at hb
  rw [Option.bind_eq_some_iff] at hb
  obtain ⟨s, hs, hb⟩ := hb
  obtain ⟨machine, table, heights, hmachine, htable, hheights, rfl⟩ := h.series_at hs
  rw [List.getElem?_map, List.getElem?_zipIdx, Option.map_map, Option.map_eq_some_iff] at hb
  obtain ⟨pair, hpair, rfl⟩ := hb
  obtain ⟨name, hname, hheight⟩ :=
    Dict.getElem?_of_forall₂ (Dict.mapM_eq_some_iff.mp hheights) hpair
  refine ⟨machine, table, name, hmachine, htable, hname, hheight, ?_⟩
  simp

theorem Draws.labels (h : Draws k data benchmarkNames g) :
    g.series.map Series.label = machines data := by
  apply List.ext_getElem?
  intro i
  rw [List.getElem?_map]
  cases hs : g.series[i]? with
  | none =>
      have hlen := h.series.length_eq
      rw [List.length_zipIdx] at hlen
      rw [List.getElem?_eq_none_iff] at hs
      exact (List.getElem?_eq_none (by omega)).symm
  | some s =>
      obtain ⟨machine, _, _, hmachine, _, _, rfl⟩ := h.series_at hs
      exact hmachine.symm

theorem flatten_positive (values : List ℚ) :
    (values.map fun value => if 0 < value then [value] else []).flatten =
      values.filter (0 < ·) := by
  induction values with
  | nil => rfl
  | cons value rest ih =>
      rw [List.map_cons, List.flatten_cons, ih, List.filter_cons]
      by_cases hpos : 0 < value
      · simp [hpos]
      · simp [hpos]

/-- The values collected for the scale are the heights drawn. -/
theorem positiveValues_eq {machineName : String} {heights : List (ℚ × ℚ)}
    (htable : benchDict k data machineName = some table)
    (hheights : benchmarkNames.mapM (height k table) = some heights) :
    positiveValues k data benchmarkNames machineName =
      some ((heights.map Prod.fst).filter (0 < ·)) := by
  unfold positiveValues
  rw [htable, Option.bind_some, Option.map_eq_some_iff]
  refine ⟨heights.map fun h => if 0 < h.1 then [h.1] else [], ?_, ?_⟩
  · rw [Dict.mapM_eq_some_iff, List.forall₂_map_right_iff]
    refine (Dict.mapM_eq_some_iff.mp hheights).imp fun name h hheight => ?_
    unfold height at hheight
    cases hget : Dict.get table name with
    | none =>
        rw [hget] at hheight
        injection hheight with hheight
        rw [← hheight]
        rfl
    | some bench =>
        rw [hget] at hheight
        dsimp only at hheight ⊢
        rw [Option.bind_eq_some_iff] at hheight
        obtain ⟨value, hvalue, hheight⟩ := hheight
        rw [Option.map_eq_some_iff] at hheight
        obtain ⟨_, _, rfl⟩ := hheight
        rw [hvalue, Option.map_some]
  · have hflat := flatten_positive (heights.map Prod.fst)
    rw [List.map_map] at hflat
    exact hflat

/-- **A graph is generated** where every bar has its numbers. -/
theorem exists_graph {allBenchmarks : List (List String)} (hne : data ≠ [])
    (hall : (data.mapM fun machine =>
      (benches k.key machine.2).bind fun bs => bs.mapM benchName) = some allBenchmarks)
    (hheights : ∀ machineName, machineName ∈ data.map Prod.fst → ∃ table heights,
      benchDict k data machineName = some table ∧
        (sortedSet allBenchmarks.flatten).mapM (height k table) = some heights) :
    ∃ g, generateGraph k data = some g := by
  have hmachines : machines data ≠ [] := by
    intro hnil
    have hlen : (machines data).length = data.length := by
      unfold machines
      rw [List.length_insertionSort, List.length_map]
    rw [hnil] at hlen
    exact hne (List.length_eq_zero_iff.mp hlen.symm)
  have hmem : ∀ machineName, machineName ∈ machines data → ∃ table heights,
      benchDict k data machineName = some table ∧
        (sortedSet allBenchmarks.flatten).mapM (height k table) = some heights := by
    intro machineName h
    exact hheights machineName ((List.mem_insertionSort _).mp h)
  obtain ⟨series, hseries⟩ : ∃ series, (machines data).zipIdx.mapM (machineSeries k data
      (sortedSet allBenchmarks.flatten) (machines data) (8 / 10 / (machines data).length)) =
        some series := by
    apply Dict.exists_mapM
    intro machine hmachine
    obtain ⟨table, heights, htable, hheights⟩ := hmem _ (List.fst_mem_of_mem_zipIdx hmachine)
    exact ⟨_, machineSeries_eq_some_iff.mpr ⟨table, heights, htable, hheights, rfl⟩⟩
  obtain ⟨logScale, hscale⟩ : ∃ logScale, chooseScale k data (sortedSet allBenchmarks.flatten)
      (machines data) = some logScale := by
    unfold chooseScale
    split
    next =>
      obtain ⟨values, hvalues⟩ : ∃ values, (machines data).mapM
          (positiveValues k data (sortedSet allBenchmarks.flatten)) = some values := by
        apply Dict.exists_mapM
        intro machineName h
        obtain ⟨table, heights, htable, hheights⟩ := hmem machineName h
        exact ⟨_, positiveValues_eq htable hheights⟩
      rw [hvalues]
      exact ⟨_, rfl⟩
    next => exact ⟨false, rfl⟩
  unfold generateGraph
  rw [hall, Option.bind_some]
  dsimp only
  rw [if_neg hmachines]
  rw [hseries, Option.bind_some, hscale]
  exact ⟨_, rfl⟩

/-! ## §5. Where it is drawn. -/

/-- Bars of one group are a bar's width apart. -/
theorem apart_in_group {i i' : Nat} (hw : 0 < width) (hne : i ≠ i') (p : ℚ) :
    width ≤ |(p + i * width) - (p + i' * width)| := by
  have hlt : ∀ {m m' : Nat}, m < m' → width ≤ m' * width - m * width := by
    intro m m' h
    have hcast : (m : ℚ) + 1 ≤ m' := by exact_mod_cast h
    have hmul := mul_le_mul_of_nonneg_right hcast hw.le
    linarith
  rw [le_abs]
  rcases Nat.lt_or_gt_of_ne hne with h | h
  · have := hlt h
    right
    linarith
  · have := hlt h
    left
    linarith

/-- Bars of different groups are further apart. -/
theorem apart_of_lt {n i i' j j' : Nat} (hw : 0 < width) (hn : width * n = 8 / 10) (hi : i < n)
    (hj : j < j') :
    width + 2 / 10 ≤ ((j' : ℚ) + i' * width) - (j + i * width) := by
  have hgroup : (j : ℚ) + 1 ≤ j' := by exact_mod_cast hj
  have hplace : (i : ℚ) + 1 ≤ n := by exact_mod_cast hi
  have hmul := mul_le_mul_of_nonneg_right hplace hw.le
  have hright : 0 ≤ (i' : ℚ) * width := by positivity
  linarith

theorem apart_of_ne {n i i' j j' : Nat} (hw : 0 < width) (hn : width * n = 8 / 10) (hi : i < n)
    (hi' : i' < n) (hj : j ≠ j') :
    width + 2 / 10 ≤ |((j : ℚ) + i * width) - (j' + i' * width)| := by
  rw [le_abs]
  rcases Nat.lt_or_gt_of_ne hj with h | h
  · right
    rw [neg_sub]
    exact apart_of_lt hw hn hi h
  · left
    exact apart_of_lt hw hn hi' h

theorem Draws.length_pos (h : Draws k data benchmarkNames g) : 0 < (machines data).length :=
  List.length_pos_iff.mpr h.machines_ne

theorem Draws.barWidth_mul (h : Draws k data benchmarkNames g) :
    g.barWidth * (machines data).length = 8 / 10 := by
  have hne : ((machines data).length : ℚ) ≠ 0 := Nat.cast_ne_zero.mpr h.length_pos.ne'
  rw [h.barWidth]
  field_simp

theorem Draws.barWidth_pos (h : Draws k data benchmarkNames g) : 0 < g.barWidth := by
  have hpos : (0 : ℚ) < (machines data).length := by exact_mod_cast h.length_pos
  rw [h.barWidth]
  exact div_pos (by norm_num) hpos

theorem lt_length_of_getElem? {l : List String} {i : Nat} {a : String} (h : l[i]? = some a) :
    i < l.length := (List.getElem?_eq_some_iff.mp h).1

/-- **No bar hides another**, and groups keep a distance. -/
theorem Draws.apart (h : Draws k data benchmarkNames g) {i i' j j' : Nat} {b b' : Bar}
    (hb : g.barAt i j = some b) (hb' : g.barAt i' j' = some b') :
    (j = j' → i ≠ i' → g.barWidth ≤ |b.position - b'.position|) ∧
      (j ≠ j' → g.barWidth + 2 / 10 ≤ |b.position - b'.position|) := by
  obtain ⟨_, _, _, hi, _, _, _, hp⟩ := h.barAt hb
  obtain ⟨_, _, _, hi', _, _, _, hp'⟩ := h.barAt hb'
  rw [hp, hp']
  constructor
  · rintro rfl hne
    exact apart_in_group h.barWidth_pos hne j
  · exact apart_of_ne h.barWidth_pos h.barWidth_mul (lt_length_of_getElem? hi)
      (lt_length_of_getElem? hi')

/-- **A tick is in the middle of its group.** -/
theorem Draws.tick_middle (h : Draws k data benchmarkNames g) {j : Nat} {t : ℚ × String}
    {first last : Bar} (ht : g.ticks[j]? = some t) (hfirst : g.barAt 0 j = some first)
    (hlast : g.barAt ((machines data).length - 1) j = some last) :
    t.1 = (first.position + last.position) / 2 := by
  obtain ⟨_, _, _, _, _, _, _, hp⟩ := h.barAt hfirst
  obtain ⟨_, _, _, _, _, _, _, hp'⟩ := h.barAt hlast
  rw [h.ticks, List.getElem?_map, Option.map_eq_some_iff] at ht
  obtain ⟨pair, hpair, rfl⟩ := ht
  rw [List.getElem?_zipIdx, Option.map_eq_some_iff] at hpair
  obtain ⟨name, _, rfl⟩ := hpair
  have hpred : (((machines data).length - 1 : Nat) : ℚ) = (machines data).length - 1 := by
    have := h.length_pos
    push_cast [Nat.cast_sub (show 1 ≤ (machines data).length by omega)]
    ring
  rw [hp, hp', hpred]
  push_cast
  ring

/-! ## §6. The scale. -/

/-- The quotient of the extremes is that of some two values. -/
theorem spansMagnitudes_iff {values : List ℚ} (hpos : ∀ v, v ∈ values → 0 < v) :
    spansMagnitudes values = true ↔ ∃ v w, v ∈ values ∧ w ∈ values ∧ 100 * w < v := by
  unfold spansMagnitudes
  cases hmax : values.max? with
  | none =>
      rw [List.max?_eq_none_iff] at hmax
      simp [hmax]
  | some largest =>
      cases hmin : values.min? with
      | none =>
          rw [List.min?_eq_none_iff] at hmin
          simp [hmin]
      | some smallest =>
          rw [List.max?_eq_some_iff] at hmax
          rw [List.min?_eq_some_iff] at hmin
          have hsmallest := hpos _ hmin.1
          rw [decide_eq_true_eq, lt_div_iff₀ hsmallest]
          constructor
          · intro h
            exact ⟨largest, smallest, hmax.1, hmin.1, h⟩
          · rintro ⟨v, w, hv, hw, h⟩
            have hle := hmax.2 v hv
            have hge := hmin.2 w hw
            linarith

theorem Draws.chooseScale_eq (h : Draws k data benchmarkNames g) :
    chooseScale k data benchmarkNames (machines data) = some (k.logarithmic &&
      spansMagnitudes (((g.series.flatMap Series.bars).map Bar.value).filter (0 < ·))) := by
  unfold chooseScale
  cases hlog : k.logarithmic with
  | false => rfl
  | true =>
      rw [if_pos rfl, Option.map_eq_some_iff]
      refine ⟨g.series.map fun s => (s.bars.map Bar.value).filter (0 < ·), ?_, ?_⟩
      · rw [Dict.mapM_eq_some_iff, List.forall₂_map_right_iff,
          ← List.zipIdx_map_fst 0 (machines data), List.forall₂_map_left_iff]
        refine h.series.imp fun machine s hs => ?_
        rw [machineSeries_eq_some_iff] at hs
        obtain ⟨table, heights, htable, hheights, rfl⟩ := hs
        rw [positiveValues_eq htable hheights, List.map_map, Option.some_inj]
        congr 1
        conv_lhs => rw [← List.zipIdx_map_fst 0 heights, List.map_map]
        rfl
      · rw [Bool.true_and, List.map_flatMap, List.filter_flatMap, List.flatMap_def]

/-- **The scale is logarithmic** if some bar is over a hundred times another
that is not empty. -/
theorem Draws.logScale_iff (h : Draws k data benchmarkNames g) :
    g.logScale = true ↔ k.logarithmic = true ∧ ∃ b b', b ∈ g.series.flatMap Series.bars ∧
      b' ∈ g.series.flatMap Series.bars ∧ 0 < b'.value ∧ 100 * b'.value < b.value := by
  have hscale := h.chooseScale_eq
  rw [h.logScale, Option.some_inj] at hscale
  rw [hscale, Bool.and_eq_true, spansMagnitudes_iff]
  · refine and_congr_right fun _ => ?_
    constructor
    · rintro ⟨v, w, hv, hw, hlt⟩
      rw [List.mem_filter, List.mem_map] at hv hw
      obtain ⟨⟨b, hb, rfl⟩, _⟩ := hv
      obtain ⟨⟨b', hb', rfl⟩, hpos⟩ := hw
      exact ⟨b, b', hb, hb', of_decide_eq_true hpos, hlt⟩
    · rintro ⟨b, b', hb, hb', hpos, hlt⟩
      have hpos' : 0 < b.value := by linarith
      exact ⟨b.value, b'.value,
        List.mem_filter.mpr ⟨List.mem_map_of_mem hb, decide_eq_true hpos'⟩,
        List.mem_filter.mpr ⟨List.mem_map_of_mem hb', decide_eq_true hpos⟩, hlt⟩
  · intro v hv
    exact of_decide_eq_true (List.mem_filter.mp hv).2

/-! ## §7. The layout. -/

theorem machines_eq (hdata : (data.map Prod.fst).Nodup) :
    machines data = sortedSet (data.map Prod.fst) := (Dict.sortedSet_of_nodup hdata).symm

/-- **Colours repeat after ten machines.** -/
theorem Draws.color_at (h : Draws k data benchmarkNames g) (hdata : (data.map Prod.fst).Nodup)
    {i : Nat} {s : Series} (hs : g.series[i]? = some s) : s.color = i % numColors := by
  obtain ⟨machine, _, _, hmachine, _, _, rfl⟩ := h.series_at hs
  show getMachineColor machine (machines data) = _
  unfold getMachineColor
  rw [machines_eq hdata] at hmachine ⊢
  rw [Dict.insertionSort_sortedSet]
  obtain ⟨hlt, rfl⟩ := List.getElem?_eq_some_iff.mp hmachine
  rw [(Dict.nodup_sortedSet _).idxOf_getElem]

theorem Draws.bars_length (h : Draws k data benchmarkNames g) {i : Nat} {s : Series}
    (hs : g.series[i]? = some s) : s.bars.length = g.ticks.length := by
  obtain ⟨_, _, heights, _, _, hheights, rfl⟩ := h.series_at hs
  have hlen := (Dict.mapM_eq_some_iff.mp hheights).length_eq
  rw [h.ticks]
  simp [hlen]

/-- **The layout of a graph**, whatever the documents: a series for each
machine, in the order of their names and in ten colours, with a bar for each
benchmark; no bar hides another, and the groups are apart and labelled in the
middle; the scale is logarithmic if it may be and some bar is over a hundred
times another. -/
theorem layout (k : Kind) (data : List (String × Json)) (g : Graph)
    (hdata : (data.map Prod.fst).Nodup) (h : generateGraph k data = some g) :
    g.series.map Series.label = sortedSet (data.map Prod.fst) ∧
      (∀ i s, g.series[i]? = some s →
        s.color = i % numColors ∧ s.bars.length = g.ticks.length) ∧
      (∀ i i' j j' b b', g.barAt i j = some b → g.barAt i' j' = some b' →
        (j = j' → i ≠ i' → g.barWidth ≤ |b.position - b'.position|) ∧
          (j ≠ j' → g.barWidth + 2 / 10 ≤ |b.position - b'.position|)) ∧
      (∀ j t first last, g.ticks[j]? = some t → g.barAt 0 j = some first →
        g.barAt (data.length - 1) j = some last →
          t.1 = (first.position + last.position) / 2) ∧
      (g.logScale = true ↔ k.logarithmic = true ∧ ∃ b b', b ∈ g.series.flatMap Series.bars ∧
        b' ∈ g.series.flatMap Series.bars ∧ 0 < b'.value ∧ 100 * b'.value < b.value) := by
  obtain ⟨_, _, hdraws⟩ := draws_of_generateGraph h
  have hlength : (machines data).length = data.length := by
    unfold machines
    rw [List.length_insertionSort, List.length_map]
  refine ⟨?_, ?_, ?_, ?_, hdraws.logScale_iff⟩
  · rw [hdraws.labels, machines_eq hdata]
  · intro i s hs
    exact ⟨hdraws.color_at hdata hs, hdraws.bars_length hs⟩
  · intro i i' j j' b b' hb hb'
    exact hdraws.apart hb hb'
  · intro j t first last ht hfirst hlast
    rw [← hlength] at hlast
    exact hdraws.tick_middle ht hfirst hlast

/-- Two machines with a latency benchmark each. -/
def twoMachines : List (String × Json) :=
  let document : String → ℚ → Json := fun name average =>
    .obj [("latency", .arr [.obj [("name", .str name), ("average", .num average),
      ("stddev", .num 0)]])]
  [("lake", document "latency_getpid" 1), ("hill", document "latency_barrier" 101)]

theorem layout_two :
    ∃ g, generateGraph latency twoMachines = some g ∧
      g.series.map Series.label = ["hill", "lake"] ∧ g.logScale = true ∧
        ∀ i i' b b', g.barAt i 0 = some b → g.barAt i' 1 = some b' →
          g.barWidth + 2 / 10 ≤ |b.position - b'.position| := by
  obtain ⟨g, hg⟩ : ∃ g, generateGraph latency twoMachines = some g :=
    Option.isSome_iff_exists.mp (by decide)
  obtain ⟨hlabels, _, hapart, _, hscale⟩ := layout latency twoMachines g (by decide) hg
  have hbars : (generateGraph latency twoMachines).map (fun g => g.series.flatMap Series.bars) =
      some [⟨0, 101 * 10 ^ 9, 0⟩, ⟨1, 0, 0⟩, ⟨4 / 10, 0, 0⟩, ⟨14 / 10, 10 ^ 9, 0⟩] := by
    decide +kernel
  rw [hg, Option.map_some, Option.some_inj] at hbars
  refine ⟨g, hg, hlabels, hscale.mpr ⟨rfl, ⟨0, 101 * 10 ^ 9, 0⟩, ⟨14 / 10, 10 ^ 9, 0⟩, ?_, ?_,
    by norm_num, by norm_num⟩, fun i i' b b' hb hb' => (hapart i i' 0 1 b b' hb hb').2 (by decide)⟩
  · rw [hbars]
    exact List.mem_cons_self
  · rw [hbars]
    simp

/-! ## §8. The order of the files. -/

section

variable {data' : List (String × Json)}

theorem benchDict_perm (hperm : data.Perm data') (hdata : (data.map Prod.fst).Nodup) :
    benchDict k data = benchDict k data' := by
  funext machineName
  unfold benchDict
  rw [Dict.get_perm hperm hdata]

/-- **A graph depends on the files, not on their order.** -/
theorem generateGraph_perm (hperm : data.Perm data') (hdata : (data.map Prod.fst).Nodup) :
    generateGraph k data = generateGraph k data' := by
  have hmachines : machines data = machines data' :=
    (((List.perm_insertionSort _ _).trans (hperm.map Prod.fst)).trans
      (List.perm_insertionSort _ _).symm).eq_of_pairwise' (List.pairwise_insertionSort _ _)
        (List.pairwise_insertionSort _ _)
  have htable : benchDict k data = benchDict k data' := benchDict_perm hperm hdata
  have hseries : machineSeries k data = machineSeries k data' := by
    unfold machineSeries
    rw [htable]
  have hscale : chooseScale k data = chooseScale k data' := by
    unfold chooseScale positiveValues
    rw [htable]
  unfold generateGraph
  rw [hmachines, hseries, hscale]
  cases hall : data.mapM fun machine =>
      (benches k.key machine.2).bind fun bs => bs.mapM benchName with
  | none =>
      have hnone := Dict.mapM_eq_none_iff.mp hall
      simp only [hperm.mem_iff] at hnone
      rw [Dict.mapM_eq_none_iff.mpr hnone]
  | some allBenchmarks =>
      obtain ⟨allBenchmarks', hall', hperm'⟩ := Dict.mapM_perm hperm hall
      rw [hall', Option.bind_some, Option.bind_some,
        Dict.sortedSet_congr fun name => hperm'.flatten.mem_iff]

theorem loadJsonFiles_keys {dir : ResultsDir} (h : loadJsonFiles dir = some data) :
    data.map Prod.fst = dir.files.map Prod.fst := by
  have hforall := Dict.mapM_eq_some_iff.mp h
  symm
  rw [← List.forall₂_eq_eq_eq, List.forall₂_map_left_iff, List.forall₂_map_right_iff]
  refine hforall.imp fun file machine hfile => ?_
  rw [Option.map_eq_some_iff] at hfile
  obtain ⟨_, _, rfl⟩ := hfile
  rfl

/-- **The outcome is the same** in whatever order `glob` lists the files. -/
theorem main_perm (dir dir' : ResultsDir) (hperm : dir.files.Perm dir'.files) :
    main dir = main dir' := by
  unfold main
  cases hload : loadJsonFiles dir with
  | none =>
      have hnone := Dict.mapM_eq_none_iff.mp hload
      simp only [hperm.mem_iff] at hnone
      have hload' : loadJsonFiles dir' = none := Dict.mapM_eq_none_iff.mpr hnone
      rw [hload']
  | some data =>
      obtain ⟨data', hload', hperm'⟩ := Dict.mapM_perm hperm hload
      have hload' : loadJsonFiles dir' = some data' := hload'
      have hdata : (data.map Prod.fst).Nodup := loadJsonFiles_keys hload ▸ dir.nodup
      rw [hload']
      cases data with
      | nil =>
          rw [hperm'.symm.eq_nil]
      | cons machine machines =>
          cases data' with
          | nil => exact absurd hperm'.eq_nil (List.cons_ne_nil _ _)
          | cons machine' machines' =>
              dsimp only
              unfold generateBandwidthGraph generateLatencyGraph
              rw [generateGraph_perm hperm' hdata, generateGraph_perm hperm' hdata]

/-- A file with one latency of a microsecond. -/
def microsecond (machine benchmark : String) : String × String :=
  (machine, "\x7b\"latency\": [\x7b\"name\": \"" ++ benchmark ++
    "\", \"average\": 1e-6, \"stddev\": 0\x7d]\x7d")

/-- Two files, listed in either order, and the graph drawn of both. -/
theorem main_perm_two :
    ∃ dir dir' : ResultsDir,
      dir.files = [microsecond "hill" "latency_statfs", microsecond "lake" "latency_getpid"] ∧
      dir'.files = [microsecond "lake" "latency_getpid", microsecond "hill" "latency_statfs"] ∧
      main dir = main dir' ∧
      main dir' = .graphs ⟨2 / 5, [], [⟨"hill", 0, []⟩, ⟨"lake", 1, []⟩], false⟩
        ⟨2 / 5, [(1 / 5, "getpid"), (6 / 5, "statfs")],
          [⟨"hill", 0, [⟨0, 0, 0⟩, ⟨1, 1000, 0⟩]⟩, ⟨"lake", 1, [⟨2 / 5, 1000, 0⟩, ⟨7 / 5, 0, 0⟩]⟩],
          false⟩ :=
  ⟨⟨_, by decide⟩, ⟨_, by decide⟩, rfl, rfl,
    main_perm ⟨[microsecond "hill" "latency_statfs", microsecond "lake" "latency_getpid"],
      by decide⟩ ⟨[microsecond "lake" "latency_getpid", microsecond "hill" "latency_statfs"],
      by decide⟩ (.swap _ _ []), by decide +kernel⟩

end

end

end Akbench.Graphs
