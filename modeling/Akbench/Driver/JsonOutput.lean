/-
  Akbench.Driver.JsonOutput
  ─────────────────────────
  **WHAT `--json-output` PRINTS.**

  `OutputJsonResults` prints an array of objects, `OutputJsonDictionary` an
  object of two such arrays, all line by line.  A double is printed by `{:e}`:
  a finite one in scientific notation, any other as a word.  What `{:e}` makes
  of the doubles of a result is the parameter `format`.

    • `parse_outputJsonResults`, `parse_outputJsonDictionary` — what a JSON
      parser makes of the two texts, for any results;
    • `json_faithful_iff` — when it gets back what was printed.
-/
import Akbench.Driver.Dispatch
import Akbench.Lib.Json

namespace Akbench.Driver

open Json (Reads IsSpace IsPlain IsRun)

/-! ## §1. `{:e}`. -/

/-- A finite double as `{:e}` prints it. -/
structure Scientific where
  negative : Bool
  lead : Fin 10
  fraction : List (Fin 10)
  fraction_ne : fraction ≠ []
  expNegative : Bool
  exponent : List (Fin 10)
  exponent_ne : exponent ≠ []

/-- A double as `{:e}` prints it. -/
inductive Formatted where
  | finite (x : Scientific)
  | inf (negative : Bool)
  | nan (negative : Bool)

def digitChars (ds : List (Fin 10)) : List Char := ds.map fun d : Fin 10 => Nat.digitChar d.val

/-- `[-]d.dddddde±dd`. -/
def Scientific.text (x : Scientific) : String :=
  (if x.negative then "-" else "") ++ String.ofList (digitChars [x.lead]) ++ "." ++
    String.ofList (digitChars x.fraction) ++ "e" ++ (if x.expNegative then "-" else "+") ++
    String.ofList (digitChars x.exponent)

/-- The text. -/
def Formatted.text : Formatted → String
  | finite x => x.text
  | inf negative => if negative then "-inf" else "inf"
  | nan negative => if negative then "-nan" else "nan"

/-- The number some digits denote. -/
def digitsValue (ds : List (Fin 10)) : Nat := ds.foldl (fun n (d : Fin 10) => 10 * n + d.val) 0

/-- The number printed, that is the double up to the rounding of `{:e}`. -/
def Scientific.value (x : Scientific) : ℚ :=
  (if x.negative then -1 else 1) * digitsValue (x.lead :: x.fraction) *
    10 ^ ((if x.expNegative then -(digitsValue x.exponent : Int) else digitsValue x.exponent) -
      x.fraction.length)

/-- The number printed, if it is one. -/
def Formatted.number : Formatted → Option ℚ
  | finite x => some x.value
  | inf _ => none
  | nan _ => none

/-! ## §2. The output functions. -/

section

variable {K : Type*} (format : K → Formatted)

/-- One element of the arrays, up to its closing line. -/
def jsonEntry (indent unit : String) (entry : String × BenchmarkResult K) : String :=
  indent ++ "\x7b\n" ++
    (indent ++ "  \"name\": \"" ++ entry.1 ++ "\",\n") ++
    (indent ++ "  \"average\": " ++ (format entry.2.average).text ++ ",\n") ++
    (indent ++ "  \"stddev\": " ++ (format entry.2.stddev).text ++ ",\n") ++
    (indent ++ "  \"unit\": \"" ++ unit ++ "\"\n")

/-- `for (size_t i = 0; i < results.size(); ++i)`, from `i` on. -/
def jsonEntries (indent unit : String) (size : Nat) :
    Nat → List (String × BenchmarkResult K) → String
  | _, [] => ""
  | i, entry :: rest =>
      jsonEntry format indent unit entry ++
        -- `size() - 1` is unsigned, and never taken of an empty list
        (if i < sub64 size 1 then indent ++ "\x7d,\n" else indent ++ "\x7d\n") ++
        jsonEntries indent unit size (i + 1) rest

/-- `OutputJsonResults`. -/
def outputJsonResults (results : List (String × BenchmarkResult K)) (unit : String) : String :=
  "[\n" ++ jsonEntries format "  " unit results.length 0 results ++ "]\n"

/-- `OutputJsonDictionary`. -/
def outputJsonDictionary (latencyResults bandwidthResults : List (String × BenchmarkResult K)) :
    String :=
  "\x7b\n" ++ "  \"latency\": [\n" ++
    jsonEntries format "    " "sec" latencyResults.length 0 latencyResults ++ "  ],\n" ++
    "  \"bandwidth\": [\n" ++
    jsonEntries format "    " "Byte/sec" bandwidthResults.length 0 bandwidthResults ++ "  ]\n" ++
    "\x7d\n"

/-! ## §3. What is meant. -/

/-- The JSON object of an entry; there is none where a number is missing. -/
def entryJson (unit : String) (entry : String × BenchmarkResult K) : Option Json :=
  (format entry.2.average).number.bind fun average =>
    (format entry.2.stddev).number.map fun stddev =>
      .obj [("name", .str entry.1), ("average", .num average), ("stddev", .num stddev),
        ("unit", .str unit)]

end

/-! ## §4. Numbers. -/

theorem isRun_digitChars {ds : List (Fin 10)} (hne : ds ≠ []) : IsRun (digitChars ds) := by
  have hdigit : ∀ d : Fin 10, (Nat.digitChar d.val).isDigit = true := by decide
  unfold digitChars
  refine ⟨by simpa using hne, ?_⟩
  intro c hc
  obtain ⟨d, _, rfl⟩ := List.mem_map.mp hc
  exact hdigit d

theorem ofDigitChars_digitChars (ds : List (Fin 10)) (n : Nat) :
    Nat.ofDigitChars 10 (digitChars ds) n = ds.foldl (fun n (d : Fin 10) => 10 * n + d.val) n := by
  induction ds generalizing n with
  | nil => rfl
  | cons d ds ih =>
      rw [List.foldl_cons, ← ih]
      exact Nat.ofDigitChars_cons_digitChar_of_lt_ten d.isLt

theorem scientific_eq_value (x : Scientific) :
    Json.scientific x.negative (Nat.digitChar x.lead.val) (digitChars x.fraction) x.expNegative
      (digitChars x.exponent) = x.value := by
  have hwhole := ofDigitChars_digitChars (x.lead :: x.fraction) 0
  have hexp := ofDigitChars_digitChars x.exponent 0
  unfold Json.scientific Scientific.value Json.signed digitsValue
  rw [hexp, ← hwhole]
  simp [digitChars]

/-- **A double reads as the number printed**, and where it is none the text is
no JSON. -/
theorem reads_formatted (f : Formatted) (fuel : Nat) :
    Reads (Json.value (fuel + 1)) f.text.toList (f.number.map Json.num) := by
  cases f with
  | finite x =>
      have hlead : (Nat.digitChar x.lead.val).isDigit = true := by
        have hdigit : ∀ d : Fin 10, (Nat.digitChar d.val).isDigit = true := by decide
        exact hdigit x.lead
      have hread := Json.reads_scientific x.negative x.expNegative hlead
        (isRun_digitChars x.fraction_ne) (isRun_digitChars x.exponent_ne) fuel
      have htext : (Formatted.finite x).text.toList =
          Json.minusText x.negative ++ Nat.digitChar x.lead.val :: '.' ::
            (digitChars x.fraction ++ 'e' ::
              (Json.signText x.expNegative ++ digitChars x.exponent)) := by
        unfold Json.minusText Json.signText
        show x.text.toList = _
        unfold Scientific.text
        cases x.negative <;> cases x.expNegative <;> simp [digitChars]
      rw [htext]
      rw [scientific_eq_value] at hread
      exact hread
  | inf negative =>
      intro rest _
      cases negative with
      | true => simp [Formatted.text, Formatted.number]; rfl
      | false => simp [Formatted.text, Formatted.number]; rfl
  | nan negative =>
      intro rest _
      cases negative with
      | true => simp [Formatted.text, Formatted.number]; rfl
      | false => simp [Formatted.text, Formatted.number]; rfl

/-! ## §5. One entry. -/

section

variable {K : Type*} {format : K → Formatted} {indent unit : String}
variable {entry : String × BenchmarkResult K}

/-- A name and its value on a line of their own, as text and as what it is. -/
def line (indent name : String) (value : List Char) (o : Option Json) :
    List Char × Option (String × Json) :=
  (('\n' :: indent.toList ++ [' ', ' ']) ++ '"' :: (name.toList ++ '"' :: ':' :: ' ' :: value),
    o.map fun v => (name, v))

/-- The four lines of an entry. -/
def lines (format : K → Formatted) (indent unit : String) (entry : String × BenchmarkResult K) :
    List (List Char × Option (String × Json)) :=
  [line indent "name" ('"' :: (entry.1.toList ++ ['"'])) (some (.str entry.1)),
    line indent "average" (format entry.2.average).text.toList
      ((format entry.2.average).number.map Json.num),
    line indent "stddev" (format entry.2.stddev).text.toList
      ((format entry.2.stddev).number.map Json.num),
    line indent "unit" ('"' :: (unit.toList ++ ['"'])) (some (.str unit))]

/-- An entry and its closing brace, on lines of their own. -/
def entryText (format : K → Formatted) (indent unit : String)
    (entry : String × BenchmarkResult K) : List Char :=
  ('\n' :: indent.toList) ++ '{' :: ([','].intercalate ((lines format indent unit entry).map
    Prod.fst) ++ (('\n' :: indent.toList) ++ ['}']))

theorem isSpace_newline {gap : List Char} (h : IsSpace gap) : IsSpace ('\n' :: gap) := by
  intro c hc
  rcases List.mem_cons.mp hc with rfl | hmem
  · rfl
  · exact h c hmem

theorem isSpace_indent (h : IsSpace indent.toList) :
    IsSpace ('\n' :: indent.toList ++ [' ', ' ']) := by
  intro c hc
  rcases List.mem_append.mp hc with hmem | hmem
  · exact isSpace_newline h c hmem
  · simp only [List.mem_cons, List.not_mem_nil, or_false, or_self] at hmem
    rw [hmem]
    rfl

theorem line_reads {name : String} {value : List Char} {o : Option Json} {fuel : Nat}
    (hindent : IsSpace indent.toList) (hname : IsPlain name.toList)
    (h : Reads (Json.value fuel) value o) :
    Reads (Json.member (Json.value fuel)) (line indent name value o).1
      (line indent name value o).2 := by
  have hblank : IsSpace [' '] := by
    intro c hc
    rw [List.mem_singleton.mp hc]
    rfl
  exact Json.reads_member hname (isSpace_indent hindent) (h.after_space hblank)

/-- A line starts with a quote. -/
theorem line_first {name : String} {value : List Char} {o : Option Json}
    (hindent : IsSpace indent.toList) (s : List Char) :
    ∃ c tail, Json.skipSpace ((line indent name value o).1 ++ s) = c :: tail ∧ c ≠ '}' := by
  unfold line
  rw [List.append_assoc, Json.skipSpace_append (isSpace_indent hindent), List.cons_append,
    Json.skipSpace_cons (by decide)]
  exact ⟨_, _, rfl, by decide⟩

/-- **An entry reads as its object**, and fails where a number is missing. -/
theorem entry_reads (hindent : IsSpace indent.toList) (hname : IsPlain entry.1.toList)
    (hunit : IsPlain unit.toList) (fuel : Nat) :
    Reads (Json.value (fuel + 2)) (entryText format indent unit entry)
      (entryJson format unit entry) := by
  have hplain : IsPlain "name".toList ∧ IsPlain "average".toList ∧ IsPlain "stddev".toList ∧
      IsPlain "unit".toList := by
    decide
  have hlines : ∀ l, l ∈ lines format indent unit entry →
      Reads (Json.member (Json.value (fuel + 1))) l.1 l.2 := by
    intro l hl
    simp only [lines, List.mem_cons, List.not_mem_nil, or_false] at hl
    -- a string, two numbers that may be missing, a string
    rcases hl with rfl | rfl | rfl | rfl
    · exact line_reads hindent hplain.1 (Json.reads_str hname fuel)
    · exact line_reads hindent hplain.2.1 (reads_formatted _ fuel)
    · exact line_reads hindent hplain.2.2.1 (reads_formatted _ fuel)
    · exact line_reads hindent hplain.2.2.2 (Json.reads_str hunit fuel)
  have hfirst : ∀ l, l ∈ lines format indent unit entry → ∀ s,
      ∃ c tail, Json.skipSpace (l.1 ++ s) = c :: tail ∧ c ≠ '}' := by
    intro l hl s
    simp only [lines, List.mem_cons, List.not_mem_nil, or_false] at hl
    rcases hl with rfl | rfl | rfl | rfl
    all_goals exact line_first hindent s
  have hobject := Json.reads_obj (Json.bracketed_reads (.inr rfl) (isSpace_newline hindent)
    hlines hfirst)
  have hjson : ((lines format indent unit entry).mapM Prod.snd).map Json.obj =
      entryJson format unit entry := by
    unfold lines line entryJson
    cases (format entry.2.average).number with
    | none => rfl
    | some average =>
        cases (format entry.2.stddev).number with
        | none => rfl
        | some stddev => rfl
  rw [hjson] at hobject
  exact hobject.after_space (isSpace_newline hindent)

/-! ## §6. All entries. -/

/-- The lines of the source make up the text of an entry. -/
theorem jsonEntry_toList (format : K → Formatted) (indent unit : String)
    (entry : String × BenchmarkResult K) :
    '\n' :: (jsonEntry format indent unit entry ++ indent ++ "\x7d").toList =
      entryText format indent unit entry := by
  unfold jsonEntry entryText lines line
  simp

/-- **The loop puts commas between the entries**, and none behind the last. -/
theorem jsonEntries_toList (format : K → Formatted) (indent unit : String) (size i : Nat)
    (results : List (String × BenchmarkResult K)) (hsize : i + results.length = size) :
    '\n' :: (jsonEntries format indent unit size i results).toList =
      [','].intercalate (results.map (entryText format indent unit)) ++ ['\n'] := by
  induction results generalizing i with
  | nil => rfl
  | cons entry rest ih =>
      -- here `size` is not 0, so the subtraction does not wrap
      have htail := ih (i + 1) (by simp only [List.length_cons] at hsize; omega)
      have hlast : sub64 size 1 = size - 1 := by
        apply sub64_eq
        simp only [List.length_cons] at hsize
        omega
      have hentry := jsonEntry_toList format indent unit entry
      rw [jsonEntries, hlast]
      cases rest with
      | nil =>
          -- the last entry: `i` is `size - 1`
          rw [if_neg (by simp only [List.length_cons, List.length_nil] at hsize; omega)]
          simp only [List.map_cons, List.map_nil, List.intercalate_singleton, ← hentry]
          simp [jsonEntries]
      | cons entry' rest =>
          rw [if_pos (by simp only [List.length_cons] at hsize; omega)]
          rw [List.map_cons, List.map_cons, List.intercalate_cons_cons, ← List.map_cons,
            List.append_assoc, ← htail, ← hentry]
          simp

theorem mapM_entryText (unit : String) (results : List (String × BenchmarkResult K)) :
    (results.map fun entry => (entryText format indent unit entry,
        entryJson format unit entry)).mapM Prod.snd =
      results.mapM (entryJson format unit) := by
  induction results with
  | nil => rfl
  | cons entry rest ih => rw [List.map_cons, List.mapM_cons, List.mapM_cons, ih]

/-- **An array of entries** between its brackets. -/
theorem entries_read (format : K → Formatted) {outer : List Char} (hindent : IsSpace indent.toList)
    (houter : IsSpace outer) (hunit : IsPlain unit.toList)
    (results : List (String × BenchmarkResult K))
    (hnames : ∀ entry, entry ∈ results → IsPlain entry.1.toList) (fuel : Nat) :
    Reads (Json.value (fuel + 3))
      ('[' :: ('\n' :: (jsonEntries format indent unit results.length 0 results).toList ++
        (outer ++ [']'])))
      ((results.mapM (entryJson format unit)).map Json.arr) := by
  have hclose : IsSpace ('\n' :: outer) := isSpace_newline houter
  -- each entry with the object it reads as
  obtain ⟨items, hitems⟩ : ∃ items, items = results.map fun entry =>
      (entryText format indent unit entry, entryJson format unit entry) := ⟨_, rfl⟩
  have hreads : Reads (Json.value (fuel + 3))
      ('[' :: ([','].intercalate (items.map Prod.fst) ++ (('\n' :: outer) ++ [']'])))
      ((items.mapM Prod.snd).map Json.arr) := by
    apply Json.reads_arr
    apply Json.bracketed_reads (.inl rfl) hclose
    · intro p hp
      rw [hitems] at hp
      obtain ⟨entry, hentry, rfl⟩ := List.mem_map.mp hp
      exact entry_reads hindent (hnames entry hentry) hunit fuel
    · intro p hp s
      rw [hitems] at hp
      obtain ⟨entry, _, rfl⟩ := List.mem_map.mp hp
      unfold entryText
      rw [List.append_assoc, Json.skipSpace_append (isSpace_newline hindent), List.cons_append,
        Json.skipSpace_cons (by decide)]
      exact ⟨_, _, rfl, by decide⟩
  rw [hitems, mapM_entryText] at hreads
  have htext := jsonEntries_toList format indent unit results.length 0 results (Nat.zero_add _)
  rw [htext]
  simpa [List.map_map, Function.comp_def] using hreads

/-! ## §7. The two texts. -/

/-- **What a JSON parser makes of `OutputJsonResults`.** -/
theorem parse_outputJsonResults (format : K → Formatted)
    (results : List (String × BenchmarkResult K))
    (hnames : ∀ entry, entry ∈ results → IsPlain entry.1.toList) (hunit : IsPlain unit.toList) :
    Json.parse (outputJsonResults format results unit) =
      (results.mapM (entryJson format unit)).map Json.arr := by
  have hindent : IsSpace "  ".toList := by decide
  have htext : (outputJsonResults format results unit).toList =
      '[' :: ('\n' :: (jsonEntries format "  " unit results.length 0 results).toList ++
        ([] ++ [']'])) ++ ['\n'] := by
    unfold outputJsonResults
    simp
  -- three levels: the array, its objects, their values
  obtain ⟨fuel, hfuel⟩ : ∃ n, (outputJsonResults format results unit).toList.length = n + 3 := by
    rw [htext]
    exact ⟨_, by simp; rfl⟩
  apply Json.parse_eq ['\n'] (by decide) htext
  rw [hfuel]
  have hnone : IsSpace [] := by
    intro c hc
    cases hc
  exact entries_read format hindent hnone hunit results hnames fuel

/-- **What a JSON parser makes of `OutputJsonDictionary`.** -/
theorem parse_outputJsonDictionary (format : K → Formatted)
    (latencyResults bandwidthResults : List (String × BenchmarkResult K))
    (hlatency : ∀ entry, entry ∈ latencyResults → IsPlain entry.1.toList)
    (hbandwidth : ∀ entry, entry ∈ bandwidthResults → IsPlain entry.1.toList) :
    Json.parse (outputJsonDictionary format latencyResults bandwidthResults) =
      (latencyResults.mapM (entryJson format "sec")).bind fun ls =>
        (bandwidthResults.mapM (entryJson format "Byte/sec")).map fun bs =>
          .obj [("latency", .arr ls), ("bandwidth", .arr bs)] := by
  have hindent : IsSpace "    ".toList := by decide
  have houter : IsSpace [' ', ' '] := by decide
  have hnone : IsSpace "".toList := by decide
  have hplain : IsPlain "latency".toList ∧ IsPlain "bandwidth".toList ∧ IsPlain "sec".toList ∧
      IsPlain "Byte/sec".toList := by
    decide
  obtain ⟨hln, hbn, hsec, hbyte⟩ := hplain
  have hlatencyReads := entries_read format hindent houter hsec latencyResults hlatency
  have hbandwidthReads := entries_read format hindent houter hbyte bandwidthResults
    hbandwidth
  generalize hls : '[' :: ('\n' :: (jsonEntries format "    " "sec" latencyResults.length 0
    latencyResults).toList ++ ([' ', ' '] ++ [']'])) = latencyText at hlatencyReads
  generalize hbs : '[' :: ('\n' :: (jsonEntries format "    " "Byte/sec" bandwidthResults.length 0
    bandwidthResults).toList ++ ([' ', ' '] ++ [']'])) = bandwidthText at hbandwidthReads
  generalize latencyResults.mapM (entryJson format "sec") = ls at hlatencyReads ⊢
  generalize bandwidthResults.mapM (entryJson format "Byte/sec") = bs at hbandwidthReads ⊢
  -- the dictionary has two lines, each with an array for its value
  have hobject : ∀ fuel, Reads (Json.value (fuel + 4))
      ('{' :: ([','].intercalate ([line "" "latency" latencyText (ls.map Json.arr),
        line "" "bandwidth" bandwidthText (bs.map Json.arr)].map Prod.fst) ++
          (['\n'] ++ ['}'])))
      (([line "" "latency" latencyText (ls.map Json.arr),
        line "" "bandwidth" bandwidthText (bs.map Json.arr)].mapM Prod.snd).map Json.obj) := by
    intro fuel
    apply Json.reads_obj
    apply Json.bracketed_reads (.inr rfl) (isSpace_newline hnone)
    · intro l hl
      simp only [List.mem_cons, List.not_mem_nil, or_false] at hl
      rcases hl with rfl | rfl
      · exact line_reads hnone hln (hlatencyReads fuel)
      · exact line_reads hnone hbn (hbandwidthReads fuel)
    · intro l hl s
      simp only [List.mem_cons, List.not_mem_nil, or_false] at hl
      rcases hl with rfl | rfl
      all_goals exact line_first hnone s
  have htext : (outputJsonDictionary format latencyResults bandwidthResults).toList =
      '{' :: ([','].intercalate ([line "" "latency" latencyText (ls.map Json.arr),
        line "" "bandwidth" bandwidthText (bs.map Json.arr)].map Prod.fst) ++
          (['\n'] ++ ['}'])) ++ ['\n'] := by
    unfold outputJsonDictionary line
    rw [← hls, ← hbs]
    simp
  obtain ⟨fuel, hfuel⟩ :
      ∃ n, (outputJsonDictionary format latencyResults bandwidthResults).toList.length = n + 4 := by
    rw [htext]
    exact ⟨_, by simp [line]; rfl⟩
  rw [Json.parse_eq ['\n'] (by decide) htext (hfuel ▸ hobject fuel)]
  -- an array that is missing leaves no dictionary
  cases ls with
  | none => rfl
  | some ls =>
      cases bs with
      | none => rfl
      | some bs => rfl

/-! ## §8. Round trips. -/

/-- A double that `{:e}` prints as a number. -/
def Formatted.IsFinite : Formatted → Prop
  | finite _ => True
  | inf _ => False
  | nan _ => False

/-- No result is infinite or not a number. -/
def AllFinite (format : K → Formatted) (results : List (String × BenchmarkResult K)) : Prop :=
  ∀ entry, entry ∈ results →
    (format entry.2.average).IsFinite ∧ (format entry.2.stddev).IsFinite

/-- The object of an entry: its name, its unit, and its numbers up to the
rounding of `{:e}`. -/
def Represents (format : K → Formatted) (unit : String) (entry : String × BenchmarkResult K)
    (j : Json) : Prop :=
  ∃ average stddev, format entry.2.average = .finite average ∧
    format entry.2.stddev = .finite stddev ∧
      j = .obj [("name", .str entry.1), ("average", .num average.value),
        ("stddev", .num stddev.value), ("unit", .str unit)]

/-- The array of these entries, in their order. -/
def RepresentsAll (format : K → Formatted) (unit : String)
    (results : List (String × BenchmarkResult K)) (j : Json) : Prop :=
  ∃ js, j = .arr js ∧ List.Forall₂ (Represents format unit) results js

/-- `OutputJsonResults` prints a JSON text that decodes to its entries. -/
def FaithfulResults (format : K → Formatted) (results : List (String × BenchmarkResult K))
    (unit : String) : Prop :=
  ∃ j, Json.parse (outputJsonResults format results unit) = some j ∧
    RepresentsAll format unit results j

/-- `OutputJsonDictionary` does. -/
def FaithfulDictionary (format : K → Formatted)
    (latencyResults bandwidthResults : List (String × BenchmarkResult K)) : Prop :=
  ∃ l b, Json.parse (outputJsonDictionary format latencyResults bandwidthResults) =
      some (.obj [("latency", l), ("bandwidth", b)]) ∧
    RepresentsAll format "sec" latencyResults l ∧
      RepresentsAll format "Byte/sec" bandwidthResults b

theorem entryJson_eq_some_iff {j : Json} :
    entryJson format unit entry = some j ↔ Represents format unit entry j := by
  unfold entryJson Represents
  cases format entry.2.average with
  | finite average =>
      cases format entry.2.stddev with
      | finite stddev => simp [Formatted.number, eq_comm]
      | inf negative => simp [Formatted.number]
      | nan negative => simp [Formatted.number]
  | inf negative => simp [Formatted.number]
  | nan negative => simp [Formatted.number]

/-- An entry has an object if both numbers are there. -/
theorem entryJson_eq_none_iff :
    entryJson format unit entry = none ↔
      ¬ ((format entry.2.average).IsFinite ∧ (format entry.2.stddev).IsFinite) := by
  unfold entryJson
  cases format entry.2.average with
  | finite average =>
      cases format entry.2.stddev with
      | finite stddev => simp [Formatted.number, Formatted.IsFinite]
      | inf negative => simp [Formatted.number, Formatted.IsFinite]
      | nan negative => simp [Formatted.number, Formatted.IsFinite]
  | inf negative => simp [Formatted.number, Formatted.IsFinite]
  | nan negative => simp [Formatted.number, Formatted.IsFinite]

theorem mapM_entryJson_eq_some_iff {results : List (String × BenchmarkResult K)}
    {js : List Json} :
    results.mapM (entryJson format unit) = some js ↔
      List.Forall₂ (Represents format unit) results js := by
  induction results generalizing js with
  | nil => simp [eq_comm]
  | cons entry rest ih =>
      rw [List.mapM_cons, List.forall₂_cons_left_iff]
      simp only [Option.bind_eq_bind, Option.bind_eq_some_iff, Option.pure_def, Option.some_inj,
        entryJson_eq_some_iff, ih]
      constructor
      · rintro ⟨j, hj, js', hjs', rfl⟩
        exact ⟨j, js', hj, hjs', rfl⟩
      · rintro ⟨j, js', hj, hjs', rfl⟩
        exact ⟨j, hj, js', hjs', rfl⟩

theorem mapM_entryJson_eq_none_iff {results : List (String × BenchmarkResult K)} :
    results.mapM (entryJson format unit) = none ↔ ¬ AllFinite format results := by
  unfold AllFinite
  induction results with
  | nil => simp
  | cons entry rest ih =>
      rw [List.mapM_cons, List.forall_mem_cons, not_and_or, ← ih,
        ← entryJson_eq_none_iff]
      cases entryJson format unit entry with
      | none => simp
      | some j =>
          cases rest.mapM (entryJson format unit) with
          | none => simp
          | some js => simp

/-- **Without JSON numbers the array is no JSON at all.** -/
theorem outputJsonResults_malformed {results : List (String × BenchmarkResult K)}
    (hnames : ∀ entry, entry ∈ results → IsPlain entry.1.toList) (hunit : IsPlain unit.toList)
    (h : ¬ AllFinite format results) :
    Json.parse (outputJsonResults format results unit) = none := by
  rw [parse_outputJsonResults format results hnames hunit, mapM_entryJson_eq_none_iff.mpr h]
  rfl

theorem faithfulResults_iff {results : List (String × BenchmarkResult K)}
    (hnames : ∀ entry, entry ∈ results → IsPlain entry.1.toList) (hunit : IsPlain unit.toList) :
    FaithfulResults format results unit ↔ AllFinite format results := by
  constructor
  · rintro ⟨j, hj, _⟩
    by_contra hmissing
    rw [outputJsonResults_malformed hnames hunit hmissing] at hj
    cases hj
  · intro hfinite
    cases hresults : results.mapM (entryJson format unit) with
    | none => exact absurd hfinite (mapM_entryJson_eq_none_iff.mp hresults)
    | some js =>
        refine ⟨.arr js, ?_, js, rfl, mapM_entryJson_eq_some_iff.mp hresults⟩
        rw [parse_outputJsonResults format results hnames hunit, hresults]
        rfl

/-- Nor is the dictionary. -/
theorem outputJsonDictionary_malformed {latencyResults bandwidthResults :
      List (String × BenchmarkResult K)}
    (hlatency : ∀ entry, entry ∈ latencyResults → IsPlain entry.1.toList)
    (hbandwidth : ∀ entry, entry ∈ bandwidthResults → IsPlain entry.1.toList)
    (h : ¬ (AllFinite format latencyResults ∧ AllFinite format bandwidthResults)) :
    Json.parse (outputJsonDictionary format latencyResults bandwidthResults) = none := by
  rw [parse_outputJsonDictionary format latencyResults bandwidthResults hlatency hbandwidth]
  rcases not_and_or.mp h with hmissing | hmissing
  · rw [mapM_entryJson_eq_none_iff.mpr hmissing]
    rfl
  · rw [mapM_entryJson_eq_none_iff.mpr hmissing]
    cases latencyResults.mapM (entryJson format "sec") with
    | none => rfl
    | some ls => rfl

theorem faithfulDictionary_iff {latencyResults bandwidthResults :
      List (String × BenchmarkResult K)}
    (hlatency : ∀ entry, entry ∈ latencyResults → IsPlain entry.1.toList)
    (hbandwidth : ∀ entry, entry ∈ bandwidthResults → IsPlain entry.1.toList) :
    FaithfulDictionary format latencyResults bandwidthResults ↔
      AllFinite format latencyResults ∧ AllFinite format bandwidthResults := by
  constructor
  · rintro ⟨l, b, hlb, _, _⟩
    by_contra hmissing
    rw [outputJsonDictionary_malformed hlatency hbandwidth hmissing] at hlb
    cases hlb
  · rintro ⟨hfiniteL, hfiniteB⟩
    cases hlatencyJson : latencyResults.mapM (entryJson format "sec") with
    | none => exact absurd hfiniteL (mapM_entryJson_eq_none_iff.mp hlatencyJson)
    | some ls =>
        cases hbandwidthJson : bandwidthResults.mapM (entryJson format "Byte/sec") with
        | none => exact absurd hfiniteB (mapM_entryJson_eq_none_iff.mp hbandwidthJson)
        | some bs =>
            have hparse :=
              parse_outputJsonDictionary format latencyResults bandwidthResults hlatency hbandwidth
            rw [hlatencyJson, hbandwidthJson] at hparse
            exact ⟨.arr ls, .arr bs, hparse, ⟨ls, rfl, mapM_entryJson_eq_some_iff.mp hlatencyJson⟩,
              ⟨bs, rfl, mapM_entryJson_eq_some_iff.mp hbandwidthJson⟩⟩

/-- **The JSON output is faithful** exactly when every number in it is
finite. -/
theorem json_faithful_iff (format : K → Formatted)
    (results latencyResults bandwidthResults : List (String × BenchmarkResult K)) (unit : String)
    (hresults : ∀ entry, entry ∈ results → IsPlain entry.1.toList)
    (hlatency : ∀ entry, entry ∈ latencyResults → IsPlain entry.1.toList)
    (hbandwidth : ∀ entry, entry ∈ bandwidthResults → IsPlain entry.1.toList)
    (hunit : IsPlain unit.toList) :
    (FaithfulResults format results unit ↔ AllFinite format results) ∧
      (FaithfulDictionary format latencyResults bandwidthResults ↔
        AllFinite format latencyResults ∧ AllFinite format bandwidthResults) :=
  ⟨faithfulResults_iff hresults hunit, faithfulDictionary_iff hlatency hbandwidth⟩

end

/-- `1.500000e-07`. -/
def sampleNumber : Formatted :=
  .finite ⟨false, 1, [5, 0, 0, 0, 0, 0], by decide, true, [0, 7], by decide⟩

/-- Both numbers of a result. -/
def sampleResult : BenchmarkResult Formatted := ⟨sampleNumber, sampleNumber⟩

/-- Two results, with a comma between them, and a dictionary of two arrays. -/
theorem json_faithful_two :
    FaithfulResults id [("latency_barrier", sampleResult), ("latency_getpid", sampleResult)]
        "sec" ∧
      FaithfulDictionary id
        [("latency_barrier", sampleResult), ("latency_getpid", sampleResult)]
        [("bandwidth_memcpy", sampleResult), ("bandwidth_pipe", sampleResult)] := by
  have hfinite : ∀ name name', AllFinite id [(name, sampleResult), (name', sampleResult)] := by
    intro name name'
    exact List.forall_mem_cons.mpr ⟨⟨trivial, trivial⟩,
      List.forall_mem_singleton.mpr ⟨trivial, trivial⟩⟩
  obtain ⟨hresults, hdictionary⟩ := json_faithful_iff id
    [("latency_barrier", sampleResult), ("latency_getpid", sampleResult)]
    [("latency_barrier", sampleResult), ("latency_getpid", sampleResult)]
    [("bandwidth_memcpy", sampleResult), ("bandwidth_pipe", sampleResult)] "sec"
    (by decide) (by decide) (by decide) (by decide)
  exact ⟨hresults.mpr (hfinite _ _), hdictionary.mpr ⟨hfinite _ _, hfinite _ _⟩⟩

/-- `akbench latency_getpid --loop-size=0 --json-output`: the times are
divided by zero, and what is printed is no JSON. -/
theorem json_not_faithful :
    outputJsonResults id [("latency_getpid", ⟨.inf false, .nan true⟩)] "sec" =
        "[\n  \x7b\n    \"name\": \"latency_getpid\",\n    \"average\": inf,\n" ++
          "    \"stddev\": -nan,\n    \"unit\": \"sec\"\n  \x7d\n]\n" ∧
      Json.parse (outputJsonResults id [("latency_getpid", ⟨.inf false, .nan true⟩)] "sec") =
        none ∧
      ¬ FaithfulResults id [("latency_getpid", ⟨.inf false, .nan true⟩)] "sec" := by
  have hnone : Json.parse
      (outputJsonResults id [("latency_getpid", ⟨.inf false, .nan true⟩)] "sec") = none := by
    apply outputJsonResults_malformed
    · intro entry hentry
      rw [List.mem_singleton.mp hentry]
      decide
    · decide
    · intro hfinite
      exact (hfinite _ List.mem_cons_self).1
  refine ⟨by decide, hnone, ?_⟩
  rintro ⟨j, hj, _⟩
  rw [hnone] at hj
  cases hj

/-! ## §9. What `main` prints. -/

section

variable {K : Type*} {format : K → Formatted} {s : Settings} {type : String}

theorem plain_singleton {key : String} {call : Call} (h : IsPlain key.toList) :
    ∀ entry, entry ∈ [(key, call)] → IsPlain entry.1.toList :=
  List.forall_mem_singleton.mpr h

/-- The keys of the latency chain have nothing to escape. -/
theorem latencyPlan_plain :
    ∀ entry, entry ∈ latencyPlan s type → IsPlain entry.1.toList := by
  unfold latencyPlan
  refine forall_mem_ite ?_ ?_
  · -- `latency_all`
    simp only [List.forall_mem_cons, List.not_mem_nil, false_imp_iff, implies_true, and_true]
    decide
  repeat refine forall_mem_ite (plain_singleton (by decide)) ?_
  exact List.forall_mem_nil _

/-- Nor have those of the bandwidth chain. -/
theorem bandwidthPlan_plain :
    ∀ entry, entry ∈ bandwidthPlan s type → IsPlain entry.1.toList := by
  have hthreads : ∀ entry, entry ∈ s.memcpyMtCalls → IsPlain entry.1.toList := by
    have hkeys : ∀ n, n ∈ [1, 2, 3, 4] →
        IsPlain ("bandwidth_memcpy_mt (" ++ toString n ++ " threads)").toList := by
      decide
    intro entry hentry
    obtain ⟨n, hn, rfl⟩ := List.mem_map.mp hentry
    exact hkeys n hn
  have htransport : ∀ entry, entry ∈ [("bandwidth_tcp", s.transportCall .tcp),
      ("bandwidth_uds", s.transportCall .uds), ("bandwidth_pipe", s.transportCall .pipe),
      ("bandwidth_fifo", s.transportCall .fifo), ("bandwidth_mq", s.transportCall .mq),
      ("bandwidth_mmap", s.transportCall .mmap), ("bandwidth_shm", s.transportCall .shm)] →
      IsPlain entry.1.toList := by
    simp only [List.forall_mem_cons, List.not_mem_nil, false_imp_iff, implies_true, and_true]
    decide
  unfold bandwidthPlan
  refine forall_mem_ite ?_ ?_
  · -- `bandwidth_all`
    rw [List.forall_mem_append, List.forall_mem_cons]
    have hmemcpy : IsPlain "bandwidth_memcpy".toList := by decide
    exact ⟨⟨hmemcpy, hthreads⟩, htransport⟩
  refine forall_mem_ite (plain_singleton (by decide)) ?_
  refine forall_mem_ite ?_ ?_
  · cases s.numThreads with
    | some n => exact plain_singleton (by decide)
    | none => exact hthreads
  repeat refine forall_mem_ite (plain_singleton (by decide)) ?_
  exact List.forall_mem_nil _

theorem assign_forall {P : String → Prop} {key : String} {result : BenchmarkResult K}
    {results : ResultMap K} (hkey : P key) (hresults : ∀ entry, entry ∈ results → P entry.1) :
    ∀ entry, entry ∈ assign key result results → P entry.1 := by
  induction results with
  | nil => exact List.forall_mem_singleton.mpr hkey
  | cons head rest ih =>
      obtain ⟨k, r⟩ := head
      rw [List.forall_mem_cons] at hresults
      unfold assign
      split
      next => exact List.forall_mem_cons.mpr ⟨hkey, hresults.2⟩
      next =>
        split
        next => exact List.forall_mem_cons.mpr ⟨hkey, List.forall_mem_cons.mpr hresults⟩
        next => exact List.forall_mem_cons.mpr ⟨hresults.1, ih hresults.2⟩

/-- The keys of the map are those of the plan. -/
theorem execute_forall {P : String → Prop} {runs : Runs K} {plan : List (String × Call)}
    {results m : ResultMap K} (h : (execute runs plan results).results = .ok m)
    (hplan : ∀ entry, entry ∈ plan → P entry.1)
    (hresults : ∀ entry, entry ∈ results → P entry.1) : ∀ entry, entry ∈ m → P entry.1 := by
  induction plan generalizing results with
  | nil =>
      have hm : (.ok results : Except Failure (ResultMap K)) = .ok m := h
      injection hm with hm
      rw [← hm]
      exact hresults
  | cons head rest ih =>
      obtain ⟨key, call⟩ := head
      rw [List.forall_mem_cons] at hplan
      cases hrun : runs call with
      | error failure =>
          simp only [execute, hrun] at h
          cases h
      | ok result =>
          simp only [execute, hrun] at h
          exact ih h hplan.2 (assign_forall hplan.1 hresults)

/-- The JSON text among what is printed. -/
def Printed.json (format : K → Formatted) : Printed K → Option String
  | .latency results true => some (outputJsonResults format results "sec")
  | .bandwidth results true => some (outputJsonResults format results "Byte/sec")
  | .all ls bs true => some (outputJsonDictionary format ls bs)
  | _ => none

/-- What holds of all results printed. -/
def Printed.Forall (P : String × BenchmarkResult K → Prop) : Printed K → Prop
  | .latency results _ => ∀ entry, entry ∈ results → P entry
  | .bandwidth results _ => ∀ entry, entry ∈ results → P entry
  | .all ls bs _ => (∀ entry, entry ∈ ls → P entry) ∧ ∀ entry, entry ∈ bs → P entry
  | _ => True

/-- **No name `main` prints has to be escaped.** -/
theorem dispatch_plain {runs : Runs K} {status : Nat} {printed : Printed K}
    (h : (dispatch runs s).ending = .ok (status, printed)) :
    printed.Forall fun entry => IsPlain entry.1.toList := by
  have hlatency : ∀ type m, (runLatencyBenchmarks runs s type).results = .ok m →
      ∀ entry, entry ∈ m → IsPlain entry.1.toList := by
    intro type m hm
    exact execute_forall (P := fun key => IsPlain key.toList) hm latencyPlan_plain nofun
  have hbandwidth : ∀ type m, (runBandwidthBenchmarks runs s type).results = .ok m →
      ∀ entry, entry ∈ m → IsPlain entry.1.toList := by
    intro type m hm
    exact execute_forall (P := fun key => IsPlain key.toList) hm bandwidthPlan_plain nofun
  unfold dispatch at h
  split_ifs at h with hall hl hb
  · dsimp only at h
    split at h
    next => cases h
    next ls hls =>
      obtain ⟨bs, hbs, heq⟩ := map_eq_ok h
      injection heq with _ heq
      subst heq
      exact ⟨hlatency _ _ hls, hbandwidth _ _ hbs⟩
  · obtain ⟨m, hm, heq⟩ := map_eq_ok h
    injection heq with _ heq
    subst heq
    unfold outputLatencyResults
    split
    next => trivial
    next => exact hlatency _ _ hm
  · obtain ⟨m, hm, heq⟩ := map_eq_ok h
    injection heq with _ heq
    subst heq
    unfold outputBandwidthResults
    split
    next => trivial
    next => exact hbandwidth _ _ hm
  · injection h with h
    injection h with _ h
    subst h
    trivial

/-- **`main --json-output` prints JSON** exactly when every number it prints
is finite. -/
theorem main_json_iff (format : K → Formatted) {overshift : Overshift} {runs : Runs K}
    {commandLine : CommandLine} {status : Nat} {printed : Printed K} {text : String}
    (h : (main overshift runs commandLine).ending = .ok (status, printed))
    (htext : printed.json format = some text) :
    (∃ j, Json.parse text = some j) ↔ printed.Forall fun entry =>
      (format entry.2.average).IsFinite ∧ (format entry.2.stddev).IsFinite := by
  have hplain : printed.Forall fun entry => IsPlain entry.1.toList := by
    unfold main at h
    split at h
    next =>
      injection h with h
      injection h with _ h
      subst h
      trivial
    next =>
      injection h with h
      injection h with _ h
      subst h
      trivial
    next => exact dispatch_plain h
  have hresults : ∀ results unit, IsPlain unit.toList →
      (∀ entry, entry ∈ results → IsPlain entry.1.toList) →
        ((∃ j, Json.parse (outputJsonResults format results unit) = some j) ↔
          AllFinite format results) := by
    intro results unit hunit hnames
    constructor
    · rintro ⟨j, hj⟩
      by_contra hmissing
      rw [outputJsonResults_malformed hnames hunit hmissing] at hj
      cases hj
    · intro hfinite
      obtain ⟨j, hj, _⟩ := (faithfulResults_iff hnames hunit).mpr hfinite
      exact ⟨j, hj⟩
  match printed, htext with
  | .latency results true, htext =>
      injection htext with htext
      rw [← htext]
      exact hresults results "sec" (by decide) hplain
  | .bandwidth results true, htext =>
      injection htext with htext
      rw [← htext]
      exact hresults results "Byte/sec" (by decide) hplain
  | .all ls bs true, htext =>
      injection htext with htext
      rw [← htext]
      constructor
      · rintro ⟨j, hj⟩
        by_contra hmissing
        rw [outputJsonDictionary_malformed hplain.1 hplain.2 hmissing] at hj
        cases hj
      · intro hfinite
        obtain ⟨l, b, hlb, _⟩ := (faithfulDictionary_iff hplain.1 hplain.2).mpr hfinite
        exact ⟨_, hlb⟩

end

end Akbench.Driver
