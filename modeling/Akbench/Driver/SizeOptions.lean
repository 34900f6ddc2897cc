/-
  Akbench.Driver.SizeOptions
  ──────────────────────────
  **WHAT `ParseUint64` ACCEPTS, AND WHAT IT MAKES OF IT.**

  The grammar is stated on its own: a run of digits, or two of them around
  the first `<<` of the string once the spaces are gone.  The parser accepts
  it up to the range of `uint64_t`; a shift expression may still denote more
  than it returns.

    • `fromCharsUint64_eq_some_iff` — a parse by `std::from_chars` that
      reaches the end of its string;
    • `splitShift_eq_some_iff` — the split at the first `<<`;
    • `parseUint64_grammar` — accepted strings are those of the grammar;
    • `parseUint64_exact_iff` — when the value is the one the string denotes.
-/
import Akbench.Driver.Getopt
import Mathlib.Data.List.TakeWhile

namespace Akbench.Driver

variable {s x y : List Char} {a b n : Nat}

/-! ## §1. The grammar. -/

/-- A non-empty run of decimal digits that denotes `n`. -/
def Denotes (s : List Char) (n : Nat) : Prop :=
  s ≠ [] ∧ (∀ c, c ∈ s → c.isDigit = true) ∧ n = Nat.ofDigitChars 10 s 0

/-- `std::remove` of all space characters. -/
def withoutSpaces (s : List Char) : List Char := s.filter (· ≠ ' ')

/-- `x` and `y` are what is before and after the first `<<` of `s`. -/
def SplitsAtShift (s x y : List Char) : Prop :=
  s = x ++ '<' :: '<' :: y ∧
    ∀ x' y', s = x' ++ '<' :: '<' :: y' → x.length ≤ x'.length

/-- The expression `a << b`, spaces anywhere. -/
def IsShift (s : List Char) (a b : Nat) : Prop :=
  ∃ x y, SplitsAtShift s x y ∧ Denotes (withoutSpaces x) a ∧ Denotes (withoutSpaces y) b

/-! ## §2. Numbers. -/

/-- What `std::from_chars` leaves. -/
inductive FromChars where
  /-- `ec == std::errc()`, and how far `ptr` is from the beginning. -/
  | parsed (value ptr : Nat)
  | outOfRange (ptr : Nat)
  | invalid
  deriving DecidableEq, Repr

/-- `std::from_chars` for a `uint64_t`: the longest run of digits counts. -/
def fromChars (s : List Char) : FromChars :=
  let run := s.takeWhile Char.isDigit
  if run = [] then .invalid
  else if Nat.ofDigitChars 10 run 0 < wordSize then .parsed (Nat.ofDigitChars 10 run 0) run.length
  else .outOfRange run.length

theorem decimal_eq_some_iff : decimal s = some n ↔ Denotes s n := by
  unfold decimal Denotes
  rw [← List.all_eq_true]
  split
  next h =>
    rw [Option.some_inj]
    exact ⟨fun hn => ⟨h.1, h.2, hn.symm⟩, fun hn => hn.2.2.symm⟩
  next h =>
    constructor
    · intro hn
      cases hn
    · intro hn
      exact absurd ⟨hn.1, hn.2.1⟩ h

theorem fromCharsUint64_iff : fromCharsUint64 s = some n ↔ Denotes s n ∧ n < wordSize := by
  unfold fromCharsUint64
  rw [← decimal_eq_some_iff]
  cases hs : decimal s with
  | none => simp
  | some m =>
      simp only [Option.some_inj]
      split
      next hlt =>
        rw [Option.some_inj]
        exact ⟨fun h => ⟨h, h ▸ hlt⟩, fun h => h.1⟩
      next hge =>
        constructor
        · intro h
          cases h
        · intro h
          omega

theorem fromCharsUint64_eq_none (h : ∀ n, Denotes s n → wordSize ≤ n) :
    fromCharsUint64 s = none := by
  rw [Option.eq_none_iff_forall_ne_some]
  intro n hn
  obtain ⟨hdenotes, hlt⟩ := fromCharsUint64_iff.mp hn
  have hge := h n hdenotes
  omega

/-- **A parse that reaches the end**: `ec == std::errc()` and `ptr` behind the
last character. -/
theorem fromCharsUint64_eq_some_iff :
    fromCharsUint64 s = some n ↔ fromChars s = .parsed n s.length := by
  rw [fromCharsUint64_iff]
  unfold fromChars
  have hprefix := List.takeWhile_prefix (l := s) Char.isDigit
  constructor
  · rintro ⟨⟨hne, hall, hn⟩, hlt⟩
    have hrun : s.takeWhile Char.isDigit = s := List.takeWhile_eq_self_iff.mpr hall
    simp only [hrun]
    rw [if_neg hne, if_pos (hn ▸ hlt), hn]
  · intro h
    dsimp only at h
    split at h
    next => cases h
    next hne =>
      split at h
      next hlt =>
        injection h with hn hlength
        have hrun : s.takeWhile Char.isDigit = s := hprefix.eq_of_length hlength
        rw [hrun] at hne hlt hn
        exact ⟨⟨hne, List.takeWhile_eq_self_iff.mp hrun, hn.symm⟩, hn ▸ hlt⟩
      next => cases h

/-! ## §3. The first `<<`. -/

/-- Where no `<<` begins the search goes on. -/
theorem splitShift_cons {c : Char} {rest : List Char}
    (h : ∀ tail, c :: rest ≠ '<' :: '<' :: tail) :
    splitShift (c :: rest) = (splitShift rest).map fun (front, back) => (c :: front, back) := by
  rw [splitShift]
  intro tail hc hrest
  exact h tail (by rw [hc, hrest])

theorem splitsAtShift_of_splitShift (h : splitShift s = some (x, y)) : SplitsAtShift s x y := by
  induction s generalizing x with
  | nil => cases h
  | cons c rest ih =>
      by_cases hhere : ∃ tail, c :: rest = '<' :: '<' :: tail
      · obtain ⟨tail, htail⟩ := hhere
        rw [htail, splitShift] at h
        injection h with h
        injection h with hx hy
        subst hx hy
        exact ⟨htail, fun _ _ _ => Nat.zero_le _⟩
      · have hnot : ∀ tail, c :: rest ≠ '<' :: '<' :: tail := fun tail ht => hhere ⟨tail, ht⟩
        rw [splitShift_cons hnot, Option.map_eq_some_iff] at h
        obtain ⟨⟨front, back⟩, hrest, heq⟩ := h
        injection heq with hx hy
        subst hx hy
        obtain ⟨hsplit, hfirst⟩ := ih hrest
        refine ⟨by rw [hsplit, List.cons_append], ?_⟩
        intro x' y' hs
        -- an earlier split of `c :: rest` would be one of `rest`
        cases x' with
        | nil => exact absurd hs (hnot y')
        | cons c' x' =>
            rw [List.cons_append] at hs
            injection hs with _ hs
            have hle := hfirst x' y' hs
            simp only [List.length_cons]
            omega

theorem splitShift_isSome (hs : s = x ++ '<' :: '<' :: y) : (splitShift s).isSome := by
  induction x generalizing s with
  | nil =>
      rw [hs, List.nil_append, splitShift]
      rfl
  | cons c x ih =>
      rw [List.cons_append] at hs
      by_cases hhere : ∃ tail, s = '<' :: '<' :: tail
      · obtain ⟨tail, htail⟩ := hhere
        rw [htail, splitShift]
        rfl
      · rw [hs, splitShift_cons fun tail ht => hhere ⟨tail, hs.trans ht⟩, Option.isSome_map]
        exact ih rfl

/-- There is one first `<<` at most. -/
theorem SplitsAtShift.unique {x' y' : List Char} (h : SplitsAtShift s x y)
    (h' : SplitsAtShift s x' y') : x = x' ∧ y = y' := by
  have hle := h.2 x' y' h'.1
  have hge := h'.2 x y h.1
  have happend : x ++ '<' :: '<' :: y = x' ++ '<' :: '<' :: y' := h.1.symm.trans h'.1
  obtain ⟨hx, hy⟩ := List.append_inj happend (by omega)
  simp only [List.cons.injEq, true_and] at hy
  exact ⟨hx, hy⟩

/-- **`splitShift` splits at the first `<<`.** -/
theorem splitShift_eq_some_iff : splitShift s = some (x, y) ↔ SplitsAtShift s x y := by
  constructor
  · exact splitsAtShift_of_splitShift
  · intro h
    obtain ⟨⟨x', y'⟩, hsome⟩ := Option.isSome_iff_exists.mp (splitShift_isSome h.1)
    obtain ⟨hx, hy⟩ := h.unique (splitsAtShift_of_splitShift hsome)
    rw [hsome, hx, hy]

/-! ## §4. What is accepted. -/

/-- The strings that have a value. -/
def InGrammar (s : List Char) : Prop :=
  (∃ n, Denotes s n ∧ n < wordSize) ∨ ∃ a b, IsShift s a b ∧ a < wordSize ∧ b < wordSize

theorem Denotes.unique {m : Nat} (h : Denotes s n) (h' : Denotes s m) : n = m :=
  h.2.2.trans h'.2.2.symm

theorem IsShift.unique {a' b' : Nat} (h : IsShift s a b) (h' : IsShift s a' b') :
    a = a' ∧ b = b' := by
  obtain ⟨x, y, hsplit, hx, hy⟩ := h
  obtain ⟨x', y', hsplit', hx', hy'⟩ := h'
  obtain ⟨hxx, hyy⟩ := hsplit.unique hsplit'
  subst hxx hyy
  exact ⟨hx.unique hx', hy.unique hy'⟩

/-- No digit is a `<`. -/
theorem IsShift.not_denotes (h : IsShift s a b) : ¬ Denotes s n := by
  intro hdenotes
  obtain ⟨x, y, hsplit, _, _⟩ := h
  have hmem : '<' ∈ s := by
    rw [hsplit.1]
    simp
  exact absurd (hdenotes.2.1 '<' hmem) (by decide)

theorem IsShift.ne_nil (h : IsShift s a b) : s ≠ [] := by
  obtain ⟨x, y, hsplit, _, _⟩ := h
  rw [hsplit.1]
  simp

section

variable {overshift : Overshift} {str : String}

theorem parseUint64_empty (h : str.toList = []) : parseUint64 overshift str = .ok none := by
  unfold parseUint64
  dsimp only
  rw [if_pos h]

theorem parseUint64_number (h : Denotes str.toList n) (hlt : n < wordSize) :
    parseUint64 overshift str = .ok (some n) := by
  unfold parseUint64
  dsimp only
  rw [if_neg h.1, fromCharsUint64_iff.mpr ⟨h, hlt⟩]

/-- The parse of a shift expression. -/
theorem parseUint64_shift (h : IsShift str.toList a b) (ha : a < wordSize) (hb : b < wordSize) :
    parseUint64 overshift str = .ok (some (shiftLeft overshift a b)) := by
  have hplain : fromCharsUint64 str.toList = none :=
    fromCharsUint64_eq_none fun n hn => absurd hn h.not_denotes
  have hne := h.ne_nil
  obtain ⟨x, y, hsplit, hx, hy⟩ := h
  have hbase : fromCharsUint64 (x.filter (· ≠ ' ')) = some a := fromCharsUint64_iff.mpr ⟨hx, ha⟩
  have hshift : fromCharsUint64 (y.filter (· ≠ ' ')) = some b := fromCharsUint64_iff.mpr ⟨hy, hb⟩
  unfold parseUint64
  dsimp only
  rw [if_neg hne, hplain, splitShift_eq_some_iff.mpr hsplit]
  dsimp only
  rw [hbase, hshift]

/-- Everything else throws. -/
theorem parseUint64_rejected (hne : str.toList ≠ []) (h : ¬ InGrammar str.toList) :
    parseUint64 overshift str = .error (invalidUint64 str) := by
  have hplain : fromCharsUint64 str.toList = none := by
    apply fromCharsUint64_eq_none
    intro n hn
    by_contra hlt
    exact h (.inl ⟨n, hn, by omega⟩)
  unfold parseUint64
  dsimp only
  rw [if_neg hne, hplain]
  dsimp only
  split
  next => rfl
  next x y hsplit =>
    split
    next base shift hbase hshift =>
      obtain ⟨hx, ha⟩ := fromCharsUint64_iff.mp hbase
      obtain ⟨hy, hb⟩ := fromCharsUint64_iff.mp hshift
      exact absurd (.inr ⟨base, shift, ⟨x, y, splitShift_eq_some_iff.mp hsplit, hx, hy⟩, ha, hb⟩) h
    next => rfl

theorem parseUint64_eq_none_iff : parseUint64 overshift str = .ok none ↔ str = "" := by
  rw [← String.toList_eq_nil_iff]
  constructor
  · intro hnone
    by_contra hne
    by_cases hin : InGrammar str.toList
    · obtain ⟨n, hn, hlt⟩ | ⟨a, b, hshift, ha, hb⟩ := hin
      · rw [parseUint64_number hn hlt] at hnone
        cases hnone
      · rw [parseUint64_shift hshift ha hb] at hnone
        cases hnone
    · rw [parseUint64_rejected hne hin] at hnone
      cases hnone
  · exact parseUint64_empty

theorem parseUint64_isSome_iff :
    (∃ v, parseUint64 overshift str = .ok (some v)) ↔ InGrammar str.toList := by
  constructor
  · rintro ⟨v, hv⟩
    by_contra hin
    by_cases hne : str.toList = []
    · rw [parseUint64_empty hne] at hv
      cases hv
    · rw [parseUint64_rejected hne hin] at hv
      cases hv
  · rintro (⟨n, hn, hlt⟩ | ⟨a, b, hshift, ha, hb⟩)
    · exact ⟨n, parseUint64_number hn hlt⟩
    · exact ⟨_, parseUint64_shift hshift ha hb⟩

/-- A decimal rendering denotes its number. -/
theorem denotes_toString (v : Nat) : Denotes (toString v).toList v := by
  have hlist : (toString v).toList = Nat.toDigits 10 v := Nat.toList_repr
  rw [hlist]
  refine ⟨Nat.toDigits_ne_nil, ?_, Nat.ofDigitChars_ten_toDigits.symm⟩
  intro c hc
  exact Nat.isDigit_of_mem_toDigits (by decide) (by decide) hc

/-- **`ParseUint64` accepts exactly its grammar.** -/
theorem parseUint64_grammar (overshift : Overshift) (str : String) :
    (parseUint64 overshift str = .ok none ↔ str = "") ∧
      ((∃ v, parseUint64 overshift str = .ok (some v)) ↔ InGrammar str.toList) ∧
      (parseUint64 overshift str = .error (invalidUint64 str) ↔
        str ≠ "" ∧ ¬ InGrammar str.toList) ∧
      ∀ v, v < wordSize → parseUint64 overshift (toString v) = .ok (some v) := by
  refine ⟨parseUint64_eq_none_iff, parseUint64_isSome_iff, ?_, ?_⟩
  · constructor
    · intro herror
      constructor
      · intro hempty
        rw [parseUint64_eq_none_iff.mpr hempty] at herror
        cases herror
      · intro hin
        obtain ⟨v, hv⟩ := parseUint64_isSome_iff.mpr hin
        rw [hv] at herror
        cases herror
    · rintro ⟨hne, hin⟩
      exact parseUint64_rejected (fun hnil => hne (String.toList_eq_nil_iff.mp hnil)) hin
  · intro v hv
    exact parseUint64_number (denotes_toString v) hv

/-! ## §5. What the value is. -/

/-- A size option means what it says: a value is the one the string denotes,
and what denotes a number that is no `uint64_t` is rejected. -/
def Exact (overshift : Overshift) (str : String) : Prop :=
  (∀ v, parseUint64 overshift str = .ok (some v) →
    Denotes str.toList v ∨ ∃ a b, IsShift str.toList a b ∧ v = a * 2 ^ b) ∧
  (∀ n, Denotes str.toList n → wordSize ≤ n →
    parseUint64 overshift str = .error (invalidUint64 str)) ∧
  ∀ a b, IsShift str.toList a b → wordSize ≤ a * 2 ^ b →
    parseUint64 overshift str = .error (invalidUint64 str)

/-- A decimal number that is too large is rejected. -/
theorem parseUint64_too_large (h : Denotes str.toList n) (hge : wordSize ≤ n) :
    parseUint64 overshift str = .error (invalidUint64 str) := by
  apply parseUint64_rejected h.1
  rintro (⟨m, hm, hlt⟩ | ⟨a, b, hshift, _, _⟩)
  · have hnm := h.unique hm
    omega
  · exact hshift.not_denotes h

/-- So is a shift expression one of whose parts is. -/
theorem parseUint64_shift_too_large (h : IsShift str.toList a b)
    (hpart : ¬ (a < wordSize ∧ b < wordSize)) :
    parseUint64 overshift str = .error (invalidUint64 str) := by
  apply parseUint64_rejected h.ne_nil
  rintro (⟨m, hm, _⟩ | ⟨a', b', hshift, ha, hb⟩)
  · exact h.not_denotes hm
  · obtain ⟨haa, hbb⟩ := h.unique hshift
    subst haa hbb
    exact hpart ⟨ha, hb⟩

theorem shiftLeft_eq (hb : b < 64) (hlt : a * 2 ^ b < wordSize) :
    shiftLeft overshift a b = a * 2 ^ b := by
  unfold shiftLeft
  rw [if_pos hb, Nat.mod_eq_of_lt hlt]

/-- A machine whose shift by 64 or more comes out 1. -/
def Overshift.one : Overshift where
  value := fun _ _ => 1
  value_lt := by
    intro _ _
    decide

end

/-- **A size option means what it says**, whatever the machine does, exactly
when nothing is shifted out. -/
theorem parseUint64_exact_iff (str : String) :
    (∀ overshift, Exact overshift str) ↔
      ∀ a b, IsShift str.toList a b → a < wordSize → b < wordSize →
        b < 64 ∧ a * 2 ^ b < wordSize := by
  constructor
  · intro hexact a b hshift ha hb
    obtain ⟨hvalue, _, hreject⟩ := hexact Overshift.one
    have hparse : parseUint64 Overshift.one str = .ok (some (shiftLeft Overshift.one a b)) :=
      parseUint64_shift hshift ha hb
    have hlt : a * 2 ^ b < wordSize := by
      by_contra hge
      rw [hreject a b hshift (by omega)] at hparse
      cases hparse
    refine ⟨?_, hlt⟩
    by_contra hover
    -- nothing but 0 stays below `2 ^ 64`, and the machine says 1
    obtain hdenotes | ⟨a', b', hshift', hv⟩ := hvalue _ hparse
    · exact hshift.not_denotes hdenotes
    · obtain ⟨haa, hbb⟩ := hshift.unique hshift'
      subst haa hbb
      unfold shiftLeft at hv
      rw [if_neg hover] at hv
      have hone : a * 2 ^ b = 1 := hv.symm
      have hb0 := Nat.eq_one_of_mul_eq_one_left hone
      rw [Nat.pow_eq_one] at hb0
      omega
  · intro hfits overshift
    refine ⟨?_, fun n => parseUint64_too_large, ?_⟩
    -- a value comes from one form of the grammar or from the other
    · intro v hv
      obtain ⟨n, hn, hlt⟩ | ⟨a, b, hshift, ha, hb⟩ := parseUint64_isSome_iff.mp ⟨v, hv⟩
      · rw [parseUint64_number hn hlt] at hv
        injection hv with hv
        injection hv with hv
        exact .inl (hv ▸ hn)
      · obtain ⟨hb64, hlt⟩ := hfits a b hshift ha hb
        rw [parseUint64_shift hshift ha hb, shiftLeft_eq hb64 hlt] at hv
        injection hv with hv
        injection hv with hv
        exact .inr ⟨a, b, hshift, hv.symm⟩
    · intro a b hshift hge
      -- a product that is too large has a part that is
      apply parseUint64_shift_too_large hshift
      rintro ⟨ha, hb⟩
      have hlt := (hfits a b hshift ha hb).2
      omega

/-- `3 << 63` is accepted and comes out as `2 ^ 63`, on every machine. -/
theorem parseUint64_not_exact :
    (∀ overshift, parseUint64 overshift "3 << 63" = .ok (some (2 ^ 63))) ∧
      ∀ overshift, ¬ Exact overshift "3 << 63" := by
  -- 3 and 63 are in range, and the upper bit of `3 * 2 ^ 63` is shifted out
  have hlist : "3 << 63".toList = ['3', ' ', '<', '<', ' ', '6', '3'] := by decide
  have hbase : Denotes (withoutSpaces ['3', ' ']) 3 :=
    ⟨by decide, by simp [withoutSpaces], rfl⟩
  have hshift : Denotes (withoutSpaces [' ', '6', '3']) 63 :=
    ⟨by decide, by simp [withoutSpaces], rfl⟩
  have hexpr : IsShift "3 << 63".toList 3 63 := by
    rw [hlist]
    exact ⟨['3', ' '], [' ', '6', '3'], splitShift_eq_some_iff.mp rfl, hbase, hshift⟩
  have hparse : ∀ overshift, parseUint64 overshift "3 << 63" = .ok (some (2 ^ 63)) :=
    fun _ => parseUint64_shift hexpr (by decide) (by decide)
  refine ⟨hparse, ?_⟩
  rintro overshift ⟨_, _, hreject⟩
  have herror := hreject 3 63 hexpr (by decide)
  rw [hparse overshift] at herror
  cases herror

end Akbench.Driver
