/-
  Akbench.Lib.Json
  ────────────────
  **A PARSER FOR JSON TEXTS.**

  One reader for each rule of the JSON grammar: a reader takes what it
  recognises off the front of a list of characters and says what it denotes.
  Numbers denote rationals, so that a text denotes one value and nothing is
  rounded on the way.

    • `value` — any JSON value, nested no deeper than its fuel;
    • `parse` — a whole text, with nothing behind the value;
    • `Reads` — what a reader makes of a text, whatever comes behind it;
      a text that no reader accepts reads as `none`.

  A printer is verified by composing `Reads` along the text it prints.
-/
import Mathlib.Data.Rat.Defs
import Mathlib.Algebra.Order.Field.Rat
import Mathlib.Data.List.TakeWhile

namespace Akbench

/-- JSON values; the members of an object in their order. -/
inductive Json where
  | null
  | bool (b : Bool)
  | num (q : ℚ)
  | str (s : String)
  | arr (elements : List Json)
  | obj (members : List (String × Json))

namespace Json

/-- What a reader recognised, and what is behind it. -/
abbrev Reader (α : Type) := List Char → Option (α × List Char)

/-! ## §1. Space and strings. -/

def isSpace (c : Char) : Bool := c = ' ' || c = '\n' || c = '\r' || c = '\t'

def skipSpace (s : List Char) : List Char := s.dropWhile isSpace

/-- These characters, and nothing else. -/
def exactly : List Char → List Char → Option (List Char)
  | [], s => some s
  | _ :: _, [] => none
  | c :: cs, d :: s => if c = d then exactly cs s else none

def hexDigit (c : Char) : Option Nat :=
  if '0' ≤ c ∧ c ≤ '9' then some (c.toNat - '0'.toNat)
  else if 'a' ≤ c ∧ c ≤ 'f' then some (c.toNat - 'a'.toNat + 10)
  else if 'A' ≤ c ∧ c ≤ 'F' then some (c.toNat - 'A'.toNat + 10)
  else none

/-- Four hexadecimal digits. -/
def codeUnit : Reader Nat
  | a :: b :: c :: d :: s =>
      match hexDigit a, hexDigit b, hexDigit c, hexDigit d with
      | some a, some b, some c, some d => some (((a * 16 + b) * 16 + c) * 16 + d, s)
      | _, _, _, _ => none
  | _ => none

/-- A second code unit, for a character beyond the first plane. -/
def lowSurrogate (high : Nat) (s : List Char) : Option (Char × List Char) :=
  (exactly ['\\', 'u'] s).bind fun s =>
    (codeUnit s).bind fun (low, s) =>
      if 0xDC00 ≤ low ∧ low ≤ 0xDFFF then
        some (Char.ofNat (0x10000 + (high - 0xD800) * 0x400 + (low - 0xDC00)), s)
      else none

/-- What is behind a backslash. -/
def escape : Reader Char
  | [] => none
  | c :: s =>
      if c = '"' ∨ c = '\\' ∨ c = '/' then some (c, s)
      else if c = 'b' then some (Char.ofNat 8, s)
      else if c = 'f' then some (Char.ofNat 12, s)
      else if c = 'n' then some ('\n', s)
      else if c = 'r' then some ('\r', s)
      else if c = 't' then some ('\t', s)
      else if c = 'u' then
        (codeUnit s).bind fun (unit, s) =>
          if unit < 0xD800 ∨ 0xDFFF < unit then some (Char.ofNat unit, s)
          else if unit < 0xDC00 then lowSurrogate unit s
          else none
      else none

/-- The characters up to the closing quote. -/
def characters : Nat → Reader (List Char)
  | 0, _ => none
  | _ + 1, [] => none
  | fuel + 1, c :: s =>
      if c = '"' then some ([], s)
      else if c = '\\' then
        (escape s).bind fun (d, s) => (characters fuel s).map fun (ds, s) => (d :: ds, s)
      -- control characters have to be escaped
      else if c.toNat < 0x20 then none
      else (characters fuel s).map fun (ds, s) => (c :: ds, s)

def string : Reader String
  | [] => none
  | c :: s =>
      if c = '"' then (characters s.length s).map fun (cs, s) => (String.ofList cs, s) else none

/-! ## §2. Numbers. -/

/-- A run of digits that is not empty. -/
def digits : Reader (List Char) := fun s =>
  if s.takeWhile Char.isDigit = [] then none
  else some (s.takeWhile Char.isDigit, s.dropWhile Char.isDigit)

/-- `minus`. -/
def minus : List Char → ℚ × List Char
  | [] => (1, [])
  | c :: s => if c = '-' then (-1, s) else (1, c :: s)

/-- `int`: no digit follows a leading zero. -/
def intPart : Reader (List Char)
  | [] => none
  | c :: s => if c = '0' then some (['0'], s) else digits (c :: s)

/-- `frac`, which may be missing. -/
def fracPart : Reader (List Char)
  | [] => some ([], [])
  | c :: s => if c = '.' then digits s else some ([], c :: s)

/-- The digits of an exponent, behind its sign. -/
def signedDigits : Reader Int
  | [] => none
  | c :: s =>
      if c = '-' then (digits s).map fun (ds, s) => (-(Nat.ofDigitChars 10 ds 0 : Int), s)
      else if c = '+' then (digits s).map fun (ds, s) => ((Nat.ofDigitChars 10 ds 0 : Int), s)
      else (digits (c :: s)).map fun (ds, s) => ((Nat.ofDigitChars 10 ds 0 : Int), s)

/-- `exp`, which may be missing. -/
def exponent : Reader Int
  | [] => some (0, [])
  | c :: s => if c = 'e' ∨ c = 'E' then signedDigits s else some (0, c :: s)

def number : Reader ℚ := fun s =>
  (intPart (minus s).2).bind fun (whole, s₁) =>
    (fracPart s₁).bind fun (frac, s₂) =>
      (exponent s₂).map fun (e, s₃) =>
        ((minus s).1 * Nat.ofDigitChars 10 (whole ++ frac) 0 * 10 ^ (e - frac.length), s₃)

/-! ## §3. Values. -/

section

variable {α : Type}

/-- Items between commas, up to the closing bracket. -/
def sequence (item : Reader α) (close : Char) : Nat → Reader (List α)
  | 0, _ => none
  | fuel + 1, s =>
      (item s).bind fun (a, s) =>
        match skipSpace s with
        | [] => none
        | c :: s =>
            if c = ',' then (sequence item close fuel s).map fun (as, s) => (a :: as, s)
            else if c = close then some ([a], s)
            else none

/-- The same, or nothing before the closing bracket. -/
def bracketed (item : Reader α) (close : Char) : Reader (List α) := fun s =>
  match skipSpace s with
  | [] => none
  | c :: rest => if c = close then some ([], rest) else sequence item close s.length s

/-- `name : value`. -/
def member (item : Reader Json) : Reader (String × Json) := fun s =>
  (string (skipSpace s)).bind fun (name, s) =>
    (exactly [':'] (skipSpace s)).bind fun s =>
      (item s).map fun (v, s) => ((name, v), s)

end

/-- A value nested less than `fuel` deep. -/
def value : Nat → Reader Json
  | 0, _ => none
  | fuel + 1, s =>
      match skipSpace s with
      | [] => none
      | c :: rest =>
          if c = '{' then
            (bracketed (member (value fuel)) '}' rest).map fun (ms, s) => (obj ms, s)
          else if c = '[' then
            (bracketed (value fuel) ']' rest).map fun (vs, s) => (arr vs, s)
          else if c = '"' then (string (c :: rest)).map fun (cs, s) => (str cs, s)
          else if c = 'n' then (exactly ['u', 'l', 'l'] rest).map fun s => (null, s)
          else if c = 't' then (exactly ['r', 'u', 'e'] rest).map fun s => (bool true, s)
          else if c = 'f' then (exactly ['a', 'l', 's', 'e'] rest).map fun s => (bool false, s)
          else (number (c :: rest)).map fun (q, s) => (num q, s)

/-- A JSON text: one value, with space around it. -/
def parse (text : String) : Option Json :=
  (value text.toList.length text.toList).bind fun (v, s) =>
    if skipSpace s = [] then some v else none

/-! ## §4. What readers make of a text. -/

/-- No number goes on here. -/
def Stops (s : List Char) : Prop :=
  ∀ c, s.head? = some c → c.isDigit = false ∧ c ≠ '.' ∧ c ≠ 'e' ∧ c ≠ 'E'

/-- In front of whatever stops a number, the reader takes `text` for `o`; it
fails there if `o` is `none`. -/
def Reads {α : Type} (read : Reader α) (text : List Char) (o : Option α) : Prop :=
  ∀ rest, Stops rest → read (text ++ rest) = o.map fun a => (a, rest)

/-- A text of space. -/
def IsSpace (s : List Char) : Prop := ∀ c, c ∈ s → isSpace c = true

instance (s : List Char) : Decidable (IsSpace s) := List.decidableBAll _ s

variable {α : Type} {s text rest gap : List Char}

theorem skipSpace_append (h : IsSpace gap) : skipSpace (gap ++ s) = skipSpace s := by
  unfold skipSpace
  rw [List.dropWhile_append_of_pos h]

theorem skipSpace_cons {c : Char} (h : isSpace c = false) : skipSpace (c :: s) = c :: s := by
  unfold skipSpace
  rw [List.dropWhile_cons_of_neg (by rw [h]; decide)]

theorem stops_cons {c : Char} (h : c.isDigit = false ∧ c ≠ '.' ∧ c ≠ 'e' ∧ c ≠ 'E') :
    Stops (c :: s) := by
  intro d hd
  simp only [List.head?_cons, Option.some_inj] at hd
  exact hd ▸ h

/-- Space stops a number. -/
theorem stops_append (h : IsSpace gap) (hs : Stops s) : Stops (gap ++ s) := by
  cases gap with
  | nil => exact hs
  | cons c gap =>
      have hc : isSpace c = true := h c List.mem_cons_self
      apply stops_cons
      unfold isSpace at hc
      simp only [Bool.or_eq_true, decide_eq_true_eq] at hc
      rcases hc with ((hc | hc) | hc) | hc
      all_goals
        subst hc
        decide

/-- A value may have space before it. -/
theorem Reads.after_space {fuel : Nat} {o : Option Json} (h : Reads (value fuel) text o)
    (hgap : IsSpace gap) : Reads (value fuel) (gap ++ text) o := by
  intro rest hrest
  rw [← h rest hrest, List.append_assoc]
  cases fuel with
  | zero => rfl
  | succ fuel => rw [value, value, skipSpace_append hgap]

/-! ## §5. Strings and numbers. -/

/-- No character of it has to be escaped. -/
def IsPlain (s : List Char) : Prop := ∀ c, c ∈ s → c ≠ '"' ∧ c ≠ '\\' ∧ 0x20 ≤ c.toNat

instance (s : List Char) : Decidable (IsPlain s) := List.decidableBAll _ s

theorem characters_plain (h : IsPlain s) (fuel : Nat) :
    characters (s.length + 1 + fuel) (s ++ '"' :: rest) = some (s, rest) := by
  induction s with
  | nil =>
      have hfuel : 0 + 1 + fuel = fuel + 1 := by omega
      simp [hfuel, characters]
  | cons c s ih =>
      obtain ⟨hquote, hslash, hcontrol⟩ := h c List.mem_cons_self
      have htail := ih fun d hd => h d (List.mem_cons_of_mem c hd)
      have hfuel : (c :: s).length + 1 + fuel = s.length + 1 + fuel + 1 := by simp; omega
      rw [hfuel, List.cons_append, characters, if_neg hquote, if_neg hslash,
        if_neg (by omega), htail]
      rfl

theorem string_plain {name : String} (h : IsPlain name.toList) :
    string ('"' :: (name.toList ++ '"' :: rest)) = some (name, rest) := by
  have hfuel : (name.toList ++ '"' :: rest).length = name.toList.length + 1 + rest.length := by
    simp
    omega
  rw [string, if_pos rfl, hfuel, characters_plain h]
  simp

/-- **A plain string** reads as itself. -/
theorem reads_str {name : String} (h : IsPlain name.toList) (fuel : Nat) :
    Reads (value (fuel + 1)) ('"' :: (name.toList ++ ['"'])) (some (str name)) := by
  intro rest _
  have happend : '"' :: (name.toList ++ ['"']) ++ rest = '"' :: (name.toList ++ '"' :: rest) := by
    simp
  rw [happend, value, skipSpace_cons (by decide)]
  simp [string_plain h]

/-- A run of digits. -/
def IsRun (ds : List Char) : Prop := ds ≠ [] ∧ ∀ c, c ∈ ds → c.isDigit = true

theorem digits_append {ds : List Char} (h : IsRun ds)
    (hrest : ∀ c, rest.head? = some c → c.isDigit = false) :
    digits (ds ++ rest) = some (ds, rest) := by
  have htake : rest.takeWhile Char.isDigit = [] ∧ rest.dropWhile Char.isDigit = rest := by
    cases rest with
    | nil => exact ⟨rfl, rfl⟩
    | cons c rest =>
        have hc := hrest c rfl
        simp [hc]
  unfold digits
  rw [List.takeWhile_append_of_pos h.2, List.dropWhile_append_of_pos h.2, htake.1, htake.2,
    List.append_nil, if_neg h.1]

/-- A sign that is there only when it is a minus. -/
def minusText (negative : Bool) : List Char := if negative then ['-'] else []

/-- A sign that is always there. -/
def signText (negative : Bool) : List Char := if negative then ['-'] else ['+']

/-- A number behind its sign. -/
def signed (negative : Bool) (n : Nat) : Int := if negative then -(n : Int) else n

theorem minus_minusText {c : Char} (negative : Bool) (hc : c ≠ '-') :
    minus (minusText negative ++ c :: s) = (if negative then -1 else 1, c :: s) := by
  cases negative with
  | true => rfl
  | false =>
      show minus (c :: s) = _
      rw [minus, if_neg hc]
      rfl

theorem signedDigits_signText {ds : List Char} (negative : Bool) (h : IsRun ds)
    (hrest : ∀ c, rest.head? = some c → c.isDigit = false) :
    signedDigits (signText negative ++ (ds ++ rest)) =
      some (signed negative (Nat.ofDigitChars 10 ds 0), rest) := by
  cases negative with
  | true =>
      show signedDigits ('-' :: (ds ++ rest)) = _
      rw [signedDigits, if_pos rfl, digits_append h hrest]
      rfl
  | false =>
      show signedDigits ('+' :: (ds ++ rest)) = _
      rw [signedDigits, if_neg (by decide), if_pos rfl, digits_append h hrest]
      rfl

/-- The value of `±lead.frac` times a power of ten. -/
def scientific (negative : Bool) (lead : Char) (frac : List Char) (expNegative : Bool)
    (exp : List Char) : ℚ :=
  (if negative then -1 else 1) * Nat.ofDigitChars 10 (lead :: frac) 0 *
    10 ^ (signed expNegative (Nat.ofDigitChars 10 exp 0) - frac.length)

/-- The digit before the point. -/
theorem intPart_lead {lead : Char} (hlead : lead.isDigit = true) :
    intPart (lead :: '.' :: s) = some ([lead], '.' :: s) := by
  rw [intPart]
  split
  next hzero => rw [hzero]
  next =>
    have hrun : IsRun [lead] := ⟨by simp, by simpa using hlead⟩
    apply digits_append hrun
    intro c hc
    simp only [List.head?_cons, Option.some_inj] at hc
    subst hc
    decide

/-- The digits after it. -/
theorem fracPart_append {frac : List Char} (h : IsRun frac) :
    fracPart ('.' :: (frac ++ 'e' :: s)) = some (frac, 'e' :: s) := by
  rw [fracPart, if_pos rfl]
  apply digits_append h
  intro c hc
  simp only [List.head?_cons, Option.some_inj] at hc
  subst hc
  decide

/-- **A number in scientific notation.** -/
theorem number_scientific {lead : Char} {frac exp : List Char} (negative expNegative : Bool)
    (hlead : lead.isDigit = true) (hfrac : IsRun frac) (hexp : IsRun exp) (hrest : Stops rest) :
    number (minusText negative ++ lead :: '.' :: (frac ++ 'e' ::
        (signText expNegative ++ (exp ++ rest)))) =
      some (scientific negative lead frac expNegative exp, rest) := by
  have hminus : lead ≠ '-' := by
    intro heq
    rw [heq] at hlead
    exact absurd hlead (by decide)
  have hexponent : exponent ('e' :: (signText expNegative ++ (exp ++ rest))) =
      some (signed expNegative (Nat.ofDigitChars 10 exp 0), rest) := by
    rw [exponent, if_pos (.inl rfl)]
    exact signedDigits_signText expNegative hexp fun c hc => (hrest c hc).1
  unfold number
  rw [minus_minusText negative hminus, intPart_lead hlead]
  simp only [Option.bind_some, fracPart_append hfrac, hexponent]
  rfl

/-- What starts with a digit or a minus sign is a number. -/
theorem value_number {c : Char} {q : ℚ} (h : c.isDigit = true ∨ c = '-') (fuel : Nat)
    (hnumber : number (c :: s) = some (q, rest)) :
    value (fuel + 1) (c :: s) = some (num q, rest) := by
  have hnot : ∀ d : Char, d.isDigit = false → d ≠ '-' → c ≠ d := by
    intro d hdigit hminus heq
    rw [heq] at h
    rcases h with h | h
    · rw [h] at hdigit
      cases hdigit
    · exact hminus h
  have hspace : isSpace c = false := by
    unfold isSpace
    simp [hnot ' ' (by decide) (by decide), hnot '\n' (by decide) (by decide),
      hnot '\r' (by decide) (by decide), hnot '\t' (by decide) (by decide)]
  rw [value, skipSpace_cons hspace]
  simp only [if_neg (hnot '{' (by decide) (by decide)), if_neg (hnot '[' (by decide) (by decide)),
    if_neg (hnot '"' (by decide) (by decide)), if_neg (hnot 'n' (by decide) (by decide)),
    if_neg (hnot 't' (by decide) (by decide)), if_neg (hnot 'f' (by decide) (by decide)),
    hnumber, Option.map_some]

/-- **A number in scientific notation** reads as its value. -/
theorem reads_scientific {lead : Char} {frac exp : List Char} (negative expNegative : Bool)
    (hlead : lead.isDigit = true) (hfrac : IsRun frac) (hexp : IsRun exp) (fuel : Nat) :
    Reads (value (fuel + 1))
      (minusText negative ++ lead :: '.' :: (frac ++ 'e' :: (signText expNegative ++ exp)))
      (some (num (scientific negative lead frac expNegative exp))) := by
  intro rest hrest
  have happend : minusText negative ++ lead :: '.' ::
        (frac ++ 'e' :: (signText expNegative ++ exp)) ++ rest =
      minusText negative ++ lead :: '.' ::
        (frac ++ 'e' :: (signText expNegative ++ (exp ++ rest))) := by
    simp
  have hnumber := number_scientific negative expNegative hlead hfrac hexp hrest
  rw [happend]
  cases negative with
  | true => exact value_number (.inr rfl) fuel hnumber
  | false => exact value_number (.inl hlead) fuel hnumber

/-! ## §6. Arrays and objects. -/

/-- A name, a colon and a value. -/
theorem reads_member {item : Reader Json} {name : String} {o : Option Json}
    (hname : IsPlain name.toList) (hgap : IsSpace gap) (h : Reads item text o) :
    Reads (member item) (gap ++ '"' :: (name.toList ++ '"' :: ':' :: text))
      (o.map fun v => (name, v)) := by
  intro rest hrest
  have happend : gap ++ '"' :: (name.toList ++ '"' :: ':' :: text) ++ rest =
      gap ++ '"' :: (name.toList ++ '"' :: ':' :: (text ++ rest)) := by
    simp
  rw [happend, member, skipSpace_append hgap, skipSpace_cons (by decide), string_plain hname]
  simp only [Option.bind_some]
  rw [skipSpace_cons (by decide), exactly, if_pos rfl, exactly]
  simp only [Option.bind_some]
  rw [h rest hrest]
  cases o with
  | none => rfl
  | some v => rfl

/-- A closing bracket. -/
def IsClose (c : Char) : Prop := c = ']' ∨ c = '}'

theorem stops_close {close : Char} (hclose : IsClose close) : Stops (close :: s) := by
  apply stops_cons
  rcases hclose with rfl | rfl
  all_goals decide

/-- **Items between commas** read one after the other, and fail with the
first that does. -/
theorem sequence_reads {item : Reader α} {close : Char} (hclose : IsClose close)
    (hgap : IsSpace gap) {items : List (List Char × Option α)} (hne : items ≠ [])
    (hitems : ∀ p, p ∈ items → Reads item p.1 p.2) (fuel : Nat) (hfuel : items.length ≤ fuel) :
    sequence item close fuel ([','].intercalate (items.map Prod.fst) ++ (gap ++ close :: rest)) =
      (items.mapM Prod.snd).map fun as => (as, rest) := by
  have hskip : isSpace close = false ∧ close ≠ ',' := by
    rcases hclose with rfl | rfl
    all_goals decide
  induction items generalizing fuel with
  | nil => exact absurd rfl hne
  | cons p items ih =>
      obtain ⟨text, o⟩ := p
      have hread := hitems (text, o) List.mem_cons_self
      obtain ⟨fuel, rfl⟩ : ∃ n, fuel = n + 1 := ⟨fuel - 1, by simp at hfuel; omega⟩
      cases items with
      | nil =>
          have hrest : Stops (gap ++ close :: rest) := stops_append hgap (stops_close hclose)
          simp only [List.map_cons, List.map_nil, List.intercalate_singleton]
          rw [sequence, hread _ hrest]
          cases o with
          | none => simp
          | some a =>
              simp only [Option.map_some, Option.bind_some]
              rw [skipSpace_append hgap, skipSpace_cons hskip.1]
              simp [hskip.2]
      | cons q items =>
          have htail := ih (by simp) (fun r hr => hitems r (List.mem_cons_of_mem _ hr))
            fuel (by simpa using hfuel)
          have hcomma : ∀ tail, Stops (',' :: tail) := fun _ => stops_cons (by decide)
          simp only [List.map_cons, List.intercalate_cons_cons, List.append_assoc,
            List.cons_append, List.nil_append] at htail ⊢
          rw [sequence, hread _ (hcomma _)]
          cases o with
          | none => simp
          | some a =>
              simp only [Option.map_some, Option.bind_some]
              rw [skipSpace_cons (by decide)]
              simp only [if_pos, List.mapM_cons (a := (text, some a))]
              rw [htail]
              generalize List.mapM Prod.snd (q :: items) = os
              cases os with
              | none => rfl
              | some as => rfl

/-- The commas alone are as many as the items but one. -/
theorem length_le_intercalate (texts : List (List Char)) :
    texts.length ≤ ([','].intercalate texts).length + 1 := by
  induction texts with
  | nil => exact Nat.zero_le _
  | cons text texts ih =>
      cases texts with
      | nil => simp
      | cons text' texts =>
          rw [List.intercalate_cons_cons]
          simp only [List.length_cons, List.length_append] at ih ⊢
          omega

/-- **Items in brackets**, none included. -/
theorem bracketed_reads {item : Reader α} {close : Char} (hclose : IsClose close)
    (hgap : IsSpace gap) {items : List (List Char × Option α)}
    (hitems : ∀ p, p ∈ items → Reads item p.1 p.2)
    (hfirst : ∀ p, p ∈ items → ∀ s, ∃ c tail, skipSpace (p.1 ++ s) = c :: tail ∧ c ≠ close) :
    Reads (bracketed item close) ([','].intercalate (items.map Prod.fst) ++ (gap ++ [close]))
      (items.mapM Prod.snd) := by
  intro rest _
  have happend : [','].intercalate (items.map Prod.fst) ++ (gap ++ [close]) ++ rest =
      [','].intercalate (items.map Prod.fst) ++ (gap ++ close :: rest) := by
    simp
  rw [happend]
  by_cases hne : items = []
  · subst hne
    have hspace : isSpace close = false := by
      rcases hclose with rfl | rfl
      all_goals decide
    unfold bracketed
    simp only [List.map_nil, List.intercalate_nil, List.nil_append]
    rw [skipSpace_append hgap, skipSpace_cons hspace]
    simp
  · have hhead : ∃ c tail, skipSpace ([','].intercalate (items.map Prod.fst) ++
        (gap ++ close :: rest)) = c :: tail ∧ c ≠ close := by
      obtain ⟨p, items, rfl⟩ := List.exists_cons_of_ne_nil hne
      have hp := hfirst p List.mem_cons_self
      cases items with
      | nil =>
          simp only [List.map_cons, List.map_nil, List.intercalate_singleton]
          exact hp _
      | cons q items =>
          simp only [List.map_cons, List.intercalate_cons_cons, List.append_assoc]
          exact hp _
    obtain ⟨c, tail, hskip, hc⟩ := hhead
    unfold bracketed
    rw [hskip]
    simp only [if_neg hc]
    apply sequence_reads hclose hgap hne hitems
    have hcommas := length_le_intercalate (items.map Prod.fst)
    simp only [List.length_map, List.length_append, List.length_cons] at hcommas ⊢
    omega

/-- An array is its elements in brackets. -/
theorem reads_arr {fuel : Nat} {o : Option (List Json)}
    (h : Reads (bracketed (value fuel) ']') text o) :
    Reads (value (fuel + 1)) ('[' :: text) (o.map arr) := by
  intro rest hrest
  rw [List.cons_append, value, skipSpace_cons (by decide)]
  simp only [if_neg (show ¬ '[' = '{' by decide), if_pos]
  rw [h rest hrest]
  cases o with
  | none => rfl
  | some vs => rfl

/-- An object is its members in braces. -/
theorem reads_obj {fuel : Nat} {o : Option (List (String × Json))}
    (h : Reads (bracketed (member (value fuel)) '}') text o) :
    Reads (value (fuel + 1)) ('{' :: text) (o.map obj) := by
  intro rest hrest
  rw [List.cons_append, value, skipSpace_cons (by decide)]
  simp only [if_pos]
  rw [h rest hrest]
  cases o with
  | none => rfl
  | some ms => rfl

/-- **A whole text.** -/
theorem parse_eq {document : String} {o : Option Json} (gap : List Char) (hgap : IsSpace gap)
    (hdocument : document.toList = text ++ gap)
    (h : Reads (value document.toList.length) text o) : parse document = o := by
  have hstops : Stops gap := by
    have happend := stops_append hgap (s := []) nofun
    rwa [List.append_nil] at happend
  have hskip : skipSpace gap = [] := by
    have happend := skipSpace_append hgap (s := [])
    rwa [List.append_nil] at happend
  unfold parse
  rw [hdocument] at h ⊢
  rw [h gap hstops]
  cases o with
  | none => rfl
  | some v => simp [hskip]

end Json

end Akbench
