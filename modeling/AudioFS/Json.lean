import AudioFS.Utf8
import Mathlib.Data.List.TakeWhile
import Mathlib.Data.String.Basic

/-!
# JSON text

Values, a printer that leaves the escaping of strings to its caller, and a parser
of the whole grammar. What is printed with a lawful escaping parses to itself.
-/

namespace Json

/-- A number as it is written: the sign, the digits before the point, those after it, and the
power of ten. -/
structure Numeral where
  negative : Bool
  whole : ℕ
  fraction : List (Fin 10)
  exponent : Option ℤ
  deriving DecidableEq

def Numeral.ofInt (i : ℤ) : Numeral := ⟨decide (i < 0), i.natAbs, [], none⟩

/-- The value of a number written without a fraction and without an exponent. -/
def Numeral.toInt? (n : Numeral) : Option ℤ :=
  if n.fraction = [] ∧ n.exponent = none then
    some (if n.negative then -(n.whole : ℤ) else n.whole)
  else none

@[simp] theorem Numeral.toInt?_ofInt (i : ℤ) : (Numeral.ofInt i).toInt? = some i := by
  simp only [toInt?, ofInt, and_self, ↓reduceIte, decide_eq_true_eq, Option.some.injEq]
  split <;> omega

inductive Value
  | null
  | bool (b : Bool)
  | number (n : Numeral)
  | string (s : String)
  | array (elements : List Value)
  | object (members : List (String × Value))

def Value.int (i : ℤ) : Value := .number (.ofInt i)

/-- The members of an object some of which are left out. -/
def present {α : Type} (fields : List (String × Option α)) : List (String × α) :=
  fields.filterMap fun f => f.2.map fun v => (f.1, v)

/-! ## Numbers -/

def digitChars (ds : List (Fin 10)) : List Char := ds.map fun d : Fin 10 => Nat.digitChar d.val

def digitOf (c : Char) : Fin 10 := Fin.ofNat 10 (c.toNat - '0'.toNat)

def printInt (i : ℤ) : List Char :=
  (if i < 0 then ['-'] else []) ++ Nat.toDigits 10 i.natAbs

def printFraction (ds : List (Fin 10)) : List Char :=
  if ds = [] then [] else '.' :: digitChars ds

def printExponent : Option ℤ → List Char
  | none => []
  | some e => 'e' :: printInt e

def Numeral.print (n : Numeral) : List Char :=
  (if n.negative then ['-'] else []) ++
    (Nat.toDigits 10 n.whole ++ (printFraction n.fraction ++ printExponent n.exponent))

def parseFraction : List Char → Option (List (Fin 10) × List Char)
  | [] => some ([], [])
  | c :: cs =>
    if c = '.' then
      if cs.takeWhile Char.isDigit = [] then none
      else some ((cs.takeWhile Char.isDigit).map digitOf, cs.dropWhile Char.isDigit)
    else some ([], c :: cs)

def parseSign : List Char → Bool × List Char
  | [] => (false, [])
  | c :: cs => if c = '-' then (true, cs) else (false, c :: cs)

def parsePlusOrSign : List Char → Bool × List Char
  | [] => (false, [])
  | c :: cs => if c = '+' then (false, cs) else parseSign (c :: cs)

def parsePower (cs : List Char) : Option (ℤ × List Char) :=
  let signed := parsePlusOrSign cs
  let digits := signed.2.takeWhile Char.isDigit
  if digits = [] then none
  else
    let power := Nat.ofDigitChars 10 digits 0
    some (if signed.1 then -(power : ℤ) else power, signed.2.dropWhile Char.isDigit)

def parseExponent : List Char → Option (Option ℤ × List Char)
  | [] => some (none, [])
  | c :: cs =>
    if c = 'e' ∨ c = 'E' then (parsePower cs).map fun r => (some r.1, r.2)
    else some (none, c :: cs)

def parseNumeral (cs : List Char) : Option (Numeral × List Char) :=
  let signed := parseSign cs
  let whole := signed.2.takeWhile Char.isDigit
  if whole = [] ∨ (whole.head? = some '0' ∧ whole ≠ ['0']) then none
  else do
    let (fraction, rest) ← parseFraction (signed.2.dropWhile Char.isDigit)
    let (exponent, rest) ← parseExponent rest
    return (⟨signed.1, Nat.ofDigitChars 10 whole 0, fraction, exponent⟩, rest)

def isWhite (c : Char) : Bool := c == ' ' || c == '\t' || c == '\n' || c == '\r'

/-- What may follow a value. -/
def Ends (rest : List Char) : Prop :=
  ∀ c ∈ rest.head?, isWhite c = true ∨ c = ',' ∨ c = ']' ∨ c = '}'

theorem ends_cons {c : Char} (h : isWhite c = true ∨ c = ',' ∨ c = ']' ∨ c = '}')
    (rest : List Char) : Ends (c :: rest) := by simpa [Ends] using h

def NoDigit (rest : List Char) : Prop := ∀ c ∈ rest.head?, c.isDigit = false

theorem Ends.ne {rest : List Char} (h : Ends rest) {c : Char} (hc : c ∈ rest.head?) {d : Char}
    (hd : isWhite d = false ∧ d ≠ ',' ∧ d ≠ ']' ∧ d ≠ '}') : c ≠ d := by
  rintro rfl
  rcases h c hc with hw | rfl | rfl | rfl
  · simp [hw] at hd
  · exact hd.2.1 rfl
  · exact hd.2.2.1 rfl
  · exact hd.2.2.2 rfl

theorem Ends.noDigit {rest : List Char} (h : Ends rest) : NoDigit rest := by
  intro c hc
  rcases h c hc with hw | rfl | rfl | rfl
  · simp only [isWhite, Bool.or_eq_true, beq_iff_eq] at hw
    rcases hw with ((rfl | rfl) | rfl) | rfl <;> rfl
  · rfl
  · rfl
  · rfl

theorem takeDigits_append {ds rest : List Char} (hds : ∀ c ∈ ds, c.isDigit = true)
    (hrest : NoDigit rest) :
    (ds ++ rest).takeWhile Char.isDigit = ds ∧ (ds ++ rest).dropWhile Char.isDigit = rest := by
  have hnone : rest.takeWhile Char.isDigit = [] ∧ rest.dropWhile Char.isDigit = rest := by
    cases rest with
    | nil => simp
    | cons c rest => simp [hrest c (by simp)]
  constructor
  · rw [List.takeWhile_append_of_pos hds, hnone.1, List.append_nil]
  · rw [List.dropWhile_append_of_pos hds, hnone.2]

theorem toDigits_isDigit (n : ℕ) : ∀ c ∈ Nat.toDigits 10 n, c.isDigit = true :=
  fun _ hc => Nat.isDigit_of_mem_toDigits (by decide) (by decide) hc

/-- No digits are put before the first one that counts. -/
theorem toDigits_eq_of_head {n : ℕ} (h : (Nat.toDigits 10 n).head? = some '0') :
    Nat.toDigits 10 n = ['0'] := by
  induction n using Nat.strong_induction_on with
  | _ n ih =>
    rcases Nat.lt_or_ge n 10 with hn | hn
    · rw [Nat.toDigits_of_lt_base hn] at h ⊢
      simpa using h
    · have hsplit := Nat.toDigits_of_base_le (b := 10) (by decide) hn
      rw [hsplit, List.head?_append_of_ne_nil _ Nat.toDigits_ne_nil] at h
      have hzero := congrArg (Nat.ofDigitChars 10 · 0) (ih (n / 10) (by omega) h)
      simp only [Nat.ofDigitChars_ten_toDigits] at hzero
      have hval : Nat.ofDigitChars 10 ['0'] 0 = 0 := by decide
      omega

theorem parseSign_digits {ds : List Char} (hne : ds ≠ []) (hds : ∀ c ∈ ds, c.isDigit = true)
    (rest : List Char) : parseSign (ds ++ rest) = (false, ds ++ rest) := by
  cases ds with
  | nil => exact absurd rfl hne
  | cons c ds =>
    have hc : c ≠ '-' := by
      rintro rfl
      exact absurd (hds '-' (by simp)) (by decide)
    simp [parseSign, hc]

theorem parsePlusOrSign_digits {ds : List Char} (hne : ds ≠ [])
    (hds : ∀ c ∈ ds, c.isDigit = true) (rest : List Char) :
    parsePlusOrSign (ds ++ rest) = (false, ds ++ rest) := by
  cases ds with
  | nil => exact absurd rfl hne
  | cons c ds =>
    have hc : c ≠ '+' := by
      rintro rfl
      exact absurd (hds '+' (by simp)) (by decide)
    simp only [parsePlusOrSign, List.cons_append, hc, ↓reduceIte]
    exact parseSign_digits hne hds rest

theorem parsePower_print (e : ℤ) {rest : List Char} (hrest : NoDigit rest) :
    parsePower (printInt e ++ rest) = some (e, rest) := by
  obtain ⟨htake, hdrop⟩ := takeDigits_append (toDigits_isDigit e.natAbs) hrest
  have hne : Nat.toDigits 10 e.natAbs ≠ [] := Nat.toDigits_ne_nil
  by_cases he : e < 0
  · have hsign : parsePlusOrSign (printInt e ++ rest) =
        (true, Nat.toDigits 10 e.natAbs ++ rest) := by
      simp [printInt, he, parsePlusOrSign, parseSign]
    simp only [parsePower, hsign, htake, hdrop, hne, ↓reduceIte, Nat.ofDigitChars_ten_toDigits,
      Option.some.injEq, Prod.mk.injEq, and_true]
    omega
  · have hsign : parsePlusOrSign (printInt e ++ rest) =
        (false, Nat.toDigits 10 e.natAbs ++ rest) := by
      simpa [printInt, he] using parsePlusOrSign_digits hne (toDigits_isDigit e.natAbs) rest
    simp only [parsePower, hsign, htake, hdrop, hne, ↓reduceIte, Nat.ofDigitChars_ten_toDigits,
      Option.some.injEq, Prod.mk.injEq, and_true, Bool.false_eq_true]
    omega

theorem parseExponent_print (e : Option ℤ) {rest : List Char} (hrest : Ends rest) :
    parseExponent (printExponent e ++ rest) = some (e, rest) := by
  cases e with
  | none =>
    cases rest with
    | nil => rfl
    | cons c rest =>
      have he : c ≠ 'e' := hrest.ne (by simp) (by decide)
      have hE : c ≠ 'E' := hrest.ne (by simp) (by decide)
      simp [printExponent, parseExponent, he, hE]
  | some e =>
    simp [printExponent, parseExponent, parsePower_print e hrest.noDigit]

theorem digitChars_isDigit (ds : List (Fin 10)) : ∀ c ∈ digitChars ds, c.isDigit = true := by
  have hdigit : ∀ d : Fin 10, (Nat.digitChar d.val).isDigit = true := by decide
  intro c hc
  obtain ⟨d, -, rfl⟩ := List.mem_map.mp hc
  exact hdigit d

theorem map_digitOf_digitChars (ds : List (Fin 10)) : (digitChars ds).map digitOf = ds := by
  have hinv : ∀ d : Fin 10, digitOf (Nat.digitChar d) = d := by decide
  rw [digitChars, List.map_map]
  exact (List.map_congr_left fun d _ => hinv d).trans (List.map_id ds)

theorem parseFraction_print (ds : List (Fin 10)) {rest : List Char} (hdigit : NoDigit rest)
    (hpoint : ∀ c ∈ rest.head?, c ≠ '.') :
    parseFraction (printFraction ds ++ rest) = some (ds, rest) := by
  by_cases hds : ds = []
  · subst hds
    cases rest with
    | nil => rfl
    | cons c rest => simp [printFraction, parseFraction, hpoint c (by simp)]
  · obtain ⟨htake, hdrop⟩ := takeDigits_append (digitChars_isDigit ds) hdigit
    have hne : digitChars ds ≠ [] := by simpa [digitChars] using hds
    simp [printFraction, parseFraction, hds, htake, hdrop, hne, map_digitOf_digitChars]

/-- What follows the digits of a number starts with neither a digit nor a point of its own. -/
theorem printExponent_noDigit (e : Option ℤ) {rest : List Char} (hrest : Ends rest) :
    NoDigit (printExponent e ++ rest) ∧ ∀ c ∈ (printExponent e ++ rest).head?, c ≠ '.' := by
  cases e with
  | none => exact ⟨hrest.noDigit, fun c hc => hrest.ne hc (by decide)⟩
  | some e => simp [printExponent, NoDigit]

theorem printFraction_noDigit (ds : List (Fin 10)) {rest : List Char} (hrest : NoDigit rest) :
    NoDigit (printFraction ds ++ rest) := by
  by_cases hds : ds = []
  · simpa [printFraction, hds] using hrest
  · simp [printFraction, hds, NoDigit]

theorem parseNumeral_print (n : Numeral) {rest : List Char} (hrest : Ends rest) :
    parseNumeral (n.print ++ rest) = some (n, rest) := by
  obtain ⟨hnoDigit, hpoint⟩ := printExponent_noDigit n.exponent hrest
  obtain ⟨htake, hdrop⟩ := takeDigits_append (toDigits_isDigit n.whole)
    (printFraction_noDigit n.fraction hnoDigit)
  have hne : Nat.toDigits 10 n.whole ≠ [] := Nat.toDigits_ne_nil
  have hsign : parseSign (n.print ++ rest) =
      (n.negative, Nat.toDigits 10 n.whole ++
        (printFraction n.fraction ++ (printExponent n.exponent ++ rest))) := by
    unfold Numeral.print
    cases n.negative with
    | true => simp [parseSign]
    | false => simpa using parseSign_digits hne (toDigits_isDigit n.whole) _
  have hwhole : ¬ ((Nat.toDigits 10 n.whole).head? = some '0' ∧
      Nat.toDigits 10 n.whole ≠ ['0']) := fun h => h.2 (toDigits_eq_of_head h.1)
  simp [parseNumeral, hsign, htake, hdrop, hne, hwhole, parseFraction_print _ hnoDigit hpoint,
    parseExponent_print _ hrest]

/-! ## Strings -/

/-- A character of a string as it stands in the text, or the number of a `\u` escape. -/
inductive CodeUnit
  | char (c : Char)
  | escaped (n : ℕ)

inductive Scan
  | plain
  | escape
  | hex (value left : ℕ)

def hexVal (c : Char) : Option ℕ :=
  if '0' ≤ c ∧ c ≤ '9' then some (c.toNat - '0'.toNat)
  else if 'a' ≤ c ∧ c ≤ 'f' then some (c.toNat - 'a'.toNat + 10)
  else if 'A' ≤ c ∧ c ≤ 'F' then some (c.toNat - 'A'.toNat + 10)
  else none

def simpleEscape (c : Char) : Option Char :=
  match c with
  | '"' => some '"'
  | '\\' => some '\\'
  | '/' => some '/'
  | 'b' => some '\x08'
  | 'f' => some '\x0c'
  | 'n' => some '\n'
  | 'r' => some '\r'
  | 't' => some '\t'
  | _ => none

def push (u : CodeUnit) (r : List CodeUnit × List Char) : List CodeUnit × List Char :=
  (u :: r.1, r.2)

def scanString : Scan → List Char → Option (List CodeUnit × List Char)
  | _, [] => none
  | .plain, c :: cs =>
    if c = '"' then some ([], cs)
    else if c = '\\' then scanString .escape cs
    else if c.toNat < 0x20 then none
    else (scanString .plain cs).map (push (.char c))
  | .escape, c :: cs =>
    if c = 'u' then scanString (.hex 0 3) cs
    else
      match simpleEscape c with
      | none => none
      | some e => (scanString .plain cs).map (push (.char e))
  | .hex value left, c :: cs =>
    match hexVal c, left with
    | none, _ => none
    | some d, 0 => (scanString .plain cs).map (push (.escaped (16 * value + d)))
    | some d, left + 1 => scanString (.hex (16 * value + d) left) cs

def isHigh (n : ℕ) : Bool := 0xd800 ≤ n && n < 0xdc00

def isLow (n : ℕ) : Bool := 0xdc00 ≤ n && n < 0xe000

/-- A high surrogate still waiting for its low one stands for the replacement character. -/
def unpaired : Option ℕ → List Char
  | none => []
  | some _ => [Utf8.replacement]

def lowCharacter (low : ℕ) : Option ℕ → Char
  | none => Utf8.replacement
  | some high => Char.ofNat (0x10000 + (high - 0xd800) * 0x400 + (low - 0xdc00))

/-- The characters of a string; `high` is the high surrogate that was just escaped. -/
def joinUnits (high : Option ℕ) : List CodeUnit → List Char
  | [] => unpaired high
  | .char c :: us => unpaired high ++ c :: joinUnits none us
  | .escaped n :: us =>
    if isLow n then lowCharacter n high :: joinUnits none us
    else if isHigh n then unpaired high ++ joinUnits (some n) us
    else unpaired high ++ Char.ofNat n :: joinUnits none us

def parseString (cs : List Char) : Option (String × List Char) :=
  (scanString .plain cs).map fun r => (String.ofList (joinUnits none r.1), r.2)

/-- Escaping a character gives one code unit that stands for it. -/
def CodeUnit.StandsFor (u : CodeUnit) (c : Char) : Prop :=
  match u with
  | .char d => d = c
  | .escaped n => n = c.toNat

def LawfulEscape (escape : Char → List Char) : Prop :=
  ∀ c cs, ∃ u : CodeUnit, u.StandsFor c ∧
    scanString .plain (escape c ++ cs) = (scanString .plain cs).map (push u)

theorem not_surrogate (c : Char) : isHigh c.toNat = false ∧ isLow c.toNat = false := by
  have hvalid : c.toNat < 0xd800 ∨ 0xdfff < c.toNat ∧ c.toNat < 0x110000 := c.valid
  simp only [isHigh, isLow, Bool.and_eq_false_iff, decide_eq_false_iff_not]
  omega

theorem joinUnits_standsFor {us : List CodeUnit} {cs : List Char}
    (h : List.Forall₂ CodeUnit.StandsFor us cs) : joinUnits none us = cs := by
  induction h with
  | nil => rfl
  | @cons u c us cs hu _ ih =>
    cases u with
    | char d =>
      obtain rfl : d = c := hu
      simp [joinUnits, unpaired, ih]
    | escaped n =>
      obtain rfl : n = c.toNat := hu
      obtain ⟨hhigh, hlow⟩ := not_surrogate c
      simp [joinUnits, unpaired, hlow, hhigh, ih]

theorem scanString_escaped {escape : Char → List Char} (h : LawfulEscape escape)
    (text rest : List Char) :
    ∃ us, List.Forall₂ CodeUnit.StandsFor us text ∧
      scanString .plain (text.flatMap escape ++ '"' :: rest) = some (us, rest) := by
  induction text with
  | nil => exact ⟨[], .nil, by simp [scanString]⟩
  | cons c text ih =>
    obtain ⟨us, hus, hscan⟩ := ih
    obtain ⟨u, hu, hstep⟩ := h c (text.flatMap escape ++ '"' :: rest)
    refine ⟨u :: us, .cons hu hus, ?_⟩
    rw [List.flatMap_cons, List.append_assoc, hstep, hscan]
    rfl

theorem parseString_escaped {escape : Char → List Char} (h : LawfulEscape escape) (s : String)
    (rest : List Char) :
    parseString (s.toList.flatMap escape ++ '"' :: rest) = some (s, rest) := by
  obtain ⟨us, hus, hscan⟩ := scanString_escaped h s.toList rest
  simp [parseString, hscan, joinUnits_standsFor hus]

/-- The escape letter of the characters that have one. -/
def shortEscape (c : Char) : Option Char :=
  match c with
  | '\\' => some '\\'
  | '"' => some '"'
  | '\x08' => some 'b'
  | '\x0c' => some 'f'
  | '\n' => some 'n'
  | '\r' => some 'r'
  | '\t' => some 't'
  | _ => none

/-- An escaping that codes by number some of the characters without an escape letter. -/
def escapeBy (coded : Char → Bool) (hexDigit : ℕ → Char) (c : Char) : List Char :=
  match shortEscape c with
  | some e => ['\\', e]
  | none =>
    if coded c then
      ['\\', 'u', hexDigit (c.toNat / 4096), hexDigit (c.toNat / 256 % 16),
        hexDigit (c.toNat / 16 % 16), hexDigit (c.toNat % 16)]
    else [c]

theorem simpleEscape_shortEscape {c e : Char} (h : shortEscape c = some e) :
    e ≠ 'u' ∧ simpleEscape e = some c := by
  unfold shortEscape at h
  split at h <;> simp_all [simpleEscape] <;> subst h <;> decide

theorem shortEscape_none {c : Char} (h : shortEscape c = none) : c ≠ '"' ∧ c ≠ '\\' := by
  constructor <;> rintro rfl <;> exact absurd h (by decide)

theorem lawful_escapeBy {coded : Char → Bool} {hexDigit : ℕ → Char}
    (hcoded : ∀ c, coded c = true → c.toNat < 65536)
    (hplain : ∀ c, coded c = false → 0x20 ≤ c.toNat)
    (hhex : ∀ d < 16, hexVal (hexDigit d) = some d) : LawfulEscape (escapeBy coded hexDigit) := by
  intro c cs
  unfold escapeBy
  cases hs : shortEscape c with
  | some e =>
    obtain ⟨hu, he⟩ := simpleEscape_shortEscape hs
    exact ⟨.char c, rfl, by simp [scanString, hu, he]⟩
  | none =>
    cases hc : coded c with
    | true =>
      have hlt := hcoded c hc
      have h₃ := hhex (c.toNat / 4096) (by omega)
      have h₂ := hhex (c.toNat / 256 % 16) (by omega)
      have h₁ := hhex (c.toNat / 16 % 16) (by omega)
      have h₀ := hhex (c.toNat % 16) (by omega)
      have hvalue : 16 * (16 * (16 * (c.toNat / 4096) + c.toNat / 256 % 16) +
          c.toNat / 16 % 16) + c.toNat % 16 = c.toNat := by omega
      refine ⟨.escaped c.toNat, rfl, ?_⟩
      simp [scanString, h₃, h₂, h₁, h₀, hvalue]
    | false =>
      obtain ⟨hquote, hback⟩ := shortEscape_none hs
      exact ⟨.char c, rfl, by simp [scanString, hquote, hback, Nat.not_lt.mpr (hplain c hc)]⟩

/-! ## Values -/

section
variable (escape : Char → List Char)

def quote (s : String) : List Char := '"' :: (s.toList.flatMap escape ++ ['"'])

mutual

def print : Value → List Char
  | .null => ['n', 'u', 'l', 'l']
  | .bool true => ['t', 'r', 'u', 'e']
  | .bool false => ['f', 'a', 'l', 's', 'e']
  | .number n => n.print
  | .string s => quote escape s
  | .array elements => '[' :: (printElements elements ++ [']'])
  | .object members => '{' :: (printMembers members ++ ['}'])

def printElements : List Value → List Char
  | [] => []
  | v :: vs => print v ++ (match vs with
    | [] => []
    | _ :: _ => ',' :: printElements vs)

def printMembers : List (String × Value) → List Char
  | [] => []
  | (k, v) :: ms => quote escape k ++ ':' :: (print v ++ (match ms with
    | [] => []
    | _ :: _ => ',' :: printMembers ms))

end

end

/-! ## The characters of a printed text -/

/-- The characters of a text outside its strings, digits aside. -/
def marks : List Char :=
  ['{', '}', '[', ']', ':', ',', '"', '.', '-', 'e', 'n', 'u', 'l', 't', 'r', 'f', 'a', 's']

/-- A property of characters that a text has throughout when its strings have it. -/
structure Covers (escape : Char → List Char) (P : Char → Prop) : Prop where
  mark : ∀ c ∈ marks, P c
  digit : ∀ c, c.isDigit = true → P c
  escaped : ∀ c, ∀ d ∈ escape c, P d

section
variable {escape : Char → List Char} {P : Char → Prop}

theorem Covers.mem_marks (h : Covers escape P) (cs : List Char) (hcs : cs ⊆ marks) :
    ∀ c ∈ cs, P c := fun c hc => h.mark c (hcs hc)

theorem Covers.toDigits (h : Covers escape P) (n : ℕ) : ∀ c ∈ Nat.toDigits 10 n, P c :=
  fun c hc => h.digit c (toDigits_isDigit n c hc)

theorem Covers.quote (h : Covers escape P) (s : String) : ∀ c ∈ quote escape s, P c := by
  have hmark : P '"' := h.mark '"' (by decide)
  simp only [Json.quote, List.forall_mem_cons, List.forall_mem_append, List.forall_mem_flatMap]
  exact ⟨hmark, fun c _ => h.escaped c, by simpa using hmark⟩

theorem Covers.printInt (h : Covers escape P) (i : ℤ) : ∀ c ∈ printInt i, P c := by
  have hsign : ∀ c ∈ (if i < 0 then ['-'] else []), P c := by
    split_ifs
    · exact h.mem_marks ['-'] (by decide)
    · simp
  rw [Json.printInt, List.forall_mem_append]
  exact ⟨hsign, h.toDigits _⟩

theorem Covers.numeral (h : Covers escape P) (n : Numeral) : ∀ c ∈ n.print, P c := by
  have hsign : ∀ c ∈ (if n.negative then ['-'] else []), P c := by
    split_ifs
    · exact h.mem_marks ['-'] (by decide)
    · simp
  have hfraction : ∀ c ∈ printFraction n.fraction, P c := by
    rw [printFraction]
    split_ifs
    · simp
    · rw [List.forall_mem_cons]
      exact ⟨h.mark '.' (by decide), fun c hc => h.digit c (digitChars_isDigit _ c hc)⟩
  have hexponent : ∀ c ∈ printExponent n.exponent, P c := by
    cases n.exponent with
    | none => simp [printExponent]
    | some e =>
      rw [printExponent, List.forall_mem_cons]
      exact ⟨h.mark 'e' (by decide), h.printInt e⟩
  simp only [Numeral.print, List.forall_mem_append]
  exact ⟨hsign, h.toDigits _, hfraction, hexponent⟩

mutual

theorem Covers.print (h : Covers escape P) : ∀ v, ∀ c ∈ Json.print escape v, P c
  | .null => h.mem_marks ['n', 'u', 'l', 'l'] (by decide)
  | .bool true => h.mem_marks ['t', 'r', 'u', 'e'] (by decide)
  | .bool false => h.mem_marks ['f', 'a', 'l', 's', 'e'] (by decide)
  | .number n => h.numeral n
  | .string s => h.quote s
  | .array elements => by
    simp only [Json.print, List.forall_mem_cons, List.forall_mem_append]
    exact ⟨h.mark '[' (by decide), h.printElements elements, h.mark ']' (by decide), by simp⟩
  | .object members => by
    simp only [Json.print, List.forall_mem_cons, List.forall_mem_append]
    exact ⟨h.mark '{' (by decide), h.printMembers members, h.mark '}' (by decide), by simp⟩

theorem Covers.printElements (h : Covers escape P) :
    ∀ vs, ∀ c ∈ Json.printElements escape vs, P c
  | [] => by simp [Json.printElements]
  | [v] => by simpa [Json.printElements] using h.print v
  | v :: w :: vs => by
    rw [Json.printElements]
    simp only [List.forall_mem_cons, List.forall_mem_append]
    exact ⟨h.print v, h.mark ',' (by decide), h.printElements (w :: vs)⟩

theorem Covers.printMembers (h : Covers escape P) :
    ∀ ms, ∀ c ∈ Json.printMembers escape ms, P c
  | [] => by simp [Json.printMembers]
  | [(k, v)] => by
    simp only [Json.printMembers, List.forall_mem_cons, List.forall_mem_append]
    exact ⟨h.quote k, h.mark ':' (by decide), h.print v, by simp⟩
  | (k, v) :: m :: ms => by
    rw [Json.printMembers]
    simp only [List.forall_mem_cons, List.forall_mem_append]
    exact ⟨h.quote k, h.mark ':' (by decide), h.print v, h.mark ',' (by decide),
      h.printMembers (m :: ms)⟩

end

end

def skipWhite (cs : List Char) : List Char := cs.dropWhile isWhite

def parseWord (word : List Char) (v : Value) (cs : List Char) : Option (Value × List Char) :=
  (cs.dropPrefix? word).map fun rest => (v, rest)

mutual

def parseValue : ℕ → List Char → Option (Value × List Char)
  | 0, _ => none
  | fuel + 1, cs =>
    match skipWhite cs with
    | [] => none
    | c :: cs =>
      if c = '"' then (parseString cs).map fun r => (.string r.1, r.2)
      else if c = '[' then
        match skipWhite cs with
        | ']' :: cs => some (.array [], cs)
        | cs => (parseElements fuel cs).map fun r => (.array r.1, r.2)
      else if c = '{' then
        match skipWhite cs with
        | '}' :: cs => some (.object [], cs)
        | cs => (parseMembers fuel cs).map fun r => (.object r.1, r.2)
      else if c = 'n' then parseWord ['u', 'l', 'l'] .null cs
      else if c = 't' then parseWord ['r', 'u', 'e'] (.bool true) cs
      else if c = 'f' then parseWord ['a', 'l', 's', 'e'] (.bool false) cs
      else (parseNumeral (c :: cs)).map fun r => (.number r.1, r.2)

def parseElements : ℕ → List Char → Option (List Value × List Char)
  | 0, _ => none
  | fuel + 1, cs => do
    let (v, cs) ← parseValue fuel cs
    match skipWhite cs with
    | ',' :: cs => (parseElements fuel cs).map fun r => (v :: r.1, r.2)
    | ']' :: cs => some ([v], cs)
    | _ => none

def parseMembers : ℕ → List Char → Option (List (String × Value) × List Char)
  | 0, _ => none
  | fuel + 1, cs =>
    match skipWhite cs with
    | '"' :: cs => do
      let (k, cs) ← parseString cs
      match skipWhite cs with
      | ':' :: cs => do
        let (v, cs) ← parseValue fuel cs
        match skipWhite cs with
        | ',' :: cs => (parseMembers fuel cs).map fun r => ((k, v) :: r.1, r.2)
        | '}' :: cs => some ([(k, v)], cs)
        | _ => none
      | _ => none
    | _ => none

end

/-- No value takes more fuel than its text has characters. -/
def parse (cs : List Char) : Option Value :=
  match parseValue (cs.length + 1) cs with
  | none => none
  | some (v, rest) => if skipWhite rest = [] then some v else none

/-! ## What is printed parses to itself -/

theorem numeral_head (n : Numeral) :
    ∃ c cs, n.print = c :: cs ∧ (c = '-' ∨ c.isDigit = true) := by
  unfold Numeral.print
  cases n.negative with
  | true => exact ⟨'-', _, rfl, .inl rfl⟩
  | false =>
    cases hds : Nat.toDigits 10 n.whole with
    | nil => exact absurd hds Nat.toDigits_ne_nil
    | cons c ds => exact ⟨c, _, rfl, .inr (toDigits_isDigit n.whole c (by simp [hds]))⟩

theorem skipWhite_cons {c : Char} (h : isWhite c = false) (cs : List Char) :
    skipWhite (c :: cs) = c :: cs := by
  simp [skipWhite, h]

section
variable {escape : Char → List Char}

theorem print_head (escape : Char → List Char) (v : Value) :
    ∃ c cs, print escape v = c :: cs ∧ isWhite c = false ∧ c ≠ ']' := by
  cases v with
  | null => exact ⟨'n', _, rfl, rfl, by decide⟩
  | bool b =>
    cases b with
    | true => exact ⟨'t', _, rfl, rfl, by decide⟩
    | false => exact ⟨'f', _, rfl, rfl, by decide⟩
  | number n =>
    obtain ⟨c, cs, hprint, hc⟩ := numeral_head n
    refine ⟨c, cs, hprint, ?_, ?_⟩
    · rcases hc with rfl | hc
      · rfl
      · by_contra hwhite
        have hnoDigit : c.isDigit = false :=
          (ends_cons (.inl (by simpa using hwhite)) []).noDigit c (by simp)
        exact absurd (hc.symm.trans hnoDigit) (by decide)
    · rintro rfl
      rcases hc with hc | hc
      · exact absurd hc (by decide)
      · exact absurd hc (by decide)
  | string s => exact ⟨'"', _, rfl, rfl, by decide⟩
  | array elements => exact ⟨'[', _, rfl, rfl, by decide⟩
  | object members => exact ⟨'{', _, rfl, rfl, by decide⟩

theorem parseValue_number (n : Numeral) (fuel : ℕ) {rest : List Char} (hrest : Ends rest) :
    parseValue (fuel + 1) (n.print ++ rest) = some (.number n, rest) := by
  obtain ⟨c, cs, hprint, hwhite, -⟩ := print_head (fun c => [c]) (.number n)
  obtain ⟨c', cs', hprint', hc⟩ := numeral_head n
  obtain ⟨rfl, rfl⟩ : c = c' ∧ cs = cs' := by
    have heq : c :: cs = c' :: cs' := hprint.symm.trans hprint'
    simpa using heq
  have hdispatch : c ≠ '"' ∧ c ≠ '[' ∧ c ≠ '{' ∧ c ≠ 'n' ∧ c ≠ 't' ∧ c ≠ 'f' := by
    refine ⟨?_, ?_, ?_, ?_, ?_, ?_⟩ <;> rintro rfl <;> revert hc <;> decide
  have hparse := parseNumeral_print n hrest
  rw [hprint'] at hparse ⊢
  rw [List.cons_append] at hparse ⊢
  simp [parseValue, skipWhite_cons hwhite, hdispatch, hparse]

theorem parseValue_string (h : LawfulEscape escape) (s : String) (fuel : ℕ) (rest : List Char) :
    parseValue (fuel + 1) (quote escape s ++ rest) = some (.string s, rest) := by
  have hparse := parseString_escaped h s rest
  have hwhite : isWhite '"' = false := rfl
  simp [parseValue, quote, skipWhite_cons hwhite, hparse]

/-- With this much fuel the parser reads back what is printed. -/
structure Parses (escape : Char → List Char) (fuel : ℕ) : Prop where
  value : ∀ v rest, (print escape v).length ≤ fuel → Ends rest →
    parseValue fuel (print escape v ++ rest) = some (v, rest)
  elements : ∀ v vs rest, (printElements escape (v :: vs)).length + 1 ≤ fuel →
    parseElements fuel (printElements escape (v :: vs) ++ ']' :: rest) = some (v :: vs, rest)
  members : ∀ m ms rest, (printMembers escape (m :: ms)).length + 1 ≤ fuel →
    parseMembers fuel (printMembers escape (m :: ms) ++ '}' :: rest) = some (m :: ms, rest)

theorem parseWord_append (word rest : List Char) (v : Value) :
    parseWord word v (word ++ rest) = some (v, rest) := by
  have hdrop : (word ++ rest).dropPrefix? word = some rest := by
    induction word with
    | nil => simp
    | cons c word ih => simpa [List.dropPrefix?] using ih
  simp [parseWord, hdrop]

theorem printElements_head (escape : Char → List Char) (v : Value) (vs : List Value) :
    ∃ c cs, printElements escape (v :: vs) = c :: cs ∧ isWhite c = false ∧ c ≠ ']' := by
  obtain ⟨c, cs, hprint, hc⟩ := print_head escape v
  cases vs with
  | nil => exact ⟨c, _, by rw [printElements, hprint, List.cons_append], hc⟩
  | cons w vs => exact ⟨c, _, by rw [printElements, hprint, List.cons_append], hc⟩

theorem printMembers_head (escape : Char → List Char) (m : String × Value)
    (ms : List (String × Value)) :
    ∃ cs, printMembers escape (m :: ms) = '"' :: cs :=
  ⟨_, rfl⟩

theorem parses_value (h : LawfulEscape escape) {fuel : ℕ} (ih : Parses escape fuel) (v : Value)
    (rest : List Char) (hfuel : (print escape v).length ≤ fuel + 1) (hrest : Ends rest) :
    parseValue (fuel + 1) (print escape v ++ rest) = some (v, rest) := by
  cases v with
  | null =>
    have hword := parseWord_append ['u', 'l', 'l'] rest .null
    simpa [print, parseValue, skipWhite, isWhite] using hword
  | bool b =>
    cases b with
    | true =>
      have hword := parseWord_append ['r', 'u', 'e'] rest (.bool true)
      simpa [print, parseValue, skipWhite, isWhite] using hword
    | false =>
      have hword := parseWord_append ['a', 'l', 's', 'e'] rest (.bool false)
      simpa [print, parseValue, skipWhite, isWhite] using hword
  | number n => exact parseValue_number n fuel hrest
  | string s => exact parseValue_string h s fuel rest
  | array elements =>
    cases elements with
    | nil => simp [print, printElements, parseValue, skipWhite, isWhite]
    | cons v vs =>
      have hlength : (printElements escape (v :: vs)).length + 1 ≤ fuel := by
        simpa [print] using hfuel
      have helements := ih.elements v vs rest hlength
      obtain ⟨c, cs, hprint, hwhite, hc⟩ := printElements_head escape v vs
      have hopen : isWhite '[' = false := rfl
      rw [hprint, List.cons_append] at helements
      simp [print, parseValue, skipWhite_cons hopen, hprint, skipWhite_cons hwhite, hc, helements]
  | object members =>
    cases members with
    | nil => simp [print, printMembers, parseValue, skipWhite, isWhite]
    | cons m ms =>
      have hlength : (printMembers escape (m :: ms)).length + 1 ≤ fuel := by
        simpa [print] using hfuel
      have hmembers := ih.members m ms rest hlength
      obtain ⟨cs, hprint⟩ := printMembers_head escape m ms
      have hopen : isWhite '{' = false := rfl
      have hquote : isWhite '"' = false := rfl
      rw [hprint, List.cons_append] at hmembers
      simp [print, parseValue, skipWhite_cons hopen, hprint, skipWhite_cons hquote, hmembers]

theorem parses_elements {fuel : ℕ} (ih : Parses escape fuel) (v : Value) (vs : List Value)
    (rest : List Char) (hfuel : (printElements escape (v :: vs)).length + 1 ≤ fuel + 1) :
    parseElements (fuel + 1) (printElements escape (v :: vs) ++ ']' :: rest) =
      some (v :: vs, rest) := by
  cases vs with
  | nil =>
    have hv := ih.value v (']' :: rest) (by simpa [printElements] using hfuel)
      (ends_cons (by simp) rest)
    have hclose : isWhite ']' = false := rfl
    simp [parseElements, printElements, hv, skipWhite_cons hclose]
  | cons w vs =>
    have hlength : (print escape v).length + ((printElements escape (w :: vs)).length + 1) ≤
        fuel := by
      rw [printElements] at hfuel
      simpa using hfuel
    have hv := ih.value v (',' :: (printElements escape (w :: vs) ++ ']' :: rest)) (by omega)
      (ends_cons (by simp) _)
    have hvs := ih.elements w vs rest (by omega)
    have hcomma : isWhite ',' = false := rfl
    rw [printElements]
    simp only [List.append_assoc, List.cons_append]
    simp [parseElements, hv, skipWhite_cons hcomma, hvs]

theorem parses_members (h : LawfulEscape escape) {fuel : ℕ} (ih : Parses escape fuel)
    (m : String × Value) (ms : List (String × Value)) (rest : List Char)
    (hfuel : (printMembers escape (m :: ms)).length + 1 ≤ fuel + 1) :
    parseMembers (fuel + 1) (printMembers escape (m :: ms) ++ '}' :: rest) =
      some (m :: ms, rest) := by
  obtain ⟨k, v⟩ := m
  have hquote : isWhite '"' = false := rfl
  have hcolon : isWhite ':' = false := rfl
  cases ms with
  | nil =>
    have hv := ih.value v ('}' :: rest)
      (by simp [printMembers, quote] at hfuel; omega) (ends_cons (by simp) rest)
    have hk := parseString_escaped h k (':' :: (print escape v ++ '}' :: rest))
    have hclose : isWhite '}' = false := rfl
    simp [parseMembers, printMembers, quote, skipWhite_cons hquote, hk, skipWhite_cons hcolon, hv,
      skipWhite_cons hclose]
  | cons n ms =>
    have hlength : (print escape v).length + ((printMembers escape (n :: ms)).length + 1) ≤
        fuel := by
      rw [printMembers] at hfuel
      simp [quote] at hfuel
      omega
    have hv := ih.value v (',' :: (printMembers escape (n :: ms) ++ '}' :: rest)) (by omega)
      (ends_cons (by simp) _)
    have hms := ih.members n ms rest (by omega)
    have hk := parseString_escaped h k
      (':' :: (print escape v ++ ',' :: (printMembers escape (n :: ms) ++ '}' :: rest)))
    have hcomma : isWhite ',' = false := rfl
    rw [printMembers]
    simp only [quote, List.append_assoc, List.cons_append, List.nil_append]
    simp [parseMembers, skipWhite_cons hquote, hk, skipWhite_cons hcolon, hv,
      skipWhite_cons hcomma, hms]

theorem parses (h : LawfulEscape escape) (fuel : ℕ) : Parses escape fuel := by
  induction fuel with
  | zero =>
    refine ⟨fun v rest hfuel => ?_, fun v vs rest hfuel => ?_, fun m ms rest hfuel => ?_⟩
    · obtain ⟨c, cs, hprint, -⟩ := print_head escape v
      simp [hprint] at hfuel
    · simp at hfuel
    · simp at hfuel
  | succ fuel ih =>
    exact ⟨parses_value h ih, parses_elements ih, parses_members h ih⟩

/-- A printed value followed by white space only parses to itself. -/
theorem parse_print (h : LawfulEscape escape) (v : Value) {rest : List Char}
    (hrest : ∀ c ∈ rest, isWhite c = true) : parse (print escape v ++ rest) = some v := by
  have hends : Ends rest := fun c hc => .inl (hrest c (List.mem_of_mem_head? hc))
  have hvalue := (parses h ((print escape v ++ rest).length + 1)).value v rest (by simp; omega)
    hends
  have hblank : skipWhite rest = [] := List.dropWhile_eq_nil_iff.mpr hrest
  simp only [parse, hvalue, hblank, ↓reduceIte]

end

end Json
