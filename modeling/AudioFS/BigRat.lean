import AudioFS.Json
import Mathlib.Data.Rat.Lemmas

/-!
# Rationals as text

`MarshalText` of `big.Rat`, and the part of `SetString` that reads decimal
integers and fractions of them.
-/

namespace BigRat
open Json

def marshalText (q : ℚ) : String :=
  String.ofList (printInt q.num ++ if q.den = 1 then [] else '/' :: Nat.toDigits 10 q.den)

/-- What `SetString` documents of the text `MarshalText` writes. -/
def ReadsBack (setString : String → Option ℚ) : Prop := ∀ q, setString (marshalText q) = some q

def decimalSetString (s : String) : Option ℚ :=
  match parsePower s.toList with
  | none => none
  | some (num, []) => some num
  | some (num, c :: digits) =>
    if c = '/' ∧ digits ≠ [] ∧ digits.all Char.isDigit ∧ Nat.ofDigitChars 10 digits 0 ≠ 0 then
      some ((num : ℚ) / (Nat.ofDigitChars 10 digits 0 : ℕ))
    else none

theorem decimalSetString_readsBack : ReadsBack decimalSetString := by
  intro q
  by_cases hden : q.den = 1
  · have hparse := parsePower_print q.num (by simp [NoDigit] : NoDigit [])
    rw [List.append_nil] at hparse
    simpa [decimalSetString, marshalText, hden, hparse] using Rat.den_eq_one_iff q |>.mp hden
  · have hslash : NoDigit ('/' :: Nat.toDigits 10 q.den) := by simp [NoDigit]
    have hparse := parsePower_print q.num hslash
    have hdigits : (Nat.toDigits 10 q.den).all Char.isDigit = true :=
      List.all_eq_true.mpr (toDigits_isDigit q.den)
    have hfraction : (q.num : ℚ) / (q.den : ℚ) = q := Rat.num_div_den q
    simp only [decimalSetString, marshalText, hden, ↓reduceIte, String.toList_ofList, hparse,
      Nat.ofDigitChars_ten_toDigits, hdigits, hfraction]
    simp [Nat.toDigits_ne_nil, q.den_nz]

end BigRat
