import AudioFS.BigRat
import AudioFS.FileMetadata
import Mathlib.Data.Rat.Lemmas
import Mathlib.Data.Int.GCD
import Mathlib.RingTheory.Coprime.Lemmas
import Mathlib.Tactic.FieldSimp
import Mathlib.Tactic.Ring

/-!
# The three spellings of a time base

`time_base`, `time_base_num` and `time_base_den` say the same thing twice. Which
documents leave a stream whose spellings agree is decided on the parts a document
carries: a reduced fraction may only be completed by the other half of itself.
-/

namespace AudioFS.FileMetadata
open Json GoJson BigRat

/-- No time base and no denominator, or a time base that is the fraction of the two parts. -/
def Stream.Consistent (s : Stream) : Prop :=
  (s.timeBase = none ∧ s.timeBaseDen = 0) ∨
    (s.timeBaseDen ≠ 0 ∧ s.timeBase = some (newRat s.timeBaseNum s.timeBaseDen))

instance (s : Stream) : Decidable s.Consistent := inferInstanceAs (Decidable (_ ∨ _))

def Fits (i : ℤ) : Prop := -2 ^ 63 ≤ i ∧ i < 2 ^ 63

instance (i : ℤ) : Decidable (Fits i) := inferInstanceAs (Decidable (_ ∧ _))

/-- The parts next to a time base complete it. The cases of `2 ^ 63` are those in which the low
64 bits of a part that does not fit are its negative. -/
def Stream.AgreesWith (s : Stream) (q : ℚ) : Prop :=
  if s.timeBaseNum = 0 then
    if s.timeBaseDen = 0 then Fits q.num ∧ Fits q.den
    else q = 0 ∨ (Fits q.num ∧ s.timeBaseDen.toInt = q.den) ∨
      (q.num = 2 ^ 63 ∧ s.timeBaseDen.toInt = -q.den)
  else
    if s.timeBaseDen = 0 then (Fits q.den ∧ s.timeBaseNum.toInt = q.num) ∨
      (q.den = 2 ^ 63 ∧ s.timeBaseNum.toInt = -q.num)
    else q = newRat s.timeBaseNum s.timeBaseDen

def Stream.PartsAgree (s : Stream) : Prop := ∀ q, s.timeBase = some q → s.AgreesWith q

/-- The low 64 bits of an integer. -/
def low64 (i : ℤ) : ℤ := (Int64.ofInt i).toInt

theorem low64_fits (i : ℤ) : Fits (low64 i) := ⟨Int64.le_toInt _, Int64.toInt_lt _⟩

theorem low64_of_fits {i : ℤ} (h : Fits i) : low64 i = i := Int64.toInt_ofInt_of_le h.1 h.2

theorem eq_newRat_iff (q : ℚ) {num den : Int64} (hden : den.toInt ≠ 0) :
    q = newRat num den ↔ q.num * den.toInt = num.toInt * q.den := by
  have hd : (den.toInt : ℚ) ≠ 0 := by exact_mod_cast hden
  have hq : (q.den : ℚ) ≠ 0 := by exact_mod_cast q.den_nz
  rw [newRat]
  nth_rewrite 1 [← Rat.num_div_den q]
  rw [div_eq_div_iff hq hd]
  norm_cast

theorem ne_and_eq_newRat_iff (q : ℚ) (num den : Int64) :
    (den ≠ 0 ∧ q = newRat num den) ↔
      den.toInt ≠ 0 ∧ q.num * den.toInt = num.toInt * q.den := by
  have hzero : den ≠ 0 ↔ den.toInt ≠ 0 := by
    rw [← Int64.toInt_zero, ne_eq, ne_eq, Int64.toInt_inj]
  rw [hzero]
  exact and_congr_right fun hden => eq_newRat_iff q hden

theorem num_den_coprime (q : ℚ) : IsCoprime q.num (q.den : ℤ) :=
  Int.isCoprime_iff_gcd_eq_one.mpr q.reduced

theorem den_agrees_iff (q : ℚ) (num : ℤ) :
    (low64 q.den ≠ 0 ∧ q.num * low64 q.den = num * q.den) ↔
      (Fits q.den ∧ num = q.num) ∨ (q.den = 2 ^ 63 ∧ num = -q.num) := by
  have hpos : (0 : ℤ) < q.den := by exact_mod_cast q.den_pos
  have hbig : low64 (2 ^ 63) = -2 ^ 63 := by decide
  constructor
  · rintro ⟨hne, heq⟩
    by_cases hfits : Fits q.den
    · rw [low64_of_fits hfits] at heq
      exact .inl ⟨hfits, (mul_right_cancel₀ hpos.ne' heq).symm⟩
    · -- the denominator divides its own low bits, so it is the one power of two it can be
      have hdvd : (q.den : ℤ) ∣ low64 q.den :=
        (num_den_coprime q).symm.dvd_of_dvd_mul_left ⟨num, by rw [heq, mul_comm]⟩
      have hle := Int.natAbs_le_of_dvd_ne_zero hdvd hne
      obtain ⟨hlow, hhigh⟩ := low64_fits q.den
      have hden : (q.den : ℤ) = 2 ^ 63 := by
        simp only [Fits] at hfits
        omega
      rw [hden, hbig] at heq
      exact .inr ⟨by exact_mod_cast hden, by omega⟩
  · rintro (⟨hfits, rfl⟩ | ⟨hden, rfl⟩)
    · rw [low64_of_fits hfits]
      exact ⟨hpos.ne', rfl⟩
    · have hden' : (q.den : ℤ) = 2 ^ 63 := by exact_mod_cast hden
      rw [hden', hbig]
      exact ⟨by decide, by ring⟩

theorem num_agrees_iff (q : ℚ) {den : ℤ} (hden : den ≠ 0) :
    q.num * den = low64 q.num * q.den ↔
      q = 0 ∨ (Fits q.num ∧ den = q.den) ∨ (q.num = 2 ^ 63 ∧ den = -q.den) := by
  have hpos : (0 : ℤ) < q.den := by exact_mod_cast q.den_pos
  have hbig : low64 (2 ^ 63) = -2 ^ 63 := by decide
  constructor
  · intro heq
    by_cases hzero : q = 0
    · exact .inl hzero
    have hnum : q.num ≠ 0 := Rat.num_ne_zero.mpr hzero
    by_cases hfits : Fits q.num
    · rw [low64_of_fits hfits] at heq
      exact .inr (.inl ⟨hfits, mul_left_cancel₀ hnum heq⟩)
    · have hne : low64 q.num ≠ 0 := by
        intro hlow
        rw [hlow, zero_mul] at heq
        exact mul_ne_zero hnum hden heq
      have hdvd : q.num ∣ low64 q.num :=
        (num_den_coprime q).dvd_of_dvd_mul_right ⟨den, heq.symm⟩
      have hle := Int.natAbs_le_of_dvd_ne_zero hdvd hne
      obtain ⟨hlow, hhigh⟩ := low64_fits q.num
      have hnum' : q.num = 2 ^ 63 := by
        simp only [Fits] at hfits
        omega
      rw [hnum', hbig] at heq
      exact .inr (.inr ⟨hnum', by omega⟩)
  · rintro (rfl | ⟨hfits, rfl⟩ | ⟨hnum, rfl⟩)
    · simp [low64]
    · rw [low64_of_fits hfits]
    · rw [hnum, hbig]
      ring

theorem both_agree_iff (q : ℚ) :
    (low64 q.den ≠ 0 ∧ q.num * low64 q.den = low64 q.num * q.den) ↔ Fits q.num ∧ Fits q.den := by
  rw [den_agrees_iff]
  constructor
  · rintro (⟨hden, hnum⟩ | ⟨hden, hnum⟩)
    · exact ⟨hnum ▸ low64_fits q.num, hden⟩
    · -- both parts would be even
      have hmod : low64 q.num = q.num.bmod (2 ^ 64) := Int64.toInt_ofInt
      have hdvd : (2 : ℤ) ∣ q.num := by
        rw [hnum, Int.bmod_def] at hmod
        omega
      have hunit : IsUnit (2 : ℤ) :=
        (num_den_coprime q).isUnit_of_dvd' hdvd ⟨2 ^ 62, by rw [hden]; norm_num⟩
      rcases Int.isUnit_iff.mp hunit with h | h <;> omega
  · rintro ⟨hnum, hden⟩
    exact .inl ⟨hden, low64_of_fits hnum⟩

theorem consistent_fillTimeBase_none {s : Stream} (h : s.timeBase = none) :
    s.fillTimeBase.Consistent := by
  by_cases hd : s.timeBaseDen = 0
  · have hskip : s.fillTimeBase = s := by simp [Stream.fillTimeBase, h, hd]
    rw [hskip]
    exact .inl ⟨h, hd⟩
  · right
    by_cases hn : s.timeBaseNum = 0
    · have hzero : newRat 0 s.timeBaseDen = 0 := by simp [newRat]
      simp [Stream.fillTimeBase, Stream.fillParts, filledPart, h, hd, hn, hzero]
    · simp [Stream.fillTimeBase, Stream.fillParts, filledPart, h, hd, hn]

theorem consistent_fillTimeBase_some {s : Stream} {q : ℚ} (h : s.timeBase = some q) :
    s.fillTimeBase.Consistent ↔
      filledPart s.timeBaseDen q.den ≠ 0 ∧
        q = newRat (filledPart s.timeBaseNum q.num) (filledPart s.timeBaseDen q.den) := by
  simp [Stream.Consistent, Stream.fillTimeBase, Stream.fillParts, h]

theorem filledParts_agree_iff (s : Stream) (q : ℚ) :
    (filledPart s.timeBaseDen q.den ≠ 0 ∧
      q = newRat (filledPart s.timeBaseNum q.num) (filledPart s.timeBaseDen q.den)) ↔
    s.AgreesWith q := by
  unfold Stream.AgreesWith
  by_cases hn : s.timeBaseNum = 0 <;> by_cases hd : s.timeBaseDen = 0
  · simp only [filledPart, hn, hd, ↓reduceIte]
    rw [ne_and_eq_newRat_iff]
    exact both_agree_iff q
  · have hden : s.timeBaseDen.toInt ≠ 0 := by
      rwa [← Int64.toInt_zero, ne_eq, Int64.toInt_inj]
    simp only [filledPart, hn, hd, ↓reduceIte]
    rw [ne_and_eq_newRat_iff, and_iff_right hden]
    exact num_agrees_iff q hden
  · simp only [filledPart, hn, hd, ↓reduceIte]
    rw [ne_and_eq_newRat_iff]
    exact den_agrees_iff q s.timeBaseNum.toInt
  · simp only [filledPart, hn, hd, ↓reduceIte]
    exact and_iff_right hd

theorem consistent_fillTimeBase_iff (s : Stream) :
    s.fillTimeBase.Consistent ↔ s.PartsAgree := by
  cases htb : s.timeBase with
  | none =>
    have hagree : s.PartsAgree := fun q hq => by simp [htb] at hq
    exact ⟨fun _ => hagree, fun _ => consistent_fillTimeBase_none htb⟩
  | some q =>
    rw [consistent_fillTimeBase_some htb, filledParts_agree_iff]
    simp [Stream.PartsAgree, htb]

/-- Every stream of an accepted document has one time base exactly when, in every stream that
carries one, the parts next to it complete it. -/
theorem unmarshalJSON_consistent_iff (setString : String → Option ℚ) (data : List UInt8) :
    (∀ f, unmarshalJSON setString data = some f →
      ∀ s ∈ f.streams.getD [], s.Consistent) ↔
    ∀ f, unmarshalPlain setString data = some f → ∀ s ∈ f.streams.getD [], s.PartsAgree := by
  unfold unmarshalJSON
  cases unmarshalPlain setString data with
  | none => simp
  | some f =>
    cases hs : f.streams with
    | none => simp [Metadata.fillTimeBase, hs]
    | some streams =>
      simp [Metadata.fillTimeBase, hs, consistent_fillTimeBase_iff]

/-- A time base next to twice its denominator, without the numerator. -/
def halves : Value :=
  .object [("streams", .array [.object [("time_base", .string "1/2"), ("time_base_den", .int 4)]])]

def oneQuarter : Stream := { timeBaseNum := 1, timeBaseDen := 4, timeBase := some (1 / 2) }

theorem unmarshalJSON_halves :
    unmarshalJSON decimalSetString (marshal halves) = some { streams := some [oneQuarter] } := by
  rw [unmarshalJSON, unmarshalPlain, unmarshal_marshal, Option.bind_some]
  decide +kernel

/-- The numerator is filled in from the reduced fraction, next to the denominator that was
there. -/
theorem half_filled_in_as_quarter :
    ¬ ∀ f, unmarshalJSON decimalSetString (marshal halves) = some f →
      ∀ s ∈ f.streams.getD [], s.Consistent := by
  intro h
  have hs : oneQuarter.Consistent := h _ unmarshalJSON_halves oneQuarter (by simp)
  exact absurd hs (by decide +kernel)

end AudioFS.FileMetadata
