import Mathlib.Tactic

/-!
# Fixed-width integers of the C code

The macros of `macros.h` that mix widths, and the value of each conversion the
memory file relies on. Every later bound is an `omega` fact about `toNat` and
`toInt` obtained from these equations.
-/

namespace AudioFS.CInteger

def INT32_MAX : Int32 := 2147483647
def INT64_MAX : UInt64 := 9223372036854775807

/-- `INT32(X)`: the low 31 bits, reinterpreted as a signed 32-bit value. -/
def int32 (x : UInt64) : Int32 := (x &&& 2147483647).toUInt32.toInt32

def toU64 (n : Int32) : UInt64 := n.toInt64.toUInt64

/-- `WITHIN_BOUNDS(min, check, max)` with a signed `check` and an unsigned `max`:
the first comparison is signed, the second is not. -/
def withinBounds (lo check : Int64) (hi : UInt64) : UInt64 :=
  if lo < check then (if check.toUInt64 ≤ hi then check.toUInt64 else hi) else lo.toUInt64

/-- `MAX(X, Y)` of two `int` operands. -/
def maxOf (x y : Int32) : Int32 := if y < x then x else y

theorem INT64_MAX_toNat : INT64_MAX.toNat = 2 ^ 63 - 1 := rfl

theorem toNat_toUInt64 (x : Int64) : (x.toUInt64.toNat : ℤ) = x.toInt % 2 ^ 64 := by
  change (x.toBitVec.toNat : ℤ) = x.toBitVec.toInt % 2 ^ 64
  rw [BitVec.toInt_eq_toNat_cond]
  have h := x.toBitVec.isLt
  split <;> omega

theorem toInt_toInt64 (x : UInt64) :
    x.toInt64.toInt = if x.toNat < 2 ^ 63 then (x.toNat : ℤ) else x.toNat - 2 ^ 64 := by
  change x.toBitVec.toInt = _
  rw [BitVec.toInt_eq_toNat_cond]
  have h : x.toBitVec.toNat = x.toNat := rfl
  rw [h]
  split <;> split <;> omega

theorem toInt_int32 (x : UInt64) : (int32 x).toInt = (x.toNat % 2 ^ 31 : ℕ) := by
  have h : (x &&& 2147483647).toUInt32.toNat = x.toNat % 2 ^ 31 := by
    rw [UInt64.toNat_toUInt32, UInt64.toNat_and]
    have hmask : (2147483647 : UInt64).toNat = 2 ^ 31 - 1 := rfl
    rw [hmask, Nat.and_two_pow_sub_one_eq_mod]
    omega
  change (x &&& 2147483647).toUInt32.toBitVec.toInt = _
  rw [BitVec.toInt_eq_toNat_cond]
  have hbits : (x &&& 2147483647).toUInt32.toBitVec.toNat = (x &&& 2147483647).toUInt32.toNat := rfl
  rw [hbits, h]
  split <;> omega

theorem toNat_toU64 {n : Int32} (h : 0 ≤ n.toInt) : (toU64 n).toNat = n.toInt.toNat := by
  have hv := toNat_toUInt64 n.toInt64
  rw [Int32.toInt_toInt64] at hv
  have hlt := n.toInt_lt
  unfold toU64
  omega

theorem toInt_int32_toU64 {n : Int32} (h : 0 ≤ n.toInt) : (int32 (toU64 n)).toInt = n.toInt := by
  rw [toInt_int32, toNat_toU64 h]
  have hlt := n.toInt_lt
  omega

theorem toNat_add_of_lt {a b : UInt64} (h : a.toNat + b.toNat < 2 ^ 64) :
    (a + b).toNat = a.toNat + b.toNat := by
  rw [UInt64.toNat_add, Nat.mod_eq_of_lt h]

theorem toNat_sub_of_ge {a b : UInt64} (h : b.toNat ≤ a.toNat) :
    (a - b).toNat = a.toNat - b.toNat := by
  rw [UInt64.toNat_sub]
  have ha := a.toNat_lt
  omega

/-- The bound never tests `check` against an empty file: the macro's value is zero, and so
false, exactly for a non-positive target or when the file itself is empty. -/
theorem withinBounds_eq_zero_iff (check : Int64) (hi : UInt64) :
    withinBounds 0 check hi = 0 ↔ check.toInt ≤ 0 ∨ hi = 0 := by
  have hzero : (0 : Int64).toInt = 0 := rfl
  have hval := toNat_toUInt64 check
  have hlt := check.toInt_lt
  simp only [withinBounds, Int64.lt_iff_toInt_lt, hzero, UInt64.le_iff_toNat_le]
  by_cases hpos : 0 < check.toInt
  · have hne : check.toUInt64 ≠ 0 := by
      intro h
      rw [h, UInt64.toNat_zero] at hval
      omega
    by_cases hle : check.toUInt64.toNat ≤ hi.toNat
    · have hhi : hi ≠ 0 := by
        rintro rfl
        rw [UInt64.toNat_zero] at hle
        omega
      simp [hpos, hle, hne, hhi]
    · simp [hpos, hle]
  · simp only [if_neg hpos]
    exact iff_of_true rfl (Or.inl (by omega))

end AudioFS.CInteger
