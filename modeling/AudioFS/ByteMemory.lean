import Mathlib.Data.List.Basic
import Mathlib.Tactic.Ring

/-!
# Byte-addressed memory

A flat memory, little-endian words in it, and ranges of addresses. A word is known by
its bytes: what leaves the bytes alone leaves the word alone, and a word just stored is
read back up to its width.
-/

namespace ByteMemory

abbrev Memory := ℕ → UInt8

def load (m : Memory) : ℕ → ℕ → ℕ
  | _, 0 => 0
  | a, n + 1 => (m a).toNat + 256 * load m (a + 1) n

def store (m : Memory) (a n v : ℕ) : Memory :=
  fun x => if a ≤ x ∧ x < a + n then UInt8.ofNat (v / 256 ^ (x - a)) else m x

theorem store_outside (m : Memory) {a n v x : ℕ} (h : x < a ∨ a + n ≤ x) :
    store m a n v x = m x :=
  if_neg (by omega)

theorem load_congr {m m' : Memory} {a n : ℕ} (h : ∀ i < n, m' (a + i) = m (a + i)) :
    load m' a n = load m a n := by
  induction n generalizing a with
  | zero => rfl
  | succ n ih =>
    have hhead : m' a = m a := h 0 (by omega)
    have htail : load m' (a + 1) n = load m (a + 1) n := by
      apply ih
      intro i hi
      have hnext := h (i + 1) (by omega)
      rwa [show a + (i + 1) = a + 1 + i by omega] at hnext
    rw [load, load, hhead, htail]

theorem load_of_bytes {m : Memory} {a n v : ℕ}
    (h : ∀ i < n, (m (a + i)).toNat = v / 256 ^ i % 256) : load m a n = v % 256 ^ n := by
  induction n generalizing a v with
  | zero => rw [load, pow_zero, Nat.mod_one]
  | succ n ih =>
    have hhead : (m a).toNat = v % 256 := by
      have hzero := h 0 (by omega)
      rwa [pow_zero, Nat.div_one] at hzero
    have htail : load m (a + 1) n = v / 256 % 256 ^ n := by
      apply ih
      intro i hi
      have hnext := h (i + 1) (by omega)
      rw [show a + (i + 1) = a + 1 + i by omega, pow_succ', ← Nat.div_div_eq_div_mul] at hnext
      exact hnext
    rw [load, hhead, htail, pow_succ', Nat.mod_mul]

theorem load_store (m : Memory) (a : ℕ) {n v : ℕ} (hv : v < 256 ^ n) :
    load (store m a n v) a n = v := by
  rw [load_of_bytes (v := v), Nat.mod_eq_of_lt hv]
  intro i hi
  have hbyte : store m a n v (a + i) = UInt8.ofNat (v / 256 ^ i) := by
    rw [store, if_pos (by omega), show a + i - a = i by omega]
  rw [hbyte, UInt8.toNat_ofNat']

theorem load_store_outside (m : Memory) {a n v b k : ℕ} (h : b + k ≤ a ∨ a + n ≤ b) :
    load (store m a n v) b k = load m b k :=
  load_congr fun i hi => store_outside m (by omega)

theorem load_eq_zero_iff {m : Memory} {a n : ℕ} :
    load m a n = 0 ↔ ∀ i < n, m (a + i) = 0 := by
  induction n generalizing a with
  | zero => simp [load]
  | succ n ih =>
    rw [load, Nat.add_eq_zero_iff, Nat.mul_eq_zero, or_iff_right (by omega), ih]
    constructor
    · rintro ⟨hhead, htail⟩ i hi
      cases i with
      | zero => exact UInt8.toNat_inj.mp hhead
      | succ i =>
        rw [show a + (i + 1) = a + 1 + i by omega]
        exact htail i (by omega)
    · intro h
      refine ⟨congrArg UInt8.toNat (h 0 (by omega)), fun i hi => ?_⟩
      rw [show a + 1 + i = a + (i + 1) by omega]
      exact h (i + 1) (by omega)

/-! ### Ranges of addresses -/

structure Region where
  start : ℕ
  size : ℕ
  deriving DecidableEq

def Region.stop (r : Region) : ℕ := r.start + r.size

def Region.Holds (r : Region) (x : ℕ) : Prop := r.start ≤ x ∧ x < r.stop

instance (r : Region) (x : ℕ) : Decidable (r.Holds x) := inferInstanceAs (Decidable (_ ∧ _))

theorem Region.holds_offset (a : ℕ) {n i : ℕ} (hi : i < n) : (⟨a, n⟩ : Region).Holds (a + i) :=
  ⟨Nat.le_add_right a i, Nat.add_lt_add_left hi a⟩

/-- Two regions share no address, nor, should one of them be empty, the place they start at. -/
def Region.Apart (r s : Region) : Prop :=
  r.start ≠ s.start ∧ (r.stop ≤ s.start ∨ s.stop ≤ r.start)

instance (r s : Region) : Decidable (r.Apart s) := inferInstanceAs (Decidable (_ ∧ _))

theorem Region.Apart.symm {r s : Region} (h : r.Apart s) : s.Apart r := ⟨h.1.symm, h.2.symm⟩

theorem Region.Apart.not_holds {r s : Region} (h : r.Apart s) {x : ℕ} (hx : r.Holds x) :
    ¬ s.Holds x := by
  obtain ⟨-, hapart⟩ := h
  obtain ⟨hlow, hhigh⟩ := hx
  rintro ⟨hlow', hhigh'⟩
  omega

/-- Some region of the list holds the address. -/
def Covers (rs : List Region) (x : ℕ) : Prop := ∃ r ∈ rs, r.Holds x

instance (rs : List Region) (x : ℕ) : Decidable (Covers rs x) :=
  inferInstanceAs (Decidable (∃ r ∈ rs, r.Holds x))

end ByteMemory
