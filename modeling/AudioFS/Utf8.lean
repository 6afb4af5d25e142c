import Mathlib.Data.List.Basic
import Mathlib.Tactic.SplitIfs

/-!
# UTF-8 as byte lists

Encoding a text, and the decoding that puts the replacement character in the
place of every byte that starts no well-formed sequence. Bytes are valid when
decoding loses nothing of them.
-/

namespace Utf8

def replacement : Char := '\uFFFD'

def encode (text : List Char) : List UInt8 := text.flatMap String.utf8EncodeChar

/-- The character whose encoding `bytes` starts with. -/
def decodeRune (bytes : List UInt8) : Option Char := bytes.toByteArray.utf8DecodeChar? 0

/-- The characters of `bytes` past its first `skip` bytes. -/
def runesFrom : ℕ → List UInt8 → List Char
  | _, [] => []
  | skip + 1, _ :: bytes => runesFrom skip bytes
  | 0, b :: bytes =>
    match decodeRune (b :: bytes) with
    | some c => c :: runesFrom (c.utf8Size - 1) bytes
    | none => replacement :: runesFrom 0 bytes

def runes (bytes : List UInt8) : List Char := runesFrom 0 bytes

def Valid (bytes : List UInt8) : Prop := encode (runes bytes) = bytes

instance (bytes : List UInt8) : Decidable (Valid bytes) := inferInstanceAs (Decidable (_ = _))

@[simp] theorem encode_nil : encode [] = [] := rfl

@[simp] theorem encode_cons (c : Char) (text : List Char) :
    encode (c :: text) = String.utf8EncodeChar c ++ encode text := rfl

theorem decodeRune_encode (c : Char) (rest : List UInt8) :
    decodeRune (String.utf8EncodeChar c ++ rest) = some c := by
  rw [decodeRune, List.toByteArray_append]
  exact ByteArray.utf8DecodeChar?_utf8EncodeChar_append

theorem runesFrom_append (skip rest : List UInt8) :
    runesFrom skip.length (skip ++ rest) = runesFrom 0 rest := by
  induction skip with
  | nil => rfl
  | cons b skip ih => exact ih

theorem runes_encodeChar (c : Char) (rest : List UInt8) :
    runes (String.utf8EncodeChar c ++ rest) = c :: runes rest := by
  have hlength : (String.utf8EncodeChar c).length = c.utf8Size := String.length_utf8EncodeChar c
  have hrune := decodeRune_encode c rest
  cases hbytes : String.utf8EncodeChar c with
  | nil =>
    have hpos := c.utf8Size_pos
    rw [hbytes, List.length_nil] at hlength
    omega
  | cons b bytes =>
    rw [hbytes] at hlength hrune
    have hskip : c.utf8Size - 1 = bytes.length := by
      rw [← hlength, List.length_cons, Nat.add_sub_cancel]
    simp only [runes, List.cons_append, runesFrom] at hrune ⊢
    rw [hrune]
    simp only [hskip, runesFrom_append]

theorem runes_encode_append (text : List Char) (rest : List UInt8) :
    runes (encode text ++ rest) = text ++ runes rest := by
  induction text with
  | nil => rfl
  | cons c text ih =>
    rw [encode_cons, List.append_assoc, runes_encodeChar, ih, List.cons_append]

@[simp] theorem runes_encode (text : List Char) : runes (encode text) = text := by
  simpa [runes, runesFrom] using runes_encode_append text []

theorem valid_encode (text : List Char) : Valid (encode text) :=
  congrArg encode (runes_encode text)

/-- A byte below 128 of an encoding stands for itself. -/
theorem eq_of_mem_encodeChar {c : Char} {b : UInt8} (h : b ∈ String.utf8EncodeChar c)
    (hb : b.toNat < 128) : c.toNat = b.toNat := by
  have hvalue : c.val.toNat = c.toNat := rfl
  simp only [String.utf8EncodeChar, hvalue] at h
  split_ifs at h with h₁ h₂ h₃
  · obtain rfl := List.mem_singleton.mp h
    rw [UInt8.toNat_ofNat']
    omega
  all_goals
    simp only [List.mem_cons, List.not_mem_nil, or_false] at h
    rcases h with rfl | rfl | rfl | rfl <;> rw [UInt8.toNat_ofNat'] at hb ⊢ <;> omega

end Utf8
