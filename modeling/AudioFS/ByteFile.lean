import Mathlib.Data.List.Basic
import Mathlib.Data.Int.Notation

/-!
# A file of symbols with a position

The file is its contents and the offset at which the next transfer happens.
Reads stop at the end of the contents, writes overwrite and extend, and a write
past the end fills the gap with a given symbol. Positions are unbounded here;
the largest offset a seek may reach is a parameter.
-/

namespace ByteFile

structure File (α : Type*) where
  contents : List α
  position : ℕ

variable {α : Type*}

def File.empty : File α := ⟨[], 0⟩

def File.read (f : File α) (count : ℕ) : List α × File α :=
  let got := (f.contents.drop f.position).take count
  (got, { f with position := f.position + got.length })

/-- The contents after storing `data` at offset `at_`, with the gap filled up. -/
def splice (gap : α) (contents : List α) (at_ : ℕ) (data : List α) : List α :=
  contents.take at_ ++ List.replicate (at_ - contents.length) gap ++ data ++
    contents.drop (at_ + data.length)

/-- A transfer of no symbols leaves the file as it is, also beyond its end. -/
def File.write (gap : α) (f : File α) (data : List α) : File α :=
  if data = [] then f
  else ⟨splice gap f.contents f.position data, f.position + data.length⟩

inductive Origin
  | start
  | current
  | finish
  deriving DecidableEq

def File.base (f : File α) : Origin → ℕ
  | .start => 0
  | .current => f.position
  | .finish => f.contents.length

/-- Moves to `base + offset`, refused when that is negative or above `limit`. -/
def File.seek (limit : ℕ) (f : File α) (offset : ℤ) (origin : Origin) : Option ℕ × File α :=
  let target := (f.base origin : ℤ) + offset
  if target < 0 ∨ (limit : ℤ) < target then (none, f)
  else (some target.toNat, { f with position := target.toNat })

theorem splice_nil_zero (gap : α) (data : List α) : splice gap [] 0 data = data := by
  simp [splice]

theorem write_nil (gap : α) (f : File α) : f.write gap [] = f := by
  simp [File.write]

theorem write_empty_file (gap : α) (data : List α) :
    (File.empty : File α).write gap data = ⟨data, data.length⟩ := by
  by_cases h : data = []
  · simp [File.write, File.empty, h]
  · simp [File.write, File.empty, h, splice_nil_zero]

theorem write_at_end (gap : α) {f : File α} (h : f.position = f.contents.length)
    (data : List α) :
    f.write gap data = ⟨f.contents ++ data, f.position + data.length⟩ := by
  obtain ⟨contents, position⟩ := f
  obtain rfl : position = contents.length := h
  by_cases hdata : data = []
  · simp [File.write, hdata]
  · simp [File.write, hdata, splice]

end ByteFile
