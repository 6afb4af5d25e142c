import AudioFS.ByteMemory
import Mathlib.Data.List.Perm.Basic

/-!
# A heap over byte-addressed memory

A program and an allocator share one memory. The program owns the blocks it was given;
the rest is the allocator's, which keeps records there and may rewrite it at each call.
An allocator answers as it likes, refusals included, as long as its answers are
documented ones, and it owes that much only while nobody has overwritten its records.
A write to memory that is not writable ends the program, which counts as such damage.
-/

namespace ByteHeap
open ByteMemory

structure Heap where
  memory : Memory
  live : List Region
  calls : ℕ
  /-- No write of the program has gone to memory that is not writable or has changed what the
  allocator keeps. -/
  intact : Bool
  /-- How often a pointer that starts no live block was freed or reallocated. -/
  misuses : ℕ

structure Allocator where
  calloc : Heap → ℕ → Option ℕ
  realloc : Heap → ℕ → ℕ → Option ℕ
  /-- What a call leaves in the memory that it promises nothing about. -/
  leaves : Heap → Memory
  /-- The addresses at which the allocator, and whatever else the process relies on, keeps its
  records. -/
  keeps : Heap → ℕ → Bool
  /-- The addresses that the process may write to. -/
  writable : Heap → ℕ → Bool

/-- User space is the lower half of the address space. -/
def addressLimit : ℕ := 2 ^ 63

/-- A block is in user space and not at `NULL`. -/
def Placed (r : Region) : Prop := r.start ≠ 0 ∧ r.stop ≤ addressLimit

instance (r : Region) : Decidable (Placed r) := inferInstanceAs (Decidable (_ ∧ _))

def Fits (live : List Region) (r : Region) : Prop := Placed r ∧ ∀ s ∈ live, r.Apart s

instance (live : List Region) (r : Region) : Decidable (Fits live r) :=
  inferInstanceAs (Decidable (_ ∧ _))

namespace Heap

def others (h : Heap) (p : ℕ) : List Region := h.live.filter (fun r => r.start != p)

def sizeAt (h : Heap) (p : ℕ) : ℕ :=
  ((h.live.find? (fun r => r.start == p)).map Region.size).getD 0

def Owns (h : Heap) (p : ℕ) : Prop := ∃ r ∈ h.live, r.start = p

instance (h : Heap) (p : ℕ) : Decidable (h.Owns p) :=
  inferInstanceAs (Decidable (∃ r ∈ h.live, r.start = p))

/-- Memory after an allocator call that leaves the blocks `kept` alone and promises `filled`. -/
def settled (h : Heap) (c : Allocator) (kept : List Region) (filled : ℕ → Option UInt8) : Memory :=
  fun x => if Covers kept x then h.memory x else (filled x).getD (c.leaves h x)

def refuse (h : Heap) (c : Allocator) : Heap :=
  { h with memory := h.settled c h.live (fun _ => none), calls := h.calls + 1 }

def calloc (h : Heap) (c : Allocator) (n : ℕ) : Option ℕ × Heap :=
  match c.calloc h n with
  | none => (none, h.refuse c)
  | some a =>
    let block : Region := ⟨a, n⟩
    (some a,
      { h with
        memory := h.settled c h.live (fun x => if block.Holds x then some 0 else none)
        live := block :: h.live
        calls := h.calls + 1 })

def free (h : Heap) (c : Allocator) (p : ℕ) : Heap :=
  if p = 0 then h
  else if h.Owns p then
    { h with
      memory := h.settled c (h.others p) (fun _ => none)
      live := h.others p
      calls := h.calls + 1 }
  else { h with misuses := h.misuses + 1 }

/-- The common prefix moves to the new place, which may be the old one. -/
def moved (h : Heap) (p a n : ℕ) : ℕ → Option UInt8 := fun x =>
  if (⟨a, min (h.sizeAt p) n⟩ : Region).Holds x then some (h.memory (p + (x - a))) else none

def realloc (h : Heap) (c : Allocator) (p n : ℕ) : Option ℕ × Heap :=
  if p ≠ 0 ∧ ¬ h.Owns p then (none, { h with misuses := h.misuses + 1 })
  else
    match c.realloc h p n with
    | none => (none, h.refuse c)
    | some a =>
      (some a,
        { h with
          memory := h.settled c (h.others p) (h.moved p a n)
          live := ⟨a, n⟩ :: h.others p
          calls := h.calls + 1 })

/-- A store into memory the program owns. -/
def store (h : Heap) (a n v : ℕ) : Heap := { h with memory := ByteMemory.store h.memory a n v }

/-- To clear the range is a write that kills, or changes a record, of which only the bytes that
are not zero do. -/
def Harms (h : Heap) (c : Allocator) (r : Region) : Prop :=
  ∃ i < r.size, c.writable h (r.start + i) = false ∨
    h.memory (r.start + i) ≠ 0 ∧ c.keeps h (r.start + i) = true

instance (h : Heap) (c : Allocator) (r : Region) : Decidable (h.Harms c r) :=
  inferInstanceAs (Decidable (∃ i < r.size, _))

/-- `memset` to zero of a range that need not be the program's. -/
def clear (h : Heap) (c : Allocator) (r : Region) : Heap :=
  { h with
    memory := fun x => if r.Holds x then 0 else h.memory x
    intact := h.intact && decide (¬ h.Harms c r) }

end Heap

/-- Nothing has gone wrong so far. -/
structure Sound (h : Heap) : Prop where
  intact : h.intact = true
  apart : h.live.Pairwise Region.Apart
  placed : ∀ r ∈ h.live, Placed r

/-- In a sound heap the blocks handed out are in user space and apart from all that stay live. -/
structure Documented (c : Allocator) : Prop where
  calloc : ∀ (h : Heap) (n a : ℕ), Sound h → c.calloc h n = some a → Fits h.live ⟨a, n⟩
  realloc : ∀ (h : Heap) (p n a : ℕ), Sound h → p = 0 ∨ h.Owns p → c.realloc h p n = some a →
    Fits (h.others p) ⟨a, n⟩

/-! ### Finding blocks -/

/-- The block a pointer and a size stand for; `NULL` stands for none. -/
def blockAt (p n : ℕ) : List Region := if p = 0 then [] else [⟨p, n⟩]

theorem blockAt_of_ne {p : ℕ} (hp : p ≠ 0) (n : ℕ) : blockAt p n = [⟨p, n⟩] := if_neg hp

section Lookup

variable {h : Heap}

theorem Sound.of_perm (hs : Sound h) {live : List Region} (hperm : h.live.Perm live) :
    live.Pairwise Region.Apart ∧ ∀ r ∈ live, Placed r :=
  ⟨(hperm.pairwise_iff fun hab => Region.Apart.symm hab).mp hs.apart,
    fun r hr => hs.placed r (hperm.mem_iff.mpr hr)⟩

theorem Sound.others_null (hs : Sound h) : h.others 0 = h.live := by
  apply List.filter_eq_self.mpr
  intro s hmem
  exact bne_iff_ne.mpr (hs.placed s hmem).1

theorem Sound.sizeAt_null (hs : Sound h) : h.sizeAt 0 = 0 := by
  have hfind : h.live.find? (fun r => r.start == 0) = none := by
    apply List.find?_eq_none.mpr
    intro s hmem hstart
    exact (hs.placed s hmem).1 (by simpa using hstart)
  rw [Heap.sizeAt, hfind]
  rfl

variable {p n : ℕ} {kept : List Region}

theorem Sound.others_perm (hs : Sound h) (hperm : h.live.Perm (blockAt p n ++ kept)) :
    (h.others p).Perm kept := by
  by_cases hp : p = 0
  · subst hp
    rw [hs.others_null]
    exact hperm
  rw [blockAt_of_ne hp] at hperm
  obtain ⟨hapart, -⟩ := List.pairwise_cons.mp (hs.of_perm hperm).1
  have hfilter := hperm.filter (fun s => s.start != p)
  rw [List.singleton_append, List.filter_cons_of_neg (by simp)] at hfilter
  have hkept : kept.filter (fun s => s.start != p) = kept := by
    apply List.filter_eq_self.mpr
    intro s hmem
    exact bne_iff_ne.mpr (hapart s hmem).1.symm
  rwa [hkept] at hfilter

theorem Sound.sizeAt_eq (hs : Sound h) (hperm : h.live.Perm (blockAt p n ++ kept))
    (hnull : p = 0 → n = 0) : h.sizeAt p = n := by
  by_cases hp : p = 0
  · rw [hnull hp, hp]
    exact hs.sizeAt_null
  rw [blockAt_of_ne hp] at hperm
  obtain ⟨hapart, -⟩ := List.pairwise_cons.mp (hs.of_perm hperm).1
  have hblock : (⟨p, n⟩ : Region) ∈ h.live := hperm.mem_iff.mpr List.mem_cons_self
  cases hfind : h.live.find? (fun s => s.start == p) with
  | none => exact absurd (List.find?_eq_none.mp hfind _ hblock) (by simp)
  | some s =>
    have hstart : s.start = p := by simpa using List.find?_some hfind
    have hmem := hperm.mem_iff.mp (List.mem_of_find?_eq_some hfind)
    rcases List.mem_cons.mp hmem with rfl | hkept
    · rw [Heap.sizeAt, hfind]
      rfl
    · exact absurd hstart.symm (hapart s hkept).1

theorem owns_of_perm (hperm : h.live.Perm (blockAt p n ++ kept)) (hp : p ≠ 0) : h.Owns p := by
  rw [blockAt_of_ne hp] at hperm
  exact ⟨⟨p, n⟩, hperm.mem_iff.mpr List.mem_cons_self, rfl⟩

end Lookup

/-! ### What a call does to the blocks -/

theorem settled_filled {h h' : Heap} {c : Allocator} {kept : List Region}
    {filled : ℕ → Option UInt8} (hmemory : h'.memory = h.settled c kept filled) {r : Region}
    (hapart : ∀ s ∈ kept, r.Apart s) {x : ℕ} (hx : r.Holds x) {v : UInt8}
    (hv : filled x = some v) : h'.memory x = v := by
  have hnot : ¬ Covers kept x := by
    rintro ⟨s, hmem, hold⟩
    exact (hapart s hmem).not_holds hx hold
  rw [hmemory, Heap.settled, if_neg hnot, hv, Option.getD_some]

/-- The heap `h'` came from `h` by steps that left the blocks `kept` as they were. -/
structure Keeps (kept : List Region) (h h' : Heap) : Prop where
  memory : ∀ x, Covers kept x → h'.memory x = h.memory x
  misuses : h'.misuses = h.misuses

theorem Keeps.refl (kept : List Region) (h : Heap) : Keeps kept h h := ⟨fun _ _ => rfl, rfl⟩

theorem Keeps.trans {kept : List Region} {h₁ h₂ h₃ : Heap} (h : Keeps kept h₁ h₂)
    (h' : Keeps kept h₂ h₃) : Keeps kept h₁ h₃ :=
  ⟨fun x hx => (h'.memory x hx).trans (h.memory x hx), h'.misuses.trans h.misuses⟩

theorem Keeps.subset {kept more : List Region} {h h' : Heap} (hk : Keeps more h h')
    (hsub : ∀ r ∈ kept, r ∈ more) : Keeps kept h h' :=
  ⟨fun x ⟨r, hr, hx⟩ => hk.memory x ⟨r, hsub r hr, hx⟩, hk.misuses⟩

theorem Keeps.of_append {gone kept : List Region} {h h' : Heap} (hk : Keeps (gone ++ kept) h h') :
    Keeps kept h h' :=
  hk.subset fun _ hr => List.mem_append_right gone hr

theorem settled_keeps {h h' : Heap} {c : Allocator} {kept : List Region}
    {filled : ℕ → Option UInt8} (hmemory : h'.memory = h.settled c kept filled)
    (hmisuses : h'.misuses = h.misuses) : Keeps kept h h' :=
  ⟨fun x hx => by rw [hmemory, Heap.settled, if_pos hx], hmisuses⟩

theorem store_keeps (h : Heap) {a n v : ℕ} {kept : List Region}
    (hkept : ∀ r ∈ kept, a + n ≤ r.start ∨ r.stop ≤ a) : Keeps kept h (h.store a n v) := by
  refine ⟨?_, rfl⟩
  rintro x ⟨r, hr, hlow, hhigh⟩
  apply store_outside
  have hrange := hkept r hr
  omega

theorem refuse_keeps (h : Heap) (c : Allocator) : Keeps h.live h (h.refuse c) :=
  settled_keeps rfl rfl

theorem refuse_sound {h : Heap} (hs : Sound h) (c : Allocator) : Sound (h.refuse c) :=
  ⟨hs.intact, hs.apart, hs.placed⟩

theorem store_sound {h : Heap} (hs : Sound h) (a n v : ℕ) : Sound (h.store a n v) :=
  ⟨hs.intact, hs.apart, hs.placed⟩

theorem clear_sound {h : Heap} (hs : Sound h) {c : Allocator} {r : Region} (hr : ¬ h.Harms c r) :
    Sound (h.clear c r) :=
  ⟨by simp [Heap.clear, hs.intact, hr], hs.apart, hs.placed⟩

/-- A new block beside blocks that were live before. -/
theorem Sound.adopt {h h' : Heap} {r : Region} {gone kept : List Region} (hs : Sound h)
    (hperm : h.live.Perm (gone ++ kept)) (hfits : Fits kept r)
    (hlive : h'.live.Perm (r :: kept)) (hintact : h'.intact = true) : Sound h' := by
  obtain ⟨hpair, hplaced⟩ := hs.of_perm hperm
  refine ⟨hintact, ?_, ?_⟩
  · rw [hlive.pairwise_iff fun hab => Region.Apart.symm hab]
    exact List.pairwise_cons.mpr ⟨hfits.2, (List.pairwise_append.mp hpair).2.1⟩
  · intro s hmem
    rcases List.mem_cons.mp (hlive.mem_iff.mp hmem) with rfl | hold
    · exact hfits.1
    · exact hplaced s (List.mem_append_right gone hold)

theorem Sound.drop {h h' : Heap} {gone kept : List Region} (hs : Sound h)
    (hperm : h.live.Perm (gone ++ kept)) (hlive : h'.live.Perm kept)
    (hintact : h'.intact = true) : Sound h' := by
  obtain ⟨hpair, hplaced⟩ := hs.of_perm hperm
  refine ⟨hintact, ?_, fun r hr => hplaced r (List.mem_append_right gone (hlive.mem_iff.mp hr))⟩
  rw [hlive.pairwise_iff fun hab => Region.Apart.symm hab]
  exact (List.pairwise_append.mp hpair).2.1

theorem Fits.of_perm {live live' : List Region} {r : Region} (hf : Fits live r)
    (hperm : live.Perm live') : Fits live' r :=
  ⟨hf.1, fun s hs => hf.2 s (hperm.mem_iff.mpr hs)⟩

/-- The blocks `kept` stay and `r` is new. -/
structure Granted (kept : List Region) (h h' : Heap) (r : Region) : Prop where
  fits : Fits kept r
  live : h'.live.Perm (r :: kept)
  sound : Sound h'
  keeps : Keeps kept h h'

inductive Calloc (c : Allocator) (h : Heap) (n : ℕ) : Option ℕ × Heap → Prop
  | refused : Calloc c h n (none, h.refuse c)
  | granted {a : ℕ} {h' : Heap} : Granted h.live h h' ⟨a, n⟩ →
      (∀ i < n, h'.memory (a + i) = 0) → Calloc c h n (some a, h')

theorem calloc_outcome {c : Allocator} (hc : Documented c) {h : Heap} (hs : Sound h) (n : ℕ) :
    Calloc c h n (h.calloc c n) := by
  unfold Heap.calloc
  cases hanswer : c.calloc h n with
  | none => exact .refused
  | some a =>
    have hfits := hc.calloc h n a hs hanswer
    refine .granted ⟨hfits, .refl _, ?_, settled_keeps rfl rfl⟩ fun i hi => ?_
    · exact hs.adopt (.refl ([] ++ h.live)) hfits (.refl _) hs.intact
    · have hheld := Region.holds_offset a hi
      exact settled_filled rfl hfits.2 hheld (if_pos hheld)

theorem free_null (h : Heap) (c : Allocator) : h.free c 0 = h := if_pos rfl

theorem free_block {c : Allocator} {h : Heap} (hs : Sound h) {p n : ℕ} {kept : List Region}
    (hperm : h.live.Perm (blockAt p n ++ kept)) :
    (h.free c p).live.Perm kept ∧ Sound (h.free c p) ∧ Keeps kept h (h.free c p) := by
  by_cases hp : p = 0
  · subst hp
    rw [free_null]
    exact ⟨hperm, hs, .refl kept h⟩
  have hothers := hs.others_perm hperm
  have hfree : h.free c p =
      { h with
        memory := h.settled c (h.others p) (fun _ => none)
        live := h.others p
        calls := h.calls + 1 } := by
    rw [Heap.free, if_neg hp, if_pos (owns_of_perm hperm hp)]
  rw [hfree]
  refine ⟨hothers, hs.drop hperm hothers hs.intact, Keeps.subset ?_ fun _ => hothers.mem_iff.mpr⟩
  exact settled_keeps rfl rfl

inductive Realloc (c : Allocator) (h : Heap) (p n size : ℕ) (kept : List Region) :
    Option ℕ × Heap → Prop
  | refused : Realloc c h p n size kept (none, h.refuse c)
  | granted {a : ℕ} {h' : Heap} : Granted kept h h' ⟨a, size⟩ →
      (∀ i < min n size, h'.memory (a + i) = h.memory (p + i)) →
      Realloc c h p n size kept (some a, h')

theorem realloc_outcome {c : Allocator} (hc : Documented c) {h : Heap} (hs : Sound h)
    {p n : ℕ} {kept : List Region} (hperm : h.live.Perm (blockAt p n ++ kept))
    (hnull : p = 0 → n = 0) (size : ℕ) :
    Realloc c h p n size kept (h.realloc c p size) := by
  have howns : p = 0 ∨ h.Owns p := by
    rw [or_iff_not_imp_left]
    exact owns_of_perm hperm
  rw [Heap.realloc, if_neg (by tauto)]
  cases hanswer : c.realloc h p size with
  | none => exact .refused
  | some a =>
    have hothers := hs.others_perm hperm
    have hfits := hc.realloc h p size a hs howns hanswer
    refine .granted ⟨hfits.of_perm hothers, hothers.cons _, ?_, ?_⟩ fun i hi => ?_
    · exact hs.adopt hperm (hfits.of_perm hothers) (hothers.cons _) hs.intact
    · refine Keeps.subset ?_ fun _ => hothers.mem_iff.mpr
      exact settled_keeps rfl rfl
    · have hmoved : (⟨a, min (h.sizeAt p) size⟩ : Region).Holds (a + i) := by
        rw [hs.sizeAt_eq hperm hnull]
        exact Region.holds_offset a hi
      have hheld := Region.holds_offset a (lt_of_lt_of_le hi (min_le_right n size))
      have hbyte : h.moved p a size (a + i) = some (h.memory (p + i)) := by
        rw [Heap.moved, if_pos hmoved, Nat.add_sub_cancel_left]
      exact settled_filled rfl hfits.2 hheld hbyte

end ByteHeap
