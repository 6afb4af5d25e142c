import Mathlib.Order.Bounds.Basic
import Mathlib.Order.MinMax

/-!
# Climbing a ladder of sizes

A set of rungs and a function that leads from each rung to the one above it.
Climbing until a target is covered ends at the least rung that covers it: a step
taken from below the target leaves out no rung that could have done.
-/

namespace Ladder

variable {α : Type*} [LinearOrder α]

structure Climbs (rungs : Set α) (next : α → α) : Prop where
  mem : ∀ a ∈ rungs, next a ∈ rungs
  lt : ∀ a ∈ rungs, a < next a
  next_le : ∀ a ∈ rungs, ∀ b ∈ rungs, a < b → next a ≤ b

/-- The rungs that are at least as high as both the start and the target. -/
def covering (rungs : Set α) (start target : α) : Set α :=
  {b | b ∈ rungs ∧ max start target ≤ b}

variable {rungs : Set α} {next : α → α} {a target : α}

theorem isLeast_self (ha : a ∈ rungs) (h : target ≤ a) : IsLeast (covering rungs a target) a := by
  refine ⟨⟨ha, (max_eq_left h).le⟩, ?_⟩
  intro b hb
  exact (le_max_left a target).trans hb.2

theorem covering_next (h : Climbs rungs next) (ha : a ∈ rungs) (hlt : a < target) :
    covering rungs (next a) target = covering rungs a target := by
  ext b
  constructor
  · intro hb
    obtain ⟨hnext, htarget⟩ := max_le_iff.mp hb.2
    exact ⟨hb.1, max_le ((h.lt a ha).le.trans hnext) htarget⟩
  · intro hb
    have htarget : target ≤ b := (le_max_right a target).trans hb.2
    exact ⟨hb.1, max_le (h.next_le a ha b hb.1 (hlt.trans_le htarget)) htarget⟩

end Ladder
