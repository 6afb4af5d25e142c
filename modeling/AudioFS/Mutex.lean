import Mathlib.Tactic.Common
import Mathlib.Tactic.SplitIfs
import Mathlib.Logic.Function.Basic

/-!
# Threads around a mutex

Each thread stands at a point of its program; some points are inside the region
that a mutex guards. The mutex is guarded when it is taken exactly while a
thread is inside, and no two threads are inside at once.
-/

namespace Mutex

variable {π ι : Type*} {holds : π → Bool} {pc : ι → π} {taken : Bool}

structure Guarded (holds : π → Bool) (pc : ι → π) (taken : Bool) : Prop where
  one : ∀ i j, holds (pc i) = true → holds (pc j) = true → i = j
  taken_iff : taken = true ↔ ∃ i, holds (pc i) = true

theorem holds_update [DecidableEq ι] (holds : π → Bool) (pc : ι → π) (i : ι) (q : π) (j : ι) :
    holds (Function.update pc i q j) = if j = i then holds q else holds (pc j) := by
  rw [Function.update_apply]
  split_ifs <;> rfl

namespace Guarded

theorem idle (h : ∀ i, holds (pc i) = false) : Guarded holds pc false where
  one i _ hi := by simp [h i] at hi
  taken_iff := by simp [h]

theorem taken_of_holds (h : Guarded holds pc taken) {i : ι} (hi : holds (pc i) = true) :
    taken = true := h.taken_iff.mpr ⟨i, hi⟩

theorem free (h : Guarded holds pc false) (i : ι) : holds (pc i) = false := by
  by_contra hi
  exact Bool.false_ne_true (h.taken_of_holds (by simpa using hi))

/-- A thread that moves on without crossing the border of the region. -/
theorem advance [DecidableEq ι] (h : Guarded holds pc taken) {i : ι} {q : π}
    (hq : holds q = holds (pc i)) :
    Guarded holds (Function.update pc i q) taken := by
  have hsame (j : ι) : holds (Function.update pc i q j) = holds (pc j) := by
    rw [holds_update holds]
    split_ifs with hji
    · rw [hji, hq]
    · rfl
  refine ⟨fun j k hj hk => ?_, ?_⟩
  · rw [hsame] at hj hk
    exact h.one j k hj hk
  · simp only [hsame]
    exact h.taken_iff

theorem acquire [DecidableEq ι] (h : Guarded holds pc false) {i : ι} {q : π} (hq : holds q = true) :
    Guarded holds (Function.update pc i q) true := by
  have honly (j : ι) (hj : holds (Function.update pc i q j) = true) : j = i := by
    rw [holds_update holds] at hj
    split_ifs at hj with hji
    · exact hji
    · simp [h.free j] at hj
  refine ⟨fun j k hj hk => (honly j hj).trans (honly k hk).symm, ?_⟩
  exact iff_of_true rfl ⟨i, by simpa using hq⟩

theorem release [DecidableEq ι] (h : Guarded holds pc taken) {i : ι} (hi : holds (pc i) = true)
    {q : π} (hq : holds q = false) : Guarded holds (Function.update pc i q) false := by
  apply idle
  intro j
  rw [holds_update holds]
  split_ifs with hji
  · exact hq
  · by_contra hj
    exact hji (h.one j i (by simpa using hj) hi)

end Guarded
end Mutex
