import Mathlib.Tactic.Common
import Mathlib.Tactic.SplitIfs
import Mathlib.Data.List.Induction

/-!
# Automata over call logs

A partial automaton says which call may come next. A log it accepts is a walk;
the rules here read off such a walk what no single step shows: that two calls
are separated by a third one, that a call comes after another one, and that a
call is the last one.
-/

namespace CallAutomaton

variable {Q E : Type*} {next : Q → E → Option Q}

inductive Walk (next : Q → E → Option Q) : Q → List E → Q → Prop
  | nil (q : Q) : Walk next q [] q
  | cons {q q' r : Q} {e : E} {es : List E} (first : next q e = some q')
      (rest : Walk next q' es r) : Walk next q (e :: es) r

namespace Walk

variable {q q' r : Q} {e : E} {es fs : List E}

theorem single (h : next q e = some r) : Walk next q [e] r := .cons h (.nil r)

theorem append (h : Walk next q es q') (h' : Walk next q' fs r) :
    Walk next q (es ++ fs) r := by
  induction h with
  | nil => exact h'
  | cons first rest ih => exact .cons first (ih h')

theorem split (h : Walk next q (es ++ fs) r) :
    ∃ q', Walk next q es q' ∧ Walk next q' fs r := by
  induction es generalizing q with
  | nil => exact ⟨q, .nil q, h⟩
  | cons e es ih =>
    cases h with
    | cons first rest =>
      obtain ⟨q', hleft, hright⟩ := ih rest
      exact ⟨q', .cons first hleft, hright⟩

theorem uncons (h : Walk next q (e :: es) r) : ∃ q', next q e = some q' ∧ Walk next q' es r := by
  cases h with
  | cons first rest => exact ⟨_, first, rest⟩

/-- A set of states that is only left by certain calls is not left by a walk without them. -/
theorem stays (busy : Q → Prop) {drains : E → Prop}
    (stay : ∀ q e q', busy q → ¬ drains e → next q e = some q' → busy q')
    (h : Walk next q es r) (hq : busy q) (hes : ∀ e ∈ es, ¬ drains e) : busy r := by
  induction h with
  | nil => exact hq
  | cons first rest ih =>
    exact ih (stay _ _ _ hq (hes _ (by simp)) first) fun e he => hes e (by simp [he])

/-- Between two calls of one kind there is one of another kind, when the first makes the automaton
busy, only the other kind makes it idle, and it does not take the second while it is busy. -/
theorem between (busy : Q → Prop) (accepted sends : E → Prop) {drains : E → Prop}
    (enter : ∀ q e q', accepted e → next q e = some q' → busy q')
    (stay : ∀ q e q', busy q → ¬ drains e → next q e = some q' → busy q')
    (refuse : ∀ q e q', busy q → sends e → next q e ≠ some q')
    {before between after : List E} {e e' : E}
    (h : Walk next q (before ++ e :: between ++ e' :: after) r) (he : accepted e)
    (he' : sends e') : ∃ d ∈ between, drains d := by
  by_contra hnone
  push Not at hnone
  rw [List.append_assoc] at h
  obtain ⟨q₁, -, h₁⟩ := h.split
  obtain ⟨q₂, hfirst, h₂⟩ := uncons h₁
  obtain ⟨q₃, hbetween, h₃⟩ := split h₂
  obtain ⟨q₄, hsecond, -⟩ := uncons h₃
  have hbusy : busy q₃ := hbetween.stays busy stay (enter q₁ e q₂ he hfirst) hnone
  exact refuse q₃ e' q₄ hbusy he' hsecond

/-- An automaton is only busy after the call that made it so, and before the next that makes it
idle. -/
theorem since (busy : Q → Prop) {accepted drains : E → Prop}
    (cause : ∀ q e q', next q e = some q' → busy q' → accepted e ∨ (busy q ∧ ¬ drains e))
    (h : Walk next q es r) (hq : ¬ busy q) (hr : busy r) :
    ∃ before e after, es = before ++ e :: after ∧ accepted e ∧ ∀ d ∈ after, ¬ drains d := by
  induction es using List.reverseRecOn generalizing r with
  | nil =>
    cases h
    exact absurd hr hq
  | append_singleton es e ih =>
    obtain ⟨q', hleft, hlast⟩ := h.split
    obtain ⟨r', hstep, hnil⟩ := uncons hlast
    cases hnil
    rcases cause q' e r hstep hr with hacc | ⟨hbusy, hdrain⟩
    · exact ⟨es, e, [], rfl, hacc, by simp⟩
    · obtain ⟨before, a, after, rfl, hacc, hnone⟩ := ih hleft hbusy
      refine ⟨before, a, after ++ [e], by simp, hacc, ?_⟩
      intro d hd
      rcases List.mem_append.mp hd with hd | hd
      · exact hnone d hd
      · rw [List.mem_singleton.mp hd]
        exact hdrain

end Walk
end CallAutomaton
