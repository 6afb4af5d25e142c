import Mathlib.Data.List.Forall2
import Mathlib.Algebra.Ring.Nat

/-!
# Runs of a deterministic step machine

A machine answers an input with an output and a next state. A run is recorded
as the list of its transitions, so that a property of every state reached and a
property of every step taken can both be stated about one object. The rules
here lift facts about one step to facts about whole runs.
-/

namespace StepMachine

structure Transition (σ ι ω : Type*) where
  before : σ
  input : ι
  output : ω
  after : σ

variable {σ τ ι ω θ γ ν : Type*}

def transition (step : σ → ι → ω × σ) (s : σ) (i : ι) : Transition σ ι ω :=
  ⟨s, i, (step s i).1, (step s i).2⟩

def trace (step : σ → ι → ω × σ) : σ → List ι → List (Transition σ ι ω)
  | _, [] => []
  | s, i :: is => transition step s i :: trace step (step s i).2 is

def final (step : σ → ι → ω × σ) : σ → List ι → σ
  | s, [] => s
  | s, i :: is => final step (step s i).2 is

@[simp] theorem trace_nil (step : σ → ι → ω × σ) (s : σ) : trace step s [] = [] := rfl

@[simp] theorem trace_cons (step : σ → ι → ω × σ) (s : σ) (i : ι) (is : List ι) :
    trace step s (i :: is) = transition step s i :: trace step (step s i).2 is := rfl

@[simp] theorem final_nil (step : σ → ι → ω × σ) (s : σ) : final step s [] = s := rfl

@[simp] theorem final_cons (step : σ → ι → ω × σ) (s : σ) (i : ι) (is : List ι) :
    final step s (i :: is) = final step (step s i).2 is := rfl

theorem final_append (step : σ → ι → ω × σ) (s : σ) (is js : List ι) :
    final step s (is ++ js) = final step (final step s is) js := by
  induction is generalizing s with
  | nil => rfl
  | cons i is ih => exact ih _

theorem trace_append (step : σ → ι → ω × σ) (s : σ) (is js : List ι) :
    trace step s (is ++ js) = trace step s is ++ trace step (final step s is) js := by
  induction is generalizing s with
  | nil => rfl
  | cons i is ih =>
    rw [List.cons_append, trace_cons, ih, trace_cons, final_cons]
    rfl

/-- An invariant of every step from an admissible input holds at the end of every run. -/
theorem final_invariant {step : σ → ι → ω × σ} {P : σ → Prop} {A : ι → Prop}
    (preserve : ∀ s i, A i → P s → P (step s i).2) {s : σ} (hs : P s) (is : List ι)
    (ha : ∀ i ∈ is, A i) : P (final step s is) := by
  induction is generalizing s with
  | nil => exact hs
  | cons i is ih =>
    exact ih (preserve s i (ha i (by simp)) hs) (fun j hj => ha j (by simp [hj]))

theorem trace_forall_input {A : ι → Prop} (step : σ → ι → ω × σ) (s : σ) (is : List ι)
    (ha : ∀ i ∈ is, A i) : ∀ t ∈ trace step s is, A t.input := by
  induction is generalizing s with
  | nil => simp
  | cons i is ih =>
    intro t ht
    rcases List.mem_cons.mp ht with rfl | ht
    · exact ha i (by simp)
    · exact ih _ (fun j hj => ha j (by simp [hj])) t ht

theorem trace_forall {step : σ → ι → ω × σ} {P : σ → Prop} {A : ι → Prop}
    {Q : Transition σ ι ω → Prop} (preserve : ∀ s i, A i → P s → P (step s i).2)
    (each : ∀ s i, A i → P s → Q (transition step s i)) {s : σ} (hs : P s) (is : List ι)
    (ha : ∀ i ∈ is, A i) : ∀ t ∈ trace step s is, Q t := by
  induction is generalizing s with
  | nil => simp
  | cons i is ih =>
    have hi : A i := ha i (by simp)
    intro t ht
    rcases List.mem_cons.mp ht with rfl | ht
    · exact each s i hi hs
    · exact ih (preserve s i hi hs) (fun j hj => ha j (by simp [hj])) t ht

/-- What enters a queue leaves it in the same order, or is still in it: when a step hands on
what was waiting followed by what came in, so does every run. -/
theorem trace_conserve {α β : Type*} {step : σ → ι → ω × σ} {P : σ → Prop} {A : ι → Prop}
    {enter : Transition σ ι ω → List α} {leave : Transition σ ι ω → List β} {R : α → β → Prop}
    (waiting : σ → List α) (preserve : ∀ s i, A i → P s → P (step s i).2)
    (each : ∀ s i, A i → P s → ∃ done, waiting s ++ enter (transition step s i) =
      done ++ waiting (step s i).2 ∧ List.Forall₂ R done (leave (transition step s i)))
    {s : σ} (hs : P s) (is : List ι) (ha : ∀ i ∈ is, A i) :
    ∃ done, waiting s ++ (trace step s is).flatMap enter = done ++ waiting (final step s is) ∧
      List.Forall₂ R done ((trace step s is).flatMap leave) := by
  induction is generalizing s with
  | nil => exact ⟨[], by simp, .nil⟩
  | cons i is ih =>
    have hi : A i := ha i (by simp)
    obtain ⟨first, hfirst, hleft⟩ := each s i hi hs
    obtain ⟨rest, hrest, hlater⟩ := ih (preserve s i hi hs) (fun j hj => ha j (by simp [hj]))
    refine ⟨first ++ rest, ?_, ?_⟩
    · rw [trace_cons, List.flatMap_cons, ← List.append_assoc, hfirst, List.append_assoc, hrest,
        List.append_assoc, final_cons]
    · rw [trace_cons, List.flatMap_cons]
      exact List.rel_append hleft hlater

/-- The accounting rule of amortised cost: a counter grows along a run by what its steps are
charged and by the change of the credit. -/
theorem final_account {step : σ → ι → ω × σ} {P : σ → Prop} {A : ι → Prop}
    {charge : Transition σ ι ω → ℕ} (spent credit : σ → ℕ)
    (preserve : ∀ s i, A i → P s → P (step s i).2)
    (each : ∀ s i, A i → P s → spent (step s i).2 + credit s =
      spent s + charge (transition step s i) + credit (step s i).2)
    {s : σ} (hs : P s) (is : List ι) (ha : ∀ i ∈ is, A i) :
    spent (final step s is) + credit s =
      spent s + ((trace step s is).map charge).sum + credit (final step s is) := by
  induction is generalizing s with
  | nil => rfl
  | cons i is ih =>
    have hi : A i := ha i (by simp)
    have hfirst := each s i hi hs
    have hrest := ih (preserve s i hi hs) (fun j hj => ha j (by simp [hj]))
    simp only [trace_cons, final_cons, List.map_cons, List.sum_cons]
    omega

/-- Two properties that agree on every step from an invariant state agree on whole runs. -/
theorem trace_forall_congr {step : σ → ι → ω × σ} {P : σ → Prop} {A : ι → Prop}
    {Q C : Transition σ ι ω → Prop} (preserve : ∀ s i, A i → P s → P (step s i).2)
    (each : ∀ s i, A i → P s → (Q (transition step s i) ↔ C (transition step s i)))
    {s : σ} (hs : P s) (is : List ι) (ha : ∀ i ∈ is, A i) :
    (∀ t ∈ trace step s is, Q t) ↔ ∀ t ∈ trace step s is, C t := by
  have agree : ∀ t ∈ trace step s is, Q t ↔ C t := trace_forall preserve each hs is ha
  exact ⟨fun h t ht => (agree t ht).mp (h t ht), fun h t ht => (agree t ht).mpr (h t ht)⟩

/-- The same where the invariant is only maintained by the steps that meet the condition. -/
theorem trace_forall_congr_while {step : σ → ι → ω × σ} {P : σ → Prop}
    {Q C : Transition σ ι ω → Prop}
    (preserve : ∀ s i, P s → C (transition step s i) → P (step s i).2)
    (each : ∀ s i, P s → (Q (transition step s i) ↔ C (transition step s i)))
    {s : σ} (hs : P s) (is : List ι) :
    (∀ t ∈ trace step s is, Q t) ↔ ∀ t ∈ trace step s is, C t := by
  induction is generalizing s with
  | nil => simp
  | cons i is ih =>
    simp only [trace_cons, List.forall_mem_cons, each s i hs]
    exact and_congr_right fun hc => ih (preserve s i hs hc)

/-- An invariant that the steps keep which meet a condition holds at the end of a run of such
steps, and what each of them does from the invariant is so all along the run. -/
theorem final_while {step : σ → ι → ω × σ} {P : σ → Prop} {C : Transition σ ι ω → Prop}
    (preserve : ∀ s i, P s → C (transition step s i) → P (step s i).2) {s : σ} (hs : P s)
    (is : List ι) (hc : ∀ t ∈ trace step s is, C t) : P (final step s is) := by
  induction is generalizing s with
  | nil => exact hs
  | cons i is ih =>
    rw [trace_cons, List.forall_mem_cons] at hc
    exact ih (preserve s i hs hc.1) hc.2

theorem trace_while {step : σ → ι → ω × σ} {P : σ → Prop} {C Q : Transition σ ι ω → Prop}
    (preserve : ∀ s i, P s → C (transition step s i) → P (step s i).2)
    (each : ∀ s i, P s → C (transition step s i) → Q (transition step s i)) {s : σ} (hs : P s)
    (is : List ι) (hc : ∀ t ∈ trace step s is, C t) : ∀ t ∈ trace step s is, Q t := by
  induction is generalizing s with
  | nil => simp
  | cons i is ih =>
    rw [trace_cons, List.forall_mem_cons] at hc ⊢
    exact ⟨each s i hs hc.1, ih (preserve s i hs hc.1) hc.2⟩

/-- A property relating the state to a summary of the transitions so far holds after every
prefix of a run exactly when every single step meets the condition that maintains it. -/
theorem always_iff_forall_step {step : σ → ι → ω × σ} {P : σ → Prop} {A : ι → Prop}
    {R : σ → γ → Prop} {note : γ → Transition σ ι ω → γ} {C : Transition σ ι ω → Prop}
    (preserve : ∀ s i, A i → P s → P (step s i).2)
    (each : ∀ s g i, A i → P s → R s g →
      (R (step s i).2 (note g (transition step s i)) ↔ C (transition step s i)))
    {s : σ} {g : γ} (hs : P s) (hr : R s g) (is : List ι) (ha : ∀ i ∈ is, A i) :
    (∀ js, js <+: is → R (final step s js) ((trace step s js).foldl note g)) ↔
      ∀ t ∈ trace step s is, C t := by
  induction is generalizing s g with
  | nil =>
    constructor
    · intro _ t ht
      simp at ht
    · intro _ js hjs
      rw [List.prefix_nil.mp hjs]
      exact hr
  | cons i is ih =>
    have hi : A i := ha i (by simp)
    have hiff := each s g i hi hs hr
    have hrest : ∀ j ∈ is, A j := fun j hj => ha j (by simp [hj])
    constructor
    · intro h
      have hr' : R (step s i).2 (note g (transition step s i)) :=
        h [i] ⟨is, rfl⟩
      have htail := (ih (preserve s i hi hs) hr' hrest).mp (by
        intro js hjs
        exact h (i :: js) (List.cons_prefix_cons.mpr ⟨rfl, hjs⟩))
      intro t ht
      rcases List.mem_cons.mp ht with rfl | ht
      · exact hiff.mp hr'
      · exact htail t ht
    · intro h js hjs
      have hr' := hiff.mpr (h _ (by simp))
      cases js with
      | nil => exact hr
      | cons j js =>
        obtain ⟨hj, hjs'⟩ := List.cons_prefix_cons.mp hjs
        subst hj
        exact (ih (preserve s j hi hs) hr' hrest).mpr
          (fun t ht => h t (by simp [ht])) js hjs'

/-- Forward simulation: two machines related step by step take matching steps along every run
whose steps all meet the side condition. -/
theorem simulation {step : σ → ι → ω × σ} {ref : τ → ι → θ × τ} {R : σ → τ → Prop}
    {C : Transition σ ι ω → Prop} {E : Transition σ ι ω → Transition τ ι θ → Prop}
    (each : ∀ s u i, R s u → C (transition step s i) →
      E (transition step s i) (transition ref u i) ∧ R (step s i).2 (ref u i).2)
    {s : σ} {u : τ} (hr : R s u) (is : List ι) (hc : ∀ t ∈ trace step s is, C t) :
    List.Forall₂ E (trace step s is) (trace ref u is) := by
  induction is generalizing s u with
  | nil => exact .nil
  | cons i is ih =>
    obtain ⟨he, hr'⟩ := each s u i hr (hc _ (by simp))
    exact .cons he (ih hr' (fun t ht => hc t (by simp [ht])))

/-- `C` holds of every step of a run, given the summary `note` keeps of the steps before it. -/
def Along (note : γ → Transition σ ι ω → γ) (C : γ → Transition σ ι ω → Prop) :
    γ → List (Transition σ ι ω) → Prop
  | _, [] => True
  | g, t :: ts => C g t ∧ Along note C (note g t) ts

instance decidableAlong (note : γ → Transition σ ι ω → γ) (C : γ → Transition σ ι ω → Prop)
    [∀ g t, Decidable (C g t)] : ∀ g ts, Decidable (Along note C g ts)
  | _, [] => isTrue trivial
  | g, t :: ts =>
    have := decidableAlong note C (note g t) ts
    inferInstanceAs (Decidable (C g t ∧ Along note C (note g t) ts))

/-- Two machines run on the same inputs look the same along a run whose steps are all such that
related states look the same after them. -/
theorem views_eq_of_along {step : σ → ι → ω × σ} {ref : τ → ι → θ × τ} {R : γ → σ → τ → Prop}
    {note : γ → Transition σ ι ω → γ} {C : γ → Transition σ ι ω → Prop}
    {view : Transition σ ι ω → ν} {view' : Transition τ ι θ → ν}
    (preserve : ∀ g s u i, R g s u → R (note g (transition step s i)) (step s i).2 (ref u i).2)
    (each : ∀ g s u i, R g s u → C g (transition step s i) →
      view (transition step s i) = view' (transition ref u i))
    {g : γ} {s : σ} {u : τ} (hr : R g s u) (is : List ι) (hc : Along note C g (trace step s is)) :
    (trace step s is).map view = (trace ref u is).map view' := by
  induction is generalizing g s u with
  | nil => rfl
  | cons i is ih =>
    obtain ⟨hfirst, hrest⟩ := hc
    simp only [trace_cons, List.map_cons]
    rw [each g s u i hr hfirst, ih (preserve g s u i hr) hrest]

/-- Conversely, a run that looks the same is one whose steps all meet what looking the same
after a step requires. -/
theorem along_of_views_eq {step : σ → ι → ω × σ} {ref : τ → ι → θ × τ} {R : γ → σ → τ → Prop}
    {note : γ → Transition σ ι ω → γ} {C : γ → Transition σ ι ω → Prop}
    {view : Transition σ ι ω → ν} {view' : Transition τ ι θ → ν}
    (preserve : ∀ g s u i, R g s u → R (note g (transition step s i)) (step s i).2 (ref u i).2)
    (each : ∀ g s u i, R g s u → view (transition step s i) = view' (transition ref u i) →
      C g (transition step s i))
    {g : γ} {s : σ} {u : τ} (hr : R g s u) (is : List ι)
    (hv : (trace step s is).map view = (trace ref u is).map view') :
    Along note C g (trace step s is) := by
  induction is generalizing g s u with
  | nil => trivial
  | cons i is ih =>
    simp only [trace_cons, List.map_cons, List.cons.injEq] at hv
    exact ⟨each g s u i hr hv.1, ih (preserve g s u i hr) hv.2⟩

end StepMachine
