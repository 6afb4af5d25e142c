import Mathlib.Data.List.Basic
import Mathlib.Data.List.TakeDrop
import Mathlib.Tactic.Common
import Mathlib.Tactic.SplitIfs

/-!
# Overlays

A list laid over another one hides as much of it as it is long, from the start.
Layers laid one over the other show, at each index, the last of them that
reaches it.
-/

namespace Overlay

variable {α : Type*}

def overlay (old new : List α) : List α := new ++ old.drop new.length

def overlays (base : List α) (layers : List (List α)) : List α := layers.foldl overlay base

@[simp] theorem overlays_nil (base : List α) : overlays base [] = base := rfl

@[simp] theorem overlays_cons (base layer : List α) (layers : List (List α)) :
    overlays base (layer :: layers) = overlays (overlay base layer) layers := rfl

@[simp] theorem overlay_nil (old : List α) : overlay old [] = old := by simp [overlay]

@[simp] theorem nil_overlay (new : List α) : overlay [] new = new := by simp [overlay]

theorem length_overlay (old new : List α) :
    (overlay old new).length = max old.length new.length := by
  simp only [overlay, List.length_append, List.length_drop]
  omega

theorem getElem?_overlay (old new : List α) (i : ℕ) :
    (overlay old new)[i]? = if i < new.length then new[i]? else old[i]? := by
  unfold overlay
  split_ifs with h
  · exact List.getElem?_append_left h
  · rw [List.getElem?_append_right (by omega), List.getElem?_drop, Nat.add_sub_cancel' (by omega)]

theorem overlay_assoc (a b c : List α) : overlay (overlay a b) c = overlay a (overlay b c) := by
  apply List.ext_getElem?
  intro i
  simp only [getElem?_overlay, length_overlay]
  split_ifs with hc hmax hb hmax' <;> first | rfl | omega

theorem overlays_eq (base : List α) (layers : List (List α)) :
    overlays base layers = overlay base (overlays [] layers) := by
  induction layers generalizing base with
  | nil => simp
  | cons layer layers ih =>
    rw [overlays_cons, ih, overlays_cons, ih (overlay [] layer), nil_overlay, overlay_assoc]

theorem overlays_append (base : List α) (layers more : List (List α)) :
    overlays base (layers ++ more) = overlays (overlays base layers) more := List.foldl_append

theorem overlay_prefix {old old' : List α} (h : old <+: old') (new : List α) :
    overlay old new <+: overlay old' new := by
  obtain ⟨rest, rfl⟩ := h
  refine ⟨rest.drop (new.length - old.length), ?_⟩
  rw [overlay, overlay, List.append_assoc, List.drop_append]

theorem length_overlays_le {base : List α} {layers : List (List α)} {k : ℕ}
    (hbase : base.length ≤ k) (h : ∀ layer ∈ layers, layer.length ≤ k) :
    (overlays base layers).length ≤ k := by
  induction layers generalizing base with
  | nil => exact hbase
  | cons layer layers ih =>
    apply ih
    · rw [length_overlay]
      exact Nat.max_le.mpr ⟨hbase, h layer (by simp)⟩
    · exact fun other hother => h other (by simp [hother])

theorem length_overlays_le_add (base : List α) (layers : List (List α)) :
    (overlays base layers).length ≤ base.length + layers.flatten.length := by
  induction layers generalizing base with
  | nil => simp
  | cons layer layers ih =>
    have hrest := ih (overlay base layer)
    rw [length_overlay] at hrest
    rw [overlays_cons, List.flatten_cons, List.length_append]
    omega

/-- Layers hide nothing of one another exactly when at most one of them is not empty. -/
theorem overlays_eq_append_iff (base : List α) (layers : List (List α)) :
    overlays base layers = base ++ layers.flatten ↔
      ((base :: layers).filter fun layer => !layer.isEmpty).length ≤ 1 := by
  induction layers generalizing base with
  | nil =>
    refine iff_of_true (by simp) ?_
    exact Nat.le_trans (List.length_filter_le _ _) (by simp)
  | cons layer layers ih =>
    rw [overlays_cons, List.flatten_cons, ← List.append_assoc]
    cases base with
    | nil => simpa using ih layer
    | cons b base =>
      cases layer with
      | nil => simpa using ih (b :: base)
      | cons x layer =>
        refine iff_of_false (fun heq => ?_) (by simp)
        have hlength := congrArg List.length heq
        have hle := length_overlays_le_add (overlay (b :: base) (x :: layer)) layers
        simp only [length_overlay, List.length_append, List.length_cons] at hlength hle
        omega

end Overlay
