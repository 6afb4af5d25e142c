import Mathlib.Data.List.Induction

/-!
# Buffering transducers

A transducer takes symbols one at a time, emits any number of symbols for each,
and may hold some back until its input ends. What it emits is a function of the
symbols taken so far. Its complete output is what it emits along the way and
what it releases at the end, and a cascade of transducers that are ended one
after the other computes the composition of their complete outputs.
-/

structure Transducer (α β : Type*) where
  /-- The output for a symbol, given the symbols before it. -/
  emit : List α → α → List β
  /-- The output at the end of these symbols. -/
  drain : List α → List β

namespace Transducer

variable {α β γ δ : Type*}

def outFrom (T : Transducer α β) : List α → List α → List β
  | _, [] => []
  | before, x :: xs => T.emit before x ++ T.outFrom (before ++ [x]) xs

def out (T : Transducer α β) (xs : List α) : List β := T.outFrom [] xs

def complete (T : Transducer α β) (xs : List α) : List β := T.out xs ++ T.drain xs

def adapt (T : Transducer α β) (f : γ → α) (g : β → δ) : Transducer γ δ where
  emit before x := (T.emit (before.map f) (f x)).map g
  drain xs := (T.drain (xs.map f)).map g

/-- The second transducer takes what the first one emits, and is ended after it. -/
def comp (T : Transducer α β) (U : Transducer β γ) : Transducer α γ where
  emit before x := U.outFrom (T.out before) (T.emit before x)
  drain xs := U.outFrom (T.out xs) (T.drain xs) ++ U.drain (T.complete xs)

/-- After `before`, the further symbols `more` change nothing: what they bring out and what is
then released is what would have been released without them. -/
def Inert (T : Transducer α β) (before more : List α) : Prop :=
  T.outFrom before more ++ T.drain (before ++ more) = T.drain before

def each (f : α → β) : Transducer α β := ⟨fun _ x => [f x], fun _ => []⟩

def delay (f : α → β) : Transducer α β where
  emit before _ := (before.getLast?.map f).toList
  drain xs := (xs.getLast?.map f).toList

@[simp] theorem outFrom_nil (T : Transducer α β) (before : List α) : T.outFrom before [] = [] := rfl

@[simp] theorem outFrom_cons (T : Transducer α β) (before : List α) (x : α) (xs : List α) :
    T.outFrom before (x :: xs) = T.emit before x ++ T.outFrom (before ++ [x]) xs := rfl

theorem outFrom_append (T : Transducer α β) (before xs ys : List α) :
    T.outFrom before (xs ++ ys) = T.outFrom before xs ++ T.outFrom (before ++ xs) ys := by
  induction xs generalizing before with
  | nil => simp
  | cons x xs ih => simp [ih]

theorem out_append (T : Transducer α β) (xs ys : List α) :
    T.out (xs ++ ys) = T.out xs ++ T.outFrom xs ys := by
  simpa [out] using T.outFrom_append [] xs ys

theorem out_concat (T : Transducer α β) (xs : List α) (x : α) :
    T.out (xs ++ [x]) = T.out xs ++ T.emit xs x := by
  simp [out_append]

theorem complete_append_eq_iff (T : Transducer α β) (before more : List α) :
    T.complete (before ++ more) = T.complete before ↔ T.Inert before more := by
  rw [complete, out_append, List.append_assoc, complete, List.append_cancel_left_eq]
  rfl

theorem inert_nil (T : Transducer α β) (before : List α) : T.Inert before [] := by
  simp [Inert]

theorem outFrom_adapt (T : Transducer α β) (f : γ → α) (g : β → δ) (before xs : List γ) :
    (T.adapt f g).outFrom before xs = (T.outFrom (before.map f) (xs.map f)).map g := by
  induction xs generalizing before with
  | nil => rfl
  | cons x xs ih =>
    simp only [outFrom_cons, ih, List.map_append, List.map_cons, List.map_nil]
    rfl

theorem out_adapt (T : Transducer α β) (f : γ → α) (g : β → δ) (xs : List γ) :
    (T.adapt f g).out xs = (T.out (xs.map f)).map g :=
  T.outFrom_adapt f g [] xs

theorem complete_adapt (T : Transducer α β) (f : γ → α) (g : β → δ) (xs : List γ) :
    (T.adapt f g).complete xs = (T.complete (xs.map f)).map g := by
  rw [complete, out_adapt, complete, List.map_append]
  rfl

theorem out_comp (T : Transducer α β) (U : Transducer β γ) (xs : List α) :
    (T.comp U).out xs = U.out (T.out xs) := by
  induction xs using List.reverseRecOn with
  | nil => rfl
  | append_singleton xs x ih =>
    rw [out_concat, out_concat, out_append, ih]
    rfl

/-- A cascade loses nothing: its complete output is the composition of the complete outputs. -/
theorem complete_comp (T : Transducer α β) (U : Transducer β γ) (xs : List α) :
    (T.comp U).complete xs = U.complete (T.complete xs) := by
  have hout : U.out (T.complete xs) = U.out (T.out xs) ++ U.outFrom (T.out xs) (T.drain xs) := by
    rw [complete, out_append]
  rw [complete, out_comp, complete, hout, List.append_assoc]
  rfl

/-- `xs` is `ys` as far as a run that may have stopped got, and all of it when it did not. -/
structure UpTo (ok : Prop) (xs ys : List α) : Prop where
  inOrder : xs <+: ys
  whole : ok → xs = ys

variable {ok : Prop} {xs ys zs : List α}

theorem UpTo.of_eq (h : xs = ys) : UpTo ok xs ys := ⟨h ▸ List.prefix_refl xs, fun _ => h⟩

theorem UpTo.stopped (hok : ¬ ok) (h : xs <+: ys) : UpTo ok xs ys := ⟨h, fun h => absurd h hok⟩

theorem UpTo.mono {ok' : Prop} (h : UpTo ok xs ys) (hok : ok' → ok) : UpTo ok' xs ys :=
  ⟨h.inOrder, fun h' => h.whole (hok h')⟩

theorem UpTo.append (h : UpTo ok xs ys) (zs : List α) : UpTo ok (zs ++ xs) (zs ++ ys) :=
  ⟨(List.prefix_append_right_inj zs).mpr h.inOrder, fun hok => congrArg (zs ++ ·) (h.whole hok)⟩

theorem UpTo.extend (h : xs <+: ys) (hok : ok → xs = ys ++ zs) : UpTo ok xs (ys ++ zs) :=
  ⟨h.trans (List.prefix_append ys zs), hok⟩

end Transducer
