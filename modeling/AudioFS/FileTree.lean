import Mathlib.Data.List.Basic

/-!
# Walking a file tree

Go's `filepath.Walk`: the callback is told every file and directory under a root,
parents before their entries, and an error it returns ends the walk. What the
walk does is to give the callback one list of visits, up to the first that it
refuses.
-/

namespace FileTree

mutual

/-- What is found at a path: a file, a directory with its entries in order, or an error of
`lstat` or of listing the directory. -/
inductive Tree (ν ε : Type)
  | file
  | directory (entries : Entries ν ε)
  | unreadable (error : ε)
  | missing (error : ε)

inductive Entries (ν ε : Type)
  | nil
  | cons (name : ν) (tree : Tree ν ε) (rest : Entries ν ε)

end

/-- A path, and the error its visit is about. -/
abbrev Visit (π ε : Type) := π × Option ε

section
variable {π ν ε σ : Type} (join : π → ν → π) (fn : Visit π ε → σ → Option ε × σ)

mutual

def walk (path : π) : Tree ν ε → σ → Option ε × σ
  | .file, s => fn (path, none) s
  | .directory entries, s =>
    let r := fn (path, none) s
    if r.1.isSome then r else walkEntries path entries r.2
  | .unreadable error, s => fn (path, some error) s
  | .missing error, s => fn (path, some error) s

def walkEntries (path : π) : Entries ν ε → σ → Option ε × σ
  | .nil, s => (none, s)
  | .cons name tree rest, s =>
    let r := walk (join path name) tree s
    if r.1.isSome then r else walkEntries path rest r.2

end

mutual

def visits (path : π) : Tree ν ε → List (Visit π ε)
  | .file => [(path, none)]
  | .directory entries => (path, none) :: entryVisits path entries
  | .unreadable error => [(path, some error)]
  | .missing error => [(path, some error)]

def entryVisits (path : π) : Entries ν ε → List (Visit π ε)
  | .nil => []
  | .cons name tree rest => visits (join path name) tree ++ entryVisits path rest

end

def runVisits : List (Visit π ε) → σ → Option ε × σ
  | [], s => (none, s)
  | v :: vs, s =>
    let r := fn v s
    if r.1.isSome then r else runVisits vs r.2

theorem runVisits_singleton (v : Visit π ε) (s : σ) : runVisits fn [v] s = fn v s := by
  cases hr : fn v s with
  | mk error s' => cases error <;> simp [runVisits, hr]

theorem runVisits_append (vs ws : List (Visit π ε)) (s : σ) :
    runVisits fn (vs ++ ws) s =
      if (runVisits fn vs s).1.isSome then runVisits fn vs s
      else runVisits fn ws (runVisits fn vs s).2 := by
  induction vs generalizing s with
  | nil => rfl
  | cons v vs ih =>
    rw [List.cons_append, runVisits, runVisits]
    by_cases hstop : (fn v s).1.isSome = true
    · simp [hstop]
    · simp only [hstop, ih]
      rfl

mutual

theorem walk_eq (path : π) (tree : Tree ν ε) (s : σ) :
    walk join fn path tree s = runVisits fn (visits join path tree) s := by
  cases tree with
  | file => exact (runVisits_singleton fn _ s).symm
  | unreadable error => exact (runVisits_singleton fn _ s).symm
  | missing error => exact (runVisits_singleton fn _ s).symm
  | directory entries =>
    rw [walk, visits, runVisits]
    simp only [walkEntries_eq path entries]

theorem walkEntries_eq (path : π) (entries : Entries ν ε) (s : σ) :
    walkEntries join fn path entries s = runVisits fn (entryVisits join path entries) s := by
  cases entries with
  | nil => rfl
  | cons name tree rest =>
    rw [walkEntries, entryVisits, runVisits_append]
    simp only [walk_eq (join path name) tree, walkEntries_eq path rest]

end

end

section
variable {π ε σ : Type}

/-- The paths that are visited before the first error. -/
def accepted (vs : List (Visit π ε)) : List π := (vs.takeWhile fun v => v.2.isNone).map Prod.fst

def firstError (vs : List (Visit π ε)) : Option ε := vs.findSome? Prod.snd

/-- A callback that hands every error on, and no other one. -/
def failFast (act : π → σ → σ) : Visit π ε → σ → Option ε × σ
  | (_, some error), s => (some error, s)
  | (path, none), s => (none, act path s)

theorem runVisits_failFast (act : π → σ → σ) (vs : List (Visit π ε)) (s : σ) :
    runVisits (failFast act) vs s =
      (firstError vs, (accepted vs).foldl (fun s path => act path s) s) := by
  induction vs generalizing s with
  | nil => rfl
  | cons v vs ih =>
    obtain ⟨path, error⟩ := v
    cases error with
    | none =>
      rw [runVisits, failFast]
      simp [ih, firstError, accepted]
    | some error =>
      rw [runVisits, failFast]
      simp [firstError, accepted]

end

end FileTree
