import Mathlib.Data.List.Perm.Basic
import Mathlib.Order.Lattice

/-!
# Finite maps as sorted lists

One representation for each map, so that two maps are the same exactly when they
are equal. Entries are set one after the other; a later one replaces an earlier
one with the same key.
-/

universe u v

structure SortedMap (κ : Type u) (ν : Type v) [LinearOrder κ] where
  entries : List (κ × ν)
  sorted : entries.Pairwise fun a b => a.1 < b.1

namespace SortedMap
variable {κ : Type u} {ν : Type v} [LinearOrder κ]

@[ext] theorem ext {m n : SortedMap κ ν} (h : m.entries = n.entries) : m = n := by
  cases m
  cases n
  simpa using h

instance [DecidableEq ν] : DecidableEq (SortedMap κ ν) := fun m n =>
  decidable_of_iff (m.entries = n.entries) ⟨ext, congrArg entries⟩

def empty : SortedMap κ ν := ⟨[], .nil⟩

def insertEntry (k : κ) (v : ν) : List (κ × ν) → List (κ × ν)
  | [] => [(k, v)]
  | e :: es =>
    if k < e.1 then (k, v) :: e :: es
    else if k = e.1 then (k, v) :: es
    else e :: insertEntry k v es

theorem mem_insertEntry {k : κ} {v : ν} {es : List (κ × ν)} {e : κ × ν}
    (h : e ∈ insertEntry k v es) : e = (k, v) ∨ e ∈ es := by
  induction es with
  | nil => exact .inl (by simpa [insertEntry] using h)
  | cons d es ih =>
    rw [insertEntry] at h
    split_ifs at h with hlt heq
    · exact List.mem_cons.mp h
    · exact (List.mem_cons.mp h).imp_right (List.mem_cons_of_mem d)
    · rcases List.mem_cons.mp h with rfl | h
      · exact .inr (by simp)
      · exact (ih h).imp_right (List.mem_cons_of_mem d)

theorem insertEntry_sorted (k : κ) (v : ν) {es : List (κ × ν)}
    (h : es.Pairwise fun a b => a.1 < b.1) :
    (insertEntry k v es).Pairwise fun a b => a.1 < b.1 := by
  induction es with
  | nil => exact List.pairwise_singleton _ _
  | cons d es ih =>
    obtain ⟨hd, hes⟩ := List.pairwise_cons.mp h
    rw [insertEntry]
    split_ifs with hlt heq
    · refine .cons (fun e he => ?_) h
      rcases List.mem_cons.mp he with rfl | he
      · exact hlt
      · exact lt_trans hlt (hd e he)
    · exact .cons (fun e he => heq ▸ hd e he) hes
    · refine .cons (fun e he => ?_) (ih hes)
      rcases mem_insertEntry he with rfl | he
      · exact lt_of_le_of_ne (not_lt.mp hlt) (Ne.symm heq)
      · exact hd e he

def insert (m : SortedMap κ ν) (k : κ) (v : ν) : SortedMap κ ν :=
  ⟨insertEntry k v m.entries, insertEntry_sorted k v m.sorted⟩

def insertAll (m : SortedMap κ ν) (es : List (κ × ν)) : SortedMap κ ν :=
  es.foldl (fun m e => m.insert e.1 e.2) m

theorem insertEntry_of_forall_lt {k : κ} (v : ν) {es : List (κ × ν)} (h : ∀ e ∈ es, e.1 < k) :
    insertEntry k v es = es ++ [(k, v)] := by
  induction es with
  | nil => rfl
  | cons d es ih =>
    have hd : d.1 < k := h d (by simp)
    rw [insertEntry, if_neg (lt_asymm hd), if_neg (ne_of_gt hd), ih fun e he => h e (by simp [he]),
      List.cons_append]

theorem insertAll_entries_of_sorted {es : List (κ × ν)} (m : SortedMap κ ν)
    (h : (m.entries ++ es).Pairwise fun a b => a.1 < b.1) :
    (m.insertAll es).entries = m.entries ++ es := by
  induction es generalizing m with
  | nil => simp [insertAll]
  | cons e es ih =>
    have hlt : ∀ d ∈ m.entries, d.1 < e.1 := fun d hd =>
      (List.pairwise_append.mp h).2.2 d hd e (by simp)
    have hinsert : (m.insert e.1 e.2).entries = m.entries ++ [e] :=
      insertEntry_of_forall_lt e.2 hlt
    have hrest := ih (m.insert e.1 e.2) (by rw [hinsert]; simpa using h)
    rw [hinsert] at hrest
    simpa [insertAll] using hrest

/-- Setting the entries of a map one by one builds the map. -/
theorem insertAll_entries (m : SortedMap κ ν) : empty.insertAll m.entries = m := by
  have hsorted : ((empty : SortedMap κ ν).entries ++ m.entries).Pairwise fun a b => a.1 < b.1 := by
    simpa [empty] using m.sorted
  exact ext (insertAll_entries_of_sorted empty hsorted)

theorem insertEntry_perm {k : κ} (v : ν) {es : List (κ × ν)} (h : k ∉ es.map Prod.fst) :
    (insertEntry k v es).Perm ((k, v) :: es) := by
  induction es with
  | nil => exact .refl _
  | cons d es ih =>
    have hne : k ≠ d.1 := fun heq => h (by simp [heq])
    have hrest : k ∉ es.map Prod.fst := fun hk => h (List.mem_cons_of_mem _ hk)
    rw [insertEntry, if_neg hne]
    split_ifs
    · exact .refl _
    · exact ((ih hrest).cons d).trans (.swap _ _ _)

/-- Entries with different keys are all kept. -/
theorem insertAll_perm {es : List (κ × ν)} (m : SortedMap κ ν)
    (h : ((m.entries ++ es).map Prod.fst).Nodup) :
    (m.insertAll es).entries.Perm (m.entries ++ es) := by
  induction es generalizing m with
  | nil => simp [insertAll]
  | cons e es ih =>
    have hnew : e.1 ∉ m.entries.map Prod.fst := by
      intro he
      rw [List.map_append, List.nodup_append] at h
      exact h.2.2 e.1 he e.1 (by simp) rfl
    have hinsert : (m.insert e.1 e.2).entries.Perm (e :: m.entries) := insertEntry_perm e.2 hnew
    have happend : ((m.insert e.1 e.2).entries ++ es).Perm (m.entries ++ e :: es) :=
      (hinsert.append_right es).trans List.perm_middle.symm
    exact (ih (m.insert e.1 e.2) ((happend.map Prod.fst).nodup_iff.mpr h)).trans happend

theorem eq_of_perm {m n : SortedMap κ ν} (h : m.entries.Perm n.entries) : m = n :=
  ext (h.eq_of_pairwise (fun _ _ _ _ hab hba => absurd hab (lt_asymm hba)) m.sorted n.sorted)

/-- Lists of entries with different keys build the same map exactly when one is a rearrangement of
the other. -/
theorem insertAll_eq_iff_perm {es es' : List (κ × ν)} (h : (es.map Prod.fst).Nodup)
    (h' : (es'.map Prod.fst).Nodup) :
    (empty : SortedMap κ ν).insertAll es = empty.insertAll es' ↔ es.Perm es' := by
  have hes : ((empty : SortedMap κ ν).insertAll es).entries.Perm es := insertAll_perm empty h
  have hes' : ((empty : SortedMap κ ν).insertAll es').entries.Perm es' := insertAll_perm empty h'
  constructor
  · intro heq
    exact (heq ▸ hes.symm).trans hes'
  · intro hperm
    exact eq_of_perm (hes.trans (hperm.trans hes'.symm))

def get? [BEq κ] (m : SortedMap κ ν) (k : κ) : Option ν := m.entries.lookup k

theorem lookup_insertEntry [BEq κ] [LawfulBEq κ] (k : κ) (v : ν) (es : List (κ × ν)) (k' : κ) :
    (insertEntry k v es).lookup k' = if k' = k then some v else es.lookup k' := by
  by_cases hk : k' = k
  · subst hk
    rw [if_pos rfl]
    induction es with
    | nil => simp [insertEntry]
    | cons d es ih =>
      obtain ⟨kd, vd⟩ := d
      rw [insertEntry]
      split_ifs with hlt heq
      · exact List.lookup_cons_self
      · exact List.lookup_cons_self
      · have hbeq : (k' == kd) = false := by simpa using heq
        simp only [List.lookup_cons, hbeq, ih]
  · have hother : (k' == k) = false := by simpa using hk
    rw [if_neg hk]
    induction es with
    | nil => simp [insertEntry, List.lookup_cons, hother]
    | cons d es ih =>
      obtain ⟨kd, vd⟩ := d
      rw [insertEntry]
      split_ifs with hlt heq
      · simp only [List.lookup_cons, hother]
      · obtain rfl : k = kd := heq
        simp only [List.lookup_cons, hother]
      · simp only [List.lookup_cons, ih]

theorem get?_insert [BEq κ] [LawfulBEq κ] (m : SortedMap κ ν) (k : κ) (v : ν) (k' : κ) :
    (m.insert k v).get? k' = if k' = k then some v else m.get? k' :=
  lookup_insertEntry k v m.entries k'

theorem lookup_eq_none_of_forall_lt [BEq κ] [LawfulBEq κ] {k : κ} {es : List (κ × ν)}
    (h : ∀ e ∈ es, k < e.1) : es.lookup k = none := by
  rw [List.lookup_eq_none_iff]
  intro e he
  simpa using ne_of_lt (h e he)

/-- What a map holds changes by what is set and by what was there before. -/
theorem count_insert {μ : Type*} [BEq κ] [LawfulBEq κ] [BEq μ] (f : ν → List μ)
    (m : SortedMap κ ν) (k : κ) (v : ν) (a : μ) :
    ((m.insert k v).entries.flatMap fun e => f e.2).count a + ((m.get? k).elim [] f).count a =
      (m.entries.flatMap fun e => f e.2).count a + (f v).count a := by
  obtain ⟨es, hes⟩ := m
  change ((insertEntry k v es).flatMap fun e => f e.2).count a + ((es.lookup k).elim [] f).count a
    = (es.flatMap fun e => f e.2).count a + (f v).count a
  induction es with
  | nil => simp [insertEntry]
  | cons d es ih =>
    obtain ⟨kd, vd⟩ := d
    obtain ⟨hd, hes⟩ := List.pairwise_cons.mp hes
    rw [insertEntry]
    split_ifs with hlt heq
    · have hnone : ((kd, vd) :: es).lookup k = none := by
        refine lookup_eq_none_of_forall_lt fun e he => ?_
        rcases List.mem_cons.mp he with rfl | he
        · exact hlt
        · exact lt_trans hlt (hd e he)
      simp [hnone, Nat.add_comm]
    · obtain rfl : k = kd := heq
      rw [List.lookup_cons_self]
      simp only [List.flatMap_cons, List.count_append, Option.elim_some]
      omega
    · have hbeq : (k == kd) = false := by simpa using heq
      have hrest := ih hes
      simp only [List.lookup_cons, hbeq, List.flatMap_cons, List.count_append]
      omega

theorem mem_insertAll {m : SortedMap κ ν} {es : List (κ × ν)} {e : κ × ν}
    (h : e ∈ (m.insertAll es).entries) : e ∈ m.entries ∨ e ∈ es := by
  induction es generalizing m with
  | nil => exact .inl h
  | cons d es ih =>
    rcases ih (m := m.insert d.1 d.2) h with h | h
    · rcases mem_insertEntry h with rfl | h
      · exact .inr (by simp)
      · exact .inl h
    · exact .inr (by simp [h])

section
variable {ω : Type*} (f : ν → ω)

def mapValues (m : SortedMap κ ν) : SortedMap κ ω :=
  ⟨m.entries.map fun e => (e.1, f e.2), List.pairwise_map.mpr m.sorted⟩

@[simp] theorem mapValues_empty : (empty : SortedMap κ ν).mapValues f = empty := rfl

theorem mapValues_insert (m : SortedMap κ ν) (k : κ) (v : ν) :
    (m.insert k v).mapValues f = (m.mapValues f).insert k (f v) := by
  have hentries : ∀ es : List (κ × ν), (insertEntry k v es).map (fun e => (e.1, f e.2)) =
      insertEntry k (f v) (es.map fun e => (e.1, f e.2)) := by
    intro es
    induction es with
    | nil => rfl
    | cons d es ih =>
      rw [insertEntry, List.map_cons, insertEntry]
      split_ifs <;> simp [ih]
  exact ext (hentries m.entries)

theorem mapValues_insertAll (m : SortedMap κ ν) (es : List (κ × ν)) :
    (m.insertAll es).mapValues f =
      (m.mapValues f).insertAll (es.map fun e => (e.1, f e.2)) := by
  induction es generalizing m with
  | nil => rfl
  | cons e es ih =>
    have hstep := ih (m.insert e.1 e.2)
    rw [mapValues_insert] at hstep
    exact hstep

end

end SortedMap
