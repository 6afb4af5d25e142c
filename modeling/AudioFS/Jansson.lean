import AudioFS.Json
import AudioFS.SortedMap
import Mathlib.Algebra.BigOperators.Group.Finset.Basic
import Mathlib.Algebra.BigOperators.Group.Finset.Piecewise

/-!
# Jansson's reference counted values

Objects and arrays are nodes of a heap, under names the caller chooses. Strings
and numbers are kept in the object they were set in, which is their only owner.
A node whose count reaches zero is destroyed and drops its children; what is done
to a node after that is recorded as a misuse.
-/

namespace Jansson
open Json

inductive Item (ν : Type)
  | leaf (v : Value)
  | node (n : ν)

inductive Body (ν : Type)
  | object (members : SortedMap String (Item ν))
  | array (elements : List ν)

structure Node (ν : Type) where
  refs : ℕ
  body : Body ν

def Item.nodes {ν : Type} : Item ν → List ν
  | .leaf _ => []
  | .node n => [n]

def Body.children {ν : Type} : Body ν → List ν
  | .object members => members.entries.flatMap fun e => e.2.nodes
  | .array elements => elements

structure Heap (ν : Type) where
  created : Finset ν
  node : ν → Option (Node ν)
  misuses : ℕ
  known : ∀ n, node n ≠ none → n ∈ created

namespace Heap
variable {ν : Type} [DecidableEq ν]

def empty : Heap ν := ⟨∅, fun _ => none, 0, fun _ h => absurd rfl h⟩

def misuse (h : Heap ν) : Heap ν := { h with misuses := h.misuses + 1 }

def put (h : Heap ν) (n : ν) (x : Node ν) : Heap ν where
  created := insert n h.created
  node := Function.update h.node n (some x)
  misuses := h.misuses
  known m hm := by
    by_cases hmn : m = n
    · exact hmn ▸ Finset.mem_insert_self n h.created
    · rw [Function.update_of_ne hmn] at hm
      exact Finset.mem_insert_of_mem (h.known m hm)

def drop (h : Heap ν) (n : ν) : Heap ν where
  created := h.created
  node := Function.update h.node n none
  misuses := h.misuses
  known m hm := by
    by_cases hmn : m = n
    · exact absurd (by rw [hmn, Function.update_self]) hm
    · rw [Function.update_of_ne hmn] at hm
      exact h.known m hm

def jsonObject (h : Heap ν) (n : ν) : Heap ν := h.put n ⟨1, .object SortedMap.empty⟩

def jsonArray (h : Heap ν) (n : ν) : Heap ν := h.put n ⟨1, .array []⟩

def incref (h : Heap ν) (n : ν) : Heap ν :=
  match h.node n with
  | none => h.misuse
  | some x => h.put n { x with refs := x.refs + 1 }

def decrefWith : ℕ → Heap ν → ν → Heap ν
  | 0, h, _ => h
  | fuel + 1, h, n =>
    match h.node n with
    | none => h.misuse
    | some x =>
      if x.refs ≤ 1 then x.body.children.foldl (decrefWith fuel) (h.drop n)
      else h.put n { x with refs := x.refs - 1 }

/-- A node is destroyed once, so there is no deeper recursion than there are nodes. -/
def jsonDecref (h : Heap ν) (n : ν) : Heap ν := decrefWith (h.created.card + 1) h n

/-- The reference that was handed over with a value is dropped. -/
def decrefItem (h : Heap ν) : Item ν → Heap ν
  | .leaf _ => h
  | .node c => h.jsonDecref c

def jsonObjectSetNew (h : Heap ν) (n : ν) (key : String) (value : Item ν) : Heap ν :=
  match h.node n with
  | none => h.misuse
  | some ⟨_, .array _⟩ => h.decrefItem value
  | some ⟨refs, .object members⟩ =>
    let h := h.put n ⟨refs, .object (members.insert key value)⟩
    match members.get? key with
    | none => h
    | some old => h.decrefItem old

def jsonObjectSet (h : Heap ν) (n : ν) (key : String) (c : ν) : Heap ν :=
  (h.incref c).jsonObjectSetNew n key (.node c)

def jsonArrayAppend (h : Heap ν) (n c : ν) : Heap ν :=
  let h := h.incref c
  match h.node n with
  | none => h.misuse
  | some ⟨_, .object _⟩ => h.jsonDecref c
  | some ⟨refs, .array elements⟩ => h.put n ⟨refs, .array (elements ++ [c])⟩

/-- A string or number that is set as it is made; a null pointer stores nothing. -/
def setLeaf (h : Heap ν) (n : ν) (field : String × Option Value) : Heap ν :=
  match field.2 with
  | none => h
  | some v => h.jsonObjectSetNew n field.1 (.leaf v)

def itemValue (value : ν → Option Value) : Item ν → Option Value
  | .leaf v => some v
  | .node n => value n

/-- The value of a node, unless something in it was destroyed. -/
def valueWith (h : Heap ν) : ℕ → ν → Option Value
  | 0, _ => none
  | fuel + 1, n =>
    match h.node n with
    | none => none
    | some ⟨_, .array elements⟩ => (elements.mapM (h.valueWith fuel)).map .array
    | some ⟨_, .object members⟩ =>
      (members.entries.mapM fun e =>
        (itemValue (h.valueWith fuel) e.2).map fun v => (e.1, v)).map .object

def value (h : Heap ν) (n : ν) : Option Value := h.valueWith (h.created.card + 1) n

end Heap

/-- The text of a C string that is valid UTF-8. -/
def utf8? (bytes : List UInt8) : Option String :=
  if Utf8.Valid bytes then some (String.ofList (Utf8.runes bytes)) else none

def jsonString (bytes : Option (List UInt8)) : Option Value :=
  (bytes.bind utf8?).map .string

def jsonInteger (i : ℤ) : Option Value := some (.int i)

/-- A tag is stored when both its key and its value are valid UTF-8. -/
def tagField (tag : List UInt8 × List UInt8) : Option (String × Option Value) :=
  (utf8? tag.1).map fun key => (key, jsonString (some tag.2))

def controlCoded (c : Char) : Bool := c.toNat < 0x20

def upperHexDigit (d : ℕ) : Char := (Nat.digitChar d).toUpper

def janssonEscape : Char → List Char := escapeBy controlCoded upperHexDigit

theorem lawful_janssonEscape : LawfulEscape janssonEscape := by
  apply lawful_escapeBy
  · intro c h
    simp only [controlCoded, decide_eq_true_eq] at h
    omega
  · intro c h
    simpa [controlCoded] using h
  · decide

/-- `json_dumps` with `JSON_COMPACT | JSON_SORT_KEYS`. -/
def jsonDumps {ν : Type} [DecidableEq ν] (h : Heap ν) (n : ν) : Option (List UInt8) :=
  (h.value n).map fun v => Utf8.encode (print janssonEscape v)

namespace Heap
variable {ν : Type} [DecidableEq ν]

/-! ## Small facts about the heap -/

@[simp] theorem put_node (h : Heap ν) (n : ν) (x : Node ν) (m : ν) :
    (h.put n x).node m = if m = n then some x else h.node m := Function.update_apply _ _ _ _

@[simp] theorem drop_node (h : Heap ν) (n m : ν) :
    (h.drop n).node m = if m = n then none else h.node m := Function.update_apply _ _ _ _

def holds (h : Heap ν) (m n : ν) : ℕ :=
  match h.node n with
  | none => 0
  | some x => x.body.children.count m

/-- The references to `m` that are held inside the heap. -/
def held (h : Heap ν) (m : ν) : ℕ := ∑ n ∈ h.created, h.holds m n

def refs (h : Heap ν) (m : ν) : ℕ :=
  match h.node m with
  | none => 0
  | some x => x.refs

/-- `m` has a reference that nobody is going to drop, next to those held inside the heap and
`owed` others. -/
def Retained (h : Heap ν) (m : ν) (owed : ℕ) : Prop := h.held m + owed < h.refs m

theorem holds_of_not_mem {h : Heap ν} {n : ν} (hn : n ∉ h.created) (m : ν) : h.holds m n = 0 := by
  have hnone : h.node n = none := by
    by_contra hne
    exact hn (h.known n hne)
  simp [holds, hnone]

theorem held_eq_sum_of_subset {h : Heap ν} {s : Finset ν} (hs : h.created ⊆ s) (m : ν) :
    h.held m = ∑ n ∈ s, h.holds m n :=
  Finset.sum_subset hs fun _ _ hn => holds_of_not_mem hn m

/-- Changing one node moves what is held by the difference of what that node holds. -/
theorem held_add_holds {h h' : Heap ν} {n : ν} (hcreated : h'.created = insert n h.created)
    (hother : ∀ k, k ≠ n → h'.node k = h.node k) (m : ν) :
    h'.held m + h.holds m n = h.held m + h'.holds m n := by
  have hsum := held_eq_sum_of_subset (Finset.subset_insert n h.created) m
  have hmem : n ∈ insert n h.created := Finset.mem_insert_self n h.created
  have hsame : ∑ k ∈ (insert n h.created).erase n, h'.holds m k =
      ∑ k ∈ (insert n h.created).erase n, h.holds m k :=
    Finset.sum_congr rfl fun k hk => by
      simp only [holds, hother k (Finset.ne_of_mem_erase hk)]
  rw [hsum, held, hcreated, ← Finset.add_sum_erase _ _ hmem, ← Finset.add_sum_erase _ _ hmem,
    hsame]
  omega

theorem held_put (h : Heap ν) (n : ν) (x : Node ν) (m : ν) :
    (h.put n x).held m + h.holds m n = h.held m + x.body.children.count m := by
  have hmoved : (h.put n x).held m + h.holds m n = h.held m + (h.put n x).holds m n :=
    held_add_holds rfl (fun k hk => by simp [hk]) m
  have hholds : (h.put n x).holds m n = x.body.children.count m := by simp [holds]
  rw [hmoved, hholds]

theorem held_drop {h : Heap ν} {n : ν} {x : Node ν} (hx : h.node n = some x) (m : ν) :
    (h.drop n).held m + x.body.children.count m = h.held m := by
  have hmem : n ∈ h.created := h.known n (by simp [hx])
  have hcreated : (h.drop n).created = insert n h.created := (Finset.insert_eq_of_mem hmem).symm
  have hmoved : (h.drop n).held m + h.holds m n = h.held m + (h.drop n).holds m n :=
    held_add_holds hcreated (fun k hk => by simp [hk]) m
  have hholds : (h.drop n).holds m n = 0 := by simp [holds]
  have hheld : h.holds m n = x.body.children.count m := by simp [holds, hx]
  rw [hholds, hheld] at hmoved
  omega

/-! ## A reference that is never dropped -/

theorem Retained.mono {h : Heap ν} {m : ν} {a b : ℕ} (hr : h.Retained m b) (hab : a ≤ b) :
    h.Retained m a := by
  unfold Retained at hr ⊢
  omega

theorem Retained.misuse {h : Heap ν} {m : ν} {owed : ℕ} (hr : h.Retained m owed) :
    h.misuse.Retained m owed := hr

theorem Retained.alive {h : Heap ν} {m : ν} {owed : ℕ} (hr : h.Retained m owed) :
    h.node m ≠ none := by
  intro hnone
  simp [Retained, refs, hnone] at hr

/-- Putting a node back with as many references, or with more where the node is `m`. -/
theorem Retained.put {h : Heap ν} {m : ν} {owed owed' : ℕ} (hr : h.Retained m owed) {n : ν}
    {x y : Node ν} (hx : h.node n = some x)
    (hrefs : n = m → x.refs + y.body.children.count m + owed' ≤
      y.refs + x.body.children.count m + owed)
    (hchildren : n ≠ m → y.body.children.count m + owed' ≤ x.body.children.count m + owed) :
    (h.put n y).Retained m owed' := by
  have hheld := held_put h n y m
  have hholds : h.holds m n = x.body.children.count m := by simp [holds, hx]
  unfold Retained at hr ⊢
  by_cases hnm : n = m
  · subst hnm
    have hbefore : h.refs n = x.refs := by simp [refs, hx]
    have hafter : (h.put n y).refs n = y.refs := by simp [refs]
    have hsum := hrefs rfl
    omega
  · have hsame : (h.put n y).refs m = h.refs m := by simp [refs, Ne.symm hnm]
    have hsum := hchildren hnm
    omega

theorem Retained.foldl_decref {h : Heap ν} {m : ν} {owed fuel : ℕ} {cs : List ν}
    (ih : ∀ (h : Heap ν) (n : ν) (owed : ℕ), h.Retained m (owed + [n].count m) →
      (decrefWith fuel h n).Retained m owed)
    (hr : h.Retained m (owed + cs.count m)) :
    (cs.foldl (decrefWith fuel) h).Retained m owed := by
  induction cs generalizing h with
  | nil => exact hr
  | cons c cs ihcs =>
    have hcount : (c :: cs).count m = cs.count m + [c].count m := by
      rw [← List.singleton_append, List.count_append, Nat.add_comm]
    rw [hcount, ← Nat.add_assoc] at hr
    exact ihcs (ih h c _ hr)

/-- Dropping references that are owed leaves the one that is not. -/
theorem Retained.decrefWith {m : ν} (fuel : ℕ) (h : Heap ν) (n : ν) (owed : ℕ)
    (hr : h.Retained m (owed + [n].count m)) : (decrefWith fuel h n).Retained m owed := by
  induction fuel generalizing h n owed with
  | zero => exact hr.mono (Nat.le_add_right _ _)
  | succ fuel ih =>
    rw [Heap.decrefWith]
    cases hx : h.node n with
    | none => exact (hr.mono (Nat.le_add_right _ _)).misuse
    | some x =>
      simp only
      split_ifs with hlast
      · have hnm : n ≠ m := by
          rintro rfl
          have hrefs : h.refs n = x.refs := by simp [refs, hx]
          simp only [Retained, List.count_cons_self, List.count_nil] at hr
          omega
        refine Retained.foldl_decref ih ?_
        have hdrop := held_drop hx m
        have hrefs : (h.drop n).refs m = h.refs m := by simp [refs, Ne.symm hnm]
        unfold Retained at hr ⊢
        omega
      · refine hr.put hx (fun hnm => ?_) (fun hnm => ?_)
        · subst hnm
          simp only [List.count_cons_self, List.count_nil]
          omega
        · simp [hnm]

theorem Retained.jsonDecref {h : Heap ν} {m n : ν} {owed : ℕ}
    (hr : h.Retained m (owed + [n].count m)) : (h.jsonDecref n).Retained m owed :=
  hr.decrefWith _ h n owed

theorem Retained.decrefItem {h : Heap ν} {m : ν} {owed : ℕ} {item : Item ν}
    (hr : h.Retained m (owed + item.nodes.count m)) : (h.decrefItem item).Retained m owed := by
  cases item with
  | leaf v => exact hr
  | node c => exact hr.jsonDecref

theorem Retained.incref {h : Heap ν} {m : ν} {owed : ℕ} (hr : h.Retained m owed) (n : ν) :
    (h.incref n).Retained m (owed + [n].count m) := by
  rw [Heap.incref]
  cases hx : h.node n with
  | none =>
    have hnm : n ≠ m := fun heq => hr.alive (heq ▸ hx)
    simpa [hnm] using hr.misuse
  | some x =>
    refine hr.put hx (fun hnm => ?_) (fun hnm => ?_)
    · subst hnm
      simp only [List.count_cons_self, List.count_nil]
      omega
    · simp [hnm]

theorem Retained.jsonObjectSetNew {h : Heap ν} {m n : ν} {owed : ℕ} {key : String}
    {value : Item ν} (hr : h.Retained m (owed + value.nodes.count m)) :
    (h.jsonObjectSetNew n key value).Retained m owed := by
  rw [Heap.jsonObjectSetNew]
  cases hx : h.node n with
  | none => exact (hr.mono (Nat.le_add_right _ _)).misuse
  | some x =>
    obtain ⟨refs, body⟩ := x
    cases body with
    | array elements => exact hr.decrefItem
    | object members =>
      have hcount := SortedMap.count_insert Item.nodes members key value m
      have hput : (h.put n ⟨refs, .object (members.insert key value)⟩).Retained m
          (owed + ((members.get? key).elim [] Item.nodes).count m) :=
        hr.put hx (fun _ => by simp only [Body.children]; omega)
          (fun _ => by simp only [Body.children]; omega)
      cases hold : members.get? key with
      | none =>
        simp only [hold, Option.elim_none, List.count_nil, Nat.add_zero] at hput
        simpa [hold] using hput
      | some old =>
        simp only [hold, Option.elim_some] at hput
        simpa [hold] using hput.decrefItem

theorem Retained.jsonObjectSet {h : Heap ν} {m : ν} {owed : ℕ} (hr : h.Retained m owed) (n : ν)
    (key : String) (c : ν) : (h.jsonObjectSet n key c).Retained m owed :=
  (hr.incref c).jsonObjectSetNew

theorem Retained.jsonArrayAppend {h : Heap ν} {m : ν} {owed : ℕ} (hr : h.Retained m owed)
    (n c : ν) : (h.jsonArrayAppend n c).Retained m owed := by
  have hc := hr.incref c
  simp only [Heap.jsonArrayAppend]
  cases hx : (h.incref c).node n with
  | none => exact (hc.mono (Nat.le_add_right _ _)).misuse
  | some x =>
    obtain ⟨refs, body⟩ := x
    cases body with
    | object members => exact hc.jsonDecref
    | array elements =>
      refine hc.put hx (fun _ => ?_) (fun _ => ?_)
      · simp only [Body.children, List.count_append]
        omega
      · simp only [Body.children, List.count_append]
        omega

theorem Retained.setLeaf {h : Heap ν} {m : ν} {owed : ℕ} (hr : h.Retained m owed) (n : ν)
    (field : String × Option Value) : (h.setLeaf n field).Retained m owed := by
  obtain ⟨key, value⟩ := field
  cases value with
  | none => exact hr
  | some v => exact Retained.jsonObjectSetNew (by simpa [Item.nodes] using hr)

theorem held_jsonObject_le (h : Heap ν) (n m : ν) : (h.jsonObject n).held m ≤ h.held m := by
  have hput := held_put h n ⟨1, .object SortedMap.empty⟩ m
  have hnone : (Body.object (ν := ν) SortedMap.empty).children = [] := rfl
  rw [hnone, List.count_nil] at hput
  unfold Heap.jsonObject
  omega

theorem Retained.jsonObject {h : Heap ν} {m : ν} {owed : ℕ} (hr : h.Retained m owed) {n : ν}
    (hnm : n ≠ m) : (h.jsonObject n).Retained m owed := by
  have hheld := held_jsonObject_le h n m
  have hrefs : (h.jsonObject n).refs m = h.refs m := by simp [Heap.jsonObject, refs, Ne.symm hnm]
  unfold Retained at hr ⊢
  omega

theorem retained_jsonArray {h : Heap ν} {m : ν} (hheld : h.held m = 0) :
    (h.jsonArray m).Retained m 0 := by
  have hput := held_put h m ⟨1, .array []⟩ m
  have hnone : (Body.array (ν := ν) []).children = [] := rfl
  rw [hnone, List.count_nil] at hput
  have hrefs : (h.jsonArray m).refs m = 1 := by simp [Heap.jsonArray, refs]
  unfold Retained
  unfold Heap.jsonArray at hrefs ⊢
  omega

/-! ## Fuel -/

def live (h : Heap ν) : Finset ν := h.created.filter fun n => (h.node n).isSome

omit [DecidableEq ν] in
theorem mem_live {h : Heap ν} {n : ν} : n ∈ h.live ↔ h.node n ≠ none := by
  rw [live, Finset.mem_filter, ← Option.ne_none_iff_isSome]
  exact ⟨fun hn => hn.2, fun hn => ⟨h.known n hn, hn⟩⟩

theorem live_drop_subset (h : Heap ν) (n : ν) : (h.drop n).live ⊆ h.live := by
  intro k hk
  rw [mem_live, drop_node] at hk
  rw [mem_live]
  split_ifs at hk
  · exact absurd rfl hk
  · exact hk

theorem card_live_drop {h : Heap ν} {n : ν} (hn : h.node n ≠ none) :
    (h.drop n).live.card < h.live.card :=
  Finset.card_lt_card <| (Finset.ssubset_iff_of_subset (live_drop_subset h n)).mpr
    ⟨n, mem_live.mpr hn, by simp [mem_live]⟩

theorem live_decrefWith_subset (fuel : ℕ) (h : Heap ν) (n : ν) :
    (decrefWith fuel h n).live ⊆ h.live := by
  induction fuel generalizing h n with
  | zero => exact Finset.Subset.refl _
  | succ fuel ih =>
    rw [decrefWith]
    cases hx : h.node n with
    | none => exact Finset.Subset.refl _
    | some x =>
      simp only
      split_ifs
      · refine Finset.Subset.trans ?_ (live_drop_subset h n)
        generalize h.drop n = g
        induction x.body.children generalizing g with
        | nil => exact Finset.Subset.refl _
        | cons c cs ihcs => exact (ihcs _).trans (ih g c)
      · intro k hk
        rw [mem_live, put_node] at hk
        rw [mem_live]
        split_ifs at hk with hkn
        · simp [hkn, hx]
        · exact hk

/-- With more fuel than there are live nodes the recursion never runs out of it. -/
theorem decrefWith_eq_of_live {fuel fuel' : ℕ} (h : Heap ν) (n : ν) (hf : h.live.card < fuel)
    (hf' : h.live.card < fuel') : decrefWith fuel h n = decrefWith fuel' h n := by
  induction fuel generalizing fuel' h n with
  | zero => omega
  | succ fuel ih =>
    cases fuel' with
    | zero => omega
    | succ fuel' =>
      rw [decrefWith, decrefWith]
      cases hx : h.node n with
      | none => rfl
      | some x =>
        have hdrop : (h.drop n).live.card < h.live.card := card_live_drop (by simp [hx])
        have hchildren : ∀ (cs : List ν) (g : Heap ν), g.live.card < fuel → g.live.card < fuel' →
            cs.foldl (decrefWith fuel) g = cs.foldl (decrefWith fuel') g := by
          intro cs
          induction cs with
          | nil => exact fun _ _ _ => rfl
          | cons c cs ihcs =>
            intro g hg hg'
            have hle := Finset.card_le_card (live_decrefWith_subset fuel' g c)
            rw [List.foldl_cons, List.foldl_cons, ih g c hg hg']
            exact ihcs _ (by omega) (by omega)
        simp only
        split_ifs
        · exact hchildren _ _ (by omega) (by omega)
        · rfl

/-- `jsonDecref` drops what any larger amount of fuel would. -/
theorem jsonDecref_eq (h : Heap ν) (n : ν) {fuel : ℕ} (hf : h.created.card < fuel) :
    h.jsonDecref n = decrefWith fuel h n := by
  have hle : h.live.card ≤ h.created.card := Finset.card_filter_le _ _
  exact decrefWith_eq_of_live h n (by omega) (by omega)

/-! ## What the nodes hold -/

def body? (h : Heap ν) (n : ν) : Option (Body ν) := (h.node n).map Node.body

theorem body?_put (h : Heap ν) (n : ν) (x : Node ν) :
    (h.put n x).body? = Function.update h.body? n (some x.body) := by
  funext m
  by_cases hmn : m = n
  · simp [body?, hmn]
  · simp [body?, hmn]

theorem body?_jsonObject (h : Heap ν) (n : ν) :
    (h.jsonObject n).body? = Function.update h.body? n (some (.object SortedMap.empty)) :=
  body?_put h n _

theorem body?_incref (h : Heap ν) (n : ν) : (h.incref n).body? = h.body? := by
  rw [incref]
  cases hx : h.node n with
  | none => rfl
  | some x =>
    have hbody : h.body? n = some x.body := by simp [body?, hx]
    simp only [body?_put, ← hbody, Function.update_eq_self]

theorem body?_jsonObjectSetNew {h : Heap ν} {n : ν} {members : SortedMap String (Item ν)}
    (hn : h.body? n = some (.object members)) {key : String}
    (hkey : ∀ c, members.get? key ≠ some (.node c)) (value : Item ν) :
    (h.jsonObjectSetNew n key value).body? =
      Function.update h.body? n (some (.object (members.insert key value))) := by
  obtain ⟨x, hx, hbody⟩ := Option.map_eq_some_iff.mp hn
  obtain ⟨refs, body⟩ := x
  obtain rfl : body = .object members := hbody
  have hput := body?_put h n ⟨refs, .object (members.insert key value)⟩
  rw [jsonObjectSetNew, hx]
  simp only
  cases hold : members.get? key with
  | none => exact hput
  | some old =>
    cases old with
    | leaf v => exact hput
    | node c => exact absurd hold (hkey c)

theorem body?_jsonObjectSet {h : Heap ν} {n : ν} {members : SortedMap String (Item ν)}
    (hn : h.body? n = some (.object members)) (key : String)
    (hkey : ∀ c, members.get? key ≠ some (.node c)) (c : ν) :
    (h.jsonObjectSet n key c).body? =
      Function.update h.body? n (some (.object (members.insert key (.node c)))) := by
  have hn' : (h.incref c).body? n = some (.object members) := by rw [body?_incref, hn]
  rw [jsonObjectSet, body?_jsonObjectSetNew hn' hkey, body?_incref]

theorem body?_jsonArrayAppend {h : Heap ν} {n : ν} {elements : List ν}
    (hn : h.body? n = some (.array elements)) (c : ν) :
    (h.jsonArrayAppend n c).body? =
      Function.update h.body? n (some (.array (elements ++ [c]))) := by
  have hn' : (h.incref c).body? n = some (.array elements) := by rw [body?_incref, hn]
  obtain ⟨x, hx, hbody⟩ := Option.map_eq_some_iff.mp hn'
  obtain ⟨refs, body⟩ := x
  obtain rfl : body = .array elements := hbody
  simp only [jsonArrayAppend, hx, body?_put, body?_incref]

def leaves (fields : List (String × Option Value)) : List (String × Item ν) :=
  (present fields).map fun f => (f.1, .leaf f.2)

def setLeaves (h : Heap ν) (n : ν) (fields : List (String × Option Value)) : Heap ν :=
  fields.foldl (fun h field => h.setLeaf n field) h

theorem body?_setLeaves {h : Heap ν} {n : ν} {members : SortedMap String (Item ν)}
    (hn : h.body? n = some (.object members)) {fields : List (String × Option Value)}
    (hkeys : ∀ f ∈ fields, ∀ c, members.get? f.1 ≠ some (.node c)) :
    (h.setLeaves n fields).body? =
      Function.update h.body? n (some (.object (members.insertAll (leaves fields)))) := by
  induction fields generalizing h members with
  | nil => exact (Function.update_eq_self_iff.mpr hn.symm).symm
  | cons f fields ih =>
    obtain ⟨key, value⟩ := f
    cases value with
    | none => exact ih hn fun f hf => hkeys f (by simp [hf])
    | some v =>
      have hset := body?_jsonObjectSetNew hn (hkeys (key, some v) (by simp)) (.leaf v)
      have hn' : (h.setLeaf n (key, some v)).body? n =
          some (.object (members.insert key (.leaf v))) := by
        rw [setLeaf, hset, Function.update_self]
      have hrest := ih hn' fun f hf c => by
        rw [SortedMap.get?_insert]
        split_ifs
        · simp
        · exact hkeys f (by simp [hf]) c
      rw [setLeaf, hset, Function.update_idem] at hrest
      exact hrest

/-! ## The values of the nodes -/

omit [DecidableEq ν] in
theorem valueWith_array {h : Heap ν} {n : ν} {elements : List ν}
    (hn : h.body? n = some (.array elements)) {fuel : ℕ} {vs : List Value}
    (hvs : elements.mapM (h.valueWith fuel) = some vs) :
    h.valueWith (fuel + 1) n = some (.array vs) := by
  obtain ⟨x, hx, hbody⟩ := Option.map_eq_some_iff.mp hn
  obtain ⟨refs, body⟩ := x
  obtain rfl : body = .array elements := hbody
  simp [valueWith, hx, hvs]

omit [DecidableEq ν] in
theorem valueWith_object {h : Heap ν} {n : ν} {members : SortedMap String (Item ν)}
    (hn : h.body? n = some (.object members)) {fuel : ℕ} {value : Item ν → Value}
    (hvalue : ∀ e ∈ members.entries, itemValue (h.valueWith fuel) e.2 = some (value e.2)) :
    h.valueWith (fuel + 1) n = some (.object (members.mapValues value).entries) := by
  obtain ⟨x, hx, hbody⟩ := Option.map_eq_some_iff.mp hn
  obtain ⟨refs, body⟩ := x
  obtain rfl : body = .object members := hbody
  have hentries : (members.entries.mapM fun e =>
      (itemValue (h.valueWith fuel) e.2).map fun v => (e.1, v)) =
      some (members.mapValues value).entries := by
    change _ = some (members.entries.map fun e => (e.1, value e.2))
    revert hvalue
    generalize members.entries = es
    intro hvalue
    induction es with
    | nil => rfl
    | cons e es ih =>
      rw [List.mapM_cons, hvalue e (by simp), ih fun e he => hvalue e (by simp [he])]
      rfl
  simp [valueWith, hx, hentries]

end Heap

def Item.resolve {ν : Type} (value : ν → Value) : Item ν → Value
  | .leaf v => v
  | .node c => value c

def leavesValue (fields : List (String × Option Value)) : Value :=
  .object (SortedMap.empty.insertAll (present fields)).entries

/-- The last field of a name that is present decides. -/
theorem lookup_insertAll_present (members : SortedMap String Value)
    (fields : List (String × Option Value)) (key : String) :
    (members.insertAll (present fields)).entries.lookup key =
      fields.foldl (fun found f => if key = f.1 then f.2.or found else found)
        (members.entries.lookup key) := by
  induction fields generalizing members with
  | nil => rfl
  | cons f fields ih =>
    obtain ⟨k, v⟩ := f
    cases v with
    | none =>
      rw [List.foldl_cons, Option.none_or, ite_self]
      exact ih members
    | some v =>
      have hinsert : (members.insert k v).entries.lookup key =
          if key = k then some v else members.entries.lookup key :=
        SortedMap.get?_insert members k v key
      rw [List.foldl_cons, Option.some_or, ← hinsert]
      exact ih (members.insert k v)

namespace Heap
variable {ν : Type}

theorem valueWith_members {h : Heap ν} {n : ν} {members : SortedMap String (Item ν)}
    {fields : List (String × Option Value)}
    (hn : h.body? n = some (.object (members.insertAll (leaves fields)))) {fuel : ℕ}
    {g : ν → Value}
    (hvalue : ∀ e ∈ members.entries, ∃ c, e.2 = .node c ∧ h.valueWith fuel c = some (g c)) :
    h.valueWith (fuel + 1) n = some
      (.object ((members.mapValues (Item.resolve g)).insertAll (present fields)).entries) := by
  have hall : ∀ e ∈ (members.insertAll (leaves fields)).entries,
      itemValue (h.valueWith fuel) e.2 = some (e.2.resolve g) := by
    intro e he
    rcases SortedMap.mem_insertAll he with he | he
    · obtain ⟨c, hc, hvc⟩ := hvalue e he
      rw [hc]
      exact hvc
    · obtain ⟨f, -, rfl⟩ := List.mem_map.mp he
      rfl
  have hleaves : (leaves (ν := ν) fields).map (fun e => (e.1, e.2.resolve g)) =
      present fields := by
    rw [leaves, List.map_map]
    exact List.map_id _
  rw [valueWith_object hn hall, SortedMap.mapValues_insertAll, hleaves]

theorem valueWith_leaves {h : Heap ν} {n : ν} {fields : List (String × Option Value)}
    (hn : h.body? n = some (.object (SortedMap.empty.insertAll (leaves fields)))) (fuel : ℕ) :
    h.valueWith (fuel + 1) n = some (leavesValue fields) :=
  valueWith_members (g := fun _ => .null) hn (by simp [SortedMap.empty])

theorem valueWith_parts [DecidableEq ν] {h : Heap ν} {n n₁ n₂ : ν} (hne : n₁ ≠ n₂)
    {k₁ k₂ : String} {fields : List (String × Option Value)}
    (hn : h.body? n = some (.object (((SortedMap.empty.insert k₁ (.node n₁)).insert k₂
      (.node n₂)).insertAll (leaves fields)))) {fuel : ℕ} {v₁ v₂ : Value}
    (h₁ : h.valueWith fuel n₁ = some v₁) (h₂ : h.valueWith fuel n₂ = some v₂) :
    h.valueWith (fuel + 1) n = some (.object (((SortedMap.empty.insert k₁ v₁).insert k₂
      v₂).insertAll (present fields)).entries) := by
  have hvalue := valueWith_members (g := fun c => if c = n₁ then v₁ else v₂) hn fun e he => by
    rcases SortedMap.mem_insertEntry he with rfl | he
    · exact ⟨n₂, rfl, by rw [if_neg hne.symm, h₂]⟩
    · rcases SortedMap.mem_insertEntry he with rfl | he
      · exact ⟨n₁, rfl, by rw [if_pos rfl, h₁]⟩
      · exact absurd he (List.not_mem_nil)
  simpa [SortedMap.mapValues_insert, Item.resolve, hne.symm] using hvalue

end Heap
end Jansson
