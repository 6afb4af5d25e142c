import AudioFS.Json
import AudioFS.SortedMap

/-!
# The rules of `encoding/json`

How a value is decoded into a Go value that is already there, and how Go values
are encoded. Errors carry no text: a document is accepted or it is not.
-/

namespace GoJson
open Json

abbrev StringMap := SortedMap String String

/-! ## Bytes -/

/-- Control characters, what is special in HTML, and the two line separators of JavaScript. -/
def goCoded (c : Char) : Bool :=
  c.toNat < 0x20 || c == '<' || c == '>' || c == '&' || c == '\u2028' || c == '\u2029'

def goEscape : Char → List Char := escapeBy goCoded Nat.digitChar

theorem lawful_goEscape : LawfulEscape goEscape := by
  apply lawful_escapeBy
  · intro c h
    simp only [goCoded, Bool.or_eq_true, decide_eq_true_eq, beq_iff_eq] at h
    rcases h with ((((h | rfl) | rfl) | rfl) | rfl) | rfl
    · omega
    all_goals decide
  · intro c hc
    by_contra hlt
    simp [goCoded, Nat.not_le.mp hlt] at hc
  · decide

/-- `json.Marshal`, on the value it builds. -/
def marshal (v : Value) : List UInt8 := Utf8.encode (print goEscape v)

/-- The value `json.Unmarshal` reads. -/
def unmarshal (bytes : List UInt8) : Option Value := parse (Utf8.runes bytes)

theorem unmarshal_marshal (v : Value) : unmarshal (marshal v) = some v := by
  have hparse := parse_print lawful_goEscape v (List.forall_mem_nil fun c => isWhite c = true)
  rw [List.append_nil] at hparse
  rw [unmarshal, marshal, Utf8.runes_encode, hparse]

/-! ## Decoding -/

/-- Decodes a value into what is already there. -/
abbrev Decoder (α : Type) := Value → α → Option α

/-- Field names are matched under simple case folding; among ASCII letters only `k` and `s` have
a fold that is not ASCII. -/
def foldRune (c : Char) : Char :=
  if c = '\u017f' then 's' else if c = '\u212a' then 'k' else c.toLower

def foldName (s : String) : String := String.ofList (s.toList.map foldRune)

def int64? (i : ℤ) : Option Int64 :=
  if Int64.minValue.toInt ≤ i ∧ i ≤ Int64.maxValue.toInt then some (Int64.ofInt i) else none

def int64Into : Decoder Int64
  | .null, old => some old
  | .number n, _ => n.toInt?.bind int64?
  | _, _ => none

def stringInto : Decoder String
  | .null, old => some old
  | .string s, _ => some s
  | _, _ => none

/-- A pointer to a type with an `UnmarshalText`. -/
def textInto {α : Type} (unmarshalText : String → Option α) : Decoder (Option α)
  | .null, _ => some none
  | .string s, _ => (unmarshalText s).map some
  | _, _ => none

def mapInto : Decoder (Option StringMap)
  | .null, _ => some none
  | .object members, old => do
    let entries ← members.mapM fun m => (stringInto m.2 "").map fun s => (m.1, s)
    return some ((old.getD SortedMap.empty).insertAll entries)
  | _, _ => none

/-- A slice is emptied first, and each element is decoded into a zero value. This is what
`encoding/json` documents; for a key given twice its decoder in fact finds the elements of the
first value in the memory it reuses. -/
def sliceInto {α : Type} (zero : α) (element : Decoder α) : Decoder (Option (List α))
  | .null, _ => some none
  | .array elements, _ => (elements.mapM fun v => element v zero).map some
  | _, _ => none

def structInto {α : Type} (fields : List (String × Value) → α → Option α) : Decoder α
  | .null, old => some old
  | .object members, old => fields members old
  | _, _ => none

/-- What the members of an object do to the field called `name`, one after the other. -/
def decodeField {α : Type} (name : String) (field : Decoder α) (members : List (String × Value))
    (old : α) : Option α :=
  members.foldlM (fun old m => if foldName m.1 = name then field m.2 old else some old) old

/-- What a member that may be missing does to a field. -/
def memberInto {α : Type} (field : Decoder α) (old : α) : Option Value → Option α
  | none => some old
  | some v => field v old

/-! ## Encoding -/

def encodeInt64 (i : Int64) : Value := .int i.toInt

def encodeMap : Option StringMap → Value
  | none => .null
  | some m => .object (m.entries.map fun e => (e.1, .string e.2))

def encodeText {α : Type} (marshalText : α → String) : Option α → Value
  | none => .null
  | some a => .string (marshalText a)

def encodeSlice {α : Type} (element : α → Value) : Option (List α) → Value
  | none => .null
  | some as => .array (as.map element)

/-- `omitempty` on a number and on a string. -/
def omitZero (i : Int64) : Option Value := if i = 0 then none else some (encodeInt64 i)

def omitEmpty (s : String) : Option Value := if s = "" then none else some (.string s)

def encodeStruct (fields : List (String × Option Value)) : Value := .object (present fields)

/-! ## What is encoded decodes to itself -/

theorem int64Into_encode (i old : Int64) : int64Into (encodeInt64 i) old = some i := by
  have hrange : Int64.minValue.toInt ≤ i.toInt ∧ i.toInt ≤ Int64.maxValue.toInt :=
    ⟨Int64.le_toInt i, Int64.toInt_le i⟩
  simp only [int64Into, encodeInt64, Value.int, Numeral.toInt?_ofInt, Option.bind_some, int64?,
    if_pos hrange, Int64.ofInt_toInt]

@[simp] theorem memberInto_none {α : Type} (field : Decoder α) (old : α) :
    memberInto field old none = some old := rfl

@[simp] theorem memberInto_some {α : Type} (field : Decoder α) (old : α) (v : Value) :
    memberInto field old (some v) = field v old := rfl

theorem memberInto_omitZero (i : Int64) : memberInto int64Into 0 (omitZero i) = some i := by
  unfold omitZero
  split_ifs with hi
  · rw [hi]
    rfl
  · exact int64Into_encode i 0

theorem memberInto_omitEmpty (s : String) : memberInto stringInto "" (omitEmpty s) = some s := by
  unfold omitEmpty
  split_ifs with hs
  · rw [hs]
    rfl
  · rfl

theorem mapInto_encode (m : Option StringMap) : mapInto (encodeMap m) none = some m := by
  cases m with
  | none => rfl
  | some m =>
    have hentries : (m.entries.map fun e => (e.1, Value.string e.2)).mapM
        (fun e => (stringInto e.2 "").map fun s => (e.1, s)) = some m.entries := by
      induction m.entries with
      | nil => rfl
      | cons e es ih =>
        rw [List.map_cons, List.mapM_cons, ih]
        rfl
    simp [mapInto, encodeMap, hentries, SortedMap.insertAll_entries]

theorem textInto_encode {α : Type} {marshalText : α → String}
    {unmarshalText : String → Option α} (h : ∀ a, unmarshalText (marshalText a) = some a)
    (a old : Option α) : textInto unmarshalText (encodeText marshalText a) old = some a := by
  cases a with
  | none => rfl
  | some a => simp [textInto, encodeText, h]

theorem sliceInto_encode {α : Type} {zero : α} {element : Decoder α} {encode : α → Value}
    (h : ∀ a, element (encode a) zero = some a) (as old : Option (List α)) :
    sliceInto zero element (encodeSlice encode as) old = some as := by
  cases as with
  | none => rfl
  | some as =>
    have helements : (as.map encode).mapM (fun v => element v zero) = some as := by
      induction as with
      | nil => rfl
      | cons a as ih => simp [h, ih]
    simp [sliceInto, encodeSlice, helements]

/-- Names of which no two stand for the same field. -/
structure Distinct (names : List String) : Prop where
  nodup : names.Nodup
  folded : ∀ name ∈ names, foldName name = name

instance (names : List String) : Decidable (Distinct names) :=
  decidable_of_iff (names.Nodup ∧ ∀ name ∈ names, foldName name = name)
    ⟨fun h => ⟨h.1, h.2⟩, fun h => ⟨h.nodup, h.folded⟩⟩

theorem decodeField_of_not_mem {α : Type} {members : List (String × Value)} {name : String}
    (h : ∀ m ∈ members, foldName m.1 ≠ name) (field : Decoder α) (old : α) :
    decodeField name field members old = some old := by
  induction members with
  | nil => rfl
  | cons m members ih =>
    have hm : foldName m.1 ≠ name := h m (by simp)
    have hrest := ih fun m' hm' => h m' (by simp [hm'])
    rw [decodeField] at hrest ⊢
    simp [hm, hrest]

theorem decodeField_eq_lookup {α : Type} {members : List (String × Value)}
    (h : Distinct (members.map Prod.fst)) (name : String) (field : Decoder α) (old : α) :
    decodeField name field members old = memberInto field old (members.lookup name) := by
  obtain ⟨hnodup, hfolded⟩ := h
  induction members with
  | nil => rfl
  | cons m members ih =>
    obtain ⟨k, v⟩ := m
    have hk : foldName k = k := hfolded k (by simp)
    have hrest : ∀ m ∈ members, foldName m.1 = m.1 := fun m hm =>
      hfolded m.1 (List.mem_cons_of_mem _ (List.mem_map_of_mem hm))
    simp only [List.map_cons, List.nodup_cons] at hnodup
    by_cases hname : name = k
    · subst hname
      have hnone : ∀ m ∈ members, foldName m.1 ≠ name := fun m hm heq =>
        hnodup.1 (List.mem_map.mpr ⟨m, hm, (hrest m hm).symm.trans heq⟩)
      have hcons : decodeField name field ((name, v) :: members) old =
          (field v old).bind fun old => decodeField name field members old := by
        simp [decodeField, hk]
      rw [hcons, List.lookup_cons_self]
      change _ = field v old
      cases field v old with
      | none => rfl
      | some new => exact decodeField_of_not_mem hnone field new
    · have hcons : decodeField name field ((k, v) :: members) old =
          decodeField name field members old := by
        simp [decodeField, hk, Ne.symm hname]
      have hbeq : (name == k) = false := by simpa using hname
      rw [hcons, ih hnodup.2 fun n hn => hfolded n (by simp [hn])]
      simp only [List.lookup_cons, hbeq]

theorem present_names_sublist (fields : List (String × Option Value)) :
    ((present fields).map Prod.fst).Sublist (fields.map Prod.fst) := by
  induction fields with
  | nil => exact .slnil
  | cons f fields ih =>
    obtain ⟨k, v⟩ := f
    cases v with
    | none => exact ih.cons k
    | some v => exact ih.cons_cons k

theorem Distinct.sublist {a b : List String} (h : Distinct b) (hs : a.Sublist b) : Distinct a :=
  ⟨h.nodup.sublist hs, fun name hn => h.folded name (hs.subset hn)⟩

theorem lookup_present {fields : List (String × Option Value)} (h : (fields.map Prod.fst).Nodup)
    (name : String) : (present fields).lookup name = (fields.lookup name).join := by
  induction fields with
  | nil => rfl
  | cons f fields ih =>
    obtain ⟨k, v⟩ := f
    simp only [List.map_cons, List.nodup_cons] at h
    have hrest := ih h.2
    by_cases hname : name = k
    · subst hname
      cases v with
      | none =>
        have hnone : fields.lookup name = none := by
          rw [List.lookup_eq_none_iff]
          intro f hf
          have hne : name ≠ f.1 := fun heq => h.1 (List.mem_map.mpr ⟨f, hf, heq.symm⟩)
          simpa using hne
        rw [List.lookup_cons_self, Option.join_some]
        change (present fields).lookup name = none
        rw [hrest, hnone, Option.join_none]
      | some v =>
        rw [List.lookup_cons_self, Option.join_some]
        exact List.lookup_cons_self
    · have hbeq : (name == k) = false := by simpa using hname
      cases v with
      | none =>
        have hcons : present ((k, none) :: fields) = present fields := rfl
        simp only [hcons, List.lookup_cons, hbeq, hrest]
      | some v =>
        have hcons : present ((k, some v) :: fields) = (k, v) :: present fields := rfl
        simp only [hcons, List.lookup_cons, hbeq, hrest]

theorem decodeField_present {α : Type} {fields : List (String × Option Value)}
    (h : Distinct (fields.map Prod.fst)) (name : String) (field : Decoder α) (old : α) :
    decodeField name field (present fields) old =
      memberInto field old (fields.lookup name).join := by
  rw [decodeField_eq_lookup (h.sublist (present_names_sublist fields)), lookup_present h.nodup]

theorem distinct_entries {m : SortedMap String Value}
    (h : ∀ e ∈ m.entries, foldName e.1 = e.1) : Distinct (m.entries.map Prod.fst) where
  nodup := by
    have hsorted : (m.entries.map Prod.fst).Pairwise (· < ·) := List.pairwise_map.mpr m.sorted
    exact hsorted.imp ne_of_lt
  folded name hname := by
    obtain ⟨e, he, rfl⟩ := List.mem_map.mp hname
    exact h e he

end GoJson
