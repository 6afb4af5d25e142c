import AudioFS.Ledger

/-!
# Random strings

`generate_random_string` of `util.h`: letters and digits from the bytes of
`/dev/urandom`, read one at a time, with an exit at each call that can fail.
-/

namespace AudioFS
open AudioFS.CInteger

def urandom : List UInt8 := [47, 100, 101, 118, 47, 117, 114, 97, 110, 100, 111, 109]

def randomCharacter (randomByte : UInt8) : UInt8 :=
  let randomByte := randomByte % 62
  if randomByte < 10 then 48 + randomByte
  else if randomByte < 36 then 65 + (randomByte - 10)
  else 97 + (randomByte - 36)

/-- The reading loop, with the characters stored so far. A read that delivers nothing leaves the
byte zero, but then its count is not one. -/
def readCharacters (c : Platform) (urandomFd : Int32) :
    ℕ → List UInt8 → Process → Option (List UInt8) × Process
  | 0, stored, p => (some stored, p)
  | rounds + 1, stored, p =>
    let r := c.read p.syscalls urandomFd 1
    if r.1 ≠ 1 then (none, p.syscall)
    else readCharacters c urandomFd rounds (stored ++ [randomCharacter (r.2.headD 0)]) p.syscall

def Process.close (p : Process) (file : Int32) : Process :=
  { p.syscall with descriptors := p.descriptors.erase file }

def fillString (c : Platform) (randomString : Block) (urandomFd : Int32) (length : ℕ)
    (p : Process) : Option Block × Process :=
  match readCharacters c urandomFd length [] p with
  | (none, p) => (none, (p.release randomString.addr).close urandomFd)
  | (some stored, p) =>
    let bytes := stored ++ 0 :: randomString.bytes.drop (stored.length + 1)
    (some { randomString with bytes := bytes }, p.close urandomFd)

/-- `malloc` is a `realloc` of nothing. -/
def generateRandomString (c : Platform) (p : Process) (length : Int32) :
    Option Block × Process :=
  if length < 1 then (none, p)
  else
    match p.realloc c none (toU64 (length + 1)) with
    | (none, p) => (none, p)
    | (some randomString, p) =>
      let urandomFd := c.openFile p.syscalls urandom
      let p := p.syscall
      if urandomFd = -1 then (none, p.release randomString.addr)
      else
        fillString c randomString urandomFd length.toInt.toNat
          { p with descriptors := urandomFd :: p.descriptors }

def Alphanumeric (x : UInt8) : Prop :=
  (48 ≤ x ∧ x ≤ 57) ∨ (65 ≤ x ∧ x ≤ 90) ∨ (97 ≤ x ∧ x ≤ 122)

theorem randomCharacter_alphanumeric (b : UInt8) : Alphanumeric (randomCharacter b) := by
  have hlt : (b % 62).toNat < 62 := by
    rw [UInt8.toNat_mod]
    exact Nat.mod_lt _ (by decide)
  simp only [Alphanumeric, randomCharacter]
  generalize b % 62 = r at hlt
  have hr := r.toNat_lt
  simp only [UInt8.le_iff_toNat_le, UInt8.lt_iff_toNat_lt, UInt8.reduceToNat]
  split_ifs with hdigit hupper
  · left
    simp only [UInt8.toNat_add, UInt8.reduceToNat]
    omega
  · have hge : (10 : UInt8) ≤ r := by
      simp only [UInt8.le_iff_toNat_le, UInt8.reduceToNat]
      omega
    right; left
    simp only [UInt8.toNat_add, UInt8.toNat_sub_of_le _ _ hge, UInt8.reduceToNat]
    omega
  · have hge : (36 : UInt8) ≤ r := by
      simp only [UInt8.le_iff_toNat_le, UInt8.reduceToNat]
      omega
    right; right
    simp only [UInt8.toNat_add, UInt8.toNat_sub_of_le _ _ hge, UInt8.reduceToNat]
    omega

/-- The answer to read `i` of the loop, when the file was opened by the first system call. -/
def Platform.randomRead (c : Platform) (p : Process) (i : ℕ) : Int64 × List UInt8 :=
  c.read (p.syscalls + 1 + i) (c.openFile p.syscalls urandom) 1

theorem readCharacters_cases (c : Platform) (urandomFd : Int32) (rounds : ℕ) (stored : List UInt8)
    (p : Process) :
    ((∀ i < rounds, (c.read (p.syscalls + i) urandomFd 1).1 = 1) ∧
      readCharacters c urandomFd rounds stored p =
        (some (stored ++ (List.range rounds).map fun i =>
          randomCharacter ((c.read (p.syscalls + i) urandomFd 1).2.headD 0)),
          { p with syscalls := p.syscalls + rounds })) ∨
    ((∃ i < rounds, (c.read (p.syscalls + i) urandomFd 1).1 ≠ 1) ∧
      ∃ count, readCharacters c urandomFd rounds stored p =
        (none, { p with syscalls := count })) := by
  induction rounds generalizing stored p with
  | zero =>
    left
    simp [readCharacters]
  | succ rounds ih =>
    have hlater (i : ℕ) : p.syscall.syscalls + i = p.syscalls + (i + 1) := by
      simp only [Process.syscall]
      omega
    simp only [readCharacters]
    by_cases hread : (c.read p.syscalls urandomFd 1).1 = 1
    · rw [if_neg (not_not.mpr hread)]
      have hrest := ih (stored ++ [randomCharacter ((c.read p.syscalls urandomFd 1).2.headD 0)])
        p.syscall
      simp only [hlater] at hrest
      rcases hrest with ⟨hall, heq⟩ | ⟨⟨i, hi, hne⟩, count, heq⟩
      · refine .inl ⟨fun i hi => ?_, ?_⟩
        · cases i with
          | zero => exact hread
          | succ i => exact hall i (by omega)
        · rw [heq, List.range_succ_eq_map, List.map_cons, List.map_map, List.append_assoc]
          rfl
      · exact .inr ⟨⟨i + 1, by omega, hne⟩, count, heq⟩
    · rw [if_pos hread]
      exact .inr ⟨⟨0, by omega, hread⟩, p.syscalls + 1, rfl⟩

theorem Accounts.close {q p : Process} {blocks : List ℕ} {file : Int32} {fds : List Int32}
    (h : Accounts q p blocks (file :: fds)) : Accounts q (p.close file) blocks fds where
  live := h.live
  descriptors := by
    have herase := h.descriptors.erase file
    rwa [List.cons_append, List.erase_cons_head] at herase

theorem fillString_spec (c : Platform) {q p : Process} {randomString : Block} {file : Int32}
    {length : ℕ} (hroom : randomString.bytes.length = length + 1)
    (h : Accounts q p [randomString.addr] [file]) :
    let r := fillString c randomString file length p
    (r.1 = none ↔ ∃ i < length, (c.read (p.syscalls + i) file 1).1 ≠ 1) ∧
      (r.1 = none → Accounts q r.2 [] []) ∧
      ∀ filled, r.1 = some filled → Accounts q r.2 [filled.addr] [] ∧
        filled.bytes = ((List.range length).map fun i =>
          randomCharacter ((c.read (p.syscalls + i) file 1).2.headD 0)) ++ [0] := by
  simp only [fillString]
  rcases readCharacters_cases c file length [] p with ⟨hall, heq⟩ | ⟨hfails, count, heq⟩
  · rw [heq]
    have hnone : ¬ ∃ i < length, (c.read (p.syscalls + i) file 1).1 ≠ 1 := by
      simpa using hall
    refine ⟨iff_of_false (by simp) hnone, by simp, fun filled hfilled => ?_⟩
    obtain rfl := Option.some.inj hfilled
    have hread : Accounts q { p with syscalls := p.syscalls + length } [randomString.addr] [file] :=
      ⟨h.live, h.descriptors⟩
    refine ⟨hread.close, ?_⟩
    simp [hroom]
  · rw [heq]
    have hread : Accounts q { p with syscalls := count } [randomString.addr] [file] :=
      ⟨h.live, h.descriptors⟩
    exact ⟨iff_of_true rfl hfails, fun _ => hread.release.close, by simp⟩

theorem toNat_length_add {length : Int32} (hpos : 1 ≤ length.toInt)
    (hmax : length.toInt < 2 ^ 31 - 1) :
    (toU64 (length + 1)).toNat = length.toInt.toNat + 1 := by
  have hsum : (length + 1).toInt = length.toInt + 1 := by
    rw [Int32.toInt_add, show (1 : Int32).toInt = 1 from rfl,
      Int.bmod_eq_of_le (by omega) (by omega)]
  rw [toNat_toU64 (by omega), hsum]
  omega

theorem lt_one_iff (length : Int32) : length < 1 ↔ length.toInt < 1 := by
  rw [Int32.lt_iff_toInt_lt]
  rfl

def RandomFails (c : Platform) (p : Process) (length : Int32) : Prop :=
  length.toInt < 1 ∨ c.grants p.calls (toU64 (length + 1)) = false ∨
    c.openFile p.syscalls urandom = -1 ∨
    ∃ i < length.toInt.toNat, (c.randomRead p i).1 ≠ 1

/-- For every length below `INT_MAX` (at which `length + 1` has no value), the string is null
exactly when the length is not positive or a call fails, and then nothing is left live or open.
Otherwise the one block that is left holds a letter or digit for each
byte that was read, and a terminator. -/
theorem generateRandomString_spec (c : Platform) (p : Process) {length : Int32}
    (hmax : length.toInt < 2 ^ 31 - 1) :
    let r := generateRandomString c p length
    (r.1 = none ↔ RandomFails c p length) ∧ (r.1 = none → Accounts p r.2 [] []) ∧
      ∀ randomString, r.1 = some randomString → Accounts p r.2 [randomString.addr] [] ∧
        (∀ x ∈ randomString.bytes.dropLast, Alphanumeric x) ∧
        randomString.bytes = ((List.range length.toInt.toNat).map fun i =>
          randomCharacter ((c.randomRead p i).2.headD 0)) ++ [0] := by
  intro r
  by_cases hlen : length.toInt < 1
  · have hr : r = (none, p) := if_pos ((lt_one_iff length).mpr hlen)
    rw [hr]
    exact ⟨iff_of_true rfl (.inl hlen), fun _ => .refl p, by simp⟩
  have hnot : ¬ length < 1 := fun h => hlen ((lt_one_iff length).mp h)
  cases hgrant : c.grants p.calls (toU64 (length + 1)) with
  | false =>
    have hr : r = (none, p.refuse) := by
      simp [r, generateRandomString, hnot, Process.realloc, hgrant]
    rw [hr]
    exact ⟨iff_of_true rfl (.inr (.inl hgrant)), fun _ => (Accounts.refl p).refuse, by simp⟩
  | true =>
    have hgranted : Accounts p p.grant [p.calls] [] := (Accounts.refl p).grant
    by_cases hopen : c.openFile p.syscalls urandom = -1
    · have hr : r = (none, p.grant.syscall.release p.calls) := by
        have hsyscalls : (p.free none).grant.syscalls = p.syscalls := rfl
        simp only [r, generateRandomString, if_neg hnot, Process.realloc, hgrant, if_true,
          hsyscalls, hopen]
        rfl
      rw [hr]
      exact ⟨iff_of_true rfl (.inr (.inr (.inl hopen))), fun _ => hgranted.syscall.release,
        by simp⟩
    · have hsyscalls : (p.free none).grant.syscalls = p.syscalls := rfl
      have hr : r = fillString c
          ⟨p.calls, Process.reallocated c p.calls [] (toU64 (length + 1)).toNat⟩
          (c.openFile p.syscalls urandom) length.toInt.toNat
          { p.grant.syscall with
            descriptors := c.openFile p.syscalls urandom :: p.descriptors } := by
        simp only [r, generateRandomString, if_neg hnot, Process.realloc, hgrant, if_true,
          hsyscalls, if_neg hopen]
        rfl
      have hroom : (⟨p.calls, Process.reallocated c p.calls [] (toU64 (length + 1)).toNat⟩ :
          Block).bytes.length = length.toInt.toNat + 1 := by
        rw [Process.length_reallocated, toNat_length_add (by omega) hmax]
      have hopened : Accounts p { p.grant.syscall with
          descriptors := c.openFile p.syscalls urandom :: p.descriptors } [p.calls]
          [c.openFile p.syscalls urandom] := ⟨.refl _, .refl _⟩
      obtain ⟨hnone, hkept, hfilled⟩ := fillString_spec c hroom hopened
      rw [hr]
      refine ⟨hnone.trans ?_, hkept, fun filled hsome => ?_⟩
      · simp only [RandomFails, hlen, hgrant, hopen, reduceCtorEq, false_or]
        rfl
      · obtain ⟨haccounts, hbytes⟩ := hfilled filled hsome
        refine ⟨haccounts, fun x hx => ?_, hbytes⟩
        rw [hbytes, List.dropLast_concat] at hx
        obtain ⟨i, -, rfl⟩ := List.mem_map.mp hx
        exact randomCharacter_alphanumeric _

/-- The bytes of this device are the numbers of the system calls. -/
def Platform.counting : Platform :=
  { Platform.generous with
    openFile := fun _ _ => 3
    read := fun call _ _ => (1, [UInt8.ofNat call]) }

theorem counting_random_string :
    let r := generateRandomString Platform.counting Process.start 2
    (r.1 = none ↔ RandomFails Platform.counting Process.start 2) ∧
      (r.1 = none → Accounts Process.start r.2 [] []) ∧
      ∀ randomString, r.1 = some randomString →
        Accounts Process.start r.2 [randomString.addr] [] ∧
        (∀ x ∈ randomString.bytes.dropLast, Alphanumeric x) ∧
        randomString.bytes = ((List.range (2 : Int32).toInt.toNat).map fun i =>
          randomCharacter ((Platform.counting.randomRead Process.start i).2.headD 0)) ++ [0] :=
  generateRandomString_spec Platform.counting Process.start (by decide)

example : (generateRandomString Platform.counting Process.start 2).1.map Block.bytes =
    some [49, 50, 0] := by decide

end AudioFS
